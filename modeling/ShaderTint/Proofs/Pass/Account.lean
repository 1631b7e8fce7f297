import Mathlib.Data.List.Nodup
import ShaderTint.Proofs.Pass.Occurrence

namespace ShaderTint

/-!
# How often a node is highlighted

The table says what the rule at a node highlights. Here it is turned round: from
where a node stands, how often does a pass highlight that node with each tag?

Main statement: `Occurrence.run_emits_account` says that a full pass highlights every
occurrence of a tree just as often as its `Occurrence.account` says.
-/

namespace Occurrence

/-! ## The account of an occurrence -/

/-- Is the parent of this kind? -/
def under
    (occurrence : Occurrence)
    (kind : Kind) :
    Bool :=
  match occurrence.above with
  | [] => false
  | (parent, _) :: _ => parent.kind == kind

/-- Is it the first child of its parent whose kind passes a test? -/
def isFirst
    (occurrence : Occurrence)
    (test : Kind → Bool) :
    Bool :=
  match occurrence.above with
  | [] => false
  | (parent, index) :: _ =>
      parent.children.findIdx? (fun child => test child.kind) == some index

/-- Is it the very first child of its parent? -/
def leads
    (occurrence : Occurrence) :
    Bool :=
  match occurrence.above with
  | [] => false
  | (_, index) :: _ => index == 0

/-- Does it come right after its parent's first child in a type position? -/
def followsFirstType
    (occurrence : Occurrence) :
    Bool :=
  match occurrence.above with
  | [] => false
  | (parent, index) :: _ =>
      (parent.children.findIdx? (·.kind.isType)).map (· + 1) == some index

/-- Has its parent a child in a type position? -/
def besideType
    (occurrence : Occurrence) :
    Bool :=
  match occurrence.above with
  | [] => false
  | (parent, _) :: _ => parent.children.any (·.kind.isType)

/-- Is its parent the first child of the inner kind of a node of the outer kind? -/
def inFirst
    (occurrence : Occurrence)
    (inner outer : Kind) :
    Bool :=
  occurrence.parent?.any fun parent =>
    parent.isFirst (· == inner) && parent.under outer

/-- Number of its parent's children that are calls. -/
def siblingCalls
    (occurrence : Occurrence) :
    Nat :=
  match occurrence.above with
  | [] => 0
  | (parent, _) :: _ => parent.children.countP (·.kind == .callOperator)

/-- Is its parent's first operator a call? -/
def callFirst
    (occurrence : Occurrence) :
    Bool :=
  match occurrence.above with
  | [] => false
  | (parent, _) :: _ =>
      (parent.children.find? (·.kind.isPostfixOperator)).any
        (·.kind == .callOperator)

/-- The name of a function: an identifier right after the header's return type. -/
def namesFunction
    (occurrence : Occurrence) :
    Bool :=
  occurrence.node.kind == .identifier &&
    occurrence.inFirst .functionHeader .functionDeclaration &&
    occurrence.followsFirstType

/-- The bare operand of a postfix expression. -/
def isOperand
    (occurrence : Occurrence) :
    Bool :=
  occurrence.node.kind == .identifier &&
    occurrence.under .postfixExpression && occurrence.leads

/-- The name of a variable in the first variable declaration of a member with a type. -/
def namesMember
    (occurrence : Occurrence) :
    Bool :=
  occurrence.node.kind == .identifier &&
    occurrence.inFirst .variableDeclaration .fieldDeclaration &&
    occurrence.besideType

/-- How often a node that stands here is highlighted with each tag. -/
def account
    (occurrence : Occurrence) :
    Tag → Nat
  | .keyword =>
      if occurrence.node.kind = .builtInType ∨
          occurrence.node.kind = .semantic then
        1
      else
        0
  | .variableIdentifier =>
      if occurrence.node.kind = .identifier ∧
          occurrence.under .variableDeclaration then
        1
      else
        0
  | .fieldIdentifier =>
      if (occurrence.under .fieldOperator ∧
            occurrence.isFirst (· == .identifier)) ∨
          occurrence.namesMember then
        1
      else
        0
  | .typeIdentifier =>
      if ((occurrence.under .structDeclaration ∧
              occurrence.isFirst (· == .identifier)) ∨
            (occurrence.under .singleVariableDeclaration ∧
              occurrence.isFirst Kind.isType)) ∨
          (occurrence.isFirst Kind.isType ∧
            (occurrence.inFirst .variableDeclaration .fieldDeclaration ∨
              occurrence.inFirst .functionHeader .functionDeclaration)) then
        1
      else
        0
  | .functionIdentifier =>
      if occurrence.namesFunction then
        1
      else if occurrence.isOperand then
        occurrence.siblingCalls + (if occurrence.callFirst then 1 else 0)
      else
        0

/-! ## Children by position -/

/-- A node that really is the child at the position that leads down to it. -/
def Standing
    (occurrence : Occurrence) :
    Prop :=
  ∀ parent index rest,
    occurrence.above = (parent, index) :: rest →
    parent.children[index]? = some occurrence.node

/-- What can be reached from a root is a child of what is above it. -/
theorem Within.standing
    {root : Node}
    {occurrence : Occurrence}
    (reached : Within root occurrence) :
    occurrence.Standing := by
  intro parent index rest shape
  cases reached with
  | ofRoot =>
      simp [Occurrence.ofRoot] at shape
  | child _ present =>
      simp only [Occurrence.child, List.cons.injEq, Prod.mk.injEq] at shape
      obtain ⟨⟨rfl, rfl⟩, _⟩ := shape
      exact present

/-- What is above something within a tree is within the tree. -/
theorem Within.parent
    {root : Node}
    {occurrence parent : Occurrence}
    (reached : Within root occurrence)
    (isParent : occurrence.parent? = some parent) :
    Within root parent := by
  cases reached with
  | ofRoot =>
      simp [parent?, Occurrence.ofRoot] at isParent
  | child parentReached _ =>
      cases isParent
      exact parentReached

/-- The child at a position is the occurrence that leads there. -/
theorem getElem?_children_eq_some_iff
    {occurrence below : Occurrence}
    {index : Nat}
    (standing : below.Standing) :
    occurrence.children[index]? = some below ↔
      below.above = (occurrence.node, index) :: occurrence.above := by
  rw [children, List.getElem?_mapIdx, Option.map_eq_some_iff]
  constructor
  · rintro ⟨node, _, rfl⟩
    rfl
  · intro shape
    refine ⟨below.node, standing _ _ _ shape, ?_⟩
    rw [child, ← shape]

/-- The position of the first child that passes a test does not depend on the place. -/
theorem findIdx_children
    (occurrence : Occurrence)
    (test : Kind → Bool) :
    occurrence.children.findIdx (fun below => test below.node.kind) =
      occurrence.node.children.findIdx (fun child => test child.kind) := by
  rw [children_node, List.findIdx_map]
  rfl

/-- The parent and the position of an occurrence make up the way down to it. -/
theorem above_eq_cons_iff
    {occurrence below : Occurrence} :
    below.parent? = some occurrence ↔
      ∃ index, below.above = (occurrence.node, index) :: occurrence.above := by
  unfold parent?
  cases shape : below.above with
  | nil =>
      simp
  | cons head rest =>
      obtain ⟨parent, index⟩ := head
      cases occurrence
      simp

/-- The children of an occurrence are the occurrences right below it. -/
theorem mem_children_iff_parent?
    {occurrence below : Occurrence}
    (standing : below.Standing) :
    below ∈ occurrence.children ↔ below.parent? = some occurrence := by
  rw [above_eq_cons_iff, List.mem_iff_getElem?]
  simp only [getElem?_children_eq_some_iff standing]

/-- No child is listed twice. -/
theorem nodup_children
    (occurrence : Occurrence) :
    occurrence.children.Nodup := by
  rw [List.nodup_iff_injective_getElem]
  intro first second same
  simp only [children, List.getElem_mapIdx, child, mk.injEq,
    List.cons.injEq, Prod.mk.injEq, true_and, and_true] at same
  exact Fin.ext same.2

/-! ## Parts by position -/

section

variable {occurrence below : Occurrence} (standing : below.Standing)
include standing

/-- The first child that passes a test, seen from that child. -/
theorem first?_eq_some_iff
    (test : Kind → Bool) :
    Table.first? test occurrence = some below ↔
      below.parent? = some occurrence ∧ below.isFirst test := by
  rw [Table.first?, List.find?_eq_getElem?_findIdx]
  change
    occurrence.children[occurrence.children.findIdx
      fun child => test child.node.kind]? = some below ↔ _
  rw [findIdx_children, getElem?_children_eq_some_iff standing,
    above_eq_cons_iff]
  constructor
  · intro shape
    refine ⟨⟨_, shape⟩, ?_⟩
    obtain ⟨inside, _⟩ :=
      List.getElem?_eq_some_iff.mp (standing _ _ _ shape)
    simp [isFirst, shape, List.findIdx?_eq_some_iff_findIdx_eq, inside]
  · rintro ⟨⟨index, shape⟩, first⟩
    simp only [isFirst, shape, beq_iff_eq,
      List.findIdx?_eq_some_iff_findIdx_eq] at first
    rw [first.2]
    exact shape

/-- The identifiers among the children, seen from one of them. -/
theorem mem_identifiers_iff :
    below ∈ Table.identifiers occurrence ↔
      below.parent? = some occurrence ∧ below.node.kind = .identifier := by
  simp only [Table.identifiers, List.mem_filter, beq_iff_eq, Shaped.kind]
  exact and_congr_left fun _ => mem_children_iff_parent? standing

/-- The leading identifier, seen from the identifier. -/
theorem leadingIdentifier?_eq_some_iff :
    Table.leadingIdentifier? occurrence = some below ↔
      below.parent? = some occurrence ∧
        below.leads ∧ below.node.kind = .identifier := by
  have atZero :
      Table.leadingIdentifier? occurrence = some below ↔
        occurrence.children[0]? = some below ∧
          below.node.kind = .identifier := by
    unfold Table.leadingIdentifier?
    simp only [Shaped.children, Shaped.kind]
    cases occurrence.children with
    | nil =>
        simp
    | cons operand rest =>
        simp only [Option.ite_none_right_eq_some, Option.some.injEq,
          List.getElem?_cons_zero]
        constructor
        · rintro ⟨identifier, rfl⟩
          exact ⟨rfl, identifier⟩
        · rintro ⟨rfl, identifier⟩
          exact ⟨identifier, rfl⟩
  rw [atZero, getElem?_children_eq_some_iff standing, above_eq_cons_iff,
    ← and_assoc]
  apply and_congr_left
  intro _
  constructor
  · intro shape
    exact ⟨⟨0, shape⟩, by simp [leads, shape]⟩
  · rintro ⟨⟨index, shape⟩, first⟩
    simp only [leads, shape, beq_iff_eq] at first
    exact first ▸ shape

/-- The child right after the first type, seen from that child. -/
theorem getElem?_one_fromType_eq_some_iff :
    (Table.fromType occurrence)[1]? = some below ↔
      below.parent? = some occurrence ∧ below.followsFirstType := by
  have atNext :
      (Table.fromType occurrence)[1]? =
        occurrence.children[occurrence.node.children.findIdx
          (·.kind.isType) + 1]? := by
    rw [← findIdx_children, Table.fromType,
      List.dropWhile_eq_drop_findIdx_not, List.getElem?_drop]
    simp only [Bool.not_not]
    rfl
  rw [atNext, getElem?_children_eq_some_iff standing, above_eq_cons_iff]
  constructor
  · intro shape
    refine ⟨⟨_, shape⟩, ?_⟩
    obtain ⟨inside, _⟩ :=
      List.getElem?_eq_some_iff.mp (standing _ _ _ shape)
    simp [followsFirstType, shape, List.findIdx?_eq_some_iff_findIdx_eq,
      Nat.lt_of_succ_lt inside]
  · rintro ⟨⟨index, shape⟩, follows⟩
    simp only [followsFirstType, shape, beq_iff_eq, Option.map_eq_some_iff,
      List.findIdx?_eq_some_iff_findIdx_eq] at follows
    obtain ⟨position, ⟨_, rfl⟩, rfl⟩ := follows
    exact shape

/-- A node that comes first among those that pass a test passes the test. -/
theorem kind_of_isFirst
    {test : Kind → Bool}
    (first : below.isFirst test) :
    test below.node.kind := by
  unfold isFirst at first
  cases shape : below.above with
  | nil =>
      simp [shape] at first
  | cons head rest =>
      obtain ⟨parent, index⟩ := head
      simp only [shape, beq_iff_eq] at first
      obtain ⟨inside, passes, _⟩ :=
        List.findIdx?_eq_some_iff_getElem.mp first
      obtain ⟨_, found⟩ :=
        List.getElem?_eq_some_iff.mp (standing _ _ _ shape)
      rwa [found] at passes

end

/-! ## What the parent tells -/

section

variable {occurrence below : Occurrence}

/-- The occurrence two levels up. -/
def grandparent?
    (occurrence : Occurrence) :
    Option Occurrence :=
  occurrence.parent?.bind parent?

/-- A root stands under nothing. -/
theorem under_eq_false_of_parent
    (isRoot : below.parent? = none)
    (kind : Kind) :
    below.under kind = false := by
  unfold parent? at isRoot
  unfold under
  cases shape : below.above with
  | nil =>
      rfl
  | cons head rest =>
      simp [shape] at isRoot

variable (isParent : below.parent? = some occurrence)
include isParent

theorem under_iff_of_parent
    (kind : Kind) :
    below.under kind ↔ occurrence.node.kind = kind := by
  obtain ⟨index, shape⟩ := above_eq_cons_iff.mp isParent
  simp [under, shape]

theorem inFirst_iff_of_parent
    (inner outer : Kind) :
    below.inFirst inner outer ↔
      occurrence.isFirst (· == inner) ∧ occurrence.under outer := by
  simp [inFirst, isParent]

theorem besideType_iff_of_parent :
    below.besideType ↔ (Table.first? Kind.isType occurrence).isSome := by
  obtain ⟨index, shape⟩ := above_eq_cons_iff.mp isParent
  have sameFirst :=
    Table.first?_map keepsShape_node Kind.isType occurrence
  rw [← Option.isSome_map, ← sameFirst, Table.first?, List.find?_isSome]
  simp [besideType, shape, Shaped.children, Shaped.kind]

theorem callFirst_iff_of_parent :
    below.callFirst ↔
      (Table.first? Kind.isPostfixOperator occurrence).map Shaped.kind =
        some .callOperator := by
  obtain ⟨index, shape⟩ := above_eq_cons_iff.mp isParent
  have sameFirst :=
    Table.first?_map keepsShape_node Kind.isPostfixOperator occurrence
  have sameKind :
      (Table.first? Kind.isPostfixOperator occurrence).map Shaped.kind =
        (Table.first? Kind.isPostfixOperator occurrence.node).map
          Shaped.kind := by
    rw [sameFirst, Option.map_map]
    rfl
  rw [sameKind]
  simp only [callFirst, shape, Table.first?, Shaped.children, Shaped.kind]
  cases occurrence.node.children.find? (·.kind.isPostfixOperator) <;> simp

theorem siblingCalls_of_parent :
    below.siblingCalls =
      occurrence.children.countP (·.node.kind == .callOperator) := by
  obtain ⟨index, shape⟩ := above_eq_cons_iff.mp isParent
  simp only [siblingCalls, shape, children_node, List.countP_map]
  rfl

end

/-! ## Which rules highlight an occurrence -/

section

variable {root : Node} {source below : Occurrence}

theorem entry_keyword_iff :
    Table.Entry source.parent? source .keyword below ↔
      source = below ∧
        (below.node.kind = .builtInType ∨ below.node.kind = .semantic) := by
  constructor
  · intro entry
    cases entry with
    | keyword kind =>
        exact ⟨rfl, kind⟩
  · rintro ⟨rfl, kind⟩
    exact .keyword kind

variable (reached : Within root below)
include reached

/--
Parts of a node's first child of some kind, seen from the part.

Only nodes of the outer kind look into their children in this way.
-/
theorem exists_first?_iff
    {inner outer : Kind} :
    (source.node.kind = outer ∧
        ∃ middle,
          Table.first? (· == inner) source = some middle ∧
            below.parent? = some middle) ↔
      below.grandparent? = some source ∧ below.inFirst inner outer := by
  constructor
  · rintro ⟨kind, middle, found, isParent⟩
    have middleStanding := (reached.parent isParent).standing
    obtain ⟨isGrandparent, first⟩ :=
      (first?_eq_some_iff middleStanding _).mp found
    refine ⟨?_, ?_⟩
    · simp [grandparent?, isParent, isGrandparent]
    · rw [inFirst_iff_of_parent isParent]
      exact ⟨first, (under_iff_of_parent isGrandparent _).mpr kind⟩
  · rintro ⟨isGrandparent, inFirst⟩
    obtain ⟨middle, isParent, middleParent⟩ :=
      Option.bind_eq_some_iff.mp isGrandparent
    have middleStanding := (reached.parent isParent).standing
    rw [inFirst_iff_of_parent isParent] at inFirst
    exact ⟨(under_iff_of_parent middleParent _).mp inFirst.2,
      middle, (first?_eq_some_iff middleStanding _).mpr
        ⟨middleParent, inFirst.1⟩, isParent⟩

theorem entry_variable_iff :
    Table.Entry source.parent? source .variableIdentifier below ↔
      below.parent? = some source ∧
        (below.node.kind = .identifier ∧
          below.under .variableDeclaration) := by
  constructor
  · intro entry
    cases entry with
    | variableName kind present =>
        obtain ⟨isParent, identifier⟩ :=
          (mem_identifiers_iff reached.standing).mp present
        exact ⟨isParent, identifier,
          (under_iff_of_parent isParent _).mpr kind⟩
  · rintro ⟨isParent, identifier, under⟩
    exact .variableName ((under_iff_of_parent isParent _).mp under)
      ((mem_identifiers_iff reached.standing).mpr ⟨isParent, identifier⟩)

theorem entry_field_iff :
    Table.Entry source.parent? source .fieldIdentifier below ↔
      (below.parent? = some source ∧
          (below.under .fieldOperator ∧
            below.isFirst (· == .identifier))) ∨
        (below.grandparent? = some source ∧ below.namesMember) := by
  simp only [namesMember, Bool.and_eq_true, beq_iff_eq]
  constructor
  · intro entry
    cases entry with
    | fieldAccess kind found =>
        obtain ⟨isParent, first⟩ :=
          (first?_eq_some_iff reached.standing _).mp found
        exact .inl ⟨isParent,
          (under_iff_of_parent isParent _).mpr kind, first⟩
    | memberName kind found typed present =>
        obtain ⟨isParent, identifier⟩ :=
          (mem_identifiers_iff reached.standing).mp present
        obtain ⟨isGrandparent, inFirst⟩ :=
          (exists_first?_iff reached).mp ⟨kind, _, found, isParent⟩
        exact .inr ⟨isGrandparent, ⟨identifier, inFirst⟩,
          (besideType_iff_of_parent isParent).mpr typed⟩
  · rintro (⟨isParent, under, first⟩ |
      ⟨isGrandparent, ⟨identifier, inFirst⟩, beside⟩)
    · exact .fieldAccess ((under_iff_of_parent isParent _).mp under)
        ((first?_eq_some_iff reached.standing _).mpr ⟨isParent, first⟩)
    · obtain ⟨kind, middle, found, isParent⟩ :=
        (exists_first?_iff reached).mpr ⟨isGrandparent, inFirst⟩
      exact .memberName kind found
        ((besideType_iff_of_parent isParent).mp beside)
        ((mem_identifiers_iff reached.standing).mpr ⟨isParent, identifier⟩)

theorem entry_type_iff :
    Table.Entry source.parent? source .typeIdentifier below ↔
      (below.parent? = some source ∧
          ((below.under .structDeclaration ∧
              below.isFirst (· == .identifier)) ∨
            (below.under .singleVariableDeclaration ∧
              below.isFirst Kind.isType))) ∨
        (below.grandparent? = some source ∧
          (below.isFirst Kind.isType ∧
            (below.inFirst .variableDeclaration .fieldDeclaration ∨
              below.inFirst .functionHeader .functionDeclaration))) := by
  have firstOf
      (above : Occurrence)
      (test : Kind → Bool) :
      Table.first? test above = some below ↔
        below.parent? = some above ∧ below.isFirst test :=
    first?_eq_some_iff reached.standing test
  constructor
  · intro entry
    cases entry with
    | structName kind found =>
        obtain ⟨isParent, first⟩ := (firstOf _ _).mp found
        exact .inl ⟨isParent,
          .inl ⟨(under_iff_of_parent isParent _).mpr kind, first⟩⟩
    | loneType kind found =>
        obtain ⟨isParent, first⟩ := (firstOf _ _).mp found
        exact .inl ⟨isParent,
          .inr ⟨(under_iff_of_parent isParent _).mpr kind, first⟩⟩
    | memberType kind found type =>
        obtain ⟨isParent, first⟩ := (firstOf _ _).mp type
        obtain ⟨isGrandparent, inFirst⟩ :=
          (exists_first?_iff reached).mp ⟨kind, _, found, isParent⟩
        exact .inr ⟨isGrandparent, first, .inl inFirst⟩
    | returnType kind found type =>
        obtain ⟨isParent, first⟩ := (firstOf _ _).mp type
        obtain ⟨isGrandparent, inFirst⟩ :=
          (exists_first?_iff reached).mp ⟨kind, _, found, isParent⟩
        exact .inr ⟨isGrandparent, first, .inr inFirst⟩
  · rintro (⟨isParent, ⟨under, first⟩ | ⟨under, first⟩⟩ |
      ⟨isGrandparent, first, inFirst | inFirst⟩)
    · exact .structName ((under_iff_of_parent isParent _).mp under)
        ((firstOf _ _).mpr ⟨isParent, first⟩)
    · exact .loneType ((under_iff_of_parent isParent _).mp under)
        ((firstOf _ _).mpr ⟨isParent, first⟩)
    · obtain ⟨kind, middle, found, isParent⟩ :=
        (exists_first?_iff reached).mpr ⟨isGrandparent, inFirst⟩
      exact .memberType kind found ((firstOf _ _).mpr ⟨isParent, first⟩)
    · obtain ⟨kind, middle, found, isParent⟩ :=
        (exists_first?_iff reached).mpr ⟨isGrandparent, inFirst⟩
      exact .returnType kind found ((firstOf _ _).mpr ⟨isParent, first⟩)

theorem entry_function_iff :
    Table.Entry source.parent? source .functionIdentifier below ↔
      (below.grandparent? = some source ∧ below.namesFunction) ∨
        (below.parent? = some source ∧
          (below.isOperand ∧ below.callFirst)) ∨
        (source.node.kind = .callOperator ∧
          source.parent? = below.parent? ∧ below.isOperand) := by
  simp only [namesFunction, isOperand, Bool.and_eq_true, beq_iff_eq]
  constructor
  · intro entry
    cases entry with
    | functionName kind found name identifier =>
        obtain ⟨isParent, follows⟩ :=
          (getElem?_one_fromType_eq_some_iff reached.standing).mp name
        obtain ⟨isGrandparent, inFirst⟩ :=
          (exists_first?_iff reached).mp ⟨kind, _, found, isParent⟩
        exact .inl ⟨isGrandparent, ⟨identifier, inFirst⟩, follows⟩
    | calledOperand kind calls found =>
        obtain ⟨isParent, leads, identifier⟩ :=
          (leadingIdentifier?_eq_some_iff reached.standing).mp found
        exact .inr (.inl ⟨isParent,
          ⟨⟨identifier, (under_iff_of_parent isParent _).mpr kind⟩, leads⟩,
          (callFirst_iff_of_parent isParent).mpr calls⟩)
    | callee kind sourceParent postfixed found =>
        obtain ⟨isParent, leads, identifier⟩ :=
          (leadingIdentifier?_eq_some_iff reached.standing).mp found
        exact .inr (.inr ⟨kind, sourceParent.trans isParent.symm,
          ⟨identifier, (under_iff_of_parent isParent _).mpr postfixed⟩,
          leads⟩)
  · rintro (⟨isGrandparent, ⟨identifier, inFirst⟩, follows⟩ |
      ⟨isParent, ⟨⟨identifier, under⟩, leads⟩, calls⟩ |
      ⟨kind, sameParent, ⟨identifier, under⟩, leads⟩)
    · obtain ⟨kind, middle, found, isParent⟩ :=
        (exists_first?_iff reached).mpr ⟨isGrandparent, inFirst⟩
      exact .functionName kind found
        ((getElem?_one_fromType_eq_some_iff reached.standing).mpr
          ⟨isParent, follows⟩) identifier
    · exact .calledOperand ((under_iff_of_parent isParent _).mp under)
        ((callFirst_iff_of_parent isParent).mp calls)
        ((leadingIdentifier?_eq_some_iff reached.standing).mpr
          ⟨isParent, leads, identifier⟩)
    · cases isParent : below.parent? with
      | none =>
          simp [under_eq_false_of_parent isParent] at under
      | some expression =>
          exact .callee kind (sameParent.trans isParent)
            ((under_iff_of_parent isParent _).mp under)
            ((leadingIdentifier?_eq_some_iff reached.standing).mpr
              ⟨isParent, leads, identifier⟩)

end

/-! ## Counting -/

section

variable {root : Node} {below : Occurrence}

/--
An emission is made as often as there are occurrences whose rule makes it.

The rule at one occurrence makes no emission twice.
-/
theorem count_emissions_eq_countP
    (root : Node)
    {tag : Tag}
    {target : Occurrence}
    {isSource : Occurrence → Prop}
    [DecidablePred isSource]
    (sources :
      ∀ source,
        Table.Entry source.parent? source tag target ↔ isSource source) :
    (emissions root).count (tag, target) =
      (occurrences root).countP fun source => decide (isSource source) := by
  rw [emissions, List.count_flatMap]
  induction occurrences root with
  | nil =>
      rfl
  | cons source rest inductionHypothesis =>
      have once :=
        (Table.nodup_entries nodup_children source.parent? source).count
          (a := (tag, target))
      rw [List.map_cons, List.sum_cons, inductionHypothesis,
        List.countP_cons, Nat.add_comm, Function.comp_apply, once]
      simp only [Table.mem_entries_iff, sources, decide_eq_true_eq]

/-- One place that is there if a condition holds. -/
theorem countP_eq_of_place
    {place : Option Occurrence}
    (inTree : ∀ source, place = some source → Within root source)
    {condition : Prop}
    [Decidable condition]
    (needsPlace : condition → place.isSome) :
    ((occurrences root).countP fun source =>
        decide (place = some source ∧ condition)) =
      if condition then 1 else 0 := by
  by_cases holds : condition
  · obtain ⟨source, isPlace⟩ :=
      Option.isSome_iff_exists.mp (needsPlace holds)
    have once :=
      List.count_eq_one_of_mem (nodup_occurrences root)
        (mem_occurrences_iff.mpr (inTree source isPlace))
    simp only [isPlace, holds, and_true, Option.some.injEq, if_true]
    rw [← once]
    apply List.countP_congr
    intro other _
    rw [decide_eq_true_eq, beq_iff_eq]
    exact eq_comm
  · simp [holds]

/-- Sources of two kinds that exclude each other add up. -/
theorem countP_or_of_disjoint
    {first second : Occurrence → Prop}
    [DecidablePred first]
    [DecidablePred second]
    (disjoint : ∀ source, first source → ¬second source)
    (sources : List Occurrence) :
    (sources.countP fun source =>
        decide (first source ∨ second source)) =
      (sources.countP fun source => decide (first source)) +
        sources.countP fun source => decide (second source) := by
  induction sources with
  | nil =>
      rfl
  | cons source rest inductionHypothesis =>
      simp only [List.countP_cons, inductionHypothesis, decide_eq_true_eq]
      by_cases isFirst : first source
      · simp [isFirst, disjoint source isFirst, Nat.add_right_comm]
      · simp [isFirst, Nat.add_assoc]

/-- The calls beside an occurrence are the calls that its parent has. -/
theorem countP_siblingCalls
    (reached : Within root below)
    {condition : Prop}
    [Decidable condition]
    (needsParent : condition → below.parent?.isSome) :
    ((occurrences root).countP fun source =>
        decide (source.node.kind = .callOperator ∧
          source.parent? = below.parent? ∧ condition)) =
      if condition then below.siblingCalls else 0 := by
  by_cases holds : condition
  · obtain ⟨parent, isParent⟩ :=
      Option.isSome_iff_exists.mp (needsParent holds)
    have parentReached := reached.parent isParent
    have sameCalls :
        ((occurrences root).filter fun source =>
            decide (source.node.kind = .callOperator ∧
              source.parent? = below.parent? ∧ condition)).Perm
          (parent.children.filter (·.node.kind == .callOperator)) := by
      rw [List.perm_ext_iff_of_nodup
        ((nodup_occurrences root).filter _)
        ((nodup_children parent).filter _)]
      intro source
      simp only [List.mem_filter, mem_occurrences_iff, isParent, holds,
        and_true, decide_eq_true_eq, beq_iff_eq]
      constructor
      · rintro ⟨sourceReached, kind, sameParent⟩
        exact ⟨(mem_children_iff_parent? sourceReached.standing).mpr
          sameParent, kind⟩
      · rintro ⟨isChild, kind⟩
        obtain ⟨index, node, present, rfl⟩ := mem_children_iff.mp isChild
        exact ⟨.child parentReached present, kind, rfl⟩
    rw [if_pos holds, siblingCalls_of_parent isParent,
      List.countP_eq_length_filter, List.countP_eq_length_filter]
    exact sameCalls.length_eq
  · simp [holds]

/-- What stands under some kind has a parent. -/
theorem isSome_parent?_of_under
    {kind : Kind}
    (under : below.under kind) :
    below.parent?.isSome := by
  cases isParent : below.parent? with
  | none =>
      rw [under_eq_false_of_parent isParent] at under
      contradiction
  | some _ =>
      rfl

/-- What stands in the first child of some kind has two nodes above it. -/
theorem isSome_grandparent?_of_inFirst
    {inner outer : Kind}
    (inFirst : below.inFirst inner outer) :
    below.grandparent?.isSome := by
  cases isParent : below.parent? with
  | none =>
      simp [Occurrence.inFirst, isParent] at inFirst
  | some parent =>
      rw [inFirst_iff_of_parent isParent] at inFirst
      simpa [grandparent?, isParent] using
        isSome_parent?_of_under inFirst.2

/-- What stands in the first child of some kind stands under that kind. -/
theorem under_of_inFirst
    (reached : Within root below)
    {inner outer : Kind}
    (inFirst : below.inFirst inner outer) :
    below.under inner := by
  cases isParent : below.parent? with
  | none =>
      simp [Occurrence.inFirst, isParent] at inFirst
  | some parent =>
      rw [inFirst_iff_of_parent isParent] at inFirst
      rw [under_iff_of_parent isParent]
      simpa using
        kind_of_isFirst (reached.parent isParent).standing inFirst.1

/-- Nothing stands under two kinds. -/
theorem under_unique
    {first second : Kind}
    (underFirst : below.under first)
    (underSecond : below.under second) :
    first = second := by
  obtain ⟨parent, isParent⟩ :=
    Option.isSome_iff_exists.mp (isSome_parent?_of_under underFirst)
  rw [under_iff_of_parent isParent] at underFirst underSecond
  exact underFirst.symm.trans underSecond

/-- What is two levels above something within a tree is within the tree. -/
theorem Within.grandparent
    (reached : Within root below)
    {source : Occurrence}
    (isGrandparent : below.grandparent? = some source) :
    Within root source := by
  obtain ⟨middle, isParent, middleParent⟩ :=
    Option.bind_eq_some_iff.mp isGrandparent
  exact (reached.parent isParent).parent middleParent

/--
Sources at the parent and at the grandparent, under conditions that exclude each
other, are one source in all.
-/
theorem countP_parent_or_grandparent
    (reached : Within root below)
    {near far : Prop}
    [Decidable near]
    [Decidable far]
    (needsParent : near → below.parent?.isSome)
    (needsGrandparent : far → below.grandparent?.isSome)
    (exclusive : near → ¬far) :
    ((occurrences root).countP fun source =>
        decide ((below.parent? = some source ∧ near) ∨
          (below.grandparent? = some source ∧ far))) =
      if near ∨ far then 1 else 0 := by
  rw [countP_or_of_disjoint,
    countP_eq_of_place (fun _ => reached.parent) needsParent,
    countP_eq_of_place (fun _ => reached.grandparent) needsGrandparent]
  · by_cases isNear : near
    · simp [isNear, exclusive isNear]
    · simp [isNear]
  · rintro source ⟨_, isNear⟩ ⟨_, isFar⟩
    exact exclusive isNear isFar

/-- Nothing is its own parent. -/
theorem parent?_ne_self
    (occurrence : Occurrence) :
    occurrence.parent? ≠ some occurrence := by
  intro isParent
  obtain ⟨index, shape⟩ := above_eq_cons_iff.mp isParent
  have lengths := congrArg List.length shape
  simp at lengths

/-- The name of a function has two nodes above it. -/
theorem isSome_grandparent?_of_namesFunction
    (names : below.namesFunction) :
    below.grandparent?.isSome := by
  simp only [namesFunction, Bool.and_eq_true] at names
  exact isSome_grandparent?_of_inFirst names.1.2

/-- An operand has a parent. -/
theorem isSome_parent?_of_isOperand
    (operand : below.isOperand) :
    below.parent?.isSome := by
  simp only [isOperand, Bool.and_eq_true] at operand
  exact isSome_parent?_of_under operand.1.2

/-- The name of a function stands in a header, so it is no operand. -/
theorem not_isOperand_of_namesFunction
    (reached : Within root below)
    (names : below.namesFunction) :
    ¬below.isOperand := by
  intro operand
  simp only [namesFunction, isOperand, Bool.and_eq_true] at names operand
  have same :=
    under_unique (under_of_inFirst reached names.1.2) operand.1.2
  contradiction

/-- Every occurrence is highlighted as often as its account says. -/
theorem count_emissions
    (reached : Within root below)
    (tag : Tag) :
    (emissions root).count (tag, below) = below.account tag := by
  cases tag with
  | keyword =>
      have sources (source : Occurrence) :
          Table.Entry source.parent? source .keyword below ↔
            some below = some source ∧
              (below.node.kind = .builtInType ∨
                below.node.kind = .semantic) := by
        rw [entry_keyword_iff, Option.some.injEq, @eq_comm _ source]
      rw [count_emissions_eq_countP root sources]
      refine countP_eq_of_place ?_ (fun _ => rfl)
      intro source same
      exact Option.some.inj same ▸ reached
  | variableIdentifier =>
      rw [count_emissions_eq_countP root fun _ =>
        entry_variable_iff reached]
      exact countP_eq_of_place (fun _ => reached.parent)
        (fun holds => isSome_parent?_of_under holds.2)
  | fieldIdentifier =>
      rw [count_emissions_eq_countP root fun _ => entry_field_iff reached]
      refine countP_parent_or_grandparent reached
        (fun near => isSome_parent?_of_under near.1) ?_ ?_
      · intro far
        simp only [namesMember, Bool.and_eq_true] at far
        exact isSome_grandparent?_of_inFirst far.1.2
      · intro near far
        simp only [namesMember, Bool.and_eq_true] at far
        have same :=
          under_unique near.1 (under_of_inFirst reached far.1.2)
        contradiction
  | typeIdentifier =>
      rw [count_emissions_eq_countP root fun _ => entry_type_iff reached]
      refine countP_parent_or_grandparent reached ?_ ?_ ?_
      · rintro (near | near) <;>
          exact isSome_parent?_of_under near.1
      · rintro ⟨_, far | far⟩ <;>
          exact isSome_grandparent?_of_inFirst far
      · -- The four kinds of parents are different.
        rintro (near | near) ⟨_, far | far⟩ <;>
          have same :=
            under_unique near.1 (under_of_inFirst reached far) <;>
          contradiction
  | functionIdentifier =>
      rw [count_emissions_eq_countP root fun _ => entry_function_iff reached,
        countP_or_of_disjoint, countP_or_of_disjoint,
        countP_eq_of_place (fun _ => reached.grandparent)
          isSome_grandparent?_of_namesFunction,
        countP_eq_of_place (fun _ => reached.parent)
          (fun holds => isSome_parent?_of_isOperand holds.1),
        countP_siblingCalls reached isSome_parent?_of_isOperand, account]
      · by_cases names : below.namesFunction
        · simp [names, not_isOperand_of_namesFunction reached names]
        · by_cases operand : below.isOperand <;>
            simp [names, operand, Nat.add_comm]
      · rintro source ⟨isParent, _⟩ ⟨_, sameParent, _⟩
        exact parent?_ne_self source (sameParent.trans isParent)
      · rintro source ⟨_, names⟩ (⟨_, operand, _⟩ | ⟨_, _, operand⟩) <;>
          exact not_isOperand_of_namesFunction reached names operand

/-- The children of something within a tree are within the tree. -/
theorem Within.of_mem_children
    {occurrence : Occurrence}
    (reached : Within root occurrence)
    (isChild : below ∈ occurrence.children) :
    Within root below := by
  obtain ⟨index, node, present, rfl⟩ := mem_children_iff.mp isChild
  exact .child reached present

/-- Rules highlight nodes of the tree. -/
theorem Within.of_entry
    {source : Occurrence}
    {tag : Tag}
    (reached : Within root source)
    (entry : Table.Entry source.parent? source tag below) :
    Within root below := by
  cases entry.near with
  | self =>
      exact reached
  | child isChild =>
      exact reached.of_mem_children isChild
  | grandchild isMiddle isChild =>
      exact (reached.of_mem_children isMiddle).of_mem_children isChild
  | callee _ isParent _ found =>
      exact (reached.parent isParent).of_mem_children
        (Table.mem_children_of_leadingIdentifier? found)

/-- Everything that a pass highlights stands in the tree. -/
theorem within_of_mem_emissions
    {tag : Tag}
    (member : (tag, below) ∈ emissions root) :
    Within root below := by
  obtain ⟨source, listed, entry⟩ := List.mem_flatMap.mp member
  exact (mem_occurrences_iff.mp listed).of_entry
    (Table.mem_entries_iff.mp entry)

/-- The highlight of an emission that is made for an occurrence. -/
def highlight
    (emission : Tag × Occurrence) :
    Highlight :=
  highlightOf (emission.1, emission.2.node)

/-- The highlights of the emissions are those that a pass makes. -/
theorem map_highlight_emissions
    (root : Node) :
    (emissions root).map highlight =
      (Table.inTree none root).map highlightOf := by
  rw [← map_node_emissions, List.map_map]
  rfl

/-- Where no other node has its span, an occurrence is told by its highlights. -/
theorem count_highlights_of_unique
    (unique :
      ∀ other,
        Within root other →
        other.node.span = below.node.span →
        other = below)
    (tag : Tag) :
    ((emissions root).map highlight).count (highlight (tag, below)) =
      (emissions root).count (tag, below) := by
  rw [List.count, List.countP_map, List.count]
  apply List.countP_congr
  rintro ⟨otherTag, other⟩ member
  have inTree := within_of_mem_emissions member
  simp only [Function.comp_apply, beq_iff_eq, highlight, highlightOf,
    Highlight.mk.injEq, Prod.mk.injEq]
  constructor
  · rintro ⟨sameSpan, sameTag⟩
    exact ⟨sameTag, unique other inTree sameSpan⟩
  · rintro ⟨rfl, rfl⟩
    exact ⟨rfl, rfl⟩

end

/--
A full pass highlights every node of a tree as often as its account says.

The emissions of the pass, with the places they are made for, are those of
`emissions`: forgetting the places gives what the visits on the trail of the pass
emit, and what the pass appends to its receiver. Each place of the tree is
emitted with each tag as often as its account says; and where no other place
has the same span, the highlights of that span are as many.
-/
theorem run_emits_account
    (tree : Node)
    (context : Context)
    (reporting : Reporting)
    (host : Host (Array Highlight))
    (flagDown : host.flags.isRaised context.family = false) :
    let settings := context.settings reporting
    let visited :=
      Pass.trail settings [{ node := tree, parent := none }]
        (Pass.Progress.start host)
    let result := Pass.run settings tree host
    let appended := (emissions tree).map highlight
    emissionsOf (Pass.effectsOf settings.rules visited) =
        (emissions tree).map (Prod.map id Occurrence.node) ∧
      result.host.sink.toList = host.sink.toList ++ appended ∧
      (∀ emission ∈ emissions tree, Within tree emission.2) ∧
      ∀ occurrence,
        Within tree occurrence →
        ∀ tag,
          (emissions tree).count (tag, occurrence) =
              occurrence.account tag ∧
            ((∀ other,
                Within tree other →
                other.node.span = occurrence.node.span →
                other = occurrence) →
              appended.count { span := occurrence.node.span, tag := tag } =
                occurrence.account tag) := by
  intro settings visited result appended
  have forgotten := map_node_emissions tree
  have visitedAll : visited = Pass.framesOf none tree :=
    Pass.trail_of_quiet tree (Pass.flagDown_settings flagDown reporting)
  refine ⟨?_, ?_, ?_, ?_⟩
  · rw [visitedAll, forgotten]
    exact Pass.emissionsOf_framesOf none tree
  · have added := Pass.toList_sink_run flagDown reporting tree
    rw [← forgotten, List.map_map] at added
    exact added
  · intro emission member
    exact within_of_mem_emissions member
  · intro occurrence reached tag
    have counted := count_emissions reached tag
    refine ⟨counted, ?_⟩
    intro unique
    exact (count_highlights_of_unique unique tag).trans counted

/-- The expression `f()()`, over bytes 0 to 5. -/
def chainedCalls : Node where
  kind := .postfixExpression
  span := .ofTested 0 5 (.refl true)
  children := [
    .leaf .identifier (.ofTested 0 1 (.refl true)),
    .leaf .callOperator (.ofTested 1 3 (.refl true)),
    .leaf .callOperator (.ofTested 3 5 (.refl true))]

/-- The `f` of `f()()` is highlighted by both calls and by the expression. -/
theorem run_emits_account_chainedCalls :
    let callee : Highlight :=
      ⟨⟨0, 1, by decide, by decide⟩, .functionIdentifier⟩
    let settings := Context.settings ⟨0, false⟩ .collect
    Pass.rawHost.flags.isRaised 0 = false ∧
      (Pass.run settings chainedCalls Pass.rawHost).host.sink.toList.count
          callee =
        3 := by
  intro callee settings
  have flagDown : Pass.rawHost.flags.isRaised 0 = false :=
    rfl
  obtain ⟨_, added, _, accounts⟩ :=
    run_emits_account chainedCalls ⟨0, false⟩ .collect Pass.rawHost flagDown
  have reached :
      Within chainedCalls
        ((ofRoot chainedCalls).child 0
          (.leaf .identifier callee.span)) :=
    .child .ofRoot rfl
  have unique :
      ∀ other ∈ occurrences chainedCalls,
        other.node.span = callee.span →
        other =
          (ofRoot chainedCalls).child 0 (.leaf .identifier callee.span) := by
    decide
  refine ⟨flagDown, ?_⟩
  rw [added]
  exact (accounts _ reached .functionIdentifier).2
    fun other otherReached =>
      unique other (mem_occurrences_iff.mpr otherReached)

end Occurrence

end ShaderTint
