import Mathlib.Data.List.Find
import Mathlib.Data.List.Nodup
import Mathlib.Data.List.TakeWhile
import ShaderTint.Proofs.Pass.Effects

namespace ShaderTint

/-!
# The table of rules

The rules as a table from the kind of a node to what is highlighted there. A row
looks at kinds and at the order of children and at nothing else, so the table is
written for anything that has a kind and children (`Shaped`): bare nodes, or
nodes that know where in a tree they stand.

Main statements: `emissionsOf_effects` says that a pass emits at a node what the
table lists for it, and `mismatchesOf_effects` what it records there;
`Table.entries_map` says that the table commutes with every map that keeps kinds and
children, `Table.entries_map_of_keepsName` that it also does with one that corrects
errors in function headers, away from the functions that get a name by it; and
`Table.Entry.near` says how far from a node its rows reach.
-/

/-- What a rule can see of a node. -/
class Shaped (ν : Type) where
  kind : ν → Kind
  children : ν → List ν

instance : Shaped Node where
  kind := Node.kind
  children := Node.children

namespace Table

section

variable [Shaped ν]

/-- The first child whose kind passes a test. -/
def first?
    (test : Kind → Bool)
    (node : ν) :
    Option ν :=
  (Shaped.children node).find? fun child => test (Shaped.kind child)

/-- The children that are identifiers. -/
def identifiers
    (node : ν) :
    List ν :=
  (Shaped.children node).filter fun child =>
    Shaped.kind child == .identifier

/-- The first child, when it is an identifier. -/
def leadingIdentifier?
    (node : ν) :
    Option ν :=
  match Shaped.children node with
  | [] => none
  | operand :: _ =>
      if Shaped.kind operand = .identifier then some operand else none

/-- The children from the first one in a type position on. -/
def fromType
    (node : ν) :
    List ν :=
  (Shaped.children node).dropWhile fun child =>
    !(Shaped.kind child).isType

/-- A tag for a part that may be missing; nothing stands for a missing part. -/
def tagged
    (tag : Tag) :
    Option ν → List (Tag × ν)
  | none => []
  | some target => [(tag, target)]

/-- A member is highlighted only when it has both a variable and a type. -/
def member
    (content : Option ν) :
    List (Tag × ν) :=
  match content with
  | none => []
  | some declaration =>
      match first? Kind.isType declaration with
      | none => []
      | some type =>
          (.typeIdentifier, type) ::
            (identifiers declaration).map fun name => (.fieldIdentifier, name)

/-- A function's return type is highlighted whatever follows it. -/
def function
    (header : Option ν) :
    List (Tag × ν) :=
  match header with
  | none => []
  | some header =>
      match fromType header with
      | [] => []
      | [type] => [(.typeIdentifier, type)]
      | type :: name :: _ =>
          if Shaped.kind name = .identifier then
            [(.typeIdentifier, type), (.functionIdentifier, name)]
          else
            [(.typeIdentifier, type)]

/-- A call highlights the identifier that leads the expression around it. -/
def call
    (parent : Option ν) :
    List (Tag × ν) :=
  match parent with
  | none => []
  | some expression =>
      if Shaped.kind expression = .postfixExpression then
        tagged .functionIdentifier (leadingIdentifier? expression)
      else
        []

/-- What is highlighted at a node, given its parent, in order. -/
def entries
    (parent : Option ν)
    (node : ν) :
    List (Tag × ν) :=
  match Shaped.kind node with
  | .fieldOperator =>
      tagged .fieldIdentifier (first? (· == .identifier) node)
  | .postfixExpression =>
      if (first? Kind.isPostfixOperator node).map Shaped.kind =
          some .callOperator then
        tagged .functionIdentifier (leadingIdentifier? node)
      else
        []
  | .callOperator => call parent
  | .singleVariableDeclaration =>
      tagged .typeIdentifier (first? Kind.isType node)
  | .variableDeclaration =>
      (identifiers node).map fun name => (.variableIdentifier, name)
  | .fieldDeclaration => member (first? (· == .variableDeclaration) node)
  | .structDeclaration =>
      tagged .typeIdentifier (first? (· == .identifier) node)
  | .functionDeclaration => function (first? (· == .functionHeader) node)
  | .builtInType => [(.keyword, node)]
  | .semantic => [(.keyword, node)]
  | _ => []

/-- What stands in the place of a function's name and is no identifier. -/
def misnamed?
    (node : ν) :
    Option ν :=
  if Shaped.kind node = .functionDeclaration then
    (first? (· == .functionHeader) node).bind fun header =>
      (fromType header)[1]?.filter fun found =>
        Shaped.kind found != .identifier
  else
    none

end

/-! ## Parts are children -/

section

variable [Shaped ν] {node target : ν}

theorem mem_children_of_first?
    {test : Kind → Bool}
    (found : first? test node = some target) :
    target ∈ Shaped.children node :=
  List.mem_of_find?_eq_some found

theorem mem_children_of_mem_identifiers
    (present : target ∈ identifiers node) :
    target ∈ Shaped.children node :=
  (List.mem_filter.mp present).1

theorem mem_children_of_mem_fromType
    (present : target ∈ fromType node) :
    target ∈ Shaped.children node :=
  (List.dropWhile_sublist _).subset present

theorem mem_children_of_leadingIdentifier?
    (found : leadingIdentifier? node = some target) :
    target ∈ Shaped.children node := by
  unfold leadingIdentifier? at found
  split at found
  · contradiction
  · next operand rest shape =>
      obtain ⟨_, same⟩ := Option.ite_none_right_eq_some.mp found
      cases same
      rw [shape]
      exact List.mem_cons_self

end

/-! ## What the rows hold -/

section

variable [Shaped ν] {tag : Tag} {target : ν}

omit [Shaped ν] in
theorem mem_tagged
    {rowTag : Tag}
    {part : Option ν} :
    (tag, target) ∈ tagged rowTag part ↔
      tag = rowTag ∧ part = some target := by
  cases part <;> simp [tagged, eq_comm]

/-- The first child in a type position heads the children from there on. -/
theorem head?_fromType
    (node : ν) :
    (fromType node).head? = first? Kind.isType node :=
  (List.find?_eq_head?_dropWhile_not _ _).symm

theorem mem_member
    {content : Option ν} :
    (tag, target) ∈ member content ↔
      ∃ declaration,
        content = some declaration ∧
          ((tag = .typeIdentifier ∧
              first? Kind.isType declaration = some target) ∨
            (tag = .fieldIdentifier ∧
              (first? Kind.isType declaration).isSome ∧
              target ∈ identifiers declaration)) := by
  cases content with
  | none =>
      simp [member]
  | some declaration =>
      cases type : first? Kind.isType declaration with
      | none =>
          simp [member, type]
      | some found =>
          simp only [member, type, List.mem_cons, Prod.mk.injEq,
            List.mem_map, Option.some.injEq, exists_eq_left',
            Option.isSome_some, true_and]
          constructor
          · rintro (⟨rfl, rfl⟩ | ⟨name, present, rfl, rfl⟩)
            · exact .inl ⟨rfl, rfl⟩
            · exact .inr ⟨rfl, present⟩
          · rintro (⟨rfl, rfl⟩ | ⟨rfl, present⟩)
            · exact .inl ⟨rfl, rfl⟩
            · exact .inr ⟨target, present, rfl, rfl⟩

theorem mem_function
    {header : Option ν} :
    (tag, target) ∈ function header ↔
      ∃ found,
        header = some found ∧
          ((tag = .typeIdentifier ∧
              first? Kind.isType found = some target) ∨
            (tag = .functionIdentifier ∧
              (fromType found)[1]? = some target ∧
              Shaped.kind target = .identifier)) := by
  cases header with
  | none =>
      simp [function]
  | some header =>
      simp only [function, ← head?_fromType, Option.some.injEq,
        exists_eq_left']
      match fromType header with
      | [] =>
          simp
      | [type] =>
          simp [eq_comm]
      | type :: name :: rest =>
          by_cases identifier : Shaped.kind name = .identifier
          · have named :
                name = target ∧ Shaped.kind target = .identifier ↔
                  target = name :=
              ⟨fun same => same.1.symm,
                fun same => ⟨same.symm, same.symm ▸ identifier⟩⟩
            simp [identifier, named, @eq_comm _ type]
          · have unnamed :
                ¬(name = target ∧ Shaped.kind target = .identifier) := by
              rintro ⟨rfl, isIdentifier⟩
              exact identifier isIdentifier
            simp [identifier, unnamed, @eq_comm _ type]

theorem mem_call
    {parent : Option ν} :
    (tag, target) ∈ call parent ↔
      ∃ expression,
        parent = some expression ∧
          Shaped.kind expression = .postfixExpression ∧
          tag = .functionIdentifier ∧
          leadingIdentifier? expression = some target := by
  cases parent with
  | none =>
      simp [call]
  | some expression =>
      by_cases postfixed : Shaped.kind expression = .postfixExpression <;>
        simp [call, postfixed, mem_tagged]

end

/-- The rows of the table, one constructor for each thing that is highlighted. -/
inductive Entry
    [Shaped ν]
    (parent : Option ν)
    (node : ν) :
    Tag → ν → Prop where
  | keyword :
      Shaped.kind node = .builtInType ∨ Shaped.kind node = .semantic →
      Entry parent node .keyword node
  | variableName
      {target : ν} :
      Shaped.kind node = .variableDeclaration →
      target ∈ identifiers node →
      Entry parent node .variableIdentifier target
  | fieldAccess
      {target : ν} :
      Shaped.kind node = .fieldOperator →
      first? (· == .identifier) node = some target →
      Entry parent node .fieldIdentifier target
  | memberName
      {declaration target : ν} :
      Shaped.kind node = .fieldDeclaration →
      first? (· == .variableDeclaration) node = some declaration →
      (first? Kind.isType declaration).isSome →
      target ∈ identifiers declaration →
      Entry parent node .fieldIdentifier target
  | memberType
      {declaration target : ν} :
      Shaped.kind node = .fieldDeclaration →
      first? (· == .variableDeclaration) node = some declaration →
      first? Kind.isType declaration = some target →
      Entry parent node .typeIdentifier target
  | structName
      {target : ν} :
      Shaped.kind node = .structDeclaration →
      first? (· == .identifier) node = some target →
      Entry parent node .typeIdentifier target
  | loneType
      {target : ν} :
      Shaped.kind node = .singleVariableDeclaration →
      first? Kind.isType node = some target →
      Entry parent node .typeIdentifier target
  | returnType
      {header target : ν} :
      Shaped.kind node = .functionDeclaration →
      first? (· == .functionHeader) node = some header →
      first? Kind.isType header = some target →
      Entry parent node .typeIdentifier target
  | functionName
      {header target : ν} :
      Shaped.kind node = .functionDeclaration →
      first? (· == .functionHeader) node = some header →
      (fromType header)[1]? = some target →
      Shaped.kind target = .identifier →
      Entry parent node .functionIdentifier target
  | calledOperand
      {target : ν} :
      Shaped.kind node = .postfixExpression →
      (first? Kind.isPostfixOperator node).map Shaped.kind =
        some .callOperator →
      leadingIdentifier? node = some target →
      Entry parent node .functionIdentifier target
  | callee
      {expression target : ν} :
      Shaped.kind node = .callOperator →
      parent = some expression →
      Shaped.kind expression = .postfixExpression →
      leadingIdentifier? expression = some target →
      Entry parent node .functionIdentifier target

section

variable [Shaped ν] {parent : Option ν} {node target : ν} {tag : Tag}

/-- Everything that the table lists is in one of the rows. -/
theorem entry_of_mem_entries
    (member : (tag, target) ∈ entries parent node) :
    Entry parent node tag target := by
  unfold entries at member
  cases kind : Shaped.kind node with
  | fieldOperator =>
      rw [kind] at member
      obtain ⟨rfl, found⟩ := mem_tagged.mp member
      exact .fieldAccess kind found
  | postfixExpression =>
      rw [kind] at member
      dsimp only at member
      split at member
      · next calls =>
          obtain ⟨rfl, found⟩ := mem_tagged.mp member
          exact .calledOperand kind calls found
      · simp at member
  | callOperator =>
      rw [kind] at member
      obtain ⟨expression, isParent, postfixed, rfl, found⟩ :=
        mem_call.mp member
      exact .callee kind isParent postfixed found
  | singleVariableDeclaration =>
      rw [kind] at member
      obtain ⟨rfl, found⟩ := mem_tagged.mp member
      exact .loneType kind found
  | variableDeclaration =>
      rw [kind] at member
      obtain ⟨name, present, same⟩ := List.mem_map.mp member
      cases same
      exact .variableName kind present
  | fieldDeclaration =>
      rw [kind] at member
      obtain ⟨declaration, found, ⟨rfl, type⟩ | ⟨rfl, typed, present⟩⟩ :=
        mem_member.mp member
      · exact .memberType kind found type
      · exact .memberName kind found typed present
  | structDeclaration =>
      rw [kind] at member
      obtain ⟨rfl, found⟩ := mem_tagged.mp member
      exact .structName kind found
  | functionDeclaration =>
      rw [kind] at member
      obtain ⟨header, found, ⟨rfl, type⟩ | ⟨rfl, name, identifier⟩⟩ :=
        mem_function.mp member
      · exact .returnType kind found type
      · exact .functionName kind found name identifier
  | builtInType =>
      rw [kind] at member
      cases List.mem_singleton.mp member
      exact .keyword (.inl kind)
  | semantic =>
      rw [kind] at member
      cases List.mem_singleton.mp member
      exact .keyword (.inr kind)
  | _ =>
      simp [kind] at member

/-- Every row is in the list that the table gives. -/
theorem Entry.mem_entries
    (entry : Entry parent node tag target) :
    (tag, target) ∈ entries parent node := by
  unfold entries
  cases entry with
  | keyword kind =>
      rcases kind with kind | kind <;> simp [kind]
  | variableName kind present =>
      simpa [kind] using present
  | fieldAccess kind found =>
      simpa [kind] using mem_tagged.mpr ⟨rfl, found⟩
  | memberName kind found typed present =>
      rw [kind]
      exact mem_member.mpr ⟨_, found, .inr ⟨rfl, typed, present⟩⟩
  | memberType kind found type =>
      rw [kind]
      exact mem_member.mpr ⟨_, found, .inl ⟨rfl, type⟩⟩
  | structName kind found =>
      simpa [kind] using mem_tagged.mpr ⟨rfl, found⟩
  | loneType kind found =>
      simpa [kind] using mem_tagged.mpr ⟨rfl, found⟩
  | returnType kind found type =>
      rw [kind]
      exact mem_function.mpr ⟨_, found, .inl ⟨rfl, type⟩⟩
  | functionName kind found name identifier =>
      rw [kind]
      exact mem_function.mpr ⟨_, found, .inr ⟨rfl, name, identifier⟩⟩
  | calledOperand kind calls found =>
      rw [kind]
      dsimp only
      rw [if_pos calls]
      exact mem_tagged.mpr ⟨rfl, found⟩
  | callee kind isParent postfixed found =>
      rw [kind]
      exact mem_call.mpr ⟨_, isParent, postfixed, rfl, found⟩

/-- The table lists just what is in its rows. -/
theorem mem_entries_iff :
    (tag, target) ∈ entries parent node ↔ Entry parent node tag target :=
  ⟨entry_of_mem_entries, Entry.mem_entries⟩

/-- Where something stands that is highlighted at a node. -/
inductive Near
    [Shaped ν]
    (parent : Option ν)
    (node : ν) :
    ν → Prop where
  | self :
      Near parent node node
  | child
      {target : ν} :
      target ∈ Shaped.children node →
      Near parent node target
  | grandchild
      {middle target : ν} :
      middle ∈ Shaped.children node →
      target ∈ Shaped.children middle →
      Near parent node target
  | callee
      {expression target : ν} :
      Shaped.kind node = .callOperator →
      parent = some expression →
      Shaped.kind expression = .postfixExpression →
      leadingIdentifier? expression = some target →
      Near parent node target

/-- Rows reach no further than to grandchildren, and to the operand of a call. -/
theorem Entry.near
    (entry : Entry parent node tag target) :
    Near parent node target := by
  cases entry with
  | keyword _ =>
      exact .self
  | variableName _ present =>
      exact .child (mem_children_of_mem_identifiers present)
  | fieldAccess _ found =>
      exact .child (mem_children_of_first? found)
  | structName _ found =>
      exact .child (mem_children_of_first? found)
  | loneType _ found =>
      exact .child (mem_children_of_first? found)
  | memberName _ found _ present =>
      exact .grandchild (mem_children_of_first? found)
        (mem_children_of_mem_identifiers present)
  | memberType _ found type =>
      exact .grandchild (mem_children_of_first? found)
        (mem_children_of_first? type)
  | returnType _ found type =>
      exact .grandchild (mem_children_of_first? found)
        (mem_children_of_first? type)
  | functionName _ found name _ =>
      exact .grandchild (mem_children_of_first? found)
        (mem_children_of_mem_fromType (List.mem_of_getElem? name))
  | calledOperand _ _ found =>
      exact .child (mem_children_of_leadingIdentifier? found)
  | callee isCall isParent postfixed found =>
      exact .callee isCall isParent postfixed found

omit [Shaped ν] in
theorem nodup_tagged
    (tag : Tag)
    (part : Option ν) :
    (tagged tag part).Nodup := by
  cases part <;> simp [tagged]

/-- Names are listed once each when children are. -/
theorem nodup_names
    (distinct : (Shaped.children node).Nodup)
    (tag : Tag) :
    ((identifiers node).map fun name => (tag, name)).Nodup :=
  (distinct.filter _).map fun _ _ same => (Prod.mk.inj same).2

/-- Where siblings are distinct, nothing is listed twice at one node. -/
theorem nodup_entries
    (distinct : ∀ node : ν, (Shaped.children node).Nodup)
    (parent : Option ν)
    (node : ν) :
    (entries parent node).Nodup := by
  unfold entries
  cases Shaped.kind node with
  | postfixExpression =>
      dsimp only
      split
      · exact nodup_tagged _ _
      · exact List.nodup_nil
  | callOperator =>
      dsimp only
      unfold call
      split
      · exact List.nodup_nil
      · split
        · exact nodup_tagged _ _
        · exact List.nodup_nil
  | variableDeclaration =>
      exact nodup_names (distinct node) _
  | fieldDeclaration =>
      dsimp only
      unfold member
      split
      · exact List.nodup_nil
      · next declaration _ =>
          split
          · exact List.nodup_nil
          · -- A type and a name differ in their tags, even if they were one node.
            refine List.nodup_cons.mpr
              ⟨?_, nodup_names (distinct declaration) _⟩
            simp
  | functionDeclaration =>
      dsimp only
      unfold function
      split
      · exact List.nodup_nil
      · split
        · exact List.nodup_nil
        · exact List.nodup_singleton _
        · split <;> simp
  | fieldOperator =>
      exact nodup_tagged _ _
  | singleVariableDeclaration =>
      exact nodup_tagged _ _
  | structDeclaration =>
      exact nodup_tagged _ _
  | builtInType =>
      exact List.nodup_singleton _
  | semantic =>
      exact List.nodup_singleton _
  | _ =>
      exact List.nodup_nil

end

/-! ## Maps that keep the shape -/

/-- A map that keeps kinds, and children in their order. -/
structure KeepsShape
    [Shaped ν]
    [Shaped μ]
    (f : ν → μ) :
    Prop where
  kind_eq : ∀ node, Shaped.kind (f node) = Shaped.kind node
  children_eq :
    ∀ node, Shaped.children (f node) = (Shaped.children node).map f

/--
A map that keeps children in their order, and kinds but for errors in headers.

An error among the children of a function header may become an identifier.
-/
structure Corrects
    [Shaped ν]
    [Shaped μ]
    (f : ν → μ) :
    Prop where
  children_eq :
    ∀ node, Shaped.children (f node) = (Shaped.children node).map f
  kind_eq_or :
    ∀ node,
      Shaped.kind (f node) = Shaped.kind node ∨
        Shaped.kind node = .error ∧ Shaped.kind (f node) = .identifier
  kind_child :
    ∀ node,
      Shaped.kind node ≠ .functionHeader →
      ∀ child ∈ Shaped.children node,
        Shaped.kind (f child) = Shaped.kind child

section

variable [Shaped ν] [Shaped μ] {f : ν → μ}

theorem KeepsShape.corrects
    (keeps : KeepsShape f) :
    Corrects f where
  children_eq := keeps.children_eq
  kind_eq_or node := .inl (keeps.kind_eq node)
  kind_child _ _ child _ := keeps.kind_eq child

/-- What stands in the place of a function's name keeps its kind. -/
def KeepsName
    (f : ν → μ)
    (node : ν) :
    Prop :=
  ∀ header found,
    first? (· == .functionHeader) node = some header →
    (fromType header)[1]? = some found →
    Shaped.kind (f found) = Shaped.kind found

theorem KeepsShape.keepsName
    (keeps : KeepsShape f)
    (node : ν) :
    KeepsName f node :=
  fun _ found _ _ => keeps.kind_eq found

/-- A test that does not tell errors from identifiers comes out as before. -/
theorem Corrects.test_eq
    (corrects : Corrects f)
    {test : Kind → Bool}
    (blind : test .error = test .identifier)
    (node : ν) :
    test (Shaped.kind (f node)) = test (Shaped.kind node) := by
  rcases corrects.kind_eq_or node with same | ⟨wasError, isIdentifier⟩
  · rw [same]
  · rw [wasError, isIdentifier, blind]

/-- A kind other than these two is there when it was there before. -/
theorem Corrects.kind_eq_iff
    (corrects : Corrects f)
    {kind : Kind}
    (notError : kind ≠ .error)
    (notIdentifier : kind ≠ .identifier)
    (node : ν) :
    Shaped.kind (f node) = kind ↔ Shaped.kind node = kind := by
  rcases corrects.kind_eq_or node with same | ⟨wasError, isIdentifier⟩
  · rw [same]
  · rw [wasError, isIdentifier]
    exact iff_of_false notIdentifier.symm notError.symm

theorem first?_map_of_test
    (corrects : Corrects f)
    {test : Kind → Bool}
    {node : ν}
    (same :
      ∀ child ∈ Shaped.children node,
        test (Shaped.kind (f child)) = test (Shaped.kind child)) :
    first? test (f node) = (first? test node).map f := by
  rw [first?, first?, corrects.children_eq, List.find?_map]
  exact congrArg (Option.map f) (List.find?_congr same)

/-- What a test finds that does not tell errors from identifiers. -/
theorem first?_map_of_blind
    (corrects : Corrects f)
    {test : Kind → Bool}
    (blind : test .error = test .identifier)
    (node : ν) :
    first? test (f node) = (first? test node).map f :=
  first?_map_of_test corrects fun child _ => corrects.test_eq blind child

/-- What any test finds outside headers. -/
theorem first?_map_outside
    (corrects : Corrects f)
    (test : Kind → Bool)
    {node : ν}
    (outside : Shaped.kind node ≠ .functionHeader) :
    first? test (f node) = (first? test node).map f :=
  first?_map_of_test corrects fun child isChild => by
    rw [corrects.kind_child node outside child isChild]

theorem first?_map
    (keeps : KeepsShape f)
    (test : Kind → Bool)
    (node : ν) :
    first? test (f node) = (first? test node).map f :=
  first?_map_of_test keeps.corrects fun child _ => by
    rw [keeps.kind_eq child]

theorem identifiers_map
    (corrects : Corrects f)
    {node : ν}
    (outside : Shaped.kind node ≠ .functionHeader) :
    identifiers (f node) = (identifiers node).map f := by
  rw [identifiers, identifiers, corrects.children_eq, List.filter_map]
  congr 1
  apply List.filter_congr
  intro child isChild
  rw [Function.comp_apply, corrects.kind_child node outside child isChild]

theorem leadingIdentifier?_map
    (corrects : Corrects f)
    {node : ν}
    (outside : Shaped.kind node ≠ .functionHeader) :
    leadingIdentifier? (f node) = (leadingIdentifier? node).map f := by
  have sameKind := corrects.kind_child node outside
  cases shape : Shaped.children node with
  | nil =>
      simp [leadingIdentifier?, corrects.children_eq, shape]
  | cons operand rest =>
      rw [shape] at sameKind
      by_cases identifier : Shaped.kind operand = .identifier <;>
        simp [leadingIdentifier?, corrects.children_eq, shape, sameKind,
          identifier]

theorem fromType_map
    (corrects : Corrects f)
    (node : ν) :
    fromType (f node) = (fromType node).map f := by
  have sameTest :
      ((fun child => !(Shaped.kind child).isType) ∘ f) =
        fun child => !(Shaped.kind child).isType := by
    funext child
    exact congrArg not (corrects.test_eq rfl child)
  rw [fromType, corrects.children_eq, List.dropWhile_map, sameTest]
  rfl

omit [Shaped ν] [Shaped μ] in
theorem tagged_map
    (tag : Tag)
    (target : Option ν) :
    tagged tag (target.map f) = (tagged tag target).map (Prod.map id f) := by
  cases target <;> rfl

theorem member_map
    (corrects : Corrects f)
    {content : Option ν}
    (outside :
      ∀ declaration,
        content = some declaration →
        Shaped.kind declaration ≠ .functionHeader) :
    member (content.map f) = (member content).map (Prod.map id f) := by
  cases content with
  | none =>
      rfl
  | some declaration =>
      have names := identifiers_map corrects (outside declaration rfl)
      have sameType :
          first? Kind.isType (f declaration) =
            (first? Kind.isType declaration).map f :=
        first?_map_of_blind corrects rfl declaration
      cases type : first? Kind.isType declaration <;>
        simp [member, sameType, names, type, Function.comp_def]

theorem function_map
    (corrects : Corrects f)
    {header : Option ν}
    (sameName :
      ∀ present found,
        header = some present →
        (fromType present)[1]? = some found →
        Shaped.kind (f found) = Shaped.kind found) :
    function (header.map f) = (function header).map (Prod.map id f) := by
  cases header with
  | none =>
      rfl
  | some header =>
      match shape : fromType header with
      | [] =>
          simp [function, fromType_map corrects, shape]
      | [type] =>
          simp [function, fromType_map corrects, shape]
      | type :: name :: rest =>
          have sameKind := sameName header name rfl (by simp [shape])
          by_cases identifier : Shaped.kind name = .identifier <;>
            simp [function, fromType_map corrects, shape, sameKind,
              identifier]

theorem call_map
    (corrects : Corrects f)
    (parent : Option ν) :
    call (parent.map f) = (call parent).map (Prod.map id f) := by
  cases parent with
  | none =>
      rfl
  | some expression =>
      have samePostfix :
          Shaped.kind (f expression) = .postfixExpression ↔
            Shaped.kind expression = .postfixExpression :=
        corrects.kind_eq_iff (by decide) (by decide) expression
      by_cases postfixed : Shaped.kind expression = .postfixExpression
      · have outside : Shaped.kind expression ≠ .functionHeader := by
          simp [postfixed]
        simp [call, samePostfix, postfixed,
          leadingIdentifier?_map corrects outside, tagged_map]
      · simp [call, samePostfix, postfixed]

/--
The table commutes with such a map wherever the name of a function is kept.

A rule looks for identifiers among the children of nodes that are no headers, and in
the place of a function's name.
-/
theorem entries_map_of_keepsName
    (corrects : Corrects f)
    (parent : Option ν)
    {node : ν}
    (keepsName : KeepsName f node) :
    entries (parent.map f) (f node) =
      (entries parent node).map (Prod.map id f) := by
  rcases corrects.kind_eq_or node with sameKind | ⟨wasError, isIdentifier⟩
  · unfold entries
    rw [sameKind]
    cases kind : Shaped.kind node with
    | postfixExpression =>
        have outside : Shaped.kind node ≠ .functionHeader := by simp [kind]
        have sameFirst :
            (first? Kind.isPostfixOperator (f node)).map Shaped.kind =
              (first? Kind.isPostfixOperator node).map Shaped.kind := by
          rw [first?_map_outside corrects _ outside, Option.map_map]
          apply Option.map_congr
          intro operator isFirst
          exact corrects.kind_child node outside operator
            (mem_children_of_first? isFirst)
        simp only [sameFirst]
        split
        · rw [leadingIdentifier?_map corrects outside, tagged_map]
        · rfl
    | callOperator =>
        exact call_map corrects parent
    | variableDeclaration =>
        have outside : Shaped.kind node ≠ .functionHeader := by simp [kind]
        simp [identifiers_map corrects outside, Function.comp_def]
    | fieldDeclaration =>
        dsimp only
        rw [first?_map_of_blind corrects rfl]
        apply member_map corrects
        intro declaration isFirst isHeader
        have isVariable := List.find?_some isFirst
        simp [isHeader] at isVariable
    | functionDeclaration =>
        dsimp only
        rw [first?_map_of_blind corrects rfl]
        exact function_map corrects keepsName
    | fieldOperator =>
        have outside : Shaped.kind node ≠ .functionHeader := by simp [kind]
        simp only [first?_map_outside corrects _ outside, tagged_map]
    | singleVariableDeclaration =>
        have outside : Shaped.kind node ≠ .functionHeader := by simp [kind]
        simp only [first?_map_outside corrects _ outside, tagged_map]
    | structDeclaration =>
        have outside : Shaped.kind node ≠ .functionHeader := by simp [kind]
        simp only [first?_map_outside corrects _ outside, tagged_map]
    | builtInType =>
        rfl
    | semantic =>
        rfl
    | _ =>
        rfl
  · simp [entries, wasError, isIdentifier]

/--
The table commutes with every map that keeps the shape.

So it makes no difference to the rules what else a node carries.
-/
theorem entries_map
    (keeps : KeepsShape f)
    (parent : Option ν)
    (node : ν) :
    entries (parent.map f) (f node) =
      (entries parent node).map (Prod.map id f) :=
  entries_map_of_keepsName keeps.corrects parent (keeps.keepsName node)

/-- What stands in the place of a name is found again if it keeps its kind. -/
theorem misnamed?_map_of_keepsName
    (corrects : Corrects f)
    {node : ν}
    (keepsName : KeepsName f node) :
    misnamed? (f node) = (misnamed? node).map f := by
  have sameFunction :
      Shaped.kind (f node) = .functionDeclaration ↔
        Shaped.kind node = .functionDeclaration :=
    corrects.kind_eq_iff (by decide) (by decide) node
  unfold misnamed?
  simp only [sameFunction]
  split
  · rw [first?_map_of_blind corrects rfl]
    cases isHeader : first? (· == .functionHeader) node with
    | none =>
        rfl
    | some header =>
        simp only [Option.map_some, Option.bind_some, fromType_map corrects,
          List.getElem?_map]
        cases next : (fromType header)[1]? with
        | none =>
            rfl
        | some found =>
            have sameKind := keepsName header found isHeader next
            simp only [Option.map_some, Option.filter_some, sameKind]
            split <;> rfl
  · rfl

/-- What stands in the place of a name does not depend on what else a node carries. -/
theorem misnamed?_map
    (keeps : KeepsShape f)
    (node : ν) :
    misnamed? (f node) = (misnamed? node).map f :=
  misnamed?_map_of_keepsName keeps.corrects (keeps.keepsName node)

end

end Table

/-! ## The rules follow the table -/

@[simp]
theorem emissionsOf_emitOrSkip
    (tag : Tag)
    (owner : Node)
    (part : MissingPart)
    (target : Option Node)
    (rest : List Effect) :
    emissionsOf (Effect.emitOrSkip tag owner part target :: rest) =
      Table.tagged tag target ++ emissionsOf rest := by
  cases target <;>
    simp [emissionsOf, Effect.emitOrSkip, List.filterMap_cons,
      Effect.emission?, Table.tagged]

@[simp]
theorem emissionsOf_record
    (mismatch : ShapeMismatch)
    (rest : List Effect) :
    emissionsOf (.record mismatch :: rest) = emissionsOf rest :=
  rfl

/-- Effects that only emit give back what they emit. -/
@[simp]
theorem emissionsOf_map_emit
    (tag : Tag)
    (targets : List Node) :
    emissionsOf (targets.map (.emit tag)) =
      targets.map fun target => (tag, target) := by
  simp [emissionsOf, List.filterMap_map, Function.comp_def,
    Effect.emission?]

theorem emissionsOf_callee
    (operand : Option Node) :
    emissionsOf (Rule.callee operand) =
      Table.tagged .functionIdentifier operand := by
  rw [Rule.callee, emissionsOf_map_emit]
  cases operand <;> rfl

/-- The identifier operand of an expression is its first child, when it is an identifier. -/
theorem identifierOperand?_eq_leadingIdentifier?
    (expression : Node) :
    expression.identifierOperand? =
      Table.leadingIdentifier? expression := by
  unfold Node.identifierOperand? Node.operand? Table.leadingIdentifier?
  cases shape : expression.children with
  | nil =>
      simp [Shaped.children, shape]
  | cons operand rest =>
      by_cases identifier : operand.kind = .identifier
      · simp [Shaped.children, Shaped.kind, shape, identifier,
          Kind.isPostfixOperator, Option.filter]
      · have unlike : (operand.kind == Kind.identifier) = false := by
          simpa using identifier
        simp only [Shaped.children, Shaped.kind, shape, identifier,
          List.head?_cons, if_false]
        cases hidden : (!operand.kind.isPostfixOperator) <;>
          simp [Option.filter, hidden, unlike]

theorem emissionsOf_member
    (owner : Node)
    (content : Option Node) :
    emissionsOf (Rule.member owner content) = Table.member content := by
  cases content with
  | none =>
      rfl
  | some declaration =>
      have sameType :
          declaration.typeChild? = Table.first? Kind.isType declaration :=
        rfl
      cases type : Table.first? Kind.isType declaration with
      | none =>
          simp [Rule.member, Table.member, sameType, type, emissionsOf,
            List.filterMap_cons, Effect.emission?]
      | some found =>
          have emitted :
              emissionsOf (Rule.member owner (some declaration)) =
                (.typeIdentifier, found) ::
                  emissionsOf
                    (declaration.names.map (.emit .fieldIdentifier)) := by
            simp [Rule.member, sameType, type, emissionsOf,
              Effect.emission?]
          rw [emitted, emissionsOf_map_emit]
          simp only [Table.member, type]
          rfl

/-- The first child in a type position heads the children from there on. -/
theorem typeChild?_eq_head?
    (node : Node) :
    node.typeChild? = (Table.fromType node).head? :=
  List.find?_eq_head?_dropWhile_not _ _

/-- A header's name is looked for right after the first type. -/
theorem afterType?_eq_getElem?
    (header : Node) :
    header.afterType? = (Table.fromType header)[1]? :=
  rfl

theorem emissionsOf_function
    (owner : Node)
    (header : Option Node) :
    emissionsOf (Rule.function owner header) = Table.function header := by
  cases header with
  | none =>
      rfl
  | some header =>
      simp only [Rule.function, Table.function, Node.headerName,
        typeChild?_eq_head?, afterType?_eq_getElem?]
      rcases Table.fromType header with _ | ⟨type, _ | ⟨name, rest⟩⟩
      · rfl
      · rfl
      · by_cases identifier : name.kind = .identifier
        · simp [identifier, Shaped.kind, Table.tagged]
        · simp [identifier, Shaped.kind, Table.tagged]

/-- The first operator of an expression is its first child that is an operator. -/
theorem head?_operators
    (expression : Node) :
    expression.operators.head? =
      Table.first? Kind.isPostfixOperator expression :=
  List.head?_filter

/-- A pass emits at a node what the table lists for it. -/
theorem emissionsOf_effects
    (parent : Option Node)
    (node : Node) :
    emissionsOf (Rule.effects parent node) = Table.entries parent node := by
  unfold Rule.effects Node.parts? Table.entries
  simp only [Shaped.kind]
  cases kind : node.kind with
  | postfixExpression =>
      simp only [← head?_operators,
        ← identifierOperand?_eq_leadingIdentifier?]
      cases node.operators with
      | nil =>
          rfl
      | cons first rest =>
          by_cases calls : first.kind = .callOperator <;>
            simp [calls, emissionsOf_callee]
  | callOperator =>
      cases parent with
      | none =>
          rfl
      | some expression =>
          by_cases postfixed : expression.kind = .postfixExpression <;>
            simp [postfixed, Table.call, Shaped.kind, emissionsOf_callee,
              identifierOperand?_eq_leadingIdentifier?]
  | fieldDeclaration =>
      exact emissionsOf_member node _
  | functionDeclaration =>
      exact emissionsOf_function node _
  | variableDeclaration =>
      exact emissionsOf_map_emit _ _
  | fieldOperator =>
      simp [Node.childOfKind?, Table.first?, Shaped.children, Shaped.kind]
  | singleVariableDeclaration =>
      simp [Node.typeChild?, Table.first?, Shaped.children, Shaped.kind]
  | structDeclaration =>
      simp [Node.childOfKind?, Table.first?, Shaped.children, Shaped.kind]
  | _ =>
      rfl

/-! ## What the rules record -/

@[simp]
theorem mismatchesOf_nil :
    mismatchesOf [] = [] :=
  rfl

@[simp]
theorem mismatchesOf_emit
    (tag : Tag)
    (target : Node)
    (rest : List Effect) :
    mismatchesOf (.emit tag target :: rest) = mismatchesOf rest :=
  rfl

@[simp]
theorem mismatchesOf_skip
    (owner : Node)
    (part : MissingPart)
    (rest : List Effect) :
    mismatchesOf (.skip owner part :: rest) = mismatchesOf rest :=
  rfl

@[simp]
theorem mismatchesOf_emitOrSkip
    (tag : Tag)
    (owner : Node)
    (part : MissingPart)
    (target : Option Node)
    (rest : List Effect) :
    mismatchesOf (Effect.emitOrSkip tag owner part target :: rest) =
      mismatchesOf rest := by
  cases target <;> rfl

/-- Effects that only emit record nothing. -/
@[simp]
theorem mismatchesOf_map_emit
    (tag : Tag)
    (targets : List Node) :
    mismatchesOf (targets.map (.emit tag)) = [] := by
  induction targets with
  | nil =>
      rfl
  | cons target rest inductionHypothesis =>
      exact inductionHypothesis

/-- The mismatch of a node that stands in the place of a function's name. -/
def misnaming
    (found : Node) :
    ShapeMismatch where
  node := .functionHeader
  expected := .identifier
  found := found.kind
  span := found.span

theorem mismatchesOf_member
    (owner : Node)
    (content : Option Node) :
    mismatchesOf (Rule.member owner content) = [] := by
  cases content with
  | none =>
      rfl
  | some declaration =>
      cases type : declaration.typeChild? <;>
        simp [Rule.member, type]

theorem mismatchesOf_function
    (owner : Node)
    (header : Option Node) :
    mismatchesOf (Rule.function owner header) =
      (header.bind fun header =>
        (Table.fromType header)[1]?.filter fun found =>
          found.kind != .identifier).toList.map misnaming := by
  cases header with
  | none =>
      rfl
  | some header =>
      simp only [Rule.function, Node.headerName, afterType?_eq_getElem?,
        mismatchesOf_emitOrSkip, Option.bind_some]
      cases (Table.fromType header)[1]? with
      | none =>
          rfl
      | some found =>
          by_cases identifier : found.kind = .identifier
          · simp [identifier, Option.filter]
          · simp [identifier, Option.filter, mismatchesOf, misnaming,
              Effect.mismatch?]

/-- The rules record what stands in the place of a function's name, and nothing else. -/
theorem mismatchesOf_effects
    (parent : Option Node)
    (node : Node) :
    mismatchesOf (Rule.effects parent node) =
      (Table.misnamed? node).toList.map misnaming := by
  unfold Rule.effects Node.parts? Table.misnamed?
  simp only [Shaped.kind]
  cases kind : node.kind with
  | postfixExpression =>
      cases node.operators with
      | nil =>
          rfl
      | cons first rest =>
          by_cases calls : first.kind = .callOperator <;>
            simp [calls, Rule.callee]
  | callOperator =>
      cases parent with
      | none =>
          rfl
      | some expression =>
          by_cases postfixed : expression.kind = .postfixExpression <;>
            simp [postfixed, Rule.callee]
  | fieldDeclaration =>
      exact mismatchesOf_member node _
  | functionDeclaration =>
      exact mismatchesOf_function node _
  | variableDeclaration =>
      exact mismatchesOf_map_emit _ _
  | _ =>
      simp

end ShaderTint
