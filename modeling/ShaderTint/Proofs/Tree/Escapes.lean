import ShaderTint.Proofs.Pass.Reach
import ShaderTint.Proofs.Tree.FirstFault

namespace ShaderTint

/-!
# Which escaping child is reported

A child that escapes its parent is noticed in two ways. The check of a finished tree
takes up the parents in document order and looks at the children of each. A builder
looks at a node when it is completed, after everything inside it, and goes on without
the nodes it has dropped. Both notice one child if there is any, but when there are
several they need not notice the same one first.

Main statement: `Occurrence.check_and_builder_report_escapes`.
-/

namespace Occurrence

/-- The child does not lie within its parent. -/
def Escapes
    (parent child : Occurrence) :
    Prop :=
  child ∈ parent.children ∧ ¬parent.node.span.Contains child.node.span

/-- The fault of a node that escapes its parent. -/
def escape?
    (child : Occurrence) :
    Option TreeFault :=
  match child.parent? with
  | none => none
  | some parent =>
      if parent.node.span.Contains child.node.span then
        none
      else
        some (parent.node.escape child.node)

/-- A node with a parent is held against that parent. -/
theorem escape?_of_parent
    {parent child : Occurrence}
    (isParent : child.parent? = some parent) :
    child.escape? =
      if parent.node.span.Contains child.node.span then
        none
      else
        some (parent.node.escape child.node) := by
  rw [escape?, isParent]

section

variable {parent child : Occurrence}

theorem escape?_of_escapes
    (escapes : Escapes parent child) :
    child.escape? = some (parent.node.escape child.node) := by
  obtain ⟨isChild, outside⟩ := escapes
  rw [escape?_of_parent (parent?_of_mem_children isChild), if_neg outside]

theorem escape?_eq_none_iff_of_child
    (isChild : child ∈ parent.children) :
    child.escape? = none ↔ ¬Escapes parent child := by
  simp [escape?_of_parent (parent?_of_mem_children isChild), Escapes, isChild]

/-- In a tree, a node without a fault escapes from nothing. -/
theorem escape?_eq_none_iff
    (standing : child.Standing) :
    child.escape? = none ↔ ¬∃ parent, Escapes parent child := by
  simp only [Escapes, mem_children_iff_parent? standing]
  cases isParent : child.parent? with
  | none =>
      simp [escape?, isParent]
  | some parent =>
      simp [escape?_of_parent isParent]

end

/-! ## Completion order -/

mutual

/-- The occurrences of a tree, each after everything below it. -/
def completedAt
    (above : List (Node × Nat)) :
    Node → List Occurrence
  | ⟨kind, span, children⟩ =>
      completedBelow ⟨kind, span, children⟩ above 0 children ++
        [{ node := ⟨kind, span, children⟩, above := above }]

/-- The occurrences of a node's children from a position on, in completion order. -/
def completedBelow
    (parent : Node)
    (above : List (Node × Nat)) :
    Nat → List Node → List Occurrence
  | _, [] => []
  | index, child :: rest =>
      completedAt ((parent, index) :: above) child ++
        completedBelow parent above (index + 1) rest

end

/-- The occurrences of a tree in the order in which they are completed. -/
def completions
    (root : Node) :
    List Occurrence :=
  completedAt [] root

theorem completedAt_eq
    (above : List (Node × Nat))
    (node : Node) :
    completedAt above node =
      completedBelow node above 0 node.children ++
        [{ node := node, above := above }] := by
  cases node
  rw [completedAt]

mutual

/-- Completion order lists the same occurrences as document order. -/
theorem completedAt_perm
    (above : List (Node × Nat)) :
    ∀ node : Node,
      (completedAt above node).Perm (occurrencesAt above node)
  | ⟨kind, span, children⟩ => by
      rw [completedAt, occurrencesAt]
      exact (List.perm_append_singleton _ _).trans
        ((completedBelow_perm _ above 0 children).cons _)

theorem completedBelow_perm
    (parent : Node)
    (above : List (Node × Nat)) :
    ∀ (start : Nat) (children : List Node),
      (completedBelow parent above start children).Perm
        (occurrencesBelow parent above start children)
  | _, [] => by
      rw [completedBelow, occurrencesBelow]
  | start, child :: rest => by
      rw [completedBelow, occurrencesBelow]
      exact (completedAt_perm _ child).append
        (completedBelow_perm parent above (start + 1) rest)

end

/-- What is completed is what can be reached. -/
theorem mem_completions_iff
    {root : Node}
    {occurrence : Occurrence} :
    occurrence ∈ completions root ↔ Within root occurrence := by
  rw [completions, (completedAt_perm [] root).mem_iff]
  exact mem_occurrences_iff

end Occurrence

/-! ## What a builder drops -/

namespace Node

mutual

/-- The tree without the nodes that escape their parents. -/
def pruned : Node → Node
  | ⟨kind, span, children⟩ => ⟨kind, span, prunedWithin span children⟩

/-- The trees whose spans lie within an outer one, pruned. -/
def prunedWithin
    (outer : Span) :
    List Node → List Node
  | [] => []
  | node :: rest =>
      if outer.Contains node.span then
        node.pruned :: prunedWithin outer rest
      else
        prunedWithin outer rest

end

@[simp]
theorem kind_pruned
    (node : Node) :
    node.pruned.kind = node.kind := by
  cases node
  rw [pruned]

@[simp]
theorem span_pruned
    (node : Node) :
    node.pruned.span = node.span := by
  cases node
  rw [pruned]

end Node

namespace Builder

open Node
open Occurrence (completedAt completedBelow completedAt_eq escape? escape?_of_parent)

/-- Remember a fault, if there is one and there was none before. -/
def note
    (builder : Builder)
    (fault : Option TreeFault) :
    Builder :=
  { builder with fault := builder.fault.or fault }

/-- A node given to an open node is kept or leaves a fault, by its span alone. -/
theorem attach_pruned
    (parent : Node)
    (children : Array Node)
    (outer : List OpenNode)
    (root : Option Node)
    (fault : Option TreeFault)
    (child : Node) :
    attach ⟨⟨parent.kind, parent.span, children⟩ :: outer, root, fault⟩
        child.pruned =
      ⟨⟨parent.kind, parent.span,
          children ++ (prunedWithin parent.span [child]).toArray⟩ :: outer,
        root,
        fault.or
          (if parent.span.Contains child.span then
            none
          else
            some (parent.escape child))⟩ := by
  by_cases inside : parent.span.Contains child.span <;>
    simp [attach, fail, prunedWithin, escape, inside]

mutual

/--
The steps of a tree attach the pruned tree and note the first node below it that escapes.

A node that was dropped has its own kind and span, so nothing that is noted afterwards
depends on it.
-/
theorem foldl_bracketing_notes
    (builder : Builder)
    (above : List (Node × Nat)) :
    ∀ node : Node,
      node.bracketing.foldl step builder =
        (builder.note
          ((completedBelow node above 0 node.children).findSome?
            escape?)).attach node.pruned
  | ⟨kind, span, children⟩ => by
      have entered :
          builder.step (.enter kind span.bounds) =
            ⟨⟨kind, span, #[]⟩ :: builder.opened, builder.root,
              builder.fault⟩ := by
        simp [step, enter, spanFor]
      have filled :=
        foldl_bracketingOfForest_notes ⟨kind, span, children⟩ above #[]
          builder.opened builder.root builder.fault 0 children
      calc
        (bracketing ⟨kind, span, children⟩).foldl step builder
            = ((bracketingOfForest children).foldl step
                (builder.step (.enter kind span.bounds))).step .leave := by
          simp [bracketing]
        _ = _ := by
          rw [entered, filled]
          simp [step, leave, OpenNode.close, pruned, note]

/-- The steps of several trees append what lies within the open node around them. -/
theorem foldl_bracketingOfForest_notes
    (parent : Node)
    (above : List (Node × Nat))
    (children : Array Node)
    (outer : List OpenNode)
    (root : Option Node)
    (fault : Option TreeFault) :
    ∀ (start : Nat) (forest : List Node),
      (bracketingOfForest forest).foldl step
          ⟨⟨parent.kind, parent.span, children⟩ :: outer, root, fault⟩ =
        ⟨⟨parent.kind, parent.span,
            children ++ (prunedWithin parent.span forest).toArray⟩ :: outer,
          root,
          fault.or
            ((completedBelow parent above start forest).findSome? escape?)⟩
  | start, [] => by
      simp [bracketingOfForest, prunedWithin, completedBelow]
  | start, child :: rest => by
      have first :=
        foldl_bracketing_notes
          ⟨⟨parent.kind, parent.span, children⟩ :: outer, root, fault⟩
          ((parent, start) :: above) child
      have others (kept : Array Node) (noted : Option TreeFault) :=
        foldl_bracketingOfForest_notes parent above kept outer root noted
          (start + 1) rest
      have completed :
          escape? { node := child, above := (parent, start) :: above } = _ :=
        escape?_of_parent rfl
      rw [bracketingOfForest, List.foldl_append, first, note, attach_pruned,
        others, completedBelow, completedAt_eq]
      by_cases inside : parent.span.Contains child.span <;>
        simp [prunedWithin, completed, inside, Option.or_assoc,
          List.findSome?_append]

end

/-- A builder remembers the first node that escapes when it is completed. -/
theorem finish_run_bracketing_eq
    (tree : Node) :
    (run tree.bracketing).finish =
      match (Occurrence.completions tree).findSome? escape? with
      | some fault => .error fault
      | none => .ok tree.pruned := by
  have rootStays : escape? { node := tree, above := [] } = none :=
    rfl
  rw [run, foldl_bracketing_notes empty [] tree, Occurrence.completions,
    completedAt_eq, List.findSome?_append, List.findSome?_singleton, rootStays,
    Option.or_none]
  cases (completedBelow tree [] 0 tree.children).findSome? escape? <;>
    rfl

end Builder

namespace Occurrence

/-! ## The first of several -/

/-- Searching finds something at the first occurrence at which there is something. -/
theorem findSome?_eq_some_iff_firstIn
    {occurrences : List Occurrence}
    {search : Occurrence → Option TreeFault}
    {wanted : Occurrence → Prop}
    {fault : TreeFault}
    (finds : ∀ place ∈ occurrences, search place = none ↔ ¬wanted place) :
    occurrences.findSome? search = some fault ↔
      ∃ found,
        FirstIn occurrences wanted found ∧ search found = some fault := by
  rw [List.findSome?_eq_some_iff]
  constructor
  · rintro ⟨before, found, after, split, isFault, noneBefore⟩
    have isWanted : wanted found := by
      by_contra unwanted
      have nothing := (finds found (by simp [split])).mpr unwanted
      rw [isFault] at nothing
      contradiction
    refine ⟨found, ⟨isWanted, before, after, split, ?_⟩, isFault⟩
    intro earlier isEarlier
    exact (finds earlier (by simp [split, isEarlier])).mp
      (noneBefore earlier isEarlier)
  · rintro ⟨found, ⟨_, before, after, split, unwanted⟩, isFault⟩
    refine ⟨before, found, after, split, isFault, ?_⟩
    intro earlier isEarlier
    exact (finds earlier (by simp [split, isEarlier])).mpr
      (unwanted earlier isEarlier)

/-- The first child to escape from the first parent from which one escapes. -/
def FirstByParent
    (tree : Node)
    (parent child : Occurrence) :
    Prop :=
  FirstIn (occurrences tree) (fun place => ∃ other, Escapes place other) parent ∧
    FirstIn parent.children (Escapes parent) child

/-- The first child to be completed that escapes. -/
def FirstCompleted
    (tree : Node)
    (parent child : Occurrence) :
    Prop :=
  FirstIn (completions tree) (fun place => ∃ other, Escapes other place) child ∧
    Escapes parent child

/-- The check of one node looks for the first child that escapes from it. -/
theorem firstEscape?_node
    (parent : Occurrence) :
    parent.node.firstEscape? = parent.children.findSome? escape? := by
  have ofParent :
      ∀ child ∈ parent.children, child.parent? = some parent :=
    fun _ => parent?_of_mem_children
  rw [Node.firstEscape?, children_node, List.find?_map, Option.map_map]
  generalize parent.children = candidates at ofParent
  induction candidates with
  | nil =>
      rfl
  | cons child rest inductionHypothesis =>
      obtain ⟨isParent, restParent⟩ := List.forall_mem_cons.mp ofParent
      have here := escape?_of_parent isParent
      have others := inductionHypothesis restParent
      by_cases inside : parent.node.span.Contains child.node.span
      · simpa [here, inside] using others
      · simp [here, inside]

section

variable {tree : Node} {fault : TreeFault}

/-- The check of one node reports the first child to escape from it. -/
theorem findSome?_children_eq_some_iff
    {parent : Occurrence} :
    parent.children.findSome? escape? = some fault ↔
      ∃ child,
        FirstIn parent.children (Escapes parent) child ∧
          fault = parent.node.escape child.node := by
  rw [findSome?_eq_some_iff_firstIn fun _ => escape?_eq_none_iff_of_child]
  apply exists_congr
  intro child
  apply and_congr_right
  rintro ⟨escapes, _⟩
  rw [escape?_of_escapes escapes, Option.some.injEq, eq_comm]

theorem findSome?_children_eq_none_iff
    {parent : Occurrence} :
    parent.children.findSome? escape? = none ↔
      ¬∃ child, Escapes parent child := by
  rw [List.findSome?_eq_none_iff, not_exists]
  constructor
  · intro noneFound child escapes
    exact (escape?_eq_none_iff_of_child escapes.1).mp
      (noneFound child escapes.1) escapes
  · intro noEscape child isChild
    exact (escape?_eq_none_iff_of_child isChild).mpr (noEscape child)

/-- The check reports the first child to escape from the first parent. -/
theorem validate_eq_error_iff :
    tree.validate = .error fault ↔
      ∃ parent child,
        FirstByParent tree parent child ∧
          fault = parent.node.escape child.node := by
  have searched :
      tree.validate = .error fault ↔
        ((occurrences tree).findSome? fun parent =>
          parent.children.findSome? escape?) = some fault := by
    rw [Node.validate, Node.toList_descendants, ← map_node_occurrences,
      List.findSome?_map]
    simp only [Function.comp_def, firstEscape?_node]
    cases (occurrences tree).findSome? fun parent =>
      parent.children.findSome? escape? <;> simp
  rw [searched,
    findSome?_eq_some_iff_firstIn fun _ _ => findSome?_children_eq_none_iff]
  simp only [findSome?_children_eq_some_iff, FirstByParent, and_assoc,
    exists_and_left]

/-- A builder reports the first child to be completed that escapes. -/
theorem finish_eq_error_iff :
    (Builder.run tree.bracketing).finish = .error fault ↔
      ∃ parent child,
        FirstCompleted tree parent child ∧
          fault = parent.node.escape child.node := by
  have searched :
      (Builder.run tree.bracketing).finish = .error fault ↔
        (completions tree).findSome? escape? = some fault := by
    rw [Builder.finish_run_bracketing_eq]
    cases (completions tree).findSome? escape? <;> simp
  have finds :
      ∀ child ∈ completions tree,
        child.escape? = none ↔ ¬∃ parent, Escapes parent child :=
    fun _ completed =>
      escape?_eq_none_iff (mem_completions_iff.mp completed).standing
  rw [searched, findSome?_eq_some_iff_firstIn finds, exists_comm]
  apply exists_congr
  intro child
  simp only [FirstCompleted, and_assoc, exists_and_left]
  apply and_congr_right
  rintro ⟨⟨parent, escapes⟩, _⟩
  constructor
  · intro found
    rw [escape?_of_escapes escapes] at found
    exact ⟨parent, escapes, (Option.some.inj found).symm⟩
  · rintro ⟨other, escapesOther, rfl⟩
    exact escape?_of_escapes escapesOther

/-! ## Trees in which nothing escapes -/

/-- A tree is well nested when no node in it escapes its parent. -/
theorem nested_iff_no_escape :
    tree.Nested ↔
      ∀ parent child, Within tree parent → ¬Escapes parent child := by
  constructor
  · rintro nested parent child reached ⟨isChild, outside⟩
    exact outside
      ((reached.of_mem_children isChild).parent_contains nested
        (parent?_of_mem_children isChild))
  · intro noEscape node inTree child isChild
    rw [← map_node_occurrences] at inTree
    obtain ⟨parent, listed, rfl⟩ := List.mem_map.mp inTree
    rw [children_node] at isChild
    obtain ⟨place, isPlace, rfl⟩ := List.mem_map.mp isChild
    by_contra outside
    exact noEscape parent place (mem_occurrences_iff.mp listed)
      ⟨isPlace, outside⟩

/-- A tree is well nested when every node lies within all nodes above it. -/
theorem nested_iff_contained :
    tree.Nested ↔
      ∀ upper lower : Occurrence,
        Within tree lower →
        upper.Above lower →
        upper.node.span.Contains lower.node.span := by
  constructor
  · intro nested upper lower reached line
    exact line.atOrAbove.contains nested reached
  · intro contained
    rw [nested_iff_no_escape]
    rintro parent child reached ⟨isChild, outside⟩
    exact outside
      (contained parent child (reached.of_mem_children isChild)
        (.of_parent (parent?_of_mem_children isChild)))

theorem exists_validate_error_iff :
    (∃ fault, tree.validate = .error fault) ↔ ¬tree.Nested := by
  rw [← Node.validate_eq_ok_iff]
  cases tree.validate <;> simp

theorem exists_finish_error_iff :
    (∃ fault, (Builder.run tree.bracketing).finish = .error fault) ↔
      ¬tree.Nested := by
  have nested :
      tree.Nested ↔ (completions tree).findSome? escape? = none := by
    rw [nested_iff_no_escape, List.findSome?_eq_none_iff]
    constructor
    · intro noEscape child completed
      have reached := mem_completions_iff.mp completed
      rw [escape?_eq_none_iff reached.standing]
      rintro ⟨parent, escapes⟩
      exact noEscape parent child
        (reached.parent (parent?_of_mem_children escapes.1)) escapes
    · intro noneFound parent child reached escapes
      have completed := mem_completions_iff.mpr (reached.of_mem_children escapes.1)
      exact (escape?_eq_none_iff_of_child escapes.1).mp
        (noneFound child completed) escapes
  rw [nested, Builder.finish_run_bracketing_eq]
  cases (completions tree).findSome? escape? <;> simp

end

/--
The check of a tree and a builder notice that something escapes, each in its own order.

The check accepts a tree just when every node lies within all nodes above it. It reports
the first child to escape from the first parent in document order. A builder that is fed
the steps of the tree fails just when the check does; it reports the child that is
completed first among those that escape. Both say of which kinds the child and its
parent are and where they stand.
-/
theorem check_and_builder_report_escapes
    (tree : Node) :
    let built := (Builder.run tree.bracketing).finish
    let report := fun parent child : Occurrence =>
      TreeFault.childOutsideParent
        parent.node.kind parent.node.span child.node.kind child.node.span
    (tree.validate = .ok () ↔
        ∀ upper lower : Occurrence,
          Within tree lower →
          upper.Above lower →
          upper.node.span.Contains lower.node.span) ∧
      (∀ fault,
        tree.validate = .error fault ↔
          ∃ parent child,
            FirstByParent tree parent child ∧ fault = report parent child) ∧
      ((∃ fault, built = .error fault) ↔
        ∃ fault, tree.validate = .error fault) ∧
      ∀ fault,
        built = .error fault ↔
          ∃ parent child,
            FirstCompleted tree parent child ∧ fault = report parent child := by
  intro built report
  refine ⟨?_, ?_, ?_, ?_⟩
  · rw [Node.validate_eq_ok_iff, nested_iff_contained]
  · intro fault
    exact validate_eq_error_iff
  · rw [exists_finish_error_iff, exists_validate_error_iff]
  · intro fault
    exact finish_eq_error_iff

-- The semantic escapes from the file, which comes first; the name is completed first.
example :
    let file : Span := .ofTested 0 10 (.refl true)
    let struct : Span := .ofTested 0 4 (.refl true)
    let name : Span := .ofTested 2 6 (.refl true)
    let semantic : Span := .ofTested 8 12 (.refl true)
    let tree : Node :=
      ⟨.file, file,
        [⟨.structDeclaration, struct, [.leaf .identifier name]⟩,
          .leaf .semantic semantic]⟩
    tree.validate =
        .error (.childOutsideParent .file file .semantic semantic) ∧
      (Builder.run tree.bracketing).finish =
        .error (.childOutsideParent .structDeclaration struct .identifier name) := by
  decide +kernel

end Occurrence

end ShaderTint
