import ShaderTint.Proofs.Pass.Recursion

namespace ShaderTint

/-!
# Nodes where they stand

Two places of a tree may hold equal nodes. An `Occurrence` is a node together
with the way down to it, so that different places stay apart. Occurrences have
kinds and children, hence the table of rules applies to them as it is, and it
then says for which place each highlight is meant.

Main statements: `Occurrence.map_node_emissions` says that a pass makes just these
emissions; `Occurrence.mem_occurrences_iff` and `Occurrence.nodup_occurrences` say
that document order lists every occurrence of a tree once.
-/

/--
A node with the nodes above it.

The nodes above are listed nearest first, each with the position among its
children that leads down.
-/
structure Occurrence where
  node : Node
  above : List (Node × Nat)
  deriving DecidableEq

namespace Occurrence

/-- A tree as the occurrence of its root. -/
def ofRoot
    (root : Node) :
    Occurrence where
  node := root
  above := []

/-- A node at a position below an occurrence. -/
def child
    (occurrence : Occurrence)
    (index : Nat)
    (node : Node) :
    Occurrence where
  node := node
  above := (occurrence.node, index) :: occurrence.above

/-- The children of an occurrence in document order. -/
def children
    (occurrence : Occurrence) :
    List Occurrence :=
  occurrence.node.children.mapIdx occurrence.child

/-- The occurrence right above. -/
def parent?
    (occurrence : Occurrence) :
    Option Occurrence :=
  match occurrence.above with
  | [] => none
  | (parent, _) :: rest => some { node := parent, above := rest }

instance : Shaped Occurrence where
  kind occurrence := occurrence.node.kind
  children := children

/-- The first of some occurrences that is wanted. -/
def FirstIn
    (places : List Occurrence)
    (wanted : Occurrence → Prop)
    (found : Occurrence) :
    Prop :=
  wanted found ∧
    ∃ before after,
      places = before ++ found :: after ∧
        ∀ earlier ∈ before, ¬wanted earlier

/-- An occurrence that can be reached from the root of a tree. -/
inductive Within
    (root : Node) :
    Occurrence → Prop where
  | ofRoot :
      Within root (ofRoot root)
  | child
      {occurrence : Occurrence}
      {index : Nat}
      {node : Node} :
      Within root occurrence →
      occurrence.node.children[index]? = some node →
      Within root (occurrence.child index node)

@[simp]
theorem parent?_child
    (occurrence : Occurrence)
    (index : Nat)
    (node : Node) :
    (occurrence.child index node).parent? = some occurrence :=
  rfl

/-- Children are the nodes found at a position. -/
theorem mem_children_iff
    {occurrence below : Occurrence} :
    below ∈ occurrence.children ↔
      ∃ index node,
        occurrence.node.children[index]? = some node ∧
          below = occurrence.child index node := by
  rw [children, List.mem_iff_getElem?]
  constructor
  · rintro ⟨index, found⟩
    rw [List.getElem?_mapIdx, Option.map_eq_some_iff] at found
    obtain ⟨node, present, rfl⟩ := found
    exact ⟨index, node, present, rfl⟩
  · rintro ⟨index, node, present, rfl⟩
    exact ⟨index, by rw [List.getElem?_mapIdx, present]; rfl⟩

/-- Forgetting the way down keeps kinds and children. -/
theorem keepsShape_node :
    Table.KeepsShape Occurrence.node where
  kind_eq _ := rfl
  children_eq occurrence := by
    apply List.ext_getElem?
    intro index
    change
      occurrence.node.children[index]? =
        (occurrence.children.map Occurrence.node)[index]?
    rw [List.getElem?_map, children, List.getElem?_mapIdx,
      Option.map_map]
    exact (Option.map_id_fun' ▸ rfl)

/-- The children of a node are those of its occurrence, wherever they stand. -/
theorem children_node
    (occurrence : Occurrence) :
    occurrence.node.children = occurrence.children.map Occurrence.node :=
  keepsShape_node.children_eq occurrence

/-! ## Occurrences in document order -/

mutual

/-- The occurrences of a tree that stands below the given nodes. -/
def occurrencesAt
    (above : List (Node × Nat)) :
    Node → List Occurrence
  | ⟨kind, span, children⟩ =>
      { node := ⟨kind, span, children⟩, above := above } ::
        occurrencesBelow ⟨kind, span, children⟩ above 0 children

/-- The occurrences of a node's children from a position on. -/
def occurrencesBelow
    (parent : Node)
    (above : List (Node × Nat)) :
    Nat → List Node → List Occurrence
  | _, [] => []
  | index, child :: rest =>
      occurrencesAt ((parent, index) :: above) child ++
        occurrencesBelow parent above (index + 1) rest

end

/-- The occurrences of a tree in document order. -/
def occurrences
    (root : Node) :
    List Occurrence :=
  occurrencesAt [] root

mutual

/-- Occurrences of a tree have the nodes above the tree above them. -/
theorem suffix_of_mem_occurrencesAt
    {above : List (Node × Nat)}
    {occurrence : Occurrence} :
    ∀ {node : Node},
      occurrence ∈ occurrencesAt above node →
      above <:+ occurrence.above
  | ⟨kind, span, children⟩, member => by
      rw [occurrencesAt, List.mem_cons] at member
      rcases member with isRoot | below
      · subst occurrence
        exact List.suffix_refl above
      · obtain ⟨index, _, suffix⟩ := suffix_of_mem_occurrencesBelow below
        exact (List.suffix_cons _ _).trans suffix

/-- Occurrences below a node have the node and a position above them. -/
theorem suffix_of_mem_occurrencesBelow
    {parent : Node}
    {above : List (Node × Nat)}
    {occurrence : Occurrence} :
    ∀ {start : Nat} {children : List Node},
      occurrence ∈ occurrencesBelow parent above start children →
      ∃ index, start ≤ index ∧ (parent, index) :: above <:+ occurrence.above
  | _, [], member => by
      simp [occurrencesBelow] at member
  | start, child :: rest, member => by
      rw [occurrencesBelow, List.mem_append] at member
      rcases member with inFirst | inRest
      · exact ⟨start, Nat.le_refl _, suffix_of_mem_occurrencesAt inFirst⟩
      · obtain ⟨index, later, suffix⟩ :=
          suffix_of_mem_occurrencesBelow inRest
        exact ⟨index, Nat.le_of_succ_le later, suffix⟩

end

mutual

/-- No occurrence of a tree is listed twice. -/
theorem nodup_occurrencesAt
    (above : List (Node × Nat)) :
    ∀ node : Node,
      (occurrencesAt above node).Nodup
  | ⟨kind, span, children⟩ => by
      rw [occurrencesAt, List.nodup_cons]
      refine ⟨?_, nodup_occurrencesBelow _ above 0 children⟩
      intro member
      obtain ⟨index, _, suffix⟩ := suffix_of_mem_occurrencesBelow member
      have longer := suffix.length_le
      rw [List.length_cons] at longer
      exact Nat.not_succ_le_self _ longer

/-- No occurrence below a node is listed twice. -/
theorem nodup_occurrencesBelow
    (parent : Node)
    (above : List (Node × Nat)) :
    ∀ (start : Nat) (children : List Node),
      (occurrencesBelow parent above start children).Nodup
  | _, [] => by
      simp [occurrencesBelow]
  | start, child :: rest => by
      rw [occurrencesBelow, List.nodup_append]
      refine ⟨nodup_occurrencesAt _ child,
        nodup_occurrencesBelow parent above (start + 1) rest, ?_⟩
      intro first inFirst second inRest same
      subst second
      -- Two ways down of one length that end alike are the same way down.
      have firstSuffix := suffix_of_mem_occurrencesAt inFirst
      obtain ⟨index, later, secondSuffix⟩ :=
        suffix_of_mem_occurrencesBelow inRest
      have sameWay :
          (parent, start) :: above = (parent, index) :: above :=
        (List.suffix_of_suffix_length_le firstSuffix secondSuffix
          (by simp)).eq_of_length (by simp)
      simp only [List.cons.injEq, Prod.mk.injEq, true_and,
        and_true] at sameWay
      omega

end

/-- No occurrence of a tree is listed twice. -/
theorem nodup_occurrences
    (root : Node) :
    (occurrences root).Nodup :=
  nodup_occurrencesAt [] root

mutual

/-- Listed occurrences can be reached when the tree they belong to can. -/
theorem within_of_mem_occurrencesAt
    {root : Node}
    {above : List (Node × Nat)}
    {occurrence : Occurrence} :
    ∀ {node : Node},
      Within root { node := node, above := above } →
      occurrence ∈ occurrencesAt above node →
      Within root occurrence
  | ⟨kind, span, children⟩, reached, member => by
      rw [occurrencesAt, List.mem_cons] at member
      rcases member with isRoot | below
      · exact isRoot ▸ reached
      · apply within_of_mem_occurrencesBelow reached _ below
        intro index child present
        simpa using present

/-- Listed occurrences below a node can be reached when the node can. -/
theorem within_of_mem_occurrencesBelow
    {root parent : Node}
    {above : List (Node × Nat)}
    {occurrence : Occurrence}
    (reached : Within root { node := parent, above := above }) :
    ∀ {start : Nat} {children : List Node},
      (∀ index child,
        children[index]? = some child →
        parent.children[start + index]? = some child) →
      occurrence ∈ occurrencesBelow parent above start children →
      Within root occurrence
  | _, [], _, member => by
      simp [occurrencesBelow] at member
  | start, child :: rest, present, member => by
      rw [occurrencesBelow, List.mem_append] at member
      rcases member with inFirst | inRest
      · exact within_of_mem_occurrencesAt
          (.child reached (present 0 child rfl)) inFirst
      · refine within_of_mem_occurrencesBelow reached ?_ inRest
        intro index found isThere
        have shifted := present (index + 1) found isThere
        rwa [← Nat.add_assoc, Nat.add_right_comm] at shifted

end

/-- A tree that stands below the given nodes is the first of its occurrences. -/
theorem self_mem_occurrencesAt
    (above : List (Node × Nat))
    (node : Node) :
    { node := node, above := above } ∈ occurrencesAt above node := by
  cases node
  simp [occurrencesAt]

/-- The nodes found at a position below a node are listed. -/
theorem child_mem_occurrencesBelow
    (parent : Node)
    (above : List (Node × Nat))
    (start : Nat)
    {index : Nat}
    {children : List Node}
    {found : Node}
    (present : children[index]? = some found) :
    { node := found, above := (parent, start + index) :: above } ∈
      occurrencesBelow parent above start children := by
  induction children generalizing start index with
  | nil =>
      simp at present
  | cons child rest inductionHypothesis =>
      rw [occurrencesBelow, List.mem_append]
      cases index with
      | zero =>
          cases present
          exact .inl (self_mem_occurrencesAt _ found)
      | succ later =>
          have listed := inductionHypothesis (start + 1) present
          rw [Nat.add_right_comm] at listed
          exact .inr listed

mutual

/-- The children of a listed occurrence are listed. -/
theorem child_mem_occurrencesAt
    {above : List (Node × Nat)}
    {occurrence : Occurrence}
    {index : Nat}
    {found : Node}
    (present : occurrence.node.children[index]? = some found) :
    ∀ {node : Node},
      occurrence ∈ occurrencesAt above node →
      occurrence.child index found ∈ occurrencesAt above node
  | ⟨kind, span, children⟩, member => by
      rw [occurrencesAt, List.mem_cons] at member
      rw [occurrencesAt, List.mem_cons]
      right
      rcases member with isRoot | below
      · subst occurrence
        have listed :=
          child_mem_occurrencesBelow ⟨kind, span, children⟩ above
            0 present
        rwa [Nat.zero_add] at listed
      · exact child_mem_of_mem_occurrencesBelow present below

/-- The children of an occurrence listed below a node are listed there. -/
theorem child_mem_of_mem_occurrencesBelow
    {parent : Node}
    {above : List (Node × Nat)}
    {occurrence : Occurrence}
    {index : Nat}
    {found : Node}
    (present : occurrence.node.children[index]? = some found) :
    ∀ {start : Nat} {children : List Node},
      occurrence ∈ occurrencesBelow parent above start children →
      occurrence.child index found ∈
        occurrencesBelow parent above start children
  | _, [], member => by
      simp [occurrencesBelow] at member
  | start, child :: rest, member => by
      rw [occurrencesBelow, List.mem_append] at member ⊢
      rcases member with inFirst | inRest
      · exact .inl (child_mem_occurrencesAt present inFirst)
      · exact .inr (child_mem_of_mem_occurrencesBelow present inRest)

end

/-- Document order lists the occurrences that can be reached. -/
theorem mem_occurrences_iff
    {root : Node}
    {occurrence : Occurrence} :
    occurrence ∈ occurrences root ↔ Within root occurrence := by
  constructor
  · exact within_of_mem_occurrencesAt .ofRoot
  · intro reached
    induction reached with
    | ofRoot =>
        exact self_mem_occurrencesAt [] root
    | child _ present inductionHypothesis =>
        exact child_mem_occurrencesAt present inductionHypothesis

/-! ## Emissions and the places they are made for -/

/-- The frame of an occurrence in a pass. -/
def frame
    (occurrence : Occurrence) :
    Pass.Frame where
  node := occurrence.node
  parent := occurrence.parent?.map Occurrence.node

mutual

/-- The frames of the occurrences of a tree are the frames of a pass. -/
theorem map_frame_occurrencesAt
    (above : List (Node × Nat)) :
    ∀ node : Node,
      (occurrencesAt above node).map frame =
        Pass.framesOf (above.head?.map Prod.fst) node
  | ⟨kind, span, children⟩ => by
      rw [occurrencesAt, Pass.framesOf, List.map_cons,
        map_frame_occurrencesBelow _ above 0 children]
      cases above <;> rfl

/-- The frames of the occurrences below a node are those of a pass below it. -/
theorem map_frame_occurrencesBelow
    (parent : Node)
    (above : List (Node × Nat)) :
    ∀ (start : Nat) (children : List Node),
      (occurrencesBelow parent above start children).map frame =
        Pass.framesOfForest parent children
  | _, [] => by
      rfl
  | start, child :: rest => by
      rw [occurrencesBelow, Pass.framesOfForest, List.map_append,
        map_frame_occurrencesAt _ child,
        map_frame_occurrencesBelow parent above (start + 1) rest]
      rfl

end

/-- A subtree has as many places as nodes. -/
theorem length_occurrencesAt
    (above : List (Node × Nat))
    (node : Node) :
    (occurrencesAt above node).length = node.size := by
  rw [← List.length_map frame, map_frame_occurrencesAt,
    Pass.length_framesOf]

/-- The frames of the occurrences of a tree are the frames of a pass over it. -/
theorem map_frame_occurrences
    (root : Node) :
    (occurrences root).map frame = Pass.framesOf none root :=
  map_frame_occurrencesAt [] root

/-- The occurrences of a tree are occurrences of its nodes in document order. -/
theorem map_node_occurrences
    (root : Node) :
    (occurrences root).map Occurrence.node = root.preorder := by
  rw [← Pass.map_node_framesOf none root, ← map_frame_occurrences,
    List.map_map]
  rfl

/-- What can be reached in a tree is one of its nodes. -/
theorem Within.mem_preorder
    {root : Node}
    {occurrence : Occurrence}
    (reached : Within root occurrence) :
    occurrence.node ∈ root.preorder := by
  rw [← map_node_occurrences]
  exact List.mem_map_of_mem (mem_occurrences_iff.mpr reached)

/-- What the table lists for the occurrences of a tree, in document order. -/
def emissions
    (root : Node) :
    List (Tag × Occurrence) :=
  (occurrences root).flatMap fun occurrence =>
    Table.entries occurrence.parent? occurrence

/-- What the rule at an occurrence asks for. -/
def ruleEffects
    (occurrence : Occurrence) :
    List Effect :=
  Rule.effects occurrence.frame.parent occurrence.frame.node

/-- The rule at an occurrence emits what the table lists for it. -/
theorem emissionsOf_ruleEffects
    (occurrence : Occurrence) :
    emissionsOf occurrence.ruleEffects =
      (Table.entries occurrence.parent? occurrence).map
        (Prod.map id Occurrence.node) := by
  rw [ruleEffects, emissionsOf_effects]
  exact Table.entries_map keepsShape_node _ _

/-- Passing over the frames of occurrences applies the rules at the occurrences. -/
theorem effectsOf_map_frame
    (sources : List Occurrence) :
    Pass.effectsOf Rule.effects (sources.map frame) =
      sources.flatMap ruleEffects := by
  rw [Pass.effectsOf, List.flatMap_map]
  rfl

/-- A pass over a tree applies the rules at its occurrences. -/
theorem effectsOf_framesOf
    (root : Node) :
    Pass.effectsOf Rule.effects (Pass.framesOf none root) =
      (occurrences root).flatMap ruleEffects := by
  rw [← map_frame_occurrences, effectsOf_map_frame]

/-- A pass makes these emissions, each for the node that stands in its place. -/
theorem map_node_emissions
    (root : Node) :
    (emissions root).map (Prod.map id Occurrence.node) =
      Table.inTree none root := by
  calc
    (emissions root).map (Prod.map id Occurrence.node) =
        (occurrences root).flatMap fun occurrence =>
          emissionsOf occurrence.ruleEffects := by
      simp only [emissions, List.map_flatMap, emissionsOf_ruleEffects]
    _ = emissionsOf ((occurrences root).flatMap ruleEffects) := by
      simp only [emissionsOf, List.filterMap_flatMap]
    _ = Table.inTree none root := by
      rw [← effectsOf_framesOf, Pass.emissionsOf_framesOf]

end Occurrence

end ShaderTint
