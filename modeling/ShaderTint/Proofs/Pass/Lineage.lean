import Mathlib.Logic.Relation
import ShaderTint.Proofs.Pass.Containment

namespace ShaderTint.Occurrence

/-!
# Lines of descent

An occurrence is at or above another one when the other can be reached from it by
going down from parents to children.

Main statements: `occurrences_ordered` says that document order lists nothing
before what is above it; `Within.line_or_fork` says that two places of a tree are on
one line, or below two different children of one node; `AtOrAbove.contains` says
that spans only shrink on the way down a well-nested tree.
-/

/-- The lower occurrence is the upper one or is somewhere below it. -/
def AtOrAbove
    (upper lower : Occurrence) :
    Prop :=
  Relation.ReflTransGen
    (fun parent child : Occurrence => child.parent? = some parent)
    upper lower

/-- The lower occurrence is somewhere below the upper one. -/
def Above
    (upper lower : Occurrence) :
    Prop :=
  Relation.TransGen
    (fun parent child : Occurrence => child.parent? = some parent)
    upper lower

/-- Two different children of one node. -/
def Siblings
    (first second : Occurrence) :
    Prop :=
  first ≠ second ∧
    ∃ parent, first.parent? = some parent ∧ second.parent? = some parent

namespace AtOrAbove

variable {upper middle lower : Occurrence}

theorem refl
    (occurrence : Occurrence) :
    occurrence.AtOrAbove occurrence :=
  Relation.ReflTransGen.refl

theorem of_parent
    (isParent : lower.parent? = some upper) :
    upper.AtOrAbove lower :=
  Relation.ReflTransGen.single isParent

theorem trans
    (first : upper.AtOrAbove middle)
    (second : middle.AtOrAbove lower) :
    upper.AtOrAbove lower :=
  Relation.ReflTransGen.trans first second

/-- Going up two levels. -/
theorem of_grandparent
    (isGrandparent : lower.grandparent? = some upper) :
    upper.AtOrAbove lower := by
  obtain ⟨middle, isParent, middleParent⟩ :=
    Option.bind_eq_some_iff.mp isGrandparent
  exact (of_parent middleParent).trans (of_parent isParent)

/-- What is at or above an occurrence is the occurrence, or above it by a child. -/
theorem eq_or_exists_child
    (line : upper.AtOrAbove lower) :
    upper = lower ∨
      ∃ child : Occurrence,
        child.parent? = some upper ∧ child.AtOrAbove lower :=
  Relation.ReflTransGen.cases_head line

/-- The way down to the upper occurrence begins the way down to the lower one. -/
theorem above_suffix
    (line : upper.AtOrAbove lower) :
    upper.above <:+ lower.above := by
  induction line with
  | refl =>
      exact List.suffix_refl _
  | tail _ isParent inductionHypothesis =>
      obtain ⟨index, shape⟩ := above_eq_cons_iff.mp isParent
      rw [shape]
      exact inductionHypothesis.trans (List.suffix_cons _ _)

end AtOrAbove

namespace Above

variable {upper lower : Occurrence}

theorem of_parent
    (isParent : lower.parent? = some upper) :
    upper.Above lower :=
  Relation.TransGen.single isParent

theorem of_grandparent
    (isGrandparent : lower.grandparent? = some upper) :
    upper.Above lower := by
  obtain ⟨middle, isParent, middleParent⟩ :=
    Option.bind_eq_some_iff.mp isGrandparent
  exact Relation.TransGen.tail (of_parent middleParent) isParent

theorem atOrAbove
    (line : upper.Above lower) :
    upper.AtOrAbove lower :=
  Relation.TransGen.to_reflTransGen line

/-- Nothing is above itself: the way down gets longer with every level. -/
theorem ne
    (line : upper.Above lower) :
    upper ≠ lower := by
  obtain ⟨child, isParent, below⟩ := Relation.TransGen.head'_iff.mp line
  obtain ⟨index, shape⟩ := above_eq_cons_iff.mp isParent
  have longer := (AtOrAbove.above_suffix below).length_le
  rintro rfl
  rw [shape] at longer
  exact Nat.not_succ_le_self _ longer

end Above

/-! ## Document order goes down -/

mutual

/-- In the order of a tree nothing stands before what is above it. -/
theorem occurrencesAt_ordered
    (above : List (Node × Nat)) :
    ∀ node : Node,
      (occurrencesAt above node).Pairwise fun earlier later =>
        ¬later.AtOrAbove earlier
  | ⟨kind, span, children⟩ => by
      rw [occurrencesAt, List.pairwise_cons]
      refine ⟨?_, occurrencesBelow_ordered _ above 0 children⟩
      intro later below line
      obtain ⟨index, _, suffix⟩ := suffix_of_mem_occurrencesBelow below
      have longer := (suffix.trans line.above_suffix).length_le
      exact Nat.not_succ_le_self _ longer

/-- In the order below a node nothing stands before what is above it. -/
theorem occurrencesBelow_ordered
    (parent : Node)
    (above : List (Node × Nat)) :
    ∀ (start : Nat) (children : List Node),
      (occurrencesBelow parent above start children).Pairwise
        fun earlier later => ¬later.AtOrAbove earlier
  | _, [] => by
      simp [occurrencesBelow]
  | start, child :: rest => by
      rw [occurrencesBelow, List.pairwise_append]
      refine ⟨occurrencesAt_ordered _ child,
        occurrencesBelow_ordered parent above (start + 1) rest, ?_⟩
      intro earlier inFirst later inRest line
      -- The two ways down part at this node, so neither begins the other.
      have firstSuffix := suffix_of_mem_occurrencesAt inFirst
      obtain ⟨index, behind, restSuffix⟩ :=
        suffix_of_mem_occurrencesBelow inRest
      have sameWay :
          (parent, start) :: above = (parent, index) :: above :=
        (List.suffix_of_suffix_length_le firstSuffix
          (restSuffix.trans line.above_suffix)
          (Nat.le_refl _)).eq_of_length rfl
      have sameIndex : start = index :=
        (Prod.mk.inj (List.cons.inj sameWay).1).2
      exact Nat.not_succ_le_self start (sameIndex ▸ behind)

end

/-- Document order lists nothing before what is above it. -/
theorem occurrences_ordered
    (root : Node) :
    (occurrences root).Pairwise fun earlier later =>
      ¬later.AtOrAbove earlier :=
  occurrencesAt_ordered [] root

/-! ## Lines within a tree -/

section

variable {root : Node} {upper lower left right : Occurrence}

/-- What is at or above something within a tree is within the tree. -/
theorem Within.of_atOrAbove
    (reached : Within root lower)
    (line : upper.AtOrAbove lower) :
    Within root upper := by
  induction line with
  | refl =>
      exact reached
  | tail _ isParent inductionHypothesis =>
      exact inductionHypothesis (reached.parent isParent)

/-- The root is at or above everything within its tree. -/
theorem Within.below_root
    (reached : Within root lower) :
    (Occurrence.ofRoot root).AtOrAbove lower := by
  induction reached with
  | ofRoot =>
      exact .refl _
  | child _ _ inductionHypothesis =>
      exact inductionHypothesis.trans (.of_parent (parent?_child _ _ _))

/--
Two places of a tree are on one line, or below two children of one node.

The induction goes down to the left place: as long as it goes towards the right
place the two are on one line, and where it turns aside a node forks.
-/
theorem Within.line_or_fork
    (leftReached : Within root left)
    (rightReached : Within root right) :
    left.AtOrAbove right ∨
      right.AtOrAbove left ∨
        ∃ first second,
          Siblings first second ∧
            first.AtOrAbove left ∧ second.AtOrAbove right := by
  induction leftReached with
  | ofRoot =>
      exact .inl rightReached.below_root
  | @child middle index node _ _ inductionHypothesis =>
      have isParent : (middle.child index node).parent? = some middle :=
        parent?_child middle index node
      rcases inductionHypothesis with
        towards | above | ⟨first, second, siblings, onLeft, onRight⟩
      · rcases AtOrAbove.eq_or_exists_child towards with
          same | ⟨other, isOther, line⟩
        · subst same
          exact .inr (.inl (.of_parent isParent))
        · by_cases sameChild : middle.child index node = other
          · exact .inl (sameChild ▸ line)
          · exact .inr (.inr ⟨_, other,
              ⟨sameChild, middle, isParent, isOther⟩, .refl _, line⟩)
      · exact .inr (.inl (above.trans (.of_parent isParent)))
      · exact .inr (.inr ⟨first, second, siblings,
          onLeft.trans (.of_parent isParent), onRight⟩)

/-- In a well-nested tree a node contains its children. -/
theorem Within.parent_contains
    (nested : root.Nested)
    (reached : Within root lower)
    (isParent : lower.parent? = some upper) :
    upper.node.span.Contains lower.node.span := by
  obtain ⟨_, nestedParent⟩ := (reached.parent isParent).contains nested
  obtain ⟨index, shape⟩ := above_eq_cons_iff.mp isParent
  have isChild : lower.node ∈ upper.node.children :=
    List.mem_of_getElem? (reached.standing _ _ _ shape)
  exact (Node.nested_iff.mp nestedParent _ isChild).1

/-- In a well-nested tree spans only shrink on the way down. -/
theorem AtOrAbove.contains
    (nested : root.Nested)
    (reached : Within root lower)
    (line : upper.AtOrAbove lower) :
    upper.node.span.Contains lower.node.span := by
  induction line with
  | refl =>
      exact Span.Contains.refl _
  | tail _ isParent inductionHypothesis =>
      exact (inductionHypothesis (reached.parent isParent)).trans
        (reached.parent_contains nested isParent)

end

end ShaderTint.Occurrence
