import ShaderTint.Proofs.Pass.Occurrence
import ShaderTint.Proofs.Tree.Calls

namespace ShaderTint

/-!
# Passes round by round

A pass visits one node in a round and then has its children pending in its place, each
with the node as its parent. So what is pending between two rounds comes from places
all over the tree. These places are followed here along with the pass: they are children
of places that have been visited, and the subtrees at them, from the first one on, are
what the pass has still to visit.

Main statements: `Pass.Stage.liesAt_round` says that a round keeps this up,
`Pass.Stage.exists_liesAt` that it always holds, and `Pass.stack_holds_what_is_ahead`
what it comes to for walks and passes.
-/

namespace Occurrence

/-- The places of the subtree at a place, in document order. -/
def subtree
    (place : Occurrence) :
    List Occurrence :=
  occurrencesAt place.above place.node

theorem occurrencesBelow_eq_flatMap
    (parent : Node)
    (above : List (Node × Nat))
    (start : Nat)
    (children : List Node) :
    occurrencesBelow parent above start children =
      (children.zipIdx start).flatMap fun (child, index) =>
        occurrencesAt ((parent, index) :: above) child := by
  induction children generalizing start with
  | nil =>
      rfl
  | cons child rest inductionHypothesis =>
      rw [occurrencesBelow, inductionHypothesis, List.zipIdx_cons,
        List.flatMap_cons]

/-- A subtree is its root and the subtrees of its children. -/
theorem subtree_eq
    (place : Occurrence) :
    place.subtree = place :: place.children.flatMap subtree := by
  obtain ⟨⟨kind, span, children⟩, above⟩ := place
  rw [subtree, occurrencesAt, occurrencesBelow_eq_flatMap, Occurrence.children,
    List.mapIdx_eq_zipIdx_map, List.flatMap_map]
  rfl

/-- The places of some subtrees are as many as their nodes. -/
theorem length_flatMap_subtree
    (places : List Occurrence) :
    (places.flatMap subtree).length =
      Node.sizeOfForest (places.map Occurrence.node) := by
  induction places with
  | nil =>
      rfl
  | cons place rest inductionHypothesis =>
      rw [List.flatMap_cons, List.length_append, inductionHypothesis, subtree,
        length_occurrencesAt, List.map_cons, Node.sizeOfForest]

/-- The frames of a place's children are those that a pass has pending after the place. -/
theorem map_frame_children
    (place : Occurrence) :
    place.children.map frame = Pass.childFrames place.node := by
  rw [Pass.childFrames, children_node, List.map_map]
  apply List.map_congr_left
  intro child member
  obtain ⟨index, node, _, rfl⟩ := mem_children_iff.mp member
  rfl

end Occurrence

namespace Pass

open Occurrence

/-- A pass between two rounds. -/
structure Stage (σ : Type) where
  /-- The frames taken up so far, in order. -/
  visited : List Frame
  /-- The frames still to be taken up, nearest first. -/
  pending : List Frame
  progress : Progress σ

namespace Stage

/-- A pass over a tree before its first round. -/
def start
    (root : Node)
    (host : Host σ) :
    Stage σ where
  visited := []
  pending := [{ node := root, parent := none }]
  progress := Progress.start host

/--
Where the frames of a pass stand in its tree.

The places are those that have been visited, in order, and those that are pending,
nearest first.
-/
structure LiesAt
    (root : Node)
    (stage : Stage σ)
    (seen places : List Occurrence) :
    Prop where
  visited_eq : stage.visited = seen.map Occurrence.frame
  pending_eq : stage.pending = places.map Occurrence.frame
  /-- What has been visited and the subtrees at the pending places make up the tree. -/
  parted : seen ++ places.flatMap subtree = occurrences root
  /-- At first the root is pending, and later only children of what has been visited. -/
  parented :
    (seen = [] ∧ places = [ofRoot root]) ∨
      ∀ place ∈ places, ∃ parent ∈ seen, place ∈ parent.children

/-- A pass starts with nothing visited and the root pending. -/
theorem liesAt_start
    (root : Node)
    (host : Host σ) :
    (start root host).LiesAt root [] [ofRoot root] where
  visited_eq := rfl
  pending_eq := rfl
  parted := by simp [subtree, occurrences, ofRoot]
  parented := .inl ⟨rfl, rfl⟩

section

variable [Sink σ]

/--
One round: take up the first pending frame and put its node's children in its place.

A pass that has nothing pending, or is to stop, stays as it is.
-/
def round
    (settings : PassSettings)
    (stage : Stage σ) :
    Stage σ :=
  match stage.pending with
  | [] => stage
  | frame :: rest =>
      if halted settings stage.progress.host then
        stage
      else
        {
          visited := stage.visited ++ [frame]
          pending := childFrames frame.node ++ rest
          progress := visit settings stage.progress frame
        }

/-- A pass after so many rounds. -/
def after
    (settings : PassSettings)
    (stage : Stage σ) :
    Nat → Stage σ
  | 0 => stage
  | rounds + 1 => (stage.after settings rounds).round settings

/-- What holds at first and is kept by every round holds after all rounds. -/
theorem after_of_round
    {settings : PassSettings}
    {motive : Stage σ → Prop}
    (kept : ∀ stage, motive stage → motive (stage.round settings))
    {stage : Stage σ}
    (atFirst : motive stage)
    (rounds : Nat) :
    motive (stage.after settings rounds) := by
  induction rounds with
  | zero =>
      exact atFirst
  | succ rounds inductionHypothesis =>
      exact kept _ inductionHypothesis

/-- What a round does: nothing, or one visit. -/
theorem round_cases
    (settings : PassSettings)
    (stage : Stage σ) :
    (stage.round settings = stage ∧
        (stage.pending = [] ∨
          halted settings stage.progress.host = true)) ∨
      ∃ frame rest,
        stage.pending = frame :: rest ∧
          halted settings stage.progress.host = false ∧
          stage.round settings =
            {
              visited := stage.visited ++ [frame]
              pending := childFrames frame.node ++ rest
              progress := visit settings stage.progress frame
            } := by
  cases pending : stage.pending with
  | nil =>
      left
      exact ⟨by rw [round, pending], .inl rfl⟩
  | cons frame rest =>
      cases halts : halted settings stage.progress.host with
      | true =>
          left
          refine ⟨?_, .inr rfl⟩
          rw [round, pending]
          exact if_pos halts
      | false =>
          right
          refine ⟨frame, rest, rfl, rfl, ?_⟩
          rw [round, pending]
          exact if_neg (Bool.eq_false_iff.mp halts)

/-- A pass goes on from where a round leaves it to where it ends anyway. -/
theorem walk_round
    (settings : PassSettings)
    (stage : Stage σ) :
    walk settings (stage.round settings).pending
        (stage.round settings).progress =
      walk settings stage.pending stage.progress := by
  rcases round_cases settings stage with
    ⟨stays, _⟩ | ⟨frame, rest, pending, goesOn, visits⟩
  · rw [stays]
  · rw [visits, pending, walk.eq_def settings (frame :: rest)]
    exact (if_neg (Bool.eq_false_iff.mp goesOn)).symm

theorem walk_after
    (settings : PassSettings)
    (stage : Stage σ)
    (rounds : Nat) :
    walk settings (stage.after settings rounds).pending
        (stage.after settings rounds).progress =
      walk settings stage.pending stage.progress :=
  after_of_round
    (motive := fun later =>
      walk settings later.pending later.progress =
        walk settings stage.pending stage.progress)
    (fun later same => (walk_round settings later).trans same) rfl rounds

/-- A round adds the visit it makes to the progress. -/
theorem progress_round
    {settings : PassSettings}
    {stage : Stage σ}
    {begun : Progress σ}
    (made : stage.progress = stage.visited.foldl (visit settings) begun) :
    (stage.round settings).progress =
      (stage.round settings).visited.foldl (visit settings) begun := by
  rcases round_cases settings stage with
    ⟨stays, _⟩ | ⟨frame, rest, _, _, visits⟩
  · rw [stays]
    exact made
  · rw [visits, List.foldl_append, ← made]
    rfl

/-- The progress of a pass is that of the visits it has made. -/
theorem progress_after
    (settings : PassSettings)
    (root : Node)
    (host : Host σ)
    (rounds : Nat) :
    let stage := (start root host).after settings rounds
    stage.progress =
      stage.visited.foldl (visit settings) (Progress.start host) :=
  after_of_round
    (motive := fun later =>
      later.progress =
        later.visited.foldl (visit settings) (Progress.start host))
    (fun _ => progress_round) rfl rounds

/-- A round moves the first pending place to those visited, and its children come in its place. -/
theorem liesAt_round
    (settings : PassSettings)
    {root : Node}
    {stage : Stage σ}
    {seen places : List Occurrence}
    (lies : stage.LiesAt root seen places) :
    ∃ seenNext placesNext,
      (stage.round settings).LiesAt root seenNext placesNext := by
  rcases round_cases settings stage with
    ⟨stays, _⟩ | ⟨frame, rest, pending, _, visits⟩
  · rw [stays]
    exact ⟨seen, places, lies⟩
  · rw [lies.pending_eq, List.map_eq_cons_iff] at pending
    obtain ⟨place, others, rfl, rfl, rfl⟩ := pending
    refine ⟨seen ++ [place], place.children ++ others, ?_⟩
    rw [visits]
    refine ⟨?_, ?_, ?_, .inr ?_⟩
    · simp [lies.visited_eq]
    · simp [map_frame_children, Occurrence.frame]
    · rw [← lies.parted]
      simp [subtree_eq place]
    · intro other member
      rw [List.mem_append] at member
      rcases member with isChild | waits
      · exact ⟨place, by simp, isChild⟩
      · -- The root is never pending together with another place.
        rcases lies.parented with ⟨_, onlyRoot⟩ | ofSeen
        · rw [(List.cons.inj onlyRoot).2] at waits
          simp at waits
        · obtain ⟨parent, wasSeen, isChild⟩ :=
            ofSeen other (List.mem_cons_of_mem _ waits)
          exact ⟨parent, List.mem_append_left _ wasSeen, isChild⟩

/-- The frames of a pass always stand somewhere in its tree. -/
theorem exists_liesAt
    (settings : PassSettings)
    (root : Node)
    (host : Host σ)
    (rounds : Nat) :
    ∃ seen places,
      ((start root host).after settings rounds).LiesAt root seen places := by
  apply after_of_round (motive := fun stage =>
    ∃ seen places, stage.LiesAt root seen places)
  · rintro stage ⟨seen, places, lies⟩
    exact liesAt_round settings lies
  · exact ⟨_, _, liesAt_start root host⟩

/-- A pass visits one node in every round until it ends. -/
theorem length_visited_or_ended
    (settings : PassSettings)
    (root : Node)
    (host : Host σ)
    (rounds : Nat) :
    let stage := (start root host).after settings rounds
    stage.visited.length = rounds ∨
      stage.pending = [] ∨ halted settings stage.progress.host = true := by
  induction rounds with
  | zero =>
      exact .inl rfl
  | succ rounds inductionHypothesis =>
      intro stage
      rcases round_cases settings ((start root host).after settings rounds) with
        ⟨stays, ended⟩ | ⟨frame, rest, pending, goesOn, visits⟩
      · right
        rw [show stage = _ from stays]
        exact ended
      · left
        have counted := inductionHypothesis.resolve_right (by
          simp [pending, goesOn])
        rw [show stage = _ from visits, List.length_append, counted]
        rfl

end

section

variable {root : Node} {stage : Stage σ} {seen places : List Occurrence}

/-- The nodes visited and those of the pending trees are all nodes of the tree. -/
theorem LiesAt.size_eq
    (lies : stage.LiesAt root seen places) :
    stage.visited.length + Node.sizeOfForest (stage.pending.map (·.node)) =
      root.size := by
  have counted := congrArg List.length lies.parted
  rw [List.length_append, length_flatMap_subtree, occurrences,
    length_occurrencesAt] at counted
  rw [← counted, lies.visited_eq, lies.pending_eq, List.length_map,
    List.map_map]
  rfl

/-- A pending frame is that of the root before the first round, or of a child of a node visited. -/
theorem LiesAt.frame_cases
    (lies : stage.LiesAt root seen places)
    {frame : Frame}
    (waits : frame ∈ stage.pending) :
    (stage.visited = [] ∧ frame = { node := root, parent := none }) ∨
      ∃ earlier ∈ stage.visited,
        frame.parent = some earlier.node ∧
          frame.node ∈ earlier.node.children := by
  rw [lies.pending_eq, List.mem_map] at waits
  obtain ⟨place, member, rfl⟩ := waits
  rcases lies.parented with ⟨noneSeen, onlyRoot⟩ | ofSeen
  · left
    rw [onlyRoot, List.mem_singleton] at member
    rw [lies.visited_eq, noneSeen, member]
    exact ⟨rfl, rfl⟩
  · right
    obtain ⟨parent, wasSeen, isChild⟩ := ofSeen place member
    refine ⟨parent.frame, ?_, ?_, ?_⟩
    · rw [lies.visited_eq]
      exact List.mem_map_of_mem wasSeen
    · obtain ⟨index, node, _, rfl⟩ := mem_children_iff.mp isChild
      rfl
    · change place.node ∈ parent.node.children
      rw [children_node]
      exact List.mem_map_of_mem isChild

end

/-- A pass ends after as many rounds as the tree has nodes, or before. -/
theorem ended_of_size_le
    [Sink σ]
    (settings : PassSettings)
    (root : Node)
    (host : Host σ)
    {rounds : Nat}
    (enough : root.size ≤ rounds) :
    let stage := (start root host).after settings rounds
    stage.pending = [] ∨ halted settings stage.progress.host = true := by
  intro stage
  rcases length_visited_or_ended settings root host rounds with
    allVisited | ended
  · left
    obtain ⟨seen, places, lies⟩ := exists_liesAt settings root host rounds
    have counted :
        rounds + Node.sizeOfForest (stage.pending.map (·.node)) = root.size :=
      allVisited ▸ lies.size_eq
    have noneLeft : Node.sizeOfForest (stage.pending.map (·.node)) = 0 := by
      omega
    cases pending : stage.pending with
    | nil =>
        rfl
    | cons frame rest =>
        rw [pending, List.map_cons, Node.sizeOfForest, Node.size_eq] at noneLeft
        omega
  · exact ended

end Stage

/--
The stacks of walks and passes hold what is still to be visited.

After any number of calls the trees that a walk holds list, from the nearest on, the nodes
of the tree less one for every call, so calls are answered with the nodes in document
order, as many as the tree has, and with nothing from then on. After any number of rounds
the frames that a pass has pending stand at places whose subtrees make up what it has not
visited: first at the root, which has no parent, and then at children of nodes that it
has visited, with these as their parents. It ends after as many rounds as the tree has
nodes or before.
-/
theorem stack_holds_what_is_ahead
    [Sink σ]
    (tree : Node)
    (settings : PassSettings)
    (host : Host σ) :
    (∀ calls,
      let held := (Walk.ofNode tree).after calls
      held.pending.flatMap Node.preorder = tree.preorder.drop calls ∧
        Node.sizeOfForest held.pending = tree.size - calls ∧
        held.answer = tree.preorder[calls]? ∧
        (held.answer = none ↔ tree.size ≤ calls)) ∧
      tree.descendants.toList = tree.preorder ∧
      tree.preorder.length = tree.size ∧
      ∀ rounds,
        let begun := Stage.start tree host
        let stage := begun.after settings rounds
        (∃ seen places, stage.LiesAt tree seen places) ∧
          (∀ frame ∈ stage.pending,
            (stage.visited = [] ∧ frame = { node := tree, parent := none }) ∨
              ∃ earlier ∈ stage.visited,
                frame.parent = some earlier.node ∧
                  frame.node ∈ earlier.node.children) ∧
          stage.visited.length +
              Node.sizeOfForest (stage.pending.map (·.node)) =
            tree.size ∧
          stage.progress =
            stage.visited.foldl (visit settings) begun.progress ∧
          walk settings stage.pending stage.progress =
            walk settings begun.pending begun.progress ∧
          (tree.size ≤ rounds →
            stage.pending = [] ∨
              halted settings stage.progress.host = true) := by
  refine ⟨Walk.after_ofNode tree, Node.toList_descendants tree,
    Node.length_preorder tree, ?_⟩
  intro rounds begun stage
  obtain ⟨seen, places, lies⟩ := Stage.exists_liesAt settings tree host rounds
  exact ⟨⟨seen, places, lies⟩, fun _ => lies.frame_cases, lies.size_eq,
    Stage.progress_after settings tree host rounds,
    Stage.walk_after settings begun rounds,
    Stage.ended_of_size_le settings tree host⟩

end Pass

end ShaderTint
