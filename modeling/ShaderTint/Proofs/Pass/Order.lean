import ShaderTint.Pass.Run
import ShaderTint.Tree.Walk

namespace ShaderTint.Pass

/-!
# The order of a pass

A pass keeps the nodes that it has still to visit in a list of frames. Here that
list is read as what it stands for: the frames of its trees in document order,
every node with its parent.

Main statement: `walk_eq_scan` says that a pass, whatever receives its
highlights, is one scan of these frames from first to last. The frames that a
pass really takes up are its `trail`.
-/

/-! ## Frames in document order -/

mutual

/-- The frames of a tree in document order. -/
def framesOf
    (parent : Option Node) :
    Node → List Frame
  | ⟨kind, span, children⟩ =>
      { node := ⟨kind, span, children⟩, parent := parent } ::
        framesOfForest ⟨kind, span, children⟩ children

/-- The frames of a node's children and of all below them. -/
def framesOfForest
    (parent : Node) :
    List Node → List Frame
  | [] => []
  | child :: rest =>
      framesOf (some parent) child ++ framesOfForest parent rest

end

/-- The frames that a list of pending frames stands for. -/
def pendingFrames
    (pending : List Frame) :
    List Frame :=
  pending.flatMap fun frame => framesOf frame.parent frame.node

/-- A tree's frames start with its root and go on with its children's. -/
theorem framesOf_eq
    (parent : Option Node)
    (node : Node) :
    framesOf parent node =
      { node := node, parent := parent } ::
        framesOfForest node node.children := by
  cases node
  simp [framesOf]

/-- The frames below a node are those that its child frames stand for. -/
theorem framesOfForest_eq_flatMap
    (parent : Node)
    (children : List Node) :
    framesOfForest parent children =
      children.flatMap (framesOf (some parent)) := by
  induction children with
  | nil =>
      rfl
  | cons child rest inductionHypothesis =>
      simp [framesOfForest, inductionHypothesis]

/-- No pending frame stands for nothing. -/
@[simp]
theorem pendingFrames_nil :
    pendingFrames [] = [] :=
  rfl

/-- One pending frame stands for the frames of its tree. -/
theorem pendingFrames_singleton
    (frame : Frame) :
    pendingFrames [frame] = framesOf frame.parent frame.node := by
  simp [pendingFrames]

/--
Taking up the first pending frame and putting its children in its place leaves
the frames that were pending, less the one taken up.
-/
theorem pendingFrames_cons
    (frame : Frame)
    (rest : List Frame) :
    pendingFrames (frame :: rest) =
      frame :: pendingFrames (childFrames frame.node ++ rest) := by
  have below :
      pendingFrames (childFrames frame.node) =
        framesOfForest frame.node frame.node.children := by
    rw [framesOfForest_eq_flatMap, pendingFrames, childFrames,
      List.flatMap_map]
  calc
    pendingFrames (frame :: rest) =
        framesOf frame.parent frame.node ++ pendingFrames rest := by
      simp [pendingFrames]
    _ = frame ::
          (pendingFrames (childFrames frame.node) ++ pendingFrames rest) := by
      rw [framesOf_eq, below, List.cons_append]
    _ = frame :: pendingFrames (childFrames frame.node ++ rest) := by
      simp [pendingFrames]

mutual

/-- Frames in document order hold the nodes in document order. -/
theorem map_node_framesOf
    (parent : Option Node) :
    ∀ node : Node,
      (framesOf parent node).map (·.node) = node.preorder
  | ⟨kind, span, children⟩ => by
      simp [framesOf, Node.preorder,
        map_node_framesOfForest ⟨kind, span, children⟩ children]

/-- The frames below a node hold the nodes below it in document order. -/
theorem map_node_framesOfForest
    (parent : Node) :
    ∀ children : List Node,
      (framesOfForest parent children).map (·.node) =
        Node.preorderOfForest children
  | [] => by
      simp [framesOfForest, Node.preorderOfForest]
  | child :: rest => by
      simp [framesOfForest, Node.preorderOfForest,
        map_node_framesOf (some parent) child,
        map_node_framesOfForest parent rest]

end

mutual

/-- A tree has as many frames as nodes. -/
theorem length_framesOf
    (parent : Option Node) :
    ∀ node : Node,
      (framesOf parent node).length = node.size
  | ⟨kind, span, children⟩ => by
      simp [framesOf, Node.size,
        length_framesOfForest ⟨kind, span, children⟩ children]

/-- There are as many frames below a node as nodes below it. -/
theorem length_framesOfForest
    (parent : Node) :
    ∀ children : List Node,
      (framesOfForest parent children).length =
        Node.sizeOfForest children
  | [] => by
      simp [framesOfForest, Node.sizeOfForest]
  | child :: rest => by
      simp [framesOfForest, Node.sizeOfForest,
        length_framesOf (some parent) child,
        length_framesOfForest parent rest]

end

section

variable [Sink σ]

/-! ## A pass is a scan -/

/-- Visit the frames of a list in turn until the pass is to stop. -/
def scan
    (settings : PassSettings) :
    List Frame → Progress σ → Outcome × Progress σ
  | [], progress => conclude progress (.finished progress.stats)
  | frame :: rest, progress =>
      if halted settings progress.host then
        conclude progress (.interrupted progress.stats.nodesVisited)
      else
        scan settings rest (visit settings progress frame)

/--
A pass with any pending frames scans the frames that they stand for.

The list of pending frames changes shape at every node; what it stands for only
loses its first frame.
-/
theorem walk_eq_scan
    (settings : PassSettings)
    (pending : List Frame)
    (progress : Progress σ) :
    walk settings pending progress =
      scan settings (pendingFrames pending) progress := by
  fun_induction walk settings pending progress with
  | case1 progress =>
      simp [scan]
  | case2 progress frame rest stops =>
      simp [pendingFrames_cons, scan, stops]
  | case3 progress frame rest goesOn inductionHypothesis =>
      rw [inductionHypothesis, pendingFrames_cons, scan, if_neg goesOn]

/-- A pass over a tree scans the frames of the tree. -/
theorem run_eq_scan
    (settings : PassSettings)
    (root : Node)
    (host : Host σ) :
    let scanned := scan settings (framesOf none root) (Progress.start host)
    run settings root host =
      {
        outcome := scanned.1
        host := scanned.2.host
        log := scanned.2.log
      } := by
  intro scanned
  rw [run, walk_eq_scan, pendingFrames_singleton]

/-- The frames that a pass takes up, in order. -/
def trail
    (settings : PassSettings)
    (pending : List Frame)
    (progress : Progress σ) :
    List Frame :=
  match pending with
  | [] => []
  | frame :: rest =>
      if halted settings progress.host then
        []
      else
        frame ::
          trail settings (childFrames frame.node ++ rest)
            (visit settings progress frame)
termination_by Node.sizeOfForest (pending.map (·.node))
decreasing_by
  simp only [childFrames, List.map_cons, List.map_append, List.map_map,
    Function.comp_def, List.map_id', Node.sizeOfForest,
    Node.sizeOfForest_append, Node.size_eq]
  omega

/-! ## Passes that nothing stops -/

/-- Nothing asks the pass to stop before any of these frames. -/
def Unhalted
    (settings : PassSettings) :
    List Frame → Progress σ → Prop
  | [], _ => True
  | frame :: rest, progress =>
      halted settings progress.host = false ∧
        Unhalted settings rest (visit settings progress frame)

/-- A scan that nothing stops visits every frame and finishes. -/
theorem scan_of_unhalted
    {settings : PassSettings}
    {frames : List Frame}
    {progress : Progress σ}
    (unhalted : Unhalted settings frames progress) :
    scan settings frames progress =
      conclude (frames.foldl (visit settings) progress)
        (.finished (frames.foldl (visit settings) progress).stats) := by
  induction frames generalizing progress with
  | nil =>
      rfl
  | cons frame rest inductionHypothesis =>
      obtain ⟨goesOn, restUnhalted⟩ := unhalted
      rw [scan, goesOn]
      exact inductionHypothesis restUnhalted

/-- A pass that nothing stops takes up every frame that its pending frames stand for. -/
theorem trail_of_unhalted
    {settings : PassSettings}
    {pending : List Frame}
    {progress : Progress σ}
    (unhalted : Unhalted settings (pendingFrames pending) progress) :
    trail settings pending progress = pendingFrames pending := by
  fun_induction trail settings pending progress with
  | case1 progress =>
      rfl
  | case2 progress frame rest stops =>
      rw [pendingFrames_cons] at unhalted
      rw [unhalted.1] at stops
      contradiction
  | case3 progress frame rest goesOn inductionHypothesis =>
      rw [pendingFrames_cons] at unhalted ⊢
      rw [inductionHypothesis unhalted.2]

end

end ShaderTint.Pass
