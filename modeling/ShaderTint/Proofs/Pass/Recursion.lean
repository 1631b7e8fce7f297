import ShaderTint.Proofs.Pass.RuleTable

namespace ShaderTint

/-!
# A pass as a recursion over the tree

What a tree is highlighted with, written as a plain recursion: the entries that
the table lists for a node, then what its children are highlighted with, one
after the other.

Main statement: `Pass.run_appends_recursion` says that an uninterrupted pass into a
plain list appends exactly this, visits every node once and in document order,
and counts what it did.
-/

namespace Table

mutual

/-- What a tree is highlighted with, given the parent of its root. -/
def inTree
    (parent : Option Node) :
    Node → List (Tag × Node)
  | ⟨kind, span, children⟩ =>
      entries parent ⟨kind, span, children⟩ ++
        inForest ⟨kind, span, children⟩ children

/-- What the trees below a node are highlighted with. -/
def inForest
    (parent : Node) :
    List Node → List (Tag × Node)
  | [] => []
  | child :: rest => inTree (some parent) child ++ inForest parent rest

end

end Table

namespace Pass

mutual

/-- Emissions in document order are those of the recursion. -/
theorem emissionsOf_framesOf
    (parent : Option Node) :
    ∀ node : Node,
      emissionsOf (effectsOf Rule.effects (framesOf parent node)) =
        Table.inTree parent node
  | ⟨kind, span, children⟩ => by
      have below :=
        emissionsOf_framesOfForest ⟨kind, span, children⟩ children
      simp only [effectsOf] at below
      simp [framesOf, Table.inTree, effectsOf, emissionsOf_effects, below]

/-- Emissions below a node are those of the recursion. -/
theorem emissionsOf_framesOfForest
    (parent : Node) :
    ∀ children : List Node,
      emissionsOf (effectsOf Rule.effects (framesOfForest parent children)) =
        Table.inForest parent children
  | [] => by
      simp [framesOfForest, Table.inForest, effectsOf]
  | child :: rest => by
      have first := emissionsOf_framesOf (some parent) child
      have others := emissionsOf_framesOfForest parent rest
      simp only [effectsOf] at first others
      simp [framesOfForest, Table.inForest, effectsOf, first, others]

end

/-- Highlights in document order are those of the recursion. -/
theorem highlightsOf_framesOf
    (parent : Option Node)
    (node : Node) :
    highlightsOf (effectsOf Rule.effects (framesOf parent node)) =
      (Table.inTree parent node).map highlightOf := by
  rw [highlightsOf, emissionsOf_framesOf]

/-- An uninterrupted pass appends what the recursion lists to a plain list. -/
theorem toList_sink_run
    {context : Context}
    {host : Host (Array Highlight)}
    (flagDown : host.flags.isRaised context.family = false)
    (reporting : Reporting)
    (tree : Node) :
    (run (context.settings reporting) tree host).host.sink.toList =
      host.sink.toList ++ (Table.inTree none tree).map highlightOf := by
  rw [run_of_quiet tree host (flagDown_settings flagDown reporting),
    ← highlightsOf_framesOf none tree]
  exact Sink.toList_addAll_array _ _ _

/-- The mismatches in a log are those of the effects, when these are logged. -/
theorem filterMap_mismatch?_events
    {settings : PassSettings}
    (logs : settings.reporting = .log)
    (effects : List Effect) :
    (effects.filterMap (Effect.event? settings)).filterMap
        Event.mismatch? =
      mismatchesOf effects := by
  rw [List.filterMap_filterMap, mismatchesOf]
  congr 1
  funext effect
  cases effect with
  | emit tag target =>
      by_cases traces : settings.trace = true <;>
        simp [Effect.event?, traces, Event.mismatch?, Effect.mismatch?]
  | skip owner part =>
      rfl
  | record mismatch =>
      simp [Effect.event?, logs, Event.mismatch?, Effect.mismatch?]

/--
An uninterrupted pass into a plain list is the recursion over the tree.

The pass finishes; it appends what the recursion lists; the nodes on its trail
are the descendants of the tree in the order in which a walk yields them, and
the pass is nothing but a visit of each of them in turn; it counts the nodes of
the tree, the highlights appended and the mismatches handed to the diagnostics,
which reach the collection or the log as the settings say.
-/
theorem run_appends_recursion
    (tree : Node)
    (context : Context)
    (reporting : Reporting)
    (host : Host (Array Highlight))
    (flagDown : host.flags.isRaised context.family = false) :
    let settings := context.settings reporting
    let pending : List Frame := [{ node := tree, parent := none }]
    let start := Progress.start host
    let visited := trail settings pending start
    let handed := mismatchesOf (effectsOf settings.rules visited)
    let result := run settings tree host
    ∃ stats,
      result.outcome = .finished stats ∧
      result.host.sink.toList =
        host.sink.toList ++ (Table.inTree none tree).map highlightOf ∧
      visited.map (·.node) = tree.descendants.toList ∧
      walk settings pending start =
        conclude (visited.foldl (visit settings) start) (.finished stats) ∧
      stats.nodesVisited = tree.size ∧
      result.host.sink.size = host.sink.size + stats.highlightsEmitted ∧
      stats.mismatches = handed.length ∧
      (reporting = .collect →
        result.host.collected.toList = host.collected.toList ++ handed) ∧
      (reporting = .log →
        result.log.toList.filterMap Event.mismatch? = handed) := by
  intro settings pending start visited handed result
  have settingsDown : FlagDown settings start.host.flags :=
    flagDown_settings flagDown reporting
  have visitedAll : visited = framesOf none tree :=
    trail_of_quiet tree settingsDown
  have final :
      visited.foldl (visit settings) start =
        completed settings tree host := by
    rw [visitedAll, foldl_visit, length_framesOf, completed]
  have ran := run_of_quiet tree host settingsDown
  have appended := toList_sink_run flagDown reporting tree
  refine ⟨(completed settings tree host).stats,
    ?_, appended, ?_, ?_, ?_, ?_, ?_, ?_, ?_⟩
  · rw [show result = _ from ran]
  · rw [visitedAll, map_node_framesOf, Node.toList_descendants]
  · rw [final]
    exact walk_of_quiet tree settingsDown
  · exact Nat.zero_add _
  · have counted :
        (completed settings tree host).stats.highlightsEmitted =
          (Table.inTree none tree).length := by
      rw [← emissionsOf_framesOf]
      exact Nat.zero_add _
    have sizes := congrArg List.length appended
    rw [List.length_append, List.length_map, ← counted] at sizes
    exact sizes
  · simp [handed, visitedAll, completed, Progress.after, Progress.start,
      PassStats.zero]
  · intro collects
    rw [show result = _ from ran]
    simp [handed, visitedAll, completed, Progress.after, Progress.start,
      settings, Context.settings, collects]
  · intro logs
    rw [show result = _ from ran]
    have settingsLog : settings.reporting = .log :=
      logs
    have reported :=
      filterMap_mismatch?_events settingsLog
        (effectsOf settings.rules (framesOf none tree))
    simp [handed, visitedAll, completed, Progress.after, Progress.start,
      Event.mismatch?, reported, List.filterMap_cons]

/-- The expression `f()`, over bytes 0 to 3. -/
def callExample : Node where
  kind := .postfixExpression
  span := ⟨0, 3, by decide, by decide⟩
  children := [
    .leaf .identifier ⟨0, 1, by decide, by decide⟩,
    .leaf .callOperator ⟨1, 3, by decide, by decide⟩]

/--
Passing over `f()` appends the two highlights of `f` to a list that already holds
them.
-/
theorem run_appends_recursion_callExample :
    let callee : Highlight :=
      ⟨⟨0, 1, by decide, by decide⟩, .functionIdentifier⟩
    let host : Host (Array Highlight) :=
      { rawHost with sink := #[callee, callee] }
    host.flags.isRaised 0 = false ∧
      (run (Context.settings ⟨0, true⟩ .collect)
          callExample host).host.sink.toList =
        [callee, callee, callee, callee] := by
  intro callee host
  have flagDown : host.flags.isRaised 0 = false :=
    rfl
  obtain ⟨stats, _, appended, _⟩ :=
    run_appends_recursion callExample ⟨0, true⟩ .collect host flagDown
  exact ⟨flagDown, appended⟩

end Pass

end ShaderTint
