import ShaderTint.Proofs.Pass.Interruption

namespace ShaderTint.Pass

/-!
# Passes on a budget

A receiver with a budget drops what comes after its last highlight, and a single
rule may emit many. A pass looks at the budget before a node only, so it could
overrun it at its very last node and still finish. It does not: the last node in
document order has no children, and a rule emits at most one highlight for a node
without children.

Main statement: `run_bounded_loses_nothing` says that a pass which finishes on a
budget has lost nothing, and that one which is interrupted has spent it all.
-/

/-! ## The last node -/

mutual

/-- The last frame of a tree holds a node without children. -/
theorem exists_last_framesOf
    (parent : Option Node) :
    ∀ node : Node,
      ∃ earlier last,
        framesOf parent node = earlier ++ [last] ∧
          last.node.children = []
  | ⟨kind, span, children⟩ => by
      rw [framesOf]
      rcases exists_last_framesOfForest ⟨kind, span, children⟩ children with
        noChildren | ⟨earlier, last, ends, childless⟩
      · subst noChildren
        exact ⟨[], _, rfl, rfl⟩
      · rw [ends]
        exact ⟨_ :: earlier, last, rfl, childless⟩

/-- So does the last frame below a node, if there is any. -/
theorem exists_last_framesOfForest
    (parent : Node) :
    ∀ children : List Node,
      children = [] ∨
        ∃ earlier last,
          framesOfForest parent children = earlier ++ [last] ∧
            last.node.children = []
  | [] =>
      .inl rfl
  | child :: rest => by
      right
      rw [framesOfForest]
      rcases exists_last_framesOfForest parent rest with
        noMore | ⟨earlier, last, ends, childless⟩
      · obtain ⟨earlier, last, ends, childless⟩ :=
          exists_last_framesOf (some parent) child
        subst noMore
        rw [ends, framesOfForest, List.append_nil]
        exact ⟨earlier, last, rfl, childless⟩
      · rw [ends, ← List.append_assoc]
        exact ⟨_, last, rfl, childless⟩

end

/-- A part that may be missing is highlighted at most once. -/
theorem length_tagged_le
    (tag : Tag)
    (part : Option Node) :
    (Table.tagged tag part).length ≤ 1 := by
  cases part <;> simp [Table.tagged]

/-- A node without children is the occasion of at most one highlight. -/
theorem length_entries_le_of_childless
    (parent : Option Node)
    {node : Node}
    (childless : node.children = []) :
    (Table.entries parent node).length ≤ 1 := by
  have noPart (test : Kind → Bool) : Table.first? test node = none := by
    simp [Table.first?, Shaped.children, childless]
  have noNames : Table.identifiers node = [] := by
    simp [Table.identifiers, Shaped.children, childless]
  unfold Table.entries
  cases Shaped.kind node with
  | callOperator =>
      -- The call's own shape does not matter here: it tags its sibling.
      cases parent with
      | none =>
          simp [Table.call]
      | some expression =>
          simp only [Table.call]
          split
          · exact length_tagged_le _ _
          · simp
  | _ =>
      simp [noPart, noNames, Table.tagged, Table.member, Table.function]

/-! ## Highlights of the first nodes -/

/-- The highlights that the rules of the first nodes of a tree ask for. -/
def highlightsBefore
    (root : Node)
    (visits : Nat) :
    List Highlight :=
  highlightsOf (effectsBefore Rule.effects root visits)

/-- The rules of all nodes ask for what the recursion lists. -/
theorem highlightsBefore_size
    (root : Node) :
    highlightsBefore root root.size =
      (Table.inTree none root).map highlightOf := by
  rw [highlightsBefore, effectsBefore_size, highlightsOf,
    emissionsOf_framesOf]

/-- What the first nodes ask for comes first. -/
theorem highlightsBefore_isPrefix
    (root : Node)
    (visits : Nat) :
    highlightsBefore root visits <+: highlightsBefore root root.size := by
  have split :
      effectsBefore Rule.effects root root.size =
        effectsBefore Rule.effects root visits ++
          effectsOf Rule.effects ((framesOf none root).drop visits) := by
    rw [effectsBefore_size, effectsBefore, effectsOf, effectsOf, effectsOf,
      ← List.flatMap_append, List.take_append_drop]
  rw [highlightsBefore, highlightsBefore, split, highlightsOf_append]
  exact List.prefix_append _ _

/-- The last node of a tree adds at most one highlight. -/
theorem length_highlightsBefore_size_le
    (root : Node) :
    (highlightsBefore root root.size).length ≤
      (highlightsBefore root (root.size - 1)).length + 1 := by
  obtain ⟨earlier, last, ends, childless⟩ := exists_last_framesOf none root
  have size : root.size = earlier.length + 1 := by
    rw [← length_framesOf none root, ends, List.length_append]
    rfl
  have before : effectsBefore Rule.effects root (root.size - 1) =
      effectsOf Rule.effects earlier := by
    rw [effectsBefore, ends, size, Nat.add_sub_cancel, List.take_left]
  have all : effectsBefore Rule.effects root root.size =
      effectsOf Rule.effects earlier ++
        Rule.effects last.parent last.node := by
    rw [effectsBefore, ends, size, ← List.length_singleton (a := last),
      ← List.length_append, List.take_length]
    simp [effectsOf]
  have one := length_entries_le_of_childless last.parent childless
  rw [← emissionsOf_effects] at one
  rw [highlightsBefore, highlightsBefore, before, all, highlightsOf_append,
    List.length_append]
  exact Nat.add_le_add_left ((List.length_map _).trans_le one) _

/-! ## Spending a budget -/

/-- A plain list behind a budget takes highlights while the budget lasts. -/
theorem addAll_bounded_raw
    (highlights : List Highlight)
    (budget : Nat)
    (items : Array Highlight)
    (flags : Flags) :
    Sink.addAll highlights (Outlet.bounded budget (.raw items)) flags =
      (.bounded (budget - highlights.length)
        (.raw (items ++ (highlights.take budget).toArray)), flags) := by
  induction highlights generalizing budget items with
  | nil =>
      simp [Sink.addAll]
  | cons highlight rest inductionHypothesis =>
      cases budget with
      | zero =>
          have spent :
              Sink.add highlight (Outlet.bounded 0 (.raw items)) flags =
                (.bounded 0 (.raw items), flags) :=
            rfl
          rw [Sink.addAll, spent, inductionHypothesis]
          simp
      | succ remaining =>
          have taken :
              Sink.add highlight
                  (Outlet.bounded (remaining + 1) (.raw items)) flags =
                (.bounded remaining (.raw (items.push highlight)), flags) :=
            rfl
          rw [Sink.addAll, taken, inductionHypothesis]
          simp

/-- A host whose plain list is put behind a budget. -/
def boundedHost
    (host : Host (Array Highlight))
    (budget : Nat) :
    Host Outlet where
  sink := .bounded budget (.raw host.sink)
  flags := host.flags
  collected := host.collected

section

variable
  (context : Context)
  (reporting : Reporting)
  (root : Node)
  (host : Host (Array Highlight))
  (budget : Nat)
  {visits : Nat}

/-- What is left of a budget, and what has come through, after some visits. -/
theorem standing_bounded
    (enough : visits ≤ root.size) :
    let final :=
      standing (context.settings reporting) root
        (boundedHost host budget) visits
    let emitted := highlightsBefore root visits
    final.host.sink =
        .bounded (budget - emitted.length)
          (.raw (host.sink ++ (emitted.take budget).toArray)) ∧
      final.host.flags = host.flags ∧
      final.stats.highlightsEmitted = emitted.length := by
  intro final emitted
  have stands : final = _ :=
    standing_eq_after _ root _ enough
  have added :=
    addAll_bounded_raw emitted budget host.sink host.flags
  rw [stands]
  refine ⟨congrArg Prod.fst added, congrArg Prod.snd added, ?_⟩
  rw [show emitted.length = _ from List.length_map _]
  exact Nat.zero_add _

/-- With its flag down, a pass on a budget stops when the budget is spent. -/
theorem halted_bounded_iff
    (flagDown : host.flags.isRaised context.family = false)
    (enough : visits ≤ root.size) :
    halted (context.settings reporting)
        (standing (context.settings reporting) root
          (boundedHost host budget) visits).host =
          true ↔
      budget ≤ (highlightsBefore root visits).length := by
  obtain ⟨sink, flags, _⟩ :=
    standing_bounded context reporting root host budget enough
  have settingsDown :
      FlagDown (context.settings reporting) host.flags :=
    flagDown_settings flagDown reporting
  unfold FlagDown at settingsDown
  rw [halted, sink, flags, settingsDown, Bool.false_or]
  change (_ == 0 || false) = true ↔ _
  rw [Bool.or_false, beq_iff_eq, Nat.sub_eq_zero_iff_le]

end

/--
A pass that finishes on a budget has lost nothing.

Behind the budget comes through what an unbounded pass emits first, up to the
budget. If the pass finishes, that is everything; if it is interrupted, the
budget is spent.
-/
theorem run_bounded_loses_nothing
    (tree : Node)
    (context : Context)
    (reporting : Reporting)
    (host : Host (Array Highlight))
    (budget : Nat)
    (flagDown : host.flags.isRaised context.family = false) :
    let settings := context.settings reporting
    let raw := (run settings tree { host with sink := #[] }).host.sink.toList
    let result := run settings tree (boundedHost host budget)
    let kept := result.host.sink.content.toList
    kept = host.sink.toList ++ raw.take (min budget raw.length) ∧
      match result.outcome with
      | .finished stats =>
          raw.length ≤ budget ∧
            kept = host.sink.toList ++ raw ∧
            stats.highlightsEmitted = raw.length
      | .interrupted _ =>
          budget ≤ raw.length ∧
            kept.length = host.sink.size + budget := by
  intro settings raw result kept
  have rawEq : raw = highlightsBefore tree tree.size := by
    rw [highlightsBefore_size]
    exact @toList_sink_run context { host with sink := #[] } flagDown reporting tree
  have cut : result = _ :=
    run_eq_cut settings tree (boundedHost host budget)
  simp only [kept, cut, rawEq]
  cases found : (List.range tree.size).find? fun visits =>
      halted settings
        (standing settings tree (boundedHost host budget) visits).host with
  | none =>
      obtain ⟨sink, _, counted⟩ :=
        standing_bounded context reporting tree host budget
          (Nat.le_refl tree.size)
      -- Before the last node the budget was not spent, and that node adds one.
      have fits : (highlightsBefore tree tree.size).length ≤ budget := by
        have before : tree.size - 1 < tree.size := by
          rw [Node.size_eq]
          omega
        have goesOn :=
          List.find?_range_eq_none.mp found (tree.size - 1) before
        have notSpent :=
          (halted_bounded_iff context reporting tree host budget flagDown
            (Nat.le_of_lt before)).not.mp (by simpa using goesOn)
        have lastOne := length_highlightsBefore_size_le tree
        omega
      dsimp only
      rw [sink, counted]
      simp [Outlet.content, List.take_of_length_le fits, fits]
  | some visited =>
      obtain ⟨stops, inRange, _⟩ := List.find?_range_eq_some.mp found
      have enough : visited ≤ tree.size :=
        Nat.le_of_lt (List.mem_range.mp inRange)
      obtain ⟨sink, _, _⟩ :=
        standing_bounded context reporting tree host budget enough
      have spent :=
        (halted_bounded_iff context reporting tree host budget flagDown
          enough).mp stops
      obtain ⟨later, split⟩ := highlightsBefore_isPrefix tree visited
      have longer :
          budget ≤ (highlightsBefore tree tree.size).length := by
        rw [← split, List.length_append]
        omega
      have sameFirst :
          (highlightsBefore tree tree.size).take budget =
            (highlightsBefore tree visited).take budget := by
        rw [← split, List.take_append_of_le_length spent]
      dsimp only
      rw [sink, Nat.min_eq_left longer, sameFirst]
      simp [Outlet.content, spent, longer]

/-- The member `int x, y` of a struct, over bytes 0 to 8. -/
def memberExample : Node where
  kind := .fieldDeclaration
  span := .ofTested 0 8 (.refl true)
  children := [{
    kind := .variableDeclaration
    span := .ofTested 0 8 (.refl true)
    children := [
      .leaf .builtInType (.ofTested 0 3 (.refl true)),
      .leaf .identifier (.ofTested 4 5 (.refl true)),
      .leaf .identifier (.ofTested 7 8 (.refl true))]
  }]

/--
The rule of `int x, y` asks for three highlights at once; on a budget of two the
last of them is dropped.
-/
theorem run_bounded_loses_nothing_memberExample :
    let settings := Context.settings ⟨0, false⟩ .collect
    rawHost.flags.isRaised 0 = false ∧
      (run settings memberExample
          (boundedHost rawHost 2)).host.sink.content.toList =
        [⟨⟨0, 3, by decide, by decide⟩, .typeIdentifier⟩,
          ⟨⟨4, 5, by decide, by decide⟩, .fieldIdentifier⟩] := by
  intro settings
  have flagDown : rawHost.flags.isRaised 0 = false :=
    rfl
  have kept :=
    (run_bounded_loses_nothing memberExample ⟨0, false⟩ .collect rawHost 2
      flagDown).1
  have unbounded :=
    @toList_sink_run ⟨0, false⟩ rawHost flagDown .collect memberExample
  refine ⟨flagDown, kept.trans ?_⟩
  rw [show ({ rawHost with sink := #[] } : Host _) = rawHost from rfl,
    unbounded]
  rfl

end ShaderTint.Pass
