import ShaderTint.CommandLine.Program
import ShaderTint.Proofs.Highlight.FirstSeen
import ShaderTint.Proofs.Pass.Recursion

namespace ShaderTint.CommandLine

/-!
# The modes of the program

Each mode runs a pass of its own, into a plain list or into a distinct
collection. Neither kind of receiver has a say in how the pass goes on, so the
passes are the same and only what is made of the highlights differs.

Main statements: `highlight_eq` gives the outcome of every mode, and
`modes_agree` compares the three.
-/

/-- What a mode makes of the highlights of a pass. -/
def Mode.view
    (mode : Mode)
    (highlights : List Highlight) :
    List Highlight :=
  match mode with
  | .raw => highlights
  | .dedupe => highlights.eraseDups
  | .resolve => (DistinctHighlights.ofList highlights).resolved

/--
A pass into a quiet receiver succeeds with what the receiver shows.

The counters and the log do not depend on the receiver: they are those of a pass
into a plain list.
-/
theorem collected_run
    [Sink σ]
    [Sink.Quiet σ]
    {context : Context}
    (root : Node)
    (host : Host σ)
    (flagDown : host.flags.isRaised context.family = false)
    {view : σ → List Highlight}
    {shown : List Highlight}
    (shows :
      view (Sink.addAll ((Table.inTree none root).map highlightOf)
        host.sink host.flags).1 = shown) :
    let settings := context.settings .log
    let result := Pass.run settings root host
    let final := Pass.completed settings root Pass.rawHost
    collected result (view result.host.sink) =
      .ok (shown, final.stats, final.log.push (.finished final.stats)) := by
  intro settings result final
  have settingsDown : Pass.FlagDown settings host.flags :=
    Pass.flagDown_settings flagDown .log
  have ended : result = _ :=
    Pass.run_of_quiet root host settingsDown
  rw [ended, ← shows, ← Pass.highlightsOf_framesOf]
  rfl

/--
Every mode succeeds, with the counters and the log of a pass into a plain list and
with its own view of the highlights.
-/
theorem highlight_eq
    {context : Context}
    {flags : Flags}
    (flagDown : flags.isRaised context.family = false)
    (root : Node)
    (mode : Mode) :
    let final :=
      Pass.completed (context.settings .log) root Pass.rawHost
    highlight root mode context flags =
      .ok (mode.view ((Table.inTree none root).map highlightOf), final.stats,
        final.log.push (.finished final.stats)) := by
  intro final
  cases mode with
  | raw =>
      refine collected_run root { Pass.rawHost with flags := flags }
        flagDown ?_
      exact Sink.toList_addAll_array _ _ _
  | dedupe =>
      refine collected_run root { Pass.distinctHost with flags := flags }
        flagDown ?_
      rw [Sink.addAll_distinct]
      exact DistinctHighlights.toList_foldl_insert _ _
  | resolve =>
      refine collected_run root { Pass.distinctHost with flags := flags }
        flagDown ?_
      rw [Sink.addAll_distinct]
      rfl

/-- The resolved view of a list holds its first highlight for each span. -/
theorem view_resolve_perm
    (highlights : List Highlight) :
    (Mode.resolve.view highlights).Perm
      (highlights.eraseDupsBy Highlight.sameSpan) := by
  have distinct :
      (DistinctHighlights.ofList highlights).toList = highlights.eraseDups :=
    DistinctHighlights.toList_foldl_insert .empty highlights
  have kept := (DistinctHighlights.ofList highlights).resolved_perm
  rw [distinct, eraseDupsBy_eraseDups Highlight.sameSpan_self] at kept
  exact kept

/--
The three modes are views of one pass.

Under a context whose flag is down they all succeed, with the same counters. The
second list is the first one without later repetitions; the third one holds the
first highlight that the first one has for each span, in the order of the spans.
-/
theorem modes_agree
    (root : Node)
    (context : Context)
    (flags : Flags)
    (flagDown : flags.isRaised context.family = false) :
    ∃ raw deduped resolved stats log,
      highlight root .raw context flags = .ok (raw, stats, log) ∧
      highlight root .dedupe context flags = .ok (deduped, stats, log) ∧
      highlight root .resolve context flags = .ok (resolved, stats, log) ∧
      deduped = raw.eraseDups ∧
      resolved.Perm (raw.eraseDupsBy Highlight.sameSpan) ∧
      (resolved.Pairwise fun left right => left.span.Before right.span) ∧
      stats.highlightsEmitted = raw.length := by
  refine ⟨_, _, _, _, _, highlight_eq flagDown root .raw,
    highlight_eq flagDown root .dedupe, highlight_eq flagDown root .resolve,
    rfl, view_resolve_perm _, ?_, ?_⟩
  · exact DistinctHighlights.resolved_increasing _
  · rw [Mode.view, List.length_map, ← Pass.emissionsOf_framesOf]
    exact Nat.zero_add _

/-- The call `f()` and the parameter type `int`, over bytes 0 to 7. -/
def overlapExample : Node where
  kind := .block
  span := .ofTested 0 7 (.refl true)
  children := [
    {
      kind := .postfixExpression
      span := .ofTested 0 3 (.refl true)
      children := [
        .leaf .identifier (.ofTested 0 1 (.refl true)),
        .leaf .callOperator (.ofTested 1 3 (.refl true))]
    },
    {
      kind := .singleVariableDeclaration
      span := .ofTested 4 7 (.refl true)
      children := [.leaf .builtInType (.ofTested 4 7 (.refl true))]
    }]

/--
Of the four highlights of `overlapExample` one is a repetition, and of the two for
the type the first one wins.
-/
theorem modes_agree_overlapExample :
    let callee : Highlight :=
      ⟨⟨0, 1, by decide, by decide⟩, .functionIdentifier⟩
    let type : Highlight :=
      ⟨⟨4, 7, by decide, by decide⟩, .typeIdentifier⟩
    let keyword : Highlight :=
      ⟨⟨4, 7, by decide, by decide⟩, .keyword⟩
    let context : Context := ⟨0, false⟩
    Flags.clear.isRaised context.family = false ∧
      ∃ resolved stats log,
        highlight overlapExample .dedupe context Flags.clear =
          .ok ([callee, type, keyword], stats, log) ∧
        highlight overlapExample .resolve context Flags.clear =
          .ok (resolved, stats, log) ∧
        resolved.Perm [callee, type] ∧
        stats.highlightsEmitted = 4 := by
  intro callee type keyword context
  have flagDown : Flags.clear.isRaised context.family = false :=
    rfl
  obtain ⟨raw, deduped, resolved, stats, log, rawRuns, dedupeRuns,
    resolveRuns, distinct, perm, _, counted⟩ :=
    modes_agree overlapExample context Flags.clear flagDown
  have rawIs : raw = [callee, callee, type, keyword] :=
    congrArg Prod.fst (Except.ok.inj
      (rawRuns.symm.trans (highlight_eq flagDown overlapExample .raw)))
  subst raw
  subst deduped
  exact ⟨flagDown, resolved, stats, log, dedupeRuns, resolveRuns, perm,
    counted⟩

end ShaderTint.CommandLine
