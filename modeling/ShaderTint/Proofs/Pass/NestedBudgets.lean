import ShaderTint.Proofs.Pass.Kinship

namespace ShaderTint

/-!
# Budgets within budgets

A budget counts what reaches it. In a chain of budgets the inner ones see only what
the outer ones let through, so their counters drift apart once any of them is spent.
Still the chain as a whole is one budget, that of its least limit: it lets through the
first highlights up to that number and asks to stop from then on.

What a chain has become is told by what it was handed, whoever handed it over. `Tally`
is the receiver that knows nothing else. Every chain follows it, and so do passes
and sessions.

Main statements: `Outlet.add_spent` says what one highlight does to a chain, and
`Session.budgets_act_as_least` what becomes of a chain in a session, whatever its commands.
-/

namespace Outlet

/-- What stands at the end of a chain: a plain list, or a new distinct collection. -/
inductive Store where
  | list (items : Array Highlight)
  | distinct

/-- The receiver at the end of a chain when it has received these highlights. -/
def Store.holding : Store → List Highlight → Outlet
  | .list items, received => .raw (items ++ received.toArray)
  | .distinct, received => .distinct (.ofList received)

/-- A receiver behind budgets with these limits, the outermost first. -/
def behind
    (limits : List Nat)
    (inner : Outlet) :
    Outlet :=
  limits.foldr .bounded inner

/-- The receiver behind all budgets that stand in front. -/
def innermost : Outlet → Outlet
  | .bounded _ inner => inner.innermost
  | outlet => outlet

/-- A receiver has let the first of these highlights through, and asks to stop at a limit. -/
structure HasAdmitted
    (outlet : Outlet)
    (limit : Nat)
    (store : Store)
    (given : List Highlight) :
    Prop where
  innermost_eq : outlet.innermost = store.holding (given.take limit)
  shouldStop_iff : outlet.shouldStop = true ↔ limit ≤ given.length

/-! ## What is left of a chain -/

/-- A receiver behind budgets of which so many highlights have been spent on the outermost. -/
def spent : List Nat → Nat → Outlet → Outlet
  | [], _, inner => inner
  | limit :: others, count, inner =>
      .bounded (limit - count) (spent others (min count limit) inner)

@[simp]
theorem spent_zero
    (limits : List Nat)
    (inner : Outlet) :
    spent limits 0 inner = behind limits inner := by
  induction limits with
  | nil =>
      rfl
  | cons limit others inductionHypothesis =>
      rw [spent, Nat.sub_zero, Nat.zero_min, inductionHypothesis]
      rfl

section

variable
  (limits : List Nat)
  (count : Nat)
  (inner : Outlet)

@[simp]
theorem content_spent :
    (spent limits count inner).content = inner.content := by
  induction limits generalizing count with
  | nil =>
      rfl
  | cons limit others inductionHypothesis =>
      exact inductionHypothesis _

@[simp]
theorem innermost_spent :
    (spent limits count inner).innermost = inner.innermost := by
  induction limits generalizing count with
  | nil =>
      rfl
  | cons limit others inductionHypothesis =>
      exact inductionHypothesis _

/-- A chain asks to stop when a limit is reached. -/
theorem shouldStop_spent :
    (spent limits count inner).shouldStop = true ↔
      (∃ limit ∈ limits, limit ≤ count) ∨ inner.shouldStop = true := by
  induction limits generalizing count with
  | nil =>
      simp [spent]
  | cons limit others inductionHypothesis =>
      rw [spent, shouldStop, Bool.or_eq_true, inductionHypothesis, beq_iff_eq,
        Nat.sub_eq_zero_iff_le]
      by_cases reached : limit ≤ count
      · simp [reached]
      · rw [Nat.min_eq_left (Nat.le_of_not_le reached)]
        simp [reached]

/--
A highlight that is handed to a chain is counted by the outermost budget. It comes
through if no limit was reached before.
-/
theorem add_spent
    (highlight : Highlight)
    (flags : Flags)
    (silent : (inner.add highlight flags).2 = flags) :
    (spent limits count inner).add highlight flags =
      (spent limits (count + 1)
        (if ∃ limit ∈ limits, limit ≤ count then
          inner
        else
          (inner.add highlight flags).1), flags) := by
  induction limits generalizing count with
  | nil =>
      rw [if_neg (by simp)]
      exact Prod.ext rfl silent
  | cons limit others inductionHypothesis =>
      by_cases reached : limit ≤ count
      · -- The outermost budget is spent, and the others never hear of the highlight.
        have noneLeft : limit - count = 0 ∧ limit - (count + 1) = 0 := by
          omega
        have sameShare : min count limit = min (count + 1) limit := by
          omega
        simp only [spent, noneLeft, sameShare, List.exists_mem_cons_iff, reached,
          true_or, if_true]
        rfl
      · obtain ⟨left, remaining⟩ : ∃ left, limit - count = left + 1 :=
          ⟨limit - (count + 1), by omega⟩
        have oneLess : limit - (count + 1) = left := by
          omega
        have shares : min count limit = count ∧ min (count + 1) limit = count + 1 := by
          omega
        simp only [spent, remaining, oneLess, shares, add, inductionHypothesis,
          List.exists_mem_cons_iff, reached, false_or]

end

/-- The least of some limits is reached when any of them is. -/
theorem min_le_iff_exists
    {limits : List Nat}
    (nonempty : limits ≠ [])
    (count : Nat) :
    limits.min nonempty ≤ count ↔ ∃ limit ∈ limits, limit ≤ count := by
  constructor
  · intro reached
    exact ⟨_, List.min_mem nonempty, reached⟩
  · rintro ⟨limit, member, reached⟩
    exact (List.min_le_of_mem member).trans reached

namespace Store

@[simp]
theorem shouldStop_holding
    (store : Store)
    (received : List Highlight) :
    (store.holding received).shouldStop = false := by
  cases store <;> rfl

@[simp]
theorem innermost_holding
    (store : Store)
    (received : List Highlight) :
    (store.holding received).innermost = store.holding received := by
  cases store <;> rfl

/-- The end of a chain takes one more highlight and leaves the flags alone. -/
theorem add_holding
    (store : Store)
    (received : List Highlight)
    (highlight : Highlight)
    (flags : Flags) :
    (store.holding received).add highlight flags =
      (store.holding (received ++ [highlight]), flags) := by
  cases store with
  | list items =>
      simp [holding, add]
  | distinct =>
      simp [holding, add, DistinctHighlights.ofList]

end Store

end Outlet

/-! ## Chains follow what they are handed -/

/-- A receiver that lists what it is handed and asks to stop at a limit. -/
structure Tally (limit : Nat) where
  given : List Highlight

namespace Tally

instance : Sink (Tally limit) where
  add highlight tally flags := ({ given := tally.given ++ [highlight] }, flags)
  shouldStop tally := decide (limit ≤ tally.given.length)

theorem given_addAll
    (highlights : List Highlight)
    (tally : Tally limit)
    (flags : Flags) :
    (Sink.addAll highlights tally flags).1.given = tally.given ++ highlights := by
  induction highlights generalizing tally flags with
  | nil =>
      simp [Sink.addAll]
  | cons highlight rest inductionHypothesis =>
      rw [Sink.addAll, inductionHypothesis]
      simp [Sink.add]

/-- What a chain of budgets has become when it has been handed what is listed. -/
def chain
    (limits : List Nat)
    (store : Outlet.Store)
    (tally : Tally limit) :
    Outlet :=
  Outlet.spent limits tally.given.length
    (store.holding (tally.given.take limit))

theorem chain_nil
    (limits : List Nat)
    (store : Outlet.Store) :
    chain limits store ({ given := [] } : Tally limit) =
      .behind limits (store.holding []) := by
  simp [chain]

/-- The limit is reached just when one of these is. -/
def LeastOf
    (limit : Nat)
    (limits : List Nat) :
    Prop :=
  ∀ count, limit ≤ count ↔ ∃ other ∈ limits, other ≤ count

/-- The limit of a single budget is the least of its chain. -/
theorem leastOf_singleton
    (limit : Nat) :
    LeastOf limit [limit] := by
  simp [LeastOf]

section

variable
  {limit : Nat}
  {limits : List Nat}
  (least : LeastOf limit limits)
  (store : Outlet.Store)

include least

/-- A chain has let through what comes before its least limit. -/
theorem hasAdmitted_chain
    (tally : Tally limit) :
    (chain limits store tally).HasAdmitted limit store tally.given where
  innermost_eq := by
    rw [chain, Outlet.innermost_spent, Outlet.Store.innermost_holding]
  shouldStop_iff := by
    rw [chain, Outlet.shouldStop_spent, Outlet.Store.shouldStop_holding, least]
    simp

/-- A chain of budgets follows the list of what it has been handed. -/
theorem follows_chain :
    Sink.Follows (chain limits store : Tally limit → Outlet) where
  add_eq := by
    intro highlight tally flags
    have taken := Outlet.Store.add_holding store (tally.given.take limit) highlight flags
    have stepped :=
      Outlet.add_spent limits tally.given.length
        (store.holding (tally.given.take limit)) highlight flags (by rw [taken])
    refine stepped.trans ?_
    simp only [taken, Prod.map, Sink.add, chain, List.length_append,
      List.length_singleton, id_eq, Prod.mk.injEq, and_true]
    by_cases reached : limit ≤ tally.given.length
    · rw [if_pos ((least _).mp reached), List.take_append_of_le_length reached]
    · have fits : (tally.given ++ [highlight]).length ≤ limit := by
        rw [List.length_append, List.length_singleton]
        omega
      rw [if_neg (mt (least _).mpr reached),
        List.take_of_length_le (Nat.le_of_not_le reached),
        List.take_of_length_le fits]
  shouldStop_eq := by
    intro tally
    rw [Bool.eq_iff_iff]
    exact (hasAdmitted_chain least store tally).shouldStop_iff.trans
      decide_eq_true_iff.symm

end

@[simp]
theorem content_chain
    (limits : List Nat)
    (store : Outlet.Store)
    (tally : Tally limit) :
    (chain limits store tally).content =
      (store.holding (tally.given.take limit)).content :=
  Outlet.content_spent _ _ _

end Tally

namespace Pass

/-- Running alone for a receiver that follows another one leaves the same behind. -/
theorem runAlone_mapSink
    [Sink σ]
    [Sink τ]
    {f : σ → τ}
    (follows : Sink.Follows f)
    (reporting : Reporting)
    (root : Node)
    (host : Host σ) :
    runAlone reporting root (host.mapSink f) =
      (runAlone reporting root host).mapSink f := by
  have ran := run_mapSink follows (PassSettings.alone reporting) root host
  simp only [runAlone, ran, Result.mapSink]
  split <;> rfl

/-- A pass leaves its receiver as it becomes by taking what it is handed. -/
theorem sink_run
    [Sink σ]
    (settings : PassSettings)
    (root : Node)
    (host : Host σ) :
    let visits := (run settings root host).outcome.visited
    (run settings root host).host.sink =
      (Sink.addAll (highlightsOf (effectsBefore settings.rules root visits))
        host.sink host.flags).1 := by
  intro visits
  obtain ⟨enough, ends, _⟩ := run_eq_standing settings root host
  rw [ends, standing_eq_after settings root host enough]
  rfl

/-- A pass adds to a tally what it would hand to any receiver that follows the tally. -/
theorem given_run
    {f : Tally limit → Outlet}
    (follows : Sink.Follows f)
    (settings : PassSettings)
    (root : Node)
    (host : Host (Tally limit)) :
    (run settings root host).host.sink.given =
      host.sink.given ++
        (run settings root (host.mapSink f).recorded).host.sink.received.toList := by
  have sameOutcome :
      (run settings root (host.mapSink f)).outcome =
        (run settings root host).outcome :=
    congrArg Result.outcome (run_mapSink follows settings root host)
  rw [received_run_recorded, sameOutcome, sink_run, Tally.given_addAll]

end Pass

/-! ## Sessions -/

namespace Session

/-- The session with another receiver. -/
def receiving
    (session : Session)
    (outlet : Outlet) :
    Session :=
  { session with host := { session.host with sink := outlet } }

/-- The highlights that a command hands to the session's receiver, in order. -/
def handed
    (session : Session) :
    Command → List Highlight
  | .classify index reporting tree =>
      match session.contexts[index]? with
      | some context =>
          (Pass.run (context.settings reporting) tree
            session.host.recorded).host.sink.received.toList
      | none => []
  | .classifyAlone reporting tree =>
      (Pass.runAlone reporting tree
        session.host.recorded).host.sink.received.toList
  | .add highlight => [highlight]
  | _ => []

/-- The highlights that commands hand to the session's receiver, in order. -/
def handedBy
    (session : Session) :
    List Command → List Highlight
  | [] => []
  | command :: rest =>
      session.handed command ++ (session.step command).2.handedBy rest

/--
Two sessions that differ in their receivers only: a chain of budgets, and the one
budget with their least limit. Both have been handed the same highlights.
-/
structure Alike
    (limit : Nat)
    (limits : List Nat)
    (store : Outlet.Store)
    (given : List Highlight)
    (chained single : Session) :
    Prop where
  sink_eq :
    chained.host.sink =
      Tally.chain limits store ({ given := given } : Tally limit)
  single_eq :
    single =
      chained.receiving
        (Tally.chain [limit] store ({ given := given } : Tally limit))

section

variable
  {limit : Nat}
  {limits : List Nat}
  {store : Outlet.Store}
  {given : List Highlight}
  {chained single : Session}

/-- The host of a session whose receiver is followed by a tally. -/
def tallied
    (chained : Session)
    (limit : Nat)
    (given : List Highlight) :
    Host (Tally limit) :=
  chained.host.mapSink fun _ => { given := given }

theorem Alike.host_eq
    (alike : Alike limit limits store given chained single) :
    chained.host = (chained.tallied limit given).mapSink (Tally.chain limits store) ∧
      single.host = (chained.tallied limit given).mapSink (Tally.chain [limit] store) := by
  obtain ⟨sink, rfl⟩ := alike
  exact ⟨by rw [tallied, Host.mapSink, Host.mapSink, ← sink], rfl⟩

/-- What a pass has left makes no difference between the two sessions. -/
theorem Alike.absorb
    (alike : Alike limit limits store given chained single)
    (outcome : Option Outcome)
    (result : Pass.Result (Tally limit)) :
    let left :=
      chained.absorb outcome (result.mapSink (Tally.chain limits store))
    let right :=
      single.absorb outcome (result.mapSink (Tally.chain [limit] store))
    right.1 = left.1 ∧
      Alike limit limits store result.host.sink.given left.2 right.2 := by
  obtain ⟨sink, rfl⟩ := alike
  refine ⟨?_, rfl, rfl⟩
  simp [Session.absorb, receiving, sink, Pass.Result.mapSink, Host.mapSink]

/-- A pass goes in both sessions as it goes for a tally. -/
theorem Alike.run_eq
    (least : Tally.LeastOf limit limits)
    (alike : Alike limit limits store given chained single)
    (settings : PassSettings)
    (tree : Node) :
    let result := Pass.run settings tree (chained.tallied limit given)
    Pass.run settings tree chained.host =
        result.mapSink (Tally.chain limits store) ∧
      Pass.run settings tree single.host =
        result.mapSink (Tally.chain [limit] store) := by
  obtain ⟨chainedHost, singleHost⟩ := alike.host_eq
  have followsSingle :=
    Tally.follows_chain (Tally.leastOf_singleton limit) store
  constructor
  · rw [chainedHost, Pass.run_mapSink (Tally.follows_chain least store)]
  · rw [singleHost, Pass.run_mapSink followsSingle]

/-- So does a pass that nobody can interrupt. -/
theorem Alike.runAlone_eq
    (least : Tally.LeastOf limit limits)
    (alike : Alike limit limits store given chained single)
    (reporting : Reporting)
    (tree : Node) :
    let result := Pass.runAlone reporting tree (chained.tallied limit given)
    Pass.runAlone reporting tree chained.host =
        result.mapSink (Tally.chain limits store) ∧
      Pass.runAlone reporting tree single.host =
        result.mapSink (Tally.chain [limit] store) := by
  obtain ⟨chainedHost, singleHost⟩ := alike.host_eq
  have followsSingle :=
    Tally.follows_chain (Tally.leastOf_singleton limit) store
  constructor
  · rw [chainedHost, Pass.runAlone_mapSink (Tally.follows_chain least store)]
  · rw [singleHost, Pass.runAlone_mapSink followsSingle]

/-- Both sessions hand the same highlights to their receivers during a pass. -/
theorem Alike.received_eq
    (least : Tally.LeastOf limit limits)
    (alike : Alike limit limits store given chained single)
    (settings : PassSettings)
    (tree : Node) :
    let ofChain := Pass.run settings tree chained.host.recorded
    let ofSingle := Pass.run settings tree single.host.recorded
    ofSingle.host.sink.received.toList = ofChain.host.sink.received.toList ∧
      (Pass.run settings tree (chained.tallied limit given)).host.sink.given =
        given ++ ofChain.host.sink.received.toList := by
  intro ofChain ofSingle
  obtain ⟨chainedHost, singleHost⟩ := alike.host_eq
  have byChain :=
    Pass.given_run (Tally.follows_chain least store) settings tree
      (chained.tallied limit given)
  have bySingle :=
    Pass.given_run (Tally.follows_chain (Tally.leastOf_singleton limit) store)
      settings tree (chained.tallied limit given)
  rw [← chainedHost] at byChain
  rw [← singleHost] at bySingle
  exact ⟨List.append_cancel_left (bySingle.symm.trans byChain), byChain⟩

/-- A highlight that is handed over directly makes no difference between them. -/
theorem Alike.add
    (least : Tally.LeastOf limit limits)
    (alike : Alike limit limits store given chained single)
    (highlight : Highlight) :
    Alike limit limits store (given ++ [highlight])
      (chained.step (.add highlight)).2 (single.step (.add highlight)).2 := by
  obtain ⟨sink, rfl⟩ := alike
  have added :=
    (Tally.follows_chain least store).add_eq highlight { given := given }
      chained.host.flags
  have addedSingle :=
    (Tally.follows_chain (Tally.leastOf_singleton limit) store).add_eq highlight
      { given := given } chained.host.flags
  constructor
  · simp only [Session.step, sink, added]
    rfl
  · simp only [Session.step, receiving, sink, added, addedSingle]
    rfl

/-- The two sessions stay alike when both act alike on a context that exists. -/
theorem Alike.onContext
    (alike : Alike limit limits store given chained single)
    (index : Nat)
    {act other : Context → Reply × Session}
    (acts :
      ∀ context,
        (other context).1 = (act context).1 ∧
          Alike limit limits store given (act context).2 (other context).2) :
    (single.withContext index other).1 = (chained.withContext index act).1 ∧
      Alike limit limits store given
        (chained.withContext index act).2 (single.withContext index other).2 := by
  have sameContexts : single.contexts = chained.contexts := by
    rw [alike.single_eq]
    rfl
  rw [withContext, withContext, sameContexts]
  cases chained.contexts[index]? with
  | none =>
      exact ⟨rfl, alike⟩
  | some context =>
      exact acts context

/-- A command makes no difference between the two sessions. -/
theorem Alike.step
    (least : Tally.LeastOf limit limits)
    (alike : Alike limit limits store given chained single)
    (command : Command) :
    (single.step command).1 = (chained.step command).1 ∧
      single.handed command = chained.handed command ∧
      Alike limit limits store (given ++ chained.handed command)
        (chained.step command).2 (single.step command).2 := by
  have idle
      {left right : Reply × Session}
      (same :
        right.1 = left.1 ∧ Alike limit limits store given left.2 right.2) :
      right.1 = left.1 ∧ ([] : List Highlight) = [] ∧
        Alike limit limits store (given ++ []) left.2 right.2 :=
    ⟨same.1, rfl, by rw [List.append_nil]; exact same.2⟩
  cases command with
  | classify index reporting tree =>
      have sameContexts : single.contexts = chained.contexts := by
        rw [alike.single_eq]
        rfl
      rw [Session.step, Session.step, handed, handed, withContext, withContext,
        sameContexts]
      cases chained.contexts[index]? with
      | none =>
          exact idle ⟨rfl, alike⟩
      | some context =>
          obtain ⟨ofChain, ofSingle⟩ :=
            alike.run_eq least (context.settings reporting) tree
          obtain ⟨sameHanded, added⟩ :=
            alike.received_eq least (context.settings reporting) tree
          simp only [ofChain, ofSingle, ← added]
          obtain ⟨sameReply, stillAlike⟩ := alike.absorb (some _) _
          exact ⟨sameReply, sameHanded, stillAlike⟩
  | classifyAlone reporting tree =>
      obtain ⟨ofChain, ofSingle⟩ := alike.runAlone_eq least reporting tree
      obtain ⟨sameHanded, added⟩ :=
        alike.received_eq least (.alone reporting) tree
      simp only [← Pass.host_runAlone] at sameHanded added
      rw [Session.step, Session.step, handed, handed, ofChain, ofSingle, ← added]
      obtain ⟨sameReply, stillAlike⟩ := alike.absorb none _
      exact ⟨sameReply, sameHanded, stillAlike⟩
  | add highlight =>
      exact ⟨rfl, rfl, alike.add least highlight⟩
  | interrupt index =>
      obtain ⟨sink, rfl⟩ := alike
      exact idle (Alike.onContext ⟨sink, rfl⟩ index fun _ => ⟨rfl, sink, rfl⟩)
  | reset index =>
      obtain ⟨sink, rfl⟩ := alike
      exact idle (Alike.onContext ⟨sink, rfl⟩ index fun _ => ⟨rfl, sink, rfl⟩)
  | clone index =>
      obtain ⟨sink, rfl⟩ := alike
      exact idle (Alike.onContext ⟨sink, rfl⟩ index fun _ => ⟨rfl, sink, rfl⟩)
  | fresh trace =>
      obtain ⟨sink, rfl⟩ := alike
      exact idle ⟨rfl, sink, rfl⟩
  | takeCollected =>
      obtain ⟨sink, rfl⟩ := alike
      exact idle ⟨rfl, sink, rfl⟩

/-- Commands make no difference between the two sessions. -/
theorem Alike.run
    (least : Tally.LeastOf limit limits)
    (alike : Alike limit limits store given chained single)
    (commands : List Command) :
    (single.run commands).1 = (chained.run commands).1 ∧
      single.handedBy commands = chained.handedBy commands ∧
      Alike limit limits store (given ++ chained.handedBy commands)
        (chained.run commands).2 (single.run commands).2 := by
  induction commands generalizing given chained single with
  | nil =>
      rw [handedBy, handedBy, List.append_nil]
      exact ⟨rfl, rfl, alike⟩
  | cons command rest inductionHypothesis =>
      obtain ⟨sameReply, sameHanded, stillAlike⟩ := alike.step least command
      obtain ⟨sameReplies, sameRest, alikeAfter⟩ := inductionHypothesis stillAlike
      rw [List.append_assoc] at alikeAfter
      refine ⟨?_, ?_, alikeAfter⟩
      · exact congrArg₂ List.cons sameReply sameReplies
      · exact congrArg₂ (· ++ ·) sameHanded sameRest

end

/--
A chain of budgets is the budget with their least limit.

Let a session hand highlights to a chain of at least one budget, directly and by
passes, under whatever flags. What has come through to the end of the chain is what
was handed over first, up to the least limit, and the chain asks to stop just when
as much has been handed over. With the one budget in place of the chain the session
gives the same answers, hands over the same highlights and is left the same. A chain
that asks to stop lets nothing through any more, whatever comes later.
-/
theorem budgets_act_as_least
    (limit : Nat)
    (others : List Nat)
    (store : Outlet.Store)
    (session : Session)
    (commands : List Command) :
    let limits := limit :: others
    let least := limits.min (List.cons_ne_nil limit others)
    let chained := session.receiving (.behind limits (store.holding []))
    let single := session.receiving (.bounded least (store.holding []))
    let given := chained.handedBy commands
    let final := (chained.run commands).2
    let singleFinal := (single.run commands).2
    final.host.sink.HasAdmitted least store given ∧
      singleFinal.host.sink.HasAdmitted least store given ∧
      (single.run commands).1 = (chained.run commands).1 ∧
      single.handedBy commands = given ∧
      singleFinal = final.receiving singleFinal.host.sink ∧
      (final.host.sink.shouldStop = true →
        ∀ later,
          (final.run later).2.host.sink.innermost =
            final.host.sink.innermost) := by
  intro limits least chained single given final singleFinal
  have isLeast : Tally.LeastOf least limits :=
    Outlet.min_le_iff_exists (List.cons_ne_nil limit others)
  have start : Alike least limits store [] chained single := {
    sink_eq := (Tally.chain_nil limits store).symm
    single_eq := by
      rw [Tally.chain_nil]
      rfl
  }
  obtain ⟨sameReplies, sameHanded, alike⟩ := start.run isLeast commands
  rw [List.nil_append] at alike
  have admitted : final.host.sink.HasAdmitted least store given := by
    rw [show final.host.sink = _ from alike.sink_eq]
    exact Tally.hasAdmitted_chain isLeast store _
  refine ⟨admitted, ?_, sameReplies, sameHanded, ?_, ?_⟩
  · rw [show singleFinal = _ from alike.single_eq]
    exact Tally.hasAdmitted_chain (Tally.leastOf_singleton least) store _
  · rw [show singleFinal = _ from alike.single_eq]
    rfl
  · intro stops later
    obtain ⟨_, _, alikeLater⟩ := alike.run isLeast later
    have reached : least ≤ given.length :=
      admitted.shouldStop_iff.mp stops
    rw [alikeLater.sink_eq,
      (Tally.hasAdmitted_chain isLeast store _).innermost_eq,
      admitted.innermost_eq]
    exact congrArg store.holding (List.take_append_of_le_length reached)

end Session

end ShaderTint
