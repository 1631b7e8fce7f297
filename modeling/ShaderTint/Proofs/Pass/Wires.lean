import ShaderTint.Proofs.Pass.Recording

namespace ShaderTint

/-!
# Passes and flags

A pass reads the flag that it watches and never writes one. Only the receiver can
put up a flag while it takes a highlight, and of the receivers that hosts combine
only a tripwire does. So what a pass does to the flags is told by the wires in its
receiver: nothing, or some wire trips and the flag of its family is up.

Main statements: `Pass.signals_run` says this of every pass, and
`Pass.run_ignores_unwatched` that a pass goes the same way whatever flags are up that
it does not watch.
-/

namespace Outlet

/-- All wires in the chain are on one family. -/
def WiredTo
    (family : Nat) :
    Outlet → Prop
  | .raw _ => True
  | .distinct _ => True
  | .bounded _ inner => inner.WiredTo family
  | .tripwire _ _ wired inner => wired = family ∧ inner.WiredTo family

/-- The number of wires in the chain that have tripped. -/
def trips : Outlet → Nat
  | .raw _ => 0
  | .distinct _ => 0
  | .bounded _ inner => inner.trips
  | .tripwire threshold count _ inner =>
      inner.trips + if 0 < threshold ∧ threshold ≤ count then 1 else 0

/-- What becomes of the flags while a receiver takes highlights. -/
inductive Signals
    (family : Nat)
    (before after : Outlet)
    (flags newFlags : Flags) :
    Prop where
  /-- No wire trips, and the flags stay as they are. -/
  | silent
      (sameTrips : after.trips = before.trips)
      (sameFlags : newFlags = flags)
  /-- A wire trips, and its family's flag is up. -/
  | tripped
      (moreTrips : before.trips < after.trips)
      (raised :
        ∀ other,
          newFlags.isRaised other = (other == family || flags.isRaised other))

/-- What becomes of the flags one time after the other. -/
theorem Signals.trans
    {family : Nat}
    {before middle after : Outlet}
    {flags middleFlags newFlags : Flags}
    (first : Signals family before middle flags middleFlags)
    (second : Signals family middle after middleFlags newFlags) :
    Signals family before after flags newFlags := by
  cases first with
  | silent sameTrips sameFlags =>
      subst sameFlags
      cases second with
      | silent againSame sameFlags =>
          exact .silent (againSame.trans sameTrips) sameFlags
      | tripped moreTrips raised =>
          exact .tripped (sameTrips ▸ moreTrips) raised
  | tripped moreTrips raised =>
      cases second with
      | silent sameTrips sameFlags =>
          subst sameFlags
          exact .tripped (sameTrips.symm ▸ moreTrips) raised
      | tripped evenMore raisedAgain =>
          refine .tripped (moreTrips.trans evenMore) ?_
          intro other
          rw [raisedAgain, raised, ← Bool.or_assoc, Bool.or_self]

/-- One more highlight counted by a wire in front of a receiver. -/
theorem signals_count
    (family threshold count : Nat)
    (inner : Outlet)
    (flags : Flags) :
    Signals family
      (.tripwire threshold count family inner)
      (.tripwire threshold (count + 1) family inner)
      flags
      (if count + 1 = threshold then flags.raise family else flags) := by
  by_cases trips : count + 1 = threshold
  · rw [if_pos trips]
    refine .tripped ?_ (flags.isRaised_raise family)
    have notYet : ¬ threshold ≤ count := by
      omega
    have now : 0 < threshold ∧ threshold ≤ count + 1 := by
      omega
    simp [Outlet.trips, notYet, now]
  · rw [if_neg trips]
    refine .silent ?_ rfl
    have asBefore : threshold ≤ count + 1 ↔ threshold ≤ count := by
      omega
    simp [Outlet.trips, asBefore]

/-- Taking one highlight: a wire trips and puts up its flag, or nothing happens. -/
theorem signals_add
    {family : Nat}
    {outlet : Outlet}
    (wired : outlet.WiredTo family)
    (highlight : Highlight)
    (flags : Flags) :
    (outlet.add highlight flags).1.WiredTo family ∧
      Signals family outlet (outlet.add highlight flags).1
        flags (outlet.add highlight flags).2 := by
  induction outlet with
  | raw items =>
      exact ⟨trivial, .silent rfl rfl⟩
  | distinct items =>
      exact ⟨trivial, .silent rfl rfl⟩
  | bounded remaining inner inductionHypothesis =>
      cases remaining with
      | zero =>
          exact ⟨wired, .silent rfl rfl⟩
      | succ left =>
          obtain ⟨stillWired, within⟩ := inductionHypothesis wired
          refine ⟨stillWired, ?_⟩
          cases within with
          | silent sameTrips sameFlags =>
              exact .silent sameTrips sameFlags
          | tripped moreTrips raised =>
              exact .tripped moreTrips raised
  | tripwire threshold count wire inner inductionHypothesis =>
      obtain ⟨rfl, innerWired⟩ := wired
      obtain ⟨stillWired, within⟩ := inductionHypothesis innerWired
      refine ⟨⟨rfl, stillWired⟩, ?_⟩
      -- The receiver behind the wire takes the highlight before the wire counts it.
      have behind :
          Signals wire
            (.tripwire threshold count wire inner)
            (.tripwire threshold count wire (inner.add highlight flags).1)
            flags (inner.add highlight flags).2 := by
        cases within with
        | silent sameTrips sameFlags =>
            exact .silent (by rw [trips, trips, sameTrips]) sameFlags
        | tripped moreTrips raised =>
            exact .tripped (Nat.add_lt_add_right moreTrips _) raised
      exact behind.trans (signals_count wire threshold count _ _)

/-- Taking highlights: some wire trips and puts up its flag, or nothing happens. -/
theorem signals_addAll
    {family : Nat}
    {outlet : Outlet}
    (wired : outlet.WiredTo family)
    (highlights : List Highlight)
    (flags : Flags) :
    (Sink.addAll highlights outlet flags).1.WiredTo family ∧
      Signals family outlet (Sink.addAll highlights outlet flags).1
        flags (Sink.addAll highlights outlet flags).2 := by
  induction highlights generalizing outlet flags with
  | nil =>
      exact ⟨wired, .silent rfl rfl⟩
  | cons highlight rest inductionHypothesis =>
      obtain ⟨stillWired, first⟩ := signals_add wired highlight flags
      obtain ⟨wiredAfter, others⟩ :=
        inductionHypothesis stillWired (outlet.add highlight flags).2
      exact ⟨wiredAfter, first.trans others⟩

/-- What a receiver becomes does not depend on the flags. -/
theorem fst_add_flags
    (highlight : Highlight)
    (outlet : Outlet)
    (flags otherFlags : Flags) :
    (outlet.add highlight otherFlags).1 = (outlet.add highlight flags).1 := by
  induction outlet with
  | raw items =>
      rfl
  | distinct items =>
      rfl
  | bounded remaining inner inductionHypothesis =>
      cases remaining with
      | zero =>
          rfl
      | succ left =>
          exact congrArg (Outlet.bounded left) inductionHypothesis
  | tripwire threshold count wire inner inductionHypothesis =>
      exact congrArg (Outlet.tripwire threshold (count + 1) wire)
        inductionHypothesis

/-- What one flag becomes depends on no other flag. -/
theorem isRaised_add_congr
    {family : Nat}
    {flags otherFlags : Flags}
    (agree : otherFlags.isRaised family = flags.isRaised family)
    (highlight : Highlight)
    (outlet : Outlet) :
    (outlet.add highlight otherFlags).2.isRaised family =
      (outlet.add highlight flags).2.isRaised family := by
  induction outlet with
  | raw items =>
      exact agree
  | distinct items =>
      exact agree
  | bounded remaining inner inductionHypothesis =>
      cases remaining with
      | zero =>
          exact agree
      | succ left =>
          exact inductionHypothesis
  | tripwire threshold count wire inner inductionHypothesis =>
      by_cases trips : count + 1 = threshold
      · simp [Outlet.add, trips, inductionHypothesis]
      · simp [Outlet.add, trips, inductionHypothesis]

/-- What a receiver becomes as it takes highlights does not depend on the flags. -/
theorem fst_addAll_flags
    (highlights : List Highlight)
    (outlet : Outlet)
    (flags otherFlags : Flags) :
    (Sink.addAll highlights outlet otherFlags).1 =
      (Sink.addAll highlights outlet flags).1 := by
  induction highlights generalizing outlet flags otherFlags with
  | nil =>
      rfl
  | cons highlight rest inductionHypothesis =>
      have sameOutlet :
          (Sink.add highlight outlet otherFlags).1 =
            (Sink.add highlight outlet flags).1 :=
        fst_add_flags highlight outlet flags otherFlags
      rw [Sink.addAll, Sink.addAll, sameOutlet]
      exact inductionHypothesis _ _ _

/-- What one flag becomes as a receiver takes highlights depends on no other flag. -/
theorem isRaised_addAll_congr
    {family : Nat}
    {flags otherFlags : Flags}
    (agree : otherFlags.isRaised family = flags.isRaised family)
    (highlights : List Highlight)
    (outlet : Outlet) :
    (Sink.addAll highlights outlet otherFlags).2.isRaised family =
      (Sink.addAll highlights outlet flags).2.isRaised family := by
  induction highlights generalizing outlet flags otherFlags with
  | nil =>
      exact agree
  | cons highlight rest inductionHypothesis =>
      have sameOutlet :
          (Sink.add highlight outlet otherFlags).1 =
            (Sink.add highlight outlet flags).1 :=
        fst_add_flags highlight outlet flags otherFlags
      rw [Sink.addAll, Sink.addAll, sameOutlet]
      exact inductionHypothesis (isRaised_add_congr agree highlight outlet) _

end Outlet

namespace Pass

/-- A pass does to the flags what the wires in its receiver do. -/
theorem signals_run
    {family : Nat}
    {host : Host Outlet}
    (wired : host.sink.WiredTo family)
    (settings : PassSettings)
    (root : Node) :
    let result := run settings root host
    result.host.sink.WiredTo family ∧
      Outlet.Signals family host.sink result.host.sink
        host.flags result.host.flags := by
  intro result
  obtain ⟨enough, ends, _⟩ := run_eq_standing settings root host
  rw [show result.host = _ from ends,
    standing_eq_after settings root host enough]
  exact Outlet.signals_addAll wired _ host.flags

/-- Running alone leaves the same host behind as running. -/
theorem host_runAlone
    [Sink σ]
    (reporting : Reporting)
    (root : Node)
    (host : Host σ) :
    (runAlone reporting root host).host =
      (run (PassSettings.alone reporting) root host).host := by
  rw [runAlone]
  split <;> rfl

/-- A pass that finds its flag up visits no node and changes nothing. -/
theorem run_of_raised
    [Sink σ]
    {context : Context}
    {host : Host σ}
    (raised : host.flags.isRaised context.family = true)
    (reporting : Reporting)
    (root : Node) :
    run (context.settings reporting) root host =
      {
        outcome := .interrupted 0
        host := host
        log := #[.interrupted 0]
      } := by
  have stops :
      halted (context.settings reporting) (Progress.start host).host =
        true := by
    simp [halted, Context.settings, Progress.start, raised]
  rw [run, walk, if_pos stops]
  rfl

/-! ## Flags that a pass does not watch -/

/-- The same pass at the same point, but for flags that it does not watch. -/
structure Progress.SameFor
    (settings : PassSettings)
    (left right : Progress Outlet) :
    Prop where
  sink_eq : left.host.sink = right.host.sink
  collected_eq : left.host.collected = right.host.collected
  stats_eq : left.stats = right.stats
  log_eq : left.log = right.log
  watched_eq :
    ∀ family ∈ settings.watched,
      left.host.flags.isRaised family = right.host.flags.isRaised family

/-- Two passes at the same point agree on whether to go on. -/
theorem Progress.SameFor.halted
    {settings : PassSettings}
    {left right : Progress Outlet}
    (same : left.SameFor settings right) :
    Pass.halted settings left.host = Pass.halted settings right.host := by
  rw [Pass.halted, Pass.halted, same.sink_eq]
  cases watches : settings.watched with
  | none =>
      rfl
  | some family =>
      have sameFlag := same.watched_eq family watches
      simp only [Option.any_some, sameFlag]

/-- One visit goes the same way whatever other flags are up. -/
theorem Progress.SameFor.visit
    {settings : PassSettings}
    {left right : Progress Outlet}
    (same : left.SameFor settings right)
    (frame : Frame) :
    (Pass.visit settings left frame).SameFor settings
      (Pass.visit settings right frame) := by
  rw [visit_eq_after, visit_eq_after]
  exact {
    sink_eq := by
      rw [Progress.after, Progress.after, same.sink_eq]
      exact Outlet.fst_addAll_flags _ _ _ _
    collected_eq := by
      rw [Progress.after, Progress.after, same.collected_eq]
    stats_eq := by
      rw [Progress.after, Progress.after, same.stats_eq]
    log_eq := by
      rw [Progress.after, Progress.after, same.log_eq]
    watched_eq := by
      intro family watched
      rw [Progress.after, Progress.after, same.sink_eq]
      exact Outlet.isRaised_addAll_congr (same.watched_eq family watched) _ _
  }

theorem Progress.SameFor.conclude
    {settings : PassSettings}
    {left right : Progress Outlet}
    (same : left.SameFor settings right)
    (outcome : Outcome) :
    (Pass.conclude left outcome).1 = (Pass.conclude right outcome).1 ∧
      (Pass.conclude left outcome).2.SameFor settings
        (Pass.conclude right outcome).2 := by
  obtain ⟨sameSink, sameCollected, sameStats, sameLog, sameWatched⟩ := same
  cases outcome <;>
    exact ⟨rfl, sameSink, sameCollected, sameStats, by
      rw [Pass.conclude, Pass.conclude, sameLog], sameWatched⟩

/-- A scan goes the same way whatever other flags are up. -/
theorem Progress.SameFor.scan
    {settings : PassSettings}
    {left right : Progress Outlet}
    (same : left.SameFor settings right)
    (frames : List Frame) :
    (Pass.scan settings frames left).1 =
        (Pass.scan settings frames right).1 ∧
      (Pass.scan settings frames left).2.SameFor settings
        (Pass.scan settings frames right).2 := by
  induction frames generalizing left right with
  | nil =>
      rw [Pass.scan, Pass.scan, same.stats_eq]
      exact same.conclude _
  | cons frame rest inductionHypothesis =>
      rw [Pass.scan, Pass.scan, same.halted, same.stats_eq]
      split
      · exact same.conclude _
      · exact inductionHypothesis (same.visit frame)

/-- A pass goes the same way whatever flags are up that it does not watch. -/
theorem run_ignores_unwatched
    (settings : PassSettings)
    (root : Node)
    (host : Host Outlet)
    {flags : Flags}
    (agree :
      ∀ family ∈ settings.watched,
        flags.isRaised family = host.flags.isRaised family) :
    let result := run settings root host
    let other := run settings root { host with flags := flags }
    other.outcome = result.outcome ∧
      other.host.sink = result.host.sink ∧
      other.host.collected = result.host.collected ∧
      other.log = result.log := by
  have start :
      (Progress.start { host with flags := flags }).SameFor settings
        (Progress.start host) :=
    ⟨rfl, rfl, rfl, rfl, agree⟩
  obtain ⟨sameOutcome, same⟩ := start.scan (framesOf none root)
  rw [run_eq_scan, run_eq_scan]
  exact ⟨sameOutcome, same.sink_eq, same.collected_eq, same.log_eq⟩

/-- A pass that watches no flag goes the same way whatever flags are up. -/
theorem runAlone_ignores_flags
    (reporting : Reporting)
    (root : Node)
    (host : Host Outlet)
    (flags : Flags) :
    let result := runAlone reporting root host
    let other := runAlone reporting root { host with flags := flags }
    other.host.sink = result.host.sink ∧
      other.host.collected = result.host.collected ∧
      other.log = result.log := by
  have watchesNone :
      ∀ family ∈ (PassSettings.alone reporting).watched,
        flags.isRaised family = host.flags.isRaised family := by
    intro family watched
    cases watched
  obtain ⟨sameOutcome, sameSink, sameCollected, sameLog⟩ :=
    run_ignores_unwatched (PassSettings.alone reporting) root host watchesNone
  intro result other
  simp only [other, result, runAlone, sameOutcome]
  cases (run (PassSettings.alone reporting) root host).outcome with
  | finished stats =>
      exact ⟨sameSink, sameCollected, sameLog⟩
  | interrupted visited =>
      refine ⟨sameSink, sameCollected, ?_⟩
      rw [sameLog]

end Pass

end ShaderTint
