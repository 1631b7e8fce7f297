import ShaderTint.Proofs.Pass.Kinship

namespace ShaderTint

/-!
# The law of handles

Whether the flag of a context is up is told by the history of its session alone: the
last act on any context that is kin to it decides. Nothing else touches the flag, and
nothing else is noticed by the passes that watch it.

Main statement: `Session.lawful_run`, for every session whose receiver holds handles
on the context that the session starts with, and for all commands.
-/

namespace Session

/-- The same answer and the same session, but for the flags. -/
def SameButFlags
    (left right : Reply × Session) :
    Prop :=
  left.1 = right.1 ∧ left.2.setFlags right.2.host.flags = right.2

/-- A context notices nothing of a step that a session takes. -/
structure Unaffected
    (session after : Session)
    (index : Nat) :
    Prop where
  interrupted_eq : after.interrupted[index]? = session.interrupted[index]?
  classify_same :
    ∀ reporting tree,
      SameButFlags
        (after.step (.classify index reporting tree))
        (session.step (.classify index reporting tree))

/-- The law of handles, in a session with this history. -/
structure Lawful
    (session : Session)
    (history : List Act) :
    Prop where
  /-- A flag is up if the last act on it, through any handle, puts it up. -/
  interrupted_iff :
    ∀ index < session.contexts.size,
      session.interrupted[index]? = some true ↔
        LastUp (Kin history index) history
  /-- What is done to a flag concerns no context that is not kin. -/
  unaffected :
    ∀ index other,
      ¬ Kin history index other →
      session.Unaffected (session.step (.interrupt other)).2 index ∧
        session.Unaffected (session.step (.reset other)).2 index
  /-- A pass sets no flag; only its receiver may. -/
  interrupted_pass :
    ∀ command,
      command.IsPass →
      let after := (session.step command).2
      after.host.sink.trips = session.host.sink.trips →
        after.interrupted = session.interrupted
  /-- A clone traces if its original does. -/
  tracing_clone :
    ∀ source copy,
      .cloned source copy ∈ history →
      ∃ trace,
        session.tracing[source]? = some trace ∧
          session.tracing[copy]? = some trace
  /-- A fresh context traces as asked for, and its flag is down. -/
  tracing_fresh :
    ∀ trace,
      let after := (session.step (.fresh trace)).2
      after.tracing = session.tracing.push trace ∧
        after.interrupted = session.interrupted.push false
  /-- A pass under a flag that is up visits no node and changes nothing. -/
  classify_interrupted :
    ∀ index reporting tree,
      session.interrupted[index]? = some true →
        session.step (.classify index reporting tree) =
          (.passed (some (.interrupted 0)) #[] #[.interrupted 0], session)
  /-- A pass under no context goes the same way whatever flags are up. -/
  classifyAlone_any :
    ∀ reporting tree flags,
      SameButFlags
        ((session.setFlags flags).step (.classifyAlone reporting tree))
        (session.step (.classifyAlone reporting tree))

/-- The flag of a context is up if the last act on the flag of any kin puts it up. -/
theorem Keeps.interrupted_iff
    {session : Session}
    {history : List Act}
    (keeps : session.Keeps history)
    {index : Nat}
    (isThere : index < session.contexts.size) :
    session.interrupted[index]? = some true ↔
      LastUp (Kin history index) history := by
  have hasFamily := familyOf?_of_found (Array.getElem?_eq_getElem isThere)
  rw [getElem?_interrupted, hasFamily, Option.map_some, Option.some_inj,
    keeps.raised_iff]
  refine lastUp_congr ?_
  intro other up _
  exact keeps.familyOf_iff hasFamily other

/-- A context notices only its own family's flag. -/
theorem unaffected_setFlags
    {session : Session}
    {flags : Flags}
    {index : Nat}
    (agree :
      ∀ family, session.familyOf? index = some family →
        flags.isRaised family = session.host.flags.isRaised family) :
    session.Unaffected (session.setFlags flags) index where
  interrupted_eq := by
    rw [getElem?_interrupted, getElem?_interrupted]
    exact Option.map_congr agree
  classify_same := by
    intro reporting tree
    cases found : session.contexts[index]? with
    | none =>
        simp [SameButFlags, step, withContext, setFlags, found]
    | some context =>
        have watchesOwn :
            ∀ family ∈ (context.settings reporting).watched,
              flags.isRaised family = session.host.flags.isRaised family := by
          intro family watched
          cases Option.mem_some_iff.mp watched
          exact agree _ (familyOf?_of_found found)
        obtain ⟨sameOutcome, sameSink, sameCollected, sameLog⟩ :=
          Pass.run_ignores_unwatched (context.settings reporting) tree
            session.host watchesOwn
        simp [SameButFlags, step, withContext, setFlags, found, absorb,
          sameOutcome, sameSink, sameCollected, sameLog]

/-- Setting the flag of one context concerns only its kin. -/
theorem Keeps.unaffected
    {session : Session}
    {history : List Act}
    (keeps : session.Keeps history)
    {index other : Nat}
    (notKin : ¬ Kin history index other)
    {context : Context}
    (found : session.contexts[other]? = some context)
    {flags : Flags}
    (asBefore :
      ∀ family, family ≠ context.family →
        flags.isRaised family = session.host.flags.isRaised family) :
    session.Unaffected (session.setFlags flags) index := by
  apply unaffected_setFlags
  intro family hasFamily
  apply asBefore
  rintro rfl
  exact notKin ((keeps.familyOf_iff hasFamily other).mp (familyOf?_of_found found))

/-- A step that does nothing is not noticed. -/
theorem unaffected_refl
    (session : Session)
    (index : Nat) :
    session.Unaffected session index :=
  ⟨rfl, fun _ _ => ⟨rfl, rfl⟩⟩

/-- The next family's flag is down. -/
theorem Keeps.isRaised_families
    {session : Session}
    {history : List Act}
    (keeps : session.Keeps history) :
    session.host.flags.isRaised session.families = false := by
  rw [Bool.eq_false_iff]
  intro raised
  obtain ⟨-, last, -, -, hasFamily, -⟩ := (keeps.raised_iff _).mp raised
  exact Nat.lt_irrefl _ (keeps.family_lt last _ hasFamily)

/-- A receiver in which no wire trips leaves all flags as they are. -/
theorem interrupted_of_silent
    {session : Session}
    {host : Host Outlet}
    (signals :
      Outlet.Signals 0 session.host.sink host.sink
        session.host.flags host.flags)
    (sameTrips : host.sink.trips = session.host.sink.trips) :
    Session.interrupted { session with host := host } = session.interrupted := by
  cases signals with
  | silent _ sameFlags =>
      rw [interrupted, interrupted, sameFlags]
  | tripped moreTrips _ =>
      exact absurd sameTrips moreTrips.ne'

/-- A pass under a flag that is up changes nothing. -/
theorem step_classify_of_interrupted
    {session : Session}
    {index : Nat}
    (isUp : session.interrupted[index]? = some true)
    (reporting : Reporting)
    (tree : Node) :
    session.step (.classify index reporting tree) =
      (.passed (some (.interrupted 0)) #[] #[.interrupted 0], session) := by
  obtain ⟨context, found, raised⟩ : ∃ context,
      session.contexts[index]? = some context ∧
        session.host.flags.isRaised context.family = true := by
    simpa [interrupted] using isUp
  rw [step, withContext_of_found found, Pass.run_of_raised raised]
  simp [absorb]

/-- After all commands, handles are lawful. -/
theorem lawful_run
    {outlet : Outlet}
    (wired : outlet.WiredTo 0)
    (commands : List Command) :
    let start := Session.start outlet
    (start.run commands).2.Lawful (start.history commands) := by
  intro start
  have keeps : (start.run commands).2.Keeps (start.history commands) :=
    (keeps_start wired).run commands
  generalize (start.run commands).2 = session at keeps ⊢
  exact {
    interrupted_iff := fun index isThere => keeps.interrupted_iff isThere
    unaffected := by
      intro index other notKin
      rw [step, step]
      cases found : session.contexts[other]? with
      | none =>
          rw [withContext_of_missing found, withContext_of_missing found]
          exact ⟨session.unaffected_refl index, session.unaffected_refl index⟩
      | some context =>
          rw [withContext_of_found found, withContext_of_found found]
          constructor
          · refine keeps.unaffected notKin found ?_
            intro family differs
            simp [differs]
          · refine keeps.unaffected notKin found ?_
            intro family differs
            simp [differs]
    interrupted_pass := by
      intro command isPass after sameTrips
      obtain ⟨host, ends, -, signals⟩ := keeps.pass isPass
      simp only [after, ends] at sameTrips ⊢
      exact interrupted_of_silent signals sameTrips
    tracing_clone := by
      intro source copy cloned
      obtain ⟨context, atSource, atCopy⟩ := keeps.cloned source copy cloned
      exact ⟨context.trace, by simp [tracing, atSource], by simp [tracing, atCopy]⟩
    tracing_fresh := by
      intro trace
      simp [step, openContext, tracing, interrupted, keeps.isRaised_families]
    classify_interrupted := by
      intro index reporting tree isUp
      exact step_classify_of_interrupted isUp reporting tree
    classifyAlone_any := by
      intro reporting tree flags
      obtain ⟨sameSink, sameCollected, sameLog⟩ :=
        Pass.runAlone_ignores_flags reporting tree session.host flags
      simp [SameButFlags, step, setFlags, absorb, sameSink, sameCollected, sameLog]
  }

/--
The first context and its clone 1, a traced context 2 and its clone 3. The receiver
interrupts at its first highlight, and 1 resets what 0 is stopped by; then 2 is
interrupted through 3.
-/
def handedAround : List Command := [
  .clone 0,
  .fresh true,
  .clone 2,
  .classifyAlone .discard (.leaf .builtInType (.ofTested 0 3 (.refl true))),
  .reset 1,
  .interrupt 3]

theorem lawful_run_handedAround :
    let outlet : Outlet := .tripwire 1 0 0 (.raw #[])
    let start := Session.start outlet
    let final := (start.run handedAround).2
    outlet.WiredTo 0 ∧
      start.history handedAround =
        [.cloned 0 1, .cloned 2 3, .signalled 0 true, .signalled 1 false,
          .signalled 3 true] ∧
      final.interrupted = #[false, false, true, true] ∧
      final.tracing = #[false, false, true, true] ∧
      final.Lawful (start.history handedAround) := by
  intro outlet start final
  have wired : outlet.WiredTo 0 :=
    ⟨rfl, trivial⟩
  exact ⟨wired, by decide +kernel, by decide +kernel, by decide +kernel,
    lawful_run wired handedAround⟩

end Session

end ShaderTint
