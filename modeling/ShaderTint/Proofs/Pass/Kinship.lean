import Mathlib.Logic.Relation
import ShaderTint.Pass.Session
import ShaderTint.Proofs.Pass.Wires

namespace ShaderTint

/-!
# Contexts that share a flag

Contexts are handles on interrupt flags, and a clone is one more handle on the flag of
its original. The history of a session is what happened to its handles: which were
cloned, and through which of them a flag was put up or taken down. It tells which
contexts share a flag, those that a chain of clonings connects, and which flags are up.

Main statement: `Session.Keeps.run`. What is true of the handles of a session after a
history stays true along all commands, with what they add to the history.
-/

/-- What happens to the handles of a session. -/
inductive Act where
  /-- A context is cloned from another. -/
  | cloned (source copy : Nat)
  /-- The flag of a context is put up or taken down. -/
  | signalled (context : Nat) (up : Bool)
  deriving DecidableEq

/-- Is a command a pass? -/
def Command.IsPass : Command → Prop
  | .classify .. => True
  | .classifyAlone .. => True
  | _ => False

/-- The contexts that clonings connect. -/
def Kin
    (history : List Act) :
    Nat → Nat → Prop :=
  Relation.EqvGen fun source copy => .cloned source copy ∈ history

/-- The last act on the flag of any of these contexts puts it up. -/
def LastUp
    (members : Nat → Prop)
    (history : List Act) :
    Prop :=
  ∃ earlier last later,
    history = earlier ++ .signalled last true :: later ∧
      members last ∧
      ∀ context up, .signalled context up ∈ later → ¬ members context

/-- Contexts that are kin stay kin. -/
theorem Kin.append
    {history : List Act}
    {first second : Nat}
    (kin : Kin history first second)
    (more : List Act) :
    Kin (history ++ more) first second :=
  kin.mono fun _ _ cloned => List.mem_append_left more cloned

/-- After one more act, the last act is this one or the one that was last before. -/
theorem lastUp_concat
    (members : Nat → Prop)
    (history : List Act)
    (act : Act) :
    LastUp members (history ++ [act]) ↔
      (∃ context, act = .signalled context true ∧ members context) ∨
        LastUp members history ∧
          ∀ context up, act = .signalled context up → ¬ members context := by
  constructor
  · rintro ⟨earlier, last, later, split, isMember, noneLater⟩
    -- Nothing comes later: the last act is the new one. Otherwise the new one is later.
    rcases List.eq_nil_or_concat later with rfl | ⟨between, final, rfl⟩
    · obtain ⟨-, same⟩ := List.append_inj' split rfl
      exact .inl ⟨last, List.singleton_inj.mp same, isMember⟩
    · rw [List.concat_eq_append, ← List.cons_append, ← List.append_assoc] at split
      obtain ⟨sameHistory, same⟩ := List.append_inj' split rfl
      obtain rfl := List.singleton_inj.mp same
      refine .inr ⟨⟨earlier, last, between, sameHistory, isMember, ?_⟩, ?_⟩
      · intro context up acts
        exact noneLater context up (by simp [acts])
      · rintro context up rfl
        exact noneLater context up (by simp)
  · rintro (⟨context, rfl, isMember⟩ |
      ⟨⟨earlier, last, later, rfl, isMember, noneLater⟩, noMember⟩)
    · exact ⟨history, context, [], rfl, isMember, by simp⟩
    · refine ⟨earlier, last, later ++ [act], by simp, isMember, ?_⟩
      intro context up acts
      rcases List.mem_append.mp acts with acts | acts
      · exact noneLater context up acts
      · exact noMember context up (List.mem_singleton.mp acts).symm

/-- An act on a member is the last one. -/
theorem lastUp_signalled_of_member
    {members : Nat → Prop}
    {context : Nat}
    (isMember : members context)
    (history : List Act)
    (up : Bool) :
    LastUp members (history ++ [.signalled context up]) ↔ up = true := by
  rw [lastUp_concat]
  constructor
  · rintro (⟨_, isThis, -⟩ | ⟨-, noMember⟩)
    · cases isThis
      rfl
    · exact absurd isMember (noMember context up rfl)
  · rintro rfl
    exact .inl ⟨context, rfl, isMember⟩

/-- An act on another context does not matter. -/
theorem lastUp_signalled_of_not_member
    {members : Nat → Prop}
    {context : Nat}
    (notMember : ¬ members context)
    (history : List Act)
    (up : Bool) :
    LastUp members (history ++ [.signalled context up]) ↔
      LastUp members history := by
  rw [lastUp_concat]
  constructor
  · rintro (⟨_, isThis, isMember⟩ | ⟨before, -⟩)
    · cases isThis
      exact absurd isMember notMember
    · exact before
  · intro before
    refine .inr ⟨before, ?_⟩
    rintro _ _ ⟨⟩
    exact notMember

/-- Acts that touch no flag do not matter. -/
theorem lastUp_append_of_silent
    (members : Nat → Prop)
    (history : List Act)
    {more : List Act}
    (silent : ∀ context up, .signalled context up ∉ more) :
    LastUp members (history ++ more) ↔ LastUp members history := by
  induction more generalizing history with
  | nil =>
      rw [List.append_nil]
  | cons act rest inductionHypothesis =>
      have notThis : ∀ context up, act ≠ .signalled context up := by
        rintro context up rfl
        exact silent context up List.mem_cons_self
      have notRest : ∀ context up, .signalled context up ∉ rest :=
        fun context up later => silent context up (List.mem_cons_of_mem act later)
      rw [List.append_cons, inductionHypothesis _ notRest, lastUp_concat]
      simp [notThis]

/-- Only the contexts that a history names matter. -/
theorem lastUp_congr
    {members others : Nat → Prop}
    {history : List Act}
    (agree :
      ∀ context up,
        .signalled context up ∈ history → (members context ↔ others context)) :
    LastUp members history ↔ LastUp others history := by
  unfold LastUp
  constructor
  · rintro ⟨earlier, last, later, rfl, isMember, noneLater⟩
    refine ⟨earlier, last, later, rfl, (agree last true (by simp)).mp isMember, ?_⟩
    intro context up acts isOther
    exact noneLater context up acts ((agree context up (by simp [acts])).mpr isOther)
  · rintro ⟨earlier, last, later, rfl, isMember, noneLater⟩
    refine ⟨earlier, last, later, rfl, (agree last true (by simp)).mpr isMember, ?_⟩
    intro context up acts isOther
    exact noneLater context up acts ((agree context up (by simp [acts])).mp isOther)

namespace Session

/--
What a command does to the handles. Only contexts that exist can be cloned or have
their flag set, and a receiver sets a flag through a handle on the first context.
-/
def acts
    (session : Session)
    (command : Command) :
    List Act :=
  match command with
  | .clone source =>
      if source < session.contexts.size then
        [.cloned source session.contexts.size]
      else
        []
  | .interrupt context =>
      if context < session.contexts.size then
        [.signalled context true]
      else
        []
  | .reset context =>
      if context < session.contexts.size then
        [.signalled context false]
      else
        []
  | _ =>
      if session.host.sink.trips < (session.step command).2.host.sink.trips then
        [.signalled 0 true]
      else
        []

/-- What commands do to the handles, one after the other. -/
def history
    (session : Session) :
    List Command → List Act
  | [] => []
  | command :: rest =>
      session.acts command ++ (session.step command).2.history rest

/-- The family of a context. -/
def familyOf?
    (session : Session)
    (index : Nat) :
    Option Nat :=
  session.contexts[index]?.map (·.family)

theorem familyOf?_of_found
    {session : Session}
    {index : Nat}
    {context : Context}
    (found : session.contexts[index]? = some context) :
    session.familyOf? index = some context.family := by
  rw [familyOf?, found, Option.map_some]

/-- Only contexts that exist have a family. -/
theorem lt_size_of_familyOf?
    {session : Session}
    {index family : Nat}
    (hasFamily : session.familyOf? index = some family) :
    index < session.contexts.size := by
  obtain ⟨context, found, -⟩ := Option.map_eq_some_iff.mp hasFamily
  exact (Array.getElem?_eq_some_iff.mp found).1

theorem getElem?_interrupted
    (session : Session)
    (index : Nat) :
    session.interrupted[index]? =
      (session.familyOf? index).map session.host.flags.isRaised := by
  rw [interrupted, Array.getElem?_map, familyOf?, Option.map_map]
  rfl

/-- What is true of the handles of a session after a history. -/
structure Keeps
    (session : Session)
    (history : List Act) :
    Prop where
  /-- The receiver interrupts the first family. -/
  wired : session.host.sink.WiredTo 0
  familyOf_zero : session.familyOf? 0 = some 0
  family_lt :
    ∀ index family, session.familyOf? index = some family →
      family < session.families
  /-- A clone is the same context as its original. -/
  cloned :
    ∀ source copy, .cloned source copy ∈ history →
      ∃ context,
        session.contexts[source]? = some context ∧
          session.contexts[copy]? = some context
  /-- The contexts of a family are kin. -/
  kin :
    ∀ first second family,
      session.familyOf? first = some family →
      session.familyOf? second = some family →
      Kin history first second
  signalled :
    ∀ context up, .signalled context up ∈ history →
      context < session.contexts.size
  raised_iff :
    ∀ family,
      session.host.flags.isRaised family = true ↔
        LastUp (session.familyOf? · = some family) history

/-- Contexts that are kin are equal. -/
theorem Keeps.eq_of_kin
    {session : Session}
    {history : List Act}
    (keeps : session.Keeps history)
    {first second : Nat}
    (kin : Kin history first second) :
    session.contexts[first]? = session.contexts[second]? := by
  induction kin with
  | rel source copy cloned =>
      obtain ⟨context, atSource, atCopy⟩ := keeps.cloned source copy cloned
      exact atSource.trans atCopy.symm
  | refl index =>
      rfl
  | symm first second _ inductionHypothesis =>
      exact inductionHypothesis.symm
  | trans first second third _ _ firstHypothesis secondHypothesis =>
      exact firstHypothesis.trans secondHypothesis

/-- The members of a family are the kin of any of them. -/
theorem Keeps.familyOf_iff
    {session : Session}
    {history : List Act}
    (keeps : session.Keeps history)
    {index family : Nat}
    (hasFamily : session.familyOf? index = some family)
    (other : Nat) :
    session.familyOf? other = some family ↔ Kin history index other := by
  constructor
  · exact keeps.kin index other family hasFamily
  · intro kin
    rw [familyOf?, ← keeps.eq_of_kin kin]
    exact hasFamily

/-! ## What a step keeps -/

theorem keeps_start
    {outlet : Outlet}
    (wired : outlet.WiredTo 0) :
    (start outlet).Keeps [] where
  wired := wired
  familyOf_zero := rfl
  family_lt := by
    intro index family hasFamily
    cases index <;> cases hasFamily
    exact Nat.one_pos
  cloned := by
    intro source copy cloned
    cases cloned
  kin := by
    intro first second family hasFamily alsoHasFamily
    cases first <;> cases hasFamily
    cases second <;> cases alsoHasFamily
    exact .refl 0
  signalled := by
    intro context up signalled
    cases signalled
  raised_iff := by
    simp [start, LastUp]

/-- A new host with the same flags. -/
theorem Keeps.rehost
    {session : Session}
    {history : List Act}
    (keeps : session.Keeps history)
    (host : Host Outlet)
    (wired : host.sink.WiredTo 0)
    (sameFlags : host.flags = session.host.flags) :
    { session with host := host }.Keeps history :=
  { keeps with
    wired := wired
    raised_iff := by
      rw [sameFlags]
      exact keeps.raised_iff }

/-- A new host, with the flag of one family set. -/
theorem Keeps.signal
    {session : Session}
    {history : List Act}
    (keeps : session.Keeps history)
    {index family : Nat}
    (hasFamily : session.familyOf? index = some family)
    (host : Host Outlet)
    (wired : host.sink.WiredTo 0)
    {up : Bool}
    (isSet :
      ∀ other,
        host.flags.isRaised other =
          if other = family then up else session.host.flags.isRaised other) :
    Session.Keeps { session with host := host }
      (history ++ [.signalled index up]) where
  wired := wired
  familyOf_zero := keeps.familyOf_zero
  family_lt := keeps.family_lt
  cloned := by
    intro source copy cloned
    exact keeps.cloned source copy (by simpa using cloned)
  kin := by
    intro first second common hasCommon alsoHasCommon
    exact (keeps.kin first second common hasCommon alsoHasCommon).append _
  signalled := by
    intro context other signalled
    rcases List.mem_append.mp signalled with before | now
    · exact keeps.signalled context other before
    · cases List.mem_singleton.mp now
      exact lt_size_of_familyOf? hasFamily
  raised_iff := by
    intro other
    -- The contexts and their families do not depend on the host.
    change _ ↔ LastUp (session.familyOf? · = some other) _
    rw [isSet]
    by_cases same : other = family
    · have isMember : session.familyOf? index = some other := by
        rw [same, hasFamily]
      rw [if_pos same, lastUp_signalled_of_member isMember]
    · have notMember : ¬ session.familyOf? index = some other := by
        rw [hasFamily, Option.some_inj]
        exact Ne.symm same
      rw [if_neg same, lastUp_signalled_of_not_member notMember, keeps.raised_iff]

/-- The flag of a context is set. -/
theorem Keeps.setFlags
    {session : Session}
    {history : List Act}
    (keeps : session.Keeps history)
    {index : Nat}
    {context : Context}
    (found : session.contexts[index]? = some context)
    {flags : Flags}
    {up : Bool}
    (isSet :
      ∀ other,
        flags.isRaised other =
          if other = context.family then up
          else session.host.flags.isRaised other) :
    (session.setFlags flags).Keeps (history ++ [.signalled index up]) :=
  keeps.signal (familyOf?_of_found found) { session.host with flags := flags }
    keeps.wired isSet

/-- A host whose receiver has taken highlights. -/
theorem Keeps.receive
    {session : Session}
    {history : List Act}
    (keeps : session.Keeps history)
    {host : Host Outlet}
    (wired : host.sink.WiredTo 0)
    (signals :
      Outlet.Signals 0 session.host.sink host.sink
        session.host.flags host.flags) :
    Session.Keeps { session with host := host }
      (history ++
        if session.host.sink.trips < host.sink.trips then
          [.signalled 0 true]
        else
          []) := by
  cases signals with
  | silent sameTrips sameFlags =>
      rw [if_neg (sameTrips ▸ Nat.lt_irrefl _), List.append_nil]
      exact keeps.rehost host wired sameFlags
  | tripped moreTrips raised =>
      rw [if_pos moreTrips]
      refine keeps.signal keeps.familyOf_zero host wired ?_
      intro other
      rw [raised]
      by_cases same : other = 0 <;>
        simp [same]

theorem familyOf?_push
    (session : Session)
    (context : Context)
    (families index : Nat) :
    Session.familyOf?
        { session with
          contexts := session.contexts.push context
          families := families }
        index =
      if index = session.contexts.size then
        some context.family
      else
        session.familyOf? index := by
  simp only [familyOf?, Array.getElem?_push]
  split <;> rfl

/-- One more context, of a family that is there or of the next one. -/
theorem Keeps.opened
    {session : Session}
    {history more : List Act}
    (keeps : session.Keeps history)
    {context : Context}
    {families : Nat}
    (asMany : session.families ≤ families)
    (family_lt : context.family < families)
    (silent : ∀ context up, .signalled context up ∉ more)
    (cloned :
      ∀ source copy, .cloned source copy ∈ more →
        session.contexts[source]? = some context ∧
          copy = session.contexts.size)
    (kin :
      ∀ index, session.familyOf? index = some context.family →
        Kin (history ++ more) index session.contexts.size) :
    Session.Keeps
      { session with
        contexts := session.contexts.push context
        families := families }
      (history ++ more) := by
  -- A context of the new session is the new one or was there before.
  have inverted :
      ∀ index family,
        Session.familyOf?
            { session with
              contexts := session.contexts.push context
              families := families }
            index = some family →
        index = session.contexts.size ∧ context.family = family ∨
          session.familyOf? index = some family := by
    intro index family hasFamily
    rw [familyOf?_push] at hasFamily
    split at hasFamily
    · next isNew =>
        exact .inl ⟨isNew, Option.some.inj hasFamily⟩
    · exact .inr hasFamily
  have stays :
      ∀ {index : Nat} {found : Context},
        session.contexts[index]? = some found →
          (session.contexts.push context)[index]? = some found := by
    intro index found isFound
    have exists_lt := (Array.getElem?_eq_some_iff.mp isFound).1
    rw [Array.getElem?_push, if_neg exists_lt.ne, isFound]
  exact {
    wired := keeps.wired
    familyOf_zero := by
      rw [familyOf?_push, if_neg (lt_size_of_familyOf? keeps.familyOf_zero).ne,
        keeps.familyOf_zero]
    family_lt := by
      intro index family hasFamily
      rcases inverted index family hasFamily with ⟨-, rfl⟩ | before
      · exact family_lt
      · exact (keeps.family_lt index family before).trans_le asMany
    cloned := by
      intro source copy isCloned
      rcases List.mem_append.mp isCloned with before | now
      · obtain ⟨found, atSource, atCopy⟩ := keeps.cloned source copy before
        exact ⟨found, stays atSource, stays atCopy⟩
      · obtain ⟨atSource, rfl⟩ := cloned source copy now
        exact ⟨context, stays atSource, Array.getElem?_push_size⟩
    kin := by
      intro first second family hasFamily alsoHasFamily
      rcases inverted first family hasFamily with ⟨rfl, rfl⟩ | before
      · rcases inverted second _ alsoHasFamily with ⟨rfl, -⟩ | alsoBefore
        · exact .refl _
        · exact (kin second alsoBefore).symm _ _
      · rcases inverted second _ alsoHasFamily with ⟨rfl, rfl⟩ | alsoBefore
        · exact kin first before
        · exact (keeps.kin first second family before alsoBefore).append more
    signalled := by
      intro index up isSignalled
      rcases List.mem_append.mp isSignalled with before | now
      · have exists_lt := keeps.signalled index up before
        exact Array.size_push context ▸ Nat.lt_succ_of_lt exists_lt
      · exact absurd now (silent index up)
    raised_iff := by
      intro family
      rw [lastUp_append_of_silent _ _ silent, keeps.raised_iff]
      refine lastUp_congr ?_
      intro index up isSignalled
      rw [familyOf?_push, if_neg (keeps.signalled index up isSignalled).ne]
  }

/-- A clone joins the family of its original. -/
theorem Keeps.clone
    {session : Session}
    {history : List Act}
    (keeps : session.Keeps history)
    {index : Nat}
    {context : Context}
    (found : session.contexts[index]? = some context) :
    Session.Keeps
      { session with contexts := session.contexts.push context }
      (history ++ [.cloned index session.contexts.size]) := by
  have hasFamily := familyOf?_of_found found
  refine keeps.opened le_rfl (keeps.family_lt index _ hasFamily) (by simp) ?_ ?_
  · intro source copy cloned
    cases List.mem_singleton.mp cloned
    exact ⟨found, rfl⟩
  · intro other otherFamily
    have kin := keeps.kin other index context.family otherFamily hasFamily
    exact (kin.append _).trans _ _ _ (.rel _ _ (by simp))

/-- A fresh context starts a family of its own. -/
theorem Keeps.fresh
    {session : Session}
    {history : List Act}
    (keeps : session.Keeps history)
    (trace : Bool) :
    Session.Keeps
      { session with
        contexts :=
          session.contexts.push { family := session.families, trace := trace }
        families := session.families + 1 }
      history := by
  rw [← List.append_nil history]
  refine keeps.opened (Nat.le_succ _) (Nat.lt_succ_self _) (by simp) (by simp) ?_
  intro index hasFamily
  exact absurd (keeps.family_lt index _ hasFamily) (Nat.lt_irrefl _)

/-- What a command under a context that exists comes to. -/
theorem withContext_of_found
    {session : Session}
    {index : Nat}
    {context : Context}
    (found : session.contexts[index]? = some context)
    (act : Context → Reply × Session) :
    session.withContext index act = act context := by
  rw [withContext, found]

theorem withContext_of_missing
    {session : Session}
    {index : Nat}
    (missing : session.contexts[index]? = none)
    (act : Context → Reply × Session) :
    session.withContext index act = (.noSuchContext index, session) := by
  rw [withContext, missing]

/-- Commands on a context keep what is true if they do so where it exists. -/
theorem Keeps.onContext
    {session : Session}
    {history added : List Act}
    (keeps : session.Keeps history)
    {index : Nat}
    {act : Context → Reply × Session}
    (kept :
      ∀ context, session.contexts[index]? = some context →
        (act context).2.Keeps (history ++ added)) :
    (session.withContext index act).2.Keeps
      (history ++ if index < session.contexts.size then added else []) := by
  by_cases isThere : index < session.contexts.size
  · have found := Array.getElem?_eq_getElem isThere
    rw [withContext_of_found found, if_pos isThere]
    exact kept _ found
  · have missing := Array.getElem?_eq_none (Nat.le_of_not_lt isThere)
    rw [withContext_of_missing missing, if_neg isThere, List.append_nil]
    exact keeps

/-- A pass changes only the host, as its receiver takes highlights. -/
theorem Keeps.pass
    {session : Session}
    {history : List Act}
    (keeps : session.Keeps history)
    {command : Command}
    (isPass : command.IsPass) :
    ∃ host : Host Outlet,
      (session.step command).2 = { session with host := host } ∧
        host.sink.WiredTo 0 ∧
        Outlet.Signals 0 session.host.sink host.sink
          session.host.flags host.flags := by
  cases command with
  | classify index reporting tree =>
      rw [Session.step]
      cases found : session.contexts[index]? with
      | none =>
          rw [withContext_of_missing found]
          exact ⟨session.host, rfl, keeps.wired, .silent rfl rfl⟩
      | some context =>
          rw [withContext_of_found found]
          exact ⟨_, rfl, Pass.signals_run keeps.wired _ tree⟩
  | classifyAlone reporting tree =>
      refine ⟨_, rfl, ?_⟩
      rw [Pass.host_runAlone]
      exact Pass.signals_run keeps.wired _ tree
  | _ =>
      exact isPass.elim

theorem acts_of_pass
    {command : Command}
    (isPass : command.IsPass)
    (session : Session) :
    session.acts command =
      if session.host.sink.trips < (session.step command).2.host.sink.trips then
        [.signalled 0 true]
      else
        [] := by
  cases command with
  | classify index reporting tree =>
      rfl
  | classifyAlone reporting tree =>
      rfl
  | _ =>
      exact isPass.elim

theorem Keeps.step_pass
    {session : Session}
    {history : List Act}
    (keeps : session.Keeps history)
    {command : Command}
    (isPass : command.IsPass) :
    (session.step command).2.Keeps (history ++ session.acts command) := by
  obtain ⟨host, ends, wired, signals⟩ := keeps.pass isPass
  rw [acts_of_pass isPass, ends]
  exact keeps.receive wired signals

/-- Every command keeps what is true of the handles. -/
theorem Keeps.step
    {session : Session}
    {history : List Act}
    (keeps : session.Keeps history)
    (command : Command) :
    (session.step command).2.Keeps (history ++ session.acts command) := by
  cases command with
  | classify index reporting tree =>
      exact keeps.step_pass trivial
  | classifyAlone reporting tree =>
      exact keeps.step_pass trivial
  | add highlight =>
      obtain ⟨wired, signals⟩ :=
        Outlet.signals_add keeps.wired highlight session.host.flags
      exact keeps.receive wired signals
  | interrupt index =>
      refine keeps.onContext ?_
      intro context found
      refine keeps.setFlags found ?_
      intro other
      by_cases same : other = context.family <;>
        simp [same]
  | reset index =>
      refine keeps.onContext ?_
      intro context found
      refine keeps.setFlags found ?_
      intro other
      by_cases same : other = context.family <;>
        simp [same]
  | clone index =>
      refine keeps.onContext ?_
      intro context found
      exact keeps.clone found
  | fresh trace =>
      simpa [acts, Session.step, openContext] using keeps.fresh trace
  | takeCollected =>
      simpa [acts, Session.step] using
        keeps.rehost { session.host with collected := #[] } keeps.wired rfl

/-- All commands keep what is true of the handles. -/
theorem Keeps.run
    {session : Session}
    {past : List Act}
    (keeps : session.Keeps past)
    (commands : List Command) :
    (session.run commands).2.Keeps (past ++ session.history commands) := by
  induction commands generalizing session past with
  | nil =>
      rw [history, List.append_nil]
      exact keeps
  | cons command rest inductionHypothesis =>
      rw [history, ← List.append_assoc]
      exact inductionHypothesis (keeps.step command)

end Session

end ShaderTint
