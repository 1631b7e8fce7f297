import ShaderTint.Pass.Run

namespace ShaderTint

/-!
# Sessions

A session is one receiver, one collection of mismatches and a growing list of
contexts, worked on by a sequence of commands. Context 0 is there from the
start. A fresh context starts a family of its own; a clone joins the family of
the context it was made from and takes over its trace switch.
-/

/-- A host together with the contexts opened so far. -/
structure Session where
  host : Host Outlet
  contexts : Array Context
  /-- Number of families started so far; they are numbered from zero. -/
  families : Nat

/-- What a host asks of a session. -/
inductive Command where
  | classify (context : Nat) (reporting : Reporting) (tree : Node)
  | classifyAlone (reporting : Reporting) (tree : Node)
  | add (highlight : Highlight)
  | interrupt (context : Nat)
  | reset (context : Nat)
  | clone (context : Nat)
  | fresh (trace : Bool)
  | takeCollected

/-- What a session answers. -/
inductive Reply where
  | done
  | noSuchContext (context : Nat)
  | opened (context : Nat)
  | taken (mismatches : Array ShapeMismatch)
  | passed
      (outcome : Option Outcome)
      (added : Array Highlight)
      (log : Array Event)

namespace Session

/-- A session around a receiver. -/
def start
    (outlet : Outlet) :
    Session where
  host := {
    sink := outlet
    flags := Flags.clear
    collected := #[]
  }
  contexts := #[{ family := 0, trace := false }]
  families := 1

/-- Is the flag of each context's family up? -/
def interrupted
    (session : Session) :
    Array Bool :=
  session.contexts.map (session.host.flags.isRaised ·.family)

/-- Does each context trace? -/
def tracing
    (session : Session) :
    Array Bool :=
  session.contexts.map (·.trace)

/-- Take over what a pass has left. -/
def absorb
    (session : Session)
    (outcome : Option Outcome)
    (result : Pass.Result Outlet) :
    Reply × Session :=
  let before := session.host.sink.content.size
  let after := result.host.sink.content
  (.passed outcome (after.extract before after.size) result.log,
    { session with host := result.host })

/-- Act on a context that exists. -/
def withContext
    (session : Session)
    (index : Nat)
    (act : Context → Reply × Session) :
    Reply × Session :=
  match session.contexts[index]? with
  | some context => act context
  | none => (.noSuchContext index, session)

/-- Change the flags. -/
def setFlags
    (session : Session)
    (flags : Flags) :
    Session :=
  { session with host := { session.host with flags := flags } }

/-- Open one more context. -/
def openContext
    (session : Session)
    (context : Context) :
    Reply × Session :=
  (.opened session.contexts.size,
    { session with contexts := session.contexts.push context })

/-- Carry out one command. -/
def step
    (session : Session) :
    Command → Reply × Session
  | .classify index reporting tree =>
      session.withContext index fun context =>
        let result :=
          Pass.run (context.settings reporting) tree session.host
        session.absorb (some result.outcome) result
  | .classifyAlone reporting tree =>
      session.absorb none (Pass.runAlone reporting tree session.host)
  | .add highlight =>
      let (sink, flags) :=
        Sink.add highlight session.host.sink session.host.flags
      (.done,
        { session with
          host := { session.host with sink := sink, flags := flags } })
  | .interrupt index =>
      session.withContext index fun context =>
        (.done,
          session.setFlags (session.host.flags.raise context.family))
  | .reset index =>
      session.withContext index fun context =>
        (.done,
          session.setFlags (session.host.flags.lower context.family))
  | .clone index => session.withContext index session.openContext
  | .fresh trace =>
      { session with families := session.families + 1 }.openContext
        { family := session.families, trace := trace }
  | .takeCollected =>
      (.taken session.host.collected,
        { session with host := { session.host with collected := #[] } })

/-- Carry out commands in order, with their replies. -/
def run
    (session : Session) :
    List Command → List Reply × Session
  | [] => ([], session)
  | command :: rest =>
      let (reply, session) := session.step command
      let (replies, session) := session.run rest
      (reply :: replies, session)

end Session

end ShaderTint
