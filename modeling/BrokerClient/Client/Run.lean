import BrokerClient.Client.Dispatch

/-!
# Runs of a client

A client is driven by steps: an operation is done, a call is started, a call or a dispatcher goes
on, an outcome is taken, or time passes. Which of the activities that could go on does so is open,
so that a run is any interleaving of them at the points where they wait.

`System.step?` is the state after a step, if it can be taken. A program uses only what it holds: an
operation or a call on something that it has dropped is no step. A `Run` is a chain of such steps
with the labels that were taken, the first one first, and theorems about the client are about all
runs from the empty state, whatever the labels.

Time is one of the labels, and nothing but order is asked of it: it may pass while others could go
on. In a prompt run it passes only when none of them could, and never beyond the moment for which
one waits. Only statements that speak of moments ask for one.
-/

namespace BrokerClient

/-- An activity that goes on by itself. -/
inductive Activity where
  | call (i : CallId)
  | dispatcher (s : SessionId)
  deriving DecidableEq, Repr

/-- A step of a run. -/
inductive Label where
  | operate (o : Operation)
  | call (x : Call)
  | run (a : Activity)
  | take (i : CallId)
  /-- The time becomes `t`. -/
  | tick (t : Nat)
  deriving Repr

namespace System

/-- Runs an activity on, if it can go on. -/
def run? (w : System) : Activity → Option System
  | .call i => w.resume? i
  | .dispatcher s => w.dispatch? s

/-- Whether an activity can go on. -/
def ready (w : System) (a : Activity) : Bool := (w.run? a).isSome

/-- Everything that may go on by itself. -/
def activities (w : System) : List Activity :=
  (List.range w.calls.length).map .call ++ (List.range w.sessions.length).map .dispatcher

/-- Whether nothing can go on unless time passes. -/
def idle (w : System) : Bool := w.activities.all fun a => !w.ready a

/-- The moments for which a call waits. -/
def moments : Progress → List Nat
  | .exchange e => e.wake :: e.limit.toList
  | _ => []

/-- The next moment for which a call waits. -/
def nextMoment? (w : System) : Option Nat :=
  ((w.calls.flatMap fun t => moments t.progress).filter (w.now < ·)).min?

/-- Whether time may pass up to a moment. -/
def mayPassTo (w : System) (t : Nat) : Bool :=
  w.idle && w.now ≤ t && w.nextMoment?.all (t ≤ ·)

/-! ## What may be asked for -/

def hasRegistry (w : System) (r : RegistryId) : Bool := r < w.registries.length

def hasConnection (w : System) (c : ConnectionId) : Bool := c < w.connections.length

def hasConsumer (w : System) (c : ConsumerId) : Bool := c < w.consumers.length

/-- Whether an operation may be done: the program holds what it works on. The broker's side needs no
more than a connection. -/
def mayOperate (w : System) : Operation → Bool
  | .createRegistry => true
  | .connect r _ _ => w.hasRegistry r
  | .connectFrom f _ => w.hasRegistry f.registry
  | .dropConnection c => w.holdsConnection c
  | .dropSession s => w.holdsSession s
  | .clientId c => w.holdsConnection c
  | .setClientId c _ => w.holdsConnection c
  | .metadata c => w.holdsConnection c
  | .exceptionListener c => w.holdsConnection c
  | .setExceptionListener c _ => w.holdsConnection c
  | .notify c _ => w.holdsConnection c
  | .start c => w.holdsConnection c
  | .stop c => w.holdsConnection c
  | .createConnectionConsumer c _ => w.holdsConnection c
  | .createConsumer s _ => w.holdsSession s
  | .setConfirmListener s _ => w.holdsSession s
  | .closeConsumer c => w.hasConsumer c
  | .claimIdentifier r _ => w.hasRegistry r
  | .releaseIdentifier r _ => w.hasRegistry r
  | .claimSubscription c _ x => w.holdsConnection c && w.hasConsumer x
  | .abandonSubscription c _ x _ => w.holdsConnection c && w.hasConsumer x
  | .removeSubscription c _ => w.holdsConnection c
  | .inject c _ => w.hasConnection c
  | .refuse c _ => w.hasConnection c
  | .report c _ _ => w.hasConnection c

/-- Whether a call may be started: the program holds what it works on. -/
def mayCall (w : System) : Call → Bool
  | .createSession c _ _ _ => w.holdsConnection c
  | .close c => w.holdsConnection c
  | .closeSession s => w.holdsSession s
  | .subscribe s _ _ => w.holdsSession s
  | .unsubscribe s _ => w.holdsSession s
  | .send s _ => w.holdsSession s
  | .awaitResume c => w.hasConsumer c

/-! ## Steps -/

/-- The state after a step, if it can be taken. -/
def step? (w : System) : Label → Option System
  | .operate o => if w.mayOperate o then some (w.operate o).2 else none
  | .call x => if w.mayCall x then some (w.call x).2 else none
  | .run a => w.run? a
  | .take i => (w.take? i).map Prod.snd
  | .tick t => if w.now ≤ t then some { w with now := t } else none

/-- Whether a step leaves nothing behind that could go on before it. -/
def isPrompt (w : System) : Label → Bool
  | .tick t => w.mayPassTo t
  | _ => true

/-- The states that a client can come to from a first one, with the steps taken. -/
inductive Run (w : System) : List Label → System → Prop where
  | refl : Run w [] w
  | step {ls v l u} : Run w ls v → v.step? l = some u → Run w (ls ++ [l]) u

/-- The states that a client can come to if time never passes while something could go on. -/
inductive PromptRun (w : System) : List Label → System → Prop where
  | refl : PromptRun w [] w
  | step {ls v l u} : PromptRun w ls v → v.isPrompt l = true → v.step? l = some u →
    PromptRun w (ls ++ [l]) u

/-- A prompt run is a run. -/
theorem PromptRun.run {w u : System} {ls : List Label} (h : PromptRun w ls u) : Run w ls u := by
  induction h with
  | refl => exact .refl
  | step _ _ hstep ih => exact .step ih hstep

end System

end BrokerClient
