import BrokerClient.Client.Run

/-!
# A single-threaded schedule

One of the orders in which activities can go on: each runs until it waits, those that can go on do
so in the order in which they became able to, and time jumps from one moment to the next when none
is left. A call may be marked as the foreground; it goes first at each moment and last within one.

Loops that end only because nothing is left to do count down a number of rounds; `stretches` and
`runsFor` give numbers that are enough. A loop that ran short would only stop early: whatever a
schedule does is a run of the client all the same, and what holds of all runs holds of it
(`BrokerClient.Proofs.Schedules`).
-/

namespace BrokerClient

/-- A client with the order in which its activities go on. -/
structure Schedule where
  system : System
  /-- The activities that can go on, the next one first. -/
  queue : List Activity := []
  /-- The calls that wait for a moment, in the order in which they began to. -/
  waiting : List CallId := []
  foreground : Option CallId := none
  deriving Inhabited

namespace Schedule

/-- Runs an activity until it waits, in at most `fuel` stretches. -/
def runOut (w : System) (a : Activity) : Nat → System
  | 0 => w
  | fuel + 1 => match w.run? a with
    | none => w
    | some w => runOut w a fuel

/-- Stretches that suffice for one activity: a closing connection takes two for each session, and a
dispatcher one for each report. -/
def stretches (w : System) : Activity → Nat
  | .call _ => 2 * w.sessions.length + 8
  | .dispatcher s => (w.channelOf s).stream.length + 2

def isForeground (x : Schedule) (a : Activity) : Bool :=
  match x.foreground with
  | some i => a = .call i
  | none => false

/-- Whether a call waits for an answer of the broker. -/
def waits (w : System) (i : CallId) : Bool :=
  match w.progress? i with
  | some (.exchange _) => true
  | _ => false

/-- Queues what has become able to go on, and notes who has begun to wait. -/
def refresh (x : Schedule) : Schedule :=
  let w := x.system
  let kept := x.waiting.filter (waits w)
  let waiting := kept ++ (List.range w.calls.length).filter fun i => waits w i && !kept.contains i
  -- A timer that was set earlier fires earlier within one moment.
  let due := (waiting.map Activity.call).filter w.ready
  let others := w.activities.filter fun a => w.ready a && !due.contains a
  let fresh := (due ++ others).filter fun a => !x.queue.contains a && !x.isForeground a
  { x with waiting := waiting, queue := x.queue ++ fresh }

/-- Runs one activity until it waits. -/
def run (x : Schedule) (a : Activity) : Schedule :=
  let w := runOut x.system a (stretches x.system a)
  let waiting := match a with
    | .call i => x.waiting.erase i
    | .dispatcher _ => x.waiting
  refresh { x with system := w, waiting := waiting }

/-- Runs the queue until it is empty. -/
def drain (x : Schedule) : Nat → Schedule
  | 0 => x
  | fuel + 1 => match x.queue with
    | [] => x
    | a :: rest => drain (run { x with queue := rest } a) fuel

/-- Runs that suffice until only time can help: every stretch of every activity. -/
def runsFor (w : System) : Nat :=
  (w.calls.length + 1) * (2 * w.sessions.length + 10) + 4 * (w.sessions.length + w.calls.length) + 8

/-- Everything that can go on does. -/
def settle (x : Schedule) : Schedule :=
  let x := refresh x
  drain x (runsFor x.system)

/-- Moves the time. -/
def jump (x : Schedule) (t : Nat) : Schedule :=
  refresh { x with system := { x.system with now := t } }

/-- Lets time pass up to a moment; everything that waits for an earlier one goes on then. -/
def passTo (x : Schedule) (t : Nat) : Nat → Schedule
  | 0 => settle { x with system := { x.system with now := t } }
  | fuel + 1 =>
    let x := settle x
    match x.system.nextMoment? with
    | some m => if m ≤ t then passTo (jump x m) t fuel else settle (jump x t)
    | none => settle (jump x t)

def pass (x : Schedule) (ms : Nat) : Schedule :=
  passTo x (x.system.now + ms) (runsFor x.system)

/-- Runs everything, and lets time pass where nothing else helps, until a call has ended. -/
def complete (x : Schedule) (i : CallId) : Nat → Schedule
  | 0 => x
  | fuel + 1 =>
    let x := if x.system.ready (.call i) then run x (.call i) else x
    if x.system.hasEnded i then x
    else
      let x := drain x (runsFor x.system)
      if x.system.ready (.call i) then complete x i fuel
      else match x.system.nextMoment? with
        | none => x
        | some m => complete (jump x m) i fuel

/-- Starts a call; it runs until it waits. -/
def start (x : Schedule) (c : Call) : CallId × Schedule :=
  let (i, w) := x.system.call c
  (i, run { x with system := w } (.call i))

/-- Starts a call and runs it to its end; gives its outcome, if it has one. -/
def perform (x : Schedule) (c : Call) : Option Outcome × Schedule :=
  let (i, w) := x.system.call c
  let x := refresh { x with system := w, foreground := some i }
  let x := complete x i (runsFor x.system)
  let x := { x with foreground := none }
  match x.system.take? i with
  | some (outcome, w) => (some outcome, { x with system := w })
  | none => (none, x)

end Schedule

end BrokerClient
