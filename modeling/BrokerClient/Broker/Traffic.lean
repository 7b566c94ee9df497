import BrokerClient.Broker.Fault

/-!
# Calls that overlap on a broker

Everybody who holds a broker, or a channel that it handed over, may ask it for something while
earlier calls are still under way. A call waits before its request takes effect or, where a channel
was opened, before the channel is handed over; each stretch between two waits is one step. Which
call goes on is open once its time has come, so that a run is any interleaving of calls at the
points where they wait. A call may be given up at any of them.
-/

namespace BrokerClient

/-- A call that has not ended. -/
inductive Passage where
  /-- Its request may take effect from this time on. -/
  | request (r : Request) (due : Nat)
  /-- It has opened a channel, which may be handed over from this time on. -/
  | handOver (channel : Nat) (due : Nat)
  deriving DecidableEq, Repr

/-- The channel that a call is about. -/
def Passage.channel? : Passage → Option Nat
  | .request r _ => r.channel?
  | .handOver k _ => some k

/-- What callers asked for and were told, in the order in which their calls ended. -/
abbrev Answers := List (Request × Reply)

namespace Answers

/-- The answers to one request. -/
def repliesTo (h : Answers) (r : Request) : List Reply := (h.filter (·.1 = r)).map (·.2)

/-- The requests that were done. -/
def carriedOut (h : Answers) : List Request := (h.filter (·.2 = .done)).map (·.1)

end Answers

/-- A broker with the calls on it. -/
structure Traffic where
  broker : Broker
  now : Nat := 0
  underWay : List Passage := []
  ended : Answers := []
  deriving Repr

namespace Traffic

/-- What happens to a broker or to the stream of a channel. -/
inductive Label where
  /-- A call is made. -/
  | ask (r : Request)
  /-- A call under way goes on. -/
  | resume (i : Nat)
  /-- A call under way is given up. -/
  | giveUp (i : Nat)
  | refuse (refusing : Bool)
  | report (channel : Nat) (event : ConfirmEvent)
  /-- The next report is taken from a stream. -/
  | take (channel : Nat)
  | stopListening (channel : Nat)
  | abandonStream (channel : Nat)
  /-- The time becomes `t`. -/
  | tick (t : Nat)
  deriving Repr

/-- A broker that nobody has asked for anything. -/
def start (plan : BrokerPlan) : Traffic := { broker := { plan } }

/-- What the broker keeps for a channel. -/
def channel (w : Traffic) (k : Nat) : Channel := w.broker.channelOrNew k

/-- Whether somebody got a channel. -/
def handedOver (w : Traffic) (k : Nat) : Bool := w.ended.contains (.createChannel, .opened k)

/-- A channel can be asked for something by those who got it. -/
def mayAsk (w : Traffic) (r : Request) : Bool := r.channel?.all w.handedOver

def ask (w : Traffic) (r : Request) : Traffic :=
  { w with underWay := w.underWay ++ [.request r (w.now + w.broker.lead r)] }

/-- Ends a call. -/
def conclude (w : Traffic) (i : Nat) (r : Request) (reply : Reply) : Traffic :=
  { w with underWay := w.underWay.eraseIdx i, ended := w.ended ++ [(r, reply)] }

/-- Lets the request of a call take effect, which ends the call unless a channel was opened. -/
def land (w : Traffic) (i : Nat) (r : Request) : Traffic :=
  let (reply, broker) := w.broker.perform r
  let w := { w with broker := broker }
  match reply with
  | .opened k =>
    { w with underWay := w.underWay.set i (.handOver k (w.now + broker.lag reply)) }
  | _ => w.conclude i r reply

/-- Goes on with a call whose time has come. -/
def resume? (w : Traffic) (i : Nat) : Option Traffic :=
  match w.underWay[i]? with
  | some (.request r due) => if due ≤ w.now then some (w.land i r) else none
  | some (.handOver k due) =>
    if due ≤ w.now then some (w.conclude i .createChannel (.opened k)) else none
  | none => none

/-- Changes the stream of a channel. -/
def modifyStream (w : Traffic) (k : Nat) (f : Channel → Channel) : Traffic :=
  { w with broker := w.broker.modifyChannel k f }

/-- Gives a call up. A channel on its way is lost then, and with it the stream. -/
def giveUp? (w : Traffic) (i : Nat) : Option Traffic :=
  let rest := { w with underWay := w.underWay.eraseIdx i }
  match w.underWay[i]? with
  | some (.request _ _) => some rest
  | some (.handOver k _) => some (rest.modifyStream k Channel.abandonStream)
  | none => none

/-- The state after a step, if it can be taken. -/
def step? (w : Traffic) : Label → Option Traffic
  | .ask r => if w.mayAsk r then some (w.ask r) else none
  | .resume i => w.resume? i
  | .giveUp i => w.giveUp? i
  | .refuse refusing => some { w with broker := { w.broker with refusing } }
  | .report k e => some { w with broker := (w.broker.report k e).2 }
  | .take k => if w.handedOver k then some (w.modifyStream k fun c => c.take.2) else none
  | .stopListening k =>
    if w.handedOver k then some (w.modifyStream k Channel.stopListening) else none
  | .abandonStream k =>
    if w.handedOver k then some (w.modifyStream k Channel.abandonStream) else none
  | .tick t => if w.now ≤ t then some { w with now := t } else none

/-- The states that a broker can come to from a first one, with the steps taken. -/
inductive Run (w : Traffic) : List Label → Traffic → Prop where
  | refl : Run w [] w
  | step {ls v l u} : Run w ls v → v.step? l = some u → Run w (ls ++ [l]) u

end Traffic

end BrokerClient
