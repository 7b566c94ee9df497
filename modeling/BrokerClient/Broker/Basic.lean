import BrokerClient.Broker.Channel
import BrokerClient.Span

/-!
# The broker

A broker in memory, with one connection to it and the channels that were opened on it, numbered in
the order of their opening.

A request takes effect at one moment, after a lead and before a lag: a channel is opened at once and
handed over after the broker's channel delay, and a close is counted when its own delay is over. So
a client that gives up on a close in time leaves a broker that was never closed. All other requests
are answered at once. `Broker.perform` is the effect alone; who waits for how long is the client's
business.

The first close of the connection reports what the plan says, every later one finds it closed.
Closing the connection leaves its channels as they are: only `closeChannel` closes a channel. A
request for a channel that there is not finds it closed too.
-/

namespace BrokerClient

/-- What the first close of the connection reports. -/
inductive CloseOutcome where
  | clean
  | alreadyClosed
  | shutdown
  | ioFailure
  deriving DecidableEq, Repr, Inhabited

def CloseOutcome.result : CloseOutcome → Except TransportFailure Unit
  | .clean => .ok ()
  | .alreadyClosed => .error .alreadyClosed
  | .shutdown => .error (.shutdown "connection reset by broker")
  | .ioFailure => .error (.io "injected connection close failure")

/-- How a broker behaves. Delays are in milliseconds. -/
structure BrokerPlan where
  closeOutcome : CloseOutcome := .clean
  closeDelay : Nat := 0
  channelDelay : Nat := 0
  /-- The channels whose first close fails, by number. -/
  failing : List Nat := []
  deriving DecidableEq, Repr, Inhabited

/-- A broker with one connection to it. -/
structure Broker where
  plan : BrokerPlan
  /-- How many closes of the connection have come to an end. -/
  closeCalls : Nat := 0
  /-- Whether channels are refused. -/
  refusing : Bool := false
  channels : List Channel := []
  deriving Repr, Inhabited

/-- What is asked of the broker, with the number of the channel where it is asked of one. -/
inductive Request where
  | createChannel
  | close
  | publish (channel : Nat) (message : Message)
  | declare (channel : Nat) (topic name : String)
  | delete (channel : Nat) (name : String)
  | closeChannel (channel : Nat)
  deriving DecidableEq, Repr, Inhabited

/-- The answer to a request. -/
inductive Reply where
  | done
  /-- A channel was opened. -/
  | opened (channel : Nat)
  | failed (failure : TransportFailure)
  deriving DecidableEq, Repr, Inhabited

def Reply.ofResult : Except TransportFailure Unit → Reply
  | .ok () => .done
  | .error e => .failed e

/-- The reply without what it opened. -/
def Reply.result : Reply → Except TransportFailure Unit
  | .failed e => .error e
  | _ => .ok ()

namespace Broker

/-- Runs an operation on a channel. -/
def onChannel (b : Broker) (i : Nat) (f : Channel → Except TransportFailure Unit × Channel) :
    Reply × Broker :=
  match b.channels[i]? with
  | none => (.failed .alreadyClosed, b)
  | some c =>
    let (result, c) := f c
    (.ofResult result, { b with channels := b.channels.set i c })

/-- Opens the next channel, unless channels are refused or the connection is closed. -/
def createChannel (b : Broker) : Reply × Broker :=
  if b.refusing then (.failed (.shutdown "channel creation refused"), b)
  else if 0 < b.closeCalls then (.failed .alreadyClosed, b)
  else
    let i := b.channels.length
    let c : Channel := { index := i, failsClose := b.plan.failing.contains i }
    (.opened i, { b with channels := b.channels ++ [c] })

/-- Closes the connection; a second close finds it closed. -/
def close (b : Broker) : Reply × Broker :=
  let result := if 0 < b.closeCalls then .error .alreadyClosed else b.plan.closeOutcome.result
  (.ofResult result, { b with closeCalls := b.closeCalls + 1 })

/-- The effect of a request. -/
def perform (b : Broker) : Request → Reply × Broker
  | .createChannel => b.createChannel
  | .close => b.close
  | .publish i m => b.onChannel i (Channel.publish m)
  | .declare i topic name => b.onChannel i (Channel.declare topic name)
  | .delete i name => b.onChannel i (Channel.delete name)
  | .closeChannel i => b.onChannel i Channel.close

/-- How long a request waits for its effect. -/
def lead (b : Broker) : Request → Nat
  | .close => timerFor b.plan.closeDelay
  | _ => 0

/-- How long an answer takes after the effect. -/
def lag (b : Broker) : Reply → Nat
  | .opened _ => timerFor b.plan.channelDelay
  | _ => 0

/-- The number of the next message on a channel. -/
def nextTag (b : Broker) (i : Nat) : Nat := (b.channels[i]?.map (·.nextTag)).getD 1

/-- Changes a channel. -/
def modifyChannel (b : Broker) (i : Nat) (f : Channel → Channel) : Broker :=
  { b with channels := b.channels.modify i f }

/-- Puts a report on the stream of a channel; tells whether anybody can take it. -/
def report (b : Broker) (i : Nat) (e : ConfirmEvent) : Bool × Broker :=
  match b.channels[i]? with
  | none => (false, b)
  | some c =>
    let (heard, c) := c.report e
    (heard, { b with channels := b.channels.set i c })

/-- A channel, or an untouched one where there is none. -/
def channelOrNew (b : Broker) (i : Nat) : Channel :=
  b.channels[i]?.getD { index := i, failsClose := false }

end Broker

end BrokerClient
