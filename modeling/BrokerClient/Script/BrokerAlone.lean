import BrokerClient.Broker.Basic
import BrokerClient.Script.Step

/-!
# Scripts for the broker alone

A script may also drive the broker without a client: one request after the other, each to its end,
while time passes as the delays of the broker have it.
-/

namespace BrokerClient.Script

/-- One step with the broker. A message is `none` where the script has something that is no
message. -/
inductive BrokerStep where
  | createChannel
  | close
  | refuse (refusing : Bool)
  | report (channel : Handle) (event : ConfirmEvent)
  | viewChannel (channel : Handle)
  | nextTag (channel : Handle)
  | publish (channel : Handle) (message : Option Message)
  | declare (channel : Handle) (topic name : String)
  | delete (channel : Handle) (name : String)
  | closeChannel (channel : Handle)
  /-- Takes the next report from the stream of a channel. -/
  | take (channel : Handle)
  /-- Stops the stream of a channel from taking reports. -/
  | stopListening (channel : Handle)
  deriving DecidableEq, Repr

/-- What a step with the broker gives. -/
inductive BrokerResult where
  | unit
  | flag (b : Bool)
  | number (n : Nat)
  | event (e : Option ConfirmEvent)
  | channel (x : Channel)
  | refused (why : Refusal)
  | failed (failure : TransportFailure)
  deriving DecidableEq, Repr

/-- The broker and the time, in milliseconds. -/
structure BrokerBench where
  broker : Broker
  now : Nat := 0
  deriving Inhabited

namespace BrokerBench

/-- Runs a request to its end. -/
def perform (x : BrokerBench) (r : Request) : BrokerResult × BrokerBench :=
  let (reply, broker) := x.broker.perform r
  let x : BrokerBench := ⟨broker, x.now + x.broker.lead r + broker.lag reply⟩
  match reply with
  | .done => (.unit, x)
  | .opened i => (.number i, x)
  | .failed e => (.failed e, x)

/-- Takes a step that needs a channel that was created. -/
def withChannel (x : BrokerBench) (i : Handle) (f : Channel → BrokerResult × BrokerBench) :
    BrokerResult × BrokerBench :=
  match x.broker.channels[i]? with
  | some c => f c
  | none => (.refused .noSuchHandle, x)

def setChannel (x : BrokerBench) (i : Handle) (c : Channel) : BrokerBench :=
  { x with broker := x.broker.modifyChannel i fun _ => c }

/-- Takes a step. -/
def step (x : BrokerBench) : BrokerStep → BrokerResult × BrokerBench
  | .createChannel => x.perform .createChannel
  | .close => x.perform .close
  | .refuse refusing => (.unit, { x with broker := { x.broker with refusing } })
  | .report i e =>
    let (heard, broker) := x.broker.report i e
    (.flag heard, { x with broker := broker })
  | .viewChannel i => (.channel (x.broker.channelOrNew i), x)
  | .nextTag i => x.withChannel i fun c => (.number c.nextTag, x)
  | .publish i m => x.withChannel i fun _ => match m with
    | some m => x.perform (.publish i m)
    | none => (.refused .noMessage, x)
  | .declare i topic name => x.withChannel i fun _ => x.perform (.declare i topic name)
  | .delete i name => x.withChannel i fun _ => x.perform (.delete i name)
  | .closeChannel i => x.withChannel i fun _ => x.perform (.closeChannel i)
  | .take i => x.withChannel i fun c =>
    let (e, c) := c.take
    (.event e, x.setChannel i c)
  | .stopListening i => x.withChannel i fun c => (.unit, x.setChannel i c.stopListening)

end BrokerBench

end BrokerClient.Script
