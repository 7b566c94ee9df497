import BrokerClient.Confirm.Event
import BrokerClient.Error
import BrokerClient.Message

/-!
# Channels of the broker

What the broker keeps for one channel: the messages published on it, in order, the durable
subscriptions declared on it, the names deleted from it, and the stream of reports on its messages.
Each operation takes effect at once. After the first close nothing but the count of closes changes.
-/

namespace BrokerClient

/-- One channel, seen from the broker. -/
structure Channel where
  /-- The number of the channel, in the order of creation. -/
  index : Nat
  /-- Whether the first close fails. -/
  failsClose : Bool
  closeCalls : Nat := 0
  /-- The number under which the next message is published. -/
  nextTag : Nat := 1
  published : List Message := []
  /-- The topic of each declared subscription, by name. -/
  declared : List (String × String) := []
  deleted : List String := []
  /-- The reports that nobody has taken from the stream yet, the oldest first. -/
  stream : List ConfirmEvent := []
  /-- Whether the stream still takes reports. -/
  listening : Bool := true
  deriving DecidableEq, Repr, Inhabited

namespace Channel

def isOpen (c : Channel) : Bool := c.closeCalls = 0

/-- The topic that a subscription is declared on. -/
def topicOf? (c : Channel) (name : String) : Option String := c.declared.lookup name

/-- Declared subscriptions without one name. -/
def without (name : String) (declared : List (String × String)) : List (String × String) :=
  declared.filter fun d => d.1 ≠ name

/-- Runs an operation on a channel that is open, and refuses it on one that is not. -/
def whenOpen (f : Channel → Channel) (c : Channel) : Except TransportFailure Unit × Channel :=
  if c.isOpen then (.ok (), f c) else (.error .alreadyClosed, c)

/-- Records a message under the next number. -/
def publish (m : Message) : Channel → Except TransportFailure Unit × Channel :=
  whenOpen fun c => { c with published := c.published ++ [m], nextTag := c.nextTag + 1 }

/-- Binds a name to a topic, in place of an earlier one. -/
def declare (topic name : String) : Channel → Except TransportFailure Unit × Channel :=
  whenOpen fun c => { c with declared := (name, topic) :: without name c.declared }

/-- Removes a name, whether it is declared or not. -/
def delete (name : String) : Channel → Except TransportFailure Unit × Channel :=
  whenOpen fun c => { c with
    declared := without name c.declared
    deleted := c.deleted ++ [name] }

/-- Counts a close; only the first one may succeed. -/
def close (c : Channel) : Except TransportFailure Unit × Channel :=
  let result :=
    if !c.isOpen then .error .alreadyClosed
    else if c.failsClose then .error (.io s!"injected close failure on channel {c.index}")
    else .ok ()
  (result, { c with closeCalls := c.closeCalls + 1 })

/-- Puts a report on the stream; tells whether anybody can take it. -/
def report (e : ConfirmEvent) (c : Channel) : Bool × Channel :=
  if c.listening then (true, { c with stream := c.stream ++ [e] }) else (false, c)

/-- Takes the oldest report from the stream. -/
def take (c : Channel) : Option ConfirmEvent × Channel :=
  match c.stream with
  | [] => (none, c)
  | e :: rest => (some e, { c with stream := rest })

/-- Stops the stream from taking reports; those on it can still be taken. -/
def stopListening (c : Channel) : Channel := { c with listening := false }

/-- Drops the stream with the reports on it. -/
def abandonStream (c : Channel) : Channel := { c with listening := false, stream := [] }

end Channel

end BrokerClient
