import BrokerClient.AckMode
import BrokerClient.Broker.Fault
import BrokerClient.Client.Notice
import BrokerClient.Confirm.Pending
import BrokerClient.Identifiers
import BrokerClient.Lifecycle
import BrokerClient.Subscriptions

/-!
# The state of a client

Registries of identifiers, connections, sessions and consumers, each named by its number in the
order of creation, and the calls under way. Nothing is taken out of these lists: what is closed or
dropped stays, with a mark, so that a number means the same thing in every later state.

A call that waits holds what it will go on with: its turn to publish, an answer of the broker, or a
session that lets its consumers receive. Ended calls keep their outcome. The broker stands in the
state of the connection to it, with the faults that are laid out for it and the requests that were
sent to it, in order.

The state also counts the time, in milliseconds, and keeps what was told, the newest first.
-/

namespace BrokerClient

abbrev RegistryId := Nat

abbrev ConnectionId := Nat

abbrev CallId := Nat

/-- What a confirm listener does to its session's listener whenever it is called. -/
inductive Reaction where
  | stay
  /-- It removes the listener. -/
  | remove
  /-- It installs another one that stays. -/
  | replace
  deriving DecidableEq, Repr, Inhabited

/-- A confirm listener. -/
structure Listener where
  label : String
  reaction : Reaction := .stay
  deriving DecidableEq, Repr, Inhabited

/-- A consumer of a session. -/
structure Consumer where
  session : SessionId
  destination : Destination
  /-- The durable subscription that it attached to. -/
  subscription : Option String := none
  /-- Whether it was closed itself. -/
  closed : Bool := false
  deriving DecidableEq, Repr, Inhabited

/-- The activity that takes reports from a channel's stream to a session's listener. -/
inductive Dispatcher where
  | running
  /-- It was told to stop and takes nothing any more. -/
  | stopping
  | ended
  deriving DecidableEq, Repr, Inhabited

/-- A session. -/
structure Session where
  connection : ConnectionId
  /-- Its number within the connection. -/
  number : Nat
  transacted : Bool
  mode : AckMode
  /-- Its channel at the broker. -/
  channel : Nat
  delivery : Delivery := .paused
  closed : Bool := false
  /-- The consumers that closing the session closes. -/
  consumers : List ConsumerId := []
  pending : Pending := {}
  listener : Option Listener := none
  dispatcher : Dispatcher := .running
  /-- The calls that publish, in the order in which they came; the first has its turn. -/
  turns : List CallId := []
  /-- Whether the program holds the session. -/
  held : Bool := false
  deriving Repr, Inhabited

/-- A connection, with the broker that it is connected to. -/
structure Connection where
  registry : RegistryId
  timeout : Span
  broker : Broker
  /-- The faults laid out for the broker calls to come. -/
  faults : List Fault := []
  /-- Everything that was asked of the broker, the oldest first. -/
  asked : List Request := []
  life : Lifecycle := .opened
  /-- Whether the client identifier may still be set. -/
  identifierOpen : Bool := true
  clientId : Option String := none
  exceptionListener : Option String := none
  /-- The sessions registered, in the order of their numbers. -/
  sessions : List SessionId := []
  nextNumber : Nat := 1
  subscriptions : Subscriptions := {}
  /-- Whether the program holds the connection. -/
  held : Bool := true
  deriving Repr, Inhabited

/-- A call that may wait. -/
inductive Call where
  | createSession (c : ConnectionId) (transacted : Bool) (mode : AckMode) (via : Option Domain)
  | close (c : ConnectionId)
  | closeSession (s : SessionId)
  /-- Creates a durable subscriber. -/
  | subscribe (s : SessionId) (destination : Destination) (name : String)
  | unsubscribe (s : SessionId) (name : String)
  | send (s : SessionId) (message : Message)
  /-- Waits until the consumer may receive. -/
  | awaitResume (c : ConsumerId)
  deriving DecidableEq, Repr

/-- What a call gives when it succeeds. -/
inductive Value where
  | unit
  | session (s : SessionId)
  | consumer (c : ConsumerId)
  deriving DecidableEq, Repr, Inhabited

/-- How a call ends. -/
abbrev Outcome := Except Error Value

/-- What a call goes on with when the broker has answered. -/
inductive Goal where
  /-- Makes a session of the channel that was opened. -/
  | openSession (transacted : Bool) (mode : AckMode)
  /-- Closes a session that was opened too late. -/
  | discardSession (s : SessionId) (consumers : Nat)
  /-- Closes a session for its own caller. -/
  | closeSession (s : SessionId) (consumers : Nat)
  /-- Closes a session of a closing connection; the others follow. -/
  | closeNext (s : SessionId) (consumers : Nat) (rest : List SessionId)
    (failure : Option TransportFailure)
  /-- Closes the broker connection after the sessions. -/
  | closeBroker (failure : Option TransportFailure)
  /-- Publishes a message under a number. -/
  | publish (s : SessionId) (tag : Nat) (tracked : Bool)
  /-- Deletes a subscription that has to be declared on another topic. -/
  | retarget (s : SessionId) (c : ConsumerId) (name : String) (claim : Claim)
  /-- Declares the subscription of a consumer. -/
  | declare (s : SessionId) (c : ConsumerId) (name : String) (claim : Claim)
  /-- Deletes a subscription that was removed. -/
  | unsubscribe (s : SessionId) (name : String)
  deriving DecidableEq, Repr

/-- Where a request stands. -/
inductive Stage where
  /-- It has not reached the broker: it is going to fail or to take effect. -/
  | before (failure : Option TransportFailure) (after : Nat)
  /-- It has taken effect or failed, and the answer is on its way. -/
  | answered (reply : Reply)
  deriving DecidableEq, Repr

/-- A request to the broker that a call waits for. -/
structure Exchange where
  connection : ConnectionId
  request : Request
  stage : Stage
  /-- When it goes on. -/
  wake : Nat
  /-- When the call gives it up. -/
  limit : Option Nat := none
  goal : Goal
  deriving DecidableEq, Repr

/-- Where a call stands. -/
inductive Progress where
  /-- It has not run yet. -/
  | begun
  /-- A message waits for its turn to be published. -/
  | turn (s : SessionId) (message : Message) (tracked : Bool)
  | exchange (e : Exchange)
  /-- Waits until the consumer may receive. -/
  | resumption (c : ConsumerId)
  | ended (outcome : Outcome)
  deriving Repr

/-- A call that was started. -/
structure Task where
  call : Call
  progress : Progress := .begun
  /-- Whether the program has taken the outcome. -/
  taken : Bool := false
  deriving Repr

/-- The sessions that a goal will need. -/
def Goal.sessions : Goal → List SessionId
  | .openSession .. => []
  | .discardSession s _ => [s]
  | .closeSession s _ => [s]
  | .closeNext s _ rest _ => s :: rest
  | .closeBroker _ => []
  | .publish s _ _ => [s]
  | .retarget s _ _ _ => [s]
  | .declare s _ _ _ => [s]
  | .unsubscribe s _ => [s]

/-- Whether a goal belongs to a call on the connection itself. -/
def Goal.ofConnection : Goal → Bool
  | .openSession .. => true
  | .discardSession .. => true
  | .closeNext .. => true
  | .closeBroker _ => true
  | _ => false

/-- Whether a call holds a session: it works on it, or it ended with it and the outcome was not
taken. -/
def Task.holdsSession (s : SessionId) (t : Task) : Bool :=
  match t.progress with
  | .turn u _ _ => u = s
  | .exchange e => e.goal.sessions.contains s
  | .ended (.ok (.session u)) => !t.taken && u = s
  | _ => false

/-- Whether a call holds a connection: it works on it. -/
def Task.holdsConnection (c : ConnectionId) (t : Task) : Bool :=
  match t.progress with
  | .exchange e => e.goal.ofConnection && e.connection = c
  | _ => false

/-- A client with everything that it has created. -/
structure System where
  now : Nat := 0
  registries : List Identifiers := []
  connections : List Connection := []
  sessions : List Session := []
  consumers : List Consumer := []
  calls : List Task := []
  /-- What was told, the newest first. -/
  notices : List Notice := []
  deriving Repr, Inhabited

namespace System

def tell (w : System) (n : Notice) : System := { w with notices := n :: w.notices }

def log (w : System) (e : LogEvent) : System := w.tell (.log e)

def modifyRegistry (w : System) (r : RegistryId) (f : Identifiers → Identifiers) : System :=
  { w with registries := w.registries.modify r f }

def modifyConnection (w : System) (c : ConnectionId) (f : Connection → Connection) : System :=
  { w with connections := w.connections.modify c f }

def modifySession (w : System) (s : SessionId) (f : Session → Session) : System :=
  { w with sessions := w.sessions.modify s f }

def modifyConsumer (w : System) (c : ConsumerId) (f : Consumer → Consumer) : System :=
  { w with consumers := w.consumers.modify c f }

def setCall (w : System) (i : CallId) (p : Progress) : System :=
  { w with calls := w.calls.modify i fun t => { t with progress := p } }

/-- Ends a call. -/
def finish (w : System) (i : CallId) (outcome : Outcome) : System := w.setCall i (.ended outcome)

/-- Ends a call with an error. -/
def fail (w : System) (i : CallId) (e : Error) : System := w.finish i (.error e)

/-! ## Looking things up -/

/-- Where a call stands, if it was started. -/
def progress? (w : System) (i : CallId) : Option Progress := w.calls[i]?.map (·.progress)

def registry (w : System) (r : RegistryId) : Identifiers := w.registries[r]?.getD default

def connection (w : System) (c : ConnectionId) : Connection := w.connections[c]?.getD default

def session (w : System) (s : SessionId) : Session := w.sessions[s]?.getD default

def consumer (w : System) (c : ConsumerId) : Consumer := w.consumers[c]?.getD default

/-- The number of a session within its connection. -/
def numberOf (w : System) (s : SessionId) : Nat := (w.session s).number

/-- The delivery state that a consumer sees. -/
def deliveryOf (w : System) (c : ConsumerId) : Delivery :=
  (w.session (w.consumer c).session).delivery

/-- A consumer is closed once it or its session is. -/
def consumerClosed (w : System) (c : ConsumerId) : Bool :=
  (w.consumer c).closed || w.deliveryOf c = .closed

def destinationOf (w : System) (c : ConsumerId) : Destination := (w.consumer c).destination

/-! ## What is still held -/

/-- Whether the program holds a connection. -/
def holdsConnection (w : System) (c : ConnectionId) : Bool := w.connections[c]?.any (·.held)

/-- Whether the program holds a session. -/
def holdsSession (w : System) (s : SessionId) : Bool := w.sessions[s]?.any (·.held)

/-- Whether somebody holds a connection: the program or a call on it. -/
def connectionAlive (w : System) (c : ConnectionId) : Bool :=
  (w.connection c).held || w.calls.any (·.holdsConnection c)

/-- Whether somebody holds a session: the program, a call, or a connection that it is registered
with and that is held itself. -/
def sessionAlive (w : System) (s : SessionId) : Bool :=
  (w.session s).held || w.calls.any (·.holdsSession s) ||
    let c := (w.session s).connection
    (w.connection c).sessions.contains s && w.connectionAlive c

end System

end BrokerClient
