import BrokerClient.Client.State

/-!
# What a program sees of a client

Connections, sessions and consumers as the program that holds them can ask about them, and the form
in which they stand in messages to the programmer. Asking changes nothing.
-/

namespace BrokerClient

/-- What can be asked of a connection. -/
structure ConnectionView where
  life : Lifecycle
  clientId : Option String
  /-- The number of sessions registered. -/
  sessions : Nat
  /-- The number of durable subscriptions registered. -/
  subscriptions : Nat
  /-- The number of identifiers in the registry that the connection shares. -/
  identifiers : Nat
  timeout : Span
  deriving DecidableEq, Repr

namespace ConnectionView

/-- A connection delivers only while it is started. -/
def stopped (x : ConnectionView) : Bool := x.life ≠ .started

/-- A connection in messages to the programmer. -/
def label (x : ConnectionView) : String :=
  "Connection \x7b state: " ++ x.life.label ++ ", client_id: " ++ Text.quotedOption x.clientId ++
    ", sessions: " ++ toString x.sessions ++ ", termination_timeout: " ++ x.timeout.text ++ " \x7d"

end ConnectionView

/-- What can be asked of a session. -/
structure SessionView where
  number : Nat
  transacted : Bool
  mode : AckMode
  delivery : Delivery
  closed : Bool
  /-- How many messages await their outcome. -/
  outstanding : Nat
  deriving DecidableEq, Repr

/-- A session in messages to the programmer. -/
def SessionView.label (x : SessionView) : String :=
  "Session \x7b id: " ++ toString x.number ++ ", transacted: " ++ toString x.transacted ++
    ", ack_mode: " ++ x.mode.label ++ ", delivery: " ++ x.delivery.label ++ ", closed: " ++
    toString x.closed ++ " \x7d"

/-- What can be asked of a consumer. -/
structure ConsumerView where
  destination : Destination
  subscription : Option String
  closed : Bool
  paused : Bool
  deriving DecidableEq, Repr

def ConsumerView.durable (x : ConsumerView) : Bool := x.subscription.isSome

namespace System

def connectionView (w : System) (c : ConnectionId) : ConnectionView :=
  let x := w.connection c
  { life := x.life, clientId := x.clientId, sessions := x.sessions.length
    subscriptions := x.subscriptions.size, identifiers := (w.registry x.registry).size
    timeout := x.timeout }

def sessionView (w : System) (s : SessionId) : SessionView :=
  let x := w.session s
  { number := x.number, transacted := x.transacted, mode := x.mode, delivery := x.delivery
    closed := x.closed, outstanding := x.pending.size }

def consumerView (w : System) (c : ConsumerId) : ConsumerView :=
  let x := w.consumer c
  { destination := x.destination, subscription := x.subscription, closed := w.consumerClosed c
    paused := w.deliveryOf c = .paused }

/-- Whether a consumer that is not closed has a durable subscription. -/
def subscriptionActive (w : System) (c : ConnectionId) (name : String) : Bool :=
  (w.connection c).subscriptions.get? name |>.any fun x => !w.consumerClosed x

end System

end BrokerClient
