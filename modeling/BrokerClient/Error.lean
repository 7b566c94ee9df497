import BrokerClient.Destination
import BrokerClient.Span

/-!
# Errors

Why an operation of the client fails. Each error is a cause with the values that it names;
`Error.message` gives its wording.

What a broker fails with is passed on as it is, with one exception: when something is closed, a
signal that it is closed already counts as success (`settleClose`). A close that took too long names
the time that it was given.
-/

namespace BrokerClient

/-- A failure of the broker connection or of one of its channels. -/
inductive TransportFailure where
  /-- The resource was closed already. -/
  | alreadyClosed
  /-- The broker shut the resource down. -/
  | shutdown (reason : String)
  /-- Input or output failed. -/
  | io (reason : String)
  deriving DecidableEq, Repr

namespace TransportFailure

def message : TransportFailure → String
  | .alreadyClosed => "already closed"
  | .shutdown reason => "shutdown signalled: " ++ reason
  | .io reason => reason

/-- Whether the failure says no more than that the resource is closed. -/
def isClosedSignal : TransportFailure → Bool
  | .alreadyClosed => true
  | .shutdown _ => true
  | .io _ => false

end TransportFailure

/-- The result of closing something, where a signal that it is closed counts as success. -/
def settleClose : Except TransportFailure Unit → Except TransportFailure Unit
  | .error e => if e.isClosedSignal then .ok () else .error e
  | .ok () => .ok ()

/-- What can be closed. -/
inductive Resource where
  | connection
  | session
  | consumer
  deriving DecidableEq, Repr

def Resource.name : Resource → String
  | .connection => "connection"
  | .session => "session"
  | .consumer => "consumer"

/-- Why an operation is not allowed in the present state. -/
inductive Misuse where
  | closed (what : Resource)
  /-- Something other than setting the identifier was done with the connection before. -/
  | identifierTooLate
  | identifierSet
  /-- A consumer that is not closed has the durable subscription. -/
  | subscriptionHeld (name : String) (destination : Destination)
  /-- The subscription to be removed has a consumer that is not closed. -/
  | subscriptionInUse (name : String)
  /-- Reported by someone else. -/
  | reported (text : String)
  deriving DecidableEq, Repr

def Misuse.message : Misuse → String
  | .closed what => what.name ++ " is closed"
  | .identifierTooLate => "client identifier can only be set right after connection creation"
  | .identifierSet => "client identifier already set"
  | .subscriptionHeld name d =>
    s!"durable subscription [{name}] is already active on {d.address}"
  | .subscriptionInUse name => s!"durable subscription [{name}] still has an active consumer"
  | .reported text => text

/-- What is wrong with a destination. -/
inductive BadDestination where
  | notTopic (destination : Destination)
  | unknownSubscription (name : String)
  /-- Reported by someone else. -/
  | reported (text : String)
  deriving DecidableEq, Repr

def BadDestination.message : BadDestination → String
  | .notTopic d => "durable subscriptions need a topic, got " ++ d.address
  | .unknownSubscription name => s!"no durable subscription named [{name}]"
  | .reported text => text

/-- Why an operation of the client fails. -/
inductive Error where
  /-- The operation is not allowed in the present state. -/
  | illegalState (cause : Misuse)
  /-- Another live connection has the client identifier. -/
  | duplicateIdentifier (id : String)
  | unsupported (operation : String)
  | transport (failure : TransportFailure)
  /-- The broker connection did not close in time. -/
  | closeTimeout (limit : Span)
  | invalidDestination (cause : BadDestination)
  /-- The options could not be read. -/
  | config (failure : Json.Failure)
  deriving DecidableEq, Repr

namespace Error

def closed (what : Resource) : Error := .illegalState (.closed what)

def message : Error → String
  | .illegalState cause => "illegal state: " ++ cause.message
  | .duplicateIdentifier id => s!"a connection with client identifier [{id}] already exists"
  | .unsupported operation => "operation not supported: " ++ operation
  | .transport failure => "transport failure: " ++ failure.message
  | .closeTimeout limit => "broker connection close did not complete within " ++ limit.text
  | .invalidDestination cause => "invalid destination: " ++ cause.message
  | .config failure => "invalid configuration: " ++ failure.message?.getD ""

def isIllegalState : Error → Bool
  | .illegalState _ => true
  | _ => false

def isDuplicateIdentifier : Error → Bool
  | .duplicateIdentifier _ => true
  | _ => false

def isUnsupported : Error → Bool
  | .unsupported _ => true
  | _ => false

def isTransport : Error → Bool
  | .transport _ => true
  | _ => false

end Error

end BrokerClient
