import BrokerClient.AckMode
import BrokerClient.Confirm.Pending
import BrokerClient.Error

/-!
# What a client tells

While it works the client writes a log and calls listeners. Both are notices and stand in one list,
so that it can be seen which came first.

Every entry of the log is an event of the domain with the values that it names; `LogEvent.record`
gives its level, its target, its wording and its fields.
-/

namespace BrokerClient

/-- A session, by its number among all sessions. -/
abbrev SessionId := Nat

/-- The weight of a log entry. -/
inductive Level where
  | trace
  | debug
  | info
  | warn
  | error
  deriving DecidableEq, Repr

def Level.name : Level → String
  | .trace => "TRACE"
  | .debug => "DEBUG"
  | .info => "INFO"
  | .warn => "WARN"
  | .error => "ERROR"

/-- The value of a field of a log entry. -/
inductive FieldValue where
  | text (s : String)
  | count (n : Nat)
  | flag (b : Bool)
  deriving DecidableEq, Repr

/-- A log entry as it is written. -/
structure LogRecord where
  level : Level
  target : String
  message : String
  fields : List (String × FieldValue)
  deriving DecidableEq, Repr

/-- The kinds of destination that a session may be asked for by. -/
inductive Domain where
  | queue
  | topic
  deriving DecidableEq, Repr

/-- What the log tells of. Sessions are named by their number within their connection. -/
inductive LogEvent where
  | connectionCreated (timeoutMillis : Nat)
  | createSession (transacted : Bool) (mode : AckMode)
  | createSessionFor (domain : Domain)
  | sessionCreated (session : Nat)
  | sessionDiscarded (session : Nat) (error : Error)
  | sessionDetached (session : Nat) (removed : Bool)
  | askClientId
  | setClientId (id : String)
  | clientIdReleased (id : String)
  | askMetadata
  | askExceptionListener
  | setExceptionListener (installed : Bool)
  | unheardFailure (error : Error)
  | start
  | started (sessions : Nat)
  | stop
  | stopped (sessions : Nat)
  | closeConnection
  | sessionCloseFailed (session : Nat) (error : Error)
  | furtherCloseFailed (session : Nat) (error : Error)
  | brokerCloseTimedOut (timeoutMillis : Nat)
  | connectionClosed (ok : Bool)
  | sessionFailureSuperseded (error : Error)
  | paused (session : Nat)
  | resumed (session : Nat)
  | closeSession (session : Nat)
  | sessionClosed (session consumers : Nat)
  | retargeting (session : Nat) (name : String) (source target : Destination)
  | unsubscribed (session : Nat) (name : String)
  | consumerClosed (destination : Destination) (subscription : Option String)
  | subscriptionClaimed (name : String) (destination : Destination)
  | untrackedConfirm (session tag : Nat)
  | unheardConfirms (session count : Nat)
  | closedAlready (failure : TransportFailure)
  deriving DecidableEq, Repr

namespace LogEvent

/-- An entry about a connection. -/
def connection (level : Level) (message : String) (fields : List (String × FieldValue)) :
    LogRecord := ⟨level, "rjms.connection", message, fields⟩

/-- An entry about a session. -/
def session (message : String) (fields : List (String × FieldValue)) : LogRecord :=
  ⟨.debug, "rjms.session", message, fields⟩

def record : LogEvent → LogRecord
  | .connectionCreated ms =>
    connection .debug "connection created" [("termination_timeout_ms", .count ms)]
  | .createSession transacted mode =>
    connection .debug "create_session" [("transacted", .flag transacted),
      ("ack_mode", .text mode.name)]
  | .createSessionFor .queue => connection .debug "create_queue_session" []
  | .createSessionFor .topic => connection .debug "create_topic_session" []
  | .sessionCreated s => connection .debug "session created" [("session", .count s)]
  | .sessionDiscarded s e =>
    connection .debug "discarding session opened during close"
      [("session", .count s), ("error", .text e.message)]
  | .sessionDetached s removed =>
    connection .debug "session detached" [("session", .count s), ("removed", .flag removed)]
  | .askClientId => connection .debug "client_id" []
  | .setClientId id => connection .debug "set_client_id" [("client_id", .text id)]
  | .clientIdReleased id =>
    connection .debug "client identifier released" [("client_id", .text id)]
  | .askMetadata => connection .debug "metadata" []
  | .askExceptionListener => connection .debug "exception_listener" []
  | .setExceptionListener installed =>
    connection .debug "set_exception_listener" [("installed", .flag installed)]
  | .unheardFailure e =>
    connection .warn "connection failure with no exception listener installed"
      [("error", .text e.message)]
  | .start => connection .debug "start" []
  | .started n => connection .info "connection started" [("sessions", .count n)]
  | .stop => connection .debug "stop" []
  | .stopped n => connection .info "connection stopped" [("sessions", .count n)]
  | .closeConnection => connection .debug "close" []
  | .sessionCloseFailed s e =>
    connection .error "session close failed" [("session", .count s), ("error", .text e.message)]
  | .furtherCloseFailed s e =>
    connection .warn "additional session close failure discarded"
      [("session", .count s), ("error", .text e.message)]
  | .brokerCloseTimedOut ms =>
    connection .error "broker connection close timed out" [("timeout_ms", .count ms)]
  | .connectionClosed ok => connection .info "connection closed" [("ok", .flag ok)]
  | .sessionFailureSuperseded e =>
    connection .warn "session close failure superseded by broker close failure"
      [("error", .text e.message)]
  | .paused s => session "paused" [("session", .count s)]
  | .resumed s => session "resumed" [("session", .count s)]
  | .closeSession s => session "close" [("session", .count s)]
  | .sessionClosed s n =>
    session "session closed" [("session", .count s), ("consumers", .count n)]
  | .retargeting s name source target =>
    session "retargeting durable subscription" [("session", .count s), ("name", .text name),
      ("from", .text source.address), ("to", .text target.address)]
  | .unsubscribed s name =>
    session "unsubscribed" [("session", .count s), ("name", .text name)]
  | .consumerClosed d subscription =>
    session "consumer closed" [("destination", .text d.address),
      ("subscription", .text (Text.quotedOption subscription))]
  | .subscriptionClaimed name d =>
    ⟨.debug, "rjms.subscriptions", "subscription claimed",
      [("name", .text name), ("destination", .text d.address)]⟩
  | .untrackedConfirm s tag =>
    ⟨.trace, "rjms.confirm", "confirm for untracked tag ignored",
      [("session", .count s), ("tag", .count tag)]⟩
  | .unheardConfirms s n =>
    ⟨.debug, "rjms.confirm", "no listener installed; confirmations dropped",
      [("session", .count s), ("count", .count n)]⟩
  | .closedAlready e =>
    ⟨.trace, "rjms.transport", "close on already closed resource", [("error", .text e.message)]⟩

end LogEvent

/-- What a client tells: an entry of the log, or a call of a listener. -/
inductive Notice where
  | log (event : LogEvent)
  /-- The confirm listener of a session is told an outcome; `left` is the number of outcomes awaited
  then, if the program still holds the session. -/
  | confirmed (s : SessionId) (label : String) (confirmation : Confirmation) (left : Option Nat)
  /-- An exception listener is told a failure. -/
  | failed (label : String) (error : Error)
  deriving DecidableEq, Repr

end BrokerClient
