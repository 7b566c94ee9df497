import BrokerClient.Client.Call
import BrokerClient.Client.View

/-!
# Scripts

A script drives a client step by step and names what it has created by handles: for each kind of
thing, numbers in the order in which the script came to see it. Here are the steps that a script can
take and what each of them can give.
-/

namespace BrokerClient.Script

/-- A handle: the number of a thing among the things of its kind. -/
abbrev Handle := Nat

/-- How a script asks for an acknowledgement mode. -/
inductive ModeChoice where
  | mode (m : AckMode)
  /-- By the number of a mode; there may be none. -/
  | code (n : Int)
  deriving DecidableEq, Repr, Inhabited

/-- The mode that is meant, or the number that means none. -/
def ModeChoice.resolve : ModeChoice → Except Int AckMode
  | .mode m => .ok m
  | .code n => match AckMode.ofCode? n with
    | some m => .ok m
    | none => .error n

/-- A call that may wait. A message is `none` where the script has something that is no message. -/
inductive Job where
  | createSession (connection : Handle) (transacted : Bool) (mode : ModeChoice)
    (via : Option Domain)
  | close (connection : Handle)
  | closeSession (session : Handle)
  | subscribe (session : Handle) (destination : Destination) (name : String)
  | unsubscribe (session : Handle) (name : String)
  | send (session : Handle) (message : Option Message)
  | awaitResume (consumer : Handle)
  deriving DecidableEq, Repr

/-- One step of a script. -/
inductive Step where
  /-- Runs a job to its end. -/
  | run (job : Job)
  /-- Starts a job and goes on. -/
  | spawn (job : Job)
  /-- Takes what a started job gave. -/
  | join (task : Handle)
  | advance (ms : Nat)
  | createFactory (options : Option String) (timeout : Option Span) (share : Option Handle)
  | viewFactory (factory : Handle) (name : String)
  | claimIdentifier (factory : Handle) (id : String)
  | releaseIdentifier (factory : Handle) (id : String)
  /-- Connects, with the timeout of the factory or with another one. -/
  | connect (factory : Handle) (timeout : Option Span) (plan : BrokerPlan)
  | inject (connection : Handle) (fault : Fault)
  | refuse (connection : Handle) (refusing : Bool)
  | report (connection : Handle) (channel : Nat) (events : List ConfirmEvent)
  | viewChannel (connection : Handle) (channel : Nat)
  | dropConnection (connection : Handle)
  | dropSession (session : Handle)
  | clientId (connection : Handle)
  | setClientId (connection : Handle) (id : String)
  | metadata (connection : Handle)
  | exceptionListener (connection : Handle)
  | setExceptionListener (connection : Handle) (label : Option String)
  | notify (connection : Handle) (error : Error)
  | start (connection : Handle)
  | stop (connection : Handle)
  | viewConnection (connection : Handle)
  | showConnection (connection : Handle)
  | createConnectionConsumer (connection : Handle) (durable : Bool)
  | createConsumer (session : Handle) (destination : Destination)
  | setConfirmListener (session : Handle) (listener : Option Listener)
  | viewSession (session : Handle)
  | showSession (session : Handle)
  | viewConsumer (consumer : Handle)
  | closeConsumer (consumer : Handle)
  | sameConsumer (consumer other : Handle)
  | viewSubscription (connection : Handle) (name : String)
  | getSubscription (connection : Handle) (name : String)
  | claimSubscription (connection : Handle) (name : String) (consumer : Handle)
  | abandonSubscription (connection : Handle) (name : String) (consumer claim : Handle)
  | removeSubscription (connection : Handle) (name : String)
  deriving Repr

/-- Why a step is not taken at all. -/
inductive Refusal where
  /-- The handle stands for nothing, or for something that was dropped or used up. -/
  | noSuchHandle
  | noMessage
  /-- No acknowledgement mode has this number. -/
  | noMode (code : Int)
  deriving DecidableEq, Repr

/-- What a factory is seen to be. -/
structure FactoryView where
  timeoutMillis : Nat
  identifiers : Nat
  /-- Whether the registry holds the name that was asked for. -/
  holds : Bool
  deriving DecidableEq, Repr

/-- What the subscriptions of a connection are seen to be. -/
structure SubscriptionView where
  size : Nat
  isEmpty : Bool
  /-- Whether the subscription that was asked for has a consumer that is not closed. -/
  active : Bool
  deriving DecidableEq, Repr

/-- What a step gives. -/
inductive Result where
  | unit
  | flag (b : Bool)
  | flags (bs : List Bool)
  | text (s : Option String)
  /-- Something that the script may not have seen before, such as a session or a consumer. -/
  | handle (h : Handle)
  | noHandle
  | task (t : Handle)
  /-- The job cannot end yet. -/
  | pending
  | factory (x : FactoryView)
  | connection (x : ConnectionView)
  | session (x : SessionView)
  | consumer (x : ConsumerView)
  | channel (x : Channel)
  | subscription (x : SubscriptionView)
  /-- A claim on a subscription, with the consumer that was registered before. -/
  | claimed (claim : Handle) (kind : Claim) (previous : Option Handle)
  | heldBy (holder : Handle)
  | unknown
  | active (holder : Handle)
  | refused (why : Refusal)
  | failed (error : Error)
  deriving DecidableEq, Repr

end BrokerClient.Script
