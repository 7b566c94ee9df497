import BrokerClient.Client.Factory
import BrokerClient.Provider

/-!
# Operations that never wait

What a program does with a client in one go: it sets up connections, asks and changes their state,
creates and closes consumers, and installs listeners. `System.operate` gives the result of an
operation together with the state after it.

Operations on a connection that is closed fail (`System.ifOpen`); most of them first close the
window in which its client identifier may be set, also when they fail then. Starting and stopping a
connection turn all its sessions at once.

Operations of the broker's side stand here too: the reports that it sends, and the faults that are
laid out for it. So do the few that reach past the sessions into a registry of identifiers or of
subscriptions, which the sessions otherwise keep to themselves.
-/

namespace BrokerClient

/-- An operation that is done at once. -/
inductive Operation where
  | createRegistry
  | connect (registry : RegistryId) (timeout : Span) (plan : BrokerPlan)
  | connectFrom (factory : Factory) (plan : BrokerPlan)
  | dropConnection (c : ConnectionId)
  | dropSession (s : SessionId)
  | clientId (c : ConnectionId)
  | setClientId (c : ConnectionId) (id : String)
  | metadata (c : ConnectionId)
  | exceptionListener (c : ConnectionId)
  | setExceptionListener (c : ConnectionId) (label : Option String)
  | notify (c : ConnectionId) (error : Error)
  | start (c : ConnectionId)
  | stop (c : ConnectionId)
  /-- Creates a consumer of the connection itself, which is not supported. -/
  | createConnectionConsumer (c : ConnectionId) (durable : Bool)
  | createConsumer (s : SessionId) (destination : Destination)
  | setConfirmListener (s : SessionId) (listener : Option Listener)
  | closeConsumer (c : ConsumerId)
  | claimIdentifier (r : RegistryId) (id : String)
  | releaseIdentifier (r : RegistryId) (id : String)
  | claimSubscription (c : ConnectionId) (name : String) (consumer : ConsumerId)
  | abandonSubscription (c : ConnectionId) (name : String) (consumer : ConsumerId) (claim : Claim)
  | removeSubscription (c : ConnectionId) (name : String)
  | inject (c : ConnectionId) (fault : Fault)
  | refuse (c : ConnectionId) (refusing : Bool)
  | report (c : ConnectionId) (channel : Nat) (events : List ConfirmEvent)
  deriving Repr

/-- What an operation gives. -/
inductive Answer where
  | unit
  | flag (b : Bool)
  | flags (bs : List Bool)
  | text (s : Option String)
  | registry (r : RegistryId)
  | connection (c : ConnectionId)
  | consumer (c : ConsumerId)
  | claimed (claim : Claim)
  /-- Another consumer has the subscription. -/
  | heldBy (holder : ConsumerId)
  | kept (why : Kept)
  | failed (error : Error)
  deriving DecidableEq, Repr

namespace System

/-! ## Parts that several operations share -/

/-- Whether a connection is closed; most operations on one that is fail. -/
def connectionClosed (w : System) (c : ConnectionId) : Bool := (w.connection c).life.isClosed

/-- Any use of the connection but setting its identifier ends the time in which that is allowed. -/
def closeIdentifierWindow (w : System) (c : ConnectionId) : System :=
  w.modifyConnection c fun x => { x with identifierOpen := false }

/-- Lets a session receive or pauses it, and logs it if that changes anything. -/
def setDelivery (w : System) (s : SessionId) (next : Delivery) (event : Nat → LogEvent) : System :=
  match Delivery.change next (w.session s).delivery with
  | none => w
  | some d => (w.modifySession s fun x => { x with delivery := d }).log (event (w.numberOf s))

def resumeSession (w : System) (s : SessionId) : System := w.setDelivery s .running .resumed

def pauseSession (w : System) (s : SessionId) : System := w.setDelivery s .paused .paused

/-- Closes a consumer; its durable subscription stays registered. -/
def closeConsumer (w : System) (c : ConsumerId) : System :=
  if (w.consumer c).closed then w
  else
    let x := w.consumer c
    (w.modifyConsumer c fun x => { x with closed := true }).log
      (.consumerClosed x.destination x.subscription)

/-- Adds a consumer to its session, which forgets those that are closed; a session that was closed
meanwhile closes it. -/
def adopt (w : System) (s : SessionId) (c : ConsumerId) : Except Error Unit × System :=
  if (w.session s).closed then (.error (.closed .session), w.closeConsumer c)
  else
    (.ok (), w.modifySession s fun x =>
      { x with consumers := x.consumers.filter (fun d => !w.consumerClosed d) ++ [c] })

/-- Registers a consumer under the name of a durable subscription. -/
def claimName (w : System) (c : ConnectionId) (name : String) (consumer : ConsumerId)
    (d : Destination) : Except ConsumerId (Claim × System) :=
  match (w.connection c).subscriptions.claim w.consumerClosed w.destinationOf name consumer d with
  | .error holder => .error holder
  | .ok (claim, subscriptions) =>
    .ok (claim, (w.modifyConnection c fun x => { x with subscriptions := subscriptions }).log
      (.subscriptionClaimed name d))

/-- Takes a registration back. -/
def abandonName (w : System) (c : ConnectionId) (name : String) (consumer : ConsumerId)
    (claim : Claim) : System :=
  w.modifyConnection c fun x =>
    { x with subscriptions := x.subscriptions.abandon name consumer claim }

/-! ## The operations -/

/-- Does something to a connection that is not closed. -/
def ifOpen (w : System) (c : ConnectionId) (f : Answer × System) : Answer × System :=
  if w.connectionClosed c then (.failed (.closed .connection), w) else f

def clientId (w : System) (c : ConnectionId) : Answer × System :=
  let w := w.log .askClientId
  w.ifOpen c (.text (w.connection c).clientId, w)

/-- Sets the client identifier, once, before any other use of the connection, and if no connection
that shares the registry has it. -/
def setClientId (w : System) (c : ConnectionId) (id : String) : Answer × System :=
  let w := w.log (.setClientId id)
  let x := w.connection c
  if !x.identifierOpen then (.failed (.illegalState .identifierTooLate), w)
  else if x.life.isClosed then (.failed (.closed .connection), w)
  else if x.clientId.isSome then (.failed (.illegalState .identifierSet), w)
  else if (w.registry x.registry).contains id then (.failed (.duplicateIdentifier id), w)
  else
    (.unit, (w.modifyRegistry x.registry fun r => (r.claim id).2).modifyConnection c
      fun x => { x with clientId := some id })

def metadata (w : System) (c : ConnectionId) : Answer × System :=
  let w := (w.log .askMetadata).closeIdentifierWindow c
  w.ifOpen c (.text (some provider.name), w)

/-- Tells whether an exception listener is installed. -/
def exceptionListener (w : System) (c : ConnectionId) : Answer × System :=
  let w := (w.log .askExceptionListener).closeIdentifierWindow c
  w.ifOpen c (.flag (w.connection c).exceptionListener.isSome, w)

def setExceptionListener (w : System) (c : ConnectionId) (label : Option String) :
    Answer × System :=
  let w := (w.log (.setExceptionListener label.isSome)).closeIdentifierWindow c
  w.ifOpen c (.unit, w.modifyConnection c fun x => { x with exceptionListener := label })

/-- Hands a failure to the exception listener; tells whether there is one. -/
def notify (w : System) (c : ConnectionId) (e : Error) : Answer × System :=
  match (w.connection c).exceptionListener with
  | some label => (.flag true, w.tell (.failed label e))
  | none => (.flag false, w.log (.unheardFailure e))

/-- Starts delivery to every session, unless it is started. -/
def start (w : System) (c : ConnectionId) : Answer × System :=
  let w := (w.log .start).closeIdentifierWindow c
  w.ifOpen c <|
    if (w.connection c).life.canStart then
      let w := w.modifyConnection c fun x => { x with life := .started }
      let sessions := (w.connection c).sessions
      (.unit, (sessions.foldl resumeSession w).log (.started sessions.length))
    else (.unit, w)

/-- Pauses delivery to every session, if it is started. -/
def stop (w : System) (c : ConnectionId) : Answer × System :=
  let w := (w.log .stop).closeIdentifierWindow c
  w.ifOpen c <|
    if (w.connection c).life.canStop then
      let w := w.modifyConnection c fun x => { x with life := .stopped }
      let sessions := (w.connection c).sessions
      (.unit, (sessions.foldl pauseSession w).log (.stopped sessions.length))
    else (.unit, w)

/-- The name of an operation that is not supported. -/
def connectionConsumer (durable : Bool) : String :=
  if durable then "create_durable_connection_consumer" else "create_connection_consumer"

/-- Creates a consumer that is not durable. -/
def createConsumer (w : System) (s : SessionId) (d : Destination) : Answer × System :=
  if (w.session s).closed then (.failed (.closed .session), w)
  else
    let c := w.consumers.length
    let x : Consumer := { session := s, destination := d }
    match { w with consumers := w.consumers ++ [x] }.adopt s c with
    | (.ok (), w) => (.consumer c, w)
    | (.error e, w) => (.failed e, w)

/-- Installs, replaces or removes the confirm listener. Only messages sent while there is one are
awaited. -/
def setConfirmListener (w : System) (s : SessionId) (l : Option Listener) : Answer × System :=
  if (w.session s).closed then (.failed (.closed .session), w)
  else (.unit, w.modifySession s fun x => { x with listener := l })

def claimIdentifier (w : System) (r : RegistryId) (id : String) : Answer × System :=
  (.flag ((w.registry r).claim id).1, w.modifyRegistry r fun x => (x.claim id).2)

def releaseIdentifier (w : System) (r : RegistryId) (id : String) : Answer × System :=
  (.flag ((w.registry r).release id).1, w.modifyRegistry r fun x => (x.release id).2)

def claimSubscription (w : System) (c : ConnectionId) (name : String) (consumer : ConsumerId) :
    Answer × System :=
  match w.claimName c name consumer (w.destinationOf consumer) with
  | .error holder => (.heldBy holder, w)
  | .ok (claim, w) => (.claimed claim, w)

def removeSubscription (w : System) (c : ConnectionId) (name : String) : Answer × System :=
  match (w.connection c).subscriptions.removeInactive w.consumerClosed name with
  | .error why => (.kept why, w)
  | .ok (holder, subscriptions) =>
    (.consumer holder, w.modifyConnection c fun x => { x with subscriptions := subscriptions })

/-- Sends reports on a channel; tells of each whether anybody can take it. -/
def reportAll (w : System) (c : ConnectionId) (channel : Nat) : List ConfirmEvent →
    List Bool × System
  | [] => ([], w)
  | e :: events =>
    let (heard, broker) := (w.connection c).broker.report channel e
    let w := w.modifyConnection c fun x => { x with broker := broker }
    let (others, w) := reportAll w c channel events
    (heard :: others, w)

/-- The result of an operation, and the state after it. -/
def operate (w : System) : Operation → Answer × System
  | .createRegistry =>
    let (r, w) := w.createRegistry
    (.registry r, w)
  | .connect registry timeout plan =>
    let (c, w) := w.connect registry timeout plan
    (.connection c, w)
  | .connectFrom factory plan =>
    let (c, w) := w.connectFrom factory plan
    (.connection c, w)
  | .dropConnection c => (.unit, w.modifyConnection c fun x => { x with held := false })
  | .dropSession s => (.unit, w.modifySession s fun x => { x with held := false })
  | .clientId c => w.clientId c
  | .setClientId c id => w.setClientId c id
  | .metadata c => w.metadata c
  | .exceptionListener c => w.exceptionListener c
  | .setExceptionListener c label => w.setExceptionListener c label
  | .notify c e => w.notify c e
  | .start c => w.start c
  | .stop c => w.stop c
  | .createConnectionConsumer _ durable =>
    (.failed (.unsupported (connectionConsumer durable)), w)
  | .createConsumer s d => w.createConsumer s d
  | .setConfirmListener s l => w.setConfirmListener s l
  | .closeConsumer c => (.unit, w.closeConsumer c)
  | .claimIdentifier r id => w.claimIdentifier r id
  | .releaseIdentifier r id => w.releaseIdentifier r id
  | .claimSubscription c name consumer => w.claimSubscription c name consumer
  | .abandonSubscription c name consumer claim => (.unit, w.abandonName c name consumer claim)
  | .removeSubscription c name => w.removeSubscription c name
  | .inject c fault =>
    (.unit, w.modifyConnection c fun x => { x with faults := x.faults ++ [fault] })
  | .refuse c refusing =>
    (.unit, w.modifyConnection c fun x => { x with broker := { x.broker with refusing } })
  | .report c channel events =>
    let (heard, w) := w.reportAll c channel events
    (.flags heard, w)

end System

end BrokerClient
