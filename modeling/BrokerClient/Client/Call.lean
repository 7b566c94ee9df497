import BrokerClient.Client.Operation

/-!
# Calls that may wait

A call runs from one point at which it waits to the next. `System.call` starts one and runs it to
its first such point; `System.resume?` runs it on from there, if what it waits for has come. Between
two points nothing else happens, so each stretch is one step of a run.

A call waits at three kinds of point:

* for an answer of the broker (`Exchange`): first until the request takes effect, then until the
  answer is back. What the call does with the answer is its goal, and `System.resolve` does it. Only
  the close of the broker connection is given up after a time (`System.giveUp`), and an answer that
  comes at that very moment still counts;
* for its turn to publish (`Progress.turn`): the messages of a session are published one after the
  other, in the order in which their calls came;
* for the session of a consumer to deliver again (`Progress.resumption`).

Several goals take more than one request. Closing a connection goes through its sessions in turn
and then closes the broker connection, with the first failure carried along; a subscription that was
on another topic is deleted and then declared. In between other calls run, and they find what the
stretches before have left.
-/

namespace BrokerClient

namespace System

/-- Sends a request to the broker, with the first fault that fits it; the call waits for the
answer. -/
def ask (w : System) (i : CallId) (c : ConnectionId) (request : Request) (limit : Option Nat)
    (goal : Goal) : System :=
  let x := w.connection c
  let (fault, faults) := takeFault request.kind request.channel? x.faults
  let f : Fault := fault.getD { kind := request.kind }
  -- A request that fails never reaches the broker, so the broker's own delay does not count.
  let lead := if f.failure.isSome then 0 else x.broker.lead request
  (w.modifyConnection c fun x => { x with faults := faults, asked := x.asked ++ [request] }).setCall
    i <| .exchange
    { connection := c, request, stage := .before f.failure (timerFor f.after),
      wake := w.now + timerFor f.delay + lead, limit, goal }

/-! ## Closing -/

/-- Closes a session as far as that needs no broker: its consumers are closed and its dispatcher is
told to stop. Also gives the number of its consumers. -/
def shutSession (w : System) (s : SessionId) : Nat × System :=
  let consumers := (w.session s).consumers
  let w := w.modifySession s fun x =>
    { x with
      closed := true, delivery := .closed, consumers := []
      dispatcher := if x.dispatcher = .running then .stopping else x.dispatcher }
  (consumers.length, consumers.foldl closeConsumer w)

/-- Takes the result of closing something at the broker. A signal that it is closed already counts
as success, and is logged. -/
def normalizeClose (w : System) (result : Except TransportFailure Unit) :
    Except TransportFailure Unit × System :=
  (settleClose result, match result with
    | .ok () => w
    | .error e => if e.isClosedSignal then w.log (.closedAlready e) else w)

/-- Takes the answer to the close of a session's channel. -/
def sessionShut (w : System) (s : SessionId) (consumers : Nat) (reply : Reply) :
    Except TransportFailure Unit × System :=
  match w.normalizeClose reply.result with
  | (.ok (), w) => (.ok (), w.log (.sessionClosed (w.numberOf s) consumers))
  | (.error e, w) => (.error e, w)

/-- When a wait that begins now and may last as long as `timeout` is given up. -/
def deadline (w : System) (timeout : Span) : Nat := w.now + timeout.ticks

/-- Goes on closing a connection: the sessions that are left in turn, then the broker connection. -/
def closeSessions (w : System) (i : CallId) (c : ConnectionId) (failure : Option TransportFailure) :
    List SessionId → System
  | [] =>
    w.ask i c .close (some (w.deadline (w.connection c).timeout)) (.closeBroker failure)
  | s :: rest =>
    if (w.session s).closed then closeSessions w i c failure rest
    else
      let (consumers, w) := w.shutSession s
      w.ask i c (.closeChannel (w.session s).channel) none (.closeNext s consumers rest failure)

/-- Logs how closing a session of the connection failed; the first failure is the one that
counts. -/
def noteFailure (w : System) (s : SessionId) (failure : Option TransportFailure)
    (e : TransportFailure) : Option TransportFailure × System :=
  match failure with
  | none => (some e, w.log (.sessionCloseFailed (w.numberOf s) (.transport e)))
  | some first => (some first, w.log (.furtherCloseFailed (w.numberOf s) (.transport e)))

/-- Ends the close of a connection. A failure of the broker connection comes before one of a
session. -/
def concludeClose (w : System) (i : CallId) (closed : Except Error Unit)
    (failure : Option TransportFailure) : System :=
  let w := w.log (.connectionClosed (closed.toBool && failure.isNone))
  match closed, failure with
  | .error e, some f => (w.log (.sessionFailureSuperseded (.transport f))).fail i e
  | .error e, none => w.fail i e
  | .ok (), some f => w.fail i (.transport f)
  | .ok (), none => w.finish i (.ok .unit)

/-- Closes a connection: it is closed at once, its identifier is released, and its sessions and the
broker connection are closed one after the other. Only the first call does anything. -/
def closeConnection (w : System) (i : CallId) (c : ConnectionId) : System :=
  let w := w.log .closeConnection
  let x := w.connection c
  if x.life.isClosed then w.finish i (.ok .unit)
  else
    let w := w.modifyConnection c fun x =>
      { x with life := .closed, clientId := none, sessions := [] }
    let w := match x.clientId with
      | none => w
      | some id =>
        (w.modifyRegistry x.registry fun r => (r.release id).2).log (.clientIdReleased id)
    w.closeSessions i c none x.sessions

/-- Closes a session, which its connection forgets. Only the first call does more. -/
def closeSession (w : System) (i : CallId) (s : SessionId) : System :=
  let w := w.log (.closeSession (w.numberOf s))
  let c := (w.session s).connection
  let w :=
    if w.connectionAlive c then
      let removed := (w.connection c).sessions.contains s
      (w.modifyConnection c fun x => { x with sessions := x.sessions.filter (· ≠ s) }).log
        (.sessionDetached (w.numberOf s) removed)
    else w
  if (w.session s).closed then w.finish i (.ok .unit)
  else
    let (consumers, w) := w.shutSession s
    w.ask i c (.closeChannel (w.session s).channel) none (.closeSession s consumers)

/-! ## Creating sessions -/

/-- Asks for the channel of a new session. -/
def createSession (w : System) (i : CallId) (c : ConnectionId) (transacted : Bool) (mode : AckMode)
    (via : Option Domain) : System :=
  let w := match via with
    | none => w
    | some d => w.log (.createSessionFor d)
  if via.isSome && w.connectionClosed c then w.fail i (.closed .connection)
  else
    let w := (w.log (.createSession transacted mode)).closeIdentifierWindow c
    if w.connectionClosed c then w.fail i (.closed .connection)
    else w.ask i c .createChannel none (.openSession transacted mode)

/-- Makes a session of a channel. A connection that was closed meanwhile does not register it; the
session is closed again. -/
def openSession (w : System) (i : CallId) (c : ConnectionId) (channel : Nat) (transacted : Bool)
    (mode : AckMode) : System :=
  let x := w.connection c
  let s := w.sessions.length
  let session : Session :=
    { connection := c, number := x.nextNumber, transacted, channel
      mode := if transacted then .sessionTransacted else mode }
  let w := { w with sessions := w.sessions ++ [session] }
  let w := w.modifyConnection c fun x => { x with nextNumber := x.nextNumber + 1 }
  if x.life.isClosed then
    let (consumers, w) := w.shutSession s
    w.ask i c (.closeChannel channel) none (.discardSession s consumers)
  else
    -- Started or not is asked in the same stretch as the session is registered, so that no start
    -- falls between the two.
    let w := if x.life = .started then w.resumeSession s else w
    let w := w.modifyConnection c fun x => { x with sessions := x.sessions ++ [s] }
    (w.log (.sessionCreated x.nextNumber)).finish i (.ok (.session s))

/-! ## Durable subscriptions -/

/-- Creates a durable subscriber: takes the name, then has the broker declare the subscription,
after deleting it if it was on another topic. -/
def subscribe (w : System) (i : CallId) (s : SessionId) (d : Destination) (name : String) :
    System :=
  let x := w.session s
  if x.closed then w.fail i (.closed .session)
  else if !d.isTopic then w.fail i (.invalidDestination (.notTopic d))
  else
    let consumer := w.consumers.length
    match w.claimName x.connection name consumer d with
    | .error holder =>
      w.fail i (.illegalState (.subscriptionHeld name (w.destinationOf holder)))
    | .ok (claim, w) =>
      let new : Consumer := { session := s, destination := d, subscription := some name }
      let w := { w with consumers := w.consumers ++ [new] }
      match claim with
      | .retarget previous =>
        (w.log (.retargeting x.number name (w.destinationOf previous) d)).ask i x.connection
          (.delete x.channel name) none (.retarget s consumer name claim)
      | _ =>
        w.ask i x.connection (.declare x.channel d.name name) none (.declare s consumer name claim)

/-- Removes a subscription without a consumer, then has the broker delete it. -/
def unsubscribe (w : System) (i : CallId) (s : SessionId) (name : String) : System :=
  let x := w.session s
  if x.closed then w.fail i (.closed .session)
  else match (w.connection x.connection).subscriptions.removeInactive w.consumerClosed name with
    | .error .unknown => w.fail i (.invalidDestination (.unknownSubscription name))
    | .error (.active _) => w.fail i (.illegalState (.subscriptionInUse name))
    | .ok (_, subscriptions) =>
      (w.modifyConnection x.connection fun c => { c with subscriptions := subscriptions }).ask i
        x.connection (.delete x.channel name) none (.unsubscribe s name)

/-! ## Publishing -/

/-- Publishes a message whose turn it is: reads the next number, awaits the outcome if that is
wanted, and sends the message. -/
def publish (w : System) (i : CallId) (s : SessionId) (m : Message) (tracked : Bool) : System :=
  let x := w.session s
  let c := w.connection x.connection
  let (fault, faults) := takeFault .nextTag (some x.channel) c.faults
  let tag := (fault.bind (·.tag)).getD (c.broker.nextTag x.channel)
  let w := w.modifyConnection x.connection fun c => { c with faults := faults }
  -- The message is awaited before it is sent, so that no report on it can come too early.
  let w :=
    if tracked then w.modifySession s fun x => { x with pending := x.pending.track tag m } else w
  w.ask i x.connection (.publish x.channel m) none (.publish s tag tracked)

/-- Sends a message: it waits for its turn, unless no other message is being published. -/
def send (w : System) (i : CallId) (s : SessionId) (m : Message) : System :=
  let x := w.session s
  if x.closed then w.fail i (.closed .session)
  else
    -- Whether the outcome is awaited depends on the listener now, not when the turn comes.
    let tracked := x.listener.isSome
    let w := w.modifySession s fun x => { x with turns := x.turns ++ [i] }
    if x.turns.isEmpty then w.publish i s m tracked else w.setCall i (.turn s m tracked)

/-- Ends the publishing of a message, and with it the call's turn. -/
def endPublish (w : System) (i : CallId) (s : SessionId) (tag : Nat) (tracked : Bool)
    (result : Except TransportFailure Unit) : System :=
  let w := w.modifySession s fun x => { x with turns := x.turns.erase i }
  match result with
  | .ok () => w.finish i (.ok .unit)
  | .error e =>
    let w :=
      if tracked then w.modifySession s fun x => { x with pending := x.pending.discard tag } else w
    w.fail i (.transport e)

/-! ## Waiting for delivery -/

/-- What waiting for a consumer to receive comes to, unless it goes on: it ends when the session no
longer pauses, and fails if nobody is left to resume it. -/
def resumption (w : System) (c : ConsumerId) : Option Outcome :=
  match w.deliveryOf c with
  | .paused =>
    if w.sessionAlive (w.consumer c).session then none else some (.error (.closed .consumer))
  | .running =>
    if (w.consumer c).closed then some (.error (.closed .consumer)) else some (.ok .unit)
  | .closed => some (.error (.closed .consumer))

def awaitResume (w : System) (i : CallId) (c : ConsumerId) : System :=
  match w.resumption c with
  | some outcome => w.finish i outcome
  | none => w.setCall i (.resumption c)

/-! ## Starting and resuming -/

/-- Runs a new call to the first point at which it waits. -/
def begin (w : System) (i : CallId) : Call → System
  | .createSession c transacted mode via => w.createSession i c transacted mode via
  | .close c => w.closeConnection i c
  | .closeSession s => w.closeSession i s
  | .subscribe s d name => w.subscribe i s d name
  | .unsubscribe s name => w.unsubscribe i s name
  | .send s m => w.send i s m
  | .awaitResume c => w.awaitResume i c

/-- Starts a call. -/
def call (w : System) (x : Call) : CallId × System :=
  let i := w.calls.length
  (i, begin { w with calls := w.calls ++ [{ call := x }] } i x)

/-- Goes on with the answer to a request. -/
def resolve (w : System) (i : CallId) (e : Exchange) (reply : Reply) : System :=
  let c := e.connection
  match e.goal with
  | .openSession transacted mode =>
    match reply with
    | .opened channel => w.openSession i c channel transacted mode
    | .failed f => w.fail i (.transport f)
    | .done => w.fail i (.transport .alreadyClosed)
  | .discardSession s consumers =>
    match w.sessionShut s consumers reply with
    | (.ok (), w) => w.fail i (.closed .connection)
    | (.error f, w) =>
      (w.log (.sessionDiscarded (w.numberOf s) (.transport f))).fail i (.closed .connection)
  | .closeSession s consumers =>
    match w.sessionShut s consumers reply with
    | (.ok (), w) => w.finish i (.ok .unit)
    | (.error f, w) => w.fail i (.transport f)
  | .closeNext s consumers rest failure =>
    match w.sessionShut s consumers reply with
    | (.ok (), w) => w.closeSessions i c failure rest
    | (.error f, w) =>
      let (failure, w) := w.noteFailure s failure f
      w.closeSessions i c failure rest
  | .closeBroker failure =>
    let (closed, w) := w.normalizeClose reply.result
    w.concludeClose i (closed.mapError .transport) failure
  | .publish s tag tracked => w.endPublish i s tag tracked reply.result
  | .retarget s consumer name claim =>
    match reply.result with
    | .ok () =>
      -- From here on the subscription is gone at the broker, whatever comes of the declaration.
      w.ask i c (.declare (w.session s).channel (w.destinationOf consumer).name name) none
        (.declare s consumer name claim)
    | .error f => (w.abandonName c name consumer claim).fail i (.transport f)
  | .declare s consumer name claim =>
    match reply.result with
    | .ok () =>
      match w.adopt s consumer with
      | (.ok (), w) => w.finish i (.ok (.consumer consumer))
      | (.error e, w) => w.fail i e
    | .error f => (w.abandonName c name consumer claim).fail i (.transport f)
  | .unsubscribe s name =>
    match reply.result with
    | .ok () => (w.log (.unsubscribed (w.numberOf s) name)).finish i (.ok .unit)
    | .error f => w.fail i (.transport f)

/-- Gives up a broker close that takes too long. -/
def giveUp (w : System) (i : CallId) (e : Exchange) : System :=
  let timeout := (w.connection e.connection).timeout
  let failure := match e.goal with
    | .closeBroker failure => failure
    | _ => none
  (w.log (.brokerCloseTimedOut (timeout.millis % (1 <<< 64)))).concludeClose i
    (.error (.closeTimeout timeout)) failure

/-- Takes an exchange one stage further, if it is time; one that is done in time is not given up. -/
def advance? (w : System) (i : CallId) (e : Exchange) : Option System :=
  -- The answer is looked at before the limit.
  if e.wake ≤ w.now then
    match e.stage with
    | .before (some f) _ => some (w.resolve i e (.failed f))
    | .before none after =>
      let (reply, broker) := (w.connection e.connection).broker.perform e.request
      let w := w.modifyConnection e.connection fun x => { x with broker := broker }
      some (w.setCall i (.exchange
        { e with stage := .answered reply, wake := w.now + broker.lag reply + after }))
    | .answered reply => some (w.resolve i e reply)
  else match e.limit with
    | some limit => if limit ≤ w.now then some (w.giveUp i e) else none
    | none => none

/-- Runs a call on, if what it waits for has come. -/
def resume? (w : System) (i : CallId) : Option System :=
  match w.progress? i with
  | some (.turn s m tracked) =>
    if (w.session s).turns.head? = some i then some (w.publish i s m tracked) else none
  | some (.exchange e) => w.advance? i e
  | some (.resumption c) => (w.resumption c).map (w.finish i)
  | _ => none

/-- Whether a call has ended. -/
def hasEnded (w : System) (i : CallId) : Bool :=
  match w.progress? i with
  | some (.ended _) => true
  | _ => false

/-- Takes the outcome of a call that has ended, once. A session that it gives is held by the program
from then on. -/
def take? (w : System) (i : CallId) : Option (Outcome × System) :=
  match w.calls[i]? with
  | some { progress := .ended outcome, taken := false, .. } =>
    let w := { w with calls := w.calls.modify i fun t => { t with taken := true } }
    match outcome with
    | .ok (.session s) => some (outcome, w.modifySession s fun x => { x with held := true })
    | _ => some (outcome, w)
  | _ => none

end System

end BrokerClient
