import BrokerClient.Client.Schedule
import BrokerClient.Script.Step

/-!
# Running scripts

The state of a script: the client on its schedule, and what each handle stands for. A step is taken
if its handles stand for something; after it, unless it is held, everything that can go on does, and
then the script sees what it was told.

A job is a call of the client by the names that the script has. It is run to its end, or started as
a task whose outcome is asked for later; a wait that cannot end by itself is given up. Sessions and
consumers get a handle when the script sees them for the first time. Dropping a handle lets go of
what it stood for, and the client learns that its program holds it no longer.
-/

namespace BrokerClient.Script

/-- A script under way. Connections need no table, for a script sees all of them. -/
structure Bench where
  schedule : Schedule := { system := {} }
  factories : List Factory := []
  /-- Sessions in the order in which the script took them. -/
  sessions : List SessionId := []
  /-- Consumers in the order in which the script saw them, each once. -/
  consumers : List ConsumerId := []
  /-- Claims on subscriptions; one that was taken back is gone. -/
  claims : List (Option Claim) := []
  /-- Started jobs; one that was joined is gone. -/
  tasks : List (Option CallId) := []
  /-- How many of the notices the script has taken. -/
  heard : Nat := 0
  deriving Inhabited

namespace Bench

/-- The first state: one factory with the standard options. -/
def start : Bench :=
  let (registry, w) := System.createRegistry {}
  { schedule := { system := w }, factories := [{ registry }] }

def system (x : Bench) : System := x.schedule.system

def withSystem (x : Bench) (w : System) : Bench :=
  { x with schedule := { x.schedule with system := w } }

/-! ## Handles -/

/-- A connection that exists, though the script may have dropped it. -/
def known? (x : Bench) (h : Handle) : Option ConnectionId :=
  if h < x.system.connections.length then some h else none

/-- A connection that the script holds. -/
def connection? (x : Bench) (h : Handle) : Option ConnectionId :=
  if x.system.holdsConnection h then some h else none

/-- A session that the script holds. -/
def session? (x : Bench) (h : Handle) : Option SessionId :=
  x.sessions[h]?.filter x.system.holdsSession

def factory? (x : Bench) (h : Handle) : Option Factory := x.factories[h]?

def consumer? (x : Bench) (h : Handle) : Option ConsumerId := x.consumers[h]?

/-- The handle of a consumer, a new one if the script has not seen it before. -/
def see (x : Bench) (c : ConsumerId) : Handle × Bench :=
  match x.consumers.idxOf? c with
  | some h => (h, x)
  | none => (x.consumers.length, { x with consumers := x.consumers ++ [c] })

def see? (x : Bench) : Option ConsumerId → Option Handle × Bench
  | none => (none, x)
  | some c =>
    let (h, x) := x.see c
    (some h, x)

/-- Takes a step that needs something, if its handle stands for it. -/
def withHandle {α : Type} (x : Bench) (a : Option α) (f : α → Result × Bench) : Result × Bench :=
  match a with
  | some a => f a
  | none => (.refused .noSuchHandle, x)

/-! ## What is given -/

/-- What the outcome of a call is to the script. -/
def outcome (x : Bench) : Outcome → Result × Bench
  | .ok .unit => (.unit, x)
  | .ok (.session s) => (.handle x.sessions.length, { x with sessions := x.sessions ++ [s] })
  | .ok (.consumer c) =>
    let (h, x) := x.see c
    (.handle h, x)
  | .error e => (.failed e, x)

/-- What the answer to an operation is to the script. -/
def answer (x : Bench) : Answer → Result × Bench
  | .unit => (.unit, x)
  | .flag b => (.flag b, x)
  | .flags bs => (.flags bs, x)
  | .text s => (.text s, x)
  | .registry r => (.handle r, x)
  | .connection c => (.handle c, x)
  | .consumer c =>
    let (h, x) := x.see c
    (.handle h, x)
  | .claimed claim =>
    let (previous, x) := x.see? claim.previous?
    (.claimed x.claims.length claim previous, { x with claims := x.claims ++ [some claim] })
  | .heldBy holder =>
    let (h, x) := x.see holder
    (.heldBy h, x)
  | .kept .unknown => (.unknown, x)
  | .kept (.active holder) =>
    let (h, x) := x.see holder
    (.active h, x)
  | .failed e => (.failed e, x)

/-- Does an operation. -/
def operate (x : Bench) (o : Operation) : Result × Bench :=
  let (a, w) := x.system.operate o
  (x.withSystem w).answer a

/-! ## Jobs -/

/-- The call that a job means, or why it means none: its handle is looked at first. -/
def callOf (x : Bench) : Job → Except Refusal Call
  | .createSession h transacted mode via =>
    match x.connection? h, mode.resolve with
    | none, _ => .error .noSuchHandle
    | some _, .error n => .error (.noMode n)
    | some c, .ok m => .ok (.createSession c transacted m via)
  | .close h => on (x.connection? h) .close
  | .closeSession h => on (x.session? h) .closeSession
  | .subscribe h d name => on (x.session? h) (.subscribe · d name)
  | .unsubscribe h name => on (x.session? h) (.unsubscribe · name)
  | .send h m =>
    match x.session? h, m with
    | none, _ => .error .noSuchHandle
    | some _, none => .error .noMessage
    | some s, some m => .ok (.send s m)
  | .awaitResume h => on (x.consumer? h) .awaitResume
where
  on (thing : Option Nat) (f : Nat → Call) : Except Refusal Call :=
    match thing with
    | some a => .ok (f a)
    | none => .error .noSuchHandle

/-- Runs a call to its end, time passing as it has to; only waiting for delivery is given up. -/
def runCall (x : Bench) (c : Call) : Result × Bench :=
  match c with
  | .awaitResume consumer =>
    match x.system.resumption consumer with
    | some o => x.outcome o
    | none => (.pending, x)
  | c =>
    let (o, schedule) := x.schedule.perform c
    let x := { x with schedule := schedule }
    match o with
    | some o => x.outcome o
    | none => (.pending, x)

def spawnCall (x : Bench) (c : Call) : Result × Bench :=
  let (i, schedule) := x.schedule.start c
  (.task x.tasks.length, { x with schedule := schedule, tasks := x.tasks ++ [some i] })

/-- Takes what a started job gave, once. -/
def join (x : Bench) (h : Handle) : Result × Bench :=
  match x.tasks[h]? with
  | some (some i) =>
    match x.system.take? i with
    | some (o, w) => { x.withSystem w with tasks := x.tasks.set h none }.outcome o
    | none => (.pending, x)
  | _ => (.refused .noSuchHandle, x)

/-! ## Factories -/

/-- Adds a factory; without a factory to share the registry of, it has one of its own. -/
def addFactory (x : Bench) (options : Options) : Option Factory → Result × Bench
  | some shared => add x ⟨options, shared.registry⟩
  | none =>
    let (registry, w) := x.system.createRegistry
    add (x.withSystem w) ⟨options, registry⟩
where
  add (x : Bench) (f : Factory) : Result × Bench :=
    (.handle x.factories.length, { x with factories := x.factories ++ [f] })

def createFactory (x : Bench) (options : Option String) (timeout : Option Span)
    (share : Option Handle) : Result × Bench :=
  match options.mapM Options.parse with
  | .error f => (.failed (.config f), x)
  | .ok options =>
    let options := options.getD .standard
    let options := match timeout with
      | none => options
      | some t => options.withTimeout t
    match share with
    | none => x.addFactory options none
    | some h => x.withHandle (x.factory? h) fun f => x.addFactory options (some f)

def viewFactory (x : Bench) (f : Factory) (name : String) : FactoryView :=
  let r := x.system.registry f.registry
  { timeoutMillis := f.options.terminationMillis, identifiers := r.size, holds := r.contains name }

/-! ## Steps -/

def viewSubscription (x : Bench) (c : ConnectionId) (name : String) : SubscriptionView :=
  let s := (x.system.connection c).subscriptions
  { size := s.size, isEmpty := s.isEmpty, active := x.system.subscriptionActive c name }

def getSubscription (x : Bench) (c : ConnectionId) (name : String) : Result × Bench :=
  match x.see? ((x.system.connection c).subscriptions.get? name) with
  | (some h, x) => (.handle h, x)
  | (none, x) => (.noHandle, x)

/-- Takes a claim back; it can be taken back once. -/
def abandon (x : Bench) (c : ConnectionId) (name : String) (consumer : ConsumerId) (h : Handle) :
    Result × Bench :=
  x.withHandle (x.claims[h]?.bind id) fun claim =>
    { x with claims := x.claims.set h none }.operate (.abandonSubscription c name consumer claim)

/-- Does an operation on a connection that the script holds. -/
def onConnection (x : Bench) (h : Handle) (o : ConnectionId → Operation) : Result × Bench :=
  x.withHandle (x.connection? h) fun c => x.operate (o c)

/-- Does an operation on a session that the script holds. -/
def onSession (x : Bench) (h : Handle) (o : SessionId → Operation) : Result × Bench :=
  x.withHandle (x.session? h) fun s => x.operate (o s)

/-- Takes a step, so far as it needs nothing else to go on. -/
def take (x : Bench) : Step → Result × Bench
  | .run job =>
    match x.callOf job with
    | .ok c => x.runCall c
    | .error why => (.refused why, x)
  | .spawn job =>
    match x.callOf job with
    | .ok c => x.spawnCall c
    | .error why => (.refused why, x)
  | .join t => x.join t
  | .advance ms => (.unit, { x with schedule := x.schedule.pass ms })
  | .createFactory options timeout share => x.createFactory options timeout share
  | .viewFactory h name => x.withHandle (x.factory? h) fun f => (.factory (x.viewFactory f name), x)
  | .claimIdentifier h id =>
    x.withHandle (x.factory? h) fun f => x.operate (.claimIdentifier f.registry id)
  | .releaseIdentifier h id =>
    x.withHandle (x.factory? h) fun f => x.operate (.releaseIdentifier f.registry id)
  | .connect h timeout plan =>
    x.withHandle (x.factory? h) fun f => match timeout with
      | none => x.operate (.connectFrom f plan)
      | some t => x.operate (.connect f.registry t plan)
  | .inject h fault => x.withHandle (x.known? h) fun c => x.operate (.inject c fault)
  | .refuse h refusing => x.withHandle (x.known? h) fun c => x.operate (.refuse c refusing)
  | .report h channel events =>
    x.withHandle (x.known? h) fun c => x.operate (.report c channel events)
  | .viewChannel h channel =>
    x.withHandle (x.known? h) fun c =>
      (.channel ((x.system.connection c).broker.channelOrNew channel), x)
  | .dropConnection h => x.onConnection h .dropConnection
  | .dropSession h => x.onSession h .dropSession
  | .clientId h => x.onConnection h .clientId
  | .setClientId h id => x.onConnection h (.setClientId · id)
  | .metadata h => x.onConnection h .metadata
  | .exceptionListener h => x.onConnection h .exceptionListener
  | .setExceptionListener h label => x.onConnection h (.setExceptionListener · label)
  | .notify h e => x.onConnection h (.notify · e)
  | .start h => x.onConnection h .start
  | .stop h => x.onConnection h .stop
  | .viewConnection h =>
    x.withHandle (x.connection? h) fun c => (.connection (x.system.connectionView c), x)
  | .showConnection h =>
    x.withHandle (x.connection? h) fun c => (.text (x.system.connectionView c).label, x)
  | .createConnectionConsumer h durable => x.onConnection h (.createConnectionConsumer · durable)
  | .createConsumer h d => x.onSession h (.createConsumer · d)
  | .setConfirmListener h l => x.onSession h (.setConfirmListener · l)
  | .viewSession h => x.withHandle (x.session? h) fun s => (.session (x.system.sessionView s), x)
  | .showSession h =>
    x.withHandle (x.session? h) fun s => (.text (x.system.sessionView s).label, x)
  | .viewConsumer h =>
    x.withHandle (x.consumer? h) fun c => (.consumer (x.system.consumerView c), x)
  | .closeConsumer h => x.withHandle (x.consumer? h) fun c => x.operate (.closeConsumer c)
  | .sameConsumer h other =>
    x.withHandle (x.consumer? h) fun c => x.withHandle (x.consumer? other) fun d =>
      (.flag (c = d), x)
  | .viewSubscription h name =>
    x.withHandle (x.connection? h) fun c => (.subscription (x.viewSubscription c name), x)
  | .getSubscription h name => x.withHandle (x.connection? h) fun c => x.getSubscription c name
  | .claimSubscription h name consumer =>
    x.withHandle (x.connection? h) fun c => x.withHandle (x.consumer? consumer) fun d =>
      x.operate (.claimSubscription c name d)
  | .abandonSubscription h name consumer claim =>
    x.withHandle (x.connection? h) fun c => x.withHandle (x.consumer? consumer) fun d =>
      x.abandon c name d claim
  | .removeSubscription h name => x.onConnection h (.removeSubscription · name)

/-- Takes what was told since it was taken last, the oldest first. -/
def hear (x : Bench) : List Notice × Bench :=
  let told := x.system.notices.length
  ((x.system.notices.take (told - x.heard)).reverse, { x with heard := told })

/-- Takes a step; unless it is held, everything that can go on does so after it. -/
def step (x : Bench) (s : Step) (held : Bool) : Result × List Notice × Bench :=
  let (r, x) := x.take s
  let x := if held then x else { x with schedule := x.schedule.settle }
  let (notices, x) := x.hear
  (r, notices, x)

/-! ## What the script holds -/

/-- The connections in order, without those that the script dropped. -/
def connectionViews (x : Bench) : List (Option ConnectionView) :=
  (List.range x.system.connections.length).map fun h =>
    (x.connection? h).map x.system.connectionView

def sessionViews (x : Bench) : List (Option SessionView) :=
  (List.range x.sessions.length).map fun h => (x.session? h).map x.system.sessionView

def consumerViews (x : Bench) : List ConsumerView := x.consumers.map x.system.consumerView

/-- Whether each started job has ended, without those that were joined. -/
def taskStates (x : Bench) : List (Option Bool) :=
  x.tasks.map fun t => t.map x.system.hasEnded

end Bench

end BrokerClient.Script
