import BrokerClient.Proofs.Stretch

/-!
# What operations and dispatchers come to

Most operations concern identifiers, exception listeners or the log, which few properties read.
`System.Aside` says that one state is another one but for these, and each lemma here gives an
operation, or a stretch of a dispatcher, up to that: the lists of the state that it changes, and
how.

The lemmas are of two kinds. Those that end in `_aside` say that nothing but what is beside the
point changes. Those that end in `_effect` say what the operation does to the lists that matter,
with one case for each way in which it can go: `start_effect` and `stop_effect` turn the sessions of
a connection, `createConsumer_effect` adds a consumer or refuses one, `dispatch?_cases` takes a
report or ends.

They come together in `operate_change`: whatever the operation, a client is first changed in one of
the few ways that `System.Change` lists, and then there are only updates aside. What operations
preserve is proved by cases on the change, in the modules to come, and none of them has to open an
operation again.

For dispatchers there is `Framed` besides. A listener may do what it likes with its own session, and
that is all that may change of the client while reports are handed over.
-/

namespace BrokerClient

/-- A connection without its identifier and its exception listener. -/
def Connection.bare (x : Connection) : Connection :=
  { x with identifierOpen := true, clientId := none, exceptionListener := none }

/-- A session with another delivery state; nothing turns one that is closed. -/
def Session.turn (next : Delivery) (x : Session) : Session :=
  { x with delivery := if x.delivery = .closed then .closed else next }

/-- A session whose delivery is closed does not turn, and neither does one that delivers so already.
-/
theorem Session.turn_eq_self {next : Delivery} {x : Session}
    (h : x.delivery = .closed ∨ x.delivery = next) : x.turn next = x := by
  unfold turn
  rcases h with h | h
  · rw [if_pos h, ← h]
  · by_cases hc : x.delivery = .closed
    · rw [if_pos hc, ← hc]
    · rw [if_neg hc, ← h]

/-- A session without what sends and confirms work on. -/
abbrev Session.frame (x : Session) : Session :=
  { x with pending := {}, listener := none, dispatcher := .running, turns := [] }

/-- A broker that puts reports on the stream of a channel. -/
def Broker.reported (b : Broker) (k : Nat) (es : List ConfirmEvent) : Broker :=
  es.foldl (fun b e => b.modifyChannel k fun c => (c.report e).2) b

/-- A report changes the channel that it is about, and whether anybody hears it does not matter for
that. -/
theorem Broker.report_eq (b : Broker) (k : Nat) (e : ConfirmEvent) :
    (b.report k e).2 = b.modifyChannel k fun c => (c.report e).2 := by
  unfold report modifyChannel
  cases hk : b.channels[k]? with
  | none => simp [List.modify_eq_self (List.getElem?_eq_none_iff.1 hk)]
  | some c => simp [modify_eq_set_of hk]

/-- The channel that a broker opens next. -/
def Broker.nextChannel (b : Broker) : Channel where
  index := b.channels.length
  failsClose := b.plan.failing.contains b.channels.length

/-- A broker opens a channel, or refuses and stays as it is. -/
theorem Broker.createChannel_cases (b : Broker) :
    (∃ f, b.createChannel = (.failed f, b)) ∨ b.createChannel =
      (.opened b.channels.length, { b with channels := b.channels ++ [b.nextChannel] }) := by
  unfold createChannel
  split
  · exact .inl ⟨_, rfl⟩
  · split
    · exact .inl ⟨_, rfl⟩
    · exact .inr rfl

/-- Only a channel that was opened is on its way for a while. -/
theorem Broker.lag_eq_zero (b : Broker) {reply : Reply} (h : ∀ k, reply ≠ .opened k) :
    b.lag reply = 0 := by
  cases reply with
  | opened k => exact absurd rfl (h k)
  | done => rfl
  | failed f => rfl

/-- Only a request to open a channel opens one. -/
theorem Broker.perform_ne_opened (b : Broker) {r : Request} (hr : r ≠ .createChannel) (k : Nat) :
    (b.perform r).1 ≠ .opened k := by
  have hresult : ∀ x, Reply.ofResult x ≠ .opened k := by
    intro x hx
    cases x <;> cases hx
  have hon : ∀ n f, (b.onChannel n f).1 ≠ .opened k := by
    intro n f
    unfold onChannel
    split
    · exact Reply.noConfusion
    · exact hresult _
  cases r with
  | createChannel => exact absurd rfl hr
  | close => exact hresult _
  | publish n m => exact hon n _
  | declare n topic name => exact hon n _
  | delete n name => exact hon n _
  | closeChannel n => exact hon n _

/-- The outcome that a notice tells a confirm listener of a session. -/
def Notice.confirmation? : Notice → Option (SessionId × Confirmation)
  | .confirmed s _ x _ => some (s, x)
  | _ => none

namespace System

/-- The outcomes that confirm listeners were told, the newest first. -/
def confirmations (w : System) : List (SessionId × Confirmation) :=
  w.notices.filterMap Notice.confirmation?

/-- Logging calls no listener. -/
@[simp] theorem confirmations_log (w : System) (e : LogEvent) :
    (w.log e).confirmations = w.confirmations := rfl

/-- Nor does anything that only logs. -/
theorem Quiet.confirmations {w v : System} (h : Quiet w v) :
    v.confirmations = w.confirmations := by
  obtain ⟨es, hes⟩ := h.notices
  have hnil : (es.map Notice.log).filterMap Notice.confirmation? = [] := by
    rw [List.filterMap_map]
    simp [Function.comp_def, Notice.confirmation?]
  rw [System.confirmations, hes, List.filterMap_append, hnil, List.nil_append,
    System.confirmations]

/-- `v` is `w` but for identifiers, exception listeners and what was told of them. -/
structure Aside (w v : System) : Prop where
  now : v.now = w.now
  connections : v.connections.map Connection.bare = w.connections.map Connection.bare
  sessions : v.sessions = w.sessions
  consumers : v.consumers = w.consumers
  calls : v.calls = w.calls
  confirmations : v.confirmations = w.confirmations

namespace Aside

variable {w v u : System}

theorem refl (w : System) : Aside w w := ⟨rfl, rfl, rfl, rfl, rfl, rfl⟩

theorem trans (h : Aside w v) (h' : Aside v u) : Aside w u :=
  ⟨h'.now.trans h.now, h'.connections.trans h.connections, h'.sessions.trans h.sessions,
    h'.consumers.trans h.consumers, h'.calls.trans h.calls,
    h'.confirmations.trans h.confirmations⟩

theorem log (w : System) (e : LogEvent) : Aside w (w.log e) := ⟨rfl, rfl, rfl, rfl, rfl, rfl⟩

/-- Telling the exception listener is one: it hears of failures and not of messages. -/
theorem tellFailed (w : System) (label : String) (e : Error) :
    Aside w (w.tell (.failed label e)) := ⟨rfl, rfl, rfl, rfl, rfl, rfl⟩

theorem modifyRegistry (w : System) (r : RegistryId) (f : Identifiers → Identifiers) :
    Aside w (w.modifyRegistry r f) := ⟨rfl, rfl, rfl, rfl, rfl, rfl⟩

/-- An update of what is bare of a connection alone. -/
theorem modifyConnection (w : System) (c : ConnectionId) {f : Connection → Connection}
    (hf : ∀ x, (f x).bare = x.bare) : Aside w (w.modifyConnection c f) :=
  ⟨rfl, map_modify_eq hf w.connections c, rfl, rfl, rfl, rfl⟩

theorem closeIdentifierWindow (w : System) (c : ConnectionId) :
    Aside w (w.closeIdentifierWindow c) :=
  .modifyConnection w c (by intro _; rfl)

/-- The same update of a connection on both sides. -/
theorem congr_modifyConnection (h : Aside w v) (c : ConnectionId) {f : Connection → Connection}
    (hf : ∀ x, (f x).bare = (f x.bare).bare) :
    Aside (w.modifyConnection c f) (v.modifyConnection c f) := by
  have hm : ∀ l : List Connection, (l.modify c f).map Connection.bare =
      (l.map Connection.bare).modify c fun y => (f y).bare := fun l => map_modify_of hf l c
  refine ⟨h.now, ?_, h.sessions, h.consumers, h.calls, h.confirmations⟩
  simp only [modifyConnection_leaves, hm, h.connections]

/-- Each connection is the same but for what an update aside may touch. -/
theorem connection_bare (h : Aside w v) (c : ConnectionId) :
    (v.connection c).bare = (w.connection c).bare :=
  connection_of_map h.connections c

/-- A reading of a connection that its bare part carries. -/
theorem connection_of {α : Type} {g : Connection → α} (hg : ∀ x, g x.bare = g x)
    (h : Aside w v) (c : ConnectionId) : g (v.connection c) = g (w.connection c) := by
  rw [← hg (v.connection c), h.connection_bare, hg]

end Aside

/-! ## Operations on the side -/

/-- An operation that is refused on a closed connection is an update aside if it is one on an open
connection. -/
theorem ifOpen_aside {w v : System} {c : ConnectionId} {f : Answer × System} (h : Aside w v)
    (hf : Aside v f.2) : Aside w (v.ifOpen c f).2 := by
  unfold ifOpen
  split
  · exact h
  · exact h.trans hf

end System

/-- Whether an operation is about identifiers, exception listeners or the log alone. -/
def Operation.isAside : Operation → Bool
  | .createRegistry => true
  | .clientId _ => true
  | .setClientId _ _ => true
  | .metadata _ => true
  | .exceptionListener _ => true
  | .setExceptionListener _ _ => true
  | .notify _ _ => true
  | .createConnectionConsumer _ _ => true
  | .claimIdentifier _ _ => true
  | .releaseIdentifier _ _ => true
  | _ => false

/-- Whether an operation works on the register of names itself, past every session. -/
def Operation.meddles : Operation → Bool
  | .claimSubscription _ _ _ => true
  | .abandonSubscription _ _ _ _ => true
  | .removeSubscription _ _ => true
  | _ => false

namespace System

/-- Setting the identifier is one, however it comes out. -/
theorem setClientId_aside (w : System) (c : ConnectionId) (id : String) :
    Aside w (w.setClientId c id).2 := by
  have hl : Aside w (w.log (.setClientId id)) := .log w _
  unfold setClientId
  simp only
  split
  · exact hl
  split
  · exact hl
  split
  · exact hl
  split
  · exact hl
  · exact (hl.trans (.modifyRegistry _ _ _)).trans (.modifyConnection _ c (by intro _; rfl))

/-- Each operation that is called so is an update aside. -/
theorem operate_aside (w : System) {o : Operation} (h : o.isAside = true) :
    Aside w (w.operate o).2 := by
  cases o with
  | createRegistry => exact ⟨rfl, rfl, rfl, rfl, rfl, rfl⟩
  | clientId c => exact ifOpen_aside (.log w _) (.refl _)
  | setClientId c id => exact setClientId_aside w c id
  | metadata c =>
    exact ifOpen_aside ((Aside.log w _).trans (.closeIdentifierWindow _ c)) (.refl _)
  | exceptionListener c =>
    exact ifOpen_aside ((Aside.log w _).trans (.closeIdentifierWindow _ c)) (.refl _)
  | setExceptionListener c label =>
    exact ifOpen_aside ((Aside.log w _).trans (.closeIdentifierWindow _ c))
      (.modifyConnection _ c (by intro _; rfl))
  | notify c e =>
    simp only [operate, notify]
    split
    · exact .tellFailed w _ _
    · exact .log w _
  | createConnectionConsumer c durable => exact .refl w
  | claimIdentifier r id => exact .modifyRegistry w r _
  | releaseIdentifier r id => exact .modifyRegistry w r _
  | _ => simp [Operation.isAside] at h

/-! ## Starting and stopping -/

/-- Sessions of which those named are turned. -/
def turnAll (next : Delivery) (ss : List SessionId) (l : List Session) : List Session :=
  ss.foldl (fun l s => l.modify s (Session.turn next)) l

/-- A reading of sessions that turning does not change. -/
theorem turnAll_map {α : Type} {g : Session → α} {next : Delivery}
    (h : ∀ x, g (x.turn next) = g x) (ss : List SessionId) (l : List Session) :
    (turnAll next ss l).map g = l.map g := by
  induction ss generalizing l with
  | nil => rfl
  | cons s ss ih =>
    rw [turnAll, List.foldl_cons, ← turnAll, ih]
    exact map_modify_eq h l s

/-- Setting the delivery of a session turns it, and the test for a change can be left out. -/
theorem setDelivery_sessions (w : System) (s : SessionId) (next : Delivery)
    (event : Nat → LogEvent) :
    (w.setDelivery s next event).sessions = w.sessions.modify s (Session.turn next) := by
  have hs : ∀ x, w.sessions[s]? = some x → w.session s = x := by
    intro x hx
    simp [session, hx]
  unfold setDelivery Delivery.change
  by_cases hd : (w.session s).delivery = .closed ∨ (w.session s).delivery = next
  · simp only [hd, if_true]
    refine (modify_eq_self_of fun x hx => ?_).symm
    rw [hs x hx] at hd
    exact x.turn_eq_self hd
  · simp only [hd, if_false, log_leaves, modifySession_leaves]
    refine modify_congr_at fun x hx => ?_
    rw [hs x hx, not_or] at hd
    simp [Session.turn, hd.1]

/-- Setting the delivery of sessions one by one turns them all. -/
theorem foldl_setDelivery_sessions (next : Delivery) (event : Nat → LogEvent) (ss : List SessionId)
    (w : System) : (ss.foldl (fun w s => w.setDelivery s next event) w).sessions =
      turnAll next ss w.sessions := by
  induction ss generalizing w with
  | nil => rfl
  | cons s ss ih => rw [List.foldl_cons, ih, setDelivery_sessions]; rfl

/-- Setting delivery calls no listener. -/
theorem setDelivery_confirmations (w : System) (s : SessionId) (next : Delivery)
    (event : Nat → LogEvent) : (w.setDelivery s next event).confirmations = w.confirmations := by
  unfold setDelivery
  split <;> rfl

theorem foldl_setDelivery_confirmations (next : Delivery) (event : Nat → LogEvent)
    (ss : List SessionId) (w : System) :
    (ss.foldl (fun w s => w.setDelivery s next event) w).confirmations = w.confirmations := by
  induction ss generalizing w with
  | nil => rfl
  | cons s ss ih => rw [List.foldl_cons, ih, setDelivery_confirmations]

/-- A client in which a connection goes over to another phase, and its sessions are turned. -/
def redirect (w : System) (c : ConnectionId) (life : Lifecycle) (next : Delivery) : System :=
  { w.modifyConnection c fun x => { x with life } with
    sessions := turnAll next (w.connection c).sessions w.sessions }

/-- A use of a connection that redirects it if its phase allows that is an update aside otherwise.
Starting and stopping are the two. -/
theorem redirect_effect {can : Lifecycle → Bool} (hcan : can .closed = false) (w : System)
    (c : ConnectionId) (used : LogEvent) (life : Lifecycle) (next : Delivery)
    (turned counted : Nat → LogEvent) :
    let v := (w.log used).closeIdentifierWindow c
    let u := v.modifyConnection c fun x => { x with life }
    let x := v.ifOpen c <| if can (v.connection c).life then
        (.unit, ((u.connection c).sessions.foldl (fun w s => w.setDelivery s next turned) u).log
          (counted (u.connection c).sessions.length))
      else (.unit, v)
    (can (w.connection c).life = false ∧ Aside w x.2) ∨
    (can (w.connection c).life = true ∧ Aside (w.redirect c life next) x.2) := by
  intro v u x
  have hv : Aside w v := (Aside.log w _).trans (.closeIdentifierWindow _ c)
  have hlife : (v.connection c).life = (w.connection c).life :=
    hv.connection_of (g := Connection.life) (fun _ => rfl) c
  have hsessions : (u.connection c).sessions = (w.connection c).sessions :=
    (connection_modifyConnection_of (g := Connection.sessions) (by intro _; rfl) _ c c).trans
      (hv.connection_of (g := Connection.sessions) (fun _ => rfl) c)
  cases hs : can (w.connection c).life with
  | true =>
    have hopen : v.connectionClosed c = false := by
      rw [connectionClosed, hlife]
      cases hw : (w.connection c).life with
      | closed => rw [hw, hcan] at hs; cases hs
      | _ => rfl
    have hm := hv.congr_modifyConnection c (f := fun x => { x with life }) (by intro _; rfl)
    refine .inr ⟨rfl, ?_⟩
    simp only [x, ifOpen, hopen, hlife, hs, if_true, Bool.false_eq_true, if_false, hsessions]
    refine ⟨by simp [redirect, u, v], ?_, ?_, by simp [redirect, u, v], by simp [redirect, u, v],
      ?_⟩
    · simpa [redirect, u] using hm.connections
    · simp [redirect, foldl_setDelivery_sessions, u, v]
    · rw [confirmations_log, foldl_setDelivery_confirmations]
      rfl
  | false =>
    refine .inl ⟨rfl, ifOpen_aside hv ?_⟩
    simp only [hlife, hs]
    exact .refl _

/-- Starting a connection that cannot be started is an update aside; otherwise its phase changes and
its sessions turn. -/
theorem start_effect (w : System) (c : ConnectionId) :
    ((w.connection c).life.canStart = false ∧ Aside w (w.start c).2) ∨
    ((w.connection c).life.canStart = true ∧
      Aside (w.redirect c .started .running) (w.start c).2) :=
  redirect_effect rfl w c .start .started .running .resumed .started

theorem stop_effect (w : System) (c : ConnectionId) :
    ((w.connection c).life.canStop = false ∧ Aside w (w.stop c).2) ∨
    ((w.connection c).life.canStop = true ∧
      Aside (w.redirect c .stopped .paused) (w.stop c).2) :=
  redirect_effect rfl w c .stop .stopped .paused .paused .stopped

/-! ## Consumers -/

/-- A client with one consumer more. -/
def addConsumer (w : System) (y : Consumer) : System := { w with consumers := w.consumers ++ [y] }

/-- A closed session gets no consumer; an open one gets a new one, which it takes. -/
theorem createConsumer_effect (w : System) (s : SessionId) (d : Destination) :
    ((w.session s).closed = true ∧ (w.createConsumer s d).2 = w) ∨
    ((w.session s).closed = false ∧ (w.createConsumer s d).2 =
      ((w.addConsumer { session := s, destination := d }).adopt s w.consumers.length).2) := by
  cases hopen : (w.session s).closed with
  | true => exact .inl ⟨rfl, by simp only [createConsumer, hopen, if_true]⟩
  | false =>
    have hsame : ∀ l, (({ w with consumers := l } : System).session s).closed = false :=
      fun _ => hopen
    refine .inr ⟨rfl, ?_⟩
    simp only [createConsumer, addConsumer, adopt, hopen, hsame, Bool.false_eq_true, if_false]

/-! ## Reports -/

/-- Several reports are one change of the broker. -/
theorem reportAll_eq (w : System) (c : ConnectionId) (k : Nat) (es : List ConfirmEvent) :
    (w.reportAll c k es).2 =
      w.modifyConnection c fun x => { x with broker := x.broker.reported k es } := by
  induction es generalizing w with
  | nil =>
    have hm := modify_eq_self_of (l := w.connections) (i := c)
      (f := fun x => { x with broker := x.broker.reported k [] }) fun _ _ => rfl
    rw [modifyConnection, hm]
    rfl
  | cons e es ih =>
    have hm : (w.modifyConnection c fun x =>
        { x with broker := ((w.connection c).broker.report k e).2 }) =
        w.modifyConnection c fun x => { x with broker := (x.broker.report k e).2 } :=
      modifyConnection_congr rfl
    rw [reportAll]
    simp only [ih, hm]
    simp only [modifyConnection, List.modify_modify_eq, Broker.report_eq]
    rfl

/-! ## All operations -/

/-- What an operation changes of a client, but for updates aside. An operation that is refused
changes nothing, and neither does one that stands aside. -/
inductive Change (w : System) : Operation → System → Prop
  | none {o : Operation} : Change w o w
  | connect {o : Operation} (r : RegistryId) (timeout : Span) (plan : BrokerPlan) :
    Change w o { w with
      connections := w.connections ++ [{ registry := r, timeout, broker := { plan } }] }
  | dropConnection (c : ConnectionId) :
    Change w (.dropConnection c) (w.modifyConnection c fun x => { x with held := false })
  | dropSession (s : SessionId) :
    Change w (.dropSession s) (w.modifySession s fun x => { x with held := false })
  /-- A connection that is not closed is started or stopped. -/
  | redirect {o : Operation} {c : ConnectionId} {life : Lifecycle} {next : Delivery}
      (ho : o = .start c ∨ o = .stop c) (hopen : (w.connection c).life ≠ .closed)
      (hlife : life = .started ∧ next = .running ∨ life = .stopped ∧ next = .paused) :
    Change w o (w.redirect c life next)
  | addConsumer {s : SessionId} (hopen : (w.session s).closed = false) (d : Destination) :
    Change w (.createConsumer s d)
      ((w.addConsumer { session := s, destination := d }).adopt s w.consumers.length).2
  | listen {s : SessionId} (hopen : (w.session s).closed = false) (l : Option Listener) :
    Change w (.setConfirmListener s l) (w.modifySession s fun x => { x with listener := l })
  | closeConsumer (x : ConsumerId) : Change w (.closeConsumer x) (w.closeConsumer x)
  | rename {o : Operation} (ho : o.meddles = true) (c : ConnectionId)
      (f : Subscriptions → Subscriptions) :
    Change w o (w.modifyConnection c fun x => { x with subscriptions := f x.subscriptions })
  | inject (c : ConnectionId) (fault : Fault) :
    Change w (.inject c fault)
      (w.modifyConnection c fun x => { x with faults := x.faults ++ [fault] })
  | refuse (c : ConnectionId) (refusing : Bool) :
    Change w (.refuse c refusing)
      (w.modifyConnection c fun x => { x with broker := { x.broker with refusing } })
  | report (c : ConnectionId) (k : Nat) (es : List ConfirmEvent) :
    Change w (.report c k es)
      (w.modifyConnection c fun x => { x with broker := x.broker.reported k es })

/-- Every operation makes one change, and updates aside. What is proved of each kind of change
holds of all operations. -/
theorem operate_change (w : System) (o : Operation) :
    ∃ u, Change w o u ∧ Aside u (w.operate o).2 := by
  cases o with
  | connect r timeout plan => exact ⟨_, .connect r timeout plan, .refl _⟩
  | connectFrom f plan => exact ⟨_, .connect _ _ plan, .log _ _⟩
  | dropConnection c => exact ⟨_, .dropConnection c, .refl _⟩
  | dropSession s => exact ⟨_, .dropSession s, .refl _⟩
  | start c =>
    rcases start_effect w c with ⟨_, he⟩ | ⟨hcan, he⟩
    · exact ⟨w, .none, he⟩
    · refine ⟨_, .redirect (.inl rfl) (fun hclosed => ?_) (.inl ⟨rfl, rfl⟩), he⟩
      rw [hclosed] at hcan
      cases hcan
  | stop c =>
    rcases stop_effect w c with ⟨_, he⟩ | ⟨hcan, he⟩
    · exact ⟨w, .none, he⟩
    · refine ⟨_, .redirect (.inr rfl) (fun hclosed => ?_) (.inr ⟨rfl, rfl⟩), he⟩
      rw [hclosed] at hcan
      cases hcan
  | createConsumer s d =>
    rw [operate]
    rcases createConsumer_effect w s d with ⟨_, he⟩ | ⟨hopen, he⟩ <;> rw [he]
    · exact ⟨w, .none, .refl w⟩
    · exact ⟨_, .addConsumer hopen d, .refl _⟩
  | setConfirmListener s l =>
    simp only [operate, setConfirmListener]
    split
    · exact ⟨w, .none, .refl w⟩
    next hopen => exact ⟨_, .listen (by simpa using hopen) l, .refl _⟩
  | closeConsumer x => exact ⟨_, .closeConsumer x, .refl _⟩
  | claimSubscription c name x =>
    simp only [operate, claimSubscription]
    split
    · exact ⟨w, .none, .refl w⟩
    next hclaim =>
      unfold claimName at hclaim
      split at hclaim <;> cases hclaim
      exact ⟨_, .rename rfl c fun _ => _, .log _ _⟩
  | abandonSubscription c name x claim =>
    exact ⟨_, .rename rfl c fun r => r.abandon name x claim, .refl _⟩
  | removeSubscription c name =>
    simp only [operate, removeSubscription]
    split
    · exact ⟨w, .none, .refl w⟩
    · exact ⟨_, .rename rfl c fun _ => _, .refl _⟩
  | inject c fault => exact ⟨_, .inject c fault, .refl _⟩
  | refuse c refusing => exact ⟨_, .refuse c refusing, .refl _⟩
  | report c k es =>
    rw [operate, reportAll_eq]
    exact ⟨_, .report c k es, .refl _⟩
  | _ => exact ⟨w, .none, operate_aside w rfl⟩

/-! ## Dispatchers -/

/-- `v` is `w` but for what was told, and for what sends and confirms work on. -/
structure Framed (w v : System) : Prop where
  now : v.now = w.now
  registries : v.registries = w.registries
  connections : v.connections = w.connections
  sessions : v.sessions.map Session.frame = w.sessions.map Session.frame
  consumers : v.consumers = w.consumers
  calls : v.calls = w.calls

namespace Framed

variable {w v u : System}

theorem refl (w : System) : Framed w w := ⟨rfl, rfl, rfl, rfl, rfl, rfl⟩

theorem trans (h : Framed w v) (h' : Framed v u) : Framed w u :=
  ⟨h'.now.trans h.now, h'.registries.trans h.registries,
    h'.connections.trans h.connections, h'.sessions.trans h.sessions,
    h'.consumers.trans h.consumers, h'.calls.trans h.calls⟩

theorem tell (w : System) (n : Notice) : Framed w (w.tell n) := ⟨rfl, rfl, rfl, rfl, rfl, rfl⟩

theorem modifySession (w : System) (s : SessionId) {f : Session → Session}
    (hf : ∀ x, (f x).frame = x.frame) : Framed w (w.modifySession s f) :=
  ⟨rfl, rfl, rfl, map_modify_eq hf w.sessions s, rfl, rfl⟩

end Framed

/-- Whatever a listener does when it is called, it does to the listener of its session. -/
theorem framed_react (w : System) (s : SessionId) (l : Listener) : Framed w (w.react s l) := by
  unfold react
  split
  · split
    · exact .refl w
    · exact .modifySession w s (by intro _; rfl)
    · exact .modifySession w s (by intro _; rfl)
  · exact .refl w

/-- Calling a listener tells the outcome and lets it react. -/
theorem framed_confirm (s : SessionId) (l : Listener) (w : System) (x : Confirmation) :
    Framed w (confirm s l w x) :=
  (Framed.tell w _).trans (framed_react _ s l)

/-- A listener may be called for several messages in a row. -/
theorem framed_foldl_confirm (s : SessionId) (l : Listener) (xs : List Confirmation)
    (w : System) : Framed w (xs.foldl (confirm s l) w) := by
  induction xs generalizing w with
  | nil => exact .refl w
  | cons x xs ih => exact (framed_confirm s l w x).trans (ih _)

/-- A report works on what is awaited and on who is called for it. -/
theorem framed_handleReport (w : System) (s : SessionId) (e : ConfirmEvent) :
    Framed w (w.handleReport s e) := by
  unfold handleReport
  simp only
  split
  · exact .tell w _
  · have h := Framed.modifySession w s (f := fun x => { x with pending := x.pending.settle e })
      (by intro _; rfl)
    split
    · exact h.trans (.tell _ _)
    · exact h.trans (framed_foldl_confirm s _ _ _)

/-- A dispatcher drops the stream of its channel, or takes one report from it. -/
theorem dispatch?_cases {w u : System} {s : SessionId} (h : w.dispatch? s = some u) :
    ((w.session s).dispatcher = .stopping ∧
      u = (w.modifyChannelOf s Channel.abandonStream).modifySession s
        fun x => { x with dispatcher := .ended }) ∨
    ∃ e rest, (w.session s).dispatcher = .running ∧ (w.channelOf s).stream = e :: rest ∧
      u = (w.modifyChannelOf s fun _ =>
        { w.channelOf s with stream := rest }).handleReport s e := by
  unfold dispatch? at h
  split at h
  · cases h
  next hd =>
    cases h
    exact .inl ⟨hd, rfl⟩
  next hd =>
    unfold Channel.take at h
    cases hs : (w.channelOf s).stream with
    | nil =>
      rw [hs] at h
      cases h
    | cons e rest =>
      rw [hs] at h
      cases h
      exact .inr ⟨e, rest, hd, rfl, rfl⟩

/-- Beyond what sends and confirms work on, a dispatcher changes one channel of the broker. -/
theorem framed_dispatch {w u : System} {s : SessionId} (h : w.dispatch? s = some u) :
    ∃ f, Framed (w.modifyChannelOf s f) u := by
  rcases dispatch?_cases h with ⟨_, rfl⟩ | ⟨e, rest, _, _, rfl⟩
  · exact ⟨_, .modifySession _ s (by intro _; rfl)⟩
  · exact ⟨_, framed_handleReport _ s e⟩

end System

end BrokerClient
