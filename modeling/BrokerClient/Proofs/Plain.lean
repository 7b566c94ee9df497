import BrokerClient.Proofs.Wiring

/-!
# Where neither names nor messages are concerned

Two things are followed through the runs of a client: who holds the durable names of a connection,
and what becomes of the messages that are sent on a session. Most steps concern neither.
`System.Plain` says that of one state after another; each lemma here says it of a stretch or an
operation, so that what follows names or messages has to look at the few others only.

A step that is plain changes no register of names, no record and no stream, and every call that goes
on in it is plain before and after (`IsPlain`): it neither sends nor has a durable name to take care
of. Sessions may be opened and shut, with the one condition that a session that is shut is deaf from
then on. Consumers may be added and closed.

The relation is transitive and closed under `setCall` and `ask` of plain calls, so that the lemma
for a stretch is the chain of its updates. `plain_resolve` is the one long list of cases: which
answers concern neither names nor messages is read off the goal of the exchange.
-/

namespace BrokerClient

/-- What the broker knows of the messages on a channel. -/
structure Box where
  /-- The number under which the next message is recorded. -/
  next : Nat := 1
  record : List Message := []
  stream : List ConfirmEvent := []

/-- What a channel keeps of messages. -/
def Channel.box (x : Channel) : Box := ⟨x.nextTag, x.published, x.stream⟩

/-- A channel that is not there keeps what a new one does. -/
def Broker.box (b : Broker) (k : Nat) : Box := (b.channelOrNew k).box

/-- What sending works with in a session. -/
structure Desk where
  turns : List CallId := []
  pending : Pending := {}

/-- What a session keeps of messages. -/
abbrev Session.desk (x : Session) : Desk := ⟨x.turns, x.pending⟩

/-- A closed session takes no report any more. -/
def Session.Still (x : Session) : Prop := x.closed = true → x.dispatcher ≠ .running

/-- A session that is closed has told its dispatcher to stop. -/
theorem Session.still_shut (x : Session) : x.shut.Still := by
  intro _
  unfold shut
  simp only
  split <;> simp_all

/-- Whether a goal is about neither a name nor a message. -/
def Goal.isPlain : Goal → Bool
  | .publish _ _ _ => false
  | .retarget _ _ _ _ => false
  | .declare _ _ _ _ => false
  | _ => true

/-- Whether a call that stands there is about neither a name nor a message. -/
def Progress.isPlain : Progress → Bool
  | .turn _ _ _ => false
  | .exchange e => e.goal.isPlain
  | .ended (.ok (.consumer _)) => false
  | _ => true

/-! ## The broker -/

namespace Broker

variable {b : Broker} {k n : Nat}

/-- A channel that was replaced, and the others. -/
theorem channelOrNew_set {ch : Channel} (hk : k < b.channels.length) (n : Nat) :
    ({ b with channels := b.channels.set k ch } : Broker).channelOrNew n =
      if k = n then ch else b.channelOrNew n := by
  unfold channelOrNew
  rw [List.getElem?_set]
  by_cases hkn : k = n
  · simp [hkn ▸ hk, hkn]
  · simp [hkn]

/-- An operation on a channel that is not about messages. -/
theorem box_onChannel {f : Channel → Except TransportFailure Unit × Channel}
    (h : ∀ x, (f x).2.box = x.box) (b : Broker) (k n : Nat) :
    (b.onChannel k f).2.box n = b.box n := by
  unfold onChannel
  split
  · rfl
  next x hx =>
    have hk := (List.getElem?_eq_some_iff.1 hx).1
    rw [box, channelOrNew_set hk]
    split
    next hkn =>
      subst hkn
      rw [h, box, channelOrNew, hx]
      rfl
    · rfl

/-- What is done to a channel only if it is open. -/
theorem box_whenOpen {f : Channel → Channel} (h : ∀ x, (f x).box = x.box) (x : Channel) :
    (Channel.whenOpen f x).2.box = x.box := by
  unfold Channel.whenOpen
  split
  · exact h x
  · rfl

/-- A request that publishes nothing. -/
theorem box_perform {r : Request} (h : ∀ k m, r ≠ .publish k m) (b : Broker) (n : Nat) :
    (b.perform r).2.box n = b.box n := by
  cases r with
  | createChannel =>
    change b.createChannel.2.box n = b.box n
    unfold createChannel
    split
    · rfl
    · split
      · rfl
      · simp only [box, channelOrNew, List.getElem?_append]
        split
        · rfl
        next hn =>
          rw [List.getElem?_eq_none (Nat.le_of_not_lt hn)]
          cases n - b.channels.length <;> rfl
  | close => rfl
  | publish k m => exact absurd rfl (h k m)
  | declare k topic name => exact box_onChannel (box_whenOpen (by intro _; rfl)) b k n
  | delete k name => exact box_onChannel (box_whenOpen (by intro _; rfl)) b k n
  | closeChannel k => exact box_onChannel (by intro _; rfl) b k n

end Broker

namespace System

variable {w v u : System} {i j : CallId} {c : ConnectionId} {s : SessionId} {x : ConsumerId}

/-! ## Looking up after an update -/

/-- A session after an update of one is as it was or updated; that one need not be there. -/
theorem session_modifySession_cases (w : System) (t : SessionId) (f : Session → Session)
    (s : SessionId) : (w.modifySession t f).session s = w.session s ∨
      (w.modifySession t f).session s = f (w.session s) := by
  by_cases hts : t = s
  · subst hts
    by_cases ht : t < w.sessions.length
    · exact .inr (session_modifySession_self ht f)
    · refine .inl ?_
      rw [modifySession, List.modify_eq_self (Nat.le_of_not_lt ht)]
  · exact .inl (session_modifySession_ne hts f)

/-- A session after another one was added is as it was, or it is the new one. -/
theorem session_enroll_cases (w : System) (c : ConnectionId) (y : Session) (s : SessionId) :
    (w.enroll c y).session s = w.session s ∨
      (w.session s = default ∧ (w.enroll c y).session s = y) := by
  rw [session, (enroll_leaves w c y).2.2.1, session, List.getElem?_append]
  split
  · exact .inl rfl
  next hs =>
    rw [List.getElem?_eq_none (Nat.le_of_not_lt hs)]
    cases s - w.sessions.length with
    | zero => exact .inr ⟨rfl, rfl⟩
    | succ n => exact .inl rfl

/-- One connection more is not seen by a reading that a new one shares with none. -/
theorem connection_connect {α : Type} {g : Connection → α} {y : Connection}
    (hy : g y = g default) (w : System) (c : ConnectionId) :
    g (({ w with connections := w.connections ++ [y] } : System).connection c) =
      g (w.connection c) := by
  rw [connection, connection, List.getElem?_append]
  split
  · rfl
  next h =>
    rw [List.getElem?_eq_none (Nat.le_of_not_lt h)]
    cases c - w.connections.length with
    | zero => exact hy
    | succ n => rfl

/-- A call after another one was started stands where it stood, or it is the new one. -/
theorem progress_enlist (w : System) (y : Call) (i : CallId) :
    (w.enlist y).progress? i = w.progress? i ∨
      (w.progress? i = none ∧ (w.enlist y).progress? i = some .begun) := by
  rw [progress?, enlist, progress?, List.getElem?_append]
  split
  · exact .inl rfl
  next h =>
    rw [List.getElem?_eq_none (Nat.le_of_not_lt h)]
    cases i - w.calls.length with
    | zero => exact .inr ⟨rfl, rfl⟩
    | succ n => exact .inl rfl

/-- A call that was put somewhere and is found stands there. -/
theorem progress_of_setCall {p q : Progress} (h : (w.setCall i p).progress? i = some q) :
    q = p := by
  by_cases hi : i < w.calls.length
  · rw [progress_setCall_self hi] at h
    exact (Option.some.inj h).symm
  · simp [progress?, setCall, Nat.le_of_not_lt hi] at h

/-! ## The relation -/

/-- Call `i` is about neither a name nor a message. -/
def IsPlain (w : System) (i : CallId) : Prop := ∀ p, w.progress? i = some p → p.isPlain = true

/-- Neither names nor messages are concerned: consumers may be closed and added, sessions opened and
closed, and calls that are plain go on. -/
structure Plain (w v : System) : Prop where
  subscriptions : ∀ c, (v.connection c).subscriptions = (w.connection c).subscriptions
  box : ∀ c k, (v.connection c).broker.box k = (w.connection c).broker.box k
  closed : ∀ x, (w.consumer x).closed = true → (v.consumer x).closed = true
  desk : ∀ s, (v.session s).desk = (w.session s).desk
  still : ∀ s, (w.session s).Still → (v.session s).Still
  /-- No fault is laid out for the broker calls to come. -/
  faults : ∀ c, (v.connection c).faults ⊆ (w.connection c).faults
  confirmations : v.confirmations = w.confirmations
  progress : ∀ i, v.progress? i = w.progress? i ∨ (w.IsPlain i ∧ v.IsPlain i)

namespace Plain

theorem refl (w : System) : Plain w w :=
  ⟨fun _ => rfl, fun _ _ => rfl, fun _ => id, fun _ => rfl, fun _ => id, fun _ _ => id, rfl,
    fun _ => .inl rfl⟩

/-- A call that has nothing to do with messages stays so. -/
theorem isPlain (h : Plain w v) (hi : w.IsPlain i) : v.IsPlain i := by
  rcases h.progress i with he | ⟨_, hv⟩
  · intro p hp
    exact hi p (he ▸ hp)
  · exact hv

theorem isPlain_of (h : Plain w v) (hi : v.IsPlain i) : w.IsPlain i := by
  rcases h.progress i with he | ⟨hw, _⟩
  · intro p hp
    exact hi p (he ▸ hp)
  · exact hw

theorem trans (h : Plain w v) (h' : Plain v u) : Plain w u := by
  refine ⟨fun c => (h'.subscriptions c).trans (h.subscriptions c),
    fun c k => (h'.box c k).trans (h.box c k), fun x hx => h'.closed x (h.closed x hx),
    fun s => (h'.desk s).trans (h.desk s), fun s hs => h'.still s (h.still s hs),
    fun c f hf => h.faults c (h'.faults c hf), h'.confirmations.trans h.confirmations,
    fun i => ?_⟩
  -- A call that moves in either part is plain throughout.
  rcases h'.progress i with he | ⟨hv, hu⟩
  · rcases h.progress i with he' | ⟨hw, hv⟩
    · exact .inl (he.trans he')
    · exact .inr ⟨hw, fun p hp => hv p (he ▸ hp)⟩
  · exact .inr ⟨h.isPlain_of hv, hu⟩

/-- An update of connections that is about neither names nor messages. -/
theorem of_connections (hn : ∀ c, (v.connection c).subscriptions = (w.connection c).subscriptions)
    (hb : ∀ c k, (v.connection c).broker.box k = (w.connection c).broker.box k)
    (hf : ∀ c, (v.connection c).faults ⊆ (w.connection c).faults)
    (hs : v.sessions = w.sessions) (hx : v.consumers = w.consumers) (hi : v.calls = w.calls)
    (hc : v.confirmations = w.confirmations) : Plain w v :=
  ⟨hn, hb, fun x h => by rwa [consumer_congr hx], fun s => by rw [session_congr hs],
    fun s h => by rwa [session_congr hs], hf, hc, fun i => .inl (by rw [progress?, hi, progress?])⟩

theorem modifyConnection {f : Connection → Connection}
    (hn : ∀ y, (f y).subscriptions = y.subscriptions) (hb : ∀ y, (f y).broker = y.broker)
    (hf : ∀ y, (f y).faults = y.faults) (w : System) (c : ConnectionId) :
    Plain w (w.modifyConnection c f) := by
  refine of_connections (connection_modifyConnection_of (g := Connection.subscriptions) hn w c)
    (fun d k => ?_) (fun d => ?_) rfl rfl rfl rfl
  · rw [connection_modifyConnection_of (g := Connection.broker) hb w c d]
  · rw [connection_modifyConnection_of (g := Connection.faults) hf w c d]
    exact fun _ h => h

/-- An update of the broker that is not about messages. -/
theorem modifyBroker {f : Broker → Broker} (h : ∀ b k, (f b).box k = b.box k) (w : System)
    (c : ConnectionId) : Plain w (w.modifyConnection c fun y => { y with broker := f y.broker }) :=
  of_connections
    (connection_modifyConnection_of (g := Connection.subscriptions) (by intro _; rfl) w c)
    (fun d k =>
      connection_modifyConnection_of (g := fun y => y.broker.box k) (fun y => h _ k) w c d)
    (fun d => by
      rw [connection_modifyConnection_of (g := Connection.faults) (by intro _; rfl) w c d]
      exact fun _ h => h)
    rfl rfl rfl rfl

/-- An update of sessions that sending does not see. -/
theorem modifySession {f : Session → Session} (hd : ∀ y, (f y).desk = y.desk)
    (hs : ∀ y : Session, y.Still → (f y).Still) (w : System) (s : SessionId) :
    Plain w (w.modifySession s f) := by
  refine ⟨fun _ => rfl, fun _ _ => rfl, fun _ => id,
    session_modifySession_of (g := Session.desk) hd w s, fun t ht => ?_, fun _ _ => id, rfl,
    fun _ => .inl rfl⟩
  rcases session_modifySession_cases w s f t with he | he <;> rw [he]
  · exact ht
  · exact hs _ ht

/-- Closing a consumer does, and consumers stay closed. -/
theorem closeConsumer (w : System) (x : ConsumerId) : Plain w (w.closeConsumer x) := by
  obtain ⟨_, _, hconnections, hsessions, hcalls⟩ := closeConsumer_leaves w x
  refine ⟨?_, ?_, ?_, ?_, ?_, ?_, ?_, ?_⟩
  · intro c
    rw [connection_congr hconnections]
  · intro c k
    rw [connection_congr hconnections]
  · intro y hy
    rw [consumer, closeConsumer_consumers, List.getElem?_modify]
    rw [consumer] at hy
    cases hw : w.consumers[y]? with
    | none => exact absurd hy (by rw [hw]; decide)
    | some z => split <;> simp_all
  · intro s
    rw [session_congr hsessions]
  · intro s h
    rwa [session_congr hsessions]
  · intro c
    rw [connection_congr hconnections]
    exact fun _ h => h
  · unfold System.closeConsumer
    split <;> rfl
  · intro i
    left
    rw [progress?, hcalls, progress?]

/-- A new consumer is open, and stands where none stood. -/
theorem addConsumer (w : System) (y : Consumer) : Plain w (w.addConsumer y) := by
  refine ⟨fun _ => rfl, fun _ _ => rfl, fun x hx => ?_, fun _ => rfl, fun _ => id, fun _ _ => id,
    rfl, fun _ => .inl rfl⟩
  rw [consumer] at hx ⊢
  cases hw : w.consumers[x]? with
  | none => exact absurd hx (by rw [hw]; decide)
  | some z =>
    rw [System.addConsumer, List.getElem?_append_left (List.getElem?_eq_some_iff.1 hw).1]
    exact hx

theorem foldl_closeConsumer (xs : List ConsumerId) (w : System) :
    Plain w (xs.foldl System.closeConsumer w) := by
  induction xs generalizing w with
  | nil => exact .refl w
  | cons x xs ih => exact (closeConsumer w x).trans (ih _)

/-- A request is noted, and uses up a fault. -/
theorem useFault (w : System) (c : ConnectionId) (kind : CallKind) (k : Option Nat)
    (asked : List Request → List Request) :
    Plain w (w.modifyConnection c fun y => { y with
      faults := (takeFault kind k (w.connection c).faults).2
      asked := asked y.asked }) := by
  refine of_connections
    (connection_modifyConnection_of (g := Connection.subscriptions) (by intro _; rfl) w c)
    (fun d k =>
      connection_modifyConnection_of (g := fun y => y.broker.box k) (by intro _; rfl) w c d)
    (fun d => ?_) rfl rfl rfl rfl
  by_cases hcd : c = d
  · subst hcd
    by_cases hc : c < w.connections.length
    · rw [connection_modifyConnection_self hc]
      exact List.eraseP_subset
    · rw [System.modifyConnection, List.modify_eq_self (Nat.le_of_not_lt hc)]
      exact fun _ h => h
  · rw [connection_modifyConnection_ne hcd]
    exact fun _ h => h

theorem setCall (h : Plain w v) (hi : w.IsPlain i) {p : Progress} (hp : p.isPlain = true) :
    Plain w (v.setCall i p) := by
  refine ⟨h.subscriptions, h.box, h.closed, h.desk, h.still, h.faults, h.confirmations,
    fun j => ?_⟩
  by_cases hij : i = j
  · subst hij
    exact .inr ⟨hi, fun q hq => progress_of_setCall hq ▸ hp⟩
  · rcases h.progress j with he | ⟨hw, hv⟩
    · exact .inl ((progress_setCall_ne hij p).trans he)
    · refine .inr ⟨hw, fun q hq => hv q ?_⟩
      rwa [progress_setCall_ne hij] at hq

theorem finish (h : Plain w v) (hi : w.IsPlain i) : Plain w (v.finish i (.ok .unit)) :=
  h.setCall hi rfl

theorem fail (h : Plain w v) (hi : w.IsPlain i) (e : Error) : Plain w (v.fail i e) :=
  h.setCall hi rfl

theorem ask (h : Plain w v) (hi : w.IsPlain i) {c : ConnectionId} {request : Request}
    {limit : Option Nat} {goal : Goal} (hg : goal.isPlain = true) :
    Plain w (v.ask i c request limit goal) := by
  rw [ask_eq]
  exact (h.trans (useFault v c request.kind request.channel? (· ++ [request]))).setCall hi hg

end Plain

/-- Telling something leaves messages alone. -/
theorem Quiet.plain (h : Quiet w v) : Plain w v :=
  .of_connections (fun c => by rw [h.connection]) (fun c k => by rw [h.connection])
    (fun c => by rw [h.connection]; exact fun _ h => h) h.sessions h.consumers h.calls
    h.confirmations

theorem Aside.plain (h : Aside w v) : Plain w v :=
  .of_connections (fun c => h.connection_of (g := Connection.subscriptions) (fun _ => rfl) c)
    (fun c k => by rw [h.connection_of (g := Connection.broker) (fun _ => rfl) c])
    (fun c => by
      rw [h.connection_of (g := Connection.faults) (fun _ => rfl) c]
      exact fun _ h => h)
    h.sessions h.consumers h.calls h.confirmations

/-! ## Stretches -/

/-- A call that was started has done nothing yet. -/
theorem plain_enlist (w : System) (y : Call) : Plain w (w.enlist y) := by
  refine ⟨fun _ => rfl, fun _ _ => rfl, fun _ => id, fun _ => rfl, fun _ => id, fun _ _ => id, rfl,
    fun i => ?_⟩
  rcases progress_enlist w y i with he | ⟨hn, hb⟩
  · exact .inl he
  · refine .inr ⟨fun p hp => ?_, fun p hp => ?_⟩
    · rw [hn] at hp
      cases hp
    · rw [hb] at hp
      cases hp
      rfl

theorem isPlain_enlist (w : System) (y : Call) : (w.enlist y).IsPlain w.calls.length := by
  intro p hp
  have hb : (w.enlist y).progress? w.calls.length = some .begun := by simp [progress?]
  rw [hb] at hp
  cases hp
  rfl

/-- A session that is closed keeps its turns and what it awaits, and its dispatcher is told to stop.
-/
theorem plain_shutSession (w : System) (s : SessionId) : Plain w (w.shutSession s).2 := by
  have hs : Plain w (w.modifySession s Session.shut) :=
    .modifySession (by intro _; rfl) (fun y _ => y.still_shut) w s
  exact hs.trans (.foldl_closeConsumer _ _)

/-- Closing the sessions of a connection in turn, up to the first that is open. -/
theorem plain_closeSessions (hi : w.IsPlain i) (failure : Option TransportFailure)
    (c : ConnectionId) (ss : List SessionId) : Plain w (w.closeSessions i c failure ss) := by
  induction ss with
  | nil =>
    rw [closeSessions]
    exact (Plain.refl w).ask hi rfl
  | cons s ss ih =>
    rw [closeSessions]
    split
    · exact ih
    · exact (plain_shutSession w s).ask hi rfl

theorem plain_closeConnection (hi : w.IsPlain i) (c : ConnectionId) :
    Plain w (w.closeConnection i c) := by
  rcases closeConnection_effect w i c with ⟨_, v, hq, he⟩ | ⟨_, v, rs, hq, he⟩
  · rw [he]
    exact hq.plain.finish hi
  · rw [he]
    have hrs : Plain v { v with registries := rs } :=
      .of_connections (fun _ => rfl) (fun _ _ => rfl) (fun _ _ => id) rfl rfl rfl rfl
    have hu := (hq.plain.trans hrs).trans (.modifyConnection (f := fun x =>
      { x with life := .closed, clientId := none, sessions := [] }) (by intro _; rfl)
      (by intro _; rfl) (by intro _; rfl) _ c)
    exact hu.trans (plain_closeSessions (hu.isPlain hi) none c _)

/-- A connection that forgets a session. -/
theorem plain_forget (w : System) (s : SessionId) : Plain w (w.forget s) := by
  unfold forget
  split
  · exact .modifyConnection (by intro _; rfl) (by intro _; rfl) (by intro _; rfl) w _
  · exact .refl w

theorem plain_closeSession (hi : w.IsPlain i) (s : SessionId) : Plain w (w.closeSession i s) := by
  obtain ⟨v, hq, ⟨_, he⟩ | ⟨_, he⟩⟩ := closeSession_effect w i s
  · rw [he]
    exact (hq.plain.trans (plain_forget v s)).finish hi
  · rw [he]
    exact ((hq.plain.trans (plain_forget v s)).trans (plain_shutSession _ s)).ask hi rfl

theorem plain_closeIdentifierWindow (w : System) (c : ConnectionId) :
    Plain w (w.closeIdentifierWindow c) :=
  .modifyConnection (by intro _; rfl) (by intro _; rfl) (by intro _; rfl) w c

theorem plain_createSession (hi : w.IsPlain i) (c : ConnectionId) (transacted : Bool)
    (mode : AckMode) (via : Option Domain) :
    Plain w (w.createSession i c transacted mode via) := by
  obtain ⟨v, hq, ⟨_, he | he⟩ | ⟨_, he⟩⟩ := createSession_effect w i c transacted mode via
  · rw [he]
    exact hq.plain.fail hi _
  · rw [he]
    exact (hq.plain.trans (plain_closeIdentifierWindow v c)).fail hi _
  · rw [he]
    exact (hq.plain.trans (plain_closeIdentifierWindow v c)).ask hi rfl

/-- A new session has nothing to send. -/
theorem plain_enroll (w : System) (c : ConnectionId) {y : Session} (hd : y.desk = {})
    (hy : y.closed = false) : Plain w (w.enroll c y) := by
  refine ⟨connection_modifyConnection_of (g := Connection.subscriptions) (by intro _; rfl) _ c,
    fun d k => ?_, fun _ => id, fun s => ?_, fun s hs => ?_, fun d => ?_, rfl, fun _ => .inl rfl⟩
  · exact connection_modifyConnection_of (g := fun z => z.broker.box k) (by intro _; rfl) _ c d
  · rcases session_enroll_cases w c y s with he | ⟨hn, he⟩ <;> rw [he]
    rw [hn, hd]
    rfl
  · rcases session_enroll_cases w c y s with he | ⟨_, he⟩ <;> rw [he]
    · exact hs
    · intro hcl
      rw [hy] at hcl
      cases hcl
  · rw [enroll, connection_modifyConnection_of (g := Connection.faults) (by intro _; rfl)]
    exact fun _ h => h

/-- A new session has no message, and a dispatcher that runs unless the session is closed. -/
theorem plain_openSession (hi : w.IsPlain i) (c : ConnectionId) (k : Nat) (transacted : Bool)
    (mode : AckMode) : Plain w (w.openSession i c k transacted mode) := by
  cases hc : (w.connection c).life.isClosed with
  | true =>
    rw [openSession_closed hc]
    exact ((plain_enroll w c rfl rfl).trans (plain_shutSession _ _)).ask hi rfl
  | false =>
    obtain ⟨v, hq, he⟩ := openSession_open hc i k transacted mode
    rw [he]
    exact (((plain_enroll w c rfl rfl).trans hq.plain).trans
      (.modifyConnection (by intro _; rfl) (by intro _; rfl) (by intro _; rfl) v c)).setCall hi rfl

/-- A wait for delivery ends. -/
theorem plain_resumed (hi : w.IsPlain i) {o : Outcome} (ho : w.resumption x = some o) :
    Plain w (w.finish i o) := by
  rcases resumption_cases ho with rfl | ⟨e, rfl⟩
  · exact (Plain.refl w).finish hi
  · exact (Plain.refl w).fail hi e

theorem plain_awaitResume (hi : w.IsPlain i) (x : ConsumerId) : Plain w (w.awaitResume i x) := by
  unfold awaitResume
  split
  next o ho => exact plain_resumed hi ho
  next => exact (Plain.refl w).setCall hi rfl

/-- A consumer is added to its session, or it is closed. -/
theorem plain_adopt (w : System) (s : SessionId) (x : ConsumerId) : Plain w (w.adopt s x).2 := by
  unfold adopt
  split
  · exact .closeConsumer w x
  · exact .modifySession (by intro _; rfl) (by intro _ h; exact h) w s

/-- Where calls stand is not changed by taking an outcome. -/
theorem progress_take (w : System) (i j : CallId) :
    ({ w with calls := w.calls.modify i fun t => { t with taken := true } } : System).progress? j =
      w.progress? j := by
  simp only [progress?, List.getElem?_modify, Option.map_eq_map, Option.map_map]
  congr 1
  funext t
  simp only [Function.comp_apply]
  split <;> rfl

/-- Taking an outcome lets the program hold a session. -/
theorem plain_take (h : (w.take? i).map Prod.snd = some v) : Plain w v := by
  have hc : Plain w { w with calls := w.calls.modify i fun t => { t with taken := true } } :=
    ⟨fun _ => rfl, fun _ _ => rfl, fun _ => id, fun _ => rfl, fun _ => id, fun _ _ => id, rfl,
      fun j => .inl (progress_take w i j)⟩
  obtain ⟨o, _, rfl | ⟨s, _, rfl⟩⟩ := take?_cases h
  · exact hc
  · exact hc.trans (.modifySession (by intro _; rfl) (by intro _ h; exact h) _ s)

/-! ## Operations -/

/-- A new connection has no name, no channel and no fault. -/
theorem plain_connect (w : System) {y : Connection} (hn : y.subscriptions = {})
    (hb : y.broker.channels = []) (hf : y.faults = []) :
    Plain w { w with connections := w.connections ++ [y] } := by
  refine .of_connections (connection_connect (g := Connection.subscriptions) hn w) (fun c k => ?_)
    (fun c => ?_) rfl rfl rfl rfl
  · refine connection_connect (g := fun z => z.broker.box k) ?_ w c
    simp only [Broker.box, Broker.channelOrNew, hb]
    rfl
  · rw [connection_connect (g := Connection.faults) hf w c]
    exact fun _ h => h

/-- A reading of a session that turning does not change. -/
theorem session_redirect_of {α : Type} {g : Session → α} {next : Delivery}
    (h : ∀ y, g (y.turn next) = g y) (w : System) (c : ConnectionId) (life : Lifecycle)
    (s : SessionId) : g ((w.redirect c life next).session s) = g (w.session s) := by
  have hm := congrArg (fun l => l[s]?) (turnAll_map h (w.connection c).sessions w.sessions)
  simp only [List.getElem?_map] at hm
  rw [session, session, redirect]
  cases hw : w.sessions[s]? <;>
    cases hu : (turnAll next (w.connection c).sessions w.sessions)[s]? <;> simp_all

/-- Starting or stopping turns sessions. -/
theorem plain_redirect (w : System) (c : ConnectionId) (life : Lifecycle) (next : Delivery) :
    Plain w (w.redirect c life next) := by
  refine ⟨connection_modifyConnection_of (g := Connection.subscriptions) (by intro _; rfl) w c,
    fun d k => ?_, fun _ => id, session_redirect_of (g := Session.desk) (by intro _; rfl) w c life,
    fun s h => ?_, fun d => ?_, rfl, fun _ => .inl rfl⟩
  · exact connection_modifyConnection_of (g := fun z => z.broker.box k) (by intro _; rfl) w c d
  · have hc : ((w.redirect c life next).session s).closed = (w.session s).closed :=
      session_redirect_of (g := Session.closed) (by intro _; rfl) w c life s
    have hd : ((w.redirect c life next).session s).dispatcher = (w.session s).dispatcher :=
      session_redirect_of (g := Session.dispatcher) (by intro _; rfl) w c life s
    rw [Session.Still, hc, hd]
    exact h
  · have hf : ((w.redirect c life next).connection d).faults = (w.connection d).faults :=
      connection_modifyConnection_of (g := Connection.faults) (by intro _; rfl) w c d
    rw [hf]
    exact fun _ h => h

end System

/-- Whether an operation lays out what the broker is going to do or tell. -/
def Operation.isBrokerSide : Operation → Bool
  | .inject _ _ => true
  | .report _ _ _ => true
  | _ => false

namespace System

variable {w v u : System} {i j : CallId} {c : ConnectionId} {s : SessionId} {x : ConsumerId}

/-- Every operation does that neither works on names directly nor stands on the side of the broker.
-/
theorem plain_operate (w : System) {o : Operation} (hm : o.meddles = false)
    (hb : o.isBrokerSide = false) : Plain w (w.operate o).2 := by
  obtain ⟨u, hu, ha⟩ := operate_change w o
  refine .trans ?_ ha.plain
  cases hu with
  | none => exact .refl w
  | connect r timeout plan => exact plain_connect w (by rfl) (by rfl) (by rfl)
  | redirect => exact plain_redirect w _ _ _
  | addConsumer hopen d => exact (Plain.addConsumer w _).trans (plain_adopt _ _ _)
  | closeConsumer x => exact .closeConsumer w x
  | dropConnection c =>
    exact .modifyConnection (by intro _; rfl) (by intro _; rfl) (by intro _; rfl) w c
  | refuse c refusing =>
    exact .modifyBroker (f := fun b => { b with refusing := refusing }) (by intro _ _; rfl) w c
  | dropSession | listen => exact .modifySession (by intro _; rfl) (by intro _ h; exact h) w _
  -- What is left meddles with names, or is the broker's doing.
  | rename ho =>
    rw [hm] at ho
    cases ho
  | inject => cases hb
  | report => cases hb

/-! ## Going on -/

/-- An answer to a request that is about neither a name nor a message. -/
theorem plain_resolve {e : Exchange} (hp : w.progress? i = some (.exchange e))
    (hg : e.goal.isPlain = true) (reply : Reply) : Plain w (w.resolve i e reply) := by
  have hi : w.IsPlain i := by
    intro p hq
    rw [hp] at hq
    cases hq
    exact hg
  -- The three goals that are not plain are excluded; the others end the call or go on closing.
  cases hgoal : e.goal with
  | openSession transacted mode =>
    simp only [resolve, hgoal]
    cases reply with
    | opened k => exact plain_openSession hi _ k _ _
    | failed f => exact (Plain.refl w).fail hi _
    | done => exact (Plain.refl w).fail hi _
  | closeNext s n rest failure =>
    obtain ⟨v, f', hq, he⟩ := resolve_closeNext hgoal w i reply
    rw [he]
    exact hq.plain.trans (plain_closeSessions (hq.plain.isPlain hi) f' _ rest)
  | publish s tag tracked => simp [hgoal, Goal.isPlain] at hg
  | retarget s y name claim => simp [hgoal, Goal.isPlain] at hg
  | declare s y name claim => simp [hgoal, Goal.isPlain] at hg
  | _ =>
    obtain ⟨v, hq, he | ⟨f, he⟩⟩ := resolve_last (by rw [hgoal]; rfl) w i reply
    · rw [he]
      exact hq.plain.finish hi
    · rw [he]
      exact hq.plain.fail hi f

/-- Giving a broker close up ends the call. -/
theorem plain_giveUp (hi : w.IsPlain i) (e : Exchange) : Plain w (w.giveUp i e) := by
  obtain ⟨v, hq, he⟩ := giveUp_effect w i e
  rw [he]
  exact hq.plain.fail hi _

/-- Only a close of the broker connection is given up. -/
theorem Wired.isPlain_of_limit (hw : w.Wired) {e : Exchange} {limit : Nat}
    (hp : w.progress? i = some (.exchange e)) (hl : e.limit = some limit) : w.IsPlain i := by
  obtain ⟨x, _, hf⟩ := hw.fits hp
  intro p hq
  rw [hp] at hq
  cases hq
  simp only [Progress.Fits, Exchange.Fits] at hf
  simp only [Progress.isPlain]
  cases hg : e.goal <;> simp_all [Goal.isPlain]

end System

end BrokerClient
