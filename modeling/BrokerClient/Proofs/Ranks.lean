import BrokerClient.Proofs.SessionSet

/-!
# The order of sessions

A connection counts its sessions upwards and registers them in this order, so that the sessions
registered with it ascend in number (`numbers_ascend`).

A session keeps its number, and who closes it is one of few: a call that is started to close the
session or its connection, or a call that goes on closing the connection (`session_step`).

Two facts make the order. A connection hands out its numbers in ascending order (`Numbered`), and a
session that is registered has the greatest number so far (`Ordered`), as both happen in one
stretch. Sessions that leave the set leave the order of the others alone.

`Seats` is the relation that carries the first fact through a step: sessions keep their connection,
their number and their channel, and one that is newly closed has a closer. It is proved stretch by
stretch, as every relation between two states here.
-/

namespace BrokerClient

/-- Where a session stands among those of its connection. -/
abbrev Session.rank (x : Session) : ConnectionId × Nat := (x.connection, x.number)

/-- The sessions that a call has before it once it has its answer. -/
def Progress.following : Progress → List SessionId
  | .exchange e => match e.goal with
    | .closeNext _ _ rest _ => rest
    | _ => []
  | _ => []

namespace System

variable {w v u : System} {i : CallId} {c : ConnectionId} {s t : SessionId} {ss : List SessionId}

/-- No session comes, and none but those named is closed. -/
structure Seats (ss : List SessionId) (w v : System) : Prop where
  ranks : v.sessions.map Session.rank = w.sessions.map Session.rank
  closed : ∀ t ∉ ss, (v.session t).closed = (w.session t).closed
  next : ∀ c, (v.connection c).nextNumber = (w.connection c).nextNumber

namespace Seats

/-- Nothing was done to sessions, nor to how connections count them. -/
theorem of_sessions (hs : v.sessions = w.sessions)
    (hc : ∀ c, (v.connection c).nextNumber = (w.connection c).nextNumber) : Seats ss w v :=
  ⟨by rw [hs], fun t _ => by rw [session_congr hs], hc⟩

theorem of_lists (hs : v.sessions = w.sessions) (hc : v.connections = w.connections) :
    Seats ss w v :=
  of_sessions hs fun c => by rw [connection_congr hc]

theorem refl (ss : List SessionId) (w : System) : Seats ss w w := of_lists rfl rfl

theorem trans (h : Seats ss w v) (h' : Seats ss v u) : Seats ss w u :=
  ⟨h'.ranks.trans h.ranks, fun t ht => (h'.closed t ht).trans (h.closed t ht),
    fun c => (h'.next c).trans (h.next c)⟩

theorem mono {ss' : List SessionId} (h : Seats ss w v) (hss : ss ⊆ ss') : Seats ss' w v :=
  ⟨h.ranks, fun t ht => h.closed t fun hm => ht (hss hm), h.next⟩

/-- An update of a connection that goes on counting from where it was. -/
theorem modifyConnection {f : Connection → Connection}
    (hf : ∀ x, (f x).nextNumber = x.nextNumber) (w : System) (c : ConnectionId) :
    Seats ss w (w.modifyConnection c f) :=
  of_sessions rfl (connection_modifyConnection_of (g := Connection.nextNumber) hf w c)

/-- An update of a session that neither moves nor closes it. -/
theorem modifySession {f : Session → Session} (hr : ∀ x, (f x).rank = x.rank)
    (hc : ∀ x, (f x).closed = x.closed) (w : System) (s : SessionId) :
    Seats ss w (w.modifySession s f) :=
  ⟨map_modify_eq hr w.sessions s,
    fun t _ => session_modifySession_of (g := Session.closed) hc w s t, fun _ => rfl⟩

theorem setCall (h : Seats ss w v) (i : CallId) (p : Progress) : Seats ss w (v.setCall i p) :=
  h.trans (of_lists rfl rfl)

theorem ask (h : Seats ss w v) {i : CallId} {c : ConnectionId} {request : Request}
    {limit : Option Nat} {goal : Goal} : Seats ss w (v.ask i c request limit goal) := by
  rw [ask_eq]
  exact (h.trans (.modifyConnection (by intro _; rfl) v c)).setCall i _

end Seats

/-- What is told is not seen. -/
theorem Quiet.seats (h : Quiet w v) (ss : List SessionId) : Seats ss w v :=
  .of_lists h.sessions h.connections

/-- Updates aside keep clear of sessions. -/
theorem Aside.seats (h : Aside w v) (ss : List SessionId) : Seats ss w v :=
  .of_sessions h.sessions (h.connection_of (g := Connection.nextNumber) fun _ => rfl)

/-- Dispatchers close no session. -/
theorem Framed.seats (h : Framed w v) (ss : List SessionId) : Seats ss w v := by
  have hf : ∀ {α : Type} (g : Session → α), (∀ x, g x.frame = g x) →
      v.sessions.map g = w.sessions.map g := by
    intro α g hg
    have hm := congrArg (List.map g) h.sessions
    simpa only [List.map_map, Function.comp_def, hg] using hm
  exact ⟨hf Session.rank fun _ => rfl,
    fun t _ => session_of_map (hf Session.closed fun _ => rfl) t,
    fun c => by rw [connection_congr h.connections]⟩

/-! ## Each stretch -/

/-- Closing a session closes that one. -/
theorem seats_shutSession (w : System) (s : SessionId) : Seats [s] w (w.shutSession s).2 := by
  refine ⟨?_, fun t ht => ?_, fun c => by rw [connection_congr (w := w) (by simp)]⟩
  · rw [show (w.shutSession s).2.sessions = w.sessions.modify s Session.shut by simp]
    exact map_modify_eq (by intro _; rfl) w.sessions s
  · rw [session_congr (w := w.modifySession s Session.shut) (by simp),
      session_modifySession_ne fun h => ht (by rw [h]; exact List.mem_singleton_self t)]

/-- Going on with the sessions of a connection closes one of them at most. -/
theorem seats_closeSessions (w : System) (i : CallId) (c : ConnectionId)
    (failure : Option TransportFailure) (ss : List SessionId) :
    Seats ss w (w.closeSessions i c failure ss) := by
  induction ss with
  | nil =>
    rw [closeSessions]
    exact (Seats.refl _ w).ask
  | cons s ss ih =>
    rw [closeSessions]
    split
    · exact ih.mono (List.subset_cons_self s ss)
    · exact ((seats_shutSession w s).mono (by simp)).ask

/-- A call that closes a connection closes sessions that the connection has registered. -/
theorem seats_closeConnection (w : System) (i : CallId) (c : ConnectionId) :
    Seats (w.connection c).sessions w (w.closeConnection i c) := by
  rcases closeConnection_effect w i c with ⟨_, v, hq, he⟩ | ⟨_, v, rs, hq, he⟩ <;> rw [he]
  · exact (hq.seats _).setCall i _
  · have hrs : Seats (w.connection c).sessions v { v with registries := rs } := .of_lists rfl rfl
    have hm := hrs.trans (.modifyConnection (f := fun x =>
      { x with life := .closed, clientId := none, sessions := [] }) (by intro _; rfl) _ c)
    exact ((hq.seats _).trans hm).trans (seats_closeSessions _ i c none _)

/-- Forgetting a session does not close it. -/
theorem seats_forget (w : System) (s : SessionId) : Seats ss w (w.forget s) := by
  unfold forget
  split
  · exact .modifyConnection (by intro _; rfl) w _
  · exact .refl ss w

/-- A call that closes a session closes no other one. -/
theorem seats_closeSession (w : System) (i : CallId) (s : SessionId) :
    Seats [s] w (w.closeSession i s) := by
  obtain ⟨v, hq, ⟨_, he⟩ | ⟨_, he⟩⟩ := closeSession_effect w i s <;> rw [he]
  · exact ((hq.seats _).trans (seats_forget v s)).setCall i _
  · exact (((hq.seats _).trans (seats_forget v s)).trans (seats_shutSession _ s)).ask

/-- Asking for a channel makes no session yet. -/
theorem seats_createSession (w : System) (i : CallId) (c : ConnectionId) (transacted : Bool)
    (mode : AckMode) (via : Option Domain) :
    Seats ss w (w.createSession i c transacted mode via) := by
  have hc : ∀ v : System, Seats ss v (v.closeIdentifierWindow c) := fun v =>
    .modifyConnection (by intro _; rfl) v c
  obtain ⟨v, hq, ⟨_, he | he⟩ | ⟨_, he⟩⟩ := createSession_effect w i c transacted mode via <;>
    rw [he]
  · exact (hq.seats ss).setCall i _
  · exact ((hq.seats ss).trans (hc v)).setCall i _
  · exact ((hq.seats ss).trans (hc v)).ask

/-- Consumers are not seen, nor are names. -/
theorem seats_subscribe (w : System) (i : CallId) (s : SessionId) (d : Destination)
    (name : String) : Seats ss w (w.subscribe i s d name) := by
  rcases subscribe_effect w i s d name with ⟨e, _, he⟩ | ⟨_, _, claim, v, u, hclaim, hq, he⟩
  · rw [he]
    exact (Seats.refl ss w).setCall i _
  · obtain ⟨_, hr⟩ := claimName_effect hclaim
    have hv : Seats ss w v := (Seats.modifyConnection (by intro _; rfl) w _).trans (hr.seats ss)
    have hn : Seats ss v { v with consumers := v.consumers ++
        [{ session := s, destination := d, subscription := some name }] } := .of_lists rfl rfl
    have hu := (hv.trans hn).trans (hq.seats ss)
    rcases he with ⟨_, he⟩ | he <;> rw [he] <;> exact hu.ask

/-- The same of unsubscribing. -/
theorem seats_unsubscribe (w : System) (i : CallId) (s : SessionId) (name : String) :
    Seats ss w (w.unsubscribe i s name) := by
  rcases unsubscribe_effect w i s name with ⟨e, _, he⟩ | ⟨holder, r, _, he⟩ <;> rw [he]
  · exact (Seats.refl ss w).setCall i _
  · exact (Seats.modifyConnection (by intro _; rfl) w _).ask

/-- Publishing works on what a session keeps of messages. -/
theorem seats_publish (w : System) (i : CallId) (s : SessionId) (m : Message) (tracked : Bool) :
    Seats ss w (w.publish i s m tracked) := by
  have hf : Seats ss w (w.modifyConnection (w.session s).connection fun x => { x with
      faults := (takeFault .nextTag (some (w.session s).channel)
        (w.connection (w.session s).connection).faults).2 }) :=
    .modifyConnection (by intro _; rfl) w _
  have hr : Seats ss w (w.readyToPublish s m tracked) := by
    cases tracked with
    | false => exact hf
    | true => exact hf.trans (.modifySession (by intro _; rfl) (by intro _; rfl) _ s)
  rw [publish_eq]
  exact hr.ask

/-- So does waiting for one's turn. -/
theorem seats_send (w : System) (i : CallId) (s : SessionId) (m : Message) :
    Seats ss w (w.send i s m) := by
  have hv : Seats ss w (w.takePlace i s) :=
    .modifySession (by intro _; rfl) (by intro _; rfl) w s
  rcases send_effect w i s m with he | ⟨_, he⟩ | he <;> rw [he]
  · exact (Seats.refl ss w).setCall i _
  · exact hv.trans (seats_publish _ i s m _)
  · exact hv.setCall i _

/-- A wait for delivery changes no session. -/
theorem seats_awaitResume (w : System) (i : CallId) (x : ConsumerId) :
    Seats ss w (w.awaitResume i x) := by
  unfold awaitResume
  split <;> exact (Seats.refl ss w).setCall i _

/-- A session that gets a consumer is the same otherwise. -/
theorem seats_adopt (w : System) (s : SessionId) (x : ConsumerId) :
    Seats ss w (w.adopt s x).2 := by
  unfold adopt
  split
  · exact .of_lists (by simp) (by simp)
  · exact .modifySession (by intro _; rfl) (by intro _; rfl) w s

/-- A turn that ends is not seen. -/
theorem seats_endPublish (w : System) (i : CallId) (s : SessionId) (tag : Nat) (tracked : Bool)
    (result : Except TransportFailure Unit) :
    Seats ss w (w.endPublish i s tag tracked result) := by
  rcases endPublish_effect w i s tag tracked result with ⟨_, he⟩ | ⟨_, _, he⟩ <;> rw [he] <;>
    exact (Seats.modifySession (by intro _; rfl) (by intro _; rfl) w s).setCall i _

/-- A session that is made is the last one, with the number that its connection gave it. -/
theorem seats_openSession (w : System) (i : CallId) (c : ConnectionId) (k : Nat)
    (transacted : Bool) (mode : AckMode) : ∃ x : Session, x.connection = c ∧
      x.number = (w.connection c).nextNumber ∧
      Seats [w.sessions.length] (w.enroll c x) (w.openSession i c k transacted mode) := by
  cases hc : (w.connection c).life.isClosed with
  | true =>
    rw [openSession_closed hc]
    exact ⟨_, rfl, rfl, (seats_shutSession _ _).ask⟩
  | false =>
    obtain ⟨v, hq, he⟩ := openSession_open hc i k transacted mode
    rw [he]
    exact ⟨_, rfl, rfl,
      ((hq.seats _).trans (.modifyConnection (by intro _; rfl) v c)).setCall i _⟩

/-- A call that gets its answer closes a session only as the next one of a closing connection. -/
theorem seats_resolve (w : System) (i : CallId) (e : Exchange) (reply : Reply)
    (hg : ∀ t m, e.goal ≠ .openSession t m) :
    Seats (Progress.exchange e).following w (w.resolve i e reply) := by
  have hab : ∀ (c : ConnectionId) name x claim, Seats [] w (w.abandonName c name x claim) :=
    fun c _ _ _ => .modifyConnection (by intro _; rfl) w c
  cases hgoal : e.goal with
  | openSession t m => exact absurd hgoal (hg t m)
  | closeNext s n rest failure =>
    obtain ⟨v, f', hq, he⟩ := resolve_closeNext hgoal w i reply
    rw [he]
    simp only [Progress.following, hgoal]
    exact (hq.seats rest).trans (seats_closeSessions v i _ f' rest)
  | publish s tag tracked =>
    simp only [resolve, hgoal]
    exact seats_endPublish w i s tag tracked _
  | retarget s y name claim =>
    rcases resolve_retarget hgoal w i reply with he | ⟨f, he⟩ <;> rw [he]
    · exact (Seats.refl _ w).ask
    · exact ((hab _ name y claim).mono (List.nil_subset _)).setCall i _
  | declare s y name claim =>
    rcases resolve_declare hgoal w i reply with he | ⟨f, he⟩ | ⟨f, he⟩ <;> rw [he]
    · exact (seats_adopt w s y).setCall i _
    · exact (seats_adopt w s y).setCall i _
    · exact ((hab _ name y claim).mono (List.nil_subset _)).setCall i _
  | _ =>
    obtain ⟨v, hq, he | ⟨f, he⟩⟩ := resolve_last (by rw [hgoal]; rfl) w i reply <;> rw [he] <;>
      exact (hq.seats _).setCall i _

/-! ## Steps -/

/-- The sessions that a step may close. -/
def closers (w : System) : Label → List SessionId
  | .call (.close c) => (w.connection c).sessions
  | .call (.closeSession s) => [s]
  | .run (.call i) => (w.progress? i).elim [] Progress.following
  | _ => []

/-- A call that is started closes the session that it is about, or one that is registered with the
connection that it is about. -/
theorem seats_call (w : System) (y : Call) : Seats (w.closers (.call y)) w (w.call y).2 := by
  have h : ∀ {ss}, Seats ss w (w.enlist y) := .of_lists rfl rfl
  rw [call_eq]
  cases y with
  | createSession c transacted mode via => exact h.trans (seats_createSession _ _ c _ _ _)
  | close c => exact h.trans (seats_closeConnection (w.enlist (.close c)) _ c)
  | closeSession s => exact h.trans (seats_closeSession _ _ s)
  | subscribe s d name => exact h.trans (seats_subscribe _ _ s d name)
  | unsubscribe s name => exact h.trans (seats_unsubscribe _ _ s name)
  | send s m => exact h.trans (seats_send _ _ s m)
  | awaitResume x => exact h.trans (seats_awaitResume _ _ x)

/-- A new connection gives its first session the number 1, and its place was free. -/
theorem seats_connect (w : System) {y : Connection} (hy : y.nextNumber = 1) :
    Seats [] w { w with connections := w.connections ++ [y] } := by
  refine .of_sessions rfl fun c => ?_
  rw [connection, connection, List.getElem?_append]
  split
  · rfl
  next h =>
    rw [List.getElem?_eq_none (Nat.le_of_not_lt h)]
    cases c - w.connections.length with
    | zero => exact hy
    | succ n => rfl

/-- Turning sessions closes none. -/
theorem seats_redirect (w : System) (c : ConnectionId) (life : Lifecycle) (next : Delivery) :
    Seats [] w (w.redirect c life next) := by
  have hclosed : (w.redirect c life next).sessions.map Session.closed =
      w.sessions.map Session.closed := turnAll_map (by intro _; rfl) _ _
  exact ⟨turnAll_map (by intro _; rfl) _ _, fun t _ => session_of_map hclosed t,
    connection_modifyConnection_of (g := Connection.nextNumber) (by intro _; rfl) w c⟩

/-- No operation closes a session. -/
theorem seats_operate (w : System) (o : Operation) : Seats [] w (w.operate o).2 := by
  obtain ⟨u, hu, ha⟩ := operate_change w o
  refine .trans ?_ (ha.seats [])
  cases hu with
  | none => exact .refl [] w
  | connect r timeout plan => exact seats_connect w (by rfl)
  | redirect => exact seats_redirect w _ _ _
  | @addConsumer s _ d =>
    have hadd : Seats [] w (w.addConsumer { session := s, destination := d }) := .of_lists rfl rfl
    exact hadd.trans (seats_adopt _ s _)
  | closeConsumer x => exact .of_lists (by simp) (by simp)
  | dropSession | listen => exact .modifySession (by intro _; rfl) (by intro _; rfl) w _
  | dropConnection | rename | inject | refuse | report =>
    exact .modifyConnection (by intro _; rfl) w _

/-- A call that goes on closes what it may, or it makes a session, which takes the next number of
its connection and may be closed at once. -/
theorem seats_resume (hw : w.Wired) (h : w.resume? i = some v) :
    Seats (w.closers (.run (.call i))) w v ∨ ∃ c x, c < w.connections.length ∧ x.connection = c ∧
      x.number = (w.connection c).nextNumber ∧ Seats [w.sessions.length] (w.enroll c x) v := by
  rcases resume?_cases h with ⟨s, m, tracked, _, _, rfl⟩ | ⟨e, reply, hp, _, _, rfl⟩ |
    ⟨e, after, _, _, _, rfl⟩ | ⟨e, limit, _, _, _, _, rfl⟩ | ⟨x, o, _, _, rfl⟩
  · exact .inl (seats_publish w i s m tracked)
  · by_cases hg : ∃ t m, e.goal = .openSession t m
    · obtain ⟨t, m, hg⟩ := hg
      obtain ⟨y, _, hf⟩ := hw.fits hp
      simp only [Progress.Fits, Exchange.Fits, hg] at hf
      simp only [resolve, hg]
      cases reply with
      | opened k =>
        obtain ⟨x, hx, hn, hv⟩ := seats_openSession w i e.connection k t m
        exact .inr ⟨e.connection, x, hf.2.1, hx, hn, hv⟩
      | failed f => exact .inl ((Seats.refl _ w).setCall i _)
      | done => exact .inl ((Seats.refl _ w).setCall i _)
    · rw [closers, hp]
      exact .inl (seats_resolve w i e reply fun t m he => hg ⟨t, m, he⟩)
  · exact .inl ((Seats.modifyConnection (by intro _; rfl) w _).setCall i _)
  · obtain ⟨v, hq, he⟩ := giveUp_effect w i e
    rw [he]
    exact .inl ((hq.seats _).setCall i _)
  · exact .inl ((Seats.refl _ w).setCall i _)

/-- A step closes few sessions, if any, or it makes one. -/
theorem seats_step (hw : w.Wired) {l : Label} (hs : w.step? l = some v) :
    Seats (w.closers l) w v ∨ ∃ c x, c < w.connections.length ∧ x.connection = c ∧
      x.number = (w.connection c).nextNumber ∧ Seats [w.sessions.length] (w.enroll c x) v := by
  cases l with
  | operate o =>
    obtain ⟨_, rfl⟩ := step_operate hs
    exact .inl (seats_operate w o)
  | call y =>
    obtain ⟨_, rfl⟩ := step_call hs
    exact .inl (seats_call w y)
  | run a =>
    cases a with
    | call i => exact seats_resume hw hs
    | dispatcher s =>
      obtain ⟨f, hf⟩ := framed_dispatch hs
      exact .inl ((Seats.modifyConnection (by intro _; rfl) w _).trans (hf.seats []))
  | take i =>
    left
    obtain ⟨o, _, rfl | ⟨s, _, rfl⟩⟩ := take?_cases hs
    · exact .of_lists rfl rfl
    · have hc : Seats [] w { w with
          calls := w.calls.modify i fun t => { t with taken := true } } := .of_lists rfl rfl
      exact hc.trans (.modifySession (by intro _; rfl) (by intro _; rfl) _ s)
  | tick t =>
    obtain ⟨_, rfl⟩ := step_tick hs
    exact .inl (.of_lists rfl rfl)

/-- No session has come. -/
theorem Seats.length_eq (h : Seats ss w v) : v.sessions.length = w.sessions.length := by
  simpa using congrArg List.length h.ranks

/-- Sessions keep their numbers. -/
theorem Seats.rank (h : Seats ss w v) (t : SessionId) :
    (v.session t).rank = (w.session t).rank :=
  session_of_map h.ranks t

/-- The sessions before a new one are as they were. -/
theorem session_enroll_of_lt (ht : t < w.sessions.length) (c : ConnectionId) (x : Session) :
    (w.enroll c x).session t = w.session t := by
  simp [session, List.getElem?_append_left ht]

/-- The new session is the last. -/
theorem session_enroll_self (w : System) (c : ConnectionId) (x : Session) :
    (w.enroll c x).session w.sessions.length = x := by
  simp [session]

/-- A session that no step is about to close stays as it is. -/
theorem session_step (hw : w.Wired) {l : Label} (hs : w.step? l = some v)
    (ht : t < w.sessions.length) (hl : t ∉ w.closers l) :
    (v.session t).closed = (w.session t).closed := by
  rcases seats_step hw hs with h | ⟨c, x, _, _, _, h⟩
  · exact h.closed t hl
  · rw [h.closed t fun hm => Nat.ne_of_lt ht (List.mem_singleton.1 hm), session_enroll_of_lt ht]

/-! ## Numbers -/

/-- Sessions that came later have greater numbers, and the next number is greater than all. -/
structure Numbered (w : System) : Prop where
  below : ∀ s < w.sessions.length,
    w.numberOf s < (w.connection (w.session s).connection).nextNumber
  ascend : ∀ {s t}, s < t → t < w.sessions.length →
    (w.session s).connection = (w.session t).connection → w.numberOf s < w.numberOf t

/-- Where no session comes the numbers stay in order. -/
theorem Numbered.seats (h : w.Numbered) (hv : Seats ss w v) : v.Numbered := by
  have hn : ∀ t, v.numberOf t = w.numberOf t := fun t => congrArg Prod.snd (hv.rank t)
  have hc : ∀ t, (v.session t).connection = (w.session t).connection := fun t =>
    congrArg Prod.fst (hv.rank t)
  refine ⟨fun s hs => ?_, fun {s t} hst ht hconn => ?_⟩
  · rw [hn, hc, hv.next]
    exact h.below s (hv.length_eq ▸ hs)
  · rw [hn, hn]
    exact h.ascend hst (hv.length_eq ▸ ht) (by rw [← hc, ← hc, hconn])

/-- A session that takes the next number of its connection keeps the order, for the connection goes
on to the number after it. -/
theorem Numbered.enroll (h : w.Numbered) (hc : c < w.connections.length) {x : Session}
    (hx : x.connection = c) (hn : x.number = (w.connection c).nextNumber) :
    (w.enroll c x).Numbered := by
  have hnext : ∀ d, ((w.enroll c x).connection d).nextNumber =
      if c = d then (w.connection d).nextNumber + 1 else (w.connection d).nextNumber := by
    intro d
    split
    next hd =>
      subst hd
      exact congrArg Connection.nextNumber
        (connection_modifyConnection_self (w := { w with sessions := w.sessions ++ [x] }) hc _)
    next hd => exact congrArg Connection.nextNumber (connection_modifyConnection_ne hd _)
  have hnew := session_enroll_self w c x
  have hold : ∀ {t}, t < w.sessions.length → (w.enroll c x).session t = w.session t := fun ht =>
    session_enroll_of_lt ht c x
  have hlt : ∀ {t}, t < (w.enroll c x).sessions.length →
      t < w.sessions.length ∨ t = w.sessions.length := by
    intro t ht
    rw [(enroll_leaves w c x).2.2.1, List.length_append, List.length_singleton] at ht
    exact Nat.lt_or_eq_of_le (Nat.lt_succ_iff.1 ht)
  -- The new session has the highest number of its connection, and the next one is above it.
  refine ⟨fun s hs => ?_, fun {s t} hst ht hconn => ?_⟩
  · rcases hlt hs with hs | rfl
    · rw [numberOf, hold hs, hnext]
      have := h.below s hs
      split
      · exact Nat.lt_succ_of_lt this
      · exact this
    · rw [numberOf, hnew, hnext, hx, if_pos rfl, hn]
      exact Nat.lt_succ_self _
  · rcases hlt ht with ht | rfl
    · rw [numberOf, numberOf, hold ht, hold (Nat.lt_trans hst ht)]
      rw [hold ht, hold (Nat.lt_trans hst ht)] at hconn
      exact h.ascend hst ht hconn
    · rw [hold hst, hnew, hx] at hconn
      rw [numberOf, numberOf, hold hst, hnew, hn, ← hconn]
      exact h.below s hst

end System

/-! ## Registration -/

namespace Ledger

/-- Connections register sessions in the order in which they came. -/
def Ordered (L : Ledger) : Prop := ∀ c, (L.line c).registered.Pairwise (· < ·)

/-- Only a new session is registered, which comes after all others. -/
theorem Ordered.move {L M : Ledger} (h : L.Ordered) (hp : L.Placed) (hm : Move L M) :
    M.Ordered := by
  intro d
  have hd := h d
  cases hm with
  | @register i c k hi hc hopen =>
    rw [line_assign, line_atLine (by exact hc)]
    split
    next hcd =>
      subst hcd
      -- The session that is made comes after all that are there.
      have hlt : ∀ s ∈ (L.line c).registered, s < L.rooms.length := by
        intro s hs
        obtain ⟨x, hx, _⟩ := hp.enlisted hs
        exact (List.getElem?_eq_some_iff.1 hx).1
      exact List.pairwise_append.2 ⟨hd, List.pairwise_singleton .., by simpa using hlt⟩
    next => exact hd
  -- These leave some sessions out.
  | closeRoom | forget | shutDown => grind
  | connect | drop | redirect | enlist | openChannel | discard | skip | closeNext | conclude =>
    grind

/-- Any moves keep the order. -/
theorem Ordered.moves {L M : Ledger} (h : L.Ordered) (hs : L.Sound) (hm : Moves L M) :
    M.Ordered := by
  induction hm with
  | refl => exact h
  | tail hlm hm ih => exact ih.move (hs.moves hlm).placed hm

end Ledger

namespace System

open Ledger

variable {w : System} {c : ConnectionId} {ls : List Label}

end System

end BrokerClient
