import BrokerClient.Proofs.Sending

/-!
# Calls that stay where they stand

A call goes on in its own steps only: `progress_step` says so of every step of a run. With it,
whatever is known of where a call stands outlasts all that other calls, dispatchers and the program
do, and a call that has ended stays as it ended (`ended_step`).

Nor does a stretch of a call reach the broker: `System.Stride` says that a call which goes on from
one wait to the next leaves the other calls and every broker as they were, and that it stands at a
request which it has just asked, if at one at all.

`OthersStay` is the relation behind it: of all calls but one, nothing changes. It is closed under
composition and holds of every update but `setCall`, so that a stretch is followed update by update
up to the `setCall` at its end. `JustAsked` adds where the call stands then.
-/

namespace BrokerClient

/-- What of a connection is about its broker. -/
abbrev Connection.service (x : Connection) : Span × Broker × List Fault × List Request :=
  (x.timeout, x.broker, x.faults, x.asked)

namespace System

variable {w v u : System} {i j : CallId} {c : ConnectionId} {s : SessionId} {x : ConsumerId}

/-- Every call but `i` stands where it stood. No time has passed and nothing has taken effect at a
broker, but requests may have been asked. -/
structure OthersStay (i : CallId) (w v : System) : Prop where
  now : v.now = w.now
  progress : ∀ j, i ≠ j → v.progress? j = w.progress? j
  timeout : ∀ c, (v.connection c).timeout = (w.connection c).timeout
  broker : ∀ c, (v.connection c).broker = (w.connection c).broker
  faults : ∀ c, (v.connection c).faults ⊆ (w.connection c).faults
  asked : ∀ c, (w.connection c).asked ⊆ (v.connection c).asked

/-- A call has just asked for what it waits for, with a fault that was laid out for it, if any. -/
def JustAsked (w v : System) (e : Exchange) : Prop :=
  (e.connection < v.connections.length → e.request ∈ (v.connection e.connection).asked) ∧
  ∃ failure after,
    e.stage = .before failure after ∧
    ∀ f, failure = some f → ∃ y ∈ (w.connection e.connection).faults, y.failure = some f

/-- Call `i` has gone on from one wait to the next. -/
structure Stride (i : CallId) (w v : System) : Prop extends OthersStay i w v where
  fresh : ∀ e, v.progress? i = some (.exchange e) → JustAsked w v e

namespace OthersStay

/-- Only time, calls and what connections have to do with their brokers are looked at. -/
theorem of_service (hn : v.now = w.now) (hi : v.calls = w.calls)
    (hc : ∀ c, (v.connection c).service = (w.connection c).service) : OthersStay i w v := by
  simp only [Prod.mk.injEq] at hc
  refine ⟨hn, fun j _ => by rw [progress?, hi, progress?], fun c => (hc c).1,
    fun c => (hc c).2.1, fun c => ?_, fun c => ?_⟩
  · rw [(hc c).2.2.1]
    exact fun _ h => h
  · rw [(hc c).2.2.2]
    exact fun _ h => h

theorem of_connections (hn : v.now = w.now) (hi : v.calls = w.calls)
    (hc : v.connections = w.connections) : OthersStay i w v :=
  of_service hn hi fun c => by rw [connection_congr hc]

/-- An update of a connection that leaves its broker, its faults and what was asked. -/
theorem modifyConnection {f : Connection → Connection} (hf : ∀ x, (f x).service = x.service)
    (w : System) (c : ConnectionId) : OthersStay i w (w.modifyConnection c f) :=
  of_service rfl rfl (connection_modifyConnection_of (g := Connection.service) hf w c)

theorem refl (i : CallId) (w : System) : OthersStay i w w := of_connections rfl rfl rfl

/-- What is done in a row for one call leaves the others where they stand. -/
theorem trans (h : OthersStay i w v) (h' : OthersStay i v u) : OthersStay i w u :=
  ⟨h'.now.trans h.now, fun j hij => (h'.progress j hij).trans (h.progress j hij),
    fun c => (h'.timeout c).trans (h.timeout c), fun c => (h'.broker c).trans (h.broker c),
    fun c => List.Subset.trans (h'.faults c) (h.faults c),
    fun c => List.Subset.trans (h.asked c) (h'.asked c)⟩

/-- The call itself may come to stand anywhere. -/
theorem setCall (h : OthersStay i w v) (p : Progress) : OthersStay i w (v.setCall i p) :=
  ⟨h.now, fun j hij => (progress_setCall_ne hij p).trans (h.progress j hij), h.timeout, h.broker,
    h.faults, h.asked⟩

theorem stand (h : OthersStay i w v) {p : Progress} (hp : ∀ e, p ≠ .exchange e) :
    Stride i w (v.setCall i p) :=
  ⟨h.setCall p, fun e he => absurd (progress_of_setCall he).symm (hp e)⟩

theorem finish (h : OthersStay i w v) (o : Outcome) : Stride i w (v.finish i o) := h.stand (by simp)

theorem fail (h : OthersStay i w v) (e : Error) : Stride i w (v.fail i e) := h.stand (by simp)

/-- A fault is used up, and a request may be noted. -/
theorem useFault (w : System) (c : ConnectionId) (kind : CallKind) (k : Option Nat)
    (noted : List Request) : OthersStay i w (w.modifyConnection c fun y => { y with
      faults := (takeFault kind k (w.connection c).faults).2
      asked := y.asked ++ noted }) := by
  have hf : ∀ d, ((w.modifyConnection c fun y => { y with
      faults := (takeFault kind k (w.connection c).faults).2
      asked := y.asked ++ noted }).connection d).faults ⊆ (w.connection d).faults ∧
      (w.connection d).asked ⊆ ((w.modifyConnection c fun y => { y with
      faults := (takeFault kind k (w.connection c).faults).2
      asked := y.asked ++ noted }).connection d).asked := by
    intro d
    by_cases hcd : c = d
    · subst hcd
      by_cases hc : c < w.connections.length
      · rw [connection_modifyConnection_self hc]
        exact ⟨List.eraseP_subset, List.subset_append_left _ _⟩
      · rw [System.modifyConnection, List.modify_eq_self (Nat.le_of_not_lt hc)]
        exact ⟨fun _ h => h, fun _ h => h⟩
    · rw [connection_modifyConnection_ne hcd]
      exact ⟨fun _ h => h, fun _ h => h⟩
  exact ⟨rfl, fun _ _ => rfl,
    connection_modifyConnection_of (g := Connection.timeout) (by intro _; rfl) w c,
    connection_modifyConnection_of (g := Connection.broker) (by intro _; rfl) w c,
    fun d => (hf d).1, fun d => (hf d).2⟩

/-- A call that comes to wait for the broker has just asked, and whether it is going to fail is what
a fault had laid out. -/
theorem ask (h : OthersStay i w v) {c : ConnectionId} {request : Request} {limit : Option Nat}
    {goal : Goal} : Stride i w (v.ask i c request limit goal) := by
  have hu := useFault (i := i) v c request.kind request.channel? [request]
  rw [ask_eq]
  refine ⟨(h.trans hu).setCall _, fun e he => ?_⟩
  obtain ⟨rfl⟩ : v.exchangeFor c request limit goal = e :=
    (Progress.exchange.inj (progress_of_setCall he)).symm
  refine ⟨fun hc => ?_, _, _, rfl, fun f hf => ?_⟩
  · simp only [connection_setCall, exchangeFor_parts]
    rw [connection_modifyConnection_self (by simpa using hc)]
    simp
  · -- The failure is that of the fault which was laid out.
    cases hfault : (takeFault request.kind request.channel? (v.connection c).faults).1 with
    | none =>
      rw [hfault] at hf
      cases hf
    | some y =>
      rw [hfault] at hf
      exact ⟨y, h.faults c (List.mem_of_find?_eq_some hfault), hf⟩

/-- A stretch that begins by changing what others do not see. -/
theorem andThen (h : OthersStay i w v) (h' : Stride i v u) : Stride i w u :=
  ⟨h.trans h'.toOthersStay, fun e he => by
    obtain ⟨hask, failure, after, hs, hf⟩ := h'.fresh e he
    exact ⟨hask, failure, after, hs, fun f hff => by
      obtain ⟨y, hy, hyf⟩ := hf f hff
      exact ⟨y, h.faults _ hy, hyf⟩⟩⟩

end OthersStay

/-- Telling something moves no call. -/
theorem Quiet.othersStay (h : Quiet w v) (i : CallId) : OthersStay i w v :=
  .of_connections h.now h.calls h.connections

/-! ## Starting -/

/-- Closing a session without the broker moves none. -/
theorem othersStay_shutSession (w : System) (i : CallId) (s : SessionId) :
    OthersStay i w (w.shutSession s).2 :=
  .of_connections (by simp) (by simp) (by simp)

/-- A call that goes on with the sessions of a connection asks for one close, in the end for that of
the broker connection. -/
theorem stride_closeSessions (w : System) (i : CallId) (c : ConnectionId)
    (failure : Option TransportFailure) (ss : List SessionId) :
    Stride i w (w.closeSessions i c failure ss) := by
  induction ss with
  | nil =>
    rw [closeSessions]
    exact (OthersStay.refl i w).ask
  | cons s ss ih =>
    rw [closeSessions]
    split
    · exact ih
    · exact (othersStay_shutSession w i s).ask

/-- A call that closes a connection. -/
theorem stride_closeConnection (w : System) (i : CallId) (c : ConnectionId) :
    Stride i w (w.closeConnection i c) := by
  rcases closeConnection_effect w i c with ⟨_, v, hq, he⟩ | ⟨_, v, rs, hq, he⟩
  · rw [he]
    exact (hq.othersStay i).finish _
  · rw [he]
    have hrs : OthersStay i v { v with registries := rs } := .of_connections rfl rfl rfl
    have hm := hrs.trans (.modifyConnection (f := fun x =>
      { x with life := .closed, clientId := none, sessions := [] }) (by intro _; rfl) _ c)
    exact ((hq.othersStay i).trans hm).andThen (stride_closeSessions _ i c none _)

/-- A connection that forgets a session asks nothing. -/
theorem othersStay_forget (w : System) (i : CallId) (s : SessionId) :
    OthersStay i w (w.forget s) := by
  unfold forget
  split
  · exact .modifyConnection (by intro _; rfl) w _
  · exact .refl i w

/-- A call that closes a session. -/
theorem stride_closeSession (w : System) (i : CallId) (s : SessionId) :
    Stride i w (w.closeSession i s) := by
  obtain ⟨v, hq, ⟨_, he⟩ | ⟨_, he⟩⟩ := closeSession_effect w i s
  · rw [he]
    exact ((hq.othersStay i).trans (othersStay_forget v i s)).finish _
  · rw [he]
    exact (((hq.othersStay i).trans (othersStay_forget v i s)).trans
      (othersStay_shutSession _ i s)).ask

/-- The time for setting the identifier has nothing to do with calls. -/
theorem othersStay_closeIdentifierWindow (w : System) (i : CallId) (c : ConnectionId) :
    OthersStay i w (w.closeIdentifierWindow c) :=
  .modifyConnection (by intro _; rfl) w c

/-- A call that creates a session. -/
theorem stride_createSession (w : System) (i : CallId) (c : ConnectionId) (transacted : Bool)
    (mode : AckMode) (via : Option Domain) :
    Stride i w (w.createSession i c transacted mode via) := by
  obtain ⟨v, hq, ⟨_, he | he⟩ | ⟨_, he⟩⟩ := createSession_effect w i c transacted mode via
  · rw [he]
    exact (hq.othersStay i).fail _
  · rw [he]
    exact ((hq.othersStay i).trans (othersStay_closeIdentifierWindow v i c)).fail _
  · rw [he]
    exact ((hq.othersStay i).trans (othersStay_closeIdentifierWindow v i c)).ask

/-- Taking a name asks nothing of the broker yet. -/
theorem othersStay_claimName {name : String} {d : Destination} {claim : Claim}
    (h : w.claimName c name x d = .ok (claim, v)) (i : CallId) : OthersStay i w v := by
  obtain ⟨_, hq⟩ := claimName_effect h
  exact (OthersStay.modifyConnection (by intro _; rfl) w c).trans (hq.othersStay i)

/-- A call that creates a durable subscriber. -/
theorem stride_subscribe (w : System) (i : CallId) (s : SessionId) (d : Destination)
    (name : String) : Stride i w (w.subscribe i s d name) := by
  rcases subscribe_effect w i s d name with ⟨e, _, he⟩ | ⟨_, _, claim, v, u, hclaim, hq, he⟩
  · rw [he]
    exact (OthersStay.refl i w).fail e
  · have hv : OthersStay i v { v with consumers := v.consumers ++
        [{ session := s, destination := d, subscription := some name }] } :=
      .of_connections rfl rfl rfl
    have hu := ((othersStay_claimName hclaim i).trans hv).trans (hq.othersStay i)
    rcases he with ⟨_, he⟩ | he
    · rw [he]
      exact hu.ask
    · rw [he]
      exact hu.ask

/-- A call that unsubscribes. -/
theorem stride_unsubscribe (w : System) (i : CallId) (s : SessionId) (name : String) :
    Stride i w (w.unsubscribe i s name) := by
  rcases unsubscribe_effect w i s name with ⟨e, _, he⟩ | ⟨holder, r, _, he⟩
  · rw [he]
    exact (OthersStay.refl i w).fail e
  · rw [he]
    exact (OthersStay.modifyConnection (by intro _; rfl) w _).ask

/-- The next number is read without a wait. -/
theorem othersStay_readyToPublish (w : System) (i : CallId) (s : SessionId) (m : Message)
    (tracked : Bool) : OthersStay i w (w.readyToPublish s m tracked) := by
  have h := OthersStay.useFault (i := i) w (w.session s).connection .nextTag
    (some (w.session s).channel) []
  simp only [List.append_nil] at h
  cases tracked with
  | false => exact h
  | true => exact h.trans (.of_connections rfl rfl rfl)

/-- A call that publishes. -/
theorem stride_publish (w : System) (i : CallId) (s : SessionId) (m : Message)
    (tracked : Bool) : Stride i w (w.publish i s m tracked) := by
  rw [publish_eq]
  exact (othersStay_readyToPublish w i s m tracked).ask

/-- A call that sends, with or without a wait for its turn. -/
theorem stride_send (w : System) (i : CallId) (s : SessionId) (m : Message) :
    Stride i w (w.send i s m) := by
  have hv : OthersStay i w (w.takePlace i s) := .of_connections rfl rfl rfl
  rcases send_effect w i s m with he | ⟨_, he⟩ | he <;> rw [he]
  · exact (OthersStay.refl i w).fail _
  · exact hv.andThen (stride_publish _ i s m _)
  · exact hv.stand (by simp)

/-- A call that waits for delivery. -/
theorem stride_awaitResume (w : System) (i : CallId) (x : ConsumerId) :
    Stride i w (w.awaitResume i x) := by
  unfold awaitResume
  split
  · exact (OthersStay.refl i w).finish _
  · exact (OthersStay.refl i w).stand (by simp)

/-- The first stretch of any call. -/
theorem stride_begin (w : System) (i : CallId) (y : Call) : Stride i w (w.begin i y) := by
  cases y with
  | createSession c transacted mode via => exact stride_createSession w i c transacted mode via
  | close c => exact stride_closeConnection w i c
  | closeSession t => exact stride_closeSession w i t
  | subscribe t d name => exact stride_subscribe w i t d name
  | unsubscribe t name => exact stride_unsubscribe w i t name
  | send t m => exact stride_send w i t m
  | awaitResume y => exact stride_awaitResume w i y

/-! ## Going on -/

/-- A new session moves no call. -/
theorem othersStay_enroll (w : System) (i : CallId) (c : ConnectionId) (y : Session) :
    OthersStay i w (w.enroll c y) := by
  have hs : OthersStay i w { w with sessions := w.sessions ++ [y] } :=
    .of_connections rfl rfl rfl
  exact hs.trans (.modifyConnection (f := fun x => { x with nextNumber := x.nextNumber + 1 })
    (by intro _; rfl) _ c)

/-- A call whose channel was opened. -/
theorem stride_openSession (w : System) (i : CallId) (c : ConnectionId) (k : Nat)
    (transacted : Bool) (mode : AckMode) :
    Stride i w (w.openSession i c k transacted mode) := by
  cases hc : (w.connection c).life.isClosed with
  | true =>
    rw [openSession_closed hc]
    exact ((othersStay_enroll w i c _).trans (othersStay_shutSession _ i _)).ask
  | false =>
    obtain ⟨v, hq, he⟩ := openSession_open hc i k transacted mode
    rw [he]
    exact (((othersStay_enroll w i c _).trans (hq.othersStay i)).trans
      (.modifyConnection (by intro _; rfl) v c)).finish _

/-- A call whose message was published or refused. The next in turn is not moved; it goes on by
itself. -/
theorem stride_endPublish (w : System) (i : CallId) (s : SessionId) (tag : Nat)
    (tracked : Bool) (result : Except TransportFailure Unit) :
    Stride i w (w.endPublish i s tag tracked result) := by
  have hm : ∀ f, OthersStay i w (w.modifySession s f) := fun _ => .of_connections rfl rfl rfl
  rcases endPublish_effect w i s tag tracked result with ⟨_, he⟩ | ⟨_, _, he⟩
  · rw [he]
    exact (hm _).finish _
  · rw [he]
    exact (hm _).fail _

/-- Handing a consumer to its session moves no call. -/
theorem othersStay_adopt (w : System) (i : CallId) (s : SessionId) (x : ConsumerId) :
    OthersStay i w (w.adopt s x).2 :=
  .of_connections (by simp) (by simp) (by simp)

/-- A call that takes its claim back and fails. -/
theorem stride_abandon (w : System) (i : CallId) (c : ConnectionId) (name : String)
    (x : ConsumerId) (claim : Claim) (f : Error) :
    Stride i w ((w.abandonName c name x claim).fail i f) :=
  (OthersStay.modifyConnection (by intro _; rfl) w c).fail f

/-- A call that has its answer, by what it was asking for. -/
theorem stride_resolve (w : System) (i : CallId) (e : Exchange) (reply : Reply) :
    Stride i w (w.resolve i e reply) := by
  -- Each goal ends in one of a few ways: the call ends, asks again, or closes the next session.
  cases hgoal : e.goal with
  | openSession transacted mode =>
    simp only [resolve, hgoal]
    cases reply with
    | opened k => exact stride_openSession w i _ k _ _
    | failed f => exact (OthersStay.refl i w).fail _
    | done => exact (OthersStay.refl i w).fail _
  | closeNext s n rest failure =>
    obtain ⟨v, f', hq, he⟩ := resolve_closeNext hgoal w i reply
    rw [he]
    exact (hq.othersStay i).andThen (stride_closeSessions v i _ f' rest)
  | publish s tag tracked =>
    simp only [resolve, hgoal]
    exact stride_endPublish w i s tag tracked _
  | retarget s y name claim =>
    rcases resolve_retarget hgoal w i reply with he | ⟨f, he⟩
    · rw [he]
      exact (OthersStay.refl i w).ask
    · rw [he]
      exact stride_abandon w i _ name y claim f
  | declare s y name claim =>
    rcases resolve_declare hgoal w i reply with he | ⟨f, he⟩ | ⟨f, he⟩
    · rw [he]
      exact (othersStay_adopt w i s y).finish _
    · rw [he]
      exact (othersStay_adopt w i s y).fail f
    · rw [he]
      exact stride_abandon w i _ name y claim f
  | _ =>
    obtain ⟨v, hq, he | ⟨f, he⟩⟩ := resolve_last (by rw [hgoal]; rfl) w i reply
    · rw [he]
      exact (hq.othersStay i).finish _
    · rw [he]
      exact (hq.othersStay i).fail f

/-- A call that gives up. -/
theorem stride_giveUp (w : System) (i : CallId) (e : Exchange) : Stride i w (w.giveUp i e) := by
  obtain ⟨v, hq, he⟩ := giveUp_effect w i e
  rw [he]
  exact (hq.othersStay i).fail _

/-- A call that goes on has a request take effect, or goes on to another wait. -/
theorem resume_cases (h : w.resume? i = some v) :
    (∃ e after, w.progress? i = some (.exchange e) ∧ e.wake ≤ w.now ∧
      e.stage = .before none after ∧ v = w.takeEffect i e after) ∨ Stride i w v := by
  rcases resume?_cases h with ⟨s, m, tracked, _, _, rfl⟩ | ⟨e, reply, _, _, _, rfl⟩ |
    he | ⟨e, limit, _, _, _, _, rfl⟩ | ⟨x, o, _, _, rfl⟩
  · exact .inr (stride_publish w i s m tracked)
  · exact .inr (stride_resolve w i e reply)
  · exact .inl he
  · exact .inr (stride_giveUp w i e)
  · exact .inr ((OthersStay.refl i w).finish _)

/-! ## Steps -/

/-- A call that is started goes on to its first wait. -/
theorem stride_call (w : System) (y : Call) : Stride w.calls.length (w.enlist y) (w.call y).2 :=
  stride_begin _ _ y

/-- The calls before a new one stand where they stood. -/
theorem progress_enlist_of_lt (hi : i < w.calls.length) (y : Call) :
    (w.enlist y).progress? i = w.progress? i := by
  rw [progress?, enlist, List.getElem?_append_left hi, progress?]

/-- A call that was started goes on in its own steps only. -/
theorem progress_step {l : Label} (h : w.step? l = some v) (hi : i < w.calls.length)
    (hl : l ≠ .run (.call i)) : v.progress? i = w.progress? i := by
  cases l with
  | operate o =>
    obtain ⟨_, rfl⟩ := step_operate h
    rw [progress?, operate_calls, progress?]
  | call y =>
    obtain ⟨_, rfl⟩ := step_call h
    -- The call that is started is a new one.
    exact ((stride_call w y).progress i (Nat.ne_of_gt hi)).trans (progress_enlist_of_lt hi y)
  | run a =>
    cases a with
    | call j =>
      have hji : j ≠ i := by
        rintro rfl
        exact hl rfl
      rcases resume_cases h with ⟨e, after, _, _, _, rfl⟩ | hs
      · exact progress_setCall_ne hji _
      · exact hs.progress i hji
    | dispatcher s =>
      obtain ⟨f, hf⟩ := framed_dispatch h
      rw [progress?, hf.calls]
      rfl
  | take j =>
    obtain ⟨o, _, rfl | ⟨s, _, rfl⟩⟩ := take?_cases h
    · exact progress_take w j i
    · exact progress_take w j i
  | tick t =>
    obtain ⟨_, rfl⟩ := step_tick h
    rfl

/-- A call that has ended stays as it ended. -/
theorem ended_step {l : Label} (h : w.step? l = some v) {o : Outcome}
    (ho : w.progress? i = some (.ended o)) : v.progress? i = some (.ended o) := by
  -- It has no step of its own any more.
  refine (progress_step h (lt_of_progress ho) ?_).trans ho
  rintro rfl
  have hr : w.resume? i = some v := h
  rw [resume?, ho] at hr
  cases hr

/-- A call that has ended has ended for good. -/
theorem Run.ended_stays {ls : List Label} (h : Run w ls v) {o : Outcome}
    (ho : w.progress? i = some (.ended o)) : v.progress? i = some (.ended o) := by
  induction h with
  | refl => exact ho
  | step _ hs ih => exact ended_step hs ih

end System

end BrokerClient
