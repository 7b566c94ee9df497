import BrokerClient.Proofs.SessionSet

/-!
# Who closes a consumer

A consumer is closed by itself, or together with its session, and for no other reason
(`closedFor_of_run`). The session closes the consumers that it lists, which are consumers of its
own, and refuses one that comes to it too late.

`ClosedFor P` is the invariant, where `P` holds of the consumers that were closed by themselves. It
also says where consumers are: each belongs to a session that is there, and a session lists
consumers of its own. Without this a session that is shut could close a consumer of another one. The
stretches that touch consumers are few (`closeConsumer`, `shutSession`, `enroll`, `addConsumer`,
`adopt`), and for all the others the invariant is carried over because they change neither list.
-/

namespace BrokerClient

/-- What closing looks at in a session: its consumers, and whether it is closed. -/
abbrev Session.shelf (x : Session) : List ConsumerId × Bool := (x.consumers, x.closed)

namespace System

/-- Sessions list consumers of their own, and a consumer is closed because `P` holds of it or
because its session is closed. -/
structure ClosedFor (P : ConsumerId → Prop) (w : System) : Prop where
  homed : ∀ x < w.consumers.length, (w.consumer x).session < w.sessions.length
  listed : ∀ s, ∀ x ∈ (w.session s).consumers,
    x < w.consumers.length ∧ (w.consumer x).session = s
  cause : ∀ x, (w.consumer x).closed = true →
    P x ∨ (w.session (w.consumer x).session).closed = true

variable {P Q : ConsumerId → Prop} {w v u : System} {i : CallId} {c : ConnectionId}
  {s t : SessionId} {x : ConsumerId} {ls : List Label}

/-! ## Closing consumers -/

/-- Only a consumer that is there is closed. -/
theorem lt_of_consumer_closed (h : (w.consumer x).closed = true) : x < w.consumers.length := by
  by_contra hx
  rw [consumer, List.getElem?_eq_none (Nat.le_of_not_lt hx)] at h
  exact absurd h (by decide)

theorem length_closeConsumer (w : System) (x : ConsumerId) :
    (w.closeConsumer x).consumers.length = w.consumers.length := by
  rw [closeConsumer_consumers, List.length_modify]

/-- Closing a consumer closes no other one, and it keeps its session. -/
theorem consumer_closeConsumer (w : System) (y x : ConsumerId) :
    ((w.closeConsumer y).consumer x).session = (w.consumer x).session ∧
    (((w.closeConsumer y).consumer x).closed = true →
      (w.consumer x).closed = true ∨ x = y) := by
  rw [consumer, consumer, closeConsumer_consumers, List.getElem?_modify]
  by_cases hxy : y = x
  · subst hxy
    cases w.consumers[y]? <;> simp
  · simp only [hxy, if_false, id_map', true_and]
    exact .inl

/-- Closing several of them, one after the other, closes no other ones. -/
theorem consumer_foldl_closeConsumer (cs : List ConsumerId) (w : System) (x : ConsumerId) :
    ((cs.foldl closeConsumer w).consumer x).session = (w.consumer x).session ∧
    (((cs.foldl closeConsumer w).consumer x).closed = true →
      (w.consumer x).closed = true ∨ x ∈ cs) ∧
    (cs.foldl closeConsumer w).consumers.length = w.consumers.length := by
  induction cs generalizing w with
  | nil => exact ⟨rfl, .inl, rfl⟩
  | cons y cs ih =>
    obtain ⟨hs, hc, hl⟩ := ih (w.closeConsumer y)
    obtain ⟨hs', hc'⟩ := consumer_closeConsumer w y x
    refine ⟨hs.trans hs', fun h => ?_, hl.trans (length_closeConsumer w y)⟩
    rcases hc h with h | h
    · refine (hc' h).imp id fun he => ?_
      rw [he]
      exact List.mem_cons_self
    · exact .inr (List.mem_cons_of_mem y h)

/-- Shutting a session closes none but the consumers that it lists. -/
theorem consumer_shutSession (w : System) (s : SessionId) (x : ConsumerId) :
    ((w.shutSession s).2.consumer x).session = (w.consumer x).session ∧
    (((w.shutSession s).2.consumer x).closed = true →
      (w.consumer x).closed = true ∨ x ∈ (w.session s).consumers) ∧
    (w.shutSession s).2.consumers.length = w.consumers.length :=
  consumer_foldl_closeConsumer (w.session s).consumers (w.modifySession s Session.shut) x

/-- Shutting a session closes that one. -/
theorem closed_shutSession (ht : t < w.sessions.length) :
    ((w.shutSession s).2.session t).closed = ((w.session t).closed || t = s) := by
  rw [session_congr (w := w.modifySession s Session.shut) (by simp)]
  by_cases hst : s = t
  · subst hst
    simp [session_modifySession_self ht, Session.shut]
  · simp [session_modifySession_ne hst, Ne.symm hst]

/-- It lists no more consumers than before. -/
theorem consumers_shutSession (w : System) (s t : SessionId) :
    ((w.shutSession s).2.session t).consumers ⊆ (w.session t).consumers := by
  rw [session_congr (w := w.modifySession s Session.shut) (by simp)]
  rcases session_modifySession_cases w s Session.shut t with he | he <;> rw [he]
  · exact List.Subset.refl _
  · exact List.nil_subset _

/-! ## New consumers -/

theorem length_addConsumer (w : System) (y : Consumer) :
    (w.addConsumer y).consumers.length = w.consumers.length + 1 := List.length_append

theorem consumer_addConsumer_of_lt (hx : x < w.consumers.length) (y : Consumer) :
    (w.addConsumer y).consumer x = w.consumer x := by
  simp [consumer, addConsumer, List.getElem?_append_left hx]

theorem consumer_addConsumer_self (w : System) (y : Consumer) :
    (w.addConsumer y).consumer w.consumers.length = y := by
  simp [consumer, addConsumer]

namespace ClosedFor

theorem mono (h : ClosedFor P w) (hPQ : ∀ x, P x → Q x) : ClosedFor Q w :=
  ⟨h.homed, h.listed, fun x hx => (h.cause x hx).imp_left (hPQ x)⟩

/-- A client that closing does not tell from another. -/
theorem same (h : ClosedFor P w) (hs : v.sessions.map Session.shelf = w.sessions.map Session.shelf)
    (hx : v.consumers = w.consumers) : ClosedFor P v := by
  have hshelf (s) : (v.session s).shelf = (w.session s).shelf := session_of_map hs s
  simp only [Prod.mk.injEq] at hshelf
  have hlen : v.sessions.length = w.sessions.length := by simpa using congrArg List.length hs
  refine ⟨fun x hlt => ?_, fun s x hxs => ?_, fun x hcl => ?_⟩
  · rw [consumer_congr hx, hlen]
    exact h.homed x (hx ▸ hlt)
  · rw [(hshelf s).1] at hxs
    rw [consumer_congr hx, hx]
    exact h.listed s x hxs
  · rw [consumer_congr hx] at hcl ⊢
    rw [(hshelf _).2]
    exact h.cause x hcl

/-- Nothing but sessions and consumers matters. -/
theorem of_lists (h : ClosedFor P w) (hs : v.sessions = w.sessions)
    (hx : v.consumers = w.consumers) : ClosedFor P v :=
  h.same (congrArg _ hs) hx

theorem quiet (h : ClosedFor P w) (hq : Quiet w v) : ClosedFor P v :=
  h.of_lists hq.sessions hq.consumers

theorem modifyConnection (h : ClosedFor P w) (c : ConnectionId) (f : Connection → Connection) :
    ClosedFor P (w.modifyConnection c f) :=
  h.of_lists rfl rfl

theorem modifySession (h : ClosedFor P w) {f : Session → Session} (hf : ∀ x, (f x).shelf = x.shelf)
    (s : SessionId) : ClosedFor P (w.modifySession s f) :=
  h.same (map_modify_eq hf w.sessions s) rfl

theorem setCall (h : ClosedFor P w) (i : CallId) (p : Progress) : ClosedFor P (w.setCall i p) :=
  h.of_lists rfl rfl

theorem ask (h : ClosedFor P w) {request : Request} {limit : Option Nat} {goal : Goal} :
    ClosedFor P (w.ask i c request limit goal) := h.of_lists (by simp) (by simp)

/-- A consumer is closed for a reason. -/
theorem closeConsumer (h : ClosedFor P w)
    (hx : P x ∨ (w.session (w.consumer x).session).closed = true) :
    ClosedFor P (w.closeConsumer x) := by
  have hsessions : (w.closeConsumer x).sessions = w.sessions := (closeConsumer_leaves w x).2.2.2.1
  refine ⟨fun y hy => ?_, fun s y hy => ?_, fun y hy => ?_⟩
  · rw [(consumer_closeConsumer w x y).1, hsessions]
    exact h.homed y (length_closeConsumer w x ▸ hy)
  · rw [session_congr hsessions] at hy
    rw [(consumer_closeConsumer w x y).1, length_closeConsumer]
    exact h.listed s y hy
  · rw [(consumer_closeConsumer w x y).1, session_congr hsessions]
    rcases (consumer_closeConsumer w x y).2 hy with hy | rfl
    · exact h.cause y hy
    · exact hx

/-- A session is closed with the consumers that it lists. -/
theorem shutSession (h : ClosedFor P w) (s : SessionId) : ClosedFor P (w.shutSession s).2 := by
  have hx := consumer_shutSession w s
  refine ⟨fun x hxl => ?_, fun t x hxt => ?_, fun x hcl => ?_⟩
  · rw [(hx x).1, (shutSession_leaves w s).2.2.2.1, List.length_modify]
    exact h.homed x ((hx x).2.2 ▸ hxl)
  · obtain ⟨hl, ht⟩ := h.listed t x (consumers_shutSession w s t hxt)
    exact ⟨(hx x).2.2.symm ▸ hl, (hx x).1.trans ht⟩
  · have hlt : x < w.consumers.length := (hx x).2.2 ▸ lt_of_consumer_closed hcl
    rw [(hx x).1, closed_shutSession (h.homed x hlt), Bool.or_eq_true]
    rcases (hx x).2.1 hcl with hold | hnew
    · exact (h.cause x hold).imp_right .inl
    · exact .inr (.inr (decide_eq_true (h.listed s x hnew).2))

/-- A session comes, with no consumers yet. -/
theorem enroll (h : ClosedFor P w) (c : ConnectionId) {y : Session} (hy : y.consumers = []) :
    ClosedFor P (w.enroll c y) := by
  have hcons (x) : (w.enroll c y).consumer x = w.consumer x := rfl
  refine ⟨fun x hx => ?_, fun t x hx => ?_, fun x hcl => ?_⟩
  · rw [hcons, (enroll_leaves w c y).2.2.1, List.length_append]
    exact Nat.lt_add_right _ (h.homed x hx)
  · rcases session_enroll_cases w c y t with hold | ⟨_, hnew⟩
    · rw [hold] at hx
      exact h.listed t x hx
    · rw [hnew, hy] at hx
      cases hx
  · rw [hcons] at hcl ⊢
    refine (h.cause x hcl).imp_right fun hclosed => ?_
    rcases session_enroll_cases w c y (w.consumer x).session with hold | ⟨hnone, _⟩
    · rw [hold, hclosed]
    · rw [hnone] at hclosed
      cases hclosed

/-- A consumer comes to a session that there is. -/
theorem addConsumer (h : ClosedFor P w) {y : Consumer} (hs : y.session < w.sessions.length)
    (hy : y.closed = false) : ClosedFor P (w.addConsumer y) := by
  have hcases {x} (hx : x < (w.addConsumer y).consumers.length) :
      x < w.consumers.length ∨ x = w.consumers.length := by
    rw [length_addConsumer] at hx
    exact Nat.lt_succ_iff_lt_or_eq.1 hx
  refine ⟨fun x hx => ?_, fun t x hx => ?_, fun x hcl => ?_⟩
  · rcases hcases hx with hlt | rfl
    · rw [consumer_addConsumer_of_lt hlt]
      exact h.homed x hlt
    · rw [consumer_addConsumer_self]
      exact hs
  · obtain ⟨hlt, ht⟩ := h.listed t x hx
    rw [consumer_addConsumer_of_lt hlt, length_addConsumer]
    exact ⟨Nat.lt_succ_of_lt hlt, ht⟩
  · rcases hcases (lt_of_consumer_closed hcl) with hlt | rfl
    · rw [consumer_addConsumer_of_lt hlt] at hcl ⊢
      exact h.cause x hcl
    · rw [consumer_addConsumer_self, hy] at hcl
      cases hcl

/-- A session takes a consumer of its own, or closes it. -/
theorem adopt (h : ClosedFor P w) (hlt : x < w.consumers.length)
    (hx : (w.consumer x).session = s) : ClosedFor P (w.adopt s x).2 := by
  unfold System.adopt
  split
  next hcl =>
    subst hx
    exact h.closeConsumer (.inr hcl)
  next hopen =>
    -- Writing the list of a session leaves it open or closed as it was.
    have hclosed (t) : ((w.modifySession s fun y => { y with
        consumers := y.consumers.filter (fun d => !w.consumerClosed d) ++ [x] }).session t).closed =
        (w.session t).closed :=
      session_modifySession_of (g := Session.closed) (by intro _; rfl) w s t
    refine ⟨fun y hy => ?_, fun t y hy => ?_, fun y hcl => ?_⟩
    · rw [(modifySession_leaves w s _).2.2.2.1, List.length_modify]
      exact h.homed y hy
    · by_cases hst : s = t
      · subst hst
        rcases session_modifySession_cases w s _ s with he | he <;> rw [he] at hy
        · exact h.listed s y hy
        · rcases List.mem_append.1 hy with hy | hy
          · exact h.listed s y (List.mem_filter.1 hy).1
          · obtain rfl := List.mem_singleton.1 hy
            exact ⟨hlt, hx⟩
      · rw [session_modifySession_ne hst] at hy
        exact h.listed t y hy
    · rw [hclosed]
      exact h.cause y hcl

end ClosedFor

/-! ## Calls -/

/-- A call that closes the sessions of a connection shuts one of them, with its consumers. -/
theorem closedFor_closeSessions (h : ClosedFor P w) (i : CallId) (c : ConnectionId)
    (failure : Option TransportFailure) (ss : List SessionId) :
    ClosedFor P (w.closeSessions i c failure ss) := by
  induction ss with
  | nil =>
    rw [closeSessions]
    exact h.ask
  | cons s ss ih =>
    rw [closeSessions]
    split
    · exact ih
    · exact (h.shutSession s).ask

theorem closedFor_closeConnection (h : ClosedFor P w) (i : CallId) (c : ConnectionId) :
    ClosedFor P (w.closeConnection i c) := by
  rcases closeConnection_effect w i c with ⟨_, v, hq, he⟩ | ⟨_, v, rs, hq, he⟩ <;> rw [he]
  · exact (h.quiet hq).setCall i _
  · have hrs : ClosedFor P { v with registries := rs } := (h.quiet hq).of_lists rfl rfl
    exact closedFor_closeSessions (hrs.modifyConnection c _) i c none _

theorem closedFor_closeSession (h : ClosedFor P w) (i : CallId) (s : SessionId) :
    ClosedFor P (w.closeSession i s) := by
  obtain ⟨v, hq, hcases⟩ := closeSession_effect w i s
  have hforget : ClosedFor P (v.forget s) := (h.quiet hq).of_lists (by simp) (by simp)
  rcases hcases with ⟨_, he⟩ | ⟨_, he⟩ <;> rw [he]
  · exact hforget.setCall i _
  · exact (hforget.shutSession s).ask

/-- A call for a session asks for a channel, or is refused. -/
theorem closedFor_createSession (h : ClosedFor P w) (i : CallId) (c : ConnectionId)
    (transacted : Bool) (mode : AckMode) (via : Option Domain) :
    ClosedFor P (w.createSession i c transacted mode via) := by
  obtain ⟨v, hq, ⟨_, he | he⟩ | ⟨_, he⟩⟩ := createSession_effect w i c transacted mode via <;>
    rw [he]
  · exact (h.quiet hq).setCall i _
  · exact ((h.quiet hq).modifyConnection c _).setCall i _
  · exact ((h.quiet hq).modifyConnection c _).ask

/-- A session that is opened has no consumers, and one that comes too late is none. -/
theorem closedFor_openSession (h : ClosedFor P w) (i : CallId) (c : ConnectionId) (k : Nat)
    (transacted : Bool) (mode : AckMode) : ClosedFor P (w.openSession i c k transacted mode) := by
  cases hc : (w.connection c).life.isClosed with
  | true =>
    rw [openSession_closed hc]
    exact ((h.enroll c rfl).shutSession _).ask
  | false =>
    obtain ⟨v, hq, he⟩ := openSession_open hc i k transacted mode
    rw [he]
    exact (((h.enroll c rfl).quiet hq).modifyConnection c _).setCall i _

/-- The consumer of a durable subscription is there before its session takes it. -/
theorem closedFor_subscribe (h : ClosedFor P w) (hs : s < w.sessions.length) (i : CallId)
    (d : Destination) (name : String) : ClosedFor P (w.subscribe i s d name) := by
  rcases subscribe_effect w i s d name with ⟨e, _, he⟩ | ⟨_, _, claim, v, u, hclaim, hq, he⟩
  · rw [he]
    exact h.setCall i _
  · obtain ⟨_, hsessions, hconsumers, _⟩ := claimName_leaves hclaim
    have hv : ClosedFor P v := h.of_lists hsessions hconsumers
    have hu : ClosedFor P u :=
      (hv.addConsumer (y := { session := s, destination := d, subscription := some name })
        (hsessions ▸ hs) rfl).quiet hq
    rcases he with ⟨_, he⟩ | he <;> rw [he] <;> exact hu.ask

/-- Unsubscribing closes nobody: the consumer of the name is closed before. -/
theorem closedFor_unsubscribe (h : ClosedFor P w) (i : CallId) (s : SessionId) (name : String) :
    ClosedFor P (w.unsubscribe i s name) := by
  rcases unsubscribe_effect w i s name with ⟨e, _, he⟩ | ⟨holder, r, _, he⟩ <;> rw [he]
  · exact h.setCall i _
  · exact (h.modifyConnection _ _).ask

theorem closedFor_publish (h : ClosedFor P w) (i : CallId) (s : SessionId) (m : Message)
    (tracked : Bool) : ClosedFor P (w.publish i s m tracked) := by
  have hready : ClosedFor P (w.readyToPublish s m tracked) := by
    cases tracked with
    | false => exact h.modifyConnection _ _
    | true => exact (h.modifyConnection _ _).modifySession (by intro _; rfl) s
  rw [publish_eq]
  exact hready.ask

theorem closedFor_send (h : ClosedFor P w) (i : CallId) (s : SessionId) (m : Message) :
    ClosedFor P (w.send i s m) := by
  have hplace : ClosedFor P (w.takePlace i s) := h.modifySession (by intro _; rfl) s
  rcases send_effect w i s m with he | ⟨_, he⟩ | he <;> rw [he]
  · exact h.setCall i _
  · exact closedFor_publish hplace i s m _
  · exact hplace.setCall i _

/-- Whatever call is made, it closes consumers with their session only. -/
theorem closedFor_call (h : ClosedFor P w) {y : Call} (hy : w.mayCall y = true) :
    ClosedFor P (w.call y).2 := by
  have hw : ClosedFor P (w.enlist y) := h.of_lists rfl rfl
  rw [call_eq]
  cases y with
  | createSession c transacted mode via => exact closedFor_createSession hw _ c _ _ _
  | close c => exact closedFor_closeConnection hw _ c
  | closeSession t => exact closedFor_closeSession hw _ t
  | subscribe t d name => exact closedFor_subscribe hw (lt_of_holdsSession hy) _ d name
  | unsubscribe t name => exact closedFor_unsubscribe hw _ t name
  | send t m => exact closedFor_send hw _ t m
  | awaitResume x =>
    show ClosedFor P (awaitResume _ _ x)
    unfold awaitResume
    split <;> exact hw.setCall _ _

/-! ## Going on -/

/-- What a call learns makes it close sessions, or give a consumer to its session or close it
because the session is closed. -/
theorem closedFor_resolve (h : ClosedFor P w) (hw : w.Wired) {e : Exchange}
    (hp : w.progress? i = some (.exchange e)) (reply : Reply) :
    ClosedFor P (w.resolve i e reply) := by
  have habandon (c name x claim) : ClosedFor P (w.abandonName c name x claim) :=
    h.modifyConnection c _
  cases hgoal : e.goal with
  | openSession transacted mode =>
    simp only [resolve, hgoal]
    cases reply with
    | opened k => exact closedFor_openSession h i _ k _ _
    | failed f => exact h.setCall i _
    | done => exact h.setCall i _
  | closeNext t n rest failure =>
    obtain ⟨v, f', hq, he⟩ := resolve_closeNext hgoal w i reply
    rw [he]
    exact closedFor_closeSessions (h.quiet hq) i _ f' rest
  | publish t tag tracked =>
    simp only [resolve, hgoal]
    rcases endPublish_effect w i t tag tracked reply.result with ⟨_, he⟩ | ⟨_, _, he⟩ <;>
      rw [he] <;> exact (h.modifySession (by intro _; rfl) t).setCall i _
  | retarget t y name claim =>
    rcases resolve_retarget hgoal w i reply with he | ⟨f, he⟩ <;> rw [he]
    · exact h.ask
    · exact (habandon _ name y claim).setCall i _
  | declare t y name claim =>
    -- The exchange fits, so the consumer that it hands over was made for this session.
    have hadopt : ClosedFor P (w.adopt t y).2 := by
      obtain ⟨_, _, hf⟩ := hw.fits hp
      simp only [Progress.Fits, Exchange.Fits, hgoal] at hf
      obtain ⟨_, d, k, _, ho, _⟩ := hf
      obtain ⟨z, hz, horigin⟩ := by simpa [outline] using ho
      refine h.adopt (List.getElem?_eq_some_iff.1 hz).1 ?_
      rw [consumer, hz]
      exact horigin.1
    rcases resolve_declare hgoal w i reply with he | ⟨f, he⟩ | ⟨f, he⟩ <;> rw [he]
    · exact hadopt.setCall i _
    · exact hadopt.setCall i _
    · exact (habandon _ name y claim).setCall i _
  | _ =>
    obtain ⟨v, hq, he | ⟨f, he⟩⟩ := resolve_last (by rw [hgoal]; rfl) w i reply <;> rw [he] <;>
      exact (h.quiet hq).setCall i _

/-- A call that goes on closes consumers with their session only. -/
theorem closedFor_resume (h : ClosedFor P w) (hw : w.Wired) (hr : w.resume? i = some v) :
    ClosedFor P v := by
  rcases resume?_cases hr with ⟨t, m, tracked, _, _, rfl⟩ | ⟨e, reply, hp, _, _, rfl⟩ |
    ⟨e, after, _, _, _, rfl⟩ | ⟨e, limit, _, _, _, _, rfl⟩ | ⟨x, o, _, _, rfl⟩
  · exact closedFor_publish h i t m tracked
  · exact closedFor_resolve h hw hp reply
  · exact (h.modifyConnection _ _).setCall i _
  · obtain ⟨v, hq, he⟩ := giveUp_effect w i e
    rw [he]
    exact (h.quiet hq).setCall i _
  · exact h.setCall i _

/-! ## Steps -/

/-- Only one operation closes a consumer by itself. -/
theorem closedFor_operate (h : ClosedFor P w) {o : Operation} (hm : w.mayOperate o = true)
    (ho : ∀ x, o = .closeConsumer x → P x) : ClosedFor P (w.operate o).2 := by
  obtain ⟨u, hu, ha⟩ := operate_change w o
  refine .of_lists ?_ ha.sessions ha.consumers
  cases hu with
  | none => exact h
  | connect => exact h.of_lists rfl rfl
  | redirect => exact h.same (turnAll_map (by intro _; rfl) _ _) rfl
  | @addConsumer t hopen d =>
    have hadd : ClosedFor P (w.addConsumer { session := t, destination := d }) :=
      h.addConsumer (lt_of_holdsSession (s := t) hm) rfl
    exact hadd.adopt (by simp [addConsumer]) (by simp [addConsumer, consumer])
  | closeConsumer x => exact h.closeConsumer (.inl (ho x rfl))
  | dropSession | listen => exact h.modifySession (by intro _; rfl) _
  | dropConnection | rename | inject | refuse | report => exact h.modifyConnection _ _

/-- A step closes a consumer for which it is asked, or one whose session is closed. -/
theorem closedFor_step (h : ClosedFor P w) (hw : w.Wired) {l : Label} (hs : w.step? l = some v)
    (hl : ∀ x, l = .operate (.closeConsumer x) → P x) : ClosedFor P v := by
  cases l with
  | operate o =>
    obtain ⟨hm, rfl⟩ := step_operate hs
    exact closedFor_operate h hm fun x hx => hl x (congrArg Label.operate hx)
  | call y =>
    obtain ⟨hm, rfl⟩ := step_call hs
    exact closedFor_call h hm
  | run a =>
    cases a with
    | call i => exact closedFor_resume h hw hs
    | dispatcher t =>
      obtain ⟨f, hf⟩ := framed_dispatch hs
      have hshelf := congrArg (List.map Session.shelf) hf.sessions
      simp only [List.map_map] at hshelf
      have hchannel : ClosedFor P (w.modifyChannelOf t f) := h.modifyConnection _ _
      exact hchannel.same hshelf hf.consumers
  | take i =>
    obtain ⟨o, _, rfl | ⟨t, _, rfl⟩⟩ := take?_cases hs
    · exact h.of_lists rfl rfl
    · have htaken : ClosedFor P { w with calls := w.calls.modify i fun t =>
          { t with taken := true } } := h.of_lists rfl rfl
      exact htaken.modifySession (by intro _; rfl) t
  | tick t =>
    obtain ⟨_, rfl⟩ := step_tick hs
    exact h.of_lists rfl rfl

/-! ## Runs -/

/-- In every state of every run, a consumer is closed because somebody has closed it or because its
session is closed. -/
theorem closedFor_of_run (h : Run {} ls w) :
    ClosedFor (fun x => .operate (.closeConsumer x) ∈ ls) w := by
  induction h with
  | refl => exact ⟨fun x hx => absurd hx (Nat.not_lt_zero x), fun s x hx => by
      exact absurd hx List.not_mem_nil, fun x hx => by cases hx⟩
  | @step ls v l u hrun hs ih =>
    have hls : ClosedFor (fun x => .operate (.closeConsumer x) ∈ ls ++ [l]) v :=
      ih.mono fun x hx => List.mem_append_left [l] hx
    refine closedFor_step hls (wired_of_run hrun) hs ?_
    rintro x rfl
    exact List.mem_append_right ls (List.mem_singleton_self _)

end System

end BrokerClient
