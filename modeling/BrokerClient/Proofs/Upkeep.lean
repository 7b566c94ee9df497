import BrokerClient.Proofs.Holders

/-!
# What nearly every step leaves alone

Of a connection, nearly every step works on the broker, the sessions and the subscriptions alone. A
reading of connections that does not see these (`Connection.Aloof`) sees nothing of such a step:
`System.SameTo` says so of two states, each lemma here gives it for one stretch of a call or one
operation, and `System.sameTo_step` for whole steps. Steps that use a connection, from asking for a
session to starting it, end the time in which its identifier may be set, and that is all that such a
reading sees of them (`System.sameTo_use`).

What is left are the steps that set up registries and connections, work on identifiers, or close a
connection or let go of it.

A reading here is a function of a connection, and what is said of it holds for its values over all
connections in order. The roll of identifiers, the permits and what the program holds are three such
readings. None of them sees the broker, so that none of the lemmas has to look at what a request
does.
-/

namespace BrokerClient

/-- A reading of connections that sees neither the broker nor what belongs to sessions nor the
exception listener, and of the phase of a connection no more than whether it is closed. -/
structure Connection.Aloof {α : Type} (g : Connection → α) : Prop where
  upkeep : ∀ x broker faults asked sessions nextNumber subscriptions,
    g { x with broker, faults, asked, sessions, nextNumber, subscriptions } = g x
  listener : ∀ x exceptionListener, g { x with exceptionListener } = g x
  phase : ∀ x life, life.isClosed = x.life.isClosed → g { x with life } = g x

/-- Whether an operation works on nothing but the broker, sessions and subscriptions. -/
def Operation.isUpkeep : Operation → Bool
  | .dropSession _ => true
  | .clientId _ => true
  | .notify _ _ => true
  | .createConnectionConsumer _ _ => true
  | .createConsumer _ _ => true
  | .setConfirmListener _ _ => true
  | .closeConsumer _ => true
  | .claimSubscription _ _ _ => true
  | .abandonSubscription _ _ _ _ => true
  | .removeSubscription _ _ => true
  | .inject _ _ => true
  | .refuse _ _ => true
  | .report _ _ _ => true
  | _ => false

/-- Whether a step works on nothing but the broker, sessions and subscriptions. -/
def Label.isUpkeep : Label → Bool
  | .operate o => o.isUpkeep
  | .call (.createSession _ _ _ _) => false
  | .call (.close _) => false
  | _ => true

/-- The connection that a step uses for something else than its identifier. -/
def Label.used? : Label → Option ConnectionId
  | .call (.createSession c _ _ _) => some c
  | .operate (.metadata c) => some c
  | .operate (.exceptionListener c) => some c
  | .operate (.setExceptionListener c _) => some c
  | .operate (.start c) => some c
  | .operate (.stop c) => some c
  | _ => none

namespace System

/-- The registries are the same, and so are the connections to a reading of them. -/
structure SameTo {α : Type} (g : Connection → α) (w v : System) : Prop where
  registries : v.registries = w.registries
  connections : v.connections.map g = w.connections.map g

section

variable {α : Type} {g : Connection → α} {w v u : System} {i : CallId} {c : ConnectionId}
  {s : SessionId} {x : ConsumerId} {l : Label}

namespace SameTo

theorem refl (g : Connection → α) (w : System) : SameTo g w w := ⟨rfl, rfl⟩

theorem trans (h : SameTo g w v) (h' : SameTo g v u) : SameTo g w u :=
  ⟨h'.registries.trans h.registries, h'.connections.trans h.connections⟩

/-- States with the same registries and connections are the same to any reading. -/
theorem of_eq (hr : v.registries = w.registries) (hc : v.connections = w.connections) :
    SameTo g w v := ⟨hr, congrArg (List.map g) hc⟩

theorem modifyConnection {f : Connection → Connection} (h : ∀ x, g (f x) = g x) (w : System)
    (c : ConnectionId) : SameTo g w (w.modifyConnection c f) :=
  ⟨rfl, map_modify_eq h w.connections c⟩

theorem setCall (h : SameTo g w v) (i : CallId) (p : Progress) : SameTo g w (v.setCall i p) :=
  ⟨h.registries, h.connections⟩

theorem finish (h : SameTo g w v) (i : CallId) (o : Outcome) : SameTo g w (v.finish i o) :=
  h.setCall i _

theorem fail (h : SameTo g w v) (i : CallId) (e : Error) : SameTo g w (v.fail i e) := h.setCall i _

/-- Asking the broker concerns what it is asked and the faults, which such a reading does not see.
-/
theorem ask (h : SameTo g w v) (hg : Connection.Aloof g) (i : CallId) (c : ConnectionId)
    (request : Request) (limit : Option Nat) (goal : Goal) :
    SameTo g w (v.ask i c request limit goal) := by
  rw [ask_eq]
  exact (h.trans (.modifyConnection (fun x => hg.upkeep x _ _ _ _ _ _) v c)).setCall i _

/-- An update that changes nothing of the connection that is updated. -/
theorem modifyConnection_at {f : Connection → Connection}
    (h : g (f (w.connection c)) = g (w.connection c)) :
    SameTo g w (w.modifyConnection c f) := by
  have hid : (w.connections.modify c f).map g = (w.connections.map g).modify c id := by
    refine map_modify_at fun x hx => ?_
    have hc : w.connection c = x := by rw [connection, hx]; rfl
    rwa [hc] at h
  exact ⟨rfl, hid.trans (List.modify_id c _)⟩

end SameTo

/-- What is quiet does not concern connections at all. -/
theorem Quiet.sameTo (h : Quiet w v) : SameTo g w v := .of_eq h.registries h.connections

/-! ## Calls -/

variable (hg : Connection.Aloof g)
include hg

omit hg in
/-- Shutting a session closes its consumers and ends its dispatcher. -/
theorem sameTo_shutSession (w : System) (s : SessionId) : SameTo g w (w.shutSession s).2 :=
  .of_eq (by simp) (by simp)

theorem sameTo_closeSessions (w : System) (i : CallId) (c : ConnectionId)
    (failure : Option TransportFailure) (ss : List SessionId) :
    SameTo g w (w.closeSessions i c failure ss) := by
  induction ss with
  | nil =>
    rw [closeSessions]
    exact (SameTo.refl g w).ask hg i c _ _ _
  | cons s ss ih =>
    rw [closeSessions]
    split
    · exact ih
    · exact (sameTo_shutSession w s).ask hg i c _ _ _

theorem sameTo_forget (w : System) (s : SessionId) : SameTo g w (w.forget s) := by
  unfold forget
  split
  · exact .modifyConnection (fun x => hg.upkeep x _ _ _ _ _ _) w _
  · exact .refl g w

theorem sameTo_closeSession (w : System) (i : CallId) (s : SessionId) :
    SameTo g w (w.closeSession i s) := by
  obtain ⟨v, hq, ⟨_, he⟩ | ⟨_, he⟩⟩ := closeSession_effect w i s <;> rw [he]
  · exact (hq.sameTo.trans (sameTo_forget hg v s)).finish i _
  · exact ((hq.sameTo.trans (sameTo_forget hg v s)).trans (sameTo_shutSession _ s)).ask hg i _ _ _ _

/-- A session is opened and put into the set of its connection, or the channel is given back. -/
theorem sameTo_openSession (w : System) (i : CallId) (c : ConnectionId) (k : Nat)
    (transacted : Bool) (mode : AckMode) :
    SameTo g w (w.openSession i c k transacted mode) := by
  have henroll : ∀ y, SameTo g w (w.enroll c y) := fun y =>
    ⟨rfl, map_modify_eq (fun x => hg.upkeep x _ _ _ _ _ _) w.connections c⟩
  cases hc : (w.connection c).life.isClosed with
  | true =>
    rw [openSession_closed hc]
    exact ((henroll _).trans (sameTo_shutSession _ _)).ask hg i c _ _ _
  | false =>
    obtain ⟨v, hq, he⟩ := openSession_open hc i k transacted mode
    rw [he]
    exact (((henroll _).trans hq.sameTo).trans
      (.modifyConnection (fun x => hg.upkeep x _ _ _ _ _ _) v c)).finish i _

theorem sameTo_claimName {name : String} {d : Destination} {claim : Claim}
    (h : w.claimName c name x d = .ok (claim, v)) : SameTo g w v := by
  obtain ⟨_, hq⟩ := claimName_effect h
  exact (SameTo.modifyConnection (fun x => hg.upkeep x _ _ _ _ _ _) w c).trans hq.sameTo

/-- A call for a durable subscriber claims the name and asks the broker, or is refused. -/
theorem sameTo_subscribe (w : System) (i : CallId) (s : SessionId) (d : Destination)
    (name : String) : SameTo g w (w.subscribe i s d name) := by
  rcases subscribe_effect w i s d name with ⟨e, _, he⟩ | ⟨_, _, claim, v, u, hclaim, hq, he⟩
  · rw [he]
    exact (SameTo.refl g w).fail i e
  · have hv : SameTo g w v := sameTo_claimName hg hclaim
    have hu : SameTo g v u := .of_eq hq.registries hq.connections
    rcases he with ⟨_, he⟩ | he <;> rw [he] <;>
      exact (hv.trans hu).ask hg i _ _ _ _

theorem sameTo_unsubscribe (w : System) (i : CallId) (s : SessionId) (name : String) :
    SameTo g w (w.unsubscribe i s name) := by
  rcases unsubscribe_effect w i s name with ⟨e, _, he⟩ | ⟨holder, r, _, he⟩ <;> rw [he]
  · exact (SameTo.refl g w).fail i e
  · exact (SameTo.modifyConnection (fun x => hg.upkeep x _ _ _ _ _ _) w _).ask hg i _ _ _ _

theorem sameTo_publish (w : System) (i : CallId) (s : SessionId) (m : Message) (tracked : Bool) :
    SameTo g w (w.publish i s m tracked) := by
  have hr : SameTo g w (w.readyToPublish s m tracked) := by
    cases tracked <;> exact ⟨rfl, map_modify_eq (fun x => hg.upkeep x _ _ _ _ _ _) w.connections _⟩
  rw [publish_eq]
  exact hr.ask hg i _ _ _ _

theorem sameTo_send (w : System) (i : CallId) (s : SessionId) (m : Message) :
    SameTo g w (w.send i s m) := by
  rcases send_effect w i s m with he | ⟨_, he⟩ | he <;> rw [he]
  · exact (SameTo.refl g w).fail i _
  · have hplace : SameTo g w (w.takePlace i s) := .of_eq rfl rfl
    exact hplace.trans (sameTo_publish hg _ i s m _)
  · exact (SameTo.of_eq rfl rfl : SameTo g w (w.takePlace i s)).setCall i _

omit hg in
theorem sameTo_adopt (w : System) (s : SessionId) (x : ConsumerId) :
    SameTo g w (w.adopt s x).2 :=
  .of_eq (adopt_leaves w s x).2.1 (adopt_leaves w s x).2.2.1

theorem sameTo_abandonName (w : System) (c : ConnectionId) (name : String) (x : ConsumerId)
    (claim : Claim) : SameTo g w (w.abandonName c name x claim) :=
  .modifyConnection (fun x => hg.upkeep x _ _ _ _ _ _) w c

/-- Whatever a call learns from the broker, what it does then is of these kinds. -/
theorem sameTo_resolve (w : System) (i : CallId) (e : Exchange) (reply : Reply) :
    SameTo g w (w.resolve i e reply) := by
  cases hgoal : e.goal with
  | openSession transacted mode =>
    simp only [resolve, hgoal]
    cases reply with
    | opened k => exact sameTo_openSession hg w i _ k _ _
    | failed f => exact (SameTo.refl g w).fail i _
    | done => exact (SameTo.refl g w).fail i _
  | closeNext s n rest failure =>
    obtain ⟨v, f', hq, he⟩ := resolve_closeNext hgoal w i reply
    rw [he]
    exact hq.sameTo.trans (sameTo_closeSessions hg v i _ f' rest)
  | publish s tag tracked =>
    simp only [resolve, hgoal]
    rcases endPublish_effect w i s tag tracked reply.result with ⟨_, he⟩ | ⟨_, _, he⟩ <;>
      rw [he] <;> exact .of_eq rfl rfl
  | retarget s y name claim =>
    rcases resolve_retarget hgoal w i reply with he | ⟨f, he⟩ <;> rw [he]
    · exact (SameTo.refl g w).ask hg i _ _ _ _
    · exact (sameTo_abandonName hg w _ name y claim).fail i _
  | declare s y name claim =>
    rcases resolve_declare hgoal w i reply with he | ⟨f, he⟩ | ⟨f, he⟩ <;> rw [he]
    · exact (sameTo_adopt w s y).finish i _
    · exact (sameTo_adopt w s y).fail i _
    · exact (sameTo_abandonName hg w _ name y claim).fail i _
  | _ =>
    obtain ⟨v, hq, he | ⟨f, he⟩⟩ := resolve_last (by rw [hgoal]; rfl) w i reply <;> rw [he]
    · exact hq.sameTo.finish i _
    · exact hq.sameTo.fail i _

/-- So a call that goes on leaves such a reading alone. -/
theorem sameTo_resume (h : w.resume? i = some v) : SameTo g w v := by
  rcases resume?_cases h with ⟨s, m, tracked, _, _, rfl⟩ | ⟨e, reply, _, _, _, rfl⟩ |
    ⟨e, after, _, _, _, rfl⟩ | ⟨e, limit, _, _, _, _, rfl⟩ | ⟨x, o, _, _, rfl⟩
  · exact sameTo_publish hg w i s m tracked
  · exact sameTo_resolve hg w i e reply
  · exact (SameTo.modifyConnection (fun x => hg.upkeep x _ _ _ _ _ _) w _).setCall i _
  · obtain ⟨v, hq, he⟩ := giveUp_effect w i e
    rw [he]
    exact hq.sameTo.fail i _
  · exact (SameTo.refl g w).finish i o

/-! ## Operations and steps -/

/-- An operation of upkeep leaves it alone. -/
theorem sameTo_operate (w : System) {o : Operation} (ho : o.isUpkeep = true) :
    SameTo g w (w.operate o).2 := by
  have hmodify : ∀ {f : Connection → Connection} (c : ConnectionId), (∀ x, g (f x) = g x) →
      SameTo g w (w.modifyConnection c f) := fun c h => .modifyConnection h w c
  cases o with
  | dropSession s => exact .of_eq rfl rfl
  | clientId c =>
    simp only [operate, clientId, ifOpen]
    split <;> exact .of_eq rfl rfl
  | notify c e =>
    simp only [operate, notify]
    split <;> exact .of_eq rfl rfl
  | createConnectionConsumer c durable => exact .of_eq rfl rfl
  | createConsumer s d =>
    rcases createConsumer_effect w s d with ⟨_, he⟩ | ⟨_, he⟩ <;> rw [operate, he]
    · exact .refl g w
    · have hadd : SameTo g w (w.addConsumer { session := s, destination := d }) := .of_eq rfl rfl
      exact hadd.trans (sameTo_adopt _ s _)
  | setConfirmListener s x =>
    simp only [operate, setConfirmListener]
    split <;> exact .of_eq rfl rfl
  | closeConsumer x => exact .of_eq (by simp [operate]) (by simp [operate])
  | claimSubscription c name x =>
    simp only [operate, claimSubscription]
    split
    · exact .of_eq rfl rfl
    next h => exact sameTo_claimName hg h
  | abandonSubscription c name x claim => exact sameTo_abandonName hg w c name x claim
  | removeSubscription c name =>
    simp only [operate, removeSubscription]
    split
    · exact .of_eq rfl rfl
    · exact hmodify c fun x => hg.upkeep x _ _ _ _ _ _
  | inject c f => exact hmodify c fun x => hg.upkeep x _ _ _ _ _ _
  | refuse c refusing => exact hmodify c fun x => hg.upkeep x _ _ _ _ _ _
  | report c k es =>
    rw [operate, reportAll_eq]
    exact hmodify c fun x => hg.upkeep x _ _ _ _ _ _
  | _ => simp [Operation.isUpkeep] at ho

/-- A step of upkeep leaves it alone. -/
theorem sameTo_step (hs : w.step? l = some v) (hl : l.isUpkeep = true) : SameTo g w v := by
  cases l with
  | operate o =>
    obtain ⟨_, rfl⟩ := step_operate hs
    exact sameTo_operate hg w hl
  | call y =>
    obtain ⟨_, rfl⟩ := step_call hs
    rw [call_eq]
    have hw : SameTo g w (w.enlist y) := .of_eq rfl rfl
    cases y with
    | createSession c transacted mode via => cases hl
    | close c => cases hl
    | closeSession t => exact hw.trans (sameTo_closeSession hg _ _ t)
    | subscribe t d name => exact hw.trans (sameTo_subscribe hg _ _ t d name)
    | unsubscribe t name => exact hw.trans (sameTo_unsubscribe hg _ _ t name)
    | send t m => exact hw.trans (sameTo_send hg _ _ t m)
    | awaitResume x =>
      show SameTo g w (awaitResume _ _ x)
      unfold awaitResume
      split <;> exact .of_eq rfl rfl
  | run a =>
    cases a with
    | call i => exact sameTo_resume hg hs
    | dispatcher s =>
      obtain ⟨f, hf⟩ := framed_dispatch hs
      exact (SameTo.modifyConnection (fun x => hg.upkeep x _ _ _ _ _ _) w _).trans
        (.of_eq hf.registries hf.connections)
  | take i =>
    obtain ⟨o, _, rfl | ⟨s, _, rfl⟩⟩ := take?_cases hs <;> exact .of_eq rfl rfl
  | tick t =>
    obtain ⟨_, rfl⟩ := step_tick hs
    exact .of_eq rfl rfl

/-! ## Uses of a connection -/

/-- Asking for a session ends the time for an identifier, unless the connection is closed. -/
theorem sameTo_createSession (w : System) (i : CallId) (c : ConnectionId) (transacted : Bool)
    (mode : AckMode) (via : Option Domain) :
    SameTo g (w.closeIdentifierWindow c) (w.createSession i c transacted mode via) ∨
    ((w.connection c).life.isClosed = true ∧
      SameTo g w (w.createSession i c transacted mode via)) := by
  have hwindow : ∀ v, Quiet w v →
      SameTo g (w.closeIdentifierWindow c) (v.closeIdentifierWindow c) := fun v hq =>
    .of_eq hq.registries (congrArg (List.modify · c _) hq.connections)
  obtain ⟨v, hq, ⟨hclosed, he | he⟩ | ⟨_, he⟩⟩ :=
    createSession_effect w i c transacted mode via <;> rw [he]
  · exact .inr ⟨hclosed, hq.sameTo.fail i _⟩
  · exact .inl ((hwindow v hq).fail i _)
  · exact .inl ((hwindow v hq).ask hg i c _ _ _)

omit hg in
theorem sameTo_ifOpen {f : Answer × System} (h : SameTo g w v)
    (hf : v.connectionClosed c = false → SameTo g v f.2) : SameTo g w (v.ifOpen c f).2 := by
  unfold ifOpen
  split
  · exact h
  next hopen => exact h.trans (hf (by simpa using hopen))

/-- A connection that is not closed is started or stopped. -/
theorem sameTo_setLife (h : w.connectionClosed c = false) (life : Lifecycle)
    (hl : life.isClosed = false) : SameTo g w (w.modifyConnection c fun x => { x with life }) := by
  have hc : (w.connection c).life.isClosed = false := h
  exact .modifyConnection_at (hg.phase _ _ (hl.trans hc.symm))

/-- Starting a connection sets the delivery of its sessions, and ends the time for an identifier. -/
theorem sameTo_start (w : System) (c : ConnectionId) :
    SameTo g (w.closeIdentifierWindow c) (w.start c).2 := by
  unfold start
  refine sameTo_ifOpen (.of_eq rfl rfl) fun hopen => ?_
  split
  · have hturned := foldl_setDelivery_leaves .running .resumed
    exact (sameTo_setLife hg hopen .started rfl).trans (.of_eq (hturned ..).2.1 (hturned ..).2.2.1)
  · exact .refl g _

theorem sameTo_stop (w : System) (c : ConnectionId) :
    SameTo g (w.closeIdentifierWindow c) (w.stop c).2 := by
  unfold stop
  refine sameTo_ifOpen (.of_eq rfl rfl) fun hopen => ?_
  split
  · have hturned := foldl_setDelivery_leaves .paused .paused
    exact (sameTo_setLife hg hopen .stopped rfl).trans (.of_eq (hturned ..).2.1 (hturned ..).2.2.1)
  · exact .refl g _

/-- A connection that is used is none the different but for the time in which its identifier may be
set; that it is closed may be found out before this ends. -/
theorem sameTo_use (hs : w.step? l = some v) (hl : l.used? = some c) :
    SameTo g (w.closeIdentifierWindow c) v ∨
    ((w.connection c).life.isClosed = true ∧ SameTo g w v) := by
  cases l with
  | call y =>
    obtain ⟨_, rfl⟩ := step_call hs
    cases y with
    | createSession d transacted mode via =>
      obtain rfl : d = c := Option.some.inj hl
      exact (sameTo_createSession hg (w.enlist _) w.calls.length d transacted mode via).imp
        (fun h => ⟨h.registries, h.connections⟩) fun h => ⟨h.1, h.2.registries, h.2.connections⟩
    | _ => cases hl
  | operate o =>
    obtain ⟨_, rfl⟩ := step_operate hs
    cases o with
    | metadata d =>
      obtain rfl : d = c := Option.some.inj hl
      exact .inl (sameTo_ifOpen (.of_eq rfl rfl) fun _ => .refl g _)
    | exceptionListener d =>
      obtain rfl : d = c := Option.some.inj hl
      exact .inl (sameTo_ifOpen (.of_eq rfl rfl) fun _ => .refl g _)
    | setExceptionListener d label =>
      obtain rfl : d = c := Option.some.inj hl
      exact .inl (sameTo_ifOpen (.of_eq rfl rfl) fun _ =>
        .modifyConnection (fun x => hg.listener x _) _ d)
    | start d =>
      obtain rfl : d = c := Option.some.inj hl
      exact .inl (sameTo_start hg w d)
    | stop d =>
      obtain rfl : d = c := Option.some.inj hl
      exact .inl (sameTo_stop hg w d)
    | _ => cases hl
  | _ => cases hl

end

end System

end BrokerClient
