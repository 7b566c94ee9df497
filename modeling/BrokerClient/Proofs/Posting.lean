import BrokerClient.Proofs.Holders
import BrokerClient.Proofs.Post

/-!
# The messages of a client

`System.post` reads off a client what concerns messages. Whatever is plain leaves that alone, and so
does what is about names only: `System.Mute` says so of one state after another, together with what
every step keeps (`System.Sober`).

What a session awaits and what a channel has recorded are read field by field, and where a call
stands is read off its progress (`Progress.sender`): a call that waits for its turn has a message
and no number, one that publishes has both, and all others are idle.
-/

namespace BrokerClient

/-- Whether the answer says that a message was recorded. -/
def Stage.recorded : Stage → Bool
  | .before _ _ => false
  | .answered r => r.result.toBool

/-- A call that waits for the broker sends if it is publishing. -/
def Exchange.sender (e : Exchange) : Sender :=
  match e.goal, e.request with
  | .publish s tag tracked, .publish _ m => .sending s m tag tracked e.stage.recorded
  | _, _ => .idle

/-- What a call does about messages. -/
def Progress.sender : Progress → Sender
  | .turn s m tracked => .waiting s m tracked
  | .exchange e => e.sender
  | _ => .idle

/-- Whether a goal is to publish. -/
def Goal.publishes : Goal → Bool
  | .publish _ _ _ => true
  | _ => false

/-- Who publishes nothing is idle. -/
theorem Exchange.sender_eq_idle {e : Exchange} (h : e.goal.publishes = false) :
    e.sender = .idle := by
  unfold Exchange.sender
  split
  next hg _ =>
    rw [hg] at h
    cases h
  · rfl

/-- Who has nothing to do with messages is idle. -/
theorem Progress.sender_of_isPlain {p : Progress} (h : p.isPlain = true) : p.sender = .idle := by
  cases p with
  | turn s m tracked => cases h
  | exchange e =>
    refine Exchange.sender_eq_idle ?_
    cases hg : e.goal <;> simp_all [Progress.isPlain, Goal.isPlain, Goal.publishes]
  | _ => rfl

namespace Post

variable {p q : Post} {i : CallId} {r : Sender}

/-- What is kept of messages is four readings. -/
theorem ext (hd : ∀ s, p.desk s = q.desk s) (hb : ∀ c k, p.box c k = q.box c k)
    (hs : ∀ i, p.sender i = q.sender i) (hh : p.handed = q.handed) : p = q := by
  obtain ⟨d, b, s, h⟩ := p
  obtain ⟨d', b', s', h'⟩ := q
  obtain rfl : d = d' := funext hd
  obtain rfl : b = b' := funext fun c => funext fun k => hb c k
  obtain rfl : s = s' := funext hs
  obtain rfl : h = h' := hh
  rfl

theorem assign_eq_self (h : p.sender i = r) : p.assign i r = p := by
  refine ext (fun _ => rfl) (fun _ _ => rfl) (fun j => ?_) rfl
  rw [sender_assign]
  split
  next hij => rw [← hij, h]
  · rfl

end Post

namespace System

/-- What a client keeps of messages. -/
def post (w : System) : Post where
  desk s := (w.session s).desk
  box c k := (w.connection c).broker.box k
  sender i := (w.progress? i).elim .idle Progress.sender
  handed := w.confirmations

/-- The connection and the channel of a session. -/
def address? (w : System) (s : SessionId) : Option (ConnectionId × Nat) := w.outline.addresses[s]?

variable {w v u : System} {i j : CallId} {c : ConnectionId} {s : SessionId} {x : ConsumerId}
  {k : Nat} {m : Message} {tracked : Bool}

/-- What a call does about messages can be told from where it stands. -/
theorem post_sender {p : Progress} (h : w.progress? i = some p) : w.post.sender i = p.sender := by
  simp only [post, h]
  rfl

/-- A call that has nothing to do with messages is idle. -/
theorem sender_of_isPlain (h : w.IsPlain i) : w.post.sender i = .idle := by
  cases hp : w.progress? i with
  | none => simp only [post, hp]; rfl
  | some p =>
    rw [post_sender hp]
    exact Progress.sender_of_isPlain (h p hp)

/-- Whoever leaves messages alone leaves every reading of them. -/
theorem Plain.post (h : Plain w v) : v.post = w.post := by
  refine Post.ext h.desk h.box (fun i => ?_) h.confirmations
  -- A call that moved is plain before and after, and so has nothing to do with messages.
  rcases h.progress i with he | ⟨hw, hv⟩
  · simp only [System.post, he]
  · rw [sender_of_isPlain hw, sender_of_isPlain hv]

/-! ## Updates -/

/-- A call that comes to stand elsewhere may do something else about messages. -/
theorem post_setCall (hi : i < w.calls.length) (p : Progress) :
    (w.setCall i p).post = w.post.assign i p.sender := by
  refine Post.ext (fun _ => rfl) (fun _ _ => rfl) (fun j => ?_) rfl
  rw [Post.sender_assign]
  split
  next hij =>
    subst hij
    exact post_sender (progress_setCall_self hi p)
  next hij => simp only [post, progress_setCall_ne hij]

/-- A call that is not there is not put anywhere. -/
theorem post_setCall_of_le (hi : w.calls.length ≤ i) (p : Progress) :
    (w.setCall i p).post = w.post := by
  rw [setCall, List.modify_eq_self hi]

/-- A reading of connections that messages do not depend on. -/
theorem post_modifyConnection {f : Connection → Connection} (h : ∀ y, (f y).broker = y.broker)
    (w : System) (c : ConnectionId) : (w.modifyConnection c f).post = w.post := by
  refine Post.ext (fun _ => rfl) (fun d k => ?_) (fun _ => rfl) rfl
  simp only [post]
  rw [connection_modifyConnection_of (g := Connection.broker) h w c d]

/-- A change of a session is seen at its own desk. -/
theorem post_modifySession {f : Session → Session} {g : Desk → Desk} (hs : s < w.sessions.length)
    (h : ∀ y, (f y).desk = g y.desk) : (w.modifySession s f).post = w.post.atDesk s g := by
  refine Post.ext (fun t => ?_) (fun _ _ => rfl) (fun _ => rfl) rfl
  rw [Post.desk_atDesk]
  split
  next hst =>
    subst hst
    simp only [post]
    rw [session_modifySession_self hs, h]
  next hst =>
    simp only [post]
    rw [session_modifySession_ne hst]

/-- The channel of a broker changes. -/
theorem post_modifyBroker {b : Broker} {g : Box → Box} (hc : c < w.connections.length)
    (h : ∀ n, b.box n = if k = n then g ((w.connection c).broker.box n)
      else (w.connection c).broker.box n) :
    (w.modifyConnection c fun y => { y with broker := b }).post = w.post.atBox c k g := by
  refine Post.ext (fun _ => rfl) (fun d n => ?_) (fun _ => rfl) rfl
  rw [Post.box_atBox]
  simp only [post]
  by_cases hcd : c = d
  · subst hcd
    rw [connection_modifyConnection_self hc]
    simp only [true_and]
    exact h n
  · rw [connection_modifyConnection_ne hcd, if_neg fun hn => hcd hn.1]

/-- The broker changes, but for what it knows of messages. -/
theorem post_modifyBroker_eq {b : Broker} (h : ∀ n, b.box n = (w.connection c).broker.box n) :
    (w.modifyConnection c fun y => { y with broker := b }).post = w.post := by
  refine Post.ext (fun _ => rfl) (fun d n => ?_) (fun _ => rfl) rfl
  simp only [post]
  by_cases hcd : c = d
  · subst hcd
    by_cases hc : c < w.connections.length
    · rw [connection_modifyConnection_self hc]
      exact h n
    · rw [modifyConnection, List.modify_eq_self (Nat.le_of_not_lt hc)]
  · rw [connection_modifyConnection_ne hcd]

/-- Asking uses a fault and notes the request; of messages only the call tells. -/
theorem post_ask (w : System) (i : CallId) (c : ConnectionId) (request : Request)
    (limit : Option Nat) (goal : Goal) : (w.ask i c request limit goal).post =
      (w.setCall i (.exchange (w.exchangeFor c request limit goal))).post := by
  rw [ask_eq]
  refine Post.ext (fun _ => rfl) (fun d k => ?_) (fun _ => rfl) rfl
  simp only [post, connection_setCall]
  rw [connection_modifyConnection_of (g := Connection.broker) (by intro _; rfl) w c d]

/-! ## What every step keeps -/

/-- Closed sessions stay deaf, and no fault is added. -/
structure Sober (w v : System) : Prop where
  still : ∀ s, (w.session s).Still → (v.session s).Still
  faults : ∀ c, (v.connection c).faults ⊆ (w.connection c).faults

/-- Whoever leaves messages alone does that too. -/
theorem Plain.sober (h : Plain w v) : Sober w v := ⟨h.still, h.faults⟩

theorem Sober.trans (h : Sober w v) (h' : Sober v u) : Sober w u :=
  ⟨fun s hs => h'.still s (h.still s hs), fun c _ hf => h.faults c (h'.faults c hf)⟩

/-- Where calls stand does not matter for it. -/
theorem sober_setCall (w : System) (i : CallId) (p : Progress) : Sober w (w.setCall i p) :=
  ⟨fun _ => id, fun _ _ => id⟩

/-- Connections matter for their faults. -/
theorem sober_modifyConnection {f : Connection → Connection} (h : ∀ y, (f y).faults = y.faults)
    (w : System) (c : ConnectionId) : Sober w (w.modifyConnection c f) := by
  refine ⟨fun _ => id, fun d => ?_⟩
  rw [connection_modifyConnection_of (g := Connection.faults) h w c d]
  exact fun _ hf => hf

/-- Sessions matter for their dispatchers. -/
theorem sober_modifySession {f : Session → Session} (h : ∀ y : Session, y.Still → (f y).Still)
    (w : System) (s : SessionId) : Sober w (w.modifySession s f) := by
  refine ⟨fun t ht => ?_, fun _ _ => id⟩
  rcases session_modifySession_cases w s f t with he | he <;> rw [he]
  · exact ht
  · exact h _ ht

/-- Asking takes a fault away, if any. -/
theorem sober_ask (w : System) (i : CallId) (c : ConnectionId) (request : Request)
    (limit : Option Nat) (goal : Goal) : Sober w (w.ask i c request limit goal) := by
  rw [ask_eq]
  exact (Plain.useFault w c request.kind request.channel? (· ++ [request])).sober.trans
    (sober_setCall _ i _)

/-! ## Steps that concern names -/

/-- Messages are not concerned. -/
structure Mute (w v : System) : Prop where
  post : v.post = w.post
  sober : Sober w v

/-- Whoever leaves messages and names alone leaves messages alone. -/
theorem Plain.mute (h : Plain w v) : Mute w v := ⟨h.post, h.sober⟩

theorem Mute.trans (h : Mute w v) (h' : Mute v u) : Mute w u :=
  ⟨h'.post.trans h.post, h.sober.trans h'.sober⟩

/-- A call that was idle and stays so. -/
theorem Mute.setCall (h : Mute w v) (hi : w.post.sender i = .idle) {p : Progress}
    (hp : p.sender = .idle) : Mute w (v.setCall i p) := by
  refine ⟨?_, h.sober.trans (sober_setCall v i p)⟩
  rw [← h.post]
  by_cases hlt : i < v.calls.length
  · rw [post_setCall hlt, Post.assign_eq_self]
    rw [h.post, hi, hp]
  · exact post_setCall_of_le (Nat.le_of_not_lt hlt) p

/-- A call that was idle and asks for something else than to publish. -/
theorem Mute.ask (h : Mute w v) (hi : w.post.sender i = .idle) {c : ConnectionId}
    {request : Request} {limit : Option Nat} {goal : Goal} (hg : goal.publishes = false) :
    Mute w (v.ask i c request limit goal) := by
  have hs := h.setCall hi (p := .exchange (v.exchangeFor c request limit goal))
    (Exchange.sender_eq_idle hg)
  refine ⟨?_, h.sober.trans (sober_ask v i c request limit goal)⟩
  rw [post_ask, hs.post]

/-- The register of names is not about messages. -/
theorem mute_rename (w : System) (c : ConnectionId) (f : Subscriptions → Subscriptions) :
    Mute w (w.rename c f) :=
  ⟨post_modifyConnection (by intro _; rfl) w c, sober_modifyConnection (by intro _; rfl) w c⟩

/-- Creating a durable subscriber is not. -/
theorem mute_subscribe (hi : w.post.sender i = .idle) (s : SessionId) (d : Destination)
    (name : String) : Mute w (w.subscribe i s d name) := by
  have hrefl : Mute w w := (Plain.refl w).mute
  rcases subscribe_effect w i s d name with ⟨e, _, he⟩ | ⟨_, _, claim, v, u, hclaim, hq, he⟩
  · rw [he]
    exact hrefl.setCall hi rfl
  · have hv : Mute w v := (mute_rename w _ _).trans (claimName_effect hclaim).2.plain.mute
    have hu : Mute w u := (hv.trans (Plain.addConsumer v _).mute).trans hq.plain.mute
    rcases he with ⟨_, he⟩ | he
    · rw [he]
      exact hu.ask hi rfl
    · rw [he]
      exact hu.ask hi rfl

/-- Nor is unsubscribing. -/
theorem mute_unsubscribe (hi : w.post.sender i = .idle) (s : SessionId) (name : String) :
    Mute w (w.unsubscribe i s name) := by
  rcases unsubscribe_effect w i s name with ⟨e, _, he⟩ | ⟨holder, r, _, he⟩
  · rw [he]
    exact (Plain.refl w).mute.setCall hi rfl
  · rw [he]
    have hm : Mute w (w.modifyConnection (w.session s).connection fun y =>
        { y with subscriptions := r }) :=
      ⟨post_modifyConnection (by intro _; rfl) w _, sober_modifyConnection (by intro _; rfl) w _⟩
    exact hm.ask hi rfl

/-- An answer to a request about a name. -/
theorem mute_resolve {e : Exchange} (hp : w.progress? i = some (.exchange e))
    (hg : e.goal.publishes = false) (reply : Reply) : Mute w (w.resolve i e reply) := by
  -- An exchange that does not publish has no sender, so ending it changes nobody's role.
  have hi : w.post.sender i = .idle := by
    rw [post_sender hp]
    exact Exchange.sender_eq_idle hg
  have hrefl : Mute w w := (Plain.refl w).mute
  have habandon : ∀ name y claim, Mute w (w.abandonName e.connection name y claim) :=
    fun name y claim => mute_rename w e.connection (·.abandon name y claim)
  cases hgoal : e.goal with
  | publish s tag tracked =>
    rw [hgoal] at hg
    cases hg
  | retarget s y name claim =>
    rcases resolve_retarget hgoal w i reply with he | ⟨f, he⟩
    · rw [he]
      exact hrefl.ask hi rfl
    · rw [he]
      exact (habandon name y claim).setCall hi rfl
  | declare s y name claim =>
    have ha := (plain_adopt w s y).mute
    rcases resolve_declare hgoal w i reply with he | ⟨f, he⟩ | ⟨f, he⟩
    · rw [he]
      exact ha.setCall hi rfl
    · rw [he]
      exact ha.setCall hi rfl
    · rw [he]
      exact (habandon name y claim).setCall hi rfl
  | _ => exact (plain_resolve hp (by rw [hgoal]; rfl) reply).mute

end System

end BrokerClient
