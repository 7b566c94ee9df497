import BrokerClient.Proofs.Runs
import BrokerClient.Proofs.Deeds

/-!
# Calls fit what they work on

A call that waits holds a request and a goal, and it comes back to sessions and consumers by their
numbers. `System.Wired` says that all of this fits together in every state of every run: the request
of an exchange is the one that its goal is about, it goes to the channel of the goal's session, and
session and consumer are those that the call was started for.

The numbers mean the same throughout because nothing that they stand for is ever replaced: the
*outline* of a client (which channel each session has, what each consumer was created for, which
calls were started) only grows.

`Onward` is the relation between two states: the outline grows by what was started, and if the calls
fitted before they fit after. It is proved for each stretch (`onward_closeSessions` to
`onward_awaitResume`), for what a call does with an answer (`onward_resolve`) and for each step
(`onward_step`). The invariant itself is then one induction (`wired_of_run`).

`Wired.fits` is what the other modules use of it: whoever knows where a call stands knows for which
call it does, on which session, and at which channel.
-/

namespace BrokerClient

/-! ## The outline -/

/-- The connection of a session, and its channel there. -/
abbrev Session.address (x : Session) : ConnectionId × Nat := (x.connection, x.channel)

/-- What a consumer was created for. -/
abbrev Consumer.origin (x : Consumer) : SessionId × Destination × Option String :=
  (x.session, x.destination, x.subscription)

/-- What of a client never changes once it is there. -/
structure Outline where
  /-- How many connections there are. -/
  connections : Nat
  addresses : List (ConnectionId × Nat)
  origins : List (SessionId × Destination × Option String)
  calls : List Call

/-- The outline of a client. -/
def System.outline (w : System) : Outline where
  connections := w.connections.length
  addresses := w.sessions.map Session.address
  origins := w.consumers.map Consumer.origin
  calls := w.calls.map (·.call)

namespace Outline

/-- The outline `p` goes on from `o`, with the calls `xs` started. -/
structure Grows (o : Outline) (xs : List Call) (p : Outline) : Prop where
  connections : o.connections ≤ p.connections
  addresses : o.addresses <+: p.addresses
  origins : o.origins <+: p.origins
  calls : p.calls = o.calls ++ xs
  /-- A session is added to a connection that there is. -/
  housed : ∀ a ∈ p.addresses, a ∈ o.addresses ∨ a.1 < p.connections

theorem Grows.refl (o : Outline) : o.Grows [] o :=
  ⟨Nat.le_refl _, List.prefix_rfl, List.prefix_rfl, (List.append_nil _).symm, fun _ h => .inl h⟩

theorem Grows.trans {o p q : Outline} {xs ys : List Call} (h : o.Grows xs p)
    (h' : p.Grows ys q) : o.Grows (xs ++ ys) q := by
  refine ⟨Nat.le_trans h.connections h'.connections, h.addresses.trans h'.addresses,
    h.origins.trans h'.origins, ?_, fun a ha => ?_⟩
  · rw [h'.calls, h.calls, List.append_assoc]
  · rcases h'.housed a ha with hp | hp
    · exact (h.housed a hp).imp id fun hlt => Nat.lt_of_lt_of_le hlt h'.connections
    · exact .inr hp

/-- An outline that is the same has gone on without a call. -/
theorem grows_of_eq {o p : Outline} (h : p = o) : o.Grows [] p := h ▸ .refl o

end Outline

/-- What stands in a list stands in one that goes on from it. -/
theorem getElem?_of_grows {α : Type} {l m : List α} (h : l <+: m) {i : Nat} {a : α}
    (ha : l[i]? = some a) : m[i]? = some a := by
  obtain ⟨t, rfl⟩ := h
  rw [List.getElem?_append_left (List.getElem?_eq_some_iff.1 ha).1]
  exact ha

/-! ## Fitting -/

/-- The exchange of a call: goal, request and call are about the same things. Only a close of the
broker connection is given up. -/
def Exchange.Fits (o : Outline) (x : Call) (e : Exchange) : Prop :=
  match e.goal with
  | .openSession _ _ => e.limit = none ∧ e.connection < o.connections ∧
      e.request = .createChannel ∧
      ∃ transacted mode via, x = .createSession e.connection transacted mode via
  | .discardSession s _ => e.limit = none ∧
      (∃ transacted mode via, x = .createSession e.connection transacted mode via) ∧
      ∃ k, o.addresses[s]? = some (e.connection, k) ∧ e.request = .closeChannel k
  | .closeSession s _ => e.limit = none ∧ x = .closeSession s ∧
      ∃ k, o.addresses[s]? = some (e.connection, k) ∧ e.request = .closeChannel k
  | .closeNext _ _ _ _ => e.limit = none ∧ e.connection < o.connections ∧
      x = .close e.connection ∧ ∃ k, e.request = .closeChannel k
  | .closeBroker _ => e.connection < o.connections ∧ x = .close e.connection ∧
      e.request = .close
  | .publish s _ _ => e.limit = none ∧ ∃ m k, x = .send s m ∧
      o.addresses[s]? = some (e.connection, k) ∧ e.request = .publish k m
  | .retarget s c name _ => e.limit = none ∧ ∃ d k, x = .subscribe s d name ∧
      o.origins[c]? = some (s, d, some name) ∧ o.addresses[s]? = some (e.connection, k) ∧
      e.request = .delete k name
  | .declare s c name _ => e.limit = none ∧ ∃ d k, x = .subscribe s d name ∧
      o.origins[c]? = some (s, d, some name) ∧ o.addresses[s]? = some (e.connection, k) ∧
      e.request = .declare k d.name name
  | .unsubscribe s name => e.limit = none ∧ x = .unsubscribe s name ∧
      ∃ k, o.addresses[s]? = some (e.connection, k) ∧ e.request = .delete k name

/-- Where a call stands fits the call. -/
def Progress.Fits (o : Outline) (x : Call) : Progress → Prop
  | .begun => True
  | .turn s m _ => x = .send s m ∧ ∃ a, o.addresses[s]? = some a
  | .exchange e => e.Fits o x
  | .resumption c => x = .awaitResume c
  | .ended (.ok (.session s)) => ∃ c k transacted mode via,
      x = .createSession c transacted mode via ∧ o.addresses[s]? = some (c, k)
  | .ended (.ok (.consumer c)) => ∃ s d name,
      x = .subscribe s d name ∧ o.origins[c]? = some (s, d, some name) ∧
      ∃ a, o.addresses[s]? = some a
  | .ended _ => True

/-- What an exchange is about is still there when the outline has grown, so that it still fits. -/
theorem Exchange.Fits.mono {o p : Outline} {xs : List Call} (h : o.Grows xs p) {x : Call}
    {e : Exchange} (hf : e.Fits o x) : e.Fits p x := by
  have ha {s : SessionId} {a} (hs : o.addresses[s]? = some a) : p.addresses[s]? = some a :=
    getElem?_of_grows h.addresses hs
  have ho {c : ConsumerId} {a} (hc : o.origins[c]? = some a) : p.origins[c]? = some a :=
    getElem?_of_grows h.origins hc
  have hn {c : ConnectionId} (hc : c < o.connections) : c < p.connections :=
    Nat.lt_of_lt_of_le hc h.connections
  -- One case for each goal; what the exchange refers to is still there and the same.
  unfold Exchange.Fits at hf ⊢
  split
  next hg =>
    obtain ⟨hl, hc, hr⟩ := by simpa only [hg] using hf
    exact ⟨hl, hn hc, hr⟩
  next hg =>
    obtain ⟨hl, hx, k, hk, hr⟩ := by simpa only [hg] using hf
    exact ⟨hl, hx, k, ha hk, hr⟩
  next hg =>
    obtain ⟨hl, hx, k, hk, hr⟩ := by simpa only [hg] using hf
    exact ⟨hl, hx, k, ha hk, hr⟩
  next hg =>
    obtain ⟨hl, hc, hr⟩ := by simpa only [hg] using hf
    exact ⟨hl, hn hc, hr⟩
  next hg =>
    obtain ⟨hc, hr⟩ := by simpa only [hg] using hf
    exact ⟨hn hc, hr⟩
  next hg =>
    obtain ⟨hl, m, k, hx, hk, hr⟩ := by simpa only [hg] using hf
    exact ⟨hl, m, k, hx, ha hk, hr⟩
  next hg =>
    obtain ⟨hl, d, k, hx, hc, hk, hr⟩ := by simpa only [hg] using hf
    exact ⟨hl, d, k, hx, ho hc, ha hk, hr⟩
  next hg =>
    obtain ⟨hl, d, k, hx, hc, hk, hr⟩ := by simpa only [hg] using hf
    exact ⟨hl, d, k, hx, ho hc, ha hk, hr⟩
  next hg =>
    obtain ⟨hl, hx, k, hk, hr⟩ := by simpa only [hg] using hf
    exact ⟨hl, hx, k, ha hk, hr⟩

/-- A call that fits goes on fitting wherever it stands. -/
theorem Progress.Fits.mono {o p : Outline} {xs : List Call} (h : o.Grows xs p) {x : Call}
    {q : Progress} (hf : q.Fits o x) : q.Fits p x := by
  have ha {s : SessionId} {a} (hs : o.addresses[s]? = some a) : p.addresses[s]? = some a :=
    getElem?_of_grows h.addresses hs
  have ho {c : ConsumerId} {a} (hc : o.origins[c]? = some a) : p.origins[c]? = some a :=
    getElem?_of_grows h.origins hc
  unfold Progress.Fits at hf ⊢
  split <;> simp only at hf
  · trivial
  · obtain ⟨hx, a, hs⟩ := hf
    exact ⟨hx, a, ha hs⟩
  · exact Exchange.Fits.mono h hf
  · exact hf
  · obtain ⟨c, k, t, m, v, hx, hs⟩ := hf
    exact ⟨c, k, t, m, v, hx, ha hs⟩
  · obtain ⟨s, d, name, hx, hc, a, hs⟩ := hf
    exact ⟨s, d, name, hx, ho hc, a, ha hs⟩
  · trivial

namespace System

/-- Every call fits what it works on, and every session has its connection. -/
structure Wired (w : System) : Prop where
  fit : ∀ (i : CallId) (t : Task), w.calls[i]? = some t → t.progress.Fits w.outline t.call
  housed : ∀ a ∈ w.outline.addresses, a.1 < w.outline.connections

/-- Sessions that were there have their connections, and new ones come with theirs. -/
theorem housed_of_grows {o p : Outline} {xs : List Call} (h : o.Grows xs p)
    (ho : ∀ a ∈ o.addresses, a.1 < o.connections) : ∀ a ∈ p.addresses, a.1 < p.connections := by
  intro a ha
  rcases h.housed a ha with hm | hlt
  · exact Nat.lt_of_lt_of_le (ho a hm) h.connections
  · exact hlt

/-- A client goes on to another one, in which everything still fits, with calls `xs` started. -/
structure Onward (w : System) (xs : List Call) (u : System) : Prop where
  wired : u.Wired
  grows : w.outline.Grows xs u.outline

/-- One thing after the other, where the second may rely on what fits after the first. -/
theorem Onward.andThen {w v u : System} {xs ys : List Call} (h : Onward w xs v)
    (h' : v.Wired → Onward v ys u) : Onward w (xs ++ ys) u :=
  ⟨(h' h.wired).wired, h.grows.trans (h' h.wired).grows⟩

/-- Whatever leaves the calls where they stand and lets the outline grow keeps them fitting. -/
theorem Wired.grow {w v : System} (h : w.Wired) (hg : w.outline.Grows [] v.outline)
    (hc : v.calls = w.calls) : Onward w [] v := by
  refine ⟨⟨fun i t ht => ?_, housed_of_grows hg h.housed⟩, hg⟩
  rw [hc] at ht
  exact (h.fit i t ht).mono hg

/-- A stretch of a call: what the call works on goes on, and the call stands where it fits. -/
theorem Wired.setCall {w v : System} (h : w.Wired) (hg : w.outline.Grows [] v.outline)
    (hc : v.calls = w.calls) {i : CallId} {p : Progress}
    (hp : ∀ t, w.calls[i]? = some t → p.Fits v.outline t.call) : Onward w [] (v.setCall i p) := by
  have ho : (v.setCall i p).outline = v.outline := by
    simp [outline, System.setCall, map_modify_eq]
  refine ⟨⟨fun j t ht => ?_, ho ▸ housed_of_grows hg h.housed⟩, ho ▸ hg⟩
  rw [ho]
  rw [System.setCall, hc, List.getElem?_modify] at ht
  by_cases hij : i = j
  · subst hij
    obtain ⟨t', ht', rfl⟩ := Option.map_eq_some_iff.1 ht
    rw [if_pos rfl]
    exact hp t' ht'
  · simp only [hij, if_false, id_map'] at ht
    exact (h.fit j t ht).mono hg

/-! ## Where the outline stays as it is -/

/-- Logging is not in the outline. -/
@[simp] theorem outline_log (w : System) (e : LogEvent) : (w.log e).outline = w.outline := rfl

/-- How many connections there are is in the outline, but not what they are like. -/
@[simp] theorem outline_modifyConnection (w : System) (c : ConnectionId)
    (f : Connection → Connection) : (w.modifyConnection c f).outline = w.outline := by
  simp [outline]

/-- A session keeps its address whatever else changes in it. -/
@[simp] theorem outline_modifySession {f : Session → Session} (h : ∀ x, (f x).address = x.address)
    (w : System) (s : SessionId) : (w.modifySession s f).outline = w.outline := by
  rw [outline, modifySession, map_modify_eq h]
  rfl

/-- A consumer keeps what it was created for. -/
@[simp] theorem outline_modifyConsumer {f : Consumer → Consumer} (h : ∀ x, (f x).origin = x.origin)
    (w : System) (c : ConsumerId) : (w.modifyConsumer c f).outline = w.outline := by
  rw [outline, modifyConsumer, map_modify_eq h]
  rfl

@[simp] theorem outline_closeIdentifierWindow (w : System) (c : ConnectionId) :
    (w.closeIdentifierWindow c).outline = w.outline := outline_modifyConnection w c _

/-- Closing a consumer does not take it off the list of consumers. -/
@[simp] theorem outline_closeConsumer (w : System) (c : ConsumerId) :
    (w.closeConsumer c).outline = w.outline := by
  unfold closeConsumer
  split
  · rfl
  · simp

@[simp] theorem outline_foldl_closeConsumer (cs : List ConsumerId) (w : System) :
    (cs.foldl closeConsumer w).outline = w.outline := by
  induction cs generalizing w with
  | nil => rfl
  | cons c cs ih => rw [List.foldl_cons, ih, outline_closeConsumer]

/-- Closing a session takes neither it nor its consumers away. -/
@[simp] theorem outline_shutSession (w : System) (s : SessionId) :
    (w.shutSession s).2.outline = w.outline := by
  simp [shutSession]

/-- Neither way of handing a consumer to a session, by adding or by closing it, is seen. -/
@[simp] theorem outline_adopt (w : System) (s : SessionId) (c : ConsumerId) :
    (w.adopt s c).2.outline = w.outline := by
  unfold adopt
  split
  · exact outline_closeConsumer w c
  · simp

@[simp] theorem outline_abandonName (w : System) (c : ConnectionId) (name : String)
    (x : ConsumerId) (claim : Claim) :
    (w.abandonName c name x claim).outline = w.outline := outline_modifyConnection w c _

/-- Taking a name changes the register of a connection alone. -/
theorem outline_of_claimName {w v : System} {c : ConnectionId} {name : String} {x : ConsumerId}
    {d : Destination} {claim : Claim} (h : w.claimName c name x d = .ok (claim, v)) :
    v.outline = w.outline := by
  unfold claimName at h
  split at h <;> cases h
  exact outline_modifyConnection w c _

/-- Awaiting a message works on a session and on the faults of its connection. -/
@[simp] theorem outline_readyToPublish (w : System) (s : SessionId) (m : Message)
    (tracked : Bool) : (w.readyToPublish s m tracked).outline = w.outline := by
  cases tracked <;> simp [readyToPublish]

/-! ## A stretch of a call -/

/-- A call that fails fits, whatever it was about. -/
theorem Wired.fail {w v : System} (h : w.Wired) (hg : w.outline.Grows [] v.outline)
    (hc : v.calls = w.calls) (i : CallId) (e : Error) : Onward w [] (v.fail i e) :=
  h.setCall hg hc fun _ _ => trivial

theorem Wired.done {w v : System} (h : w.Wired) (hg : w.outline.Grows [] v.outline)
    (hc : v.calls = w.calls) (i : CallId) : Onward w [] (v.finish i (.ok .unit)) :=
  h.setCall hg hc fun _ _ => trivial

/-- A stretch that ends in asking the broker. -/
theorem Wired.ask {w v : System} (h : w.Wired) (hg : w.outline.Grows [] v.outline)
    (hc : v.calls = w.calls) {i : CallId} {c : ConnectionId} {request : Request}
    {limit : Option Nat} {goal : Goal}
    (hf : ∀ t, w.calls[i]? = some t → ∀ e : Exchange, e.connection = c → e.request = request →
      e.limit = limit → e.goal = goal → e.Fits v.outline t.call) :
    Onward w [] (v.ask i c request limit goal) := by
  rw [ask_eq]
  refine Wired.setCall h ?_ ?_ ?_
  · rw [outline_modifyConnection]
    exact hg
  · exact hc
  · intro t ht
    rw [outline_modifyConnection]
    exact hf t ht _ rfl rfl rfl rfl

/-! ## Each stretch -/

/-- Call `i`, if there is one, is `x`. -/
def IsCall (w : System) (i : CallId) (x : Call) : Prop :=
  ∀ t : Task, w.calls[i]? = some t → t.call = x

/-- The address of a session that there is. -/
theorem address_of_lt {w : System} {s : SessionId} (hs : s < w.sessions.length) :
    w.outline.addresses[s]? = some ((w.session s).connection, (w.session s).channel) := by
  simp [outline, session, hs]

/-- Whether a session was opened on a connection. -/
def isOn (w : System) (c : ConnectionId) (s : SessionId) : Bool :=
  s < w.sessions.length && (w.session s).connection = c

/-- Nothing is said of a session that is not there. -/
theorem isOn_iff {w : System} {c : ConnectionId} {s : SessionId} :
    w.isOn c s = true ↔ s < w.sessions.length ∧ (w.session s).connection = c := by
  simp [isOn]

/-- A session with an address is there. -/
theorem lt_of_address {w : System} {s : SessionId} {a : ConnectionId × Nat}
    (h : w.outline.addresses[s]? = some a) : s < w.sessions.length := by
  simpa [outline] using (List.getElem?_eq_some_iff.1 h).1

/-- The destination that a consumer was created for is the one that it has. -/
theorem destination_of_origin {w : System} {x : ConsumerId} {s : SessionId} {d : Destination}
    {n : Option String} (h : w.outline.origins[x]? = some (s, d, n)) : w.destinationOf x = d := by
  obtain ⟨y, hy, ho⟩ := by simpa [outline] using h
  simp [destinationOf, consumer, hy, ho]

/-- What is told is not in the outline. -/
theorem Quiet.outline {w v : System} (h : Quiet w v) : v.outline = w.outline := by
  rw [System.outline, h.connections, h.sessions, h.consumers, h.calls]
  rfl

/-- Telling something keeps every call fitting. -/
theorem Wired.quiet {w v : System} (h : w.Wired) (hq : Quiet w v) : Onward w [] v :=
  h.grow (Outline.grows_of_eq hq.outline) hq.calls

/-- A connection that forgets a session does not take it away. -/
@[simp] theorem outline_forget (w : System) (s : SessionId) :
    (w.forget s).outline = w.outline := by
  unfold forget
  split
  · exact outline_modifyConnection w _ _
  · rfl

section Stretches

variable {w : System} {i : CallId} {c : ConnectionId} {s : SessionId}

/-- Closing the sessions of a connection: those that are closed are passed over, and at the first
that is open, or in the end at the broker connection, the call asks for what its goal says. -/
theorem onward_closeSessions (h : w.Wired) (failure : Option TransportFailure)
    (hc : c < w.connections.length) (hx : w.IsCall i (.close c)) (ss : List SessionId) :
    Onward w [] (w.closeSessions i c failure ss) := by
  induction ss with
  | nil =>
    rw [closeSessions]
    refine h.ask (.refl _) rfl fun t ht e hconn hr hl hg => ?_
    simp only [Exchange.Fits, hg]
    exact ⟨hconn ▸ hc, hconn ▸ hx t ht, hr⟩
  | cons s ss ih =>
    rw [closeSessions]
    split
    · exact ih
    · refine h.ask (Outline.grows_of_eq (outline_shutSession w s)) (by simp) ?_
      intro t ht e hconn hr hl hg
      simp only [Exchange.Fits, hg]
      rw [outline_shutSession, hconn]
      exact ⟨hl, hc, hx t ht, _, hr⟩

/-- The first call closes, later ones end at once. -/
theorem onward_closeConnection (h : w.Wired) (hc : c < w.connections.length)
    (hx : w.IsCall i (.close c)) : Onward w [] (w.closeConnection i c) := by
  rcases closeConnection_effect w i c with ⟨_, v, hq, he⟩ | ⟨_, v, rs, hq, he⟩
  · rw [he]
    exact (h.quiet hq).andThen fun hv => hv.done (.refl _) rfl i
  · rw [he]
    have hu : Onward w [] (({ v with registries := rs } : System).modifyConnection c fun x =>
        { x with life := .closed, clientId := none, sessions := [] }) :=
      (h.quiet hq).andThen fun hv => hv.grow
        (Outline.grows_of_eq (outline_modifyConnection { v with registries := rs } c _)) rfl
    refine hu.andThen fun hu => onward_closeSessions hu none ?_ ?_ _
    · simpa [hq.connections] using hc
    · intro t ht
      exact hx t (hq.calls ▸ ht)

/-- A session is forgotten by its connection, and then the call asks for the close of its channel or
ends. -/
theorem onward_closeSession (h : w.Wired) (hs : s < w.sessions.length)
    (hx : w.IsCall i (.closeSession s)) : Onward w [] (w.closeSession i s) := by
  obtain ⟨v, hq, ⟨_, he⟩ | ⟨_, he⟩⟩ := closeSession_effect w i s
  · rw [he]
    exact (h.quiet hq).andThen fun hv => hv.done (Outline.grows_of_eq (by simp)) (by simp) i
  · have ho : ((v.forget s).shutSession s).2.outline = w.outline := by simp [hq.outline]
    rw [he]
    refine h.ask (Outline.grows_of_eq ho) (by simp [hq.calls]) fun t ht e hc hr hl hg => ?_
    simp only [Exchange.Fits, hg]
    refine ⟨hl, hx t ht, _, ?_, hr⟩
    rw [ho, hc]
    exact address_of_lt hs

/-- The call fails on a closed connection, and asks for a channel otherwise. -/
theorem onward_createSession (h : w.Wired) (hc : c < w.connections.length) {transacted : Bool}
    {mode : AckMode} {via : Option Domain}
    (hx : w.IsCall i (.createSession c transacted mode via)) :
    Onward w [] (w.createSession i c transacted mode via) := by
  obtain ⟨v, hq, ⟨_, he | he⟩ | ⟨_, he⟩⟩ := createSession_effect w i c transacted mode via
  · rw [he]
    exact (h.quiet hq).andThen fun hv => hv.fail (.refl _) rfl i _
  · rw [he]
    exact (h.quiet hq).andThen fun hv =>
      hv.fail (Outline.grows_of_eq (outline_closeIdentifierWindow v c)) rfl i _
  · rw [he]
    refine (h.quiet hq).andThen fun hv =>
      hv.ask (Outline.grows_of_eq (outline_closeIdentifierWindow v c)) rfl ?_
    intro t ht e hconn hr hl hg
    simp only [Exchange.Fits, hg]
    rw [outline_closeIdentifierWindow, hq.outline, hconn]
    exact ⟨hl, hc, hr, _, _, _, hx t (hq.calls ▸ ht)⟩

theorem connections_enroll (w : System) (c : ConnectionId) (x : Session) :
    (w.enroll c x).connections.length = w.connections.length := by
  simp [enroll]

/-- A new session is added to a connection that is there. -/
theorem grows_enroll (hc : c < w.connections.length) {x : Session} (hx : x.connection = c) :
    w.outline.Grows [] (w.enroll c x).outline := by
  refine ⟨?_, ⟨[x.address], by simp [outline]⟩, List.prefix_rfl, (List.append_nil _).symm, ?_⟩
  · simp [outline, connections_enroll]
  · intro a ha
    simp only [outline, enroll_leaves, List.map_append, List.map_cons, List.map_nil,
      List.mem_append, List.mem_singleton] at ha
    rcases ha with ha | rfl
    · exact .inl ha
    · exact .inr (by simpa [outline, connections_enroll, hx] using hc)

/-- The new session stands last. -/
theorem address_enroll (w : System) (c : ConnectionId) (x : Session) :
    (w.enroll c x).outline.addresses[w.sessions.length]? = some x.address := by
  simp [outline]

/-- A channel that was opened becomes a session of the connection for which it was asked, and the
call ends with it or asks for its close. -/
theorem onward_openSession (h : w.Wired) (hlt : c < w.connections.length) (k : Nat)
    {transacted transacted' : Bool} {mode mode' : AckMode} {via : Option Domain}
    (hx : w.IsCall i (.createSession c transacted' mode' via)) :
    Onward w [] (w.openSession i c k transacted mode) := by
  -- A session that comes too late is enrolled all the same, and its channel is closed.
  cases hc : (w.connection c).life.isClosed with
  | true =>
    rw [openSession_closed hc]
    have ho := outline_shutSession (w.enroll c (w.newSession c k transacted mode))
      w.sessions.length
    refine h.ask ?_ (by simp) fun t ht e hconn hr hl hg => ?_
    · rw [ho]
      exact grows_enroll hlt rfl
    · simp only [Exchange.Fits, hg]
      refine ⟨hl, ⟨_, _, _, hconn ▸ hx t ht⟩, k, ?_, hr⟩
      rw [ho, address_enroll, hconn]
      rfl
  | false =>
    obtain ⟨v, hq, he⟩ := openSession_open hc i k transacted mode
    rw [he]
    refine h.setCall ?_ ?_ fun t ht => ?_
    · rw [outline_modifyConnection, hq.outline]
      exact grows_enroll hlt rfl
    · simp [hq.calls]
    · refine ⟨c, k, _, _, _, hx t ht, ?_⟩
      rw [outline_modifyConnection, hq.outline, address_enroll]
      rfl

/-- A consumer that is appended stands at the end. -/
theorem grows_appendConsumer (w : System) (x : Consumer) :
    w.outline.Grows [] ({ w with consumers := w.consumers ++ [x] } : System).outline :=
  ⟨Nat.le_refl _, List.prefix_rfl, ⟨[x.origin], by simp [outline]⟩, (List.append_nil _).symm,
    fun _ h => .inl h⟩

/-- A call that creates a durable subscriber fails, or it comes to ask for a declaration or a
deletion for a consumer that it has just made. -/
theorem onward_subscribe (h : w.Wired) (hs : s < w.sessions.length) {d : Destination}
    {name : String} (hx : w.IsCall i (.subscribe s d name)) :
    Onward w [] (w.subscribe i s d name) := by
  rcases subscribe_effect w i s d name with ⟨e, _, he⟩ | ⟨_, _, claim, v, u, hclaim, hq, he⟩
  · rw [he]
    exact h.fail (.refl _) rfl i e
  · have hv := claimName_leaves hclaim
    -- The new consumer stands at the end; the rest of the outline is as it was.
    have hu : u.outline = ({ w with consumers := w.consumers ++
        [{ session := s, destination := d, subscription := some name }] } : System).outline := by
      have hl : v.connections.length = w.connections.length :=
        congrArg Outline.connections (outline_of_claimName hclaim)
      rw [hq.outline]
      simp [outline, hl, hv.2.1, hv.2.2.1, hv.2.2.2]
    have hg : w.outline.Grows [] u.outline := hu ▸ grows_appendConsumer w _
    have ha : u.outline.addresses[s]? =
        some ((w.session s).connection, (w.session s).channel) :=
      getElem?_of_grows hg.addresses (address_of_lt hs)
    have ho : u.outline.origins[w.consumers.length]? = some (s, d, some name) := by
      rw [hu]
      simp [outline]
    have hc : u.calls = w.calls := hq.calls.trans hv.2.2.2
    rcases he with ⟨_, he⟩ | he
    all_goals
      rw [he]
      refine h.ask hg hc fun t ht e hconn hr hl hgoal => ?_
      simp only [Exchange.Fits, hgoal]
      exact ⟨hl, d, _, hx t ht, ho, hconn ▸ ha, hr⟩

/-- A call that unsubscribes fails, or asks for the deletion of its name. -/
theorem onward_unsubscribe (h : w.Wired) (hs : s < w.sessions.length) {name : String}
    (hx : w.IsCall i (.unsubscribe s name)) : Onward w [] (w.unsubscribe i s name) := by
  rcases unsubscribe_effect w i s name with ⟨e, _, he⟩ | ⟨_, _, _, he⟩
  · rw [he]
    exact h.fail (.refl _) rfl i e
  · rw [he]
    refine h.ask (Outline.grows_of_eq (outline_modifyConnection w _ _)) rfl ?_
    intro t ht e hc hr hl hg
    simp only [Exchange.Fits, hg]
    exact ⟨hl, hx t ht, _, hc ▸ address_of_lt hs, hr⟩

/-- A message is published on the channel of the session on which it is sent. -/
theorem onward_publish (h : w.Wired) (hs : s < w.sessions.length) {m : Message}
    (tracked : Bool) (hx : w.IsCall i (.send s m)) : Onward w [] (w.publish i s m tracked) := by
  have ho := outline_readyToPublish w s m tracked
  rw [publish_eq]
  refine h.ask (Outline.grows_of_eq ho) (by simp) fun t ht e hconn hr hl hg => ?_
  simp only [Exchange.Fits, hg]
  refine ⟨hl, m, _, hx t ht, ?_, hr⟩
  rw [ho, hconn]
  exact address_of_lt hs

/-- A message that has to wait for its turn is remembered with its session. -/
theorem onward_send (h : w.Wired) (hs : s < w.sessions.length) {m : Message}
    (hx : w.IsCall i (.send s m)) : Onward w [] (w.send i s m) := by
  have ho : (w.takePlace i s).outline = w.outline := outline_modifySession (by intro _; rfl) w s
  have hg : w.outline.Grows [] (w.takePlace i s).outline := Outline.grows_of_eq ho
  rcases send_effect w i s m with he | ⟨_, he⟩ | he
  · rw [he]
    exact h.fail (.refl _) rfl i _
  · have hlt : s < (w.takePlace i s).sessions.length := by simpa [takePlace] using hs
    rw [he]
    exact (h.grow hg rfl).andThen fun hv => onward_publish hv hlt _ hx
  · rw [he]
    refine h.setCall hg rfl fun t ht => ?_
    exact ⟨hx t ht, _, ho ▸ address_of_lt hs⟩

theorem onward_endPublish (h : w.Wired) (tag : Nat) (tracked : Bool)
    (result : Except TransportFailure Unit) :
    Onward w [] (w.endPublish i s tag tracked result) := by
  rcases endPublish_effect w i s tag tracked result with ⟨_, he⟩ | ⟨_, _, he⟩
  · rw [he]
    exact h.done (Outline.grows_of_eq (outline_modifySession (by intro _; rfl) w s)) rfl i
  · rw [he]
    exact h.fail (Outline.grows_of_eq (outline_modifySession (by intro _; rfl) w s)) rfl i _

/-- An outcome of waiting for delivery fits every call. -/
theorem onward_resumed (h : w.Wired) {x : ConsumerId} {o : Outcome}
    (ho : w.resumption x = some o) : Onward w [] (w.finish i o) := by
  rcases resumption_cases ho with rfl | ⟨e, rfl⟩
  · exact h.done (.refl _) rfl i
  · exact h.fail (.refl _) rfl i e

/-- A wait for delivery ends at once, or it goes on for the consumer that it was started for. -/
theorem onward_awaitResume (h : w.Wired) {x : ConsumerId} (hx : w.IsCall i (.awaitResume x)) :
    Onward w [] (w.awaitResume i x) := by
  unfold awaitResume
  split
  next o ho => exact onward_resumed h ho
  next => exact h.setCall (.refl _) rfl fun t ht => hx t ht

/-- What the program holds is there. -/
theorem lt_of_holdsSession (h : w.holdsSession s = true) : s < w.sessions.length := by
  obtain ⟨x, hx, _⟩ := (Option.any_eq_true _ _).1 h
  exact (List.getElem?_eq_some_iff.1 hx).1

theorem lt_of_holdsConnection (h : w.holdsConnection c = true) : c < w.connections.length := by
  obtain ⟨x, hx, _⟩ := (Option.any_eq_true _ _).1 h
  exact (List.getElem?_eq_some_iff.1 hx).1

theorem grows_enlist (w : System) (x : Call) : w.outline.Grows [x] (w.enlist x).outline :=
  ⟨Nat.le_refl _, List.prefix_rfl, List.prefix_rfl, by simp [outline], fun _ h => .inl h⟩

/-- A call that has not run yet fits anything. -/
theorem onward_enlist (h : w.Wired) (x : Call) : Onward w [x] (w.enlist x) := by
  have hg := grows_enlist w x
  refine ⟨⟨fun j t ht => ?_, housed_of_grows hg h.housed⟩, hg⟩
  rw [enlist, List.getElem?_append] at ht
  split at ht
  · exact (h.fit j t ht).mono hg
  · obtain ⟨rfl⟩ : ({ call := x } : Task) = t := by
      rcases hk : j - w.calls.length with _ | k
      · simpa [hk] using ht
      · simp [hk] at ht
    trivial

theorem isCall_enlist (w : System) (x : Call) : (w.enlist x).IsCall w.calls.length x := by
  intro t ht
  simp only [enlist_leaves, List.getElem?_concat_length, Option.some.injEq] at ht
  rw [← ht]

/-- What a call was started for does not change. -/
theorem Onward.isCall {xs : List Call} (h : Onward w xs v) (hi : i < w.calls.length) {y : Call}
    (hy : w.IsCall i y) : v.IsCall i y := by
  intro t ht
  have hc := congrArg (fun l => l[i]?) h.grows.calls
  simp only [outline] at hc
  rw [List.getElem?_append_left (by simpa using hi), List.getElem?_map, List.getElem?_map, ht,
    List.getElem?_eq_getElem hi] at hc
  exact (Option.some.inj hc).trans (hy _ (List.getElem?_eq_getElem hi))

/-- The first stretch of any call, by cases on the call. -/
theorem onward_begin (h : w.Wired) {x : Call} (hx : w.mayCall x = true) (hi : w.IsCall i x) :
    Onward w [] (w.begin i x) := by
  cases x with
  | createSession d transacted mode via =>
    exact onward_createSession h (lt_of_holdsConnection hx) hi
  | close d => exact onward_closeConnection h (lt_of_holdsConnection hx) hi
  | closeSession t => exact onward_closeSession h (lt_of_holdsSession hx) hi
  | subscribe t d name => exact onward_subscribe h (lt_of_holdsSession hx) hi
  | unsubscribe t name => exact onward_unsubscribe h (lt_of_holdsSession hx) hi
  | send t m => exact onward_send h (lt_of_holdsSession hx) hi
  | awaitResume y => exact onward_awaitResume h hi

/-- Starting a call adds it, and its first stretch fits it. -/
theorem onward_call (h : w.Wired) {x : Call} (hx : w.mayCall x = true) :
    Onward w [x] (w.call x).2 := by
  rw [call_eq]
  exact (onward_enlist h x).andThen fun hv => onward_begin hv hx (isCall_enlist w x)

/-! ## Going on -/

/-- The task of a call that stands somewhere. -/
theorem task_of_progress {p : Progress} (hp : w.progress? i = some p) :
    ∃ t : Task, w.calls[i]? = some t ∧ t.progress = p := by
  simpa [progress?] using hp

/-- A call is what it was started as. -/
theorem isCall_of_getElem? {t : Task} (ht : w.calls[i]? = some t) : w.IsCall i t.call :=
  fun t' ht' => by
    rw [ht] at ht'
    cases ht'
    rfl

/-- What call `i` waits for fits it. -/
theorem Wired.fits (h : w.Wired) {p : Progress} (hp : w.progress? i = some p) :
    ∃ x, w.IsCall i x ∧ p.Fits w.outline x := by
  obtain ⟨t, ht, rfl⟩ := task_of_progress hp
  exact ⟨t.call, isCall_of_getElem? ht, h.fit i t ht⟩

/-- A stretch that begins with an answer: what the call is to go on with fits the call, so that what
it does next fits too. -/
theorem onward_resolve (h : w.Wired) {e : Exchange} (hp : w.progress? i = some (.exchange e))
    (reply : Reply) : Onward w [] (w.resolve i e reply) := by
  obtain ⟨x, hx, hf⟩ := h.fits hp
  simp only [Progress.Fits, Exchange.Fits] at hf
  cases hg : e.goal with
  | openSession transacted mode =>
    simp only [hg] at hf
    obtain ⟨_, hc, _, t', m', v', rfl⟩ := hf
    simp only [resolve, hg]
    cases reply with
    | opened k => exact onward_openSession h hc k hx
    | failed f => exact h.fail (.refl _) rfl i _
    | done => exact h.fail (.refl _) rfl i _
  | closeNext s n rest failure =>
    simp only [hg] at hf
    obtain ⟨_, hc, rfl, _⟩ := hf
    obtain ⟨v, f', hq, he⟩ := resolve_closeNext hg w i reply
    rw [he]
    exact (h.quiet hq).andThen fun hv => onward_closeSessions hv f' (hq.connections ▸ hc)
      (fun t ht => hx t (hq.calls ▸ ht)) rest
  | publish s tag tracked =>
    simp only [resolve, hg]
    exact onward_endPublish h tag tracked _
  | retarget s y name claim =>
    simp only [hg] at hf
    obtain ⟨_, d, k, rfl, ho, ha, _⟩ := hf
    have hs := lt_of_address ha
    have hk := address_of_lt hs
    rw [ha] at hk
    simp only [Option.some.injEq, Prod.mk.injEq] at hk
    rcases resolve_retarget hg w i reply with he | ⟨f, he⟩
    · -- The declaration that follows is about the same consumer and session.
      rw [he]
      refine h.ask (.refl _) rfl fun t ht e' hconn hr hl hgoal => ?_
      simp only [Exchange.Fits, hgoal]
      refine ⟨hl, d, k, hx t ht, ho, hconn ▸ ha, ?_⟩
      rw [hr, ← hk.2, destination_of_origin ho]
    · rw [he]
      exact h.fail (Outline.grows_of_eq (outline_abandonName w _ _ _ _)) rfl i _
  | declare s y name claim =>
    simp only [hg] at hf
    obtain ⟨_, d, k, rfl, ho, ha, _⟩ := hf
    have hoa := outline_adopt w s y
    have hca : (w.adopt s y).2.calls = w.calls := (adopt_leaves w s y).2.2.2
    rcases resolve_declare hg w i reply with he | ⟨f, he⟩ | ⟨f, he⟩
    · rw [he]
      refine h.setCall (Outline.grows_of_eq hoa) hca fun t ht => ?_
      exact ⟨s, d, name, hx t ht, hoa ▸ ho, _, hoa ▸ ha⟩
    · rw [he]
      exact h.fail (Outline.grows_of_eq hoa) hca i f
    · rw [he]
      exact h.fail (Outline.grows_of_eq (outline_abandonName w _ _ _ _)) rfl i f
  | _ =>
    obtain ⟨v, hq, he | ⟨f, he⟩⟩ := resolve_last (by rw [hg]; rfl) w i reply
    · rw [he]
      exact (h.quiet hq).andThen fun hv => hv.done (.refl _) rfl i
    · rw [he]
      exact (h.quiet hq).andThen fun hv => hv.fail (.refl _) rfl i f

/-- A request that takes effect changes a broker, and the call waits on for the answer. -/
theorem onward_takeEffect (h : w.Wired) {e : Exchange}
    (hp : w.progress? i = some (.exchange e)) (after : Nat) :
    Onward w [] (w.takeEffect i e after) := by
  obtain ⟨x, hx, hf⟩ := h.fits hp
  refine h.setCall (Outline.grows_of_eq (outline_modifyConnection w _ _)) rfl fun t ht => ?_
  rw [hx t ht, outline_modifyConnection]
  exact hf

/-- Any stretch of a call that goes on. -/
theorem onward_resume (h : w.Wired) {u : System} (hr : w.resume? i = some u) :
    Onward w [] u := by
  rcases resume?_cases hr with ⟨s, m, tracked, hp, _, rfl⟩ | ⟨e, reply, hp, _, _, rfl⟩ |
    ⟨e, after, hp, _, _, rfl⟩ | ⟨e, _, _, _, _, _, rfl⟩ | ⟨x, o, _, ho, rfl⟩
  · obtain ⟨x, hx, rfl, a, ha⟩ := h.fits hp
    exact onward_publish h (lt_of_address ha) tracked hx
  · exact onward_resolve h hp reply
  · exact onward_takeEffect h hp after
  · obtain ⟨v, hq, he⟩ := giveUp_effect w i e
    rw [he]
    exact (h.quiet hq).andThen fun hv => hv.fail (.refl _) rfl i _
  · exact onward_resumed h ho

end Stretches

/-! ## Operations and dispatchers -/

/-- An update aside is not seen in the outline. -/
theorem Aside.outline {w v : System} (h : Aside w v) : v.outline = w.outline := by
  have hc := congrArg List.length h.connections
  simp only [List.length_map] at hc
  rw [System.outline, hc, h.sessions, h.consumers, h.calls]
  rfl

theorem outline_redirect (w : System) (c : ConnectionId) (life : Lifecycle) (next : Delivery) :
    (w.redirect c life next).outline = w.outline := by
  simp only [outline, redirect, turnAll_map (g := Session.address) (fun _ => rfl),
    modifyConnection_leaves, List.length_modify]

theorem Framed.outline {w v : System} (h : Framed w v) : v.outline = w.outline := by
  have hs := congrArg (List.map Session.address) h.sessions
  simp only [List.map_map] at hs
  rw [System.outline, h.connections, h.consumers, h.calls]
  congr 1

/-- No operation starts a call, ends one, or lets one go on. -/
theorem operate_calls (w : System) (o : Operation) : (w.operate o).2.calls = w.calls := by
  obtain ⟨u, hu, ha⟩ := operate_change w o
  rw [ha.calls]
  cases hu with
  | addConsumer => exact (adopt_leaves ..).2.2.2
  | closeConsumer x => exact (closeConsumer_leaves w x).2.2.2.2
  | _ => rfl

/-- A new connection is one more. -/
theorem grows_connect (w : System) (x : Connection) :
    w.outline.Grows [] ({ w with connections := w.connections ++ [x] } : System).outline :=
  ⟨by simp [outline], List.prefix_rfl, List.prefix_rfl, (List.append_nil _).symm,
    fun _ h => .inl h⟩

/-- Of the operations only those are seen that connect or create a consumer. -/
theorem grows_operate (w : System) (o : Operation) :
    w.outline.Grows [] (w.operate o).2.outline := by
  obtain ⟨u, hu, ha⟩ := operate_change w o
  rw [ha.outline]
  cases hu with
  | none => exact .refl _
  | connect r timeout plan => exact grows_connect w _
  | addConsumer hopen d =>
    rw [outline_adopt]
    exact grows_appendConsumer w _
  | redirect => exact Outline.grows_of_eq (outline_redirect w _ _ _)
  | closeConsumer x => exact Outline.grows_of_eq (outline_closeConsumer w x)
  | dropSession | listen =>
    exact Outline.grows_of_eq (outline_modifySession (by intro _; rfl) w _)
  | dropConnection | rename | inject | refuse | report =>
    exact Outline.grows_of_eq (outline_modifyConnection w _ _)

/-! ## Steps -/

/-- A dispatcher leaves calls and outline alone. -/
theorem onward_dispatch {w u : System} (h : w.Wired) {s : SessionId}
    (hd : w.dispatch? s = some u) : Onward w [] u := by
  obtain ⟨f, hf⟩ := framed_dispatch hd
  exact h.grow (Outline.grows_of_eq (hf.outline.trans (outline_modifyConnection w _ _))) hf.calls

/-- Taking an outcome marks the task, and the program then holds a session that it gives. -/
theorem take?_cases {w u : System} {i : CallId} (h : (w.take? i).map Prod.snd = some u) :
    ∃ o, w.progress? i = some (.ended o) ∧
      (u = { w with calls := w.calls.modify i fun t => { t with taken := true } } ∨
      ∃ s, o = .ok (.session s) ∧
        u = ({ w with calls := w.calls.modify i fun t => { t with taken := true } } :
          System).modifySession s fun x => { x with held := true }) := by
  unfold take? at h
  split at h
  next x o ht =>
    have hp : w.progress? i = some (.ended o) := by simp [progress?, ht]
    refine ⟨o, hp, ?_⟩
    simp only at h
    split at h
    · cases h
      exact .inr ⟨_, rfl, rfl⟩
    · cases h
      exact .inl rfl
  next => cases h

/-- Taking an outcome marks it as taken, and no call stands elsewhere for it. -/
theorem onward_take {w u : System} (h : w.Wired) {i : CallId}
    (ht : (w.take? i).map Prod.snd = some u) : Onward w [] u := by
  have hc : Onward w [] { w with calls := w.calls.modify i fun t => { t with taken := true } } := by
    have ho : ({ w with calls := w.calls.modify i fun t => { t with taken := true } } :
        System).outline = w.outline := by
      simp only [outline]
      rw [map_modify_eq (by intro _; rfl)]
    refine ⟨⟨fun j t hj => ?_, ho ▸ h.housed⟩, Outline.grows_of_eq ho⟩
    rw [ho]
    rw [List.getElem?_modify] at hj
    obtain ⟨t', ht', rfl⟩ := Option.map_eq_some_iff.1 hj
    have hf := h.fit j t' ht'
    split <;> exact hf
  obtain ⟨o, _, rfl | ⟨s, _, rfl⟩⟩ := take?_cases ht
  · exact hc
  · exact hc.andThen fun hv =>
      hv.grow (Outline.grows_of_eq (outline_modifySession (by intro _; rfl) _ s)) rfl

end System

/-- The calls that a step starts. -/
def Label.started : Label → List Call
  | .call x => [x]
  | _ => []

namespace System

/-- Every step keeps the calls fitting, and starts the call that its label names. -/
theorem onward_step {w u : System} (h : w.Wired) {l : Label} (hs : w.step? l = some u) :
    Onward w l.started u := by
  cases l with
  | operate o =>
    obtain ⟨_, rfl⟩ := step_operate hs
    exact h.grow (grows_operate w o) (operate_calls w o)
  | call x =>
    obtain ⟨hx, rfl⟩ := step_call hs
    exact onward_call h hx
  | run a =>
    cases a with
    | call i => exact onward_resume h hs
    | dispatcher s => exact onward_dispatch h hs
  | take i => exact onward_take h hs
  | tick t =>
    obtain ⟨_, rfl⟩ := step_tick hs
    exact h.grow (.refl _) rfl

/-- A run starts the calls that its labels name, and leaves what was there. -/
theorem Run.onward {w v : System} {ls : List Label} (h : Run w ls v) (hw : w.Wired) :
    Onward w (ls.flatMap Label.started) v := by
  induction h with
  | refl => exact ⟨hw, .refl _⟩
  | step _ hs ih =>
    rw [List.flatMap_append]
    simpa using ih.andThen fun hv => onward_step hv hs

/-- A call was there before a step, or the step starts it. -/
theorem call_of_step {w v : System} (hw : w.Wired) {l : Label} (hs : w.step? l = some v)
    {i : CallId} {y : Call} (hy : v.outline.calls[i]? = some y) :
    w.outline.calls[i]? = some y ∨ l = .call y ∧ i = w.calls.length := by
  rw [(onward_step hw hs).grows.calls, List.getElem?_append] at hy
  split at hy
  · exact .inl hy
  next hi =>
    cases l with
    | call z =>
      rw [Label.started, List.getElem?_singleton] at hy
      split at hy
      next hzero =>
        cases hy
        have heq := Nat.le_antisymm (Nat.le_of_sub_eq_zero hzero) (Nat.le_of_not_lt hi)
        exact .inr ⟨rfl, by rw [heq]; simp [outline]⟩
      next => cases hy
    | _ => cases hy

/-- In a new client there is nothing that could fail to fit. -/
theorem wired_empty : Wired {} :=
  ⟨fun i t ht => by simp at ht, fun a ha => by simp [outline] at ha⟩

/-- In every state that a new client comes to, the calls fit what they work on. -/
theorem wired_of_run {w : System} {ls : List Label} (h : Run {} ls w) : w.Wired :=
  (h.onward wired_empty).wired

end System

end BrokerClient
