import BrokerClient.Client.Run
import Mathlib.Data.List.Basic

/-!
# What each operation leaves alone

A client is one record of lists, and every operation changes few of them. Each lemma here names the
lists that an operation does not touch, or gives the one update that it makes to a list, so that a
property which reads some of the lists only is carried over all the other operations by `simp`.

The lemmas go from the smallest updates up to the parts from which calls are made.

They are of two forms. The one is a conjunction of equations, one for each list that stays, tagged
for `simp`. The other gives an entry after an update: the one at which the update is (`_self`),
another one (`_ne`), or any one under a reading that does not see the update (`_of`). With the last
form a property that reads one field needs to know of an update only that it leaves that field.

Nothing here is about the meaning of an operation. When an operation comes to change one more list,
its lemma here is the one that fails, and it says which.
-/

namespace BrokerClient

/-! ## Lists -/

/-- An update that a reading sees, where it happens, as an update of its own. -/
theorem map_modify_at {α β : Type} {g : α → β} {f : α → α} {f' : β → β} {l : List α} {i : Nat}
    (h : ∀ x, l[i]? = some x → g (f x) = f' (g x)) :
    (l.modify i f).map g = (l.map g).modify i f' := by
  apply List.ext_getElem?
  intro j
  rw [List.getElem?_map, List.getElem?_modify, List.getElem?_modify, List.getElem?_map]
  by_cases hij : i = j
  · subst hij
    cases hx : l[i]? with
    | none => rfl
    | some x => simp [h x hx]
  · simp [hij]

/-- Reading a list after a change of one element is changing the reading, where the change can be
told from what is read. -/
theorem map_modify_of {α β : Type} {g : α → β} {f : α → α} {f' : β → β}
    (h : ∀ x, g (f x) = f' (g x)) (l : List α) (i : Nat) :
    (l.modify i f).map g = (l.map g).modify i f' :=
  map_modify_at fun x _ => h x

/-- An update that a reading does not see. -/
theorem map_modify_eq {α β : Type} {g : α → β} {f : α → α} (h : ∀ x, g (f x) = g x)
    (l : List α) (i : Nat) : (l.modify i f).map g = l.map g := by
  exact (map_modify_of h l i).trans (List.modify_id i (l.map g))

/-- Updates that agree on the one element that is updated. -/
theorem modify_congr_at {α : Type} {l : List α} {i : Nat} {f g : α → α}
    (h : ∀ x, l[i]? = some x → f x = g x) : l.modify i f = l.modify i g := by
  apply List.ext_getElem?
  intro j
  rw [List.getElem?_modify, List.getElem?_modify]
  by_cases hij : i = j
  · subst hij
    cases hx : l[i]? with
    | none => rfl
    | some x => simp [h x hx]
  · simp [hij]

/-- A change that leaves the element at its place leaves the list. -/
theorem modify_eq_self_of {α : Type} {l : List α} {i : Nat} {f : α → α}
    (h : ∀ x, l[i]? = some x → f x = x) : l.modify i f = l :=
  (modify_congr_at (g := id) h).trans (List.modify_id i l)

/-- A change of an element that is known is replacing it. -/
theorem modify_eq_set_of {α : Type} {l : List α} {i : Nat} {a : α} (h : l[i]? = some a)
    (f : α → α) : l.modify i f = l.set i (f a) := by
  obtain ⟨hi, rfl⟩ := List.getElem?_eq_some_iff.1 h
  apply List.ext_getElem?
  intro j
  rw [List.getElem?_modify, List.getElem?_set]
  by_cases hij : i = j
  · subst hij
    simp [hi]
  · simp [hij]

/-- A change of the element that was added last. -/
theorem modify_append_self {α : Type} (l : List α) (a : α) (f : α → α) :
    (l ++ [a]).modify l.length f = l ++ [f a] := by
  induction l with
  | nil => rfl
  | cons b l ih => rw [List.cons_append, List.length_cons, List.modify_succ_cons, ih]; rfl

/-- A session as it is once it is shut. -/
def Session.shut (x : Session) : Session :=
  { x with
    closed := true, delivery := .closed, consumers := []
    dispatcher := if x.dispatcher = .running then .stopping else x.dispatcher }

namespace System

/-! ## The smallest updates -/

/-- Telling something adds a notice and changes nothing else. -/
@[simp] theorem tell_leaves (w : System) (n : Notice) :
    (w.tell n).now = w.now ∧ (w.tell n).registries = w.registries ∧
    (w.tell n).connections = w.connections ∧ (w.tell n).sessions = w.sessions ∧
    (w.tell n).consumers = w.consumers ∧ (w.tell n).calls = w.calls ∧
    (w.tell n).notices = n :: w.notices :=
  ⟨rfl, rfl, rfl, rfl, rfl, rfl, rfl⟩

@[simp] theorem log_leaves (w : System) (e : LogEvent) :
    (w.log e).now = w.now ∧ (w.log e).registries = w.registries ∧
    (w.log e).connections = w.connections ∧ (w.log e).sessions = w.sessions ∧
    (w.log e).consumers = w.consumers ∧ (w.log e).calls = w.calls ∧
    (w.log e).notices = .log e :: w.notices :=
  ⟨rfl, rfl, rfl, rfl, rfl, rfl, rfl⟩

@[simp] theorem modifyRegistry_leaves (w : System) (r : RegistryId)
    (f : Identifiers → Identifiers) :
    (w.modifyRegistry r f).now = w.now ∧
    (w.modifyRegistry r f).connections = w.connections ∧
    (w.modifyRegistry r f).sessions = w.sessions ∧
    (w.modifyRegistry r f).consumers = w.consumers ∧
    (w.modifyRegistry r f).calls = w.calls ∧ (w.modifyRegistry r f).notices = w.notices :=
  ⟨rfl, rfl, rfl, rfl, rfl, rfl⟩

@[simp] theorem modifyConnection_leaves (w : System) (c : ConnectionId)
    (f : Connection → Connection) :
    (w.modifyConnection c f).now = w.now ∧
    (w.modifyConnection c f).registries = w.registries ∧
    (w.modifyConnection c f).connections = w.connections.modify c f ∧
    (w.modifyConnection c f).sessions = w.sessions ∧
    (w.modifyConnection c f).consumers = w.consumers ∧
    (w.modifyConnection c f).calls = w.calls ∧ (w.modifyConnection c f).notices = w.notices :=
  ⟨rfl, rfl, rfl, rfl, rfl, rfl, rfl⟩

@[simp] theorem modifySession_leaves (w : System) (s : SessionId) (f : Session → Session) :
    (w.modifySession s f).now = w.now ∧ (w.modifySession s f).registries = w.registries ∧
    (w.modifySession s f).connections = w.connections ∧
    (w.modifySession s f).sessions = w.sessions.modify s f ∧
    (w.modifySession s f).consumers = w.consumers ∧
    (w.modifySession s f).calls = w.calls ∧ (w.modifySession s f).notices = w.notices :=
  ⟨rfl, rfl, rfl, rfl, rfl, rfl, rfl⟩

@[simp] theorem modifyConsumer_leaves (w : System) (c : ConsumerId) (f : Consumer → Consumer) :
    (w.modifyConsumer c f).now = w.now ∧ (w.modifyConsumer c f).registries = w.registries ∧
    (w.modifyConsumer c f).connections = w.connections ∧
    (w.modifyConsumer c f).sessions = w.sessions ∧
    (w.modifyConsumer c f).consumers = w.consumers.modify c f ∧
    (w.modifyConsumer c f).calls = w.calls ∧ (w.modifyConsumer c f).notices = w.notices :=
  ⟨rfl, rfl, rfl, rfl, rfl, rfl, rfl⟩

/-- Where a call stands is seen in the calls alone. -/
@[simp] theorem setCall_leaves (w : System) (i : CallId) (p : Progress) :
    (w.setCall i p).now = w.now ∧ (w.setCall i p).registries = w.registries ∧
    (w.setCall i p).connections = w.connections ∧ (w.setCall i p).sessions = w.sessions ∧
    (w.setCall i p).consumers = w.consumers ∧ (w.setCall i p).notices = w.notices :=
  ⟨rfl, rfl, rfl, rfl, rfl, rfl⟩

/-- Ending a call is one way of setting where it stands, so that lemmas on `setCall` cover it. -/
@[simp] theorem finish_eq (w : System) (i : CallId) (o : Outcome) :
    w.finish i o = w.setCall i (.ended o) := rfl

/-- So is failing. -/
@[simp] theorem fail_eq (w : System) (i : CallId) (e : Error) :
    w.fail i e = w.setCall i (.ended (.error e)) := rfl

/-! ## Looking up after an update -/

/-- Sessions are looked up in the list of sessions. -/
theorem session_congr {w u : System} (h : u.sessions = w.sessions) (s : SessionId) :
    u.session s = w.session s := by rw [session, session, h]

theorem connection_congr {w u : System} (h : u.connections = w.connections) (c : ConnectionId) :
    u.connection c = w.connection c := by rw [connection, connection, h]

theorem consumer_congr {w u : System} (h : u.consumers = w.consumers) (c : ConsumerId) :
    u.consumer c = w.consumer c := by rw [consumer, consumer, h]

@[simp] theorem session_setCall (w : System) (i : CallId) (p : Progress) (s : SessionId) :
    (w.setCall i p).session s = w.session s := rfl

@[simp] theorem connection_setCall (w : System) (i : CallId) (p : Progress) (c : ConnectionId) :
    (w.setCall i p).connection c = w.connection c := rfl

/-- A reading of sessions, taken of one. -/
theorem session_of_map {α : Type} {g : Session → α} {w v : System}
    (h : v.sessions.map g = w.sessions.map g) (s : SessionId) :
    g (v.session s) = g (w.session s) := by
  have hs := congrArg (fun l => l[s]?) h
  simp only [List.getElem?_map] at hs
  rw [session, session]
  cases hv : v.sessions[s]? <;> cases hw : w.sessions[s]? <;> simp_all

theorem connection_of_map {α : Type} {g : Connection → α} {w v : System}
    (h : v.connections.map g = w.connections.map g) (c : ConnectionId) :
    g (v.connection c) = g (w.connection c) := by
  have hc := congrArg (fun l => l[c]?) h
  simp only [List.getElem?_map] at hc
  rw [connection, connection]
  cases hv : v.connections[c]? <;> cases hw : w.connections[c]? <;> simp_all

/-- A reading of a session that an update of some session does not see. -/
theorem session_modifySession_of {α : Type} {g : Session → α} {f : Session → Session}
    (h : ∀ x, g (f x) = g x) (w : System) (t s : SessionId) :
    g ((w.modifySession t f).session s) = g (w.session s) :=
  session_of_map (map_modify_eq h w.sessions t) s

/-- A reading of a connection that an update of some connection does not see. -/
theorem connection_modifyConnection_of {α : Type} {g : Connection → α}
    {f : Connection → Connection} (h : ∀ x, g (f x) = g x) (w : System) (d c : ConnectionId) :
    g ((w.modifyConnection d f).connection c) = g (w.connection c) :=
  connection_of_map (map_modify_eq h w.connections d) c

/-- A session after it was changed. -/
theorem session_modifySession_self {w : System} {s : SessionId} (hs : s < w.sessions.length)
    (f : Session → Session) : (w.modifySession s f).session s = f (w.session s) := by
  simp [session, modifySession, hs]

theorem session_modifySession_ne {w : System} {s t : SessionId} (h : t ≠ s)
    (f : Session → Session) : (w.modifySession t f).session s = w.session s := by
  simp [session, modifySession, h]

/-- A connection after it was changed; one that is not there cannot be. -/
theorem connection_modifyConnection_self {w : System} {c : ConnectionId}
    (hc : c < w.connections.length) (f : Connection → Connection) :
    (w.modifyConnection c f).connection c = f (w.connection c) := by
  simp [connection, modifyConnection, hc]

theorem connection_modifyConnection_ne {w : System} {c d : ConnectionId} (h : d ≠ c)
    (f : Connection → Connection) : (w.modifyConnection d f).connection c = w.connection c := by
  simp [connection, modifyConnection, h]

/-- Updates that agree on the connection that is updated. -/
theorem modifyConnection_congr {w : System} {c : ConnectionId} {f g : Connection → Connection}
    (h : f (w.connection c) = g (w.connection c)) :
    w.modifyConnection c f = w.modifyConnection c g := by
  have hm : w.connections.modify c f = w.connections.modify c g := by
    apply modify_congr_at
    intro x hx
    have hc : w.connection c = x := by simp [connection, hx]
    rw [← hc, h]
  rw [modifyConnection, hm]
  rfl

/-- A call stands where it was put. -/
theorem progress_setCall_self {w : System} {i : CallId} (hi : i < w.calls.length) (p : Progress) :
    (w.setCall i p).progress? i = some p := by
  simp [progress?, setCall, hi]

/-- Putting one call somewhere moves no other. -/
theorem progress_setCall_ne {w : System} {i j : CallId} (h : i ≠ j) (p : Progress) :
    (w.setCall i p).progress? j = w.progress? j := by
  simp [progress?, setCall, h]

/-! ## Parts that several operations share -/

/-- A use of a connection is seen in the connections alone. -/
@[simp] theorem closeIdentifierWindow_leaves (w : System) (c : ConnectionId) :
    (w.closeIdentifierWindow c).now = w.now ∧
    (w.closeIdentifierWindow c).sessions = w.sessions ∧
    (w.closeIdentifierWindow c).consumers = w.consumers ∧
    (w.closeIdentifierWindow c).calls = w.calls ∧
    (w.closeIdentifierWindow c).notices = w.notices :=
  ⟨rfl, rfl, rfl, rfl, rfl⟩

/-- Closing a consumer is seen in the consumers, and in the log. -/
@[simp] theorem closeConsumer_leaves (w : System) (c : ConsumerId) :
    (w.closeConsumer c).now = w.now ∧ (w.closeConsumer c).registries = w.registries ∧
    (w.closeConsumer c).connections = w.connections ∧
    (w.closeConsumer c).sessions = w.sessions ∧ (w.closeConsumer c).calls = w.calls := by
  unfold closeConsumer
  split <;> simp

/-- Handing a consumer to its session is seen in that session, or in the consumer. -/
@[simp] theorem adopt_leaves (w : System) (s : SessionId) (c : ConsumerId) :
    (w.adopt s c).2.now = w.now ∧ (w.adopt s c).2.registries = w.registries ∧
    (w.adopt s c).2.connections = w.connections ∧ (w.adopt s c).2.calls = w.calls := by
  unfold adopt
  split <;> simp

/-- Closing a consumer twice is closing it once, so that the test for it can be left out. -/
theorem closeConsumer_consumers (w : System) (c : ConsumerId) :
    (w.closeConsumer c).consumers = w.consumers.modify c fun x => { x with closed := true } := by
  unfold closeConsumer
  split
  next h =>
    -- A consumer that is closed already is what the update would make of it.
    refine (modify_eq_self_of fun x hx => ?_).symm
    have hclosed : x.closed = true := by simpa [consumer, hx] using h
    rw [← hclosed]
  next => simp

@[simp] theorem foldl_closeConsumer_leaves (cs : List ConsumerId) (w : System) :
    (cs.foldl closeConsumer w).now = w.now ∧
    (cs.foldl closeConsumer w).registries = w.registries ∧
    (cs.foldl closeConsumer w).connections = w.connections ∧
    (cs.foldl closeConsumer w).sessions = w.sessions ∧
    (cs.foldl closeConsumer w).calls = w.calls := by
  induction cs generalizing w with
  | nil => simp
  | cons c cs ih => simpa using ih (w.closeConsumer c)

/-- Delivery is a matter of sessions, and of the log. -/
@[simp] theorem setDelivery_leaves (w : System) (s : SessionId) (next : Delivery)
    (event : Nat → LogEvent) :
    (w.setDelivery s next event).now = w.now ∧
    (w.setDelivery s next event).registries = w.registries ∧
    (w.setDelivery s next event).connections = w.connections ∧
    (w.setDelivery s next event).consumers = w.consumers ∧
    (w.setDelivery s next event).calls = w.calls := by
  unfold setDelivery
  split <;> simp

/-- So is that of several sessions in turn. -/
@[simp] theorem foldl_setDelivery_leaves (next : Delivery) (event : Nat → LogEvent)
    (ss : List SessionId) (w : System) :
    (ss.foldl (fun w s => w.setDelivery s next event) w).now = w.now ∧
    (ss.foldl (fun w s => w.setDelivery s next event) w).registries = w.registries ∧
    (ss.foldl (fun w s => w.setDelivery s next event) w).connections = w.connections ∧
    (ss.foldl (fun w s => w.setDelivery s next event) w).consumers = w.consumers ∧
    (ss.foldl (fun w s => w.setDelivery s next event) w).calls = w.calls := by
  induction ss generalizing w with
  | nil => simp
  | cons s ss ih => simpa using ih (w.setDelivery s next event)

/-- Taking a name is a matter of the connection, and of the log. -/
theorem claimName_leaves {w v : System} {c : ConnectionId} {name : String}
    {x : ConsumerId} {d : Destination} {claim : Claim}
    (h : w.claimName c name x d = .ok (claim, v)) :
    v.now = w.now ∧ v.sessions = w.sessions ∧ v.consumers = w.consumers ∧ v.calls = w.calls := by
  unfold claimName at h
  split at h
  · cases h
  · cases h; simp

/-- Taking a claim back is a matter of the connection alone. -/
@[simp] theorem abandonName_leaves (w : System) (c : ConnectionId) (name : String)
    (x : ConsumerId) (claim : Claim) :
    (w.abandonName c name x claim).now = w.now ∧
    (w.abandonName c name x claim).sessions = w.sessions ∧
    (w.abandonName c name x claim).consumers = w.consumers ∧
    (w.abandonName c name x claim).calls = w.calls ∧
    (w.abandonName c name x claim).notices = w.notices :=
  ⟨rfl, rfl, rfl, rfl, rfl⟩

/-! ## Asking the broker -/

/-- The exchange that asking the broker begins. -/
def exchangeFor (w : System) (c : ConnectionId) (request : Request) (limit : Option Nat)
    (goal : Goal) : Exchange :=
  let x := w.connection c
  let f : Fault :=
    (takeFault request.kind request.channel? x.faults).1.getD { kind := request.kind }
  { connection := c, request, stage := .before f.failure (timerFor f.after)
    wake := w.now + timerFor f.delay + if f.failure.isSome then 0 else x.broker.lead request
    limit, goal }

/-- Asking uses up a fault, notes the request, and leaves the call with the exchange. -/
theorem ask_eq (w : System) (i : CallId) (c : ConnectionId) (request : Request)
    (limit : Option Nat) (goal : Goal) :
    w.ask i c request limit goal =
      (w.modifyConnection c fun x =>
        { x with
          faults := (takeFault request.kind request.channel? (w.connection c).faults).2
          asked := x.asked ++ [request] }).setCall i
        (.exchange (w.exchangeFor c request limit goal)) := rfl

/-- An exchange is about what was asked, to whom, and what for. -/
@[simp] theorem exchangeFor_parts (w : System) (c : ConnectionId) (request : Request)
    (limit : Option Nat) (goal : Goal) :
    (w.exchangeFor c request limit goal).connection = c ∧
    (w.exchangeFor c request limit goal).request = request ∧
    (w.exchangeFor c request limit goal).limit = limit ∧
    (w.exchangeFor c request limit goal).goal = goal :=
  ⟨rfl, rfl, rfl, rfl⟩

/-- A request that was just made has not taken effect. -/
theorem exchangeFor_stage (w : System) (c : ConnectionId) (request : Request)
    (limit : Option Nat) (goal : Goal) :
    ∃ failure after, (w.exchangeFor c request limit goal).stage = .before failure after :=
  ⟨_, _, rfl⟩

/-- A reading of a connection that asking its broker does not change. -/
theorem connection_ask_of {α : Type} {g : Connection → α}
    (h : ∀ x faults asked, g { x with faults, asked } = g x) (w : System) (i : CallId)
    (c : ConnectionId) (request : Request) (limit : Option Nat) (goal : Goal)
    (d : ConnectionId) : g ((w.ask i c request limit goal).connection d) = g (w.connection d) := by
  rw [ask_eq, connection_setCall]
  exact connection_modifyConnection_of (fun x => h x _ _) w c d

/-- Asking the broker is a matter of the connection, for its fault and its list of requests, and of
the call. -/
@[simp] theorem ask_leaves (w : System) (i : CallId) (c : ConnectionId) (request : Request)
    (limit : Option Nat) (goal : Goal) :
    (w.ask i c request limit goal).now = w.now ∧
    (w.ask i c request limit goal).registries = w.registries ∧
    (w.ask i c request limit goal).sessions = w.sessions ∧
    (w.ask i c request limit goal).consumers = w.consumers ∧
    (w.ask i c request limit goal).notices = w.notices :=
  ⟨rfl, rfl, rfl, rfl, rfl⟩

/-- Closing a session without the broker is a matter of the session, of its consumers, and of the
log. -/
@[simp] theorem shutSession_leaves (w : System) (s : SessionId) :
    (w.shutSession s).2.now = w.now ∧
    (w.shutSession s).2.registries = w.registries ∧
    (w.shutSession s).2.connections = w.connections ∧
    (w.shutSession s).2.sessions = w.sessions.modify s Session.shut ∧
    (w.shutSession s).2.calls = w.calls := by
  simp [shutSession]
  rfl

/-- What of a session its closing leaves, in that session and in any other one. -/
theorem session_shutSession_of {α : Type} {g : Session → α} (h : ∀ x, g x.shut = g x)
    (w : System) (t s : SessionId) : g ((w.shutSession t).2.session s) = g (w.session s) := by
  rw [session_congr (u := (w.shutSession t).2) (w := w.modifySession t Session.shut) (by simp)]
  exact session_modifySession_of h w t s

/-- Whether a signal counts as success is logged, and that is all. -/
@[simp] theorem normalizeClose_leaves (w : System) (result : Except TransportFailure Unit) :
    (w.normalizeClose result).2.now = w.now ∧
    (w.normalizeClose result).2.registries = w.registries ∧
    (w.normalizeClose result).2.connections = w.connections ∧
    (w.normalizeClose result).2.sessions = w.sessions ∧
    (w.normalizeClose result).2.consumers = w.consumers ∧
    (w.normalizeClose result).2.calls = w.calls := by
  unfold normalizeClose
  split
  · simp
  · split <;> simp

/-- The answer to a channel's close is logged; what comes of it is for the caller. -/
@[simp] theorem sessionShut_leaves (w : System) (s : SessionId) (n : Nat) (reply : Reply) :
    (w.sessionShut s n reply).2.now = w.now ∧
    (w.sessionShut s n reply).2.registries = w.registries ∧
    (w.sessionShut s n reply).2.connections = w.connections ∧
    (w.sessionShut s n reply).2.sessions = w.sessions ∧
    (w.sessionShut s n reply).2.consumers = w.consumers ∧
    (w.sessionShut s n reply).2.calls = w.calls := by
  have h := normalizeClose_leaves w reply.result
  unfold sessionShut
  split
  next heq =>
    rw [heq] at h
    simpa using h
  next heq =>
    rw [heq] at h
    exact h

@[simp] theorem noteFailure_leaves (w : System) (s : SessionId)
    (failure : Option TransportFailure) (e : TransportFailure) :
    (w.noteFailure s failure e).2.now = w.now ∧
    (w.noteFailure s failure e).2.registries = w.registries ∧
    (w.noteFailure s failure e).2.connections = w.connections ∧
    (w.noteFailure s failure e).2.sessions = w.sessions ∧
    (w.noteFailure s failure e).2.consumers = w.consumers ∧
    (w.noteFailure s failure e).2.calls = w.calls := by
  unfold noteFailure
  split <;> simp

end System

end BrokerClient
