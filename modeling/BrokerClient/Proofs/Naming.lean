import BrokerClient.Proofs.Core
import BrokerClient.Proofs.Names

/-!
# The durable names of a client

`System.names` reads entries, topics and errands off a client. As long as the register of names is
left to the sessions, a step of a run is one move of them at most (`names_step`): the calls that
create durable subscribers or unsubscribe take names and ask the broker, and nothing else is about
names.

The work is in the calls. `names_claim` is the first stretch of a call that creates a subscriber,
`names_resolve_retarget` and `names_resolve_declare` are what it does with an answer,
`names_takeEffect_durable` is the moment at which the broker does what it was asked. Which errand a
call has is read off its exchange (`Exchange.errand?`), and `Wired.call_of_errand` gives the call
that was started for it, so that an errand is never about a name of which its call does not know.
-/

namespace BrokerClient

/-- What a call is about to have the broker do about a name. -/
def Exchange.errand? (e : Exchange) : Option Errand :=
  match e.goal, e.request with
  | .retarget _ x name claim, .delete k _ =>
    some ⟨e.connection, k, name, .retarget x claim, e.stage⟩
  | .declare _ x name claim, .declare k topic _ =>
    some ⟨e.connection, k, name, .declare x claim topic, e.stage⟩
  | .unsubscribe _ name, .delete k _ => some ⟨e.connection, k, name, .unsubscribe, e.stage⟩
  | _, _ => none

/-- A call is about a name only while it waits for the broker. -/
def Progress.errand? : Progress → Option Errand
  | .exchange e => e.errand?
  | _ => none

/-- An errand goes to the broker of the connection on which the call waits. -/
theorem Exchange.connection_of_errand {e : Exchange} {f : Errand} (h : e.errand? = some f) :
    f.connection = e.connection := by
  unfold errand? at h
  split at h <;> cases h <;> rfl

/-- An errand is as far as the exchange. -/
theorem Exchange.stage_of_errand {e : Exchange} {f : Errand} (h : e.errand? = some f) :
    f.stage = e.stage := by
  unfold errand? at h
  split at h <;> cases h <;> rfl

/-- A subscription is declared in an exchange that is there for it. -/
theorem Exchange.goal_of_declare {e : Exchange} {f : Errand} {x : ConsumerId} {a : Claim}
    {topic : String} (h : e.errand? = some f) (hf : f.deed = .declare x a topic) :
    ∃ s n, e.goal = .declare s x n a := by
  unfold errand? at h
  split at h <;> cases h <;> cases hf
  next hg _ => exact ⟨_, _, hg⟩

/-! ## Topics -/

namespace Channel

/-- What a channel keeps about names: those that are declared, and those that were deleted. -/
def books (x : Channel) : List (String × String) × List String := (x.declared, x.deleted)

/-- A declaration gives a name its topic, in place of the one before, and leaves the others. -/
theorem topicOf?_declare (x : Channel) (topic name other : String) :
    topicOf? { x with declared := (name, topic) :: without name x.declared } other =
      if name = other then some topic else x.topicOf? other := by
  by_cases h : name = other
  · simp [topicOf?, h]
  · have hne : (other == name) = false := by simpa using Ne.symm h
    simp only [topicOf?, List.lookup_cons, hne, if_neg h]
    exact Subscriptions.lookup_filter_ne _ (Ne.symm h)

/-- A name that was deleted has no topic; the others keep theirs. -/
theorem topicOf?_delete (x : Channel) (name other : String) :
    topicOf? { x with
      declared := without name x.declared
      deleted := x.deleted ++ [name] } other = if name = other then none else x.topicOf? other := by
  by_cases h : name = other
  · subst h
    simp only [topicOf?, without, if_true, List.lookup_eq_none_iff, List.mem_filter, bne_iff_ne,
      decide_eq_true_eq]
    exact fun d hd => Ne.symm hd.2
  · rw [if_neg h]
    exact Subscriptions.lookup_filter_ne _ (Ne.symm h)

end Channel

namespace Broker

/-- Whether a channel is there and open. -/
def opens (b : Broker) (k : Nat) : Bool := b.channels[k]?.any Channel.isOpen

/-- The topic on which a name is declared on a channel. -/
def topicOf? (b : Broker) (k : Nat) (name : String) : Option String :=
  (b.channelOrNew k).topicOf? name

/-- An operation on a channel that is about no name. -/
theorem books_onChannel {f : Channel → Except TransportFailure Unit × Channel}
    (h : ∀ x, (f x).2.books = x.books) (b : Broker) (k n : Nat) :
    ((b.onChannel k f).2.channelOrNew n).books = (b.channelOrNew n).books := by
  unfold onChannel
  split
  · rfl
  next x hx =>
    have hk := (List.getElem?_eq_some_iff.1 hx).1
    rw [channelOrNew_set hk]
    split
    next hkn =>
      subst hkn
      rw [h, channelOrNew, hx]
      rfl
    · rfl

/-- A channel that is open does what it is asked for. -/
theorem onChannel_open {b : Broker} {k : Nat} (ho : b.opens k = true) (f : Channel → Channel) :
    (b.onChannel k (Channel.whenOpen f)).1 = .done ∧ ∀ n,
      (b.onChannel k (Channel.whenOpen f)).2.channelOrNew n =
        if k = n then f (b.channelOrNew n) else b.channelOrNew n := by
  obtain ⟨x, hx, hopen⟩ := (Option.any_eq_true _ _).1 ho
  have hk := (List.getElem?_eq_some_iff.1 hx).1
  unfold onChannel Channel.whenOpen
  simp only [hx, hopen, if_true]
  refine ⟨rfl, fun n => ?_⟩
  rw [channelOrNew_set hk]
  split
  next hkn =>
    subst hkn
    rw [channelOrNew, hx]
    rfl
  next => rfl

/-- One that is not refuses it. -/
theorem onChannel_closed {b : Broker} {k : Nat} (ho : b.opens k = false) (f : Channel → Channel) :
    (b.onChannel k (Channel.whenOpen f)).1 = .failed .alreadyClosed ∧ ∀ n,
      (b.onChannel k (Channel.whenOpen f)).2.channelOrNew n = b.channelOrNew n := by
  unfold onChannel
  split
  · exact ⟨rfl, fun _ => rfl⟩
  next x hx =>
    have hk := (List.getElem?_eq_some_iff.1 hx).1
    have hclosed : x.isOpen = false := by simpa [opens, hx] using ho
    unfold Channel.whenOpen
    simp only [hclosed]
    refine ⟨rfl, fun n => ?_⟩
    rw [channelOrNew_set hk]
    split
    next hkn =>
      subst hkn
      rw [channelOrNew, hx]
      rfl
    next => rfl

/-- What an open channel declares once it has done something about one name. -/
theorem topicOf?_open {b : Broker} {k : Nat} (ho : b.opens k = true) {f : Channel → Channel}
    {name : String} {t : Option String} (hf : ∀ x other, (f x).topicOf? other =
      if name = other then t else x.topicOf? other) (n : Nat) (other : String) :
    (b.onChannel k (Channel.whenOpen f)).2.topicOf? n other =
      if k = n ∧ name = other then t else b.topicOf? n other := by
  rw [topicOf?, (onChannel_open ho f).2, topicOf?]
  by_cases hkn : k = n
  · simp [hkn, hf]
  · simp [hkn]

/-- A request about no name. -/
theorem books_perform {r : Request} (hdec : ∀ k topic name, r ≠ .declare k topic name)
    (hdel : ∀ k name, r ≠ .delete k name) (b : Broker) (n : Nat) :
    ((b.perform r).2.channelOrNew n).books = (b.channelOrNew n).books := by
  cases r with
  | createChannel =>
    change (b.createChannel.2.channelOrNew n).books = (b.channelOrNew n).books
    unfold createChannel
    split
    · rfl
    · split
      · rfl
      · simp only [channelOrNew, List.getElem?_append]
        split
        · rfl
        next hn =>
          rw [List.getElem?_eq_none (Nat.le_of_not_lt hn)]
          cases n - b.channels.length <;> rfl
  | close => rfl
  | publish k m =>
    refine books_onChannel (f := Channel.publish m) (fun x => ?_) b k n
    unfold Channel.publish Channel.whenOpen
    split <;> rfl
  | declare k topic name => exact absurd rfl (hdec k topic name)
  | delete k name => exact absurd rfl (hdel k name)
  | closeChannel k => exact books_onChannel (by intro _; rfl) b k n

/-- Which topic a name has can be told from the books of the channel, so that streams, reports and
messages do not matter. -/
theorem topicOf?_of_books {b b' : Broker} {n : Nat}
    (h : (b'.channelOrNew n).books = (b.channelOrNew n).books) (name : String) :
    b'.topicOf? n name = b.topicOf? n name :=
  congrArg (fun y => y.1.lookup name) h

end Broker

/-! ## Entries -/

namespace Subscriptions

variable {r : Subscriptions} {name other : String} {x : ConsumerId}

/-- The entry of any name after one was given to a consumer. -/
theorem get?_put (r : Subscriptions) (name other : String) (x : ConsumerId) :
    (r.put name x).get? other = if name = other then some x else r.get? other := by
  split
  next h => rw [h, get?_put_self]
  next h => exact get?_put_ne r x (Ne.symm h)

/-- The entry of any name after one was removed. -/
theorem get?_erase (r : Subscriptions) (name other : String) :
    (r.erase name).get? other = if name = other then none else r.get? other := by
  split
  next h =>
    subst h
    simp only [get?, erase, List.lookup_eq_none_iff, List.mem_filter, bne_iff_ne,
      decide_eq_true_eq]
    exact fun e he => Ne.symm he.2
  next h => exact get?_erase_ne r (Ne.symm h)

/-- Taking a claim back gives the name to the consumer before. -/
theorem get?_abandon_self (h : r.get? name = some x) (claim : Claim) (other : String) :
    (r.abandon name x claim).get? other =
      if name = other then claim.previous? else r.get? other := by
  unfold abandon
  rw [if_pos h]
  cases claim.previous? with
  | none => exact get?_erase r name other
  | some y => exact get?_put r name other y

/-- Taking a claim back changes nothing once another consumer has the name. -/
theorem abandon_eq_self (h : r.get? name ≠ some x) (claim : Claim) :
    r.abandon name x claim = r :=
  if_neg h

end Subscriptions

namespace System

open Names (Move)

variable {w v u : System} {i j : CallId} {c : ConnectionId} {s : SessionId} {x : ConsumerId}
  {name : String}

/-- The names that a client stands for: who has them, where the brokers have declared them, and
which calls are about them. -/
def names (w : System) : Names where
  entry := w.entry
  topic c k name := (w.connection c).broker.topicOf? k name
  errand i := (w.progress? i).bind Progress.errand?

/-- Whether a channel of a connection is there and open. -/
def opens (w : System) (c : ConnectionId) (k : Nat) : Bool := (w.connection c).broker.opens k

/-- The destination for which a consumer was created. -/
def destination? (w : System) (x : ConsumerId) : Option Destination :=
  w.outline.origins[x]?.map fun o => o.2.1

/-- The errand of a call is that of the wait in which it stands. -/
theorem names_errand {p : Progress} (h : w.progress? i = some p) :
    w.names.errand i = p.errand? := by
  simp [names, h]

/-! ## Updates -/

/-- Names are read off connections and calls alone. -/
theorem names_congr (hc : v.connections = w.connections) (hi : v.calls = w.calls) :
    v.names = w.names := by
  refine Names.ext (fun c name => ?_) (fun c k name => ?_) fun i => ?_
  · simp only [names, entry, connection_congr hc]
  · simp only [names, connection_congr hc]
  · simp only [names, progress?, hi]

/-- What is told is not about names. -/
theorem Quiet.names (h : Quiet w v) : v.names = w.names := names_congr h.connections h.calls

/-- A call that comes to stand elsewhere takes up the errand of its new wait, or drops the old one.
-/
theorem names_setCall (hi : i < w.calls.length) (p : Progress) :
    (w.setCall i p).names = w.names.assign i p.errand? := by
  refine Names.ext (fun _ _ => rfl) (fun _ _ _ => rfl) fun j => ?_
  rw [Names.errand_assign]
  split
  next hij =>
    subst hij
    exact names_errand (progress_setCall_self hi p)
  next hij => simp only [names, progress_setCall_ne hij]

/-- An update of connections that is not about names. -/
theorem names_modifyConnection {f : Connection → Connection}
    (h : ∀ y, (f y).subscriptions = y.subscriptions ∧ (f y).broker = y.broker) (w : System)
    (c : ConnectionId) : (w.modifyConnection c f).names = w.names := by
  refine Names.ext (fun d name => ?_) (fun d k name => ?_) fun _ => rfl
  · simp only [names, entry]
    rw [connection_modifyConnection_of (g := Connection.subscriptions) fun y => (h y).1]
  · simp only [names]
    rw [connection_modifyConnection_of (g := Connection.broker) fun y => (h y).2]

/-- Asking the broker uses a fault up and notes the request, which names do not show. -/
theorem names_ask (hi : i < w.calls.length) (c : ConnectionId) (request : Request)
    (limit : Option Nat) (goal : Goal) :
    (w.ask i c request limit goal).names =
      w.names.assign i (w.exchangeFor c request limit goal).errand? := by
  rw [ask_eq, names_setCall (by exact hi),
    names_modifyConnection (f := fun x => { x with
      faults := (takeFault request.kind request.channel? (w.connection c).faults).2
      asked := x.asked ++ [request] }) (by intro _; exact ⟨rfl, rfl⟩)]
  rfl

/-- A change of the register that gives one name to `y` and leaves the others is seen as that. -/
theorem names_rename (hc : c < w.connections.length) {f : Subscriptions → Subscriptions}
    {y : Option ConsumerId} (hf : ∀ other, (f (w.connection c).subscriptions).get? other =
      if name = other then y else w.entry c other) :
    (w.rename c f).names = w.names.enter c name y := by
  refine Names.ext (fun d other => ?_) (fun d k other => ?_) fun _ => rfl
  · rw [Names.entry_enter]
    by_cases hcd : c = d
    · subst hcd
      have he := (entry_rename_self hc f other).trans (hf other)
      simpa [names] using he
    · simp [names, entry, rename, connection_modifyConnection_ne hcd, hcd]
  · simp only [names, rename, Names.topic_enter]
    rw [connection_modifyConnection_of (g := Connection.broker) (by intro _; rfl)]

/-- A broker that declares one name on another topic. -/
theorem names_modifyBroker (hc : c < w.connections.length) {b : Broker} {k : Nat}
    {t : Option String} (h : ∀ n other, b.topicOf? n other =
      if k = n ∧ name = other then t else (w.connection c).broker.topicOf? n other) :
    (w.modifyConnection c fun y => { y with broker := b }).names = w.names.bind c k name t := by
  refine Names.ext (fun d other => ?_) (fun d n other => ?_) fun _ => rfl
  · simp only [names, entry, Names.entry_bind]
    rw [connection_modifyConnection_of (g := Connection.subscriptions) (by intro _; rfl)]
  · simp only [names, Names.topic_bind]
    by_cases hcd : c = d
    · subst hcd
      rw [connection_modifyConnection_self hc, h]
      simp
    · simp [connection_modifyConnection_ne hcd, hcd]

/-- A broker that declares the same. -/
theorem names_modifyBroker_eq {b : Broker}
    (h : ∀ n other, b.topicOf? n other = (w.connection c).broker.topicOf? n other) :
    (w.modifyConnection c fun y => { y with broker := b }).names = w.names := by
  refine Names.ext (fun d other => ?_) (fun d n other => ?_) fun _ => rfl
  · simp only [names, entry]
    rw [connection_modifyConnection_of (g := Connection.subscriptions) (by intro _; rfl)]
  · exact connection_modifyConnection_at (g := fun y => y.broker.topicOf? n other)
      (f := fun y => { y with broker := b }) (h n other) d

/-- Taking a claim back is giving the name to the consumer before, or nothing at all if another one
has it. -/
theorem names_abandonName (hc : c < w.connections.length) (name : String) (x : ConsumerId)
    (claim : Claim) : (w.abandonName c name x claim).names = w.names.abandon c name x claim := by
  unfold Names.abandon
  split
  next h =>
    refine names_rename hc (f := (·.abandon name x claim)) fun other => ?_
    exact Subscriptions.get?_abandon_self h claim other
  next h =>
    refine Names.ext (fun d other => ?_) (fun d k other => ?_) fun _ => rfl
    · simp only [names, entry]
      rw [abandonName, connection_modifyConnection_at (g := Connection.subscriptions)
        (Subscriptions.abandon_eq_self h claim)]
    · simp only [names, abandonName]
      rw [connection_modifyConnection_of (g := Connection.broker) (by intro _; rfl)]

/-! ## Calls that are not about names -/

/-- An errand is that of a call about the name; only one that unsubscribes claims nothing. -/
theorem Wired.call_of_errand (hw : w.Wired) {e : Errand} (h : w.names.errand i = some e)
    {y : Call} (hy : w.IsCall i y) : ∃ s, w.address? s = some (e.connection, e.channel) ∧
      ((∃ d, y = .subscribe s d e.name) ∧ e.deed ≠ .unsubscribe ∨
        y = .unsubscribe s e.name ∧ e.deed = .unsubscribe) := by
  obtain ⟨p, hp, he⟩ := Option.bind_eq_some_iff.1 h
  obtain ⟨t, ht, rfl⟩ := task_of_progress hp
  have hf := hw.fit i t ht
  rw [hy t ht] at hf
  -- Only three goals make an errand, and each of them fits one kind of call.
  cases hpr : t.progress with
  | exchange g =>
    rw [hpr] at hf he
    simp only [Progress.Fits, Exchange.Fits] at hf
    simp only [Progress.errand?, Exchange.errand?] at he
    cases hg : g.goal with
    | retarget s x name claim =>
      simp only [hg] at hf he
      obtain ⟨_, d, k, rfl, _, ha, hr⟩ := hf
      rw [hr] at he
      cases he
      exact ⟨s, ha, .inl ⟨⟨d, rfl⟩, by simp⟩⟩
    | declare s x name claim =>
      simp only [hg] at hf he
      obtain ⟨_, d, k, rfl, _, ha, hr⟩ := hf
      rw [hr] at he
      cases he
      exact ⟨s, ha, .inl ⟨⟨d, rfl⟩, by simp⟩⟩
    | unsubscribe s name =>
      simp only [hg] at hf he
      obtain ⟨_, rfl, k, ha, hr⟩ := hf
      rw [hr] at he
      cases he
      exact ⟨s, ha, .inr ⟨rfl, rfl⟩⟩
    | _ =>
      rw [hg] at he
      cases he
  | _ =>
    rw [hpr] at he
    cases he

/-- A call with an errand is about the durable name that its errand says, on a session that has the
errand's channel. -/
theorem Wired.durable_of_errand (hw : w.Wired) {e : Errand} (h : w.names.errand i = some e)
    {y : Call} (hy : w.IsCall i y) : ∃ s, y.durable? = some (s, e.name) ∧
      w.address? s = some (e.connection, e.channel) := by
  obtain ⟨s, ha, ⟨⟨d, rfl⟩, _⟩ | ⟨rfl, _⟩⟩ := hw.call_of_errand h hy
  · exact ⟨s, rfl, ha⟩
  · exact ⟨s, rfl, ha⟩

/-- The other calls have no errand. -/
theorem Wired.errand_eq_none (hw : w.Wired) {y : Call} (hy : w.IsCall i y)
    (hn : y.durable? = none) : w.names.errand i = none := by
  by_contra h
  obtain ⟨e, he⟩ := Option.ne_none_iff_exists'.1 h
  obtain ⟨s, hs, _⟩ := hw.durable_of_errand he hy
  rw [hn] at hs
  cases hs

/-- A stretch that leaves entries and topics alone, of a call that has no errand in the end. -/
theorem names_of_kept (hk : Kept w v)
    (ht : ∀ c k name, (v.connection c).broker.topicOf? k name =
      (w.connection c).broker.topicOf? k name)
    (hp : ∀ j, i ≠ j → v.progress? j = w.progress? j) (hi : w.names.errand i = none)
    (hi' : v.names.errand i = none) : v.names = w.names := by
  refine Names.ext (fun c name => ?_) ht fun j => ?_
  · simp only [names, entry, hk.subscriptions]
  · by_cases hij : i = j
    · rw [← hij, hi, hi']
    · simp only [names, hp j hij]

/-- A stretch of a call without an errand, before and after, that keeps the register of names. -/
theorem Stride.names (h : Stride i w v) (hk : Kept w v) (hi : w.names.errand i = none)
    (hi' : v.names.errand i = none) : v.names = w.names :=
  names_of_kept hk (fun c k name => by rw [h.broker]) h.progress hi hi'

/-! ## Calls about names -/

section Durable

variable {O : ConnectionId → Nat → Bool}

/-- The destination of a consumer as the call that it is created by was given it. -/
theorem destination_of_origin? {d : Destination} {n : Option String}
    (h : w.outline.origins[x]? = some (s, d, n)) : w.destination? x = some d := by
  rw [destination?, h]
  rfl

/-- A new consumer takes the name, and the claim remembers who had it before. -/
theorem names_claim (hw : w.Wired) (hs : s < w.sessions.length) (hi : i < w.calls.length)
    (hidle : w.names.errand i = none) (d : Destination) :
    (w.subscribe i s d name).names = w.names ∨
    (d.isTopic = true ∧ ∃ claim deed failure after,
      claim.previous? = w.entry (w.session s).connection name ∧
      (deed = .retarget w.consumers.length claim ∨
        deed = .declare w.consumers.length claim d.name) ∧
      (w.subscribe i s d name).consumers = w.consumers ++
        [{ session := s, destination := d, subscription := some name }] ∧
      (w.subscribe i s d name).names =
        (w.names.enter (w.session s).connection name (some w.consumers.length)).assign i (some
          ⟨(w.session s).connection, (w.session s).channel, name, deed,
            .before failure after⟩)) := by
  rcases subscribe_effect w i s d name with ⟨e, _, he⟩ | ⟨_, ht, claim, v, u, hclaim, hq, he⟩
  · left
    rw [he, fail_eq, names_setCall hi]
    exact Names.assign_eq_self hidle
  · right
    have hc : (w.session s).connection < w.connections.length :=
      hw.housed _ (List.mem_of_getElem? (address_of_lt hs))
    obtain ⟨_, hrename⟩ := claimName_effect hclaim
    have hu : u.names = w.names.enter (w.session s).connection name
        (some w.consumers.length) := by
      rw [hq.names, ← names_rename hc (f := fun r => r.put name w.consumers.length)
        fun other => Subscriptions.get?_put _ name other _]
      exact hrename.names
    have hiu : i < u.calls.length := by
      rw [hq.calls]
      simpa [(claimName_leaves hclaim).2.2.2] using hi
    have hcons : (w.subscribe i s d name).consumers = w.consumers ++
        [{ session := s, destination := d, subscription := some name }] := by
      rcases he with ⟨_, he⟩ | he <;>
        rw [he, (ask_leaves u i _ _ _ _).2.2.2.1, hq.consumers, (claimName_leaves hclaim).2.2.1]
    refine ⟨ht, claim, ?_⟩
    -- Both ways ask the broker next; they differ only in the errand's deed.
    rcases he with ⟨_, he⟩ | he
    · have hn := congrArg names he
      rw [names_ask hiu, hu] at hn
      exact ⟨_, _, _, previous?_of_claimName hclaim, .inl rfl, hcons, hn⟩
    · have hn := congrArg names he
      rw [names_ask hiu, hu] at hn
      exact ⟨_, _, _, previous?_of_claimName hclaim, .inr rfl, hcons, hn⟩

/-- Creating a durable subscriber ends at once, or the call takes the name and sets out to have it
declared. -/
theorem names_subscribe (hw : w.Wired) (hs : s < w.sessions.length) (hi : i < w.calls.length)
    (hidle : w.names.errand i = none) (d : Destination) :
    (w.subscribe i s d name).names = w.names ∨
      Move w.address? O (w.subscribe i s d name).destination? (.call (.subscribe s d name))
        w.names (w.subscribe i s d name).names := by
  rcases names_claim hw hs hi hidle d with
    he | ⟨ht, claim, deed, failure, after, _, hdeed, hcons, hn⟩
  · exact .inl he
  · -- The new consumer stands at the end.
    have hdest : (w.subscribe i s d name).destination? w.consumers.length = some d := by
      refine destination_of_origin? (s := s) (n := some name) ?_
      simp [outline, hcons]
    rw [hn]
    exact .inr (.claim hidle (address_eq hs) ht hdest hdeed)

/-- Unsubscribing ends at once, or the name loses its entry and the call sets out to have it
deleted. -/
theorem names_unsubscribe (hw : w.Wired) (hs : s < w.sessions.length) (hi : i < w.calls.length)
    (hidle : w.names.errand i = none) (D : ConsumerId → Option Destination) :
    (w.unsubscribe i s name).names = w.names ∨
      Move w.address? O D (.call (.unsubscribe s name)) w.names (w.unsubscribe i s name).names := by
  rcases unsubscribe_effect w i s name with ⟨e, _, he⟩ | ⟨holder, r, hr, he⟩
  · left
    rw [he, fail_eq, names_setCall hi]
    exact Names.assign_eq_self hidle
  · right
    have hc : (w.session s).connection < w.connections.length :=
      hw.housed _ (List.mem_of_getElem? (address_of_lt hs))
    obtain ⟨hr, hholder, _⟩ := Subscriptions.removeInactive_eq_ok hr
    rw [he, names_ask (by exact hi), rename_eq (f := fun r => r.erase name) hr,
      names_rename hc fun other => Subscriptions.get?_erase _ name other]
    exact .remove hidle (address_eq hs) hholder

/-! An exchange about a name, with the call that it is of and the errand that it is. -/

/-- All that a call stands for which waits for the deletion of a name that it is going to declare on
another topic. -/
theorem Wired.errand_retarget (hw : w.Wired) {e : Exchange} {claim : Claim}
    (hp : w.progress? i = some (.exchange e)) (hg : e.goal = .retarget s x name claim) :
    ∃ d k, w.IsCall i (.subscribe s d name) ∧ e.limit = none ∧
      w.outline.origins[x]? = some (s, d, some name) ∧ w.address? s = some (e.connection, k) ∧
      e.request = .delete k name ∧
      w.names.errand i = some ⟨e.connection, k, name, .retarget x claim, e.stage⟩ := by
  obtain ⟨y, hy, hf⟩ := hw.fits hp
  simp only [Progress.Fits, Exchange.Fits, hg] at hf
  obtain ⟨hl, d, k, rfl, ho, ha, hr⟩ := hf
  refine ⟨d, k, hy, hl, ho, ha, hr, ?_⟩
  rw [names_errand hp]
  simp only [Progress.errand?, Exchange.errand?, hg, hr]

/-- All that a call stands for which waits for a declaration. -/
theorem Wired.errand_declare (hw : w.Wired) {e : Exchange} {claim : Claim}
    (hp : w.progress? i = some (.exchange e)) (hg : e.goal = .declare s x name claim) :
    ∃ d k, w.IsCall i (.subscribe s d name) ∧ e.limit = none ∧
      w.outline.origins[x]? = some (s, d, some name) ∧ w.address? s = some (e.connection, k) ∧
      e.request = .declare k d.name name ∧
      w.names.errand i = some ⟨e.connection, k, name, .declare x claim d.name, e.stage⟩ := by
  obtain ⟨y, hy, hf⟩ := hw.fits hp
  simp only [Progress.Fits, Exchange.Fits, hg] at hf
  obtain ⟨hl, d, k, rfl, ho, ha, hr⟩ := hf
  refine ⟨d, k, hy, hl, ho, ha, hr, ?_⟩
  rw [names_errand hp]
  simp only [Progress.errand?, Exchange.errand?, hg, hr]

/-- All that a call stands for which unsubscribes. -/
theorem Wired.errand_unsubscribe (hw : w.Wired) {e : Exchange}
    (hp : w.progress? i = some (.exchange e)) (hg : e.goal = .unsubscribe s name) :
    ∃ k, w.IsCall i (.unsubscribe s name) ∧ e.limit = none ∧
      w.address? s = some (e.connection, k) ∧ e.request = .delete k name ∧
      w.names.errand i = some ⟨e.connection, k, name, .unsubscribe, e.stage⟩ := by
  obtain ⟨y, hy, hf⟩ := hw.fits hp
  simp only [Progress.Fits, Exchange.Fits, hg] at hf
  obtain ⟨hl, rfl, k, ha, hr⟩ := hf
  refine ⟨k, hy, hl, ha, hr, ?_⟩
  rw [names_errand hp]
  simp only [Progress.errand?, Exchange.errand?, hg, hr]

/-- A call without an errand asks the broker about no name. -/
theorem Wired.request_of_errand (hw : w.Wired) {e : Exchange}
    (hp : w.progress? i = some (.exchange e)) (hn : w.names.errand i = none) :
    (∀ k topic name, e.request ≠ .declare k topic name) ∧
      ∀ k name, e.request ≠ .delete k name := by
  obtain ⟨y, _, hf⟩ := hw.fits hp
  simp only [Progress.Fits, Exchange.Fits] at hf
  cases hg : e.goal with
  | retarget s x name claim =>
    obtain ⟨_, _, _, _, _, _, _, he⟩ := hw.errand_retarget hp hg
    rw [hn] at he
    cases he
  | declare s x name claim =>
    obtain ⟨_, _, _, _, _, _, _, he⟩ := hw.errand_declare hp hg
    rw [hn] at he
    cases he
  | unsubscribe s name =>
    obtain ⟨_, _, _, _, _, he⟩ := hw.errand_unsubscribe hp hg
    rw [hn] at he
    cases he
  | _ => refine ⟨fun k topic name hr => ?_, fun k name hr => ?_⟩ <;> simp [hg, hr] at hf

/-- A session that has an address has a connection that is there. -/
theorem Wired.connection_lt (hw : w.Wired) {k : Nat} (ha : w.address? s = some (c, k)) :
    c < w.connections.length :=
  hw.housed _ (List.mem_of_getElem? ha)

/-- A request about a name takes effect, unless the channel is closed. -/
theorem names_takeEffect_durable {e : Exchange} {k : Nat} (deed : Deed) {after : Nat}
    (hp : w.progress? i = some (.exchange e)) (hs : e.stage = .before none after)
    (hc : e.connection < w.connections.length) {f : Channel → Channel}
    (hr : ∀ b : Broker, b.perform e.request = b.onChannel k (Channel.whenOpen f))
    (hf : ∀ y other, (f y).topicOf? other =
      if name = other then deed.topic? else y.topicOf? other)
    (he : ∀ stage wake, ({ e with stage, wake } : Exchange).errand? =
      some ⟨e.connection, k, name, deed, stage⟩) (D : ConsumerId → Option Destination) :
    Move w.address? w.opens D (.run (.call i)) w.names (w.takeEffect i e after).names := by
  have hi : w.names.errand i = some ⟨e.connection, k, name, deed, e.stage⟩ :=
    (names_errand hp).trans (he e.stage e.wake)
  have hlt := lt_of_progress hp
  have hnew : ∀ stage wake, Progress.errand? (.exchange { e with stage, wake }) =
      some ⟨e.connection, k, name, deed, stage⟩ := he
  unfold takeEffect
  simp only [hr]
  -- An open channel performs the deed, a closed one refuses it; both are moves.
  cases ho : w.opens e.connection k with
  | true =>
    rw [names_setCall (by exact hlt), hnew, (Broker.onChannel_open ho f).1,
      names_modifyBroker hc (Broker.topicOf?_open ho hf)]
    exact .perform hi hs ho
  | false =>
    rw [names_setCall (by exact hlt), hnew, (Broker.onChannel_closed ho f).1,
      names_modifyBroker_eq fun n other => by
        rw [Broker.topicOf?, (Broker.onChannel_closed ho f).2, Broker.topicOf?]]
    exact .refuse hi hs ho

/-- A request about a name that takes effect is what its errand does at the broker; any other
request is about no name. -/
theorem names_takeEffect (hw : w.Wired) {e : Exchange} {after : Nat}
    (hp : w.progress? i = some (.exchange e)) (hs : e.stage = .before none after)
    (D : ConsumerId → Option Destination) :
    (w.takeEffect i e after).names = w.names ∨
      Move w.address? w.opens D (.run (.call i)) w.names (w.takeEffect i e after).names := by
  cases hg : e.goal with
  | retarget s x name claim =>
    obtain ⟨d, k, _, _, _, ha, hr, _⟩ := hw.errand_retarget hp hg
    refine .inr (names_takeEffect_durable (.retarget x claim) hp hs (hw.connection_lt ha)
      (fun b => by rw [hr]; rfl) (fun y other => Channel.topicOf?_delete y name other)
      (fun stage wake => ?_) D)
    simp only [Exchange.errand?, hg, hr]
  | declare s x name claim =>
    obtain ⟨d, k, _, _, _, ha, hr, _⟩ := hw.errand_declare hp hg
    refine .inr (names_takeEffect_durable (.declare x claim d.name) hp hs (hw.connection_lt ha)
      (fun b => by rw [hr]; rfl) (fun y other => Channel.topicOf?_declare y d.name name other)
      (fun stage wake => ?_) D)
    simp only [Exchange.errand?, hg, hr]
  | unsubscribe s name =>
    obtain ⟨k, _, _, ha, hr, _⟩ := hw.errand_unsubscribe hp hg
    refine .inr (names_takeEffect_durable .unsubscribe hp hs (hw.connection_lt ha)
      (fun b => by rw [hr]; rfl) (fun y other => Channel.topicOf?_delete y name other)
      (fun stage wake => ?_) D)
    simp only [Exchange.errand?, hg, hr]
  | _ =>
    left
    -- The goal makes no errand, and a request without an errand leaves all topics alone.
    have hnone : ∀ stage wake, Progress.errand? (.exchange { e with stage, wake }) = none := by
      intro stage wake
      simp only [Progress.errand?, Exchange.errand?, hg]
    have hi : w.names.errand i = none := (names_errand hp).trans (hnone e.stage e.wake)
    obtain ⟨hdec, hdel⟩ := hw.request_of_errand hp hi
    unfold takeEffect
    simp only
    rw [names_setCall (by exact lt_of_progress hp), hnone, names_modifyBroker_eq fun n other =>
      Broker.topicOf?_of_books (Broker.books_perform hdec hdel _ n) other]
    exact Names.assign_eq_self hi

variable {D : ConsumerId → Option Destination} {e : Exchange} {reply : Reply} {claim : Claim}

/-- Handing a consumer to its session is not about names. -/
theorem names_adopt (w : System) (s : SessionId) (x : ConsumerId) :
    (w.adopt s x).2.names = w.names := names_congr (by simp) (by simp)

/-- Where the broker refused, the claim is taken back. -/
theorem names_giveBack (hlt : i < w.calls.length) (hc : c < w.connections.length) {k : Nat}
    {deed : Deed} {stage : Stage} (hi : w.names.errand i = some ⟨c, k, name, deed, stage⟩)
    (hdeed : deed = .retarget x claim ∨ ∃ topic, deed = .declare x claim topic)
    (hr : stage.reply? = some reply) {f : TransportFailure} (hf : reply.result = .error f)
    (err : Error) : Move w.address? w.opens D (.run (.call i)) w.names
      ((w.abandonName c name x claim).fail i err).names := by
  rw [fail_eq, names_setCall (by exact hlt), names_abandonName hc]
  exact .abandon hi hdeed hr hf

/-- When the deletion has been answered, the call goes on to declare the name, or gives it back. -/
theorem names_resolve_retarget (hw : w.Wired) (hp : w.progress? i = some (.exchange e))
    (hg : e.goal = .retarget s x name claim) (hr : e.stage.reply? = some reply)
    (hD : ∀ x d, w.destination? x = some d → D x = some d) :
    Move w.address? w.opens D (.run (.call i)) w.names (w.resolve i e reply).names := by
  obtain ⟨d, k, _, _, ho, ha, _, hi⟩ := hw.errand_retarget hp hg
  have hlt := lt_of_progress hp
  have hc := hw.connection_lt ha
  simp only [resolve, hg]
  split
  next hok =>
    have hk : (w.session s).channel = k := by
      rw [address_eq (lt_of_address ha)] at ha
      exact congrArg Prod.snd (Option.some.inj ha)
    rw [names_ask hlt, hk, destination_of_origin ho]
    exact .redeclare hi rfl (hD x d (destination_of_origin? ho)) hr hok
  next f hf => exact names_giveBack hlt hc hi (.inl rfl) hr hf _

/-- When the declaration has been answered, the call ends. It keeps the name, also if its session
was closed meanwhile, unless the broker failed. -/
theorem names_resolve_declare (hw : w.Wired) (hp : w.progress? i = some (.exchange e))
    (hg : e.goal = .declare s x name claim) (hr : e.stage.reply? = some reply) :
    Move w.address? w.opens D (.run (.call i)) w.names (w.resolve i e reply).names := by
  obtain ⟨d, k, _, _, ho, ha, _, hi⟩ := hw.errand_declare hp hg
  have hlt := lt_of_progress hp
  have hc := hw.connection_lt ha
  have hlt' : i < (w.adopt s x).2.calls.length := by simpa using hlt
  simp only [resolve, hg]
  split
  next hok =>
    have hn : ∀ p : Progress, p.errand? = none →
        Move w.address? w.opens D (.run (.call i)) w.names ((w.adopt s x).2.setCall i p).names := by
      intro p hpe
      rw [names_setCall hlt', hpe, names_adopt]
      exact .declared hi rfl hr hok
    split
    next hadopt =>
      rw [hadopt] at hn
      exact hn _ rfl
    next hadopt =>
      rw [hadopt] at hn
      exact hn _ rfl
  next f hf => exact names_giveBack hlt hc hi (.inr ⟨_, rfl⟩) hr hf _

/-- Whatever the answer to the deletion is, the call ends, and nobody gets the name back. -/
theorem names_resolve_unsubscribe (hw : w.Wired) (hp : w.progress? i = some (.exchange e))
    (hg : e.goal = .unsubscribe s name) (hr : e.stage.reply? = some reply) :
    Move w.address? w.opens D (.run (.call i)) w.names (w.resolve i e reply).names := by
  obtain ⟨k, _, _, _, _, hi⟩ := hw.errand_unsubscribe hp hg
  have hlt := lt_of_progress hp
  have hm : Move w.address? w.opens D (.run (.call i)) w.names (w.names.assign i none) :=
    .unsubscribed hi rfl hr
  simp only [resolve, hg]
  split
  · rw [finish_eq, names_setCall (by exact hlt), (Quiet.log w _).names]
    exact hm
  · rw [fail_eq, names_setCall hlt]
    exact hm

/-- A call that stands at an exchange without an errand is about no name. -/
theorem durable_eq_none {o : Outline} {y : Call} (hf : e.Fits o y) (hi : e.errand? = none) :
    y.durable? = none := by
  unfold Exchange.Fits at hf
  unfold Exchange.errand? at hi
  cases hg : e.goal <;> simp only [hg] at hf hi
  case openSession =>
    obtain ⟨_, _, _, _, _, _, rfl⟩ := hf
    rfl
  case discardSession =>
    obtain ⟨_, ⟨_, _, _, rfl⟩, _⟩ := hf
    rfl
  case closeSession =>
    obtain ⟨_, rfl, _⟩ := hf
    rfl
  case closeNext =>
    obtain ⟨_, _, rfl, _⟩ := hf
    rfl
  case closeBroker =>
    obtain ⟨_, rfl, _⟩ := hf
    rfl
  case publish =>
    obtain ⟨_, _, _, rfl, _⟩ := hf
    rfl
  -- The calls that are about a name have an errand.
  case retarget | declare =>
    obtain ⟨_, _, _, _, _, _, hr⟩ := hf
    rw [hr] at hi
    cases hi
  case unsubscribe =>
    obtain ⟨_, _, _, _, hr⟩ := hf
    rw [hr] at hi
    cases hi

/-- The calls that have no stake in a name leave the register alone when they are answered. -/
theorem kept_resolve (hp : w.progress? i = some (.exchange e)) (hg : e.goal.stake = none)
    (reply : Reply) : Kept w (w.resolve i e reply) := by
  cases hgoal : e.goal with
  | publish s tag tracked =>
    simp only [resolve, hgoal]
    exact kept_endPublish w i s tag tracked _
  | retarget s x name claim =>
    rw [hgoal] at hg
    cases hg
  | declare s x name claim =>
    rw [hgoal] at hg
    cases hg
  | _ => exact (plain_resolve hp (by rw [hgoal]; rfl) reply).kept

/-- An answer to a request about no name. -/
theorem names_resolve_other (hw : w.Wired) (hp : w.progress? i = some (.exchange e))
    (hi : w.names.errand i = none) (hg : e.goal.stake = none) (reply : Reply) :
    (w.resolve i e reply).names = w.names := by
  obtain ⟨y, hy, hf⟩ := hw.fits hp
  have hon := onward_resolve hw hp reply
  have hn : y.durable? = none := durable_eq_none hf ((names_errand hp).symm.trans hi)
  exact (stride_resolve w i e reply).names (kept_resolve hp hg reply) hi
    (hon.wired.errand_eq_none (hon.isCall (lt_of_progress hp) hy) hn)

end Durable

/-! ## Steps -/

section Steps

variable {D : ConsumerId → Option Destination}

/-- Any answer, by what the call was asking for. -/
theorem names_resolve (hw : w.Wired) {e : Exchange} {reply : Reply}
    (hp : w.progress? i = some (.exchange e)) (hr : e.stage.reply? = some reply)
    (hD : ∀ x d, w.destination? x = some d → D x = some d) :
    (w.resolve i e reply).names = w.names ∨
      Move w.address? w.opens D (.run (.call i)) w.names (w.resolve i e reply).names := by
  cases hg : e.goal with
  | retarget s x name claim => exact .inr (names_resolve_retarget hw hp hg hr hD)
  | declare s x name claim => exact .inr (names_resolve_declare hw hp hg hr)
  | unsubscribe s name => exact .inr (names_resolve_unsubscribe hw hp hg hr)
  | _ =>
    have hi : w.names.errand i = none := by
      rw [names_errand hp]
      simp only [Progress.errand?, Exchange.errand?, hg]
    exact .inl (names_resolve_other hw hp hi (by rw [hg]; rfl) reply)

/-- A call that goes on makes one move of the names, or none. -/
theorem names_resume (hw : w.Wired) (hr : w.resume? i = some v)
    (hD : ∀ x d, w.destination? x = some d → D x = some d) :
    v.names = w.names ∨ Move w.address? w.opens D (.run (.call i)) w.names v.names := by
  have hv := (onward_resume hw hr).wired
  rcases resume?_cases hr with ⟨s, m, tracked, hp, _, rfl⟩ | ⟨e, reply, hp, _, hs, rfl⟩ |
    ⟨e, after, hp, _, hs, rfl⟩ | ⟨e, limit, hp, hl, _, _, rfl⟩ | ⟨x, o, hp, ho, rfl⟩
  · obtain ⟨y, hy, rfl, _⟩ := hw.fits hp
    exact .inl ((stride_publish w i s m tracked).names (kept_publish w i s m tracked)
      (names_errand hp) (hv.errand_eq_none
        ((onward_resume hw hr).isCall (lt_of_progress hp) hy) rfl))
  · refine names_resolve hw hp ?_ hD
    rcases hs with ⟨f, after, hs, rfl⟩ | hs <;> rw [hs] <;> rfl
  · exact names_takeEffect hw hp hs D
  · -- Only a call that closes a connection is given up.
    obtain ⟨y, hy, hf⟩ := hw.fits hp
    have hi : w.names.errand i = none := by
      rw [names_errand hp]
      simp only [Progress.Fits, Exchange.Fits] at hf
      simp only [Progress.errand?, Exchange.errand?]
      cases hg : e.goal <;> simp_all
    have hn : y.durable? = none := durable_eq_none hf ((names_errand hp).symm.trans hi)
    exact .inl ((stride_giveUp w i e).names (plain_giveUp (hw.isPlain_of_limit hp hl) e).kept hi
      (hv.errand_eq_none ((onward_resume hw hr).isCall (lt_of_progress hp) hy) hn))
  · have hi : w.IsPlain i := by
      intro p hq
      rw [hp] at hq
      cases hq
      rfl
    obtain ⟨y, hy, rfl⟩ := hw.fits hp
    exact .inl (((OthersStay.refl i w).finish o).names (plain_resumed hi ho).kept
      (names_errand hp) (hv.errand_eq_none
        ((onward_resume hw hr).isCall (lt_of_progress hp) hy) rfl))

/-- A call that was started has not begun its errand. -/
theorem names_enlist (w : System) (y : Call) : (w.enlist y).names = w.names := by
  refine Names.ext (fun _ _ => rfl) (fun _ _ _ => rfl) fun i => ?_
  simp only [names]
  rcases progress_enlist w y i with he | ⟨hn, hb⟩
  · rw [he]
  · rw [hn, hb]
    rfl

/-- Starting a call gives no session a new address. -/
theorem address?_enlist (w : System) (y : Call) : (w.enlist y).address? = w.address? := rfl

/-- A call that is started takes or removes a name at most. -/
theorem names_call (hw : w.Wired) {y : Call} (hy : w.mayCall y = true)
    (O : ConnectionId → Nat → Bool) : (w.call y).2.names = w.names ∨
      Move w.address? O (w.call y).2.destination? (.call y) w.names (w.call y).2.names := by
  have hv := (onward_enlist hw y).wired
  have hlt : w.calls.length < (w.enlist y).calls.length := by simp
  have hidle : (w.enlist y).names.errand w.calls.length = none := by
    rw [names_errand (p := .begun) (by simp [progress?])]
    rfl
  have hother : ∀ u, u = (w.call y).2 → Kept (w.enlist y) u → y.durable? = none →
      u.names = w.names := by
    rintro u rfl hk hn
    have hu := onward_call hw hy
    have hcall := (onward_begin hv hy (isCall_enlist w y)).isCall hlt (isCall_enlist w y)
    rw [← names_enlist w y]
    exact (stride_call w y).names hk hidle (hu.wired.errand_eq_none hcall hn)
  rw [← names_enlist w y] at hother
  by_cases hn : y.durable? = none
  · rw [← names_enlist w y]
    exact .inl (hother _ rfl (kept_call w hn) hn)
  · rw [← names_enlist w y, ← address?_enlist w y, call_eq]
    cases y with
    | subscribe t d name => exact names_subscribe hv (lt_of_holdsSession hy) hlt hidle d
    | unsubscribe t name => exact names_unsubscribe hv (lt_of_holdsSession hy) hlt hidle _
    | _ => exact absurd rfl hn

/-- A step that leaves entries, calls and the cores of brokers alone. -/
theorem names_of_core (hk : ∀ c, (v.connection c).subscriptions = (w.connection c).subscriptions)
    (hi : v.calls = w.calls)
    (hc : ∀ c, (v.connection c).core = (w.connection c).core ∨
      (w.connections.length ≤ c ∧ (v.connection c).broker.channels = [])) :
    v.names = w.names := by
  refine Names.ext (fun c name => by simp only [names, entry, hk]) (fun c k name => ?_)
    fun i => by simp only [names, progress?, hi]
  rcases hc c with he | ⟨hlt, he⟩
  · exact Broker.channelOrNew_of_core (g := fun y => y.topicOf? name) (fun _ => rfl)
      (congrArg (fun x => x.2.2) he) k
  · -- Neither a connection that is not there nor a new one declares anything.
    have hd : w.connection c = default := by
      rw [connection, List.getElem?_eq_none hlt]
      rfl
    simp only [names, Broker.topicOf?, Broker.channelOrNew, he, hd]
    rfl

/-- A step of a client is one move of its names at most, if the register is left to sessions. -/
theorem names_step (hw : w.Wired) {l : Label} (hl : l.throughSessions = true)
    (hs : w.step? l = some v) :
    v.names = w.names ∨ Move w.address? w.opens v.destination? l w.names v.names := by
  have hgrows := (onward_step hw hs).grows
  -- Consumers never change where they came from, so destinations known before stay known.
  have hD : ∀ x d, w.destination? x = some d → v.destination? x = some d := by
    intro x d hx
    obtain ⟨o, ho, rfl⟩ := Option.map_eq_some_iff.1 hx
    exact Option.map_eq_some_iff.2 ⟨o, getElem?_of_grows hgrows.origins ho, rfl⟩
  cases l with
  | operate o =>
    obtain ⟨_, rfl⟩ := step_operate hs
    have ho : o.meddles = false := by simpa [Label.throughSessions] using hl
    exact .inl (names_of_core (kept_operate w ho).subscriptions (operate_calls w o)
      (core_operate w o))
  | call y =>
    obtain ⟨hy, rfl⟩ := step_call hs
    exact names_call hw hy _
  | run a =>
    cases a with
    | call i => exact names_resume hw hs hD
    | dispatcher s =>
      obtain ⟨f, hf⟩ := framed_dispatch hs
      refine .inl (names_of_core (fun c => ?_) hf.calls fun c => .inl (core_dispatch hs c))
      rw [connection_congr hf.connections]
      exact connection_modifyConnection_of (g := Connection.subscriptions) (by intro _; rfl) w _ c
  | take i =>
    left
    obtain ⟨o, _, rfl | ⟨s, _, rfl⟩⟩ := take?_cases hs
    · exact Names.ext (fun _ _ => rfl) (fun _ _ _ => rfl) fun j => by
        simp only [names, progress_take]
    · refine Names.ext (fun _ _ => rfl) (fun _ _ _ => rfl) fun j => ?_
      have hp := progress_take w i j
      simp only [names]
      exact congrArg (·.bind Progress.errand?) hp
  | tick t =>
    obtain ⟨_, rfl⟩ := step_tick hs
    exact .inl (names_congr rfl rfl)

end Steps

end System

end BrokerClient
