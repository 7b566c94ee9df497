import BrokerClient.Client.Run

/-!
# Durable names and what the broker knows of them

A durable name has an entry in the register of its connection, and a topic at the broker on each
channel where it is declared. A call changes the first at once and the second by a request, so that
between the two it has an *errand* about the name. `Names` keeps entries, topics and errands alone,
and `Names.Move` says what can happen to them in one step, one constructor for each event.

`Names.Agreed` is what holds on one channel as long as no two errands are about one name and nothing
fails: a name about which there is no errand is declared on the topic of its entry, and a call with
an errand has the entry that it made. It survives every move (`Agreed.move`).

Each move has a lemma of its own (`Agreed.claim` to `Agreed.unsubscribed`). A move that changes the
entry or the topic of one name leaves the other names as they are (`Agreed.elsewhere`), so that what
remains is to look at the one name, where the errand of the call says what the entry and the topic
are (`Agreed.change`). A claim that is given back does not occur: an answer that fails is ruled out,
since errands are smooth (`Agreed.ne_of_error`).
-/

namespace BrokerClient

/-- The session and the name of a call about a durable subscription. -/
def Call.durable? : Call → Option (SessionId × String)
  | .subscribe s _ name => some (s, name)
  | .unsubscribe s name => some (s, name)
  | _ => none

/-- What a call has the broker do about a name. -/
inductive Deed where
  /-- It deletes the subscription of the consumer before, to declare it on another topic. -/
  | retarget (x : ConsumerId) (claim : Claim)
  | declare (x : ConsumerId) (claim : Claim) (topic : String)
  | unsubscribe
  deriving DecidableEq

/-- The topic on which the name is declared once the broker has done it, if on any. -/
def Deed.topic? : Deed → Option String
  | .declare _ _ topic => some topic
  | _ => none

/-- The answer with which a call goes on, once it is there. -/
def Stage.reply? : Stage → Option Reply
  | .before (some f) _ => some (.failed f)
  | .before none _ => none
  | .answered reply => some reply

/-- A call's business about a name at the broker. -/
structure Errand where
  connection : ConnectionId
  channel : Nat
  name : String
  deed : Deed
  stage : Stage

/-- What a client and its brokers know of durable names. -/
structure Names where
  entry : ConnectionId → String → Option ConsumerId
  /-- The topic on which a name is declared on a channel. -/
  topic : ConnectionId → Nat → String → Option String
  errand : CallId → Option Errand

namespace Names

/-- It is three readings. -/
theorem ext {n m : Names} (he : ∀ c name, n.entry c name = m.entry c name)
    (ht : ∀ c k name, n.topic c k name = m.topic c k name) (hi : ∀ i, n.errand i = m.errand i) :
    n = m := by
  obtain ⟨e, t, i⟩ := n
  obtain ⟨e', t', i'⟩ := m
  obtain rfl : e = e' := funext fun c => funext fun name => he c name
  obtain rfl : t = t' := funext fun c => funext fun k => funext fun name => ht c k name
  obtain rfl : i = i' := funext hi
  rfl

/-! ## Updates -/

/-- A name has another consumer, or none. -/
def enter (n : Names) (c : ConnectionId) (name : String) (x : Option ConsumerId) : Names :=
  { n with entry := fun d other => if c = d ∧ name = other then x else n.entry d other }

/-- A broker has a name on another topic, or not at all. -/
def bind (n : Names) (c : ConnectionId) (k : Nat) (name : String) (t : Option String) : Names :=
  { n with topic := fun d l other =>
      if c = d ∧ k = l ∧ name = other then t else n.topic d l other }

/-- A call sets out on another errand, or has done its own. -/
def assign (n : Names) (i : CallId) (e : Option Errand) : Names :=
  { n with errand := fun j => if i = j then e else n.errand j }

/-- The consumer of a name after one was given or taken away. -/
@[simp, grind =] theorem entry_enter (n : Names) (c : ConnectionId) (name : String)
    (x : Option ConsumerId) (d : ConnectionId) (other : String) :
    (n.enter c name x).entry d other = if c = d ∧ name = other then x else n.entry d other := rfl

/-- The brokers hear nothing of it. -/
@[simp, grind =] theorem topic_enter (n : Names) (c : ConnectionId) (name : String)
    (x : Option ConsumerId) (d : ConnectionId) (k : Nat) (other : String) :
    (n.enter c name x).topic d k other = n.topic d k other := rfl

@[simp, grind =] theorem errand_enter (n : Names) (c : ConnectionId) (name : String)
    (x : Option ConsumerId) (i : CallId) : (n.enter c name x).errand i = n.errand i := rfl

/-- The register hears nothing of that. -/
@[simp, grind =] theorem entry_bind (n : Names) (c : ConnectionId) (k : Nat) (name : String)
    (t : Option String) (d : ConnectionId) (other : String) :
    (n.bind c k name t).entry d other = n.entry d other := rfl

/-- The topic of a name after a broker has changed one. -/
@[simp, grind =] theorem topic_bind (n : Names) (c : ConnectionId) (k : Nat) (name : String)
    (t : Option String) (d : ConnectionId) (l : Nat) (other : String) :
    (n.bind c k name t).topic d l other =
      if c = d ∧ k = l ∧ name = other then t else n.topic d l other := rfl

@[simp, grind =] theorem errand_bind (n : Names) (c : ConnectionId) (k : Nat) (name : String)
    (t : Option String) (i : CallId) : (n.bind c k name t).errand i = n.errand i := rfl

@[simp, grind =] theorem entry_assign (n : Names) (i : CallId) (e : Option Errand)
    (c : ConnectionId) (name : String) : (n.assign i e).entry c name = n.entry c name := rfl

@[simp, grind =] theorem topic_assign (n : Names) (i : CallId) (e : Option Errand)
    (c : ConnectionId) (k : Nat) (name : String) :
    (n.assign i e).topic c k name = n.topic c k name := rfl

/-- The errand of a call after one was assigned. -/
@[simp, grind =] theorem errand_assign (n : Names) (i : CallId) (e : Option Errand) (j : CallId) :
    (n.assign i e).errand j = if i = j then e else n.errand j := rfl

theorem assign_eq_self {n : Names} {i : CallId} {e : Option Errand} (h : n.errand i = e) :
    n.assign i e = n := by
  refine ext (fun _ _ => rfl) (fun _ _ _ => rfl) fun j => ?_
  rw [errand_assign]
  split
  next hij => rw [← hij, h]
  next => rfl

/-- Puts the consumer before back in its place, where the entry is still that of `x`. -/
def abandon (n : Names) (c : ConnectionId) (name : String) (x : ConsumerId) (claim : Claim) :
    Names :=
  if n.entry c name = some x then n.enter c name claim.previous? else n

/-! ## Moves -/

/-- What can happen in a step, where `A` gives the channel of each session, `O` tells which channels
are open, and `D` for which destination each consumer was created. -/
inductive Move (A : SessionId → Option (ConnectionId × Nat)) (O : ConnectionId → Nat → Bool)
    (D : ConsumerId → Option Destination) : Label → Names → Names → Prop where
  /-- A call takes a name for a new consumer, and asks the broker to declare it; if it was on
  another topic, to delete it first. -/
  | claim {n i s c k d name x claim deed failure after} (hi : n.errand i = none)
    (ha : A s = some (c, k)) (hd : d.isTopic = true) (hx : D x = some d)
    (hdeed : deed = .retarget x claim ∨ deed = .declare x claim d.name) :
    Move A O D (.call (.subscribe s d name)) n ((n.enter c name (some x)).assign i
      (some ⟨c, k, name, deed, .before failure after⟩))
  /-- A call removes a name, and asks the broker to delete it. -/
  | remove {n i s c k name x failure after} (hi : n.errand i = none) (ha : A s = some (c, k))
    (hx : n.entry c name = some x) :
    Move A O D (.call (.unsubscribe s name)) n ((n.enter c name none).assign i
      (some ⟨c, k, name, .unsubscribe, .before failure after⟩))
  /-- The broker does what it was asked for. -/
  | perform {n i e after} (hi : n.errand i = some e) (hs : e.stage = .before none after)
    (ho : O e.connection e.channel = true) :
    Move A O D (.run (.call i)) n ((n.bind e.connection e.channel e.name e.deed.topic?).assign i
      (some { e with stage := .answered .done }))
  /-- The broker refuses it, for the channel is closed. -/
  | refuse {n i e after} (hi : n.errand i = some e) (hs : e.stage = .before none after)
    (ho : O e.connection e.channel = false) :
    Move A O D (.run (.call i)) n (n.assign i
      (some { e with stage := .answered (.failed .alreadyClosed) }))
  /-- The name is deleted; it is declared on the topic of the new consumer. -/
  | redeclare {n i e x claim d reply failure after} (hi : n.errand i = some e)
    (hdeed : e.deed = .retarget x claim) (hx : D x = some d) (hr : e.stage.reply? = some reply)
    (hok : reply.result = .ok ()) :
    Move A O D (.run (.call i)) n (n.assign i
      (some { e with deed := .declare x claim d.name, stage := .before failure after }))
  /-- The name is declared. -/
  | declared {n i e x claim topic reply} (hi : n.errand i = some e)
    (hdeed : e.deed = .declare x claim topic) (hr : e.stage.reply? = some reply)
    (hok : reply.result = .ok ()) : Move A O D (.run (.call i)) n (n.assign i none)
  /-- The broker could not delete or declare; the claim is taken back. -/
  | abandon {n i e x claim reply f} (hi : n.errand i = some e)
    (hdeed : e.deed = .retarget x claim ∨ ∃ topic, e.deed = .declare x claim topic)
    (hr : e.stage.reply? = some reply) (hf : reply.result = .error f) :
    Move A O D (.run (.call i)) n ((n.abandon e.connection e.name x claim).assign i none)
  /-- A call that removed a name ends with whatever the broker answered. -/
  | unsubscribed {n i e reply} (hi : n.errand i = some e) (hdeed : e.deed = .unsubscribe)
    (hr : e.stage.reply? = some reply) : Move A O D (.run (.call i)) n (n.assign i none)

/-- Who takes up an errand is a call about the name that is started. -/
theorem Move.started {A : SessionId → Option (ConnectionId × Nat)}
    {O : ConnectionId → Nat → Bool} {D : ConsumerId → Option Destination} {l : Label}
    {n m : Names} (hm : Move A O D l n m) {i : CallId} {e : Errand} (hn : n.errand i = none)
    (he : m.errand i = some e) : ∃ y s, l = .call y ∧ y.durable? = some (s, e.name) ∧
      A s = some (e.connection, e.channel) := by
  cases hm with
  | @claim _ j s c k d name x claim deed failure after hi ha hd hx hdeed =>
    refine ⟨_, s, rfl, ?_⟩
    grind [Call.durable?]
  | @remove _ j s c k name x failure after hi ha hx =>
    refine ⟨_, s, rfl, ?_⟩
    grind [Call.durable?]
  -- The others are moves of calls that have an errand already.
  | perform | refuse | redeclare | declared | unsubscribed => grind
  | abandon => grind [Names.abandon]

/-- A call that has an errand keeps to its connection. -/
theorem Move.connection {A : SessionId → Option (ConnectionId × Nat)}
    {O : ConnectionId → Nat → Bool} {D : ConsumerId → Option Destination} {l : Label}
    {n m : Names} (hm : Move A O D l n m) {i : CallId} {e f : Errand} (hn : n.errand i = some e)
    (he : m.errand i = some f) : f.connection = e.connection := by
  cases hm with
  -- These end an errand, and so none is left of it.
  | declared | unsubscribed => grind
  | abandon => grind [Names.abandon]
  -- These begin one or go on with it.
  | claim | remove | perform | refuse | redeclare => grind

/-! ## Agreement -/

/-- Nobody has an errand about the name. -/
def Idle (n : Names) (c : ConnectionId) (name : String) : Prop :=
  ∀ i e, n.errand i = some e → e.connection = c → e.name ≠ name

/-- The entry that a call with this errand made is there. -/
def Held (n : Names) (D : ConsumerId → Option Destination) (e : Errand) : Prop :=
  match e.deed with
  | .retarget x _ => n.entry e.connection e.name = some x ∧ ∃ t, D x = some (.topic t)
  | .declare x _ t => n.entry e.connection e.name = some x ∧ D x = some (.topic t)
  | .unsubscribe => n.entry e.connection e.name = none

/-- The broker is still to do what it was asked for, or it has done it. -/
def Smooth (n : Names) (e : Errand) : Prop :=
  (∃ after, e.stage = .before none after) ∨
  (e.stage = .answered .done ∧ n.topic e.connection e.channel e.name = e.deed.topic?)

/-- The name is declared on the topic of its entry, and not at all if it has none. -/
def Settled (n : Names) (D : ConsumerId → Option Destination) (c : ConnectionId) (k : Nat)
    (name : String) : Prop :=
  (n.entry c name = none ∧ n.topic c k name = none) ∨
  ∃ x t, n.entry c name = some x ∧ D x = some (.topic t) ∧ n.topic c k name = some t

/-- Entries and topics of one channel agree but for the errands that are under way. -/
structure Agreed (n : Names) (D : ConsumerId → Option Destination) (c : ConnectionId) (k : Nat) :
    Prop where
  apart : ∀ {i j e f}, n.errand i = some e → n.errand j = some f → e.connection = c →
    f.connection = c → e.name = f.name → i = j
  errand : ∀ {i e}, n.errand i = some e → e.connection = c →
    e.channel = k ∧ n.Held D e ∧ n.Smooth e
  settled : ∀ {name}, n.Idle c name → n.Settled D c k name

variable {A : SessionId → Option (ConnectionId × Nat)} {O : ConnectionId → Nat → Bool}
  {D : ConsumerId → Option Destination} {l : Label} {n m : Names} {c : ConnectionId} {k : Nat}
  {i : CallId} {e : Errand}

/-- Consumers are never taken away, so that agreement does not depend on how many there are. -/
theorem Agreed.mono {E : ConsumerId → Option Destination} (h : n.Agreed D c k)
    (hD : ∀ x d, D x = some d → E x = some d) : n.Agreed E c k := by
  refine ⟨h.apart, fun hi hc => ?_, fun hidle => ?_⟩
  · obtain ⟨hk, hheld, hs⟩ := h.errand hi hc
    refine ⟨hk, ?_, hs⟩
    unfold Held at hheld ⊢
    split <;> simp_all
    obtain ⟨_, t, ht⟩ := hheld
    exact ⟨t, hD _ _ ht⟩
  · exact (h.settled hidle).imp id fun ⟨x, t, hx, hd, ht⟩ => ⟨x, t, hx, hD x _ hd, ht⟩

/-- What changes elsewhere does not matter here. -/
theorem Agreed.elsewhere (h : n.Agreed D c k) (he : ∀ name, m.entry c name = n.entry c name)
    (ht : ∀ name, m.topic c k name = n.topic c k name)
    (hi : ∀ i e, e.connection = c → (m.errand i = some e ↔ n.errand i = some e)) :
    m.Agreed D c k := by
  refine ⟨fun hi' hj' hc hc' => h.apart ((hi _ _ hc).1 hi') ((hi _ _ hc').1 hj') hc hc',
    fun {j f} hj hc => ?_, fun {name} hidle => ?_⟩
  · obtain ⟨hk, hheld, hs⟩ := h.errand ((hi _ _ hc).1 hj) hc
    have hentry : m.entry f.connection f.name = n.entry f.connection f.name := by rw [hc, he]
    have htopic : m.topic f.connection f.channel f.name =
        n.topic f.connection f.channel f.name := by
      rw [hc, hk, ht]
    refine ⟨hk, ?_, ?_⟩
    · unfold Held at hheld ⊢
      rwa [hentry]
    · unfold Smooth at hs ⊢
      rwa [htopic]
  · have hs : n.Settled D c k name :=
      h.settled fun j f hj hc => hidle j f ((hi j f hc).2 hj) hc
    unfold Settled at hs ⊢
    rwa [he, ht]

/-- One call goes on about one name, about which nobody else has an errand. -/
theorem Agreed.change (h : n.Agreed D c k) (i : CallId) (name : String)
    (he : ∀ other, other ≠ name → m.entry c other = n.entry c other)
    (ht : ∀ other, other ≠ name → m.topic c k other = n.topic c k other)
    (hother : ∀ j, j ≠ i → m.errand j = n.errand j)
    (halone : ∀ j f, j ≠ i → n.errand j = some f → f.connection = c → f.name ≠ name)
    (hwas : ∀ f, n.errand i = some f → f.connection = c → f.name = name)
    (hnow : ∀ f, m.errand i = some f → f.connection = c ∧ f.name = name ∧ f.channel = k ∧
      m.Held D f ∧ m.Smooth f)
    (hdone : m.errand i = none → m.Settled D c k name) : m.Agreed D c k := by
  -- An errand of another call is about another name, and was there before.
  have hold : ∀ {j f}, j ≠ i → m.errand j = some f → f.connection = c →
      n.errand j = some f ∧ f.name ≠ name := by
    intro j f hj hf hc
    rw [hother j hj] at hf
    exact ⟨hf, halone j f hj hf hc⟩
  refine ⟨fun {j j' f f'} hj hj' hc hc' hname => ?_, fun {j f} hj hc => ?_, fun {other} hidle => ?_⟩
  · by_cases hji : j = i <;> by_cases hji' : j' = i
    · rw [hji, hji']
    · subst hji
      exact absurd (hname ▸ (hnow f hj).2.1) (hold hji' hj' hc').2
    · subst hji'
      exact absurd (hname ▸ (hnow f' hj').2.1) (hold hji hj hc).2
    · exact h.apart (hold hji hj hc).1 (hold hji' hj' hc').1 hc hc' hname
  · by_cases hji : j = i
    · subst hji
      exact (hnow f hj).2.2
    · obtain ⟨hf, hne⟩ := hold hji hj hc
      obtain ⟨hk, hheld, hs⟩ := h.errand hf hc
      refine ⟨hk, ?_, ?_⟩
      · unfold Held at hheld ⊢
        rwa [hc, he _ hne, ← hc]
      · unfold Smooth at hs ⊢
        rwa [hc, hk, ht _ hne, ← hk, ← hc]
  · by_cases hname : other = name
    · subst hname
      refine hdone ?_
      cases hi : m.errand i with
      | none => rfl
      | some f => exact absurd (hnow f hi).2.1 (hidle i f hi (hnow f hi).1)
    · have hs : n.Settled D c k other := h.settled fun j f hj hc hfn => by
        by_cases hji : j = i
        · subst hji
          exact hname (hfn ▸ hwas f hj hc)
        · exact hidle j f ((hother j hji).trans hj) hc hfn
      unfold Settled at hs ⊢
      rwa [he _ hname, ht _ hname]

/-- Where nothing fails an answer says that it was done. -/
theorem Smooth.done_of_reply (h : n.Smooth e) {reply : Reply} (hr : e.stage.reply? = some reply) :
    reply = .done := by
  rcases h with ⟨after, hs⟩ | ⟨hs, -⟩ <;> rw [hs] at hr <;> cases hr
  rfl

/-- Where nothing fails the broker has done what was asked by the time at which the call hears of
it. -/
theorem Smooth.topic_of_reply (h : n.Smooth e) {reply : Reply}
    (hr : e.stage.reply? = some reply) :
    n.topic e.connection e.channel e.name = e.deed.topic? := by
  rcases h with ⟨after, hs⟩ | ⟨-, ht⟩
  · rw [hs] at hr
    cases hr
  · exact ht

/-- Who has an errand about a name is alone with it. -/
theorem Agreed.alone (h : n.Agreed D c k) (hi : n.errand i = some e) (hc : e.connection = c) :
    ∀ j f, j ≠ i → n.errand j = some f → f.connection = c → f.name ≠ e.name :=
  fun _ _ hj hf hc' hname => hj (h.apart hf hi hc' hc hname)

/-! ## The moves in turn -/

section Moves

variable {d : ConnectionId} {k' : Nat} {name : String} {x : ConsumerId} {was : Claim}
  {deed : Deed} {t : String} {after : Nat} {reply : Reply}

/-- A call that takes a name about which nobody has an errand has the entry that it made. -/
theorem Agreed.claim (h : n.Agreed D c k) (hi : n.errand i = none) (hk : d = c → k' = k)
    (hidle : d = c → n.Idle c name) (hx : D x = some (.topic t))
    (hdeed : deed = .retarget x was ∨ deed = .declare x was t) :
    ((n.enter d name (some x)).assign i (some ⟨d, k', name, deed, .before none after⟩)).Agreed
      D c k := by
  by_cases hc : d = c
  · subst hc
    obtain rfl := hk rfl
    refine h.change i name (by grind) (by grind) (by grind)
      (fun j f _ hj hcf => hidle rfl j f hj hcf) (by grind) (fun f hf => ?_) (by simp)
    obtain rfl : _ = f := by simpa using hf
    refine ⟨rfl, rfl, rfl, ?_, .inl ⟨after, rfl⟩⟩
    rcases hdeed with rfl | rfl
    · exact ⟨by simp, t, hx⟩
    · exact ⟨by simp, hx⟩
  · exact h.elsewhere (by grind) (by grind) (by grind)

/-- A call that removes a name about which nobody has an errand leaves no entry. -/
theorem Agreed.remove (h : n.Agreed D c k) (hi : n.errand i = none) (hk : d = c → k' = k)
    (hidle : d = c → n.Idle c name) :
    ((n.enter d name none).assign i (some ⟨d, k', name, .unsubscribe, .before none after⟩)).Agreed
      D c k := by
  by_cases hc : d = c
  · subst hc
    obtain rfl := hk rfl
    refine h.change i name (by grind) (by grind) (by grind)
      (fun j f _ hj hcf => hidle rfl j f hj hcf) (by grind) (fun f hf => ?_) (by simp)
    obtain rfl : _ = f := by simpa using hf
    exact ⟨rfl, rfl, rfl, by simp [Held], .inl ⟨after, rfl⟩⟩
  · exact h.elsewhere (by grind) (by grind) (by grind)

/-- The broker has the name where its errand has it. -/
theorem Agreed.perform (h : n.Agreed D c k) (hi : n.errand i = some e) :
    ((n.bind e.connection e.channel e.name e.deed.topic?).assign i
      (some { e with stage := .answered .done })).Agreed D c k := by
  by_cases hc : e.connection = c
  · obtain ⟨hk, hheld, -⟩ := h.errand hi hc
    refine h.change i e.name (by grind) (by grind) (by grind) (h.alone hi hc) (by grind)
      (fun f hf => ?_) (by simp)
    obtain rfl : _ = f := by simpa using hf
    exact ⟨hc, rfl, hk, hheld, .inr ⟨rfl, by simp⟩⟩
  · exact h.elsewhere (by grind) (by grind) (by grind)

/-- A consumer whose name was deleted elsewhere keeps its entry while the name is declared. -/
theorem Agreed.redeclare (h : n.Agreed D c k) (hi : n.errand i = some e)
    (hdeed : e.deed = .retarget x was) {d : Destination} (hx : D x = some d) :
    (n.assign i (some { e with deed := .declare x was d.name, stage := .before none after })).Agreed
      D c k := by
  by_cases hc : e.connection = c
  · obtain ⟨hk, hheld, -⟩ := h.errand hi hc
    refine h.change i e.name (by grind) (by grind) (by grind) (h.alone hi hc) (by grind)
      (fun f hf => ?_) (by simp)
    obtain rfl : _ = f := by simpa using hf
    refine ⟨hc, rfl, hk, ?_, .inl ⟨after, rfl⟩⟩
    obtain ⟨hentry, t, ht⟩ := by simpa only [Held, hdeed] using hheld
    obtain rfl : d = .topic t := Option.some.inj (hx.symm.trans ht)
    exact ⟨hentry, ht⟩
  · exact h.elsewhere (by grind) (by grind) (by grind)

/-- A name that was declared is on the topic of its entry. -/
theorem Agreed.declared (h : n.Agreed D c k) (hi : n.errand i = some e)
    (hdeed : e.deed = .declare x was t) (hr : e.stage.reply? = some reply) :
    (n.assign i none).Agreed D c k := by
  by_cases hc : e.connection = c
  · obtain ⟨hk, hheld, hs⟩ := h.errand hi hc
    obtain ⟨hentry, hx⟩ := by simpa only [Held, hdeed] using hheld
    refine h.change i e.name (by grind) (by grind) (by grind) (h.alone hi hc) (by grind)
      (by simp) fun _ => .inr ⟨x, t, ?_, hx, ?_⟩
    · rw [← hc]
      exact hentry
    · rw [← hc, ← hk]
      simpa [hdeed, Deed.topic?] using hs.topic_of_reply hr
  · exact h.elsewhere (by grind) (by grind) (by grind)

/-- A name that was removed has neither an entry nor a topic. -/
theorem Agreed.unsubscribed (h : n.Agreed D c k) (hi : n.errand i = some e)
    (hdeed : e.deed = .unsubscribe) (hr : e.stage.reply? = some reply) :
    (n.assign i none).Agreed D c k := by
  by_cases hc : e.connection = c
  · obtain ⟨hk, hheld, hs⟩ := h.errand hi hc
    have hentry := by simpa only [Held, hdeed] using hheld
    refine h.change i e.name (by grind) (by grind) (by grind) (h.alone hi hc) (by grind)
      (by simp) fun _ => .inl ⟨?_, ?_⟩
    · rw [← hc]
      exact hentry
    · rw [← hc, ← hk]
      simpa [hdeed, Deed.topic?] using hs.topic_of_reply hr
  · exact h.elsewhere (by grind) (by grind) (by grind)

/-- Where nothing fails on the channel, nothing is refused and no claim is taken back there. -/
theorem Agreed.ne_of_error (h : n.Agreed D c k) (hi : n.errand i = some e)
    (hr : e.stage.reply? = some reply) {f : TransportFailure} (hf : reply.result = .error f) :
    e.connection ≠ c := by
  intro hc
  rw [(h.errand hi hc).2.2.done_of_reply hr] at hf
  cases hf

end Moves

/-- Agreement survives every move, provided that a call finds nobody at the name that it takes up,
that the channel is open and that nothing fails. -/
theorem Agreed.move (h : n.Agreed D c k) (hm : Move A O D l n m)
    (hsole : ∀ {s k'}, A s = some (c, k') → k' = k)
    (hopen : ∀ {i e}, n.errand i = some e → e.connection = c → O c k = true)
    (hfree : ∀ {i e}, n.errand i = none → m.errand i = some e → e.connection = c →
      n.Idle c e.name)
    (hmild : ∀ {i e f after}, m.errand i = some e → e.stage ≠ .before (some f) after) :
    m.Agreed D c k := by
  -- Nothing that is asked is going to fail.
  have hnone : ∀ {i e failure after}, m.errand i = some e → e.stage = .before failure after →
      failure = none := fun he hs =>
    Option.eq_none_iff_forall_ne_some.2 fun f hf => hmild he (hf ▸ hs)
  cases hm with
  | @claim _ i s d l dest name x claim deed failure after hi ha hd hx hdeed =>
    obtain ⟨t, rfl⟩ : ∃ t, dest = .topic t := by
      cases dest with
      | queue q => cases hd
      | topic t => exact ⟨t, rfl⟩
    obtain rfl := hnone (i := i) (by simp; rfl) rfl
    exact h.claim hi (fun hc => hsole (hc ▸ ha)) (fun hc => hfree (i := i) hi (by simp; rfl) hc) hx
      hdeed
  | @remove _ i s d l name x failure after hi ha hx =>
    obtain rfl := hnone (i := i) (by simp; rfl) rfl
    exact h.remove hi (fun hc => hsole (hc ▸ ha)) (fun hc => hfree (i := i) hi (by simp; rfl) hc)
  | perform hi _ _ => exact h.perform hi
  | @refuse _ i e after hi hs ho =>
    -- The channel is open, so it was refused elsewhere.
    have hc : e.connection ≠ c := by
      intro hc
      rw [hc, (h.errand hi hc).1, hopen hi hc] at ho
      cases ho
    exact h.elsewhere (by grind) (by grind) (by grind)
  | @redeclare _ i e x claim d reply failure after hi hdeed hx hr hok =>
    obtain rfl := hnone (i := i) (by simp; rfl) rfl
    exact h.redeclare hi hdeed hx
  | declared hi hdeed hr _ => exact h.declared hi hdeed hr
  | abandon hi hdeed hr hf =>
    have hc := h.ne_of_error hi hr hf
    exact h.elsewhere (by grind [Names.abandon]) (by grind [Names.abandon])
      (by grind [Names.abandon])
  | unsubscribed hi hdeed hr => exact h.unsubscribed hi hdeed hr

end Names

end BrokerClient
