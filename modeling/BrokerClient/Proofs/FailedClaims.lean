import BrokerClient.Proofs.Naming

/-!
# Claims of a durable name that fail

A call that creates a durable subscriber puts its consumer under the name before it asks the broker,
and remembers the consumer that had the name until then. If it fails it puts that one back, provided
that its own consumer still has the name.

Once the session of a consumer closes, another call may take the name over, so that the consumers
under a name form a chain down to the one that had it at first (`Tenure.Chain`). A call that fails
takes its link off the chain if it is the head. If it is not, the link stays, and comes to the head
when those above it are taken off. Where all calls fail, the name is therefore back with the
consumer that had it at first just if each of them still had it when it failed
(`failed_claims_undone_iff`); that they may fail in another order is `overrun_leaves_consumer`.

`Tenure` keeps of one name the entry and the claims that calls have on it. The consumers that took
the name stand in a chain, each above the one that its claim remembers (`Chain`). A claim that is
given back by the consumer at the head takes the head off, and the next one is the entry again
(`Chain.givenBack`). A claim that is given up by a consumer further down changes nothing and leaves
a consumer behind for which no call is responsible any more (`Chain.overrun`). So the name comes
back to where it was just if the chain is empty in the end (`Chain.back_iff`).
-/

namespace BrokerClient

namespace Progress

/-- Whether a call has come to its end. -/
def isEnded : Progress → Bool
  | .ended _ => true
  | _ => false

/-- Whether a call has ended with a failure of the broker. -/
def brokeDown : Progress → Bool
  | .ended (.error e) => e.isTransport
  | _ => false

theorem isEnded_iff {p : Progress} : p.isEnded = true ↔ ∃ o, p = .ended o := by
  cases p <;> simp [isEnded]

theorem brokeDown_iff {p : Progress} :
    p.brokeDown = true ↔ ∃ f, p = .ended (.error (.transport f)) := by
  constructor
  · intro h
    unfold brokeDown at h
    split at h
    next e =>
      cases e with
      | transport f => exact ⟨f, rfl⟩
      | _ => cases h
    next => cases h
  · rintro ⟨f, rfl⟩
    rfl

end Progress

/-- What a call has claimed a name for, and what it found there. -/
def Deed.claim? : Deed → Option (ConsumerId × Claim)
  | .retarget x a => some (x, a)
  | .declare x a _ => some (x, a)
  | .unsubscribe => none

/-- The claim of one name that an errand is about. -/
def Errand.claimOf? (c : ConnectionId) (name : String) (e : Errand) :
    Option (ConsumerId × Claim) :=
  if e.connection = c ∧ e.name = name then e.deed.claim? else none

/-- Who has a name, and which calls have claimed it and have not ended. -/
structure Tenure where
  entry : Option ConsumerId
  claim : CallId → Option (ConsumerId × Claim)

namespace Tenure

/-- The name has this entry from now on. -/
def enter (t : Tenure) (x : Option ConsumerId) : Tenure := { t with entry := x }

/-- What call `i` claims from now on. -/
def assign (t : Tenure) (i : CallId) (p : Option (ConsumerId × Claim)) : Tenure :=
  { t with claim := fun j => if i = j then p else t.claim j }

@[simp, grind =] theorem entry_enter (t : Tenure) (x : Option ConsumerId) :
    (t.enter x).entry = x := rfl

@[simp, grind =] theorem claim_enter (t : Tenure) (x : Option ConsumerId) (i : CallId) :
    (t.enter x).claim i = t.claim i := rfl

@[simp, grind =] theorem entry_assign (t : Tenure) (i : CallId) (p : Option (ConsumerId × Claim)) :
    (t.assign i p).entry = t.entry := rfl

@[simp, grind =] theorem claim_assign (t : Tenure) (i : CallId) (p : Option (ConsumerId × Claim))
    (j : CallId) : (t.assign i p).claim j = if i = j then p else t.claim j := rfl

theorem assign_eq_self {t : Tenure} {i : CallId} {p : Option (ConsumerId × Claim)}
    (h : t.claim i = p) : t.assign i p = t := by
  have hc : (fun j => if i = j then p else t.claim j) = t.claim := funext fun j => by
    split
    next hij => rw [← hij, h]
    next => rfl
  rw [assign, hc]

/-- What is claimed after a call has ended is claimed by another one. -/
theorem claim_of_released {t : Tenure} {i j : CallId} {p : ConsumerId × Claim}
    (h : (t.assign i none).claim j = some p) : i ≠ j ∧ t.claim j = some p := by
  rw [claim_assign] at h
  split at h
  next => cases h
  next hij => exact ⟨hij, h⟩

/-- What becomes of a name in a step. -/
inductive Turn where
  | rest
  /-- A call takes it for a new consumer. -/
  | taken (i : CallId)
  /-- The broker has declared it, and the call ends. -/
  | settled (i : CallId)
  /-- A call fails, and its consumer gives it back. -/
  | givenBack
  /-- A call fails whose consumer does not have it any more. -/
  | overrun (i : CallId)
  /-- It is unsubscribed. -/
  | vacated

/-- What happens to a name, where the consumers below `n` are there before and those below `m`
after. -/
inductive Move (n m : Nat) : Turn → Tenure → Tenure → Prop where
  | rest (t) : Move n m .rest t t
  | taken {t i a} (hn : n < m) (hi : t.claim i = none) (ha : a.previous? = t.entry) :
    Move n m (.taken i) t ((t.enter (some n)).assign i (some (n, a)))
  | settled {t i x a} (hi : t.claim i = some (x, a)) : Move n m (.settled i) t (t.assign i none)
  | givenBack {t i x a} (hi : t.claim i = some (x, a)) (hx : t.entry = some x) :
    Move n m .givenBack t ((t.enter a.previous?).assign i none)
  | overrun {t i x a} (hi : t.claim i = some (x, a)) (hx : t.entry ≠ some x) :
    Move n m (.overrun i) t (t.assign i none)
  | vacated {t} : Move n m .vacated t (t.enter none)

variable {n m first : Nat} {k : Turn} {t u : Tenure} {i : CallId} {base : Option ConsumerId}
  {xs : List ConsumerId}

/-- A call is overrun if its consumer does not have the name when it ends. -/
theorem Move.overrun_iff (hm : Move n m k t u) (hk : ∀ j, k ≠ .settled j) :
    k = .overrun i ↔ ∃ x a, t.claim i = some (x, a) ∧ u.claim i = none ∧ t.entry ≠ some x := by
  cases hm with
  | settled => exact absurd rfl (hk _)
  | overrun hi hx =>
    constructor
    · rintro ⟨⟩
      exact ⟨_, _, hi, by grind, hx⟩
    · grind
  -- A call that ends otherwise has a consumer with the name, and the others end no call.
  | givenBack => grind
  | rest | taken | vacated => grind

/-- A call claims a name when it takes it, and then only. -/
theorem Move.unclaimed (hm : Move n m k t u) (hi : t.claim i = none) (hk : k ≠ .taken i) :
    u.claim i = none := by
  cases hm with
  | taken => grind
  | settled | givenBack | overrun => grind
  | rest | vacated => exact hi

/-- Only a claim that was made is settled. -/
theorem Move.claimed (hm : Move n m (.settled i) t u) : t.claim i ≠ none := by
  cases hm with
  | settled hi => simp [hi]

/-- The consumers that a name knows of are there. -/
structure Known (n : Nat) (t : Tenure) : Prop where
  entry : ∀ {x}, t.entry = some x → x < n
  previous : ∀ {i x a y}, t.claim i = some (x, a) → a.previous? = some y → y < n

/-- A claim puts a new consumer at the name, and a failure one that was there. -/
theorem Known.move (h : t.Known n) (hm : Move n m k t u) (hnm : n ≤ m) : u.Known m := by
  have he := @h.entry
  have hp := @h.previous
  constructor
  · intro x hx
    cases hm with
    -- A new consumer is there, and one that gets the name back was.
    | taken | givenBack => grind
    | vacated => grind
    | rest | settled | overrun => exact Nat.lt_of_lt_of_le (he hx) hnm
  · intro i x a y hi hy
    cases hm with
    -- A new claim remembers who had the name.
    | taken => grind
    | settled | givenBack | overrun => grind
    | rest | vacated => exact Nat.lt_of_lt_of_le (hp hi hy) hnm

/-! ## The chain of consumers -/

/-- The consumers that took a name one after the other, the last one first, above the one that had
it at first. Every call that has not ended has its consumer there, next to the one that it will put
back. -/
structure Chain (base : Option ConsumerId) (first n : Nat) (xs : List ConsumerId) (t : Tenure) :
    Prop where
  entry : t.entry = xs.head?.or base
  apart : xs.Nodup
  new : ∀ x ∈ xs, first ≤ x ∧ x < n
  claim : ∀ {i x a}, t.claim i = some (x, a) →
    ∃ as bs, xs = as ++ x :: bs ∧ a.previous? = bs.head?.or base
  own : ∀ {i j x a b}, t.claim i = some (x, a) → t.claim j = some (x, b) → i = j

/-- A consumer is left in the chain whose call has ended. -/
def Stray (xs : List ConsumerId) (t : Tenure) : Prop := ∃ x ∈ xs, ∀ i a, t.claim i ≠ some (x, a)

/-- A new consumer is at the head. -/
theorem Chain.taken (h : Chain base first n xs t) (hfirst : first ≤ n) (hn : n < m)
    (hi : t.claim i = none) {a : Claim} (ha : a.previous? = t.entry) :
    Chain base first m (n :: xs) ((t.enter (some n)).assign i (some (n, a))) ∧
    (Stray (n :: xs) ((t.enter (some n)).assign i (some (n, a))) ↔ Stray xs t) := by
  have hnew : n ∉ xs := fun hm => Nat.lt_irrefl n (h.new n hm).2
  -- What was claimed before was claimed for a consumer further down.
  have hold : ∀ {j x b}, t.claim j = some (x, b) → x ∈ xs := fun hj => by
    obtain ⟨as, bs, rfl, _⟩ := h.claim hj
    simp
  refine ⟨⟨rfl, ?_, ?_, ?_, ?_⟩, ?_⟩
  · exact List.nodup_cons.2 ⟨hnew, h.apart⟩
  · intro x hx
    rcases List.mem_cons.1 hx with rfl | hx
    · exact ⟨hfirst, hn⟩
    · exact ⟨(h.new x hx).1, Nat.lt_trans (h.new x hx).2 hn⟩
  · intro j x b hj
    rw [claim_assign] at hj
    split at hj
    · cases hj
      exact ⟨[], xs, rfl, ha.trans h.entry⟩
    · obtain ⟨as, bs, rfl, hb⟩ := h.claim hj
      exact ⟨n :: as, bs, rfl, hb⟩
  · intro j j' x b b' hj hj'
    have ho := @h.own j j' x b b'
    grind
  · constructor
    · rintro ⟨x, hx, hstray⟩
      refine ⟨x, ?_, fun j b hj => ?_⟩
      · rcases List.mem_cons.1 hx with rfl | hx
        · exact absurd (by simp) (hstray i a)
        · exact hx
      · by_cases hij : i = j
        · rw [← hij, hi] at hj
          cases hj
        · exact hstray j b (by simpa [hij] using hj)
    · rintro ⟨x, hx, hstray⟩
      refine ⟨x, List.mem_cons_of_mem n hx, fun j b hj => ?_⟩
      rw [claim_assign] at hj
      split at hj
      · cases hj
        exact hnew hx
      · exact hstray j b hj

/-- The head gives the name back to the next one. -/
theorem Chain.givenBack (h : Chain base first n xs t) {x : ConsumerId} {a : Claim}
    (hi : t.claim i = some (x, a)) (hx : t.entry = some x) :
    ∃ ys, Chain base first n ys ((t.enter a.previous?).assign i none) ∧
      (Stray ys ((t.enter a.previous?).assign i none) ↔ Stray xs t) := by
  obtain ⟨as, ys, rfl, ha⟩ := h.claim hi
  obtain rfl : as = [] := by
    cases as with
    | nil => rfl
    | cons y as =>
      have hy : some y = some x := h.entry.symm.trans hx
      have hap := h.apart
      simp [Option.some.inj hy] at hap
  have hap : x ∉ ys ∧ ys.Nodup := List.nodup_cons.1 h.apart
  refine ⟨ys, ⟨ha, hap.2, fun y hy => h.new y (by simp [hy]), ?_, ?_⟩, ?_⟩
  · intro j y b hj
    obtain ⟨hij, hj⟩ := claim_of_released hj
    obtain ⟨as, bs, hys, hb⟩ := h.claim hj
    cases as with
    | nil =>
      -- Nobody else has claimed the name for the head.
      obtain ⟨rfl, _⟩ := List.cons.inj hys
      exact absurd (h.own hi hj) hij
    | cons z as => exact ⟨as, bs, (List.cons.inj hys).2, hb⟩
  · intro j j' y b b' hj hj'
    exact h.own (claim_of_released hj).2 (claim_of_released hj').2
  · constructor
    · rintro ⟨y, hy, hstray⟩
      refine ⟨y, by simp [hy], fun j b hj => ?_⟩
      by_cases hij : i = j
      · subst hij
        rw [hi] at hj
        cases hj
        exact hap.1 hy
      · exact hstray j b (by simpa [hij] using hj)
    · rintro ⟨y, hy, hstray⟩
      rcases List.mem_cons.1 hy with rfl | hy
      · exact absurd hi (hstray i a)
      · exact ⟨y, hy, fun j b hj => hstray j b (claim_of_released hj).2⟩

/-- A consumer that is overrun stays in the chain, and has no call any more. -/
theorem Chain.overrun (h : Chain base first n xs t) {x : ConsumerId} {a : Claim}
    (hi : t.claim i = some (x, a)) :
    Chain base first n xs (t.assign i none) ∧ Stray xs (t.assign i none) := by
  refine ⟨⟨h.entry, h.apart, h.new, fun hj => h.claim (claim_of_released hj).2, fun hj hj' =>
    h.own (claim_of_released hj).2 (claim_of_released hj').2⟩, x, ?_, fun j b hj => ?_⟩
  · obtain ⟨as, bs, rfl, _⟩ := h.claim hi
    simp
  · obtain ⟨hij, hj⟩ := claim_of_released hj
    exact hij (h.own hi hj)

/-- Where nothing is settled and nobody unsubscribes there is always a chain, with a stray in it
just if a call was overrun. -/
theorem Chain.move (h : Chain base first n xs t) (hfirst : first ≤ n) (hnm : n ≤ m)
    (hm : Move n m k t u) (hs : ∀ j, k ≠ .settled j) (hv : k ≠ .vacated) :
    ∃ ys, Chain base first m ys u ∧ (Stray ys u ↔ Stray xs t ∨ ∃ j, k = .overrun j) := by
  have hmono : ∀ {ys : List ConsumerId} {t' : Tenure}, Chain base first n ys t' →
      Chain base first m ys t' := fun hc =>
    ⟨hc.entry, hc.apart, fun x hx => ⟨(hc.new x hx).1, Nat.lt_of_lt_of_le (hc.new x hx).2 hnm⟩,
      hc.claim, hc.own⟩
  cases hm with
  | rest => exact ⟨xs, hmono h, by simp⟩
  | taken hn hi ha =>
    obtain ⟨hc, hstray⟩ := h.taken hfirst hn hi ha
    exact ⟨_, hc, by simpa using hstray⟩
  | settled => exact absurd rfl (hs _)
  | givenBack hi hx =>
    obtain ⟨ys, hc, hstray⟩ := h.givenBack hi hx
    exact ⟨ys, hmono hc, by simpa using hstray⟩
  | overrun hi hx =>
    obtain ⟨hc, hstray⟩ := h.overrun hi
    exact ⟨xs, hmono hc, by simpa using hstray⟩
  | vacated => exact absurd rfl hv

/-- When all calls have ended the name is back just if no stray is left. -/
theorem Chain.back_iff (h : Chain base first n xs t) (hbase : ∀ x, base = some x → x < first)
    (hnone : ∀ i, t.claim i = none) : t.entry = base ↔ ¬Stray xs t := by
  cases xs with
  | nil =>
    have he : t.entry = base := h.entry
    simp [he, Stray]
  | cons x xs =>
    have he : t.entry = some x := h.entry
    have hstray : Stray (x :: xs) t := ⟨x, by simp, fun i a => by simp [hnone i]⟩
    simp only [hstray, not_true_eq_false, iff_false, he]
    intro hb
    exact Nat.lt_irrefl x (Nat.lt_of_lt_of_le (hbase x hb.symm) (h.new x (by simp)).1)

end Tenure

/-! ## The names of a client -/

namespace Names

open Tenure (Turn)

variable {n : Names} {c d : ConnectionId} {name other : String} {i : CallId} {x : ConsumerId}

/-- Who has a name of a connection, and which calls have claimed it. -/
def tenure (n : Names) (c : ConnectionId) (name : String) : Tenure where
  entry := n.entry c name
  claim i := (n.errand i).bind (·.claimOf? c name)

/-- A call that goes on changes what it claims of a name. -/
theorem tenure_assign (n : Names) (i : CallId) (e : Option Errand) (c : ConnectionId)
    (name : String) :
    (n.assign i e).tenure c name = (n.tenure c name).assign i (e.bind (·.claimOf? c name)) := by
  have hc : ∀ j, ((n.assign i e).errand j).bind (·.claimOf? c name) =
      if i = j then e.bind (·.claimOf? c name) else (n.errand j).bind (·.claimOf? c name) := by
    intro j
    rw [errand_assign]
    split <;> rfl
  rw [tenure, funext hc]
  rfl

theorem tenure_enter_self (n : Names) (c : ConnectionId) (name : String) (x : Option ConsumerId) :
    (n.enter c name x).tenure c name = (n.tenure c name).enter x := by
  rw [tenure, entry_enter, if_pos ⟨rfl, rfl⟩]
  rfl

theorem tenure_enter_ne (h : ¬(d = c ∧ other = name)) (n : Names) (x : Option ConsumerId) :
    (n.enter d other x).tenure c name = n.tenure c name := by
  rw [tenure, entry_enter, if_neg h]
  rfl

theorem tenure_claim {e : Errand} (hi : n.errand i = some e) :
    (n.tenure c name).claim i = e.claimOf? c name := by
  simp [tenure, hi]

/-- A call that goes on about the same claim. -/
theorem tenure_goesOn {e e' : Errand} (hi : n.errand i = some e)
    (h : e'.claimOf? c name = e.claimOf? c name) :
    (n.assign i (some e')).tenure c name = n.tenure c name := by
  rw [tenure_assign]
  exact Tenure.assign_eq_self ((tenure_claim hi).trans h.symm)

/-- The errand of a call about another name, or about none, ends. -/
theorem tenure_done {e : Errand} (hi : n.errand i = some e) (h : e.claimOf? c name = none) :
    (n.assign i none).tenure c name = n.tenure c name := by
  rw [tenure_assign]
  exact Tenure.assign_eq_self ((tenure_claim hi).trans h)

/-- A name that is unsubscribed has no consumer. -/
theorem Move.vacates {A : SessionId → Option (ConnectionId × Nat)}
    {O : ConnectionId → Nat → Bool} {D : ConsumerId → Option Destination} {m : Names}
    {s : SessionId} (hm : Move A O D (.call (.unsubscribe s other)) n m) :
    ∃ d k, A s = some (d, k) ∧ ∀ c name,
      (d = c ∧ other = name ∧ m.tenure c name = (n.tenure c name).enter none) ∨
        m.tenure c name = n.tenure c name := by
  cases hm with
  | @remove _ i s d k name x failure after hi ha hx =>
    refine ⟨d, k, ha, fun c name' => ?_⟩
    -- The call claims nothing, before or after.
    have hsame : ((n.enter d other none).assign i (some
        ⟨d, k, other, .unsubscribe, .before failure after⟩)).tenure c name' =
        (n.enter d other none).tenure c name' := by
      rw [tenure_assign]
      refine Tenure.assign_eq_self ?_
      have hn : ((n.enter d other none).tenure c name').claim i = none := by
        simp [tenure, hi]
      rw [hn]
      simp [Errand.claimOf?, Deed.claim?]
    rw [hsame]
    by_cases hkey : d = c ∧ other = name'
    · obtain ⟨rfl, rfl⟩ := hkey
      exact .inl ⟨rfl, rfl, tenure_enter_self n d other none⟩
    · exact .inr (tenure_enter_ne hkey n none)

/-- A call that goes on, between two states in which the consumers below `p` and `q` are there,
takes no name and unsubscribes none. -/
structure Resumed (i : CallId) (p q : Nat) (n m : Names) (c : ConnectionId) (name : String)
    (k : Turn) : Prop where
  move : Tenure.Move p q k (n.tenure c name) (m.tenure c name)
  taken : ∀ j, k ≠ .taken j
  vacated : k ≠ .vacated
  overrun : ∀ j, k = .overrun j → j = i
  settled : ∀ j, k = .settled j → j = i ∧ ∃ e x a topic reply, n.errand i = some e ∧
    e.deed = .declare x a topic ∧ e.stage.reply? = some reply ∧ reply.result = .ok ()

/-- What becomes of a name when a call about durable names goes on. -/
theorem Move.resumed {A : SessionId → Option (ConnectionId × Nat)} {O : ConnectionId → Nat → Bool}
    {D : ConsumerId → Option Destination} {m : Names} (hm : Move A O D (.run (.call i)) n m)
    (p q : Nat) (c : ConnectionId) (name : String) : ∃ k, Resumed i p q n m c name k := by
  -- A move about another name leaves this tenure as it is.
  have hrest : m.tenure c name = n.tenure c name → ∃ k, Resumed i p q n m c name k :=
    fun h => ⟨.rest, h ▸ .rest _, by simp, by simp, by simp, by simp⟩
  cases hm with
  | @perform _ i e after hi hs ho =>
    exact hrest (tenure_goesOn (n := n.bind e.connection e.channel e.name e.deed.topic?) hi rfl)
  | refuse hi hs ho => exact hrest (tenure_goesOn hi rfl)
  | redeclare hi hdeed hx hr hok =>
    exact hrest (tenure_goesOn hi (by simp [Errand.claimOf?, hdeed, Deed.claim?]))
  | @declared _ i e x a topic reply hi hdeed hr hok =>
    by_cases hkey : e.connection = c ∧ e.name = name
    · have hclaim : (n.tenure c name).claim i = some (x, a) := by
        rw [tenure_claim hi, Errand.claimOf?, if_pos hkey, hdeed]
        rfl
      refine ⟨.settled i, ?_, by simp, by simp, by simp, ?_⟩
      · rw [tenure_assign]
        exact .settled hclaim
      · rintro j ⟨⟩
        exact ⟨rfl, e, x, a, topic, reply, hi, hdeed, hr, hok⟩
    · exact hrest (tenure_done hi (if_neg hkey))
  | @abandon _ i e x a reply f hi hdeed hr hf =>
    by_cases hkey : e.connection = c ∧ e.name = name
    · obtain ⟨rfl, rfl⟩ := hkey
      have hclaim : (n.tenure e.connection e.name).claim i = some (x, a) := by
        rw [tenure_claim hi, Errand.claimOf?, if_pos ⟨rfl, rfl⟩]
        rcases hdeed with hdeed | ⟨topic, hdeed⟩ <;> rw [hdeed] <;> rfl
      -- Whether the entry is still its own decides if a rollback gives it back or finds it overrun.
      by_cases hx : n.entry e.connection e.name = some x
      · refine ⟨.givenBack, ?_, by simp, by simp, by simp, by simp⟩
        rw [tenure_assign, Names.abandon, if_pos hx, tenure_enter_self]
        exact .givenBack hclaim hx
      · refine ⟨.overrun i, ?_, by simp, by simp, by rintro j ⟨⟩; rfl, by simp⟩
        rw [tenure_assign, Names.abandon, if_neg hx]
        exact .overrun hclaim hx
    · have hother : (n.abandon e.connection e.name x a).tenure c name = n.tenure c name := by
        unfold Names.abandon
        split
        · exact tenure_enter_ne hkey n _
        · rfl
      have he : (n.abandon e.connection e.name x a).errand i = some e := by
        unfold Names.abandon
        split <;> exact hi
      exact hrest ((tenure_done he (if_neg hkey)).trans hother)
  | unsubscribed hi hdeed hr =>
    exact hrest (tenure_done hi (by simp [Errand.claimOf?, hdeed, Deed.claim?]))

end Names

namespace System

open Tenure (Turn)

variable {w v u : System} {c : ConnectionId} {name : String} {i : CallId} {l : Label}
  {ls : List Label}

/-- Who has a name of a connection, and which calls have claimed it. -/
def tenure (w : System) (c : ConnectionId) (name : String) : Tenure := w.names.tenure c name

/-- The consumer for which a call has claimed a name, as long as the call goes on. -/
def claimant? (w : System) (c : ConnectionId) (name : String) (i : CallId) : Option ConsumerId :=
  ((w.tenure c name).claim i).map Prod.fst

/-- Whether a call that gives up its claim of a name in a step finds its own consumer there. -/
def keepsClaim (w : System) (c : ConnectionId) (name : String) : Label → Bool
  | .run (.call i) =>
    match w.claimant? c name i, w.resume? i with
    | some x, some v => (v.claimant? c name i).isSome || w.entry c name = some x
    | _, _ => true
  | _ => true

/-- A step of a client is a turn of a name. -/
structure Turned (w v : System) (c : ConnectionId) (name : String) (l : Label) (k : Turn) : Prop
    where
  move : Tenure.Move w.consumers.length v.consumers.length k (w.tenure c name) (v.tenure c name)
  /-- A call whose claim is settled does not fail at the broker. -/
  settled : ∀ i, k = .settled i →
    ∃ o, v.progress? i = some (.ended o) ∧ ∀ f, o ≠ .error (.transport f)
  taken : ∀ i, k = .taken i → i = w.calls.length
  vacated : k = .vacated → ∃ s, l = .call (.unsubscribe s name) ∧ w.isOn c s = true
  overrun : ∀ i, k = .overrun i → l = .run (.call i)

theorem turned_rest (h : v.tenure c name = w.tenure c name) : Turned w v c name l .rest :=
  ⟨h ▸ .rest _, by simp, by simp, by simp, by simp⟩

/-- A step that leaves all names alone is one for each of them. -/
theorem turned_of_names (h : v.names = w.names) : Turned w v c name l .rest :=
  turned_rest (by rw [tenure, h, tenure])

/-- A call whose declaration the broker has confirmed ends, and not with a failure of the broker. -/
theorem ended_of_declared (hw : w.Wired) (hs : w.resume? i = some v) {e : Errand}
    (hi : w.names.errand i = some e) {x : ConsumerId} {a : Claim} {topic : String}
    (hdeed : e.deed = .declare x a topic) {reply : Reply} (hr : e.stage.reply? = some reply)
    (hok : reply.result = .ok ()) :
    ∃ o, v.progress? i = some (.ended o) ∧ ∀ f, o ≠ .error (.transport f) := by
  obtain ⟨p, hp, hpe⟩ := Option.bind_eq_some_iff.1 hi
  obtain ⟨g, rfl⟩ : ∃ g, p = .exchange g := by
    cases p with
    | exchange g => exact ⟨g, rfl⟩
    | _ => cases hpe
  obtain ⟨s, n, hg⟩ := Exchange.goal_of_declare hpe hdeed
  have hst : g.stage = e.stage := (Exchange.stage_of_errand hpe).symm
  obtain ⟨y, _, hf⟩ := hw.fits hp
  simp only [Progress.Fits, Exchange.Fits, hg] at hf
  rcases resume_exchange hp hs with ⟨reply', _, hst', rfl⟩ | ⟨after, _, hst', _⟩ | ⟨_, hl, _⟩
  · obtain rfl : reply' = reply := by
      rcases hst' with ⟨f, after, hst', rfl⟩ | hst' <;> rw [← hst, hst'] at hr <;> cases hr <;> rfl
    have hlt : i < (w.adopt s x).2.calls.length := by simpa using lt_of_progress hp
    simp only [resolve, hg, hok]
    split
    next hadopt =>
      rw [hadopt] at hlt
      exact ⟨_, progress_setCall_self hlt _, by simp⟩
    next hadopt =>
      -- Only a session that is closed does not take the consumer.
      rw [hadopt] at hlt
      refine ⟨_, progress_setCall_self hlt _, fun f hf => ?_⟩
      unfold adopt at hadopt
      split at hadopt <;> cases hadopt
      cases hf
  · rw [← hst, hst'] at hr
    cases hr
  · rw [hf.1] at hl
    cases hl

/-- A call that creates a durable subscriber takes the name, or is refused and leaves it alone. -/
theorem turned_subscribe (hw : w.Wired) {s : SessionId} (hs : s < w.sessions.length)
    (d : Destination) (other : String) (c : ConnectionId) (name : String) :
    ∃ k, Turned w (w.call (.subscribe s d other)).2 c name (.call (.subscribe s d other)) k := by
  have hnew : w.names.errand w.calls.length = none := by
    simp [names, progress?]
  have hidle : (w.enlist (.subscribe s d other)).names.errand w.calls.length = none := by
    rw [names_enlist, hnew]
  have hnone : (w.tenure c name).claim w.calls.length = none := by
    simp [tenure, Names.tenure, hnew]
  -- A claim either fails before it changes anything or enters its consumer for the name.
  rcases names_claim (onward_enlist hw (.subscribe s d other)).wired hs (by simp) hidle d with
    he | ⟨_, a, deed, failure, after, ha, hdeed, hcons, hn⟩
  · exact ⟨_, turned_of_names (he.trans (names_enlist w _))⟩
  · have hn : (w.call (.subscribe s d other)).2.names =
        (w.names.enter (w.session s).connection other (some w.consumers.length)).assign
          w.calls.length (some ⟨(w.session s).connection, (w.session s).channel, other, deed,
            .before failure after⟩) := by
      rw [← names_enlist w (.subscribe s d other)]
      exact hn
    have ht := congrArg (fun n : Names => n.tenure c name) hn
    simp only [Names.tenure_assign, Option.bind_some] at ht
    by_cases hkey : (w.session s).connection = c ∧ other = name
    · obtain ⟨rfl, rfl⟩ := hkey
      have hclaim : deed.claim? = some (w.consumers.length, a) := by
        rcases hdeed with rfl | rfl <;> rfl
      rw [Names.tenure_enter_self, Errand.claimOf?, if_pos ⟨rfl, rfl⟩, hclaim] at ht
      have hlt : w.consumers.length < (w.call (.subscribe s d other)).2.consumers.length := by
        rw [call_eq, begin, hcons]
        simp
      refine ⟨.taken w.calls.length, ?_, by simp, by simp, by simp, by simp⟩
      rw [show (w.call (.subscribe s d other)).2.tenure _ other = _ from ht]
      exact .taken hlt hnone ha
    · rw [Names.tenure_enter_ne hkey, Errand.claimOf?, if_neg hkey] at ht
      exact ⟨_, turned_rest (ht.trans (Tenure.assign_eq_self hnone))⟩

/-- Every step of a client whose registrations are changed through sessions only is a turn of each
name. -/
theorem turned_step (hw : w.Wired) (hl : l.throughSessions = true) (hs : w.step? l = some v)
    (c : ConnectionId) (name : String) : ∃ k, Turned w v c name l k := by
  have hnames := names_step hw hl hs
  cases l with
  | call y =>
    cases y with
    | subscribe s d other =>
      obtain ⟨hy, rfl⟩ := step_call hs
      exact turned_subscribe hw (lt_of_holdsSession hy) d other c name
    | unsubscribe s other =>
      rcases hnames with he | hm
      · exact ⟨_, turned_of_names he⟩
      · obtain ⟨d, k, ha, hm⟩ := hm.vacates
        rcases hm c name with ⟨rfl, rfl, ht⟩ | ht
        · refine ⟨.vacated, ?_, by simp, by simp, fun _ => ⟨s, rfl, isOn_of_address ha⟩, by simp⟩
          rw [show v.tenure d other = (w.tenure d other).enter none from ht]
          exact .vacated
        · exact ⟨_, turned_rest ht⟩
    | _ =>
      rcases hnames with he | hm
      · exact ⟨_, turned_of_names he⟩
      · nomatch hm
  | run b =>
    cases b with
    | dispatcher s =>
      rcases hnames with he | hm
      · exact ⟨_, turned_of_names he⟩
      · nomatch hm
    | call i =>
      rcases hnames with he | hm
      · exact ⟨_, turned_of_names he⟩
      · obtain ⟨k, hk⟩ := hm.resumed w.consumers.length v.consumers.length c name
        refine ⟨k, hk.move, fun j hj => ?_, fun j hj => absurd hj (hk.taken j),
          fun hj => absurd hj hk.vacated, fun j hj => ?_⟩
        · obtain ⟨rfl, e, x, a, topic, reply, hi, hdeed, hr, hok⟩ := hk.settled j hj
          exact ended_of_declared hw hs hi hdeed hr hok
        · rw [hk.overrun j hj]
  | _ =>
    rcases hnames with he | hm
    · exact ⟨_, turned_of_names he⟩
    · nomatch hm

/-! ## Runs -/

/-- Whether a call creates a durable subscriber for a name of a connection. -/
def subscribesTo (w : System) (c : ConnectionId) (name : String) : Call → Bool
  | .subscribe s _ other => w.isOn c s && other = name
  | _ => false

/-- Whether a call unsubscribes a name of a connection. -/
def unsubscribesFrom (w : System) (c : ConnectionId) (name : String) : Call → Bool
  | .unsubscribe s other => w.isOn c s && other = name
  | _ => false

/-- A call that has claimed a name creates a subscriber for it, and has not ended. -/
theorem Wired.subscribes_of_claim (hw : w.Wired) {p : ConsumerId × Claim}
    (h : (w.tenure c name).claim i = some p) :
    ∃ t : Task, w.calls[i]? = some t ∧ w.subscribesTo c name t.call = true ∧
      ∀ o, t.progress ≠ .ended o := by
  obtain ⟨e, he, hp⟩ := Option.bind_eq_some_iff.1 h
  obtain ⟨q, hq, hqe⟩ := Option.bind_eq_some_iff.1 he
  obtain ⟨t, ht, rfl⟩ := task_of_progress hq
  refine ⟨t, ht, ?_, fun o ho => by rw [ho] at hqe; cases hqe⟩
  obtain ⟨rfl, rfl⟩ : e.connection = c ∧ e.name = name := by
    by_contra hne
    rw [Errand.claimOf?, if_neg hne] at hp
    cases hp
  rw [Errand.claimOf?, if_pos ⟨rfl, rfl⟩] at hp
  obtain ⟨s, ha, ⟨⟨d, hy⟩, _⟩ | ⟨_, hdeed⟩⟩ := hw.call_of_errand he (isCall_of_getElem? ht)
  · rw [hy]
    simp [subscribesTo, isOn_of_address ha]
  · rw [hdeed] at hp
    cases hp

/-- A call for a name stays one for it. -/
theorem subscribesTo_mono {ys : List Call} (hg : w.outline.Grows ys v.outline) {y : Call}
    (h : w.subscribesTo c name y = true) : v.subscribesTo c name y = true := by
  cases y with
  | subscribe s d other =>
    simp only [subscribesTo, Bool.and_eq_true] at h ⊢
    exact ⟨isOn_mono hg h.1, h.2⟩
  | _ => cases h

/-- None of the calls from `first` on unsubscribes a name, and those that create a subscriber for it
fail at the broker if they end. -/
structure AllFail (w : System) (c : ConnectionId) (name : String) (first : CallId) : Prop where
  kept : ∀ {i y}, first ≤ i → w.outline.calls[i]? = some y → w.unsubscribesFrom c name y = false
  failed : ∀ {i y o}, first ≤ i → w.outline.calls[i]? = some y →
    w.subscribesTo c name y = true → w.progress? i = some (.ended o) →
      ∃ f, o = .error (.transport f)

/-- What holds of the calls later held of them before. -/
theorem AllFail.before {first : CallId} (hw : w.Wired) (hs : w.step? l = some v)
    (h : v.AllFail c name first) : w.AllFail c name first := by
  have hg := (onward_step hw hs).grows
  constructor
  · intro i y hi hy
    have hv := h.kept hi (call_mono hg hy)
    cases y with
    | unsubscribe s other =>
      simp only [unsubscribesFrom, Bool.and_eq_false_iff] at hv ⊢
      refine hv.imp_left fun hon => ?_
      by_contra hne
      rw [isOn_mono hg (by simpa using hne)] at hon
      cases hon
    | _ => rfl
  · intro i y o hi hy hsub ho
    exact h.failed hi (call_mono hg hy) (subscribesTo_mono hg hsub) (ended_step hs ho)

/-- Consumers are added and never taken away. -/
theorem consumers_le {ys : List Call} (hg : w.outline.Grows ys v.outline) :
    w.consumers.length ≤ v.consumers.length := by
  have hle := hg.origins.length_le
  simpa [outline] using hle

theorem calls_le {ys : List Call} (hg : w.outline.Grows ys v.outline) :
    w.calls.length ≤ v.calls.length := by
  have hle := congrArg List.length hg.calls
  simp only [outline, List.length_map, List.length_append] at hle
  omega

/-- In every state the consumers that a name knows of are there. -/
theorem known_of_run (h : Run {} ls w) (hl : ∀ l ∈ ls, l.throughSessions = true)
    (c : ConnectionId) (name : String) : (w.tenure c name).Known w.consumers.length := by
  induction h with
  | refl =>
    refine ⟨fun hx => ?_, fun hi => ?_⟩
    · cases hx
    · cases hi
  | @step ls v l u hrun hs ih =>
    obtain ⟨hl, hll⟩ := List.forall_mem_append.1 hl
    have hw := wired_of_run hrun
    obtain ⟨k, hk⟩ := turned_step hw (hll l (List.mem_singleton_self l)) hs c name
    exact (ih hl).move hk.move (consumers_le (onward_step hw hs).grows)

/-- A call gives up its claim without having the name just if it is overrun. -/
theorem Turned.keepsClaim_iff {k : Turn} (h : Turned w v c name l k) (hs : w.step? l = some v)
    (hk : ∀ i, k ≠ .settled i) : (∃ i, k = .overrun i) ↔ w.keepsClaim c name l = false := by
  constructor
  · rintro ⟨i, rfl⟩
    obtain rfl := h.overrun i rfl
    obtain ⟨x, a, hx, hnone, hne⟩ := (h.move.overrun_iff (i := i) hk).1 rfl
    have hne' : w.entry c name ≠ some x := hne
    have hr : w.resume? i = some v := hs
    simp [keepsClaim, claimant?, hx, hr, hnone, hne']
  · intro hfalse
    unfold keepsClaim at hfalse
    split at hfalse
    next i =>
      split at hfalse
      next x u hx hu =>
        obtain rfl : u = v := Option.some.inj (hu.symm.trans hs)
        obtain ⟨⟨y, a⟩, hy, rfl⟩ := Option.map_eq_some_iff.1 hx
        obtain ⟨hnone, hne⟩ := by simpa [claimant?] using hfalse
        exact ⟨i, (h.move.overrun_iff hk).2 ⟨y, a, hy, hnone, hne⟩⟩
      next => cases hfalse
    next => cases hfalse

/-- No call has claimed a name once all that create subscribers for it have ended. -/
theorem Wired.claims_nothing (hw : w.Wired)
    (hrest : ∀ t ∈ w.calls, w.subscribesTo c name t.call = true → t.progress.isEnded = true)
    (i : CallId) : (w.tenure c name).claim i = none := by
  by_contra hne
  obtain ⟨p, hp⟩ := Option.ne_none_iff_exists'.1 hne
  obtain ⟨t, ht, hsub, hgoing⟩ := hw.subscribes_of_claim hp
  obtain ⟨o, ho⟩ := Progress.isEnded_iff.1 (hrest t (List.mem_of_getElem? ht) hsub)
  exact hgoing o ho

/-- A call that has claimed nothing when another run begins claims nothing in it. -/
theorem unclaimed_of_run {ms : List Label} (hv : v.Wired)
    (hl : ∀ l ∈ ms, l.throughSessions = true) (hms : Run v ms w)
    (hnone : (v.tenure c name).claim i = none) (hi : i < v.calls.length) :
    (w.tenure c name).claim i = none := by
  induction hms with
  | refl => exact hnone
  | @step ms u l w hms hs ih =>
    obtain ⟨hl, hll⟩ := List.forall_mem_append.1 hl
    have hon := hms.onward hv
    obtain ⟨k, hk⟩ := turned_step hon.wired (hll l (List.mem_singleton_self l)) hs c name
    refine hk.move.unclaimed (ih hl) fun ht => ?_
    rw [hk.taken i ht] at hi
    exact absurd hi (Nat.not_lt.2 (calls_le hon.grows))

/-- The calls about a name that are started after a time when there was none fail one after the
other. Then there is a chain at any time, with a stray in it just if one of them was overrun. -/
theorem chain_of_run {ms : List Label} (hv : v.Wired)
    (hl : ∀ l ∈ ms, l.throughSessions = true) (hnone : ∀ i, (v.tenure c name).claim i = none)
    (hms : Run v ms w) (hall : w.AllFail c name v.calls.length) :
    ∃ xs, Tenure.Chain (v.entry c name) v.consumers.length w.consumers.length xs
        (w.tenure c name) ∧
      (Tenure.Stray xs (w.tenure c name) ↔
        ¬Along (fun u l => u.keepsClaim c name l = true) v ms) := by
  induction hms with
  | refl =>
    refine ⟨[], ⟨rfl, List.nodup_nil, by simp, fun {i x a} hi => ?_, fun {i j x a b} hi => ?_⟩, ?_⟩
    · rw [hnone] at hi
      cases hi
    · rw [hnone] at hi
      cases hi
    · simp [Tenure.Stray, along_nil]
  | @step ms u l w hms hs ih =>
    obtain ⟨hl, hll⟩ := List.forall_mem_append.1 hl
    have hon := hms.onward hv
    have hw := hon.wired
    have hg := (onward_step hw hs).grows
    obtain ⟨xs, hchain, hstray⟩ := ih hl (hall.before hw hs)
    obtain ⟨k, hk⟩ := turned_step hw (hll l (List.mem_singleton_self l)) hs c name
    -- No claim of the run succeeds, so none is settled; and no call removes the name.
    have hsettled : ∀ i, k ≠ .settled i := by
      rintro i rfl
      obtain ⟨o, ho, hne⟩ := hk.settled i rfl
      have hclaim := hk.move.claimed
      have hi : v.calls.length ≤ i := by
        by_contra hlt
        exact hclaim (unclaimed_of_run hv hl hms (hnone i) (Nat.lt_of_not_le hlt))
      obtain ⟨p, hp⟩ := Option.ne_none_iff_exists'.1 hclaim
      obtain ⟨t, ht, hsub, _⟩ := hw.subscribes_of_claim hp
      obtain ⟨f, rfl⟩ := hall.failed hi (call_mono hg (by simp [outline, ht]))
        (subscribesTo_mono hg hsub) ho
      exact hne f rfl
    have hvacated : k ≠ .vacated := by
      rintro rfl
      obtain ⟨s, rfl, hsession⟩ := hk.vacated rfl
      have hcall : w.outline.calls[u.calls.length]? = some (.unsubscribe s name) := by
        rw [hg.calls]
        simp [outline, Label.started]
      have hkept := hall.kept (calls_le hon.grows) hcall
      simp [unsubscribesFrom, isOn_mono hg hsession] at hkept
    obtain ⟨ys, hchain', hstray'⟩ :=
      hchain.move (consumers_le hon.grows) (consumers_le hg) hk.move hsettled hvacated
    refine ⟨ys, hchain', ?_⟩
    rw [hstray', hstray, hk.keepsClaim_iff hs hsettled, hms.along_snoc, not_and_or,
      Bool.not_eq_true]

/-- A durable name of a connection, at a time when no call creates a subscriber for it, and any
number of calls after it that do, on any sessions and with any closes in between, while the register
of names is left to the sessions and nobody unsubscribes the name. If all these calls fail at the
broker, the name is in the end with the consumer that had it before, or with none if it had none,
just if each of them still had the name for its own consumer when it failed. -/
theorem failed_claims_undone_iff {ms : List Label} (h : Run {} ls v) (hms : Run v ms w)
    (hl : ∀ l ∈ ls ++ ms, l.throughSessions = true)
    (hrest : ∀ t ∈ v.calls, v.subscribesTo c name t.call = true → t.progress.isEnded = true)
    (hkept : ∀ t ∈ w.calls.drop v.calls.length, w.unsubscribesFrom c name t.call = false)
    (hfailed : ∀ t ∈ w.calls.drop v.calls.length, w.subscribesTo c name t.call = true →
      t.progress.brokeDown = true) :
    w.entry c name = v.entry c name ↔
      Along (fun u l => u.keepsClaim c name l = true) v ms := by
  obtain ⟨hls, hlms⟩ := List.forall_mem_append.1 hl
  have hv := wired_of_run h
  have hw := (hms.onward hv).wired
  -- At the start nothing is claimed, and at the end all claims have failed: the chain runs from one
  -- resting state to another, so a consumer that stayed is a stray.
  have hnone := hv.claims_nothing hrest
  have hnew : ∀ {i t}, v.calls.length ≤ i → w.calls[i]? = some t →
      t ∈ w.calls.drop v.calls.length := by
    intro i t hi ht
    rw [← Nat.add_sub_cancel' hi, ← List.getElem?_drop] at ht
    exact List.mem_of_getElem? ht
  have htask : ∀ {i : CallId} {y}, w.outline.calls[i]? = some y →
      ∃ t : Task, w.calls[i]? = some t ∧ t.call = y := fun hy => by simpa [outline] using hy
  have hall : w.AllFail c name v.calls.length := by
    constructor
    · intro i y hi hy
      obtain ⟨t, ht, rfl⟩ := htask hy
      exact hkept t (hnew hi ht)
    · intro i y o hi hy hsub ho
      obtain ⟨t, ht, rfl⟩ := htask hy
      obtain ⟨f, hf⟩ := Progress.brokeDown_iff.1 (hfailed t (hnew hi ht) hsub)
      rw [progress?, ht] at ho
      exact ⟨f, Progress.ended.inj ((Option.some.inj ho).symm.trans hf)⟩
  have hend : ∀ i, (w.tenure c name).claim i = none := by
    intro i
    by_cases hi : i < v.calls.length
    · exact unclaimed_of_run hv hlms hms (hnone i) hi
    · by_contra hne
      obtain ⟨p, hp⟩ := Option.ne_none_iff_exists'.1 hne
      obtain ⟨t, ht, hsub, hgoing⟩ := hw.subscribes_of_claim hp
      obtain ⟨f, hf⟩ := Progress.brokeDown_iff.1 (hfailed t (hnew (Nat.le_of_not_lt hi) ht) hsub)
      exact hgoing _ hf
  obtain ⟨xs, hchain, hstray⟩ := chain_of_run hv hlms hnone hms hall
  have hbase : ∀ x, v.entry c name = some x → x < v.consumers.length := fun x hx =>
    (known_of_run h hls c name).entry hx
  have hback : w.entry c name = v.entry c name ↔ ¬Tenure.Stray xs (w.tenure c name) :=
    hchain.back_iff hbase hend
  rw [hback, hstray, not_not]

/-- Two sessions of a connection. -/
def twoSessions : List Label :=
  [.operate .createRegistry, .operate (.connect 0 (.ofMillis 15000) {}),
    .call (.createSession 0 false .auto none), .run (.call 0), .run (.call 0), .take 0,
    .call (.createSession 0 false .auto none), .run (.call 1), .run (.call 1), .take 1]

/-- Each session creates a subscriber for the same name, with call `i` and the one after next, and
closes before the declaration has come to the broker, which takes `d` and `e` milliseconds. -/
def lateClaims (i : CallId) (d e : Nat) : List Label :=
  [.operate (.inject 0 { kind := .declare, channel := some 0, delay := d }),
    .operate (.inject 0 { kind := .declare, channel := some 1, delay := e }),
    .call (.subscribe 0 (.topic "prices") "feed"),
    .call (.closeSession 0), .run (.call (i + 1)), .run (.call (i + 1)),
    .call (.subscribe 1 (.topic "prices") "feed"),
    .call (.closeSession 1), .run (.call (i + 3)), .run (.call (i + 3))]

theorem twoSessions_isSome : (after? {} twoSessions).isSome = true := by decide

def twoSessionsEnd : System := (after? {} twoSessions).get twoSessions_isSome

/-- The call that claimed the name first is the first to fail. -/
def overrun : List Label :=
  lateClaims 2 10 20 ++
    [.tick 10, .run (.call 2), .run (.call 2), .tick 20, .run (.call 4), .run (.call 4)]

theorem overrun_isSome : (twoSessionsEnd.after? overrun).isSome = true := by decide

def overrunEnd : System := (twoSessionsEnd.after? overrun).get overrun_isSome

/-- Both calls fail at the broker, and the name, which nobody had before, is left with the consumer
of the first one. -/
theorem overrun_leaves_consumer :
    Run twoSessionsEnd overrun overrunEnd ∧
    (∀ l ∈ twoSessions ++ overrun, l.throughSessions = true) ∧
    (∀ t ∈ overrunEnd.calls, overrunEnd.unsubscribesFrom 0 "feed" t.call = false) ∧
    (∀ t ∈ overrunEnd.calls, overrunEnd.subscribesTo 0 "feed" t.call = true →
      t.progress.brokeDown = true) ∧
    twoSessionsEnd.entry 0 "feed" = none ∧ overrunEnd.entry 0 "feed" = some 0 :=
  ⟨.of_isSome overrun_isSome, by decide, by decide, by decide, by decide, by decide⟩

/-- A name that a closed consumer has. -/
def outlived : List Label :=
  twoSessions ++ [.call (.subscribe 0 (.topic "prices") "feed"), .run (.call 2), .run (.call 2),
    .operate (.closeConsumer 0)]

theorem outlived_isSome : (after? {} outlived).isSome = true := by decide

def outlivedEnd : System := (after? {} outlived).get outlived_isSome

/-- The call that claimed the name last is the first to fail. -/
def undone : List Label :=
  lateClaims 3 20 10 ++
    [.tick 10, .run (.call 5), .run (.call 5), .tick 20, .run (.call 3), .run (.call 3)]

theorem undone_isSome : (outlivedEnd.after? undone).isSome = true := by decide

def undoneEnd : System := (outlivedEnd.after? undone).get undone_isSome

/-- Two calls took the name from the closed consumer and failed, and it has the name again. -/
theorem undoneEnd_entry :
    outlivedEnd.entry 0 "feed" = some 0 ∧ undoneEnd.consumers.length = 3 ∧
    undoneEnd.entry 0 "feed" = outlivedEnd.entry 0 "feed" := by
  exact ⟨by decide, by decide, (failed_claims_undone_iff (.of_isSome outlived_isSome)
    (.of_isSome undone_isSome) (by decide) (by decide) (by decide) (by decide)).2 (by decide)⟩

end System

end BrokerClient
