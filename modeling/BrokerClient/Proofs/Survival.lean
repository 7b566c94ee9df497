import BrokerClient.Proofs.DurableNames
import BrokerClient.Proofs.FailedClaims

/-!
# Durable subscriptions outlive their consumers

Once a call has created a consumer `x` for a durable name, the name stays registered until somebody
unsubscribes it, whatever is closed and however many other claims of it fail: it is with `x`, or
with a consumer that took it after `x` (`durable_name_survives`).

Consumers are numbered as they are created, and take the name at that moment, so that later means
greater. A claim that fails puts back the consumer before, and may do so at any time, in any order.
What keeps the name from falling below `x` is that no claim of a consumer after `x` remembers
anything before `x` (`Tenure.HeldFrom`). While the call of `x` goes on this may still go wrong, for
the name may be unsubscribed and taken anew; but then it never comes back to `x` (`Tenure.NotBefore`
with a bound above `x`), so that `x` does not have it when its call has ended.

`Standing` is the disjunction of the two, and it is what every move keeps (`Standing.move`). That
the call of `x` itself succeeds is used once: when it ends, the name is where it was
(`not_subscribed_call`, `standing_of_run`), and from then on only an unsubscribing call could take
the name away.
-/

namespace BrokerClient

namespace Tenure

variable {n m : Nat} {k : Turn} {t u : Tenure} {i : CallId} {b x : ConsumerId}
  {xs : List ConsumerId}

/-- Nothing before `b` has the name, nor gets it back when a claim of a consumer from `b` on
fails. -/
structure NotBefore (b : ConsumerId) (t : Tenure) : Prop where
  entry : ∀ y, t.entry = some y → b ≤ y
  previous : ∀ {i y a p}, t.claim i = some (y, a) → b ≤ y → a.previous? = some p → b ≤ p

/-- The name is with `x` or with a later consumer, and it stays so when a claim of one after `x`
fails. -/
structure HeldFrom (x : ConsumerId) (t : Tenure) : Prop where
  entry : ∃ y, t.entry = some y ∧ x ≤ y
  previous : ∀ {i y a}, t.claim i = some (y, a) → x < y → ∃ p, a.previous? = some p ∧ x ≤ p

/-- Whoever takes the name is new, and whoever gets it back had it since `b`. -/
theorem NotBefore.move (h : NotBefore b t) (hm : Move n m k t u) (hb : b ≤ n) :
    NotBefore b u := by
  cases hm with
  | rest => exact h
  | @taken _ i a hn hi ha =>
    refine ⟨fun y hy => ?_, fun {j y a p} hj hy hp => ?_⟩
    · obtain rfl : n = y := Option.some.inj hy
      exact hb
    · rw [claim_assign] at hj
      split at hj
      · cases hj
        exact h.entry p (ha ▸ hp)
      · exact h.previous hj hy hp
  | settled hi => exact ⟨h.entry, fun hj => h.previous (claim_of_released hj).2⟩
  | overrun hi hx => exact ⟨h.entry, fun hj => h.previous (claim_of_released hj).2⟩
  | givenBack hi hx =>
    exact ⟨fun p hp => h.previous hi (h.entry _ hx) hp,
      fun hj => h.previous (claim_of_released hj).2⟩
  | vacated => exact ⟨nofun, h.previous⟩

/-- The call of `x` itself may end, as long as it leaves the name where it is. -/
theorem HeldFrom.move (h : HeldFrom x t) (hm : Move n m k t u) (hx : x < n) (hk : k ≠ .vacated)
    (hown : ∀ {i a}, t.claim i = some (x, a) → u.claim i = none → u.entry = t.entry) :
    HeldFrom x u := by
  cases hm with
  | rest => exact h
  | @taken _ i a hn hi ha =>
    refine ⟨⟨n, rfl, Nat.le_of_lt hx⟩, fun {j y b} hj hy => ?_⟩
    rw [claim_assign] at hj
    split at hj
    · cases hj
      rw [ha]
      exact h.entry
    · exact h.previous hj hy
  | settled hi => exact ⟨h.entry, fun hj => h.previous (claim_of_released hj).2⟩
  | overrun hi hx => exact ⟨h.entry, fun hj => h.previous (claim_of_released hj).2⟩
  | @givenBack _ i y a hi hy =>
    refine ⟨?_, fun hj => h.previous (claim_of_released hj).2⟩
    obtain ⟨z, hz, hle⟩ := h.entry
    obtain rfl : y = z := Option.some.inj (hy.symm.trans hz)
    rcases Nat.eq_or_lt_of_le hle with rfl | hlt
    · exact ⟨x, (hown hi (by simp)).trans hy, hle⟩
    · exact h.previous hi hlt
  | vacated => exact absurd rfl hk

/-- What is claimed was claimed before, or in this step for a new consumer. -/
theorem Move.claim_cases (hm : Move n m k t u) {a : Claim} (hi : u.claim i = some (x, a)) :
    t.claim i = some (x, a) ∨ u = (t.enter (some n)).assign i (some (n, a)) ∧ x = n := by
  cases hm with
  | rest => exact .inl hi
  | taken =>
    rw [claim_assign] at hi
    split at hi
    next hij =>
      cases hi
      exact .inr ⟨by rw [hij], rfl⟩
    next => exact .inl hi
  | settled => exact .inl (claim_of_released hi).2
  | overrun => exact .inl (claim_of_released hi).2
  | givenBack => exact .inl (claim_of_released hi).2
  | vacated => exact .inl hi

theorem Move.entry_of_vacated (hm : Move n m .vacated t u) : u.entry = none := by
  cases hm
  rfl

/-! ## The consumers that took a name -/

/-- `xs` are the consumers that took a name, in order: whoever has it is one of them, or will get it
back. -/
structure Recorded (n : Nat) (xs : List ConsumerId) (t : Tenure) : Prop where
  ascending : xs.Pairwise (· < ·)
  lt : ∀ y ∈ xs, y < n
  entry : ∀ y, t.entry = some y → y ∈ xs
  claim : ∀ {i y a}, t.claim i = some (y, a) → y ∈ xs ∧ ∀ p, a.previous? = some p → p ∈ xs

theorem Recorded.mono (h : Recorded n xs t) (hnm : n ≤ m) : Recorded m xs t :=
  ⟨h.ascending, fun y hy => Nat.lt_of_lt_of_le (h.lt y hy) hnm, h.entry, h.claim⟩

theorem Recorded.claim_lt (h : Recorded n xs t) {a : Claim} (hi : t.claim i = some (x, a)) :
    x < n :=
  h.lt x (h.claim hi).1

/-- A consumer that takes the name comes last. -/
theorem Recorded.taken (h : Recorded n xs t) (hn : n < m) {a : Claim}
    (ha : a.previous? = t.entry) :
    Recorded m (xs ++ [n]) ((t.enter (some n)).assign i (some (n, a))) := by
  refine ⟨?_, fun y hy => ?_, fun y hy => ?_, fun {j y b} hj => ?_⟩
  · refine List.pairwise_append.2 ⟨h.ascending, List.pairwise_singleton _ n, fun y hy z hz => ?_⟩
    rw [List.mem_singleton.1 hz]
    exact h.lt y hy
  · rcases List.mem_append.1 hy with hy | hy
    · exact Nat.lt_trans (h.lt y hy) hn
    · rw [List.mem_singleton.1 hy]
      exact hn
  · obtain rfl : n = y := Option.some.inj hy
    exact List.mem_append_right xs (List.mem_singleton_self n)
  · rw [claim_assign] at hj
    split at hj
    · cases hj
      exact ⟨List.mem_append_right xs (List.mem_singleton_self n),
        fun p hp => List.mem_append_left _ (h.entry p (ha ▸ hp))⟩
    · obtain ⟨hy, hp⟩ := h.claim hj
      exact ⟨List.mem_append_left _ hy, fun p hq => List.mem_append_left _ (hp p hq)⟩

/-- Nothing else brings a new consumer in. -/
theorem Recorded.kept (h : Recorded n xs t) (hm : Move n m k t u) (hk : ∀ i, k ≠ .taken i) :
    Recorded n xs u := by
  cases hm with
  | rest => exact h
  | taken => exact absurd rfl (hk _)
  | settled hi => exact ⟨h.ascending, h.lt, h.entry, fun hj => h.claim (claim_of_released hj).2⟩
  | overrun hi hx => exact ⟨h.ascending, h.lt, h.entry, fun hj => h.claim (claim_of_released hj).2⟩
  | givenBack hi hx =>
    exact ⟨h.ascending, h.lt, (h.claim hi).2, fun hj => h.claim (claim_of_released hj).2⟩
  | vacated => exact ⟨h.ascending, h.lt, nofun, h.claim⟩

/-- After any move the one that took the name, if one did, is the last of them. -/
theorem Recorded.move (h : Recorded n xs t) (hm : Move n m k t u) (hnm : n ≤ m) :
    Recorded m (xs ++ (if u.entry = some n then some n else none).toList) u := by
  by_cases hk : ∃ i, k = .taken i
  · obtain ⟨i, rfl⟩ := hk
    cases hm with
    | taken hn hi ha =>
      rw [entry_assign, entry_enter, if_pos rfl]
      exact h.taken hn ha
  · have hu := h.kept hm fun i hi => hk ⟨i, hi⟩
    have hn : u.entry ≠ some n := fun he => Nat.lt_irrefl n (hu.lt n (hu.entry n he))
    rw [if_neg hn, Option.toList_none, List.append_nil]
    exact hu.mono hnm

/-! ## Where a consumer stands that has the name, or had it -/

/-- Either nothing falls below `x`, or the name was given up since, and does not come back to `x`.
-/
def Standing (x : ConsumerId) (n : Nat) (t : Tenure) : Prop :=
  HeldFrom x t ∨ ∃ b, x < b ∧ b ≤ n ∧ NotBefore b t

/-- Unsubscribing is the only way off, and from then on only consumers that are new take the name.
-/
theorem Standing.move (h : Standing x n t) (hr : Recorded n xs t) (hm : Move n m k t u)
    (hnm : n ≤ m) (hx : x < n)
    (hown : ∀ {i a}, t.claim i = some (x, a) → u.claim i = none → u.entry = t.entry) :
    Standing x m u := by
  rcases h with h | ⟨b, hxb, hbn, h⟩
  · by_cases hk : k = .vacated
    · -- From now on only new consumers take the name.
      subst hk
      cases hm with
      | vacated =>
        refine .inr ⟨n, hx, hnm, ⟨nofun, fun {i y a p} hi hy => ?_⟩⟩
        exact absurd (hr.claim_lt hi) (Nat.not_lt.2 hy)
    · exact .inl (h.move hm hx hk hown)
  · exact .inr ⟨b, hxb, Nat.le_trans hbn hnm, h.move hm hbn⟩

/-- A consumer that takes the name is the last one. -/
theorem Recorded.standing (h : Recorded n xs t) {a : Claim} :
    Standing n m ((t.enter (some n)).assign i (some (n, a))) := by
  refine .inl ⟨⟨n, rfl, Nat.le_refl n⟩, fun {j y b} hj hy => ?_⟩
  rw [claim_assign] at hj
  split at hj
  · cases hj
    exact absurd hy (Nat.lt_irrefl n)
  · exact absurd (h.claim_lt hj) (Nat.not_lt.2 (Nat.le_of_lt hy))

/-- While `x` has the name nothing falls below it. -/
theorem Standing.heldFrom (h : Standing x n t) (hx : t.entry = some x) : HeldFrom x t := by
  rcases h with h | ⟨b, hxb, _, h⟩
  · exact h
  · exact absurd (h.entry x hx) (Nat.not_le.2 hxb)

end Tenure

namespace System

open Tenure (Turn)

variable {w v u : System} {c : ConnectionId} {name : String} {i j : CallId} {x : ConsumerId}
  {l : Label} {ls ms : List Label}

/-! ## Who took a name in a run -/

/-- The new consumer that has a name after a step, if one has. -/
def taker? (c : ConnectionId) (name : String) (a : System × Label) : Option ConsumerId :=
  let new := a.1.consumers.length
  (a.1.step? a.2).bind fun v => if v.entry c name = some new then some new else none

/-- The consumers that took a name in a run, in order. -/
def takers (w : System) (c : ConnectionId) (name : String) (ls : List Label) : List ConsumerId :=
  (w.steps ls).filterMap (taker? c name)

/-- A step adds the consumer that takes the name in it. -/
theorem takers_snoc (h : Run w ls v) (hs : v.step? l = some u) (c : ConnectionId) (name : String) :
    w.takers c name (ls ++ [l]) = w.takers c name ls ++
      (if u.entry c name = some v.consumers.length then some v.consumers.length
        else none).toList := by
  rw [takers, h.filterMap_snoc, taker?, hs]
  rfl

/-- In every state whoever has a name is one of those that took it in the run. -/
theorem recorded_of_run (h : Run {} ls w) (hl : ∀ l ∈ ls, l.throughSessions = true)
    (c : ConnectionId) (name : String) :
    (w.tenure c name).Recorded w.consumers.length (takers {} c name ls) := by
  induction h with
  | refl =>
    refine ⟨List.Pairwise.nil, fun y hy => ?_, fun y hy => ?_, fun hi => ?_⟩
    · cases hy
    · cases hy
    · cases hi
  | @step ls v l u hrun hs ih =>
    obtain ⟨hl, hll⟩ := List.forall_mem_append.1 hl
    have hw := wired_of_run hrun
    obtain ⟨k, hk⟩ := turned_step hw (hll l (List.mem_singleton_self l)) hs c name
    rw [takers_snoc hrun hs]
    exact (ih hl).move hk.move (consumers_le (onward_step hw hs).grows)

/-! ## Calls with a consumer for a name -/

/-- A call has claimed a name for `x`, or has ended with `x` as its consumer. -/
def ClaimedFor (w : System) (c : ConnectionId) (name : String) (x : ConsumerId) (i : CallId) :
    Prop :=
  (∃ a, (w.tenure c name).claim i = some (x, a)) ∨ w.Subscribed i c name x

/-- What a call has claimed is known from where it stands. -/
theorem claim_congr (h : v.progress? i = w.progress? i) :
    (v.tenure c name).claim i = (w.tenure c name).claim i := by
  simp only [tenure, Names.tenure, names, h]

/-- A call that has claimed a name waits with the consumer for which it did. -/
theorem stake_of_claim {a : Claim} (h : (w.tenure c name).claim i = some (x, a)) :
    w.stake i = some x := by
  obtain ⟨e, he, hp⟩ := Option.bind_eq_some_iff.1 h
  obtain ⟨p, hq, hqe⟩ := Option.bind_eq_some_iff.1 he
  have hd : e.deed.claim? = some (x, a) := by
    unfold Errand.claimOf? at hp
    split at hp
    · exact hp
    · cases hp
  rw [stake_of_progress hq]
  cases p with
  | exchange g =>
    simp only [Progress.errand?, Exchange.errand?] at hqe
    simp only [Progress.stake]
    split at hqe <;> cases hqe
    next hg hr =>
      cases hd
      rw [hg]
      rfl
    next hg hr =>
      cases hd
      rw [hg]
      rfl
    next hg hr => cases hd
  | _ => cases hqe

/-- The consumer for which a name was claimed belongs to the call. -/
theorem ClaimedFor.stake (h : w.ClaimedFor c name x i) : w.stake i = some x := by
  rcases h with ⟨a, h⟩ | h
  · exact stake_of_claim h
  · exact h.stake

/-- A call that waits for the broker with a consumer of its own has claimed its name. -/
theorem Wired.claim_of_stake (hw : w.Wired) {e : Exchange} (hp : w.progress? i = some (.exchange e))
    (hx : e.goal.stake = some x) {t : Task} (ht : w.calls[i]? = some t) {s : SessionId}
    {d : Destination} (hy : t.call = .subscribe s d name) :
    w.isOn e.connection s = true ∧ ∃ a, (w.tenure e.connection name).claim i = some (x, a) := by
  cases hg : e.goal with
  | retarget s' y n a =>
    obtain ⟨d', k, hcall, _, _, ha, _, he⟩ := hw.errand_retarget hp hg
    cases (hcall t ht).symm.trans hy
    rw [hg] at hx
    cases hx
    refine ⟨isOn_of_address ha, a, ?_⟩
    rw [tenure, Names.tenure_claim he, Errand.claimOf?, if_pos ⟨rfl, rfl⟩]
    rfl
  | declare s' y n a =>
    obtain ⟨d', k, hcall, _, _, ha, _, he⟩ := hw.errand_declare hp hg
    cases (hcall t ht).symm.trans hy
    rw [hg] at hx
    cases hx
    refine ⟨isOn_of_address ha, a, ?_⟩
    rw [tenure, Names.tenure_claim he, Errand.claimOf?, if_pos ⟨rfl, rfl⟩]
    rfl
  | _ =>
    rw [hg] at hx
    cases hx

/-- A call does not end at once with a consumer. -/
theorem not_subscribed_call {s : SessionId} {d : Destination} :
    (w.call (.subscribe s d name)).2.progress? w.calls.length ≠
      some (.ended (.ok (.consumer x))) := by
  rw [call_eq, begin]
  intro hp
  rcases subscribe_effect (w.enlist (.subscribe s d name)) w.calls.length s d name with
    ⟨e, _, he⟩ | ⟨_, _, a, y, z, _, _, ⟨_, he⟩ | he⟩
  · rw [he] at hp
    cases progress_of_setCall hp
  · rw [he, ask_eq] at hp
    cases progress_of_setCall hp
  · rw [he, ask_eq] at hp
    cases progress_of_setCall hp

/-- A call that has ended with a consumer had ended so before, or had claimed the name. -/
theorem Subscribed.before (hw : w.Wired) (hs : w.step? l = some v)
    (h : v.Subscribed i c name x) : w.ClaimedFor c name x i := by
  have hstake := h.stake
  obtain ⟨t, ht, ⟨s, d, hcall, rfl⟩, hp⟩ := h
  have hg := (onward_step hw hs).grows
  have hpv : v.progress? i = some (.ended (.ok (.consumer x))) := by simp [progress?, ht, hp]
  -- The call is an old one, or it begins with this step. A call that just began has not succeeded.
  rcases call_of_step hw hs (i := i) (y := t.call) (by simp [outline, ht]) with hold | ⟨rfl, rfl⟩
  · obtain ⟨t', ht', hcall'⟩ : ∃ t' : Task, w.calls[i]? = some t' ∧ t'.call = t.call := by
      simpa [outline] using hold
    rw [hcall] at hcall'
    by_cases hl : l = .run (.call i)
    · subst hl
      have hr : w.resume? i = some v := hs
      rcases kept_or_abandoned hw hr with hk | ⟨e, y, n, a, f, _, _, rfl⟩
      · obtain ⟨p, hpw, hx⟩ := Option.bind_eq_some_iff.1 (hk.stake i x hstake)
        cases p with
        | exchange e =>
          obtain ⟨hon, a, ha⟩ := hw.claim_of_stake hpw hx ht' hcall'
          rw [(isOn_iff.1 (isOn_mono hg hon)).2]
          exact .inl ⟨a, ha⟩
        | ended o =>
          rw [resume?, hpw] at hr
          cases hr
        | _ => cases hx
      · cases stake_of_setCall hstake
    · have hpw := (progress_step hs (List.getElem?_eq_some_iff.1 ht').1 hl).symm.trans hpv
      have hp' : t'.progress = .ended (.ok (.consumer x)) := by simpa [progress?, ht'] using hpw
      have hf := hw.fit i t' ht'
      rw [hcall', hp'] at hf
      obtain ⟨s', d', n, heq, _, a, ha⟩ := hf
      cases heq
      refine .inr ⟨t', ht', ⟨s, d, hcall', ?_⟩, hp'⟩
      exact (congrArg Prod.fst (address_of_grows hg (lt_of_address ha))).symm
  · obtain ⟨_, rfl⟩ := step_call hs
    rw [hcall] at hpv
    exact absurd hpv not_subscribed_call

/-- A call that goes on and keeps its consumer leaves every name where it is. -/
theorem entry_of_stake (hw : w.Wired) (hs : w.step? l = some v) (hi : w.stake i = some x)
    (hv : v.stake i = some x) (hne : v.progress? i ≠ w.progress? i) (c : ConnectionId)
    (name : String) : v.entry c name = w.entry c name := by
  have hl : l = .run (.call i) := by
    by_contra hl
    obtain ⟨p, hp, _⟩ := Option.bind_eq_some_iff.1 hi
    exact hne (progress_step hs (lt_of_progress hp) hl)
  subst hl
  rcases kept_or_abandoned hw hs with hk | ⟨e, y, n, a, f, _, _, rfl⟩
  · rw [entry, hk.subscriptions, entry]
  · cases stake_of_setCall hv

/-- A consumer for which a name was claimed has a standing there from then on. -/
theorem standing_of_run (h : Run {} ls w) (hl : ∀ l ∈ ls, l.throughSessions = true)
    (hi : w.ClaimedFor c name x i) : (w.tenure c name).Standing x w.consumers.length := by
  induction h with
  | refl =>
    rcases hi with ⟨a, hi⟩ | ⟨t, ht, _⟩
    · cases hi
    · cases ht
  | @step ls u l v hrun hs ih =>
    obtain ⟨hl, hll⟩ := List.forall_mem_append.1 hl
    have hw := wired_of_run hrun
    have hg := (onward_step hw hs).grows
    have hrec := recorded_of_run hrun hl c name
    obtain ⟨k, hk⟩ := turned_step hw (hll l (List.mem_singleton_self l)) hs c name
    have hold : u.ClaimedFor c name x i → (v.tenure c name).Standing x v.consumers.length := by
      intro hu
      refine (ih hl hu).move hrec hk.move (consumers_le hg) (hw.lt_of_stake hu.stake) ?_
      intro j a hj hnone
      -- The call is the one that keeps `x`, so that it goes on without giving the name back.
      obtain rfl := (exclusive_of_run hrun hl).apart (stake_of_claim hj) hu.stake
      refine entry_of_stake hw hs hu.stake hi.stake (fun he => ?_) c name
      rw [claim_congr he, hj] at hnone
      cases hnone
    rcases hi with ⟨a, ha⟩ | hsub
    · rcases hk.move.claim_cases ha with hu | ⟨he, rfl⟩
      · exact hold (.inl ⟨a, hu⟩)
      · rw [he]
        exact hrec.standing
    · exact hold (hsub.before hw hs)

/-! ## Removing a name -/

/-- Whether a step removes a name of a connection: a call on one of its sessions unsubscribes it,
and finds it registered without an open consumer. -/
def removes (w : System) (c : ConnectionId) (name : String) : Label → Bool
  | .call (.unsubscribe s other) =>
    w.isOn c s && other = name && !(w.session s).closed &&
      ((w.connection c).subscriptions.removeInactive w.consumerClosed name).toBool
  | _ => false

/-- A call to unsubscribe that does not remove the name fails at once. -/
theorem entry_of_not_removes {s : SessionId} (hon : w.isOn c s = true)
    (hr : w.removes c name (.call (.unsubscribe s name)) = false) :
    (w.call (.unsubscribe s name)).2.entry c name = w.entry c name := by
  obtain ⟨hlt, rfl⟩ := isOn_iff.1 hon
  rw [call_eq, begin]
  rcases unsubscribe_effect (w.enlist (.unsubscribe s name)) w.calls.length s name with
    ⟨e, _, he⟩ | ⟨holder, r, hok, he⟩
  · rw [he]
    rfl
  · -- It would have removed the name, had the session not been closed.
    have hok' : ((w.connection (w.session s).connection).subscriptions.removeInactive
        w.consumerClosed name) = .ok (holder, r) := hok
    simp only [removes, hon, hok', Except.toBool, decide_true, Bool.true_and, Bool.and_true,
      Bool.not_eq_false'] at hr
    have hcl : ((w.enlist (.unsubscribe s name)).session s).closed = true := hr
    rw [unsubscribe]
    simp only [hcl, if_true]
    rfl

/-- A name stays at `x` or above once the call of `x` has ended, as long as nobody removes it. -/
theorem heldFrom_of_run (h : Run {} ls v) (hms : Run v ms w)
    (hl : ∀ l ∈ ls ++ ms, l.throughSessions = true) (hsub : v.Subscribed i c name x)
    (hx : v.entry c name = some x)
    (hkept : Along (fun u l => u.removes c name l = false) v ms) :
    (w.tenure c name).HeldFrom x := by
  induction hms with
  | refl =>
    rw [List.append_nil] at hl
    exact (standing_of_run h hl (.inr hsub)).heldFrom hx
  | @step ms u l w hms hs ih =>
    rw [← List.append_assoc] at hl
    obtain ⟨hl, hll⟩ := List.forall_mem_append.1 hl
    obtain ⟨hkept, hkeptl⟩ := (hms.along_snoc l).1 hkept
    have hrun := h.trans hms
    have hw := wired_of_run hrun
    have hfrom := ih hl hkept
    obtain ⟨t, ht, _, hp⟩ := hsub
    have hended : u.progress? i = some (.ended (.ok (.consumer x))) := by
      have hv : v.progress? i = some (.ended (.ok (.consumer x))) := by simp [progress?, ht, hp]
      exact hms.ended_stays hv
    have hstake : u.stake i = some x := stake_of_progress hended
    obtain ⟨k, hk⟩ := turned_step hw (hll l (List.mem_singleton_self l)) hs c name
    refine hfrom.move hk.move (hw.lt_of_stake hstake) (fun hvac => ?_) fun {j a} hj _ => ?_
    · obtain ⟨s, rfl, hon⟩ := hk.vacated hvac
      subst hvac
      have hnone : w.entry c name = none := hk.move.entry_of_vacated
      obtain ⟨_, rfl⟩ := step_call hs
      obtain ⟨y, hy, _⟩ := hfrom.entry
      have hy' : u.entry c name = some y := hy
      rw [entry_of_not_removes hon hkeptl, hy'] at hnone
      cases hnone
    · -- No other call has claimed the name for `x`, and its own has ended.
      obtain rfl := (exclusive_of_run hrun hl).apart (stake_of_claim hj) hstake
      obtain ⟨t, ht', _, hgoing⟩ := hw.subscribes_of_claim hj
      rw [progress?, ht'] at hended
      exact absurd (Option.some.inj hended) (hgoing _)

/-- Of two members of an ascending list the greater one is the later one. -/
theorem mem_after {xs : List ConsumerId} {y : ConsumerId} (hxs : xs.Pairwise (· < ·))
    (hx : x ∈ xs) (hy : y ∈ xs) (hxy : x ≤ y) :
    ∃ earlier later, xs = earlier ++ x :: later ∧ y ∈ x :: later := by
  obtain ⟨earlier, later, rfl⟩ := List.append_of_mem hx
  refine ⟨earlier, later, rfl, (List.mem_append.1 hy).resolve_left fun hm => ?_⟩
  exact Nat.not_lt.2 hxy ((List.pairwise_append.1 hxs).2.2 y hm x (List.mem_cons_self ..))

/-- A durable subscription survives everything but an unsubscription. In a run in which the register
of names is left to the sessions, let a call on a connection have ended with the consumer `x` for a
name, and let `x` have the name. As long as nobody removes the name after that, whatever is closed
and however many other calls take the name and fail, it has a consumer, and this is `x` or one that
took the name after `x`. -/
theorem durable_name_survives (h : Run {} ls v) (hms : Run v ms w)
    (hl : ∀ l ∈ ls ++ ms, l.throughSessions = true) (hsub : v.Subscribed i c name x)
    (hx : (v.connection c).subscriptions.get? name = some x)
    (hkept : Along (fun u l => u.removes c name l = false) v ms) :
    ∃ earlier later y, takers {} c name (ls ++ ms) = earlier ++ x :: later ∧
      (w.connection c).subscriptions.get? name = some y ∧ y ∈ x :: later := by
  have hls := (List.forall_mem_append.1 hl).1
  have hrec := recorded_of_run (h.trans hms) hl c name
  obtain ⟨y, hy, hxy⟩ := (heldFrom_of_run h hms hl hsub hx hkept).entry
  have hxs : x ∈ takers {} c name (ls ++ ms) := by
    rw [takers, h.steps_append, List.filterMap_append]
    exact List.mem_append_left _ ((recorded_of_run h hls c name).entry x hx)
  obtain ⟨earlier, later, hsplit, hmem⟩ := mem_after hrec.ascending hxs (hrec.entry y hy) hxy
  exact ⟨earlier, later, y, hsplit, hy, hmem⟩

/-- A call on each session takes the name of a closed consumer, and the one that took it first is
the first to fail. -/
def passedBy : List Label :=
  lateClaims 3 10 20 ++
    [.tick 10, .run (.call 3), .run (.call 3), .tick 20, .run (.call 5), .run (.call 5)]

theorem passedBy_isSome : (outlivedEnd.after? passedBy).isSome = true := by decide

def passedByEnd : System := (outlivedEnd.after? passedBy).get passedBy_isSome

/-- The name is with the consumer of a call that failed, which took it after the closed one. -/
theorem passedByEnd_holder : takers {} 0 "feed" (outlived ++ passedBy) = [0, 1, 2] ∧
    ∃ earlier later y, takers {} 0 "feed" (outlived ++ passedBy) = earlier ++ 0 :: later ∧
      (passedByEnd.connection 0).subscriptions.get? "feed" = some y ∧ y ∈ 0 :: later := by
  have hsub : outlivedEnd.Subscribed 2 0 "feed" 0 :=
    ⟨⟨.subscribe 0 (.topic "prices") "feed", .ended (.ok (.consumer 0)), false⟩, rfl,
      ⟨0, .topic "prices", rfl, by decide⟩, rfl⟩
  exact ⟨by decide, durable_name_survives (.of_isSome outlived_isSome)
    (.of_isSome passedBy_isSome) (by decide) hsub (by decide) (by decide)⟩

end System

end BrokerClient
