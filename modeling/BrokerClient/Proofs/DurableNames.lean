import BrokerClient.Proofs.SessionSet

/-!
# Durable names are exclusive

As long as the register of names is changed only through sessions, a name has at most one consumer
that is not closed among all those that calls have created for it, and it is the consumer that the
register gives. Calls that are still at work count: the invariant speaks of their stakes, so that a
call that fails late puts the former consumer back in its place only where its own still stands.

`Exclusive` is the invariant: two calls with stakes in one name have the same consumer unless one of
the two is closed, and the one that is open is the entry. A step of `Holders` keeps it, whatever the
step is (`Exclusive.step`), for a name changes hands only when its consumer is closed or given up.
-/

namespace BrokerClient.System

variable {w v : System} {i j : CallId} {c : ConnectionId} {x y : ConsumerId} {name : String}

/-- Every stake has its name as long as it is open, and no two calls share one. -/
structure Exclusive (w : System) : Prop where
  apart : ∀ {i j x}, w.stake i = some x → w.stake j = some x → i = j
  holds : ∀ {i x}, w.stake i = some x → w.consumerClosed x = false → w.Holds x

/-- The name of a consumer and the connection where it is registered do not change. -/
theorem Holds.mono (hw : w.Wired) {xs : List Call} (hg : w.outline.Grows xs v.outline)
    (hi : w.stake i = some x) (h : w.Holds x)
    (hkept : ∀ {c name}, w.entry c name = some x → v.entry c name = some x) : v.Holds x := by
  obtain ⟨s, d, n, ho, hs⟩ := hw.origin_of_stake hi
  have hlt := lt_of_origin ho
  have hor := origin_of_grows hg hlt
  have hw : (w.consumer x).session = s := by
    obtain ⟨y, hy, he⟩ := by simpa [outline] using ho
    simp [consumer, hy, he]
  have hv : (v.consumer x).session = s := (congrArg Prod.fst hor).trans hw
  have hc : (v.session s).connection = (w.session s).connection :=
    congrArg Prod.fst (address_of_grows hg hs)
  obtain ⟨name, hname, he⟩ := h
  refine ⟨name, (congrArg (fun a => a.2.2) hor).trans hname, ?_⟩
  rw [hv, hc]
  rw [hw] at he
  exact hkept he

/-- A name changes hands only to a consumer that is not there before, and only from one that is
closed. So no second open consumer comes to have it. -/
theorem Exclusive.step (hw : w.Wired) (hsound : w.ledger.Sound) (h : w.Exclusive) {l : Label}
    (hl : l.throughSessions = true) (hs : w.step? l = some v) : v.Exclusive := by
  have hd := dealt_step hw hl hs
  refine ⟨fun {i j x} hi hj => ?_, fun {i x} hi hopen => ?_⟩
  · -- A new stake is the only one in its consumer.
    rcases hd.stake hi with hwi | ⟨_, hnew⟩
    · rcases hd.stake hj with hwj | ⟨_, hnew⟩
      · exact h.apart hwi hwj
      · exact hnew i hi
    · exact (hnew j hj).symm
  · rcases hd.stake hi with hwi | ⟨hholds, _⟩
    · -- It was open before, so that it had its name, and it is not its call that gives it up now.
      have hbefore : w.consumerClosed x = false := by
        by_contra hne
        have hc := consumerClosed_step hw hsound hs (hw.lt_of_stake hwi)
          (by simpa using hne)
        rw [hopen] at hc
        cases hc
      refine (h.holds hwi hbefore).mono hw (onward_step hw hs).grows hwi fun he => ?_
      rcases hd.entry he with hv | hc | ⟨j, hj, hnone⟩
      · exact hv
      · rw [hbefore] at hc
        cases hc
      · rw [h.apart hj hwi, hi] at hnone
        cases hnone
    · exact hholds

/-- Names are exclusive in every run that leaves the register to the sessions. -/
theorem exclusive_of_run {ls : List Label} (h : Run {} ls w)
    (hl : ∀ l ∈ ls, l.throughSessions = true) : w.Exclusive := by
  induction h with
  | refl =>
    have hnone : ∀ i, ({} : System).stake i = none := fun _ => rfl
    refine ⟨?_, ?_⟩
    · intro i j x hi
      rw [hnone] at hi
      cases hi
    · intro i x hi
      rw [hnone] at hi
      cases hi
  | step hrun hs ih =>
    exact (ih fun l hm => hl l (List.mem_append_left _ hm)).step (wired_of_run hrun)
      (sound_of_run hrun) (hl _ (List.mem_append_right _ (List.mem_singleton_self _))) hs

/-- A call has created a consumer for a durable name of a connection. -/
def Subscribed (w : System) (i : CallId) (c : ConnectionId) (name : String) (x : ConsumerId) :
    Prop :=
  ∃ t : Task, w.calls[i]? = some t ∧ (∃ s d, t.call = .subscribe s d name ∧
    (w.session s).connection = c) ∧ t.progress = .ended (.ok (.consumer x))

/-- The consumer that a call was given keeps the call's stake. -/
theorem Subscribed.stake (h : w.Subscribed i c name x) : w.stake i = some x := by
  obtain ⟨t, ht, _, hp⟩ := h
  rw [stake_of_progress (p := t.progress) (by simp [progress?, ht]), hp]
  rfl

/-- The name for which the consumer was created is the one that the call was given. -/
theorem Subscribed.entry (hw : w.Wired) (h : w.Subscribed i c name x) (hx : w.Holds x) :
    w.entry c name = some x := by
  obtain ⟨t, ht, ⟨s, d, hcall, rfl⟩, hp⟩ := h
  have hf := hw.fit i t ht
  rw [hp, hcall] at hf
  obtain ⟨s', d', n, heq, ho, _⟩ := hf
  cases heq
  obtain ⟨y, hy, he⟩ := by simpa [outline] using ho
  have hor : (w.consumer x).origin = (s, d, some name) := by simp [consumer, hy, he]
  obtain ⟨n, hn, hentry⟩ := hx
  have hsub : (w.consumer x).subscription = some name := congrArg (fun a => a.2.2) hor
  have hsess : (w.consumer x).session = s := congrArg Prod.fst hor
  rw [hsub] at hn
  cases hn
  rw [hsess] at hentry
  exact hentry

/-- Durable names are exclusive. In every state that a run comes to in which the register of names
is left to the sessions: of all consumers that calls have created for a name of a connection, one
that is not closed is the one that the register gives, so that there is at most one. -/
theorem durable_name_exclusive {ls : List Label} {w : System} (h : Run {} ls w)
    (hl : ∀ l ∈ ls, l.throughSessions = true) (c : ConnectionId) (name : String) :
    (∀ i x, w.Subscribed i c name x → w.consumerClosed x = false →
      (w.connection c).subscriptions.get? name = some x) ∧
    ∀ i j x y, w.Subscribed i c name x → w.Subscribed j c name y →
      w.consumerClosed x = false → w.consumerClosed y = false → i = j ∧ x = y := by
  have he := exclusive_of_run h hl
  have hentry : ∀ i x, w.Subscribed i c name x → w.consumerClosed x = false →
      w.entry c name = some x := fun i x hx hopen =>
    hx.entry (wired_of_run h) (he.holds hx.stake hopen)
  refine ⟨hentry, fun i j x y hx hy hxo hyo => ?_⟩
  have hxy : x = y := by
    have hex := hentry i x hx hxo
    rw [hentry j y hy hyo] at hex
    exact (Option.some.inj hex).symm
  exact ⟨he.apart hx.stake (hxy ▸ hy.stake), hxy⟩

/-- A consumer is closed while it is still being created, and another session takes its name before
the first call goes on. -/
def takenOver : List Label :=
  [.operate .createRegistry, .operate (.connect 0 (.ofMillis 15000) {}),
    .call (.createSession 0 false .auto none), .run (.call 0), .run (.call 0), .take 0,
    .call (.createSession 0 false .auto none), .run (.call 1), .run (.call 1), .take 1,
    .call (.subscribe 0 (.topic "news") "reader"), .operate (.closeConsumer 0),
    .call (.subscribe 1 (.topic "news") "reader"), .run (.call 3), .run (.call 3),
    .run (.call 2), .run (.call 2)]

theorem takenOver_isSome : (after? {} takenOver).isSome = true := by decide

def takenOverEnd : System := (after? {} takenOver).get takenOver_isSome

/-- The name is with the second consumer, and not with the first one, which was closed. -/
theorem takenOverEnd_reader :
    (takenOverEnd.connection 0).subscriptions.get? "reader" = some 1 := by
  have hl : ∀ l ∈ takenOver, l.throughSessions = true := by decide
  have hsub : takenOverEnd.Subscribed 3 0 "reader" 1 :=
    ⟨⟨.subscribe 1 (.topic "news") "reader", .ended (.ok (.consumer 1)), false⟩, rfl,
      ⟨1, .topic "news", rfl, by decide⟩, rfl⟩
  have hopen : takenOverEnd.consumerClosed 1 = false := by decide
  exact (durable_name_exclusive (.of_isSome takenOver_isSome) hl 0 "reader").1 3 1 hsub hopen

end BrokerClient.System
