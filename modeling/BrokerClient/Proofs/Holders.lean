import BrokerClient.Proofs.Names
import BrokerClient.Proofs.Plain

/-!
# Who holds a durable name

A call that creates a durable subscriber takes the name for a new consumer before it asks the
broker, and may have to give it back when the broker has answered. From the first moment on the call
has a *stake*, the consumer, and it keeps it if it succeeds.

`System.Dealt` says how names pass from hand to hand in one step: the entry of a name changes only
if its consumer is closed or if the call that has the consumer as its stake gives it up, and a new
stake has its name at once. Everything but creating durable subscribers, removing subscriptions and
working on the register of names itself leaves the names alone (`System.Kept`).

The relation is kept for each stretch and put together in `dealt_step`. Four stretches deal: a claim
takes the name (`dealt_claim`), a call that creates a subscriber makes one (`dealt_subscribe`), one
that unsubscribes clears the name (`dealt_unsubscribe`), and a call that fails gives its stake up
(`dealt_abandon`). The last puts back the consumer that the claim remembers, and only where the name
is still with the consumer of the call; this is why a failure that comes late takes the name from
nobody.
-/

namespace BrokerClient

/-- The consumer for which a goal has taken a name. -/
def Goal.stake : Goal → Option ConsumerId
  | .retarget _ x _ _ => some x
  | .declare _ x _ _ => some x
  | _ => none

/-- The consumer for which a call has taken a name, or did when it ended. -/
def Progress.stake : Progress → Option ConsumerId
  | .exchange e => e.goal.stake
  | .ended (.ok (.consumer x)) => some x
  | _ => none

/-- Who has nothing to do with messages or names has no stake in a name. -/
theorem Progress.stake_of_isPlain (p : Progress) (h : p.isPlain = true) : p.stake = none := by
  cases p with
  | exchange e =>
    simp only [isPlain] at h
    simp only [stake]
    cases hg : e.goal <;> simp_all [Goal.isPlain, Goal.stake]
  | ended o =>
    rcases o with e | (_ | t | x)
    · rfl
    · rfl
    · rfl
    · cases h
  | _ => rfl

namespace System

/-- The consumer for which a call has a name, or is going to give it back. -/
def stake (w : System) (i : CallId) : Option ConsumerId := (w.progress? i).bind Progress.stake

/-- The consumer that a connection has registered under a name. -/
def entry (w : System) (c : ConnectionId) (name : String) : Option ConsumerId :=
  (w.connection c).subscriptions.get? name

variable {w v u : System} {i j : CallId} {c : ConnectionId} {s : SessionId} {x : ConsumerId}

/-- What was told before a consumer was added can be told after it. -/
theorem Quiet.addConsumer (h : Quiet w v) (y : Consumer) :
    Quiet (w.addConsumer y) (v.addConsumer y) :=
  ⟨h.now, h.registries, h.connections, h.sessions, congrArg (· ++ [y]) h.consumers, h.calls,
    h.notices⟩

/-- The stakes of other calls are as they were. -/
theorem stake_setCall_ne (h : i ≠ j) (w : System) (p : Progress) :
    (w.setCall i p).stake j = w.stake j := by
  rw [stake, progress_setCall_ne h, stake]

/-- A call has the stake of where it stands. -/
theorem stake_setCall_self (hi : i < w.calls.length) (p : Progress) :
    (w.setCall i p).stake i = p.stake := by
  rw [stake, progress_setCall_self hi]
  rfl

/-- A call that has been set has the stake of where it stands, if it is there at all. -/
theorem stake_of_setCall {p : Progress} (h : (w.setCall i p).stake i = some x) :
    p.stake = some x := by
  by_cases hi : i < w.calls.length
  · rwa [stake_setCall_self hi] at h
  · have hn : (w.setCall i p).progress? i = none := by
      simp [progress?, setCall, Nat.le_of_not_lt hi]
    rw [stake, hn] at h
    cases h

/-- The stake of a call can be read off its wait. -/
theorem stake_of_progress {p : Progress} (h : w.progress? i = some p) : w.stake i = p.stake := by
  rw [stake, h]
  rfl

/-- Stakes are read off the calls. -/
theorem stake_congr (h : v.calls = w.calls) (i : CallId) : v.stake i = w.stake i := by
  rw [stake, progress?, h, stake, progress?]

/-- A call that was started has no stake yet. -/
theorem stake_enlist (w : System) (x : Call) (i : CallId) :
    (w.enlist x).stake i = w.stake i := by
  rw [stake, progress?, enlist, stake, progress?, List.getElem?_append]
  split
  · rfl
  next h =>
    rw [List.getElem?_eq_none (Nat.le_of_not_lt h)]
    cases i - w.calls.length <;> rfl

/-! ## Leaving the names alone -/

/-- No name changes hands: consumers may be closed and added, and stakes given up. -/
structure Kept (w v : System) : Prop where
  subscriptions : ∀ c, (v.connection c).subscriptions = (w.connection c).subscriptions
  closed : ∀ x, (w.consumer x).closed = true → (v.consumer x).closed = true
  stake : ∀ i x, v.stake i = some x → w.stake i = some x

namespace Kept

theorem refl (w : System) : Kept w w := ⟨fun _ => rfl, fun _ => id, fun _ _ => id⟩

/-- Leaving names alone twice in a row. -/
theorem trans (h : Kept w v) (h' : Kept v u) : Kept w u :=
  ⟨fun c => (h'.subscriptions c).trans (h.subscriptions c),
    fun x hx => h'.closed x (h.closed x hx), fun i x hx => h.stake i x (h'.stake i x hx)⟩

/-- An update of connections that leaves their names alone. -/
theorem of_connections (hn : ∀ c, (v.connection c).subscriptions = (w.connection c).subscriptions)
    (hx : v.consumers = w.consumers) (hi : v.calls = w.calls) : Kept w v :=
  ⟨hn, fun x h => by rwa [consumer_congr hx], fun i x h => by rwa [stake_congr hi] at h⟩

/-- A call that gets no stake that it did not have. -/
theorem setCall (h : Kept w v) {p : Progress} (hp : p.stake = none ∨ p.stake = w.stake i) :
    Kept w (v.setCall i p) := by
  refine ⟨h.subscriptions, h.closed, fun j x hx => ?_⟩
  by_cases hij : i = j
  · subst hij
    have hpx := stake_of_setCall hx
    rcases hp with hn | hs
    · rw [hn] at hpx
      cases hpx
    · rw [← hs, hpx]
  · rw [stake_setCall_ne hij] at hx
    exact h.stake j x hx

theorem finish (h : Kept w v) (i : CallId) : Kept w (v.finish i (.ok .unit)) := h.setCall (.inl rfl)

theorem fail (h : Kept w v) (i : CallId) (e : Error) : Kept w (v.fail i e) := h.setCall (.inl rfl)

/-- A call that asks for something and keeps its stake. -/
theorem ask (h : Kept w v) {i : CallId} {c : ConnectionId} {request : Request}
    {limit : Option Nat} {goal : Goal} (hg : goal.stake = none ∨ goal.stake = w.stake i) :
    Kept w (v.ask i c request limit goal) := by
  rw [ask_eq]
  exact (h.trans (.of_connections (connection_modifyConnection_of (g := Connection.subscriptions)
    (by intro _; rfl) v c) rfl rfl)).setCall hg

end Kept

/-- Whoever leaves messages and names alone leaves names alone. -/
theorem Plain.kept (h : Plain w v) : Kept w v := by
  refine ⟨h.subscriptions, h.closed, fun i x hx => ?_⟩
  rcases h.progress i with he | ⟨_, hv⟩
  · rwa [System.stake, he] at hx
  · obtain ⟨p, hp, hs⟩ := Option.bind_eq_some_iff.1 hx
    rw [p.stake_of_isPlain (hv p hp)] at hs
    cases hs

/-! ## Stretches that leave the names alone -/

/-- Publishing is not about names. -/
theorem kept_publish (w : System) (i : CallId) (s : SessionId) (m : Message) (tracked : Bool) :
    Kept w (w.publish i s m tracked) := by
  have hr : Kept w (w.readyToPublish s m tracked) := by
    refine .of_connections (fun c => ?_) (by simp) (by simp)
    cases tracked <;>
      exact connection_modifyConnection_of (g := Connection.subscriptions) (by intro _; rfl) w _ c
  rw [publish_eq]
  exact hr.ask (.inl rfl)

/-- Sessions are not either, as far as the register of names goes. -/
theorem kept_modifySession (w : System) (s : SessionId) (f : Session → Session) :
    Kept w (w.modifySession s f) :=
  .of_connections (fun _ => rfl) rfl rfl

/-- A send that waits for its turn has no stake. -/
theorem kept_send (w : System) (i : CallId) (s : SessionId) (m : Message) :
    Kept w (w.send i s m) := by
  have hv : Kept w (w.takePlace i s) := kept_modifySession w s _
  rcases send_effect w i s m with he | ⟨_, he⟩ | he
  · rw [he]
    exact (Kept.refl w).fail i _
  · rw [he]
    exact hv.trans (kept_publish _ i s m _)
  · rw [he]
    exact hv.setCall (.inl rfl)

/-- A send that ends has none either. -/
theorem kept_endPublish (w : System) (i : CallId) (s : SessionId) (tag : Nat) (tracked : Bool)
    (result : Except TransportFailure Unit) : Kept w (w.endPublish i s tag tracked result) := by
  rcases endPublish_effect w i s tag tracked result with ⟨_, he⟩ | ⟨_, _, he⟩
  · rw [he]
    exact (kept_modifySession w s _).finish i
  · rw [he]
    exact (kept_modifySession w s _).fail i _

/-- A request that takes effect changes what the broker has, and not the register. -/
theorem kept_takeEffect {e : Exchange} (hp : w.progress? i = some (.exchange e)) (after : Nat) :
    Kept w (w.takeEffect i e after) := by
  have hm : Kept w (w.modifyConnection e.connection fun x =>
      { x with broker := ((w.connection e.connection).broker.perform e.request).2 }) :=
    .of_connections (connection_modifyConnection_of (g := Connection.subscriptions)
      (by intro _; rfl) w _) rfl rfl
  exact hm.setCall (.inr (stake_of_progress hp).symm)

/-! ## Names that change hands -/

/-- A consumer has the name that it was created for. -/
def Holds (w : System) (x : ConsumerId) : Prop :=
  ∃ name, (w.consumer x).subscription = some name ∧
    w.entry (w.session (w.consumer x).session).connection name = some x

/-- How names change hands in one step. -/
structure Dealt (w v : System) : Prop where
  closed : ∀ x, (w.consumer x).closed = true → (v.consumer x).closed = true
  /-- A name leaves a consumer that is closed, or whose call gives it up. -/
  entry : ∀ {c name x}, w.entry c name = some x →
    v.entry c name = some x ∨ w.consumerClosed x = true ∨
      ∃ i, w.stake i = some x ∧ v.stake i = none
  /-- A new stake is a new consumer, which has its name. -/
  stake : ∀ {i x}, v.stake i = some x → w.stake i = some x ∨
    (v.Holds x ∧ ∀ j, v.stake j = some x → j = i)

/-- A step that leaves names alone deals none. -/
theorem Kept.dealt (h : Kept w v) : Dealt w v :=
  ⟨h.closed, fun {c name x} hx => .inl (by rw [entry, h.subscriptions]; exact hx),
    fun {i x} hx => .inl (h.stake i x hx)⟩

/-- A client in which the names of one connection are changed. -/
def rename (w : System) (c : ConnectionId) (f : Subscriptions → Subscriptions) : System :=
  w.modifyConnection c fun y => { y with subscriptions := f y.subscriptions }

/-- A register that is put in place is the old one changed. -/
theorem rename_eq {r : Subscriptions} {f : Subscriptions → Subscriptions}
    (h : r = f (w.connection c).subscriptions) :
    (w.modifyConnection c fun y => { y with subscriptions := r }) = w.rename c f :=
  modifyConnection_congr (by rw [h])

/-- What the changed register says. -/
theorem entry_rename_self (hc : c < w.connections.length) (f : Subscriptions → Subscriptions)
    (name : String) :
    (w.rename c f).entry c name = (f (w.connection c).subscriptions).get? name := by
  rw [entry, rename, connection_modifyConnection_self hc]

/-- What becomes of the entries when the names of one connection are changed. -/
theorem entry_rename {P : ConsumerId → Prop} {f : Subscriptions → Subscriptions}
    (h : ∀ name x, w.entry c name = some x →
      (f (w.connection c).subscriptions).get? name = some x ∨ P x)
    {d : ConnectionId} {name : String} (hx : w.entry d name = some x) :
    (w.rename c f).entry d name = some x ∨ P x := by
  by_cases hcd : c = d
  · subst hcd
    by_cases hc : c < w.connections.length
    · rw [entry_rename_self hc]
      exact h name x hx
    · rw [entry, connection, List.getElem?_eq_none (Nat.le_of_not_lt hc)] at hx
      cases hx
  · rw [entry, rename, connection_modifyConnection_ne hcd]
    exact .inl hx

end System

namespace Subscriptions

variable {r r' : Subscriptions} {isClosed : ConsumerId → Bool} {name other : String}
  {x holder : ConsumerId}

/-- A name is taken if nobody has it or its consumer is closed, and then it is given to the new one.
-/
theorem claim_eq_ok {destination : ConsumerId → Destination} {d : Destination} {a : Claim}
    (h : r.claim isClosed destination name x d = .ok (a, r')) :
    r' = r.put name x ∧ ∀ y, r.get? name = some y → isClosed y = true := by
  unfold claim at h
  split at h
  next hn =>
    cases h
    exact ⟨rfl, fun y hy => by rw [hn] at hy; cases hy⟩
  next z hz =>
    split at h
    · cases h
    next hc =>
      have hall : ∀ y, r.get? name = some y → isClosed y = true := by
        intro y hy
        rw [hz] at hy
        cases hy
        simpa using hc
      split at h <;> cases h <;> exact ⟨rfl, hall⟩

/-- A claim remembers the consumer before. -/
theorem previous?_of_claim {destination : ConsumerId → Destination} {d : Destination} {a : Claim}
    (h : r.claim isClosed destination name x d = .ok (a, r')) : a.previous? = r.get? name := by
  unfold claim at h
  split at h
  next hn =>
    cases h
    exact hn.symm
  next z hz =>
    split at h
    · cases h
    · split at h <;> cases h <;> exact hz.symm

/-- A name is removed only if its consumer is closed. -/
theorem removeInactive_eq_ok (h : r.removeInactive isClosed name = .ok (holder, r')) :
    r' = r.erase name ∧ r.get? name = some holder ∧ isClosed holder = true := by
  unfold removeInactive at h
  split at h
  · cases h
  next hz =>
    split at h <;> cases h
    next hc => exact ⟨rfl, hz, hc⟩

/-- Removing one name leaves the others. -/
theorem get?_erase_ne (r : Subscriptions) (h : other ≠ name) :
    (r.erase name).get? other = r.get? other :=
  lookup_filter_ne r.entries h

/-- Taking a claim back takes the name from nobody else. -/
theorem get?_abandon {y : ConsumerId} (hy : r.get? other = some y) (hne : y ≠ x) (a : Claim) :
    (r.abandon name x a).get? other = some y := by
  unfold abandon
  split
  next hx =>
    have ho : other ≠ name := by
      rintro rfl
      rw [hx] at hy
      exact hne (Option.some.inj hy).symm
    split
    · rw [get?_put_ne r _ ho, hy]
    · rw [get?_erase_ne r ho, hy]
  next => exact hy

end Subscriptions

namespace System

variable {w v u : System} {i j : CallId} {c : ConnectionId} {s : SessionId} {x : ConsumerId}

/-- The consumer of a stake is there, and was created for a durable name, in a session. -/
theorem Wired.origin_of_stake (hw : w.Wired) (h : w.stake i = some x) :
    ∃ s d name, w.outline.origins[x]? = some (s, d, some name) ∧ s < w.sessions.length := by
  obtain ⟨p, hp, hx⟩ := Option.bind_eq_some_iff.1 h
  obtain ⟨t, ht, rfl⟩ := task_of_progress hp
  have hf := hw.fit i t ht
  cases hpr : t.progress with
  | exchange e =>
    rw [hpr] at hf hx
    simp only [Progress.Fits, Exchange.Fits] at hf
    simp only [Progress.stake] at hx
    cases hg : e.goal with
    | retarget s y name claim =>
      simp only [hg, Goal.stake, Option.some.injEq] at hf hx
      obtain ⟨_, d, _, _, ho, ha, _⟩ := hf
      exact ⟨s, d, name, hx ▸ ho, lt_of_address ha⟩
    | declare s y name claim =>
      simp only [hg, Goal.stake, Option.some.injEq] at hf hx
      obtain ⟨_, d, _, _, ho, ha, _⟩ := hf
      exact ⟨s, d, name, hx ▸ ho, lt_of_address ha⟩
    | _ => simp [hg, Goal.stake] at hx
  | ended o =>
    rw [hpr] at hf hx
    rcases o with e | (_ | t | y)
    · cases hx
    · cases hx
    · cases hx
    · cases hx
      obtain ⟨s, d, name, _, ho, a, ha⟩ := hf
      exact ⟨s, d, name, ho, lt_of_address ha⟩
  | _ => simp [hpr, Progress.stake] at hx

/-- A consumer that was created for something is there. -/
theorem lt_of_origin {a : SessionId × Destination × Option String}
    (h : w.outline.origins[x]? = some a) : x < w.consumers.length := by
  simpa [outline] using (List.getElem?_eq_some_iff.1 h).1

/-- The consumer for which a call has a name is there. -/
theorem Wired.lt_of_stake (hw : w.Wired) (h : w.stake i = some x) : x < w.consumers.length := by
  obtain ⟨_, _, _, ho, _⟩ := hw.origin_of_stake h
  exact lt_of_origin ho

/-- Taking a name for a consumer, in a client: the register is changed and the rest is told. -/
theorem claimName_effect {name : String} {d : Destination} {claim : Claim}
    (h : w.claimName c name x d = .ok (claim, v)) :
    (∀ y, w.entry c name = some y → w.consumerClosed y = true) ∧
      Quiet (w.rename c fun r => r.put name x) v := by
  unfold claimName at h
  split at h
  · cases h
  next hok =>
    cases h
    obtain ⟨hr, hcl⟩ := Subscriptions.claim_eq_ok hok
    rw [rename_eq (f := fun r => r.put name x) hr]
    exact ⟨hcl, .log _ _⟩

/-- The claim that a call takes remembers who had the name. -/
theorem previous?_of_claimName {name : String} {d : Destination} {claim : Claim}
    (h : w.claimName c name x d = .ok (claim, v)) : claim.previous? = w.entry c name := by
  unfold claimName at h
  split at h
  · cases h
  next hok =>
    cases h
    exact Subscriptions.previous?_of_claim hok

/-- Taking a name for a new consumer, from a closed one if at all. -/
theorem dealt_claim (hw : w.Wired) {y : Consumer} {name : String}
    (hc : (w.session y.session).connection < w.connections.length)
    (hy : y.subscription = some name)
    (hfree : ∀ x, w.entry (w.session y.session).connection name = some x →
      w.consumerClosed x = true)
    (hq : Quiet ((w.rename (w.session y.session).connection
      fun r => r.put name w.consumers.length).addConsumer y) u)
    (i : CallId) (c : ConnectionId) (request : Request) (limit : Option Nat) {goal : Goal}
    (hg : goal.stake = some w.consumers.length) : Dealt w (u.ask i c request limit goal) := by
  have hentry : ∀ d n, (u.ask i c request limit goal).entry d n =
      (w.rename (w.session y.session).connection
        (fun r => r.put name w.consumers.length)).entry d n := by
    intro d n
    rw [entry, connection_ask_of (g := Connection.subscriptions) (fun _ _ _ => rfl), hq.connection]
    rfl
  -- The new consumer stands where none stood.
  have hlast : u.consumer w.consumers.length = y := by
    rw [hq.consumer]
    simp [consumer, addConsumer, rename]
  refine ⟨fun x hx => ?_, fun hx => ?_, fun {j x} hx => ?_⟩
  · exact hq.plain.closed x ((Plain.addConsumer w y).closed x hx)
  · rw [hentry]
    refine (entry_rename (P := fun x => w.consumerClosed x = true) (fun n x hn => ?_) hx).imp
      id .inl
    -- The name that is taken was free or had a closed consumer; the others stay.
    by_cases hname : n = name
    · subst hname
      exact .inr (hfree x hn)
    · rw [Subscriptions.get?_put_ne _ _ hname]
      exact .inl hn
  · have hother : ∀ j, i ≠ j → (u.ask i c request limit goal).stake j = w.stake j := by
      intro j hij
      rw [ask_eq, stake_setCall_ne hij]
      exact stake_congr hq.calls j
    by_cases hij : i = j
    · subst hij
      rw [ask_eq] at hx
      have hxl := stake_of_setCall hx
      rw [Progress.stake, (exchangeFor_parts u c request limit goal).2.2.2, hg] at hxl
      cases hxl
      refine .inr ⟨⟨name, ?_, ?_⟩, fun j hj => ?_⟩
      · rw [consumer_congr (ask_leaves u i c request limit goal).2.2.2.1, hlast, hy]
      · rw [consumer_congr (ask_leaves u i c request limit goal).2.2.2.1, hlast,
          session_congr (ask_leaves u i c request limit goal).2.2.1, hq.session, hentry]
        exact (entry_rename_self hc _ name).trans (Subscriptions.get?_put_self _ name _)
      · -- Another stake in it would be one in a consumer that was not there yet.
        by_contra hne
        rw [hother j (Ne.symm hne)] at hj
        exact absurd (hw.lt_of_stake hj) (Nat.lt_irrefl _)
    · rw [hother j hij] at hx
      exact .inl hx

/-- Creating a durable subscriber fails, or gives a name to a consumer that is not there yet. -/
theorem dealt_subscribe (hw : w.Wired) (hs : s < w.sessions.length) (i : CallId)
    (d : Destination) (name : String) : Dealt w (w.subscribe i s d name) := by
  rcases subscribe_effect w i s d name with ⟨e, _, he⟩ | ⟨_, _, claim, v, u, hclaim, hq, he⟩
  · rw [he]
    exact ((Kept.refl w).fail i e).dealt
  · obtain ⟨hfree, hv⟩ := claimName_effect hclaim
    have hc : (w.session s).connection < w.connections.length :=
      hw.housed _ (List.mem_of_getElem? (address_of_lt hs))
    have hu :=
      (hv.addConsumer { session := s, destination := d, subscription := some name }).trans hq
    rcases he with ⟨_, he⟩ | he
    · rw [he]
      exact dealt_claim hw (y := { session := s, destination := d, subscription := some name }) hc
        rfl hfree hu i _ _ _ rfl
    · rw [he]
      exact dealt_claim hw (y := { session := s, destination := d, subscription := some name }) hc
        rfl hfree hu i _ _ _ rfl

/-- Unsubscribing takes a name from a closed consumer and gives it to nobody. -/
theorem dealt_unsubscribe (w : System) (i : CallId) (s : SessionId) (name : String) :
    Dealt w (w.unsubscribe i s name) := by
  rcases unsubscribe_effect w i s name with ⟨e, _, he⟩ | ⟨holder, r, hr, he⟩
  · rw [he]
    exact ((Kept.refl w).fail i e).dealt
  · obtain ⟨hr, hholder, hcl⟩ := Subscriptions.removeInactive_eq_ok hr
    rw [he, rename_eq (f := fun r => r.erase name) hr]
    have hk : Kept (w.rename (w.session s).connection fun r => r.erase name)
        ((w.rename (w.session s).connection fun r => r.erase name).ask i (w.session s).connection
          (.delete (w.session s).channel name) none (.unsubscribe s name)) :=
      (Kept.refl _).ask (.inl rfl)
    refine ⟨hk.closed, fun hx => ?_, fun hx => .inl (hk.stake _ _ hx)⟩
    rw [entry, hk.subscriptions]
    refine (entry_rename (P := fun x => w.consumerClosed x = true) (fun n x hn => ?_) hx).imp
      id .inl
    by_cases hname : n = name
    · subst hname
      rw [entry, hholder] at hn
      cases hn
      exact .inr hcl
    · rw [Subscriptions.get?_erase_ne _ hname]
      exact .inl hn

/-- A call that fails gives its name up, and takes it from nobody else. -/
theorem dealt_abandon (hi : w.stake i = some x) (c : ConnectionId) (name : String)
    (claim : Claim) (e : Error) : Dealt w ((w.abandonName c name x claim).fail i e) := by
  have hlt : i < w.calls.length := by
    by_contra hlt
    rw [stake, progress?, List.getElem?_eq_none (Nat.le_of_not_lt hlt)] at hi
    cases hi
  have hk := (Kept.refl (w.abandonName c name x claim)).fail i e
  refine ⟨hk.closed, fun {d n y} hy => ?_, fun hx => .inl (hk.stake _ _ hx)⟩
  rw [entry, hk.subscriptions]
  change (w.rename c fun r => r.abandon name x claim).entry d n = some y ∨ _
  -- An entry that goes is the one of this call's stake.
  refine (entry_rename (P := fun y => y = x) (fun n y hn => ?_) hy).imp id fun hyx => ?_
  · by_cases hyx : y = x
    · exact .inr hyx
    · exact .inl (Subscriptions.get?_abandon hn hyx claim)
  · subst hyx
    exact .inr ⟨i, hi, stake_setCall_self hlt _⟩

/-! ## Steps -/

/-- An answer leaves the names alone, unless the call takes its claim back. -/
theorem kept_or_abandoned_resolve {e : Exchange} (hp : w.progress? i = some (.exchange e))
    (reply : Reply) : Kept w (w.resolve i e reply) ∨ ∃ x name claim f, e.goal.stake = some x ∧
      w.resolve i e reply = (w.abandonName e.connection name x claim).fail i f := by
  have hstake := stake_of_progress hp
  cases hg : e.goal with
  | publish s tag tracked =>
    simp only [resolve, hg]
    exact .inl (kept_endPublish w i s tag tracked _)
  | retarget s y name claim =>
    rw [Progress.stake, hg] at hstake
    rcases resolve_retarget hg w i reply with he | ⟨f, he⟩
    · have hgoal : (Goal.declare s y name claim).stake = w.stake i := hstake.symm
      rw [he]
      exact .inl ((Kept.refl w).ask (.inr hgoal))
    · exact .inr ⟨y, name, claim, f, rfl, he⟩
  | declare s y name claim =>
    rw [Progress.stake, hg] at hstake
    have hk := (plain_adopt w s y).kept
    rcases resolve_declare hg w i reply with he | ⟨f, he⟩ | ⟨f, he⟩
    · rw [he]
      exact .inl (hk.setCall (p := .ended (.ok (.consumer y))) (.inr hstake.symm))
    · rw [he]
      exact .inl (hk.fail i f)
    · exact .inr ⟨y, name, claim, f, rfl, he⟩
  | _ => exact .inl (plain_resolve hp (by rw [hg]; rfl) reply).kept

/-- So does every stretch of a call that goes on. -/
theorem kept_or_abandoned (hw : w.Wired) (h : w.resume? i = some v) : Kept w v ∨
    ∃ e x name claim f, w.progress? i = some (.exchange e) ∧ e.goal.stake = some x ∧
      v = (w.abandonName e.connection name x claim).fail i f := by
  rcases resume?_cases h with ⟨s, m, tracked, _, _, rfl⟩ | ⟨e, reply, hp, _, _, rfl⟩ |
    ⟨e, after, hp, _, _, rfl⟩ | ⟨e, limit, hp, hl, _, _, rfl⟩ | ⟨x, o, hp, ho, rfl⟩
  · exact .inl (kept_publish w i s m tracked)
  · rcases kept_or_abandoned_resolve hp reply with hk | ⟨x, name, claim, f, hx, he⟩
    · exact .inl hk
    · exact .inr ⟨e, x, name, claim, f, hp, hx, he⟩
  · exact .inl (kept_takeEffect hp after)
  · exact .inl (plain_giveUp (hw.isPlain_of_limit hp hl) e).kept
  · have hi : w.IsPlain i := by
      intro p hq
      rw [hp] at hq
      cases hq
      rfl
    exact .inl (plain_resumed hi ho).kept

/-- A call that goes on gives back what it took, or it leaves names alone. -/
theorem dealt_resume (hw : w.Wired) (h : w.resume? i = some v) : Dealt w v := by
  rcases kept_or_abandoned hw h with hk | ⟨e, x, name, claim, f, hp, hx, rfl⟩
  · exact hk.dealt
  · exact dealt_abandon ((stake_of_progress hp).trans hx) _ name claim f

/-- A call that was started has not dealt anything before its first stretch. -/
theorem dealt_enlist {y : Call} (h : Dealt (w.enlist y) v) : Dealt w v := by
  refine ⟨h.closed, fun hx => ?_, fun {i x} hx => ?_⟩
  · rcases h.entry hx with he | hc | ⟨i, hi, hn⟩
    · exact .inl he
    · exact .inr (.inl hc)
    · exact .inr (.inr ⟨i, stake_enlist w y i ▸ hi, hn⟩)
  · exact (h.stake hx).imp (fun hi => stake_enlist w y i ▸ hi) id

/-- A call that is not about a durable name leaves the names alone. -/
theorem kept_call (w : System) {y : Call} (hn : y.durable? = none) :
    Kept (w.enlist y) (w.call y).2 := by
  have hi := isPlain_enlist w y
  rw [call_eq]
  cases y with
  | createSession d transacted mode via => exact (plain_createSession hi d transacted mode via).kept
  | close d => exact (plain_closeConnection hi d).kept
  | closeSession t => exact (plain_closeSession hi t).kept
  | send t m => exact kept_send _ _ t m
  | awaitResume z => exact (plain_awaitResume hi z).kept
  | _ => cases hn

/-- The first stretch of a call deals names only if it is about durable subscriptions. -/
theorem dealt_call (hw : w.Wired) {y : Call} (hy : w.mayCall y = true) :
    Dealt w (w.call y).2 := by
  refine dealt_enlist (y := y) ?_
  by_cases hn : y.durable? = none
  · exact (kept_call w hn).dealt
  · rw [call_eq]
    cases y with
    | subscribe t d name =>
      exact dealt_subscribe (onward_enlist hw _).wired (lt_of_holdsSession hy) _ d name
    | unsubscribe t name => exact dealt_unsubscribe _ _ t name
    | _ => exact absurd rfl hn

/-- The operations that do not work on the register directly. -/
theorem kept_operate (w : System) {o : Operation} (ho : o.meddles = false) :
    Kept w (w.operate o).2 := by
  by_cases hb : o.isBrokerSide = true
  · cases o with
    | report c k es =>
      rw [operate, reportAll_eq]
      exact .of_connections (connection_modifyConnection_of (g := Connection.subscriptions)
        (by intro _; rfl) w c) rfl rfl
    | inject c f =>
      exact .of_connections (connection_modifyConnection_of (g := Connection.subscriptions)
        (by intro _; rfl) w c) rfl rfl
    | _ => cases hb
  · exact (plain_operate w ho (by simpa using hb)).kept

end System

/-- Whether a step leaves the register of names to the sessions. -/
def Label.throughSessions : Label → Bool
  | .operate o => !o.meddles
  | _ => true

namespace System

variable {w v u : System} {i j : CallId} {c : ConnectionId} {s : SessionId} {x : ConsumerId}

/-- Every step that leaves the register to the sessions. -/
theorem dealt_step (hw : w.Wired) {l : Label} (hl : l.throughSessions = true)
    (hs : w.step? l = some v) : Dealt w v := by
  cases l with
  | operate o =>
    obtain ⟨_, rfl⟩ := step_operate hs
    exact (kept_operate w (by simpa [Label.throughSessions] using hl)).dealt
  | call y =>
    obtain ⟨hy, rfl⟩ := step_call hs
    exact dealt_call hw hy
  | run a =>
    cases a with
    | call i => exact dealt_resume hw hs
    | dispatcher s =>
      obtain ⟨f, hf⟩ := framed_dispatch hs
      have hk : Kept w (w.modifyChannelOf s f) :=
        .of_connections (connection_modifyConnection_of (g := Connection.subscriptions)
          (by intro _; rfl) w _) rfl rfl
      exact (hk.trans (.of_connections (fun c => by rw [connection_congr hf.connections])
        hf.consumers hf.calls)).dealt
  | take i => exact (plain_take hs).kept.dealt
  | tick t =>
    obtain ⟨_, rfl⟩ := step_tick hs
    have hk : Kept w { w with now := t } := .of_connections (fun _ => rfl) rfl rfl
    exact hk.dealt

/-- A consumer that was closed itself stays closed, whatever is done. -/
theorem closed_step (hw : w.Wired) {l : Label} (hs : w.step? l = some v)
    (hx : (w.consumer x).closed = true) : (v.consumer x).closed = true := by
  by_cases hl : l.throughSessions = true
  · exact (dealt_step hw hl hs).closed x hx
  · have hc : v.consumers = w.consumers := by
      cases l with
      | operate o =>
        obtain ⟨_, rfl⟩ := step_operate hs
        cases o with
        | claimSubscription c name y =>
          simp only [operate, claimSubscription]
          split
          · rfl
          next h => exact (claimName_leaves h).2.2.1
        | abandonSubscription c name y claim => rfl
        | removeSubscription c name =>
          simp only [operate, removeSubscription]
          split <;> rfl
        | _ => exact absurd rfl hl
      | _ => exact absurd rfl hl
    rwa [consumer_congr hc]

end System

end BrokerClient
