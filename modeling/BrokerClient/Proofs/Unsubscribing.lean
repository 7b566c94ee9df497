import BrokerClient.Proofs.Agreement
import BrokerClient.Proofs.FailedClaims

/-!
# Unsubscribing when the broker fails

A call that unsubscribes a name takes it out of the register and then has the broker delete it. It
may fail before the first or after it. A call that nothing crosses leaves the register as it was in
the one case, and without the name in the other, where it does not put the name back although the
broker still has the subscription (`failed_unsubscribe_keeps_iff`). Whoever then unsubscribes the
name once more is told that there is no such subscription (`lostEnd_register`).

That nothing crosses the call is `System.Alone`: no other call is about a durable name of the
connection while it goes on. What a step of another call, a dispatcher or the program leaves alone
then is its register (`subscriptions_step`) and what its broker keeps about names (`books_step`).

`Alone.run` is the induction for both this module and the next: what the steps keep that nothing
crosses is kept by a run of them. A call that starts meanwhile is about other names, or about
another connection, and a call that was there before has ended.
-/

namespace BrokerClient.System

variable {w v u : System} {i j : CallId} {c : ConnectionId} {k : Nat} {s : SessionId}
  {x : ConsumerId} {name : String} {l : Label} {ls ms : List Label}

/-- Whether a call is about a durable name of a connection. -/
def durableOn (w : System) (c : ConnectionId) (y : Call) : Bool :=
  y.durable?.any fun a => w.isOn c a.1

/-- Nobody but call `i` has the broker do anything about a durable name of a connection. -/
def Alone (w : System) (c : ConnectionId) (i : CallId) : Prop :=
  ∀ j e, w.names.errand j = some e → e.connection = c → j = i

/-- A call that is about a name of a connection stays so. -/
theorem durableOn_mono {ys : List Call} (hg : w.outline.Grows ys v.outline) {y : Call}
    (h : w.durableOn c y = true) : v.durableOn c y = true := by
  obtain ⟨a, ha, hon⟩ := (Option.any_eq_true _ _).1 h
  exact (Option.any_eq_true _ _).2 ⟨a, ha, isOn_mono hg hon⟩

/-- A call with an errand is about a name of the connection, and has not ended. -/
theorem Wired.busy_of_errand (hw : w.Wired) {e : Errand} (he : w.names.errand i = some e) :
    ∃ t : Task, w.calls[i]? = some t ∧ w.durableOn e.connection t.call = true ∧
      t.progress.isEnded = false := by
  obtain ⟨p, hp, hpe⟩ := Option.bind_eq_some_iff.1 he
  obtain ⟨t, ht, rfl⟩ := task_of_progress hp
  obtain ⟨s, hd, ha⟩ := hw.durable_of_errand he (isCall_of_getElem? ht)
  refine ⟨t, ht, ?_, ?_⟩
  · rw [durableOn, hd, Option.any_some]
    exact isOn_of_address ha
  · cases hpr : t.progress with
    | ended o =>
      rw [hpr] at hpe
      cases hpe
    | _ => rfl

/-! ## What a step leaves alone -/

/-- A call that waits with a claim of a name has an errand at the connection of the name. -/
theorem Wired.errand_of_stake (hw : w.Wired) {e : Exchange}
    (hp : w.progress? i = some (.exchange e)) (hx : e.goal.stake = some x) :
    ∃ f, w.names.errand i = some f ∧ f.connection = e.connection ∧ f.deed ≠ .unsubscribe := by
  cases hg : e.goal with
  | retarget s y n a =>
    obtain ⟨_, _, _, _, _, _, _, he⟩ := hw.errand_retarget hp hg
    exact ⟨_, he, rfl, by simp⟩
  | declare s y n a =>
    obtain ⟨_, _, _, _, _, _, _, he⟩ := hw.errand_declare hp hg
    exact ⟨_, he, rfl, by simp⟩
  | _ =>
    rw [hg] at hx
    cases hx

/-- A call that is started leaves the register of a connection alone if it is not about a name of
it. -/
theorem subscriptions_call (w : System) {y : Call} (hy : w.mayCall y = true)
    (hn : w.durableOn c y = false) :
    ((w.call y).2.connection c).subscriptions = (w.connection c).subscriptions := by
  by_cases hd : y.durable? = none
  · exact (kept_call w hd).subscriptions c
  · rw [call_eq]
    cases y with
    | subscribe t d name =>
      -- The session belongs to another connection, and the registry there is another one.
      have hne : (w.session t).connection ≠ c := by
        simpa [durableOn, Call.durable?, isOn, lt_of_holdsSession hy] using hn
      rcases subscribe_effect (w.enlist (.subscribe t d name)) w.calls.length t d name with
        ⟨e, _, he⟩ | ⟨_, _, a, y, z, hclaim, hq, hz⟩
      · rw [begin, he]
        rfl
      · have hz' : (z.connection c).subscriptions = (w.connection c).subscriptions := by
          rw [hq.connection]
          exact (congrArg Connection.subscriptions ((claimName_effect hclaim).2.connection c)).trans
            (congrArg Connection.subscriptions (connection_modifyConnection_ne hne _))
        rcases hz with ⟨_, hz⟩ | hz <;>
          rw [begin, hz, connection_ask_of (g := Connection.subscriptions) (by intros; rfl)] <;>
          exact hz'
    | unsubscribe t name =>
      have hne : (w.session t).connection ≠ c := by
        simpa [durableOn, Call.durable?, isOn, lt_of_holdsSession hy] using hn
      rcases unsubscribe_effect (w.enlist (.unsubscribe t name)) w.calls.length t name with
        ⟨e, _, he⟩ | ⟨holder, r, _, he⟩
      · rw [begin, he]
        rfl
      · rw [begin, he, connection_ask_of (g := Connection.subscriptions) (by intros; rfl)]
        exact congrArg Connection.subscriptions (connection_modifyConnection_ne hne _)
    | _ => exact absurd rfl hd

/-- Only a call that is about a name of a connection changes the register, when it is started or
when it takes its claim back. -/
theorem subscriptions_step (hw : w.Wired) (hl : l.throughSessions = true) (hs : w.step? l = some v)
    (hnew : ∀ y, l = .call y → w.durableOn c y = false)
    (hown : ∀ j e, l = .run (.call j) → w.names.errand j = some e → e.connection = c →
      e.deed = .unsubscribe) :
    (v.connection c).subscriptions = (w.connection c).subscriptions := by
  cases l with
  | operate o =>
    obtain ⟨_, rfl⟩ := step_operate hs
    exact (kept_operate w (by simpa [Label.throughSessions] using hl)).subscriptions c
  | call y =>
    obtain ⟨hy, rfl⟩ := step_call hs
    exact subscriptions_call w hy (hnew y rfl)
  | run a =>
    cases a with
    | call j =>
      -- A call that gives its claim up writes the registry, but such a call is not at work here.
      rcases kept_or_abandoned hw hs with hk | ⟨e, x, n, a, f, hp, hx, rfl⟩
      · exact hk.subscriptions c
      · obtain ⟨g, hg, hconn, hdeed⟩ := hw.errand_of_stake hp hx
        have hne : e.connection ≠ c := fun he => hdeed (hown j g rfl hg (hconn.trans he))
        exact congrArg Connection.subscriptions (connection_modifyConnection_ne hne _)
    | dispatcher t =>
      obtain ⟨f, hf⟩ := framed_dispatch hs
      rw [connection_congr hf.connections]
      exact connection_modifyConnection_of (g := Connection.subscriptions) (by intro _; rfl) w _ c
  | take j => exact (plain_take hs).subscriptions c
  | tick t =>
    obtain ⟨_, rfl⟩ := step_tick hs
    rfl

/-- Only the effect of a request about a name changes what a broker keeps about names. -/
theorem books_step (hw : w.Wired) (hs : w.step? l = some v) (hc : c < w.connections.length)
    (hown : ∀ j e, l = .run (.call j) → w.names.errand j = some e → e.connection ≠ c) (k : Nat) :
    ((v.connection c).broker.channelOrNew k).books =
      ((w.connection c).broker.channelOrNew k).books := by
  rcases step_kinds hs with hr | ⟨y, rfl, hst⟩ | ⟨j, rfl, hst⟩ |
    ⟨j, e, after, rfl, hp, _, _, rfl⟩
  · rcases hr.core c with he | ⟨hle, _⟩
    · exact Broker.channelOrNew_of_core (fun _ => rfl) (congrArg (fun x => x.2.2) he) k
    · exact absurd hc (Nat.not_lt.2 hle)
  · rw [hst.broker]
    rfl
  · rw [hst.broker]
  · rw [takeEffect, connection_setCall]
    by_cases hce : e.connection = c
    · subst hce
      rw [connection_modifyConnection_self hc]
      have hn : w.names.errand j = none := by
        by_contra hne
        obtain ⟨f, hf⟩ := Option.ne_none_iff_exists'.1 hne
        exact hown j f rfl hf (e.connection_of_errand ((names_errand hp).symm.trans hf))
      obtain ⟨hdec, hdel⟩ := hw.request_of_errand hp hn
      exact Broker.books_perform hdec hdel _ k
    · rw [connection_modifyConnection_ne hce]

/-! ## Runs that nothing crosses -/

/-- None of the calls from `first` on is about a durable name of a connection. -/
def Clear (w : System) (c : ConnectionId) (first : CallId) : Prop :=
  ∀ {j y}, first ≤ j → w.outline.calls[j]? = some y → w.durableOn c y = false

/-- What no later call is about none was about before. -/
theorem Clear.before {first : CallId} (hw : w.Wired) (hs : w.step? l = some v)
    (h : v.Clear c first) : w.Clear c first := by
  intro j y hj hy
  have hg := (onward_step hw hs).grows
  by_contra hon
  have hv := durableOn_mono hg (c := c) (y := y) (by simpa using hon)
  rw [h hj (call_mono hg hy)] at hv
  cases hv

/-- A call that is started meanwhile is not about a name of the connection. -/
theorem Clear.started {first : CallId} (hw : w.Wired) (h : v.Clear c first)
    (hle : first ≤ w.calls.length) {y : Call} (hs : w.step? (.call y) = some v) :
    w.durableOn c y = false := by
  have hg := (onward_step hw hs).grows
  have hcall : v.outline.calls[w.calls.length]? = some y := by
    rw [hg.calls]
    simp [outline, Label.started]
  by_contra hon
  have hv := durableOn_mono hg (c := c) (y := y) (by simpa using hon)
  rw [h hle hcall] at hv
  cases hv

theorem clear_of_drop {first : CallId}
    (h : ∀ t ∈ w.calls.drop first, w.durableOn c t.call = false) : w.Clear c first := by
  intro j y hj hy
  obtain ⟨t, ht, rfl⟩ : ∃ t : Task, w.calls[j]? = some t ∧ t.call = y := by
    simpa [outline] using hy
  rw [← Nat.add_sub_cancel' hj, ← List.getElem?_drop] at ht
  exact h t (List.mem_of_getElem? ht)

/-- A call stays alone while none is started that is about a name of the connection. -/
theorem Alone.step (hw : w.Wired) (hl : l.throughSessions = true) (hs : w.step? l = some v)
    (h : w.Alone c i) (hnew : ∀ y, l = .call y → w.durableOn c y = false) : v.Alone c i := by
  intro j e he hc
  rcases names_step hw hl hs with hn | hm
  · rw [hn] at he
    exact h j e he hc
  · cases hj : w.names.errand j with
    | none =>
      obtain ⟨y, s, rfl, hy, ha⟩ := hm.started hj he
      rw [hc] at ha
      have hon := hnew y rfl
      rw [durableOn, hy, Option.any_some, isOn_of_address ha] at hon
      cases hon
    | some f => exact h j f hj ((hm.connection hj he).symm.trans hc)

/-- What the steps keep that nothing crosses is kept by a run of them. -/
theorem Alone.run {P : System → Prop} (hu : u.Wired) (hms : Run u ms w)
    (hl : ∀ l ∈ ms, l.throughSessions = true) (halone : u.Alone c i)
    (hclear : w.Clear c u.calls.length) (h : P u)
    (hstep : ∀ {x l y}, x.Wired → x.Alone c i → l.throughSessions = true →
      (∀ z, l = .call z → x.durableOn c z = false) → x.step? l = some y → P x → P y) : P w := by
  have hboth : w.Alone c i ∧ P w := by
    induction hms with
    | refl => exact ⟨halone, h⟩
    | @step ms x l y hms hs ih =>
      obtain ⟨hl, hll⟩ := List.forall_mem_append.1 hl
      have hon := hms.onward hu
      obtain ⟨hx, hp⟩ := ih hl (hclear.before hon.wired hs)
      have hnew : ∀ z, l = .call z → x.durableOn c z = false := by
        rintro z rfl
        exact hclear.started hon.wired (calls_le hon.grows) hs
      have hlx := hll l (List.mem_singleton_self l)
      exact ⟨hx.step hon.wired hlx hs hnew, hstep hon.wired hx hlx hnew hs hp⟩
  exact hboth.2

/-- A call is alone if none was about a durable name of the connection when it was started. -/
theorem alone_of_started (hv : v.Wired) {y : Call} (hs : v.step? (.call y) = some u)
    (hrest : ∀ t ∈ v.calls, v.durableOn c t.call = true → t.progress.isEnded = true) :
    u.Alone c v.calls.length := by
  intro j e he hc
  by_contra hne
  cases hj : v.names.errand j with
  | none => exact hne (started_of_errand hs hj he).1
  | some f =>
    have hjv : j < v.calls.length := by
      obtain ⟨p, hp, _⟩ := Option.bind_eq_some_iff.1 hj
      exact lt_of_progress hp
    have hsame : u.names.errand j = v.names.errand j := by
      simp only [names, progress_step hs hjv (by simp)]
    rw [hsame] at he
    obtain ⟨t, ht, hon, hgoing⟩ := hv.busy_of_errand he
    rw [hc] at hon
    rw [hrest t (List.mem_of_getElem? ht) hon] at hgoing
    cases hgoing

/-! ## A call that unsubscribes -/

/-- A call to unsubscribe fails at once and changes nothing, or takes the name out of the register
and asks the broker. -/
theorem unsubscribe_begins (hv : v.Wired)
    (hs : v.step? (.call (.unsubscribe s name)) = some u) :
    ((u.connection (v.session s).connection).subscriptions =
        (v.connection (v.session s).connection).subscriptions ∧
      ∃ e, u.progress? v.calls.length = some (.ended (.error e)) ∧ e.isTransport = false) ∨
    ((u.connection (v.session s).connection).subscriptions =
        (v.connection (v.session s).connection).subscriptions.erase name ∧
      (∃ x, v.entry (v.session s).connection name = some x) ∧
      ∃ e, u.progress? v.calls.length = some (.exchange e) ∧ e.goal = .unsubscribe s name) := by
  obtain ⟨hm, rfl⟩ := step_call hs
  have hlt : v.calls.length < (v.enlist (.unsubscribe s name)).calls.length := by simp
  have hc := hv.connection_lt (address_eq (lt_of_holdsSession hm))
  rw [call_eq, begin]
  rcases unsubscribe_effect (v.enlist (.unsubscribe s name)) v.calls.length s name with
    ⟨e, ht, he⟩ | ⟨x, r, hr, he⟩
  · rw [he]
    exact .inl ⟨rfl, e, progress_setCall_self hlt _, ht⟩
  · obtain ⟨rfl, hx, _⟩ := Subscriptions.removeInactive_eq_ok hr
    rw [he, ask_eq]
    refine .inr ⟨?_, ⟨x, hx⟩, _, progress_setCall_self hlt _, rfl⟩
    rw [connection_setCall, connection_modifyConnection_of (g := Connection.subscriptions)
      (by intro _; rfl)]
    exact congrArg Connection.subscriptions (connection_modifyConnection_self hc _)

/-- Where a call stands that has removed a name: it waits for the broker, or it has ended, and not
with a failure but that of the broker. -/
def AtBroker (s : SessionId) (name : String) (p : Progress) : Prop :=
  (∃ e, p = .exchange e ∧ e.goal = .unsubscribe s name) ∨
    ∃ o, p = .ended o ∧ ∀ e, o = .error e → e.isTransport = true

/-- A call that waits for the broker goes on waiting, or ends with what the broker says. -/
theorem AtBroker.step (hw : w.Wired) (hs : w.step? l = some v) {p : Progress}
    (hp : w.progress? i = some p) (h : AtBroker s name p) :
    ∃ q, v.progress? i = some q ∧ AtBroker s name q := by
  by_cases hl : l = .run (.call i)
  · subst hl
    have hr : w.resume? i = some v := hs
    rcases h with ⟨e, rfl, hg⟩ | ⟨o, rfl, _⟩
    · obtain ⟨_, _, hlim, _⟩ := hw.errand_unsubscribe hp hg
      have hlt := lt_of_progress hp
      rcases resume_exchange hp hr with ⟨reply, _, _, rfl⟩ | ⟨after, _, _, rfl⟩ | ⟨_, hl, _⟩
      · simp only [resolve, hg]
        split
        · exact ⟨_, progress_setCall_self (by exact hlt) _, .inr ⟨_, rfl, by simp⟩⟩
        · refine ⟨_, progress_setCall_self hlt _, .inr ⟨_, rfl, ?_⟩⟩
          rintro e ⟨⟩
          rfl
      · exact ⟨_, progress_setCall_self (by exact hlt) _, .inl ⟨_, rfl, hg⟩⟩
      · rw [hlim] at hl
        cases hl
    · rw [resume?, hp] at hr
      cases hr
  · exact ⟨p, (progress_step hs (lt_of_progress hp) hl).trans hp, h⟩

/-- What it has the broker do is to delete. -/
theorem AtBroker.deed {p : Progress} {f : Errand} (h : AtBroker s name p)
    (hf : p.errand? = some f) : f.deed = .unsubscribe := by
  rcases h with ⟨e, rfl, hg⟩ | ⟨o, rfl, _⟩
  · cases hr : e.request with
    | delete k n =>
      simp only [Progress.errand?, Exchange.errand?, hg, hr] at hf
      cases hf
      rfl
    | _ =>
      simp only [Progress.errand?, Exchange.errand?, hg, hr] at hf
      cases hf
  · cases hf

/-- The register stays as it is while nothing but a call to unsubscribe has an errand. -/
theorem subscriptions_of_run (hu : u.Wired) (hms : Run u ms w)
    (hl : ∀ l ∈ ms, l.throughSessions = true) (halone : u.Alone c i)
    (hclear : w.Clear c u.calls.length) {P : Progress → Prop}
    (hi : ∃ p, u.progress? i = some p ∧ P p)
    (hkeep : ∀ {x y : System} {l p}, x.Wired → x.step? l = some y → x.progress? i = some p →
      P p → ∃ q, y.progress? i = some q ∧ P q)
    (hdeed : ∀ {p : Progress} {e}, P p → p.errand? = some e → e.deed = .unsubscribe) :
    (w.connection c).subscriptions = (u.connection c).subscriptions ∧
      ∃ p, w.progress? i = some p ∧ P p := by
  refine halone.run hu hms hl hclear (P := fun x =>
    (x.connection c).subscriptions = (u.connection c).subscriptions ∧
      ∃ p, x.progress? i = some p ∧ P p) ⟨rfl, hi⟩ ?_
  intro x l y hx halone hlx hnew hs hP
  obtain ⟨hsub, p, hp, hPp⟩ := hP
  refine ⟨(subscriptions_step hx hlx hs hnew fun j e _ he hc => ?_).trans hsub,
    hkeep hx hs hp hPp⟩
  obtain rfl := halone j e he hc
  rw [names_errand hp] at he
  exact hdeed hPp he

/-- What somebody who unsubscribes is told at once if nobody has the name. -/
theorem unknown_iff (hon : w.isOn c s = true) (hopen : (w.session s).closed = false) :
    (w.call (.unsubscribe s name)).2.progress? w.calls.length =
        some (.ended (.error (.invalidDestination (.unknownSubscription name)))) ↔
      (w.connection c).subscriptions.get? name = none := by
  obtain ⟨_, rfl⟩ := isOn_iff.1 hon
  have hlt : w.calls.length < (w.enlist (.unsubscribe s name)).calls.length := by simp
  have hcl : ((w.enlist (.unsubscribe s name)).session s).closed = false := hopen
  rw [call_eq, begin, unsubscribe]
  simp only [hcl, Bool.false_eq_true, if_false]
  have hsub : ((w.enlist (.unsubscribe s name)).connection
      ((w.enlist (.unsubscribe s name)).session s).connection).subscriptions =
      (w.connection (w.session s).connection).subscriptions := rfl
  rw [hsub]
  unfold Subscriptions.removeInactive
  -- Without an entry the name is unknown. With one the call is refused as active or goes on.
  cases hx : (w.connection (w.session s).connection).subscriptions.get? name with
  | none => simp [progress_setCall_self hlt]
  | some x =>
    simp only [reduceCtorEq, iff_false]
    intro hp
    split at hp
    next hk =>
      split at hk <;> cases hk
    next => cases progress_of_setCall hp
    next => cases progress_of_setCall hp

/-- What has become of the register when a call to unsubscribe has failed. -/
theorem register_of_failed (h : Run {} ls v)
    (hs : v.step? (.call (.unsubscribe s name)) = some u) (hms : Run u ms w)
    (hl : ∀ l ∈ ms, l.throughSessions = true)
    (hrest : ∀ t ∈ v.calls, v.durableOn (v.session s).connection t.call = true →
      t.progress.isEnded = true)
    (hnone : ∀ t ∈ w.calls.drop u.calls.length,
      w.durableOn (v.session s).connection t.call = false)
    {e : Error} (he : w.progress? v.calls.length = some (.ended (.error e))) :
    (e.isTransport = false ∧ (w.connection (v.session s).connection).subscriptions =
      (v.connection (v.session s).connection).subscriptions) ∨
    (e.isTransport = true ∧ (w.connection (v.session s).connection).subscriptions =
      (v.connection (v.session s).connection).subscriptions.erase name ∧
      ∃ x, (v.connection (v.session s).connection).subscriptions.get? name = some x) := by
  have hv := wired_of_run h
  have hu := (onward_step hv hs).wired
  have halone := alone_of_started hv hs hrest
  have hclear : w.Clear (v.session s).connection u.calls.length := clear_of_drop hnone
  -- The call fails at once and changes nothing, or it takes the name out and asks the broker; from
  -- then on no other call touches the registry of the connection.
  rcases unsubscribe_begins hv hs with ⟨hsub, e', hp, ht⟩ | ⟨hsub, hx, hp⟩
  · obtain ⟨hw, p, hpw, rfl⟩ := subscriptions_of_run hu hms hl halone hclear
      (P := fun p => p = .ended (.error e')) ⟨_, hp, rfl⟩
      (fun _ hs hp hPp => ⟨_, ended_step hs (hPp ▸ hp), rfl⟩) fun hPp hi => by
        rw [hPp] at hi
        cases hi
    rw [hpw] at he
    cases he
    exact .inl ⟨ht, hw.trans hsub⟩
  · obtain ⟨e', hp, hg⟩ := hp
    obtain ⟨hw, p, hpw, hPp⟩ := subscriptions_of_run hu hms hl halone hclear
      (P := AtBroker s name) ⟨_, hp, .inl ⟨e', rfl, hg⟩⟩
      (fun hx hs hp hPp => hPp.step hx hs hp) AtBroker.deed
    rw [hpw] at he
    rcases hPp with ⟨g, rfl, _⟩ | ⟨o, rfl, hto⟩
    · cases he
    · cases he
      exact .inr ⟨hto e rfl, hw.trans hsub, hx⟩

/-- When a call to unsubscribe fails. In any state that a run comes to, let no call about a durable
name of the connection be under way when a call to unsubscribe one is started, and none be started
until it has ended with an error. Then the register is what it was before just if the error is not
one of the broker. After one of the broker the name is gone, which had been registered, and whoever
unsubscribes it next is told that there is no such subscription. -/
theorem failed_unsubscribe_keeps_iff (h : Run {} ls v)
    (hs : v.step? (.call (.unsubscribe s name)) = some u) (hms : Run u ms w)
    (hl : ∀ l ∈ ms, l.throughSessions = true)
    (hrest : ∀ t ∈ v.calls, v.durableOn (v.session s).connection t.call = true →
      t.progress.isEnded = true)
    (hnone : ∀ t ∈ w.calls.drop u.calls.length,
      w.durableOn (v.session s).connection t.call = false)
    {e : Error} (he : w.progress? v.calls.length = some (.ended (.error e))) :
    ((w.connection (v.session s).connection).subscriptions =
        (v.connection (v.session s).connection).subscriptions ↔ e.isTransport = false) ∧
    (e.isTransport = true →
      (∃ x, (v.connection (v.session s).connection).subscriptions.get? name = some x) ∧
      (w.connection (v.session s).connection).subscriptions =
        (v.connection (v.session s).connection).subscriptions.erase name) ∧
    ∀ x t, (v.connection (v.session s).connection).subscriptions.get? name = some x →
      w.isOn (v.session s).connection t = true → (w.session t).closed = false →
      ((w.call (.unsubscribe t name)).2.progress? w.calls.length =
          some (.ended (.error (.invalidDestination (.unknownSubscription name)))) ↔
        e.isTransport = true) := by
  rcases register_of_failed h hs hms hl hrest hnone he with ⟨ht, hsame⟩ | ⟨ht, hgone, y, hy⟩
  · refine ⟨iff_of_true hsame ht, fun ht' => ?_, fun x t hx hon hopen => ?_⟩
    · rw [ht] at ht'
      cases ht'
    · rw [unknown_iff hon hopen, hsame, hx, ht]
      simp
  · have hnone' : (w.connection (v.session s).connection).subscriptions.get? name = none := by
      rw [hgone, Subscriptions.get?_erase, if_pos rfl]
    refine ⟨iff_of_false (fun hsame => ?_) (by simp [ht]), fun _ => ⟨⟨y, hy⟩, hgone⟩,
      fun x t _ hon hopen => ?_⟩
    · rw [hsame, hy] at hnone'
      cases hnone'
    · rw [unknown_iff hon hopen]
      exact iff_of_true hnone' ht

/-- The subscription "feed" has a closed consumer, and the next request of a kind is going to fail.
-/
def linkDown (kind : CallKind) : List Label :=
  [.operate .createRegistry, .operate (.connect 0 (.ofMillis 15000) {}),
    .call (.createSession 0 false .auto none), .run (.call 0), .run (.call 0), .take 0,
    .call (.subscribe 0 (.topic "prices") "feed"), .run (.call 1), .run (.call 1),
    .operate (.closeConsumer 0), .operate (.inject 0 { kind, failure := some (.io "link down") })]

theorem linkDown_delete_isSome : (after? {} (linkDown .delete)).isSome = true := by decide

/-- The client after these steps, where the next delete fails. -/
def undeletable : System := (after? {} (linkDown .delete)).get linkDown_delete_isSome

theorem removing_isSome : (undeletable.step? (.call (.unsubscribe 0 "feed"))).isSome = true := by
  decide

/-- "feed" is unsubscribed; it is out of the register while the broker is asked. -/
def removing : System := (undeletable.step? (.call (.unsubscribe 0 "feed"))).get removing_isSome

theorem lost_isSome : (removing.after? [.run (.call 2)]).isSome = true := by decide

def lostEnd : System := (removing.after? [.run (.call 2)]).get lost_isSome

/-- The call has failed at the broker, and the register is without the name. -/
theorem lostEnd_register :
    (undeletable.connection 0).subscriptions.get? "feed" = some 0 ∧
    (lostEnd.connection 0).subscriptions = (undeletable.connection 0).subscriptions.erase "feed" ∧
    (lostEnd.call (.unsubscribe 0 "feed")).2.progress? 3 =
      some (.ended (.error (.invalidDestination (.unknownSubscription "feed")))) := by
  have hfailed := failed_unsubscribe_keeps_iff (e := .transport (.io "link down"))
    (.of_isSome linkDown_delete_isSome) (Option.some_get removing_isSome).symm
    (.of_isSome lost_isSome) (by decide) (by decide) (by decide) (by rfl)
  have hfeed : (undeletable.connection 0).subscriptions.get? "feed" = some 0 := by decide
  exact ⟨hfeed, (hfailed.2.1 rfl).2, (hfailed.2.2 0 0 hfeed (by decide) (by decide)).2 rfl⟩

/-- Nothing else was going on, and the call failed; but the name was registered before it and is not
after it, though the broker still has the subscription, so that who wants to unsubscribe it again is
told that it does not exist. -/
theorem removal_not_undone :
    Run {} (linkDown .delete) undeletable ∧
    undeletable.step? (.call (.unsubscribe 0 "feed")) = some removing ∧
    Run removing [.run (.call 2)] lostEnd ∧
    (∀ t ∈ undeletable.calls, t.progress.isEnded = true) ∧ lostEnd.calls.length = 3 ∧
    lostEnd.progress? 2 = some (.ended (.error (.transport (.io "link down")))) ∧
    (undeletable.connection 0).subscriptions.get? "feed" = some 0 ∧
    (lostEnd.connection 0).subscriptions.get? "feed" = none ∧
    (lostEnd.channelOf 0).topicOf? "feed" = some "prices" ∧
    (lostEnd.call (.unsubscribe 0 "feed")).2.progress? 3 =
      some (.ended (.error (.invalidDestination (.unknownSubscription "feed")))) :=
  ⟨.of_isSome linkDown_delete_isSome, (Option.some_get removing_isSome).symm,
    .of_isSome lost_isSome, by decide, by decide, by rfl, by decide, by decide, by decide, by rfl⟩

end BrokerClient.System
