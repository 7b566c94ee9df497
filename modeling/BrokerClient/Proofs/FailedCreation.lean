import BrokerClient.Proofs.SessionSet
import BrokerClient.Proofs.Unsubscribing

/-!
# Creating a durable subscriber when the broker fails

A call that creates a durable subscriber for a name that is declared on another topic has two things
to ask of the broker: to delete the subscription, and to declare it again. If either fails the call
takes its claim back, so that the register is what it was. Where the first one has taken effect the
broker is not: the name has its old consumer again, on the old topic, and is declared no more.

`Attempt` says how far a call has come that nothing crosses (`System.Alone`), and what the register
and the channel have of the name by then. So they agree after a failure as they did before just if
nothing was deleted (`failed_creation_agrees_iff`); `movedOn_disagrees` is a run where it was.

An attempt has five stages, and the call that makes it goes through them in order
(`Attempt.own_step`). Whatever others do leaves both the stage and the place alone (`Attempt.step`).
In the last stage the only thing to know of a failure is whether the name was deleted, and
`failed_creation_agrees_iff` reads this off the requests that the broker has carried out.
-/

namespace BrokerClient

/-- What the register has of a name, and a channel: on which topic it is declared, and all names
deleted so far. -/
structure Place where
  entry : Option ConsumerId
  topic : Option String
  deleted : List String

namespace Place

/-- The name has been deleted. -/
def bare (b : Place) (name : String) : Place :=
  { b with topic := none, deleted := b.deleted ++ [name] }

/-- All is as it was, or the subscription of a name with an entry has been deleted. -/
def Spared (b : Place) (name : String) (d : Place) : Prop :=
  d = b ∨ b.entry ≠ none ∧ d = b.bare name

/-- A delete at the broker leaves the register alone. -/
theorem Spared.entry {b d : Place} {name : String} (h : b.Spared name d) : d.entry = b.entry := by
  rcases h with rfl | ⟨_, rfl⟩ <;> rfl

end Place

namespace System

variable {w v u : System} {i : CallId} {c : ConnectionId} {k : Nat} {s : SessionId}
  {x : ConsumerId} {name : String} {l : Label} {ls ms : List Label} {b d : Place} {p : Progress}

/-- How far a call has come that creates a subscriber on session `s`, from where things stood as
`b`. -/
inductive Attempt (s : SessionId) (name : String) (b : Place) : Progress → Place → Prop where
  /-- The name is to be deleted. -/
  | deleting {e x a} (hg : e.goal = .retarget s x name a) (ha : a.previous? = b.entry)
    (hb : b.entry ≠ none) : Attempt s name b (.exchange e) { b with entry := some x }
  /-- It has been deleted. -/
  | deleted {e x a} (hg : e.goal = .retarget s x name a) (ha : a.previous? = b.entry)
    (hb : b.entry ≠ none) (hs : e.stage = .answered .done) :
    Attempt s name b (.exchange e) { b.bare name with entry := some x }
  /-- The name is to be declared. -/
  | declaring {e x a d} (hg : e.goal = .declare s x name a) (ha : a.previous? = b.entry)
    (hd : b.Spared name d) : Attempt s name b (.exchange e) { d with entry := some x }
  /-- It has been declared. -/
  | declared {e x a d} (hg : e.goal = .declare s x name a) (hs : e.stage = .answered .done) :
    Attempt s name b (.exchange e) d
  /-- The call has ended. -/
  | ended {o d} (hd : ∀ f, o = .error (.transport f) → b.Spared name d) :
    Attempt s name b (.ended o) d

/-- What the register of a connection and a channel have of a name. -/
def place (w : System) (c : ConnectionId) (k : Nat) (name : String) : Place where
  entry := (w.connection c).subscriptions.get? name
  topic := ((w.connection c).broker.channelOrNew k).topicOf? name
  deleted := ((w.connection c).broker.channelOrNew k).deleted

/-- A place is known from the register and from what the channel keeps about names. -/
theorem place_congr (hs : (v.connection c).subscriptions = (w.connection c).subscriptions)
    (hb : ((v.connection c).broker.channelOrNew k).books =
      ((w.connection c).broker.channelOrNew k).books) (name : String) :
    v.place c k name = w.place c k name := by
  have ht : ((v.connection c).broker.channelOrNew k).topicOf? name =
      ((w.connection c).broker.channelOrNew k).topicOf? name :=
    congrArg (fun y => y.1.lookup name) hb
  have hd : ((v.connection c).broker.channelOrNew k).deleted =
      ((w.connection c).broker.channelOrNew k).deleted := congrArg Prod.snd hb
  rw [place, place, hs, ht, hd]

theorem place_setCall (w : System) (i : CallId) (p : Progress) (c : ConnectionId) (k : Nat)
    (name : String) : (w.setCall i p).place c k name = w.place c k name := rfl

/-- A request that is on its way has not done anything yet. -/
theorem place_ask (w : System) (i : CallId) (d : ConnectionId) (request : Request)
    (limit : Option Nat) (goal : Goal) (c : ConnectionId) (k : Nat) (name : String) :
    (w.ask i d request limit goal).place c k name = w.place c k name :=
  place_congr (connection_ask_of (g := Connection.subscriptions) (by intros; rfl) w i d request
    limit goal c) (congrArg (fun y : Broker => (y.channelOrNew k).books) (connection_ask_of
      (g := Connection.broker) (by intros; rfl) w i d request limit goal c)) name

/-- Who takes its claim back has the consumer before in its place. -/
theorem place_abandon (hc : c < w.connections.length) (a : Claim)
    (hw : w.place c k name = { d with entry := some x }) :
    (w.abandonName c name x a).place c k name = { d with entry := a.previous? } := by
  have hx : (w.connection c).subscriptions.get? name = some x := congrArg Place.entry hw
  have he : ((w.abandonName c name x a).connection c).subscriptions.get? name = a.previous? := by
    rw [abandonName, connection_modifyConnection_self hc]
    exact (Subscriptions.get?_abandon_self hx a name).trans (if_pos rfl)
  have hb : ((w.abandonName c name x a).connection c).broker = (w.connection c).broker :=
    connection_modifyConnection_of (g := Connection.broker) (by intro _; rfl) w c c
  have ht : ((w.connection c).broker.channelOrNew k).topicOf? name = d.topic :=
    congrArg Place.topic hw
  have hd : ((w.connection c).broker.channelOrNew k).deleted = d.deleted :=
    congrArg Place.deleted hw
  rw [place, he, hb, ht, hd]

/-- What a request to a channel does: what it is for if the channel is open, and nothing if not. -/
theorem place_takeEffect (name : String) {e : Exchange} (after : Nat)
    (hc : e.connection < w.connections.length) (hlt : i < w.calls.length) {f : Channel → Channel}
    (hr : ∀ b : Broker, b.perform e.request = b.onChannel k (Channel.whenOpen f)) :
    (∃ g, (w.takeEffect i e after).progress? i = some (.exchange g) ∧ g.goal = e.goal ∧
      g.stage = .answered .done ∧ (w.takeEffect i e after).place e.connection k name =
        { w.place e.connection k name with
          topic := (f ((w.connection e.connection).broker.channelOrNew k)).topicOf? name
          deleted := (f ((w.connection e.connection).broker.channelOrNew k)).deleted }) ∨
    ∃ g, (w.takeEffect i e after).progress? i = some (.exchange g) ∧ g.goal = e.goal ∧
      g.stage = .answered (.failed .alreadyClosed) ∧
      (w.takeEffect i e after).place e.connection k name = w.place e.connection k name := by
  have hsub := connection_modifyConnection_of (g := Connection.subscriptions)
    (f := fun y => { y with broker := ((w.connection e.connection).broker.perform e.request).2 })
    (by intro _; rfl) w e.connection e.connection
  have hbroker : (((w.takeEffect i e after).connection e.connection).broker.channelOrNew k) =
      ((w.connection e.connection).broker.onChannel k (Channel.whenOpen f)).2.channelOrNew k := by
    rw [takeEffect, connection_setCall, connection_modifyConnection_self hc, hr]
  have hprogress : (w.takeEffect i e after).progress? i = _ :=
    progress_setCall_self (by exact hlt) _
  -- An open channel takes the effect, a closed one refuses and stays as it is.
  cases ho : (w.connection e.connection).broker.opens k with
  | true =>
    obtain ⟨hdone, hch⟩ := Broker.onChannel_open ho f
    refine .inl ⟨_, hprogress, rfl, ?_, ?_⟩
    · simp only [hr, hdone]
    · rw [hch, if_pos rfl] at hbroker
      rw [place, hbroker]
      exact congrArg (fun r : Subscriptions => (⟨r.get? name, _, _⟩ : Place)) hsub
  | false =>
    obtain ⟨hfailed, hch⟩ := Broker.onChannel_closed ho f
    refine .inr ⟨_, hprogress, rfl, ?_, ?_⟩
    · simp only [hr, hfailed]
    · exact place_congr hsub (congrArg Channel.books (hbroker.trans (hch k))) name

/-! ## A call goes on -/

/-- The delete takes effect or does not; if it is refused the claim is taken back and all is as it
was. -/
theorem Attempt.deleting_step (hw : w.Wired) (ha : w.address? s = some (c, k)) {e : Exchange}
    {a : Claim} (hp : w.progress? i = some (.exchange e)) (hr : w.resume? i = some v)
    (hg : e.goal = .retarget s x name a) (hprev : a.previous? = b.entry) (hb : b.entry ≠ none)
    (hplace : w.place c k name = { b with entry := some x }) :
    ∃ q, v.progress? i = some q ∧ Attempt s name b q (v.place c k name) := by
  obtain ⟨d, k', _, hlim, _, ha', hreq, _⟩ := hw.errand_retarget hp hg
  rw [ha] at ha'
  cases ha'
  have hlt := lt_of_progress hp
  have hc := hw.connection_lt ha
  rcases resume_exchange hp hr with ⟨reply, _, _, rfl⟩ | ⟨after, _, _, rfl⟩ | ⟨_, hl, _⟩
  · simp only [resolve, hg]
    split
    · rw [place_ask, hplace, ask_eq]
      exact ⟨_, progress_setCall_self (by simpa using hlt) _,
        .declaring (e := exchangeFor ..) rfl hprev (.inl rfl)⟩
    · rw [fail_eq, place_setCall, place_abandon hc a hplace, hprev]
      exact ⟨_, progress_setCall_self (by exact hlt) _, .ended fun _ _ => .inl rfl⟩
  · rcases place_takeEffect name after hc hlt
      (f := fun y => { y with
        declared := Channel.without name y.declared
        deleted := y.deleted ++ [name] }) (fun b => by rw [hreq]; rfl) with
      -- The delete has happened: from here on the broker has nothing under the name, which is the
      -- case that a failing declare cannot undo.
      ⟨g, hq, hgg, hst, hpl⟩ | ⟨g, hq, hgg, _, hpl⟩
    · have hdel : ((w.connection e.connection).broker.channelOrNew k).deleted = b.deleted :=
        congrArg Place.deleted hplace
      have hbare : (w.takeEffect i e after).place e.connection k name =
          { b.bare name with entry := some x } := by
        rw [hpl, Channel.topicOf?_delete, if_pos rfl, hplace]
        simp only [hdel, Place.bare]
      rw [hbare]
      exact ⟨_, hq, .deleted (hgg.trans hg) hprev hb hst⟩
    · rw [hpl, hplace]
      exact ⟨_, hq, .deleting (hgg.trans hg) hprev hb⟩
  · rw [hlim] at hl
    cases hl

/-- When the call learns that the name is deleted it asks for the declaration. -/
theorem Attempt.deleted_step (hw : w.Wired) {e : Exchange} {a : Claim}
    (hp : w.progress? i = some (.exchange e)) (hr : w.resume? i = some v)
    (hg : e.goal = .retarget s x name a) (hprev : a.previous? = b.entry) (hb : b.entry ≠ none)
    (hs : e.stage = .answered .done)
    (hplace : w.place c k name = { b.bare name with entry := some x }) :
    ∃ q, v.progress? i = some q ∧ Attempt s name b q (v.place c k name) := by
  obtain ⟨_, _, _, hlim, _, _, _, _⟩ := hw.errand_retarget hp hg
  have hlt := lt_of_progress hp
  rcases resume_exchange hp hr with ⟨reply, _, hst, rfl⟩ | ⟨after, _, hst, _⟩ | ⟨_, hl, _⟩
  · obtain rfl : reply = .done := by
      rcases hst with ⟨f, after, hst, _⟩ | hst
      · rw [hs] at hst
        cases hst
      · exact Stage.answered.inj (hst.symm.trans hs)
    simp only [resolve, hg, Reply.result]
    rw [place_ask, hplace, ask_eq]
    exact ⟨_, progress_setCall_self (by simpa using hlt) _,
      .declaring (e := exchangeFor ..) (d := b.bare name) rfl hprev (.inr ⟨hb, rfl⟩)⟩
  · rw [hs] at hst
    cases hst
  · rw [hlim] at hl
    cases hl

/-- Once the subscription is declared the call does not fail at the broker any more. -/
theorem Attempt.of_declared (hw : w.Wired) {e : Exchange} {a : Claim} {reply : Reply}
    (hp : w.progress? i = some (.exchange e)) (hr : w.resume? i = some v)
    (hg : e.goal = .declare s x name a) (hs : e.stage.reply? = some reply)
    (hok : reply.result = .ok ()) :
    ∃ q, v.progress? i = some q ∧ Attempt s name b q (v.place c k name) := by
  obtain ⟨_, _, _, _, _, _, _, hi⟩ := hw.errand_declare hp hg
  obtain ⟨o, ho, hne⟩ := ended_of_declared hw hr hi rfl hs hok
  exact ⟨_, ho, .ended fun f hf => absurd hf (hne f)⟩

/-- The declaration takes effect or does not; if it is refused the claim is taken back, and what was
deleted stays so. -/
theorem Attempt.declaring_step (hw : w.Wired) (ha : w.address? s = some (c, k)) {e : Exchange}
    {a : Claim} (hp : w.progress? i = some (.exchange e)) (hr : w.resume? i = some v)
    (hg : e.goal = .declare s x name a) (hprev : a.previous? = b.entry) (hd : b.Spared name d)
    (hplace : w.place c k name = { d with entry := some x }) :
    ∃ q, v.progress? i = some q ∧ Attempt s name b q (v.place c k name) := by
  obtain ⟨t, k', _, hlim, _, ha', hreq, _⟩ := hw.errand_declare hp hg
  rw [ha] at ha'
  cases ha'
  have hlt := lt_of_progress hp
  have hc := hw.connection_lt ha
  rcases resume_exchange hp hr with ⟨reply, _, hst, he⟩ | ⟨after, _, _, rfl⟩ | ⟨_, hl, _⟩
  -- A declare that succeeds ends the attempt well whatever stood before; one that fails gives the
  -- entry back, and the subscription is where the delete left it.
  · cases hres : reply.result with
    | ok _ =>
      refine Attempt.of_declared hw hp hr hg ?_ hres
      rcases hst with ⟨f, after, hst, rfl⟩ | hst <;> rw [hst] <;> rfl
    | error f =>
      have hv : v = (w.abandonName e.connection name x a).fail i (.transport f) := by
        rw [he]
        simp only [resolve, hg, hres]
      rw [hv, fail_eq, place_setCall, place_abandon hc a hplace, hprev, ← hd.entry]
      exact ⟨_, progress_setCall_self (by exact hlt) _, .ended fun _ _ => hd⟩
  · rcases place_takeEffect name after hc hlt
      (f := fun y => { y with declared := (name, t.name) :: Channel.without name y.declared })
      (fun b => by rw [hreq]; rfl) with ⟨g, hq, hgg, hst, _⟩ | ⟨g, hq, hgg, _, hpl⟩
    · exact ⟨_, hq, .declared (hgg.trans hg) hst⟩
    · rw [hpl, hplace]
      exact ⟨_, hq, .declaring (hgg.trans hg) hprev hd⟩
  · rw [hlim] at hl
    cases hl

/-- The call itself brings the attempt on. -/
theorem Attempt.own_step (hw : w.Wired) (ha : w.address? s = some (c, k))
    (hp : w.progress? i = some p) (h : Attempt s name b p (w.place c k name))
    (hr : w.resume? i = some v) :
    ∃ q, v.progress? i = some q ∧ Attempt s name b q (v.place c k name) := by
  generalize hd : w.place c k name = d at h
  cases h with
  | deleting hg hprev hb => exact Attempt.deleting_step hw ha hp hr hg hprev hb hd
  | deleted hg hprev hb hs => exact Attempt.deleted_step hw hp hr hg hprev hb hs hd
  | declaring hg hprev hsp => exact Attempt.declaring_step hw ha hp hr hg hprev hsp hd
  | declared hg hs => exact Attempt.of_declared hw hp hr hg (by rw [hs]; rfl) rfl
  | ended _ =>
    rw [resume?, hp] at hr
    cases hr

/-! ## A call that nothing crosses -/

/-- A call to create a subscriber fails at once, and not at the broker, or takes the name and asks.
-/
theorem attempt_begins {t : Destination} (hv : v.Wired)
    (hs : v.step? (.call (.subscribe s t name)) = some u) (ha : v.address? s = some (c, k)) :
    ∃ q, u.progress? v.calls.length = some q ∧
      Attempt s name (v.place c k name) q (u.place c k name) := by
  obtain ⟨hm, rfl⟩ := step_call hs
  have hlt : v.calls.length < (v.enlist (.subscribe s t name)).calls.length := by simp
  have hc := hv.connection_lt ha
  have hbroker : ((v.call (.subscribe s t name)).2.connection c).broker =
      (v.connection c).broker := (stride_call v (.subscribe s t name)).broker c
  obtain ⟨rfl, rfl⟩ : (v.session s).connection = c ∧ (v.session s).channel = k := by
    rw [address_eq (lt_of_holdsSession hm)] at ha
    exact Prod.mk.inj (Option.some.inj ha)
  rw [call_eq, begin] at hbroker ⊢
  rcases subscribe_effect (v.enlist (.subscribe s t name)) v.calls.length s t name with
    ⟨e, he, hf⟩ | ⟨_, _, a, y, z, hclaim, hq, hz⟩
  · rw [hf]
    refine ⟨_, progress_setCall_self hlt _, .ended fun f hef => ?_⟩
    cases hef
    cases he
  · obtain ⟨_, hput⟩ := claimName_effect hclaim
    have hprev : a.previous? =
        (v.place (v.session s).connection (v.session s).channel name).entry :=
      (previous?_of_claimName hclaim :)
    have hz' : (z.connection (v.session s).connection).subscriptions.get? name =
        some v.consumers.length := by
      rw [hq.connection]
      refine (congrArg (fun x => x.subscriptions.get? name) (hput.connection _)).trans ?_
      exact (entry_rename_self hc (fun r => r.put name v.consumers.length) name).trans
        (Subscriptions.get?_put_self _ name _)
    -- The entry is the new consumer on both ways, with and without an older one.
    have hzlt : v.calls.length < z.calls.length := by
      rw [hq.calls]
      simp [(claimName_leaves hclaim).2.2.2]
    have hplace : ((v.enlist (.subscribe s t name)).subscribe v.calls.length s t name).place
        (v.session s).connection (v.session s).channel name =
        { v.place (v.session s).connection (v.session s).channel name with
          entry := some v.consumers.length } := by
      have hentry : (((v.enlist (.subscribe s t name)).subscribe v.calls.length s t name).connection
          (v.session s).connection).subscriptions.get? name = some v.consumers.length := by
        rcases hz with ⟨_, hz⟩ | hz <;>
          rw [hz, connection_ask_of (g := Connection.subscriptions) (by intros; rfl)] <;>
          exact hz'
      rw [place, hentry, hbroker]
      rfl
    rw [hplace]
    rcases hz with ⟨⟨p, rfl⟩, hz⟩ | hz
    · rw [hz, ask_eq]
      exact ⟨_, progress_setCall_self (by simpa using hzlt) _,
        .deleting (e := exchangeFor ..) rfl hprev (by rw [← hprev]; simp [Claim.previous?])⟩
    · rw [hz, ask_eq]
      exact ⟨_, progress_setCall_self (by simpa using hzlt) _,
        .declaring (e := exchangeFor ..) rfl hprev (.inl rfl)⟩

/-- Nobody else brings it on or back while nothing crosses the call. -/
theorem Attempt.step (hw : w.Wired) (ha : w.address? s = some (c, k)) (halone : w.Alone c i)
    (hl : l.throughSessions = true) (hnew : ∀ z, l = .call z → w.durableOn c z = false)
    (hs : w.step? l = some v) (hp : w.progress? i = some p)
    (h : Attempt s name b p (w.place c k name)) :
    ∃ q, v.progress? i = some q ∧ Attempt s name b q (v.place c k name) := by
  by_cases hli : l = .run (.call i)
  · subst hli
    exact h.own_step hw ha hp hs
  · -- Nobody else has an errand on this connection.
    have hother : ∀ j e, l = .run (.call j) → w.names.errand j = some e → e.connection ≠ c := by
      rintro j e rfl he hc
      exact hli (by rw [halone j e he hc])
    refine ⟨p, (progress_step hs (lt_of_progress hp) hli).trans hp, ?_⟩
    have hregister := subscriptions_step hw hl hs hnew fun j e hj he hc =>
      absurd hc (hother j e hj he)
    rw [place_congr hregister (books_step hw hs (hw.connection_lt ha) hother k) name]
    exact h

/-- So the attempt is followed from the step in which the call is made to any later state. -/
theorem attempt_of_run {t : Destination} (h : Run {} ls v)
    (hs : v.step? (.call (.subscribe s t name)) = some u) (hms : Run u ms w)
    (hl : ∀ l ∈ ms, l.throughSessions = true) (ha : v.address? s = some (c, k))
    (hrest : ∀ t ∈ v.calls, v.durableOn c t.call = true → t.progress.isEnded = true)
    (hnone : ∀ t ∈ w.calls.drop u.calls.length, w.durableOn c t.call = false) :
    ∃ q, w.progress? v.calls.length = some q ∧
      Attempt s name (v.place c k name) q (w.place c k name) := by
  have hv := wired_of_run h
  have hon := onward_step hv hs
  have hall : w.address? s = some (c, k) ∧ ∃ q, w.progress? v.calls.length = some q ∧
      Attempt s name (v.place c k name) q (w.place c k name) := by
    refine (alone_of_started hv hs hrest).run (P := fun x => x.address? s = some (c, k) ∧
      ∃ q, x.progress? v.calls.length = some q ∧
        Attempt s name (v.place c k name) q (x.place c k name)) hon.wired hms hl
      (clear_of_drop hnone) ⟨address_mono hon.grows ha, attempt_begins hv hs ha⟩ ?_
    rintro x l y hx halone hl hnew hs ⟨hax, q, hq, hat⟩
    exact ⟨address_mono (onward_step hx hs).grows hax, hat.step hx hax halone hl hnew hs hq⟩
  exact hall.2

/-- The topic of a consumer does not change. -/
theorem destinationOf_mono {xs : List Call} (hg : v.outline.Grows xs w.outline) {topic : String}
    (h : v.destinationOf x = .topic topic) : w.destinationOf x = .topic topic := by
  have hx : x < v.consumers.length := by
    by_contra hlt
    rw [destinationOf, consumer, List.getElem?_eq_none (Nat.le_of_not_lt hlt)] at h
    cases h
  exact (congrArg (fun o => o.2.1) (origin_of_grows hg hx)).trans h

/-- When creating a durable subscriber fails at the broker. In any state that a run comes to, let a
name be registered on a topic and declared there, or neither, let no call about a durable name of
the connection be under way when a call to create a subscriber for it is started, and none be
started until it has failed at the broker. Then the name is registered as it was, and register and
channel agree about it again just if nothing was deleted from the channel. -/
theorem failed_creation_agrees_iff {t : Destination} (h : Run {} ls v)
    (hs : v.step? (.call (.subscribe s t name)) = some u) (hms : Run u ms w)
    (hl : ∀ l ∈ ms, l.throughSessions = true)
    (hrest : ∀ t ∈ v.calls, v.durableOn (v.session s).connection t.call = true →
      t.progress.isEnded = true)
    (hnone : ∀ t ∈ w.calls.drop u.calls.length,
      w.durableOn (v.session s).connection t.call = false)
    (hagree : (v.entry (v.session s).connection name = none ∧
        (v.channelOf s).topicOf? name = none) ∨
      ∃ x topic, v.entry (v.session s).connection name = some x ∧
        v.destinationOf x = .topic topic ∧ (v.channelOf s).topicOf? name = some topic)
    {f : TransportFailure}
    (hf : w.progress? v.calls.length = some (.ended (.error (.transport f)))) :
    w.entry (v.session s).connection name = v.entry (v.session s).connection name ∧
    ((∀ topic, (∃ x, w.entry (v.session s).connection name = some x ∧
        w.destinationOf x = .topic topic) ↔ (w.channelOf s).topicOf? name = some topic) ↔
      (w.channelOf s).deleted = (v.channelOf s).deleted) := by
  have hv := wired_of_run h
  have hs' := lt_of_holdsSession (step_call hs).1
  have hg := (onward_step hv hs).grows.trans (hms.onward (onward_step hv hs).wired).grows
  obtain ⟨q, hq, hat⟩ := attempt_of_run h hs hms hl (address_eq hs') hrest hnone
  rw [hf] at hq
  cases hq
  have hspared : (v.place (v.session s).connection (v.session s).channel name).Spared name
      (w.place (v.session s).connection (v.session s).channel name) := by
    generalize w.place (v.session s).connection (v.session s).channel name = d at hat
    cases hat with
    | ended hd => exact hd f rfl
  -- The session has its channel still.
  have hch : w.channelOf s = (w.connection (v.session s).connection).broker.channelOrNew
      (v.session s).channel := by
    obtain ⟨hconn, hchan⟩ := Prod.mk.inj (address_of_grows hg hs')
    rw [channelOf, hconn, hchan]
  have hentry : w.entry (v.session s).connection name = v.entry (v.session s).connection name :=
    hspared.entry
  refine ⟨hentry, ?_⟩
  rw [hentry, hch]
  rcases hspared with heq | ⟨hne, heq⟩
  · have htopic : ((w.connection (v.session s).connection).broker.channelOrNew
        (v.session s).channel).topicOf? name = (v.channelOf s).topicOf? name :=
      congrArg Place.topic heq
    refine iff_of_true (fun topic => ?_) (congrArg Place.deleted heq)
    rw [htopic]
    rcases hagree with ⟨he, ht⟩ | ⟨x, topic', he, hd, ht⟩
    · simp [he, ht]
    · have hd' := destinationOf_mono hg hd
      rw [he, ht]
      constructor
      · rintro ⟨y, hy, hyd⟩
        cases hy
        rw [hd'] at hyd
        cases hyd
        rfl
      · rintro ⟨⟩
        exact ⟨x, rfl, hd'⟩
  · have htopic : ((w.connection (v.session s).connection).broker.channelOrNew
        (v.session s).channel).topicOf? name = none := congrArg Place.topic heq
    have hdel : ((w.connection (v.session s).connection).broker.channelOrNew
        (v.session s).channel).deleted = (v.channelOf s).deleted ++ [name] :=
      congrArg Place.deleted heq
    rcases hagree with ⟨he, _⟩ | ⟨x, topic, he, hd, _⟩
    · exact absurd he hne
    · refine iff_of_false (fun hall => ?_) (by simp [hdel])
      have hx := (hall topic).1 ⟨x, he, destinationOf_mono hg hd⟩
      rw [htopic] at hx
      cases hx

/-- A subscriber to trades is to take "feed" over from a closed one to prices. -/
abbrev moveOn : Label := .call (.subscribe 0 (.topic "trades") "feed")

theorem moveOn_undeletable_isSome : (undeletable.step? moveOn).isSome = true := by decide

/-- The broker does not delete the subscription to prices. -/
def stuck : System := (undeletable.step? moveOn).get moveOn_undeletable_isSome

theorem stuck_isSome : (stuck.after? [.run (.call 2)]).isSome = true := by decide

def stuckEnd : System := (stuck.after? [.run (.call 2)]).get stuck_isSome

/-- The call has failed and deleted nothing, and the name is on prices, in the register and at the
broker. -/
theorem stuckEnd_agrees : stuckEnd.entry 0 "feed" = some 0 ∧
    ∀ topic, (∃ x, stuckEnd.entry 0 "feed" = some x ∧ stuckEnd.destinationOf x = .topic topic) ↔
      (stuckEnd.channelOf 0).topicOf? "feed" = some topic := by
  have hfailed := failed_creation_agrees_iff (f := .io "link down")
    (.of_isSome linkDown_delete_isSome) (Option.some_get moveOn_undeletable_isSome).symm
    (.of_isSome stuck_isSome) (by decide) (by decide) (by decide)
    (.inr ⟨0, "prices", by decide, by decide, by decide⟩) (by rfl)
  have hentry : undeletable.entry 0 "feed" = some 0 := by decide
  exact ⟨hfailed.1.trans hentry, hfailed.2.2 (by decide)⟩

theorem linkDown_declare_isSome : (after? {} (linkDown .declare)).isSome = true := by decide

/-- The client after these steps, where the next declaration fails. -/
def undeclarable : System := (after? {} (linkDown .declare)).get linkDown_declare_isSome

theorem moveOn_undeclarable_isSome : (undeclarable.step? moveOn).isSome = true := by decide

/-- The broker deletes the subscription to prices, and does not declare the one to trades. -/
def movedOn : System := (undeclarable.step? moveOn).get moveOn_undeclarable_isSome

theorem movedOn_isSome :
    (movedOn.after? [.run (.call 2), .run (.call 2), .run (.call 2)]).isSome = true := by decide

def movedOnEnd : System :=
  (movedOn.after? [.run (.call 2), .run (.call 2), .run (.call 2)]).get movedOn_isSome

/-- Register and channel agreed before, nothing else was going on, and the call failed because the
broker did not declare the name. Now it is registered on prices and declared nowhere. -/
theorem movedOn_disagrees :
    Run {} (linkDown .declare) undeclarable ∧ undeclarable.step? moveOn = some movedOn ∧
    Run movedOn [.run (.call 2), .run (.call 2), .run (.call 2)] movedOnEnd ∧
    (∀ t ∈ undeclarable.calls, t.progress.isEnded = true) ∧ movedOnEnd.calls.length = 3 ∧
    undeclarable.entry 0 "feed" = some 0 ∧ undeclarable.consumerClosed 0 = true ∧
    undeclarable.destinationOf 0 = .topic "prices" ∧
    (undeclarable.channelOf 0).topicOf? "feed" = some "prices" ∧
    movedOnEnd.progress? 2 = some (.ended (.error (.transport (.io "link down")))) ∧
    movedOnEnd.entry 0 "feed" = some 0 ∧ movedOnEnd.destinationOf 0 = .topic "prices" ∧
    (movedOnEnd.channelOf 0).topicOf? "feed" = none :=
  ⟨.of_isSome linkDown_declare_isSome, (Option.some_get moveOn_undeclarable_isSome).symm,
    .of_isSome movedOn_isSome, by decide, by decide, by decide, by decide, by decide, by decide,
    by rfl, by decide, by decide, by decide⟩

end System

end BrokerClient
