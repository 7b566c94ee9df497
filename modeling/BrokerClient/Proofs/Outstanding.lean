import BrokerClient.Client.View
import BrokerClient.Proofs.Confirms

/-!
# What a session still awaits

The numbers that a session awaits are accounted for exactly (`outstanding_exact`): each is that of a
recorded message whose call was started while a listener was installed and which no report that the
session took covers, or it is the next number and such a call is publishing under it.

The account is kept by `Post.Awaits`, move by move. What it is about is the history of the run:
`trackedCalls` are the calls that sent while a listener was installed, `dispatched` are the reports
that the session's dispatcher took.

`Awaits` ties what a session awaits to a list of messages and a list of reports: a number is awaited
just if its message is in flight and tracked, and no report of the list covers it. Each move of
`Post` changes one side of this and the other alike (`Awaits.queue` to `Awaits.stream`). The one
move that is not local is a report that is taken, since it may cover many numbers at once
(`Awaits.settle`).

`Accounts` says what the two lists are in a run. It is kept by each step together with `Awaits`
(`Accounts.awaits_step`), and `accounted_of_run` is the induction. At the end the account is read as
the theorem wants it, where a call that is publishing stands for the next number (`publishing_iff`).
-/

namespace BrokerClient

/-- The session on which a call publishes or waits to, and whether it tracks its message. -/
def Sender.flag? : Sender → Option (SessionId × Bool)
  | .idle => none
  | .waiting s _ tracked => some (s, tracked)
  | .sending s _ _ tracked _ => some (s, tracked)

/-- A report that settles nothing leaves everything awaited. -/
theorem Pending.settle_eq_self {p : Pending} {e : ConfirmEvent}
    (h : p.settled e = []) : p.settle e = p := by
  have hnone : ∀ x ∈ p.entries, e.covers x.1 = false := by
    simpa [Pending.settled] using h
  exact Pending.ext (List.filter_eq_self.2 fun x hx => by simp [hnone x hx])

namespace Post

variable {A : SessionId → Option (ConnectionId × Nat)} {p q : Post} {i : CallId} {s r : SessionId}
  {c d : ConnectionId} {k n : Nat} {m : Message} {tag : Nat} {tracked recorded : Bool} {l : Label}
  {D : Nat → Prop} {es : List ConfirmEvent}

/-- A tracked message is being published on a session and is not recorded yet. -/
def InFlight (p : Post) (s : SessionId) : Prop :=
  ∃ i m tag, p.sender i = .sending s m tag true false

/-- A session awaits the numbers with `D` that no report of `es` covers, and the next number of its
channel if a tracked message is in flight. -/
def Awaits (p : Post) (s : SessionId) (c : ConnectionId) (k : Nat) (D : Nat → Prop)
    (es : List ConfirmEvent) : Prop :=
  ∀ t, t ∈ (p.desk s).pending.tags ↔
    (D t ∧ ∀ e ∈ es, e.covers t = false) ∨ (t = (p.box c k).next ∧ p.InFlight s)

/-- What neither the awaited numbers nor the next one nor the calls that publish see. -/
theorem Awaits.congr (h : p.Awaits s c k D es) (hp : (q.desk s).pending = (p.desk s).pending)
    (hb : (q.box c k).next = (p.box c k).next) (hf : q.InFlight s ↔ p.InFlight s) :
    q.Awaits s c k D es := by
  intro t
  rw [hp, hb, hf]
  exact h t

/-- What is awaited depends on which numbers are due, and not on how that is said. -/
theorem Awaits.of_iff (h : p.Awaits s c k D es) {E : Nat → Prop} (hD : ∀ t, E t ↔ D t) :
    p.Awaits s c k E es := by
  intro t
  rw [hD]
  exact h t

/-- Waiting for one's turn awaits nothing yet. -/
theorem pending_queue (p : Post) (i : CallId) (r : SessionId) (m : Message) (tracked : Bool)
    (s : SessionId) : ((p.queue i r m tracked).desk s).pending = (p.desk s).pending := by
  simp only [Post.queue, desk_assign, desk_atDesk]
  split <;> rfl

/-- A call that is idle, or goes on with a message that is not in flight, changes nothing. -/
theorem inFlight_assign {x : Sender} (hi : ∀ m tag, p.sender i ≠ .sending s m tag true false)
    (hx : ∀ m tag, x ≠ .sending s m tag true false) :
    (p.assign i x).InFlight s ↔ p.InFlight s := by
  constructor
  · rintro ⟨j, m, tag, hj⟩
    rw [sender_assign] at hj
    split at hj
    · exact absurd hj (hx m tag)
    · exact ⟨j, m, tag, hj⟩
  · rintro ⟨j, m, tag, hj⟩
    refine ⟨j, m, tag, ?_⟩
    rw [sender_assign, if_neg, hj]
    rintro rfl
    exact hi m tag hj

/-- So the account of a session stays right. -/
theorem Awaits.queue (h : p.Awaits s c k D es) (hi : p.sender i = .idle) (r : SessionId)
    (m : Message) (tracked : Bool) : (p.queue i r m tracked).Awaits s c k D es := by
  refine h.congr (pending_queue p i r m tracked s) rfl ?_
  refine (inFlight_assign (p := p.atDesk r _) ?_ ?_).trans Iff.rfl
  · intro m' tag
    rw [sender_atDesk, hi]
    exact Sender.noConfusion
  · intro m' tag
    exact Sender.noConfusion

/-- A tracked message that is sent is in flight, and is awaited under the next number. -/
theorem Awaits.start (hp : p.Sound A) (h : p.Awaits s c k D es) (hs : A s = some (c, k))
    (hi : p.sender i = .waiting r m tracked) (hfirst : (p.desk r).turns.head? = some i)
    (hr : A r = some (d, n)) : (p.start i r m tracked d n).Awaits s c k D es := by
  -- A waiting call has nothing in flight, so starting it hides no message of another one.
  have hidle : ∀ {s' m' tag'}, p.sender i ≠ .sending s' m' tag' true false := by
    intro s' m' tag'
    rw [hi]
    exact Sender.noConfusion
  by_cases hrs : r = s
  · subst hrs
    rw [hs] at hr
    cases hr
    have hnobody := (hp.session r).nobody_sends
      (fun j hj => Option.some.inj (hj.symm.trans hfirst)) hi
    have hnone : ¬ p.InFlight r := fun ⟨j, m', tag', hj⟩ => hnobody j m' tag' true false hj
    cases tracked with
    | true =>
      -- The tag is new to the session: not awaited, and in flight from now on.
      have hfresh := (hp.session r).next_not_awaited (hp.box c k) hs hnobody
      have hflight : (p.start i r m true c k).InFlight r :=
        ⟨i, m, (p.box c k).next, by simp only [Post.start, sender_assign, if_true]⟩
      intro t
      have ht := h t
      simp only [hnone, and_false, or_false] at ht
      simp only [Post.start, desk_assign, desk_atDesk, if_true]
      rw [Pending.mem_tags_track hfresh, ht]
      refine ⟨fun hor => hor.symm.imp id fun heq => ⟨heq, hflight⟩, fun hor => ?_⟩
      exact hor.symm.imp And.left id
    | false =>
      refine h.congr ?_ rfl ?_
      · simp only [Post.start, desk_assign, desk_atDesk, if_true]
        rfl
      · refine (inFlight_assign (p := p.atDesk r _) (fun _ _ => hidle) ?_).trans Iff.rfl
        intro m' tag' heq
        cases heq
  · refine h.congr ?_ rfl ?_
    · simp only [Post.start, desk_assign, desk_atDesk, if_neg hrs]
    · refine (inFlight_assign (p := p.atDesk r _) (fun _ _ => hidle) ?_).trans Iff.rfl
      intro m' tag' heq
      cases heq
      exact hrs rfl

/-- A call that has its answer gives its turn away; if its message was in flight, it is awaited no
longer. -/
theorem Awaits.leave (hp : p.Sound A) (h : p.Awaits s c k D es) (hs : A s = some (c, k))
    (hD : ∀ t, D t → t < (p.box c k).next) (hi : p.sender i = .sending r m tag tracked recorded)
    {g : Pending → Pending}
    (hg : g = if tracked && !recorded then (·.discard tag) else id) :
    (p.leave i r g).Awaits s c k D es := by
  have hinFlight : (p.leave i r g).InFlight s ↔ p.InFlight s ∧ ¬ (r = s ∧ tracked = true ∧
      recorded = false) := by
    constructor
    · rintro ⟨j, m', tag', hj⟩
      rw [Post.leave, sender_assign] at hj
      split at hj
      · cases hj
      next hij =>
        refine ⟨⟨j, m', tag', hj⟩, ?_⟩
        rintro ⟨rfl, _, _⟩
        exact hij ((hp.session _).eq_of_sending hi hj)
    · rintro ⟨⟨j, m', tag', hj⟩, hno⟩
      refine ⟨j, m', tag', ?_⟩
      rw [Post.leave, sender_assign, if_neg, sender_atDesk, hj]
      rintro rfl
      rw [hi] at hj
      cases hj
      exact hno ⟨rfl, rfl, rfl⟩
  by_cases hflight : r = s ∧ tracked = true ∧ recorded = false
  · -- It was in flight under the next number, which has no message yet.
    obtain ⟨rfl, rfl, rfl⟩ := hflight
    have htag := (hp.session _).fresh hi hs
    intro t
    have ht := h t
    have hmem : t ∈ ((p.leave i r g).desk r).pending.tags ↔
        t ∈ (p.desk r).pending.tags ∧ t ≠ tag := by
      simp only [Post.leave, desk_assign, desk_atDesk, if_true, hg, Pending.mem_tags,
        Pending.mem_discard, Bool.not_false, Bool.and_self]
      exact exists_and_right
    rw [hmem, ht, hinFlight]
    constructor
    · rintro ⟨hd | ⟨hnext, _⟩, hne⟩
      · exact .inl hd
      · exact absurd (hnext.trans htag.symm) hne
    · rintro (hd | ⟨_, _, hno⟩)
      · exact ⟨.inl hd, fun heq => Nat.ne_of_lt (hD t hd.1) (heq.trans htag)⟩
      · exact absurd ⟨rfl, rfl, rfl⟩ hno
  · refine h.congr ?_ rfl (hinFlight.trans (and_iff_left hflight))
    simp only [Post.leave, desk_assign, desk_atDesk]
    split
    next hrs =>
      have hid : (tracked && !recorded) = false := by
        simp only [hrs, true_and] at hflight
        cases tracked <;> cases recorded <;> simp_all
      rw [hg, hid]
      rfl
    next => rfl

/-- A message that is recorded has its number for good, and is not in flight any more. -/
theorem Awaits.record (hp : p.Sound A) (h : p.Awaits s c k D es)
    (hes : ∀ e ∈ es, e.tag < (p.box c k).next) (hi : p.sender i = .sending s m tag tracked false) :
    (p.record i s m tag tracked c k).Awaits s c k
      (fun t => D t ∨ (t = (p.box c k).next ∧ tracked = true)) es := by
  have hnone : ¬ (p.record i s m tag tracked c k).InFlight s := by
    rintro ⟨j, m', tag', hj⟩
    rw [Post.record, sender_assign] at hj
    split at hj
    · cases hj
    next hij => exact hij ((hp.session _).eq_of_sending hi hj)
  have hflight : p.InFlight s ↔ tracked = true := by
    constructor
    · rintro ⟨j, m', tag', hj⟩
      obtain rfl := (hp.session _).eq_of_sending hi hj
      rw [hi] at hj
      cases hj
      rfl
    · rintro rfl
      exact ⟨i, m, tag, hi⟩
  -- No report is about the next number yet.
  have hnext : ∀ e ∈ es, e.covers (p.box c k).next = false := by
    intro e he
    by_contra hc
    have hle := ConfirmEvent.covers_le (by simpa using hc)
    exact Nat.lt_irrefl _ (Nat.lt_of_le_of_lt hle (hes e he))
  intro t
  have ht := h t
  simp only [hnone, and_false, or_false]
  rw [Post.record, desk_assign, atBox, ht, hflight]
  constructor
  · rintro (hd | ⟨heq, htr⟩)
    · exact ⟨.inl hd.1, hd.2⟩
    · exact ⟨.inr ⟨heq, htr⟩, heq ▸ hnext⟩
  · rintro ⟨hd | hn, hc⟩
    · exact .inl ⟨hd, hc⟩
    · exact .inr hn

/-- A message that is recorded on another channel. -/
theorem Awaits.record_ne (h : p.Awaits s c k D es) (hrs : r ≠ s)
    (hcd : ¬ (d = c ∧ n = k)) (hi : p.sender i = .sending r m tag tracked false) :
    (p.record i r m tag tracked d n).Awaits s c k D es := by
  refine h.congr rfl ?_ ?_
  · rw [Post.record, box_assign, box_atBox, if_neg hcd]
  · refine (inFlight_assign (p := p.atBox d n _) ?_ ?_).trans Iff.rfl
    · intro m' tag' heq
      rw [show (p.atBox d n _).sender i = p.sender i from rfl, hi] at heq
      cases heq
      exact hrs rfl
    · intro m' tag' heq
      cases heq

/-- Reports count only when they are taken. -/
theorem Awaits.stream (h : p.Awaits s c k D es) (d : ConnectionId) (n : Nat)
    (fs : List ConfirmEvent) : (p.stream d n fs).Awaits s c k D es := by
  refine h.congr rfl ?_ Iff.rfl
  rw [Post.stream, box_atBox]
  split <;> rfl

/-- Whatever records nothing and is not the doing of a dispatcher keeps the account. -/
theorem Awaits.move (hp : p.Sound A) (h : p.Awaits s c k D es) (hs : A s = some (c, k))
    (hD : ∀ t, D t → t < (p.box c k).next) (hm : Move A l p q)
    (hl : ∀ r, l ≠ .run (.dispatcher r))
    (hrec : ∀ d n, (q.box d n).record = (p.box d n).record) : q.Awaits s c k D es := by
  cases hm with
  | queue hi => exact h.queue hi _ _ _
  | start hi hfirst hr => exact h.start hp hs hi hfirst hr
  | @come _ _ i r m tracked d n hi hfirst hr =>
    refine (h.queue hi r m tracked).start (hp.queue hi r m tracked) hs ?_ ?_ hr
    · simp only [Post.queue, sender_assign, if_true]
    · simp only [Post.queue, desk_assign, desk_atDesk, if_true, hfirst]
      rfl
  | @record _ i r m tag tracked d n hi hr =>
    -- A record that grows is not the same.
    have hlen := congrArg List.length (hrec d n)
    simp [Post.record] at hlen
  | done hi => exact h.leave hp hs hD hi (by rw [Bool.not_true, Bool.and_false]; rfl)
  | @fail _ _ _ _ _ _ tracked hi =>
    refine h.leave hp hs hD hi ?_
    cases tracked <;> rfl
  | report => exact h.stream _ _ _
  | drop => exact h.stream _ _ _
  | take => exact absurd rfl (hl _)

/-- A report that is taken ends the wait for what it covers; it covers nothing that is in flight. -/
theorem Awaits.settle (h : p.Awaits s c k D es) {e : ConfirmEvent} (he : e.tag < (p.box c k).next)
    (hp : (q.desk s).pending = (p.desk s).pending.settle e)
    (hb : (q.box c k).next = (p.box c k).next) (hf : q.InFlight s ↔ p.InFlight s) :
    q.Awaits s c k D (es ++ [e]) := by
  have hnext : e.covers (p.box c k).next = false := by
    by_contra hc
    have hle := ConfirmEvent.covers_le (by simpa using hc)
    exact Nat.lt_irrefl _ (Nat.lt_of_le_of_lt hle he)
  intro t
  have hmem : t ∈ ((p.desk s).pending.settle e).tags ↔
      t ∈ (p.desk s).pending.tags ∧ e.covers t = false := by
    simp only [Pending.mem_tags, Pending.mem_settle]
    exact ⟨fun ⟨m, hm, hc⟩ => ⟨⟨m, hm⟩, hc⟩, fun ⟨⟨m, hm⟩, hc⟩ => ⟨m, hm, hc⟩⟩
  rw [hp, hb, hf, hmem, h t]
  simp only [List.mem_append, List.mem_singleton, or_imp, forall_and, forall_eq]
  constructor
  · rintro ⟨⟨hd, hc⟩ | hn, ht⟩
    · exact .inl ⟨hd, hc, ht⟩
    · exact .inr hn
  · rintro (⟨hd, hc, ht⟩ | hn)
    · exact ⟨.inl ⟨hd, hc⟩, ht⟩
    · exact ⟨.inr hn, hn.1 ▸ hnext⟩

end Post

namespace System

variable {w v u : System} {i : CallId} {s r : SessionId} {c : ConnectionId} {k : Nat} {l : Label}
  {ls : List Label} {b : Bool} {T is : List CallId} {es : List ConfirmEvent}

/-! ## Whether a message is tracked -/

/-- A call that publishes sends under the number that was announced to it. -/
theorem sender_publish (hi : i < w.calls.length) (s : SessionId) (m : Message) (tracked : Bool) :
    (w.publish i s m tracked).post.sender i = .sending s m (w.announcedTag s) tracked false := by
  have hcalls : i < (w.readyToPublish s m tracked).calls.length := by simpa using hi
  rw [publish_eq, post_ask, post_setCall hcalls, Post.sender_assign, if_pos rfl]
  rfl

/-- A call that has ended sends nothing. -/
theorem sender_finish (hi : i < w.calls.length) (o : Outcome) :
    (w.finish i o).post.sender i = .idle := by
  rw [finish_eq, post_setCall hi, Post.sender_assign, if_pos rfl]
  rfl

/-- A call that publishes, or waits to, from its start on was started to send, and tracks its
message if a listener is installed then. -/
theorem flag_call {y : Call}
    (hf : ((w.call y).2.post.sender w.calls.length).flag? = some (s, b)) :
    (∃ m, y = .send s m) ∧ b = (w.session s).listener.isSome := by
  have hi := isPlain_enlist w y
  have hidle : (w.enlist y).post.sender w.calls.length = .idle := sender_of_isPlain hi
  -- A call of another kind never becomes a sender.
  have hmute : ∀ {u}, Mute (w.enlist y) u →
      (u.post.sender w.calls.length).flag? ≠ some (s, b) := by
    intro u hm
    rw [hm.post, hidle]
    exact nofun
  rw [call_eq] at hf
  cases y with
  | createSession c transacted mode via =>
    exact absurd hf (hmute (plain_createSession hi c transacted mode via).mute)
  | close c => exact absurd hf (hmute (plain_closeConnection hi c).mute)
  | closeSession t => exact absurd hf (hmute (plain_closeSession hi t).mute)
  | subscribe t d name => exact absurd hf (hmute (mute_subscribe hidle t d name))
  | unsubscribe t name => exact absurd hf (hmute (mute_unsubscribe hidle t name))
  | awaitResume x => exact absurd hf (hmute (plain_awaitResume hi x).mute)
  | send t m =>
    have hlt : w.calls.length <
        ((w.enlist (.send t m)).takePlace w.calls.length t).calls.length := by
      simp [takePlace]
    rw [begin] at hf
    rcases send_effect (w.enlist (.send t m)) w.calls.length t m with he | ⟨_, he⟩ | he
    · rw [he, fail_eq, ← finish_eq, sender_finish (by simp)] at hf
      cases hf
    · rw [he, sender_publish hlt] at hf
      cases hf
      exact ⟨⟨m, rfl⟩, rfl⟩
    · rw [he, post_setCall hlt, Post.sender_assign, if_pos rfl] at hf
      cases hf
      exact ⟨⟨m, rfl⟩, rfl⟩

/-- A call that goes on publishing tracks its message as before. -/
theorem flag_resume (hw : w.Wired) (h : w.resume? i = some v)
    (hf : (v.post.sender i).flag? = some (s, b)) : (w.post.sender i).flag? = some (s, b) := by
  rcases resume?_cases h with ⟨r, m, tracked, hp, _, rfl⟩ | ⟨e, reply, hp, _, _, rfl⟩ |
    ⟨e, after, hp, _, _, rfl⟩ | ⟨e, limit, hp, hl, _, _, rfl⟩ | ⟨x, o, hp, _, rfl⟩
  · rw [sender_publish (lt_of_progress hp)] at hf
    rw [post_sender hp]
    exact hf
  · cases hg : e.goal.publishes with
    | false =>
      rw [(mute_resolve hp hg reply).post] at hf
      exact hf
    | true =>
      -- The call ends with the answer.
      cases hgoal : e.goal with
      | publish t tag tracked =>
        have hended : ((w.resolve i e reply).post.sender i).flag? = none := by
          simp only [resolve, hgoal]
          rcases endPublish_effect w i t tag tracked reply.result with ⟨_, he⟩ | ⟨f, _, he⟩
          · rw [he, sender_finish (by simpa using lt_of_progress hp)]
            rfl
          · rw [he, fail_eq, ← finish_eq, sender_finish (by simpa using lt_of_progress hp)]
            rfl
        rw [hended] at hf
        cases hf
      | _ =>
        rw [hgoal] at hg
        cases hg
  · have hcall : (w.takeEffect i e after).progress? i = some (.exchange { e with
        stage := .answered ((w.connection e.connection).broker.perform e.request).1
        wake := w.now + ((w.connection e.connection).broker.perform e.request).2.lag
          ((w.connection e.connection).broker.perform e.request).1 + after }) :=
      progress_setCall_self (lt_of_progress hp) _
    rw [post_sender hcall] at hf
    rw [post_sender hp]
    revert hf
    simp only [Progress.sender, Exchange.sender]
    split <;> exact id
  · rw [(plain_giveUp (hw.isPlain_of_limit hp hl) e).post] at hf
    exact hf
  · rw [sender_finish (lt_of_progress hp)] at hf
    cases hf

/-- Whether a call tracks its message is settled when it is started. -/
theorem flag_step (hw : w.Wired) (hs : w.step? l = some v)
    (hf : (v.post.sender i).flag? = some (s, b)) : (w.post.sender i).flag? = some (s, b) ∨
      (i = w.calls.length ∧ (∃ m, l = .call (.send s m)) ∧
        b = (w.session s).listener.isSome) := by
  have hcalls := congrArg List.length (onward_step hw hs).grows.calls
  simp only [outline, List.length_map, List.length_append] at hcalls
  have hlt : i < v.calls.length := by
    by_contra hn
    have hnone : v.progress? i = none := by
      rw [progress?, List.getElem?_eq_none (Nat.le_of_not_lt hn)]
      rfl
    simp only [post, hnone] at hf
    cases hf
  rcases Nat.lt_or_ge i w.calls.length with hi | hi
  · refine .inl ?_
    by_cases hl : l = .run (.call i)
    · subst hl
      exact flag_resume hw hs hf
    · simp only [post, progress_step hs hi hl] at hf
      exact hf
  · -- Only a step that starts a call has one call more.
    cases l with
    | call y =>
      obtain ⟨_, rfl⟩ := step_call hs
      rw [hcalls, Label.started, List.length_singleton] at hlt
      obtain rfl : i = w.calls.length := Nat.le_antisymm (Nat.le_of_lt_succ hlt) hi
      obtain ⟨⟨m, rfl⟩, hb⟩ := flag_call hf
      exact .inr ⟨rfl, ⟨m, rfl⟩, hb⟩
    | _ =>
      rw [hcalls, Label.started, List.length_nil] at hlt
      · exact absurd hlt (Nat.not_lt.2 hi)
      · simp

/-! ## What a dispatcher takes -/

/-- A report ends the wait for what it covers, in the session that takes it. -/
theorem pending_handleReport (w : System) (r s : SessionId) (e : ConfirmEvent) :
    ((w.handleReport r e).session s).pending =
      if r = s then (w.session s).pending.settle e else (w.session s).pending := by
  unfold handleReport
  simp only
  split
  next hnil =>
    split
    next hrs =>
      subst hrs
      exact (Pending.settle_eq_self (List.isEmpty_iff.1 hnil)).symm
    · rfl
  next hne =>
    have hv : ∀ f : Session → Session, (∀ y, (f y).pending = y.pending.settle e) →
        ((w.modifySession r f).session s).pending =
          if r = s then (w.session s).pending.settle e else (w.session s).pending := by
      intro f hf
      split
      next hrs =>
        subst hrs
        by_cases hr : r < w.sessions.length
        · rw [session_modifySession_self hr, hf]
        · -- Where there is no session, nothing is settled.
          have hd : w.session r = default := by
            rw [session, List.getElem?_eq_none (Nat.le_of_not_lt hr)]
            rfl
          rw [hd] at hne
          exact absurd rfl hne
      next hrs => rw [session_modifySession_ne hrs]
    have hset := hv (fun x => { x with pending := x.pending.settle e }) fun _ => rfl
    split
    · exact hset
    next l _ =>
      have hfold := post_foldl_confirm r l ((w.session r).pending.settled e)
        (w.modifySession r fun x => { x with pending := x.pending.settle e })
      exact (congrArg (fun p : Post => (p.desk s).pending) hfold).trans hset

/-- The report that a step takes from the stream of a session's channel. -/
def taken? (s : SessionId) (x : System × Label) : Option ConfirmEvent :=
  match x.2 with
  | .run (.dispatcher r) =>
    if r = s ∧ s < x.1.sessions.length ∧ (x.1.session s).dispatcher = .running then
      (x.1.channelOf s).stream.head?
    else none
  | _ => none

/-- The reports that a session's dispatcher takes in a run, in that order. -/
def dispatched (s : SessionId) (w : System) (ls : List Label) : List ConfirmEvent :=
  (w.steps ls).filterMap (taken? s)

/-- A dispatcher that was told to stop takes nothing. -/
theorem taken_of_not_running (hd : (w.session r).dispatcher ≠ .running) (s : SessionId) :
    taken? s (w, .run (.dispatcher r)) = none := by
  refine if_neg ?_
  rintro ⟨rfl, _, hrun⟩
  exact hd hrun

/-- A dispatcher that runs takes the first report of its own channel. -/
theorem taken_of_running (hs : s < w.sessions.length) (hd : (w.session r).dispatcher = .running)
    {e : ConfirmEvent} {rest : List ConfirmEvent} (hstream : (w.channelOf r).stream = e :: rest) :
    taken? s (w, .run (.dispatcher r)) = if r = s then some e else none := by
  split
  next hrs =>
    subst hrs
    exact (if_pos ⟨rfl, hs, hd⟩).trans (congrArg List.head? hstream)
  next hrs => exact if_neg fun hn => hrs hn.1

/-- Only the session that takes a report awaits less than before. -/
theorem pending_dispatch (hs : s < w.sessions.length) (h : w.dispatch? r = some v) :
    (v.session s).pending = (taken? s (w, .run (.dispatcher r))).elim (w.session s).pending
      (w.session s).pending.settle := by
  rcases dispatch?_cases h with ⟨hd, rfl⟩ | ⟨e, rest, hd, hstream, rfl⟩
  · rw [taken_of_not_running (by rw [hd]; exact nofun)]
    exact session_modifySession_of (g := Session.pending) (by intro _; rfl)
      (w.modifyChannelOf r Channel.abandonStream) r s
  · rw [pending_handleReport, taken_of_running hs hd hstream]
    split <;> rfl

/-! ## The account -/

/-- The call that a step starts to send on a session where a listener is installed. -/
def tracker? (s : SessionId) (x : System × Label) : Option CallId :=
  match x.2 with
  | .call (.send r _) =>
    if r = s ∧ (x.1.session s).listener.isSome = true then some x.1.calls.length else none
  | _ => none

/-- The calls of a run that were started to send on a session while a listener was installed. -/
def trackedCalls (s : SessionId) (w : System) (ls : List Label) : List CallId :=
  (w.steps ls).filterMap (tracker? s)

/-- Whether a message is tracked is settled when its call starts: there is a listener at that
moment, or there is none. -/
theorem tracker_eq_some (h : tracker? s (w, l) = some i) : i = w.calls.length ∧
    ∃ m, l = .call (.send s m) ∧ (w.session s).listener.isSome = true := by
  unfold tracker? at h
  split at h
  next r m heq =>
    split at h
    next hrs =>
      cases h
      obtain ⟨rfl, hl⟩ := hrs
      exact ⟨rfl, m, heq, hl⟩
    next => cases h
  next => cases h

/-- The message recorded under a number came from one of the calls `T`, where `is` are the calls
behind the record. -/
def CameFrom (T is : List CallId) (t : Nat) : Prop := 1 ≤ t ∧ ∃ i ∈ T, is[t - 1]? = some i

/-- A number that came from some call is one of those given out. -/
theorem CameFrom.le {t : Nat} (h : CameFrom T is t) : t ≤ is.length := by
  obtain ⟨hpos, i, _, hi⟩ := h
  have hlt := (List.getElem?_eq_some_iff.1 hi).1
  omega

/-- A call with no message on record makes no difference. -/
theorem cameFrom_append {xs : List CallId} (h : ∀ i ∈ xs, i ∉ is) (t : Nat) :
    CameFrom (T ++ xs) is t ↔ CameFrom T is t := by
  constructor
  · rintro ⟨hpos, i, hi, ht⟩
    refine ⟨hpos, i, ?_, ht⟩
    exact (List.mem_append.1 hi).resolve_right fun hx => h i hx (List.mem_of_getElem? ht)
  · rintro ⟨hpos, i, hi, ht⟩
    exact ⟨hpos, i, List.mem_append_left _ hi, ht⟩

/-- A call more adds one number, if it was tracked. -/
theorem cameFrom_snoc (t : Nat) : CameFrom T (is ++ [i]) t ↔
    CameFrom T is t ∨ (t = is.length + 1 ∧ i ∈ T) := by
  constructor
  · rintro ⟨hpos, j, hj, ht⟩
    rcases Nat.lt_or_ge (t - 1) is.length with hlt | hge
    · rw [List.getElem?_append_left hlt] at ht
      exact .inl ⟨hpos, j, hj, ht⟩
    · have hlen := (List.getElem?_eq_some_iff.1 ht).1
      rw [List.length_append, List.length_singleton] at hlen
      obtain rfl : t = is.length + 1 := by omega
      rw [Nat.add_sub_cancel, List.getElem?_concat_length] at ht
      cases ht
      exact .inr ⟨rfl, hj⟩
  · rintro (⟨hpos, j, hj, ht⟩ | ⟨rfl, hi⟩)
    · refine ⟨hpos, j, hj, ?_⟩
      rw [List.getElem?_append_left (List.getElem?_eq_some_iff.1 ht).1, ht]
    · exact ⟨Nat.le_add_left 1 _, i, hi, by rw [Nat.add_sub_cancel, List.getElem?_concat_length]⟩

/-- What the histories of a session say of it: `T` are the calls that track their messages on it,
`es` the reports that it has taken. -/
structure Accounts (w : System) (s : SessionId) (T : List CallId) (es : List ConfirmEvent) :
    Prop where
  flagged : ∀ {i b}, (w.post.sender i).flag? = some (s, b) → (b = true ↔ i ∈ T)
  started : ∀ i ∈ T, ∃ m a, w.outline.calls[i]? = some (.send s m) ∧ w.address? s = some a
  /-- A report is about recorded messages. -/
  taken : ∀ e ∈ es, ∃ c k, w.address? s = some (c, k) ∧ e.tag < (w.post.box c k).next

/-- A record only grows. -/
theorem next_step (hw : w.Posted) (hv : v.Posted) (hp : Posts w l v) (c : ConnectionId) (k : Nat) :
    (w.post.box c k).next ≤ (v.post.box c k).next := by
  rcases hp.post with he | hm
  · exact Nat.le_of_eq (by rw [he])
  · rw [(hw.sound.box _ _).counted, (hv.sound.box _ _).counted]
    rcases hm.record_cases with hrec | ⟨i, s, m, tag, tracked, d, n, _, _, _, he⟩
    · exact Nat.le_of_eq (by rw [hrec])
    · rw [he, Post.record, Post.box_assign, Post.box_atBox]
      split
      · simp
      · exact Nat.le_refl _

/-- What is taken was on the stream of a session that is there. -/
theorem taken_eq_some {e : ConfirmEvent} (h : taken? s (w, l) = some e) :
    s < w.sessions.length ∧ e ∈ (w.channelOf s).stream := by
  unfold taken? at h
  split at h
  · split at h
    next hs => exact ⟨hs.2.1, List.mem_of_mem_head? h⟩
    next => cases h
  · cases h

/-- The histories of a session go on to be right. -/
theorem Accounts.step (h : w.Accounts s T es) (hw : w.Wired) (hp : w.Posted) (hv : v.Posted)
    (hposts : Posts w l v) (hs : w.step? l = some v) :
    v.Accounts s (T ++ (tracker? s (w, l)).toList) (es ++ (taken? s (w, l)).toList) := by
  have hgrows := (onward_step hw hs).grows
  have hlt : ∀ i ∈ T, i < w.calls.length := by
    intro i hi
    obtain ⟨m, _, hm, _⟩ := h.started i hi
    simpa [outline] using (List.getElem?_eq_some_iff.1 hm).1
  refine ⟨fun {i b} hf => ?flagged, fun i hi => ?started, fun e he => ?taken⟩
  case flagged =>
    rw [List.mem_append, Option.mem_toList]
    rcases flag_step hw hs hf with hold | ⟨rfl, ⟨m, rfl⟩, rfl⟩
    · -- A call that was started before does not track its message from now on.
      rw [h.flagged hold]
      refine (or_iff_left fun ht => ?_).symm
      obtain ⟨rfl, _⟩ := tracker_eq_some ht
      have hnone : w.progress? w.calls.length = none := by
        rw [progress?, List.getElem?_eq_none (Nat.le_refl _)]
        rfl
      simp only [post, hnone] at hold
      cases hold
    · have hnew : w.calls.length ∉ T := fun hi => Nat.lt_irrefl _ (hlt _ hi)
      rw [or_iff_right hnew]
      cases hl : (w.session s).listener <;> simp [tracker?, hl]
  case started =>
    rcases List.mem_append.1 hi with hi | hi
    · obtain ⟨m, a, hm, ha⟩ := h.started i hi
      exact ⟨m, a, call_mono hgrows hm, address_mono hgrows ha⟩
    · obtain ⟨rfl, m, rfl, _⟩ := tracker_eq_some (Option.mem_toList.1 hi)
      obtain ⟨hmay, _⟩ := step_call hs
      refine ⟨m, _, ?_, address_mono hgrows (address_eq (lt_of_holdsSession hmay))⟩
      rw [hgrows.calls, List.getElem?_append_right (by simp [outline])]
      simp [outline, Label.started]
  case taken =>
    rcases List.mem_append.1 he with he | he
    · obtain ⟨c, k, ha, hn⟩ := h.taken e he
      exact ⟨c, k, address_mono hgrows ha, Nat.lt_of_lt_of_le hn (next_step hp hv hposts c k)⟩
    · obtain ⟨hlen, hmem⟩ := taken_eq_some (Option.mem_toList.1 he)
      refine ⟨_, _, address_mono hgrows (address_eq hlen), ?_⟩
      exact Nat.lt_of_lt_of_le ((hp.sound.box _ _).reported e hmem) (next_step hp hv hposts _ _)

/-- What calls do about messages can be told from the calls. -/
theorem sender_congr (h : v.calls = w.calls) (i : CallId) : v.post.sender i = w.post.sender i := by
  simp only [post, progress?, h]

/-- A dispatcher's step: the session awaits what it awaited, without what a report covers. -/
theorem awaits_dispatch {D : Nat → Prop} (hp : w.Posted) (hv : v.Posted)
    (hposts : Posts w (.run (.dispatcher r)) v) (hs : w.dispatch? r = some v)
    (ha : w.address? s = some (c, k)) (h : w.post.Awaits s c k D es) :
    v.post.Awaits s c k D (es ++ (taken? s (w, .run (.dispatcher r))).toList) := by
  have hlen := lt_of_address ha
  have hpending : (v.post.desk s).pending = _ := pending_dispatch hlen hs
  have hflight : v.post.InFlight s ↔ w.post.InFlight s := by
    obtain ⟨f, hf⟩ := framed_dispatch hs
    have hsame : ∀ i, v.post.sender i = w.post.sender i := sender_congr (hf.calls.trans rfl)
    simp only [Post.InFlight, hsame]
  have hnext : (v.post.box c k).next = (w.post.box c k).next := by
    rw [(hp.sound.box _ _).counted, (hv.sound.box _ _).counted]
    rcases hposts.post with he | hm
    · rw [he]
    · rcases hm.record_cases with hrec | ⟨_, _, _, _, _, _, _, hl, _⟩
      · rw [hrec]
      · cases hl
  -- A report that is taken settles the pending map and joins the taken ones, all at once.
  cases ht : taken? s (w, .run (.dispatcher r)) with
  | none =>
    rw [ht] at hpending
    rw [Option.toList_none, List.append_nil]
    exact h.congr hpending hnext hflight
  | some e =>
    rw [ht] at hpending
    obtain ⟨_, hmem⟩ := taken_eq_some ht
    rw [address_eq hlen] at ha
    cases ha
    exact h.settle ((hp.sound.box _ _).reported e hmem) hpending hnext hflight

/-- A call that is started with a step has no message on record before it. -/
theorem Credited.not_started (hc : w.Credited c k is) :
    ∀ i ∈ (tracker? s (w, l)).toList, i ∉ is := by
  intro i hi hmem
  obtain ⟨n, hn⟩ := List.getElem?_of_mem hmem
  obtain ⟨_, _, _, _, hcall, _⟩ := hc.each n i hn
  obtain ⟨rfl, _⟩ := tracker_eq_some (Option.mem_toList.1 hi)
  have hlt := (List.getElem?_eq_some_iff.1 hcall).1
  simp [outline] at hlt

/-- The next number of a channel is one above those of the calls behind its record. -/
theorem Credited.next_eq (hp : w.Posted) (hc : w.Credited c k is) :
    is.length + 1 = (w.post.box c k).next := by
  rw [(hp.sound.box _ _).counted, record_post, hc.length]

/-- A step in which nothing is recorded and no report is taken leaves the account as it is. -/
theorem awaits_keep (hc : w.Credited c k is) (hr : recorder? c k (w, l) = none)
    (ht : taken? s (w, l) = none) (h : v.post.Awaits s c k (CameFrom T is) es) :
    v.post.Awaits s c k
      (CameFrom (T ++ (tracker? s (w, l)).toList) (is ++ (recorder? c k (w, l)).toList))
      (es ++ (taken? s (w, l)).toList) := by
  rw [hr, ht, Option.toList_none, Option.toList_none, List.append_nil, List.append_nil]
  exact h.of_iff (cameFrom_append hc.not_started)

/-- A message that a call publishes is recorded. On the channel of the session its number is awaited
from now on, if the call tracks it. -/
theorem Accounts.awaits_record (h : w.Accounts s T es) (hsound : w.ledger.Sound) (hp : w.Posted)
    (hs : w.step? (.run (.call i)) = some v) (ha : w.address? s = some (c, k))
    (hc : w.Credited c k is) (haw : w.post.Awaits s c k (CameFrom T is) es) {m : Message}
    {tag : Nat} {tracked : Bool} {d : ConnectionId} {n : Nat}
    (hi : w.post.sender i = .sending r m tag tracked false) (hr : w.address? r = some (d, n))
    (he : v.post = w.post.record i r m tag tracked d n) :
    v.post.Awaits s c k
      (CameFrom (T ++ (tracker? s (w, .run (.call i))).toList)
        (is ++ (recorder? c k (w, .run (.call i))).toList))
      (es ++ (taken? s (w, .run (.call i))).toList) := by
  have htracker : tracker? s (w, .run (.call i)) = none := rfl
  have htaken : taken? s (w, .run (.call i)) = none := rfl
  have hpub := published_of_record he c k
  by_cases hdn : d = c ∧ n = k
  · obtain ⟨rfl, rfl⟩ := hdn
    obtain rfl := address_inj hsound hr ha
    rw [if_pos ⟨rfl, rfl⟩] at hpub
    have hes : ∀ e ∈ es, e.tag < (w.post.box d n).next := by
      intro e he
      obtain ⟨d', n', hd, hlt⟩ := h.taken e he
      rw [ha] at hd
      cases hd
      exact hlt
    have hmem : tracked = true ↔ i ∈ T := h.flagged (by rw [hi]; rfl)
    simp only [recorder_of_append hs hpub, htaken, htracker, Option.toList_none, List.append_nil,
      Option.toList_some, he]
    refine (haw.record hp.sound hes hi).of_iff fun t => ?_
    rw [cameFrom_snoc, hc.next_eq hp, hmem]
  · rw [if_neg hdn] at hpub
    refine awaits_keep hc (recorder_of_eq hs hpub) htaken ?_
    rw [he]
    refine haw.record_ne ?_ hdn hi
    rintro rfl
    rw [ha] at hr
    cases hr
    exact hdn ⟨rfl, rfl⟩

/-- A step keeps the account of what a session awaits. -/
theorem Accounts.awaits_step (h : w.Accounts s T es) (hsound : w.ledger.Sound)
    (hp : w.Posted) (hv : v.Posted) (hposts : Posts w l v) (hs : w.step? l = some v)
    (ha : w.address? s = some (c, k)) (hc : w.Credited c k is)
    (haw : w.post.Awaits s c k (CameFrom T is) es) :
    v.post.Awaits s c k
      (CameFrom (T ++ (tracker? s (w, l)).toList) (is ++ (recorder? c k (w, l)).toList))
      (es ++ (taken? s (w, l)).toList) := by
  have hbelow : ∀ t, CameFrom T is t → t < (w.post.box c k).next := fun t ht =>
    hc.next_eq hp ▸ Nat.lt_succ_of_le ht.le
  by_cases hl : ∃ r, l = .run (.dispatcher r)
  · -- A dispatcher records nothing, and no call starts with its turn.
    obtain ⟨r, rfl⟩ := hl
    have htracker : tracker? s (w, .run (.dispatcher r)) = none := rfl
    have hrecorder : recorder? c k (w, .run (.dispatcher r)) = none := by
      unfold recorder?
      simp only
    rw [htracker, hrecorder, Option.toList_none, List.append_nil, List.append_nil]
    exact awaits_dispatch hp hv hposts hs ha haw
  · have hl' : ∀ r, l ≠ .run (.dispatcher r) := fun r hr => hl ⟨r, hr⟩
    have htaken : taken? s (w, l) = none := by
      unfold taken?
      split
      next r heq => exact absurd heq (hl' r)
      · rfl
    rcases hposts.post with he | hm
    · refine awaits_keep hc (recorder_of_eq hs ?_) htaken (he ▸ haw)
      rw [← record_post, he, record_post]
    · rcases hm.record_cases with hrec | ⟨i, r, m, tag, tracked, d, n, rfl, hi, hr, he⟩
      · exact awaits_keep hc (recorder_of_eq hs (hrec c k)) htaken
          (haw.move hp.sound ha hbelow hm hl' hrec)
      · exact h.awaits_record hsound hp hs ha hc haw hi hr he

/-- Before there is the session, nothing is awaited on it, and it has no history. -/
theorem Accounts.awaits_new (h : w.Accounts s T es) (hw : w.Posted) (ha : w.address? s = none)
    (hsound : w.ledger.Sound) (hposts : Posts w l v) (hs : w.step? l = some v) :
    v.post.Awaits s c k (CameFrom (T ++ (tracker? s (w, l)).toList) is)
      (es ++ (taken? s (w, l)).toList) := by
  -- A session that is not there has nothing pending and nobody who sends in it.
  have hnobody : (v.post.desk s).pending.entries = [] ∧ ∀ i m tag tracked recorded,
      v.post.sender i ≠ .sending s m tag tracked recorded := by
    rcases hposts.post with he | hm
    · rw [he]
      exact ⟨((hw.sound.session s).nobody ha).1, ((hw.sound.session s).nobody ha).2.2⟩
    · have hn := ((hw.sound.move (fun _ _ _ => address_inj hsound) hm).session s).nobody ha
      exact ⟨hn.1, hn.2.2⟩
  have hT : ∀ i, i ∉ T ++ (tracker? s (w, l)).toList := by
    intro i hi
    rcases List.mem_append.1 hi with hi | hi
    · obtain ⟨_, a, _, hsome⟩ := h.started i hi
      rw [ha] at hsome
      cases hsome
    · obtain ⟨_, m, rfl, _⟩ := tracker_eq_some (Option.mem_toList.1 hi)
      rw [address_eq (lt_of_holdsSession (step_call hs).1)] at ha
      cases ha
  intro t
  simp only [Pending.tags, hnobody.1, List.map_nil, List.not_mem_nil, false_iff, not_or]
  constructor
  · rintro ⟨⟨_, i, hi, _⟩, _⟩
    exact hT i hi
  · rintro ⟨_, i, m, tag, hi⟩
    exact hnobody.2 i m tag true false hi

/-- The account is right in every state that a client whose broker is truthful comes to. -/
theorem accounted_of_run (h : Run {} ls w) (ht : Along Truthful {} ls) (s : SessionId) :
    w.Accounts s (trackedCalls s {} ls) (dispatched s {} ls) ∧
    ∀ c k, w.address? s = some (c, k) → w.post.Awaits s c k
      (CameFrom (trackedCalls s {} ls) (publishers c k {} ls)) (dispatched s {} ls) := by
  -- Induction on the run. A session is made by one of its steps, so its first state needs an
  -- argument of its own; after that the step lemma carries it.
  induction h with
  | refl =>
    refine ⟨⟨fun {i b} hf => ?_, nofun, nofun⟩, nofun⟩
    cases hf
  | @step ls v l u hrun hs ih =>
    obtain ⟨hts, hl⟩ := (hrun.along_snoc _).1 ht
    obtain ⟨hacc, haw⟩ := ih hts
    have hw := wired_of_run hrun
    have hsound := sound_of_run hrun
    have hp := posted_of_run hrun hts
    have hv := hp.step hw hsound hl hs
    have hposts := posts_step hw hsound hp.upright hl hs
    have hT := hrun.filterMap_snoc (tracker? s) l
    have hes := hrun.filterMap_snoc (taken? s) l
    rw [trackedCalls, hT, dispatched, hes]
    refine ⟨hacc.step hw hp hv hposts hs, fun c k ha => ?_⟩
    cases hold : v.address? s with
    | none => exact hacc.awaits_new hp hold hsound hposts hs
    | some a =>
      have hsame := address_mono (onward_step hw hs).grows hold
      rw [ha] at hsame
      cases hsame
      rw [publishers_snoc hrun]
      exact hacc.awaits_step hsound hp hv hposts hs hold (credited_of_run hrun hts c k)
        (haw c k hold)

/-! ## The theorem -/

/-- A call has its turn on a session, and is publishing a message that the broker has neither
recorded nor refused to its knowledge. -/
def Publishing (w : System) (s : SessionId) (i : CallId) : Prop :=
  (w.session s).turns.head? = some i ∧ ∃ e tag tracked, w.progress? i = some (.exchange e) ∧
    e.goal = .publish s tag tracked ∧ e.stage.recorded = false

/-- A call is publishing just if it sends and its message has not been recorded. -/
theorem publishing_iff (hw : w.Wired) (hp : w.Posted) : w.Publishing s i ↔
    ∃ m tag tracked, w.post.sender i = .sending s m tag tracked false := by
  constructor
  · rintro ⟨_, e, tag, tracked, hprog, hg, hrec⟩
    obtain ⟨x, _, hf⟩ := hw.fits hprog
    simp only [Progress.Fits, Exchange.Fits, hg] at hf
    obtain ⟨_, m, k, _, _, hr⟩ := hf
    exact ⟨m, tag, tracked, by rw [post_sender_publish hprog hg hr, hrec]⟩
  · rintro ⟨m, tag, tracked, hi⟩
    obtain ⟨e, hprog, hg, hrec, _, _⟩ := hw.exchange_of_sender hi
    exact ⟨(hp.sound.session s).leads hi, e, tag, tracked, hprog, hg, hrec⟩

/-- No confirm is lost, and none is outstanding by mistake. In every state that a client whose
broker is truthful comes to, a session awaits exactly these numbers, each once: those of recorded
messages that came from tracked calls and that no report covers which its dispatcher took, and the
next number of its channel while a tracked call is publishing. The program is told how many they
are, and a call that failed is behind none of them. -/
theorem outstanding_exact {ls : List Label} {w : System} (h : Run {} ls w)
    (ht : Along Truthful {} ls) (s : SessionId) (hs : s < w.sessions.length) :
    (∀ t, t ∈ (w.session s).pending.tags ↔
      (1 ≤ t ∧ (∃ i ∈ trackedCalls s {} ls,
          (publishers (w.session s).connection (w.session s).channel {} ls)[t - 1]? = some i) ∧
        ∀ e ∈ dispatched s {} ls, e.covers t = false) ∨
      (t = (w.channelOf s).nextTag ∧ ∃ i ∈ trackedCalls s {} ls, w.Publishing s i)) ∧
    (w.session s).pending.tags.Nodup ∧
    (w.sessionView s).outstanding = (w.session s).pending.tags.length ∧
    ∀ i e, w.progress? i = some (.ended (.error e)) →
      i ∉ publishers (w.session s).connection (w.session s).channel {} ls ∧
        ¬ w.Publishing s i := by
  have hw := wired_of_run h
  have hp := posted_of_run h ht
  obtain ⟨hacc, haw⟩ := accounted_of_run h ht s
  refine ⟨fun t => ?_, Pending.nodup_tags _, ?_, fun i e hi => ⟨fun hmem => ?_, ?_⟩⟩
  · have hflight : w.post.InFlight s ↔ ∃ i ∈ trackedCalls s {} ls, w.Publishing s i := by
      constructor
      · rintro ⟨i, m, tag, hi⟩
        exact ⟨i, (hacc.flagged (by rw [hi]; rfl)).1 rfl, (publishing_iff hw hp).2 ⟨m, tag, _, hi⟩⟩
      · rintro ⟨i, hi, hpub⟩
        obtain ⟨m, tag, tracked, hsend⟩ := (publishing_iff hw hp).1 hpub
        obtain rfl := (hacc.flagged (by rw [hsend]; rfl)).2 hi
        exact ⟨i, m, tag, hsend⟩
    rw [← hflight, ← and_assoc]
    exact haw _ _ (address_eq hs) t
  · simp [sessionView, Pending.size, Pending.tags]
  · -- Behind each record is a call that has not failed.
    obtain ⟨n, hn⟩ := List.getElem?_of_mem hmem
    exact ((credited_of_run h ht _ _).each n i hn).1.not_failed hi
  · rintro ⟨_, x, _, _, hx, _⟩
    rw [hi] at hx
    cases hx

/-- The first of five messages is confirmed, the second is sent without a listener, the fourth
fails, and the fifth is being published under the number that the fourth would have had. -/
def mixedSends : List Label :=
  [.operate .createRegistry, .operate (.connect 0 (.ofMillis 15000) {}),
    .call (.createSession 0 false .auto none), .run (.call 0), .run (.call 0), .take 0,
    .operate (.setConfirmListener 0 (some { label := "app" })),
    .call (.send 0 { destination := .queue "orders", body := [1] }),
    .run (.call 1), .run (.call 1),
    .operate (.setConfirmListener 0 none),
    .call (.send 0 { destination := .queue "orders", body := [2] }),
    .run (.call 2), .run (.call 2),
    .operate (.setConfirmListener 0 (some { label := "app" })),
    .call (.send 0 { destination := .queue "orders", body := [3] }),
    .run (.call 3), .run (.call 3),
    .operate (.report 0 0 [{ tag := 1, ack := true }]), .run (.dispatcher 0),
    .operate (.inject 0 { kind := .publish, failure := some .alreadyClosed }),
    .call (.send 0 { destination := .queue "orders", body := [4] }), .run (.call 4),
    .call (.send 0 { destination := .queue "orders", body := [5] })]

theorem mixedSends_isSome : (after? {} mixedSends).isSome = true := by decide

def mixedSendsEnd : System := (after? {} mixedSends).get mixedSends_isSome

/-- Of five sends one is not tracked and one fails, a report has covered the first, and the last is
on its way. -/
theorem mixedSendsEnd_outstanding :
    (mixedSendsEnd.session 0).pending.tags = [3, 4] ∧
    (mixedSendsEnd.sessionView 0).outstanding = 2 ∧
    trackedCalls 0 {} mixedSends = [1, 3, 4, 5] ∧ publishers 0 0 {} mixedSends = [1, 2, 3] ∧
    mixedSendsEnd.Publishing 0 5 := by
  have htruthful : Along Truthful {} mixedSends := by decide
  have hs : 0 < mixedSendsEnd.sessions.length := by decide
  have htags : (mixedSendsEnd.session 0).pending.tags = [3, 4] := by decide
  have htracked : trackedCalls 0 {} mixedSends = [1, 3, 4, 5] := by decide
  have hpublishers : publishers 0 0 {} mixedSends = [1, 2, 3] := by decide
  obtain ⟨hmem, _, hsize, _⟩ :=
    outstanding_exact (.of_isSome mixedSends_isSome) htruthful 0 hs
  have hc : (mixedSendsEnd.session 0).connection = 0 := by decide
  have hk : (mixedSendsEnd.session 0).channel = 0 := by decide
  rw [← mixedSendsEnd] at hmem hsize
  rw [hc, hk, hpublishers] at hmem
  -- No message is recorded under the number 4, so that a call is publishing under it.
  obtain ⟨_, ⟨i, _, hi⟩, _⟩ | ⟨_, i, _, hfirst, hgoal⟩ := (hmem 4).1 (by rw [htags]; decide)
  · cases hi
  · have hturn : (mixedSendsEnd.session 0).turns.head? = some 5 := by decide
    obtain rfl := Option.some.inj (hturn.symm.trans hfirst)
    exact ⟨htags, by rw [hsize, htags]; rfl, htracked, hpublishers, hfirst, hgoal⟩

end System

end BrokerClient
