import BrokerClient.Proofs.Others
import BrokerClient.Proofs.SessionSet

/-!
# What confirm listeners are told

However messages are sent on a session at the same time, and whatever the broker does with each, a
confirm listener is told of messages that the broker recorded, under the numbers of their records,
of each number once, never on account of a call that failed, and of none once the session's close
was called (`confirms_sound`).

The broker's record does not say which call brought a message. The history of the run does:
`publishers` lists the calls whose requests took effect, in the order in which they did. That a call
knows that its message was recorded outlasts the steps of all others, and the call can then only
end well (`Brought`).

`Credited` says so of a list of calls: the message that the broker recorded at place `t` was brought
by the call at place `t`. Steps that record nothing leave it alone (`Credited.stay`), and a step
that records a message adds the call whose step it is (`Credited.add`). From there on the argument
is short. A confirmation names a number, `Post.Sound` gives the message recorded under it, and
`Credited` the call that brought it, which did not fail.

That nothing is told after the close is a matter of the session alone: one that is shut is deaf, and
stays so (`confirmations_of_closed`).
-/

namespace BrokerClient

namespace Post

variable {A : SessionId → Option (ConnectionId × Nat)} {p q : Post} {l : Label}

/-- Only a call that publishes adds to a record. -/
theorem Move.record_cases (hm : Move A l p q) :
    (∀ c k, (q.box c k).record = (p.box c k).record) ∨
    ∃ i s m tag tracked c k, l = .run (.call i) ∧
      p.sender i = .sending s m tag tracked false ∧ A s = some (c, k) ∧
      q = p.record i s m tag tracked c k := by
  have hstream : ∀ d n es c k,
      ((p.stream d n es).box c k).record = (p.box c k).record := by
    intro d n es c k
    rw [Post.stream, box_atBox]
    split <;> rfl
  cases hm with
  | record hi hs => exact .inr ⟨_, _, _, _, _, _, _, rfl, hi, hs, rfl⟩
  | report hes => exact .inl (hstream _ _ _)
  | drop hes => exact .inl (hstream _ _ _)
  | take hs he hnew => exact .inl (hstream _ _ _)
  | _ => exact .inl fun _ _ => rfl

/-- Only a dispatcher hands confirms over, and those are what the oldest report settles. -/
theorem Move.handed_cases (hm : Move A l p q) : q.handed = p.handed ∨
    ∃ s c k e rest, l = .run (.dispatcher s) ∧ A s = some (c, k) ∧
      (p.box c k).stream = e :: rest ∧ q.handed =
        (((p.desk s).pending.settled e).map fun x => (s, x)).reverse ++ p.handed := by
  cases hm with
  | @take _ s c k e rest new hs he hnew =>
    rcases hnew with rfl | rfl
    · exact .inl rfl
    · exact .inr ⟨s, c, k, e, rest, rfl, hs, he, rfl⟩
  | _ => exact .inl rfl

/-- What a dispatcher hands over is recorded, and the report that it takes is about it. -/
theorem Sound.handed_move (h : p.Sound A) (hA : ∀ s t a, A s = some a → A t = some a → s = t)
    (hm : Move A l p q) : ∃ new, q.handed = new ++ p.handed ∧ ∀ s x, (s, x) ∈ new →
      l = .run (.dispatcher s) ∧ ∃ c k e, A s = some (c, k) ∧
        (p.box c k).stream.head? = some e ∧ e.covers x.tag = true ∧ x.ack = e.ack ∧
        (p.box c k).Has x.tag x.message := by
  rcases hm.handed_cases with he | ⟨s, c, k, e, rest, rfl, hs, hstream, he⟩
  · exact ⟨[], he, fun s x hx => by cases hx⟩
  · refine ⟨_, he, fun t x hx => ?_⟩
    obtain ⟨y, hy, heq⟩ := List.mem_map.1 (List.mem_reverse.1 hx)
    cases heq
    obtain ⟨_, hcov, hack⟩ := Pending.mem_settled.1 hy
    refine ⟨rfl, c, k, e, hs, by rw [hstream]; rfl, hcov, hack, ?_⟩
    -- What is handed over is recorded after the step, and a dispatcher records nothing.
    have hhas := (((h.move hA hm).session s).handed hs (he ▸ List.mem_append_left _ hx)).1
    rcases hm.record_cases with hrec | ⟨_, _, _, _, _, _, _, hl, _⟩
    · rwa [Box.Has, hrec] at hhas
    · cases hl

end Post

namespace System

variable {w v u : System} {i : CallId} {c : ConnectionId} {s : SessionId} {k : Nat} {l : Label}
  {ls : List Label}

/-! ## The calls behind the record -/

/-- The messages that the broker recorded on a channel, in order. -/
def published (w : System) (c : ConnectionId) (k : Nat) : List Message :=
  ((w.connection c).broker.channelOrNew k).published

/-- The call whose message a step records on a channel. -/
def recorder? (c : ConnectionId) (k : Nat) (x : System × Label) : Option CallId :=
  match x.2, x.1.step? x.2 with
  | .run (.call i), some v =>
    if (x.1.published c k).length < (v.published c k).length then some i else none
  | _, _ => none

/-- The calls whose messages a run records on a channel, in the order of the record. -/
def publishers (c : ConnectionId) (k : Nat) (w : System) (ls : List Label) : List CallId :=
  (w.steps ls).filterMap (recorder? c k)

/-- A call has had its message recorded: it knows, or it has ended well. -/
def Brought (w : System) (i : CallId) : Prop :=
  w.progress? i = some (.ended (.ok .unit)) ∨
    ∃ s m tag tracked, w.post.sender i = .sending s m tag tracked true

/-- A call whose message came back has not failed. -/
theorem Brought.not_failed (h : w.Brought i) {e : Error} :
    w.progress? i ≠ some (.ended (.error e)) := by
  intro hp
  rcases h with ho | ⟨s, m, tag, tracked, hi⟩
  · rw [hp] at ho
    cases ho
  · rw [post_sender hp] at hi
    cases hi

/-- What is known of the calls behind a record. -/
structure Credited (w : System) (c : ConnectionId) (k : Nat) (is : List CallId) : Prop where
  length : is.length = (w.published c k).length
  each : ∀ (n : Nat) (i : CallId), is[n]? = some i → w.Brought i ∧ ∃ s m,
    w.address? s = some (c, k) ∧ w.outline.calls[i]? = some (.send s m) ∧
    (w.published c k)[n]? = some m

/-- A call that publishes was started to send the message on the session. -/
theorem Wired.exchange_of_sender (hw : w.Wired) {m : Message} {tag : Nat} {tracked recorded : Bool}
    (hi : w.post.sender i = .sending s m tag tracked recorded) :
    ∃ e, w.progress? i = some (.exchange e) ∧ e.goal = .publish s tag tracked ∧
      e.stage.recorded = recorded ∧ e.limit = none ∧
      w.outline.calls[i]? = some (.send s m) := by
  cases hp : w.progress? i with
  | none =>
    simp only [post, hp] at hi
    cases hi
  | some p =>
    rw [post_sender hp] at hi
    cases p with
    | exchange e =>
      obtain ⟨t, ht, hpt⟩ := task_of_progress hp
      have hcall : w.outline.calls[i]? = some t.call := by simp [outline, ht]
      have hf := hw.fit i t ht
      simp only [hpt, Progress.Fits, Exchange.Fits] at hf
      cases hg : e.goal with
      | publish s' tag' tracked' =>
        rw [hg] at hf
        obtain ⟨hlim, m', k, hc, _, hr⟩ := hf
        rw [Progress.sender, Exchange.sender, hg, hr] at hi
        cases hi
        exact ⟨e, rfl, hg, rfl, hlim, by rw [hcall, hc]⟩
      | _ =>
        rw [Progress.sender, Exchange.sender_eq_idle (by rw [hg]; rfl)] at hi
        cases hi
    | _ => cases hi

/-- A call that publishes keeps at it until the answer is there; then it ends, and well just if its
message was recorded. -/
theorem Wired.publishing_step (hw : w.Wired) {m : Message} {tag : Nat} {tracked recorded : Bool}
    (hi : w.post.sender i = .sending s m tag tracked recorded)
    (hs : w.step? (.run (.call i)) = some v) :
    (recorded = true ∧ v.progress? i = some (.ended (.ok .unit))) ∨
    (recorded = false ∧ ((∃ e, v.progress? i = some (.ended (.error e))) ∨
      ∃ now, v.post.sender i = .sending s m tag tracked now)) := by
  obtain ⟨e, hp, hg, hrec, hlim, _⟩ := hw.exchange_of_sender hi
  have hlt := lt_of_progress hp
  -- Of the ways in which a call can go on, only two fit an exchange without a limit: its answer
  -- comes, or its effect happens.
  rcases resume?_cases hs with ⟨_, _, _, hq, _⟩ | ⟨e', reply, hq, _, hstage, rfl⟩ |
    ⟨e', after, hq, _, hstage, rfl⟩ | ⟨e', limit, hq, hl, _⟩ | ⟨_, _, hq, _⟩ <;>
    rw [hp] at hq <;> cases hq
  · have hreply : recorded = reply.result.toBool := by
      rcases hstage with ⟨f, after, hb, rfl⟩ | hb <;> rw [hb] at hrec <;> exact hrec.symm
    simp only [resolve, hg]
    rcases endPublish_effect w i s tag tracked reply.result with ⟨hres, he⟩ | ⟨f, hres, he⟩ <;>
      rw [he] <;> rw [hres] at hreply
    · exact .inl ⟨hreply, progress_setCall_self hlt _⟩
    · exact .inr ⟨hreply, .inl ⟨_, progress_setCall_self hlt _⟩⟩
  · rw [hstage] at hrec
    refine .inr ⟨hrec.symm, .inr ?_⟩
    obtain ⟨y, _, hf⟩ := hw.fits hp
    simp only [Progress.Fits, Exchange.Fits, hg] at hf
    obtain ⟨_, m', k, _, _, hr⟩ := hf
    rw [post_sender_publish hp hg hr] at hi
    cases hi
    exact ⟨_, post_sender_publish (progress_setCall_self hlt _) hg hr⟩
  · rw [hlim] at hl
    cases hl

/-- A call goes on to end well once its message is recorded. -/
theorem Brought.step (hw : w.Wired) (h : w.Brought i) (hs : w.step? l = some v) : v.Brought i := by
  rcases h with ho | ⟨s, m, tag, tracked, hi⟩
  · exact .inl (ended_step hs ho)
  · by_cases hl : l = .run (.call i)
    · subst hl
      rcases hw.publishing_step hi hs with ⟨_, ho⟩ | ⟨hf, _⟩
      · exact .inl ho
      · cases hf
    · -- Every other step leaves the call where it stands.
      obtain ⟨e, hp, _⟩ := hw.exchange_of_sender hi
      refine .inr ⟨s, m, tag, tracked, ?_⟩
      have hv := (progress_step hs (lt_of_progress hp) hl).trans hp
      rw [post_sender hv, ← post_sender hp, hi]

/-- The record of a channel is what was published on it. -/
theorem record_post (w : System) (c : ConnectionId) (k : Nat) :
    (w.post.box c k).record = w.published c k := rfl

/-- What is known of the calls behind a record stays true. -/
theorem Credited.each_step {is : List CallId} (h : w.Credited c k is) (hw : w.Wired)
    (hs : w.step? l = some v) {n : Nat} (hi : is[n]? = some i) : v.Brought i ∧ ∃ s m,
      v.address? s = some (c, k) ∧ v.outline.calls[i]? = some (.send s m) ∧
      (w.published c k)[n]? = some m := by
  have hgrows := (onward_step hw hs).grows
  obtain ⟨hb, s, m, ha, hcall, hrec⟩ := h.each n i hi
  exact ⟨hb.step hw hs, s, m, address_mono hgrows ha, call_mono hgrows hcall, hrec⟩

/-- A step adds nothing to the record. -/
theorem Credited.stay {is : List CallId} (h : w.Credited c k is) (hw : w.Wired)
    (hs : w.step? l = some v) (hp : v.published c k = w.published c k) : v.Credited c k is := by
  refine ⟨by rw [hp]; exact h.length, fun n i hi => ?_⟩
  rw [hp]
  exact h.each_step hw hs hi

/-- A step adds the message of a call to the record. -/
theorem Credited.add {is : List CallId} (h : w.Credited c k is) (hw : w.Wired)
    (hs : w.step? l = some v) {m : Message} (hp : v.published c k = w.published c k ++ [m])
    (ha : w.address? s = some (c, k)) (hcall : w.outline.calls[i]? = some (.send s m))
    (hb : v.Brought i) : v.Credited c k (is ++ [i]) := by
  have hgrows := (onward_step hw hs).grows
  refine ⟨by simp only [hp, List.length_append, List.length_singleton, h.length], fun n j hj => ?_⟩
  rw [hp]
  rcases Nat.lt_or_ge n is.length with hn | hn
  · rw [List.getElem?_append_left hn] at hj
    rw [List.getElem?_append_left (h.length ▸ hn)]
    exact h.each_step hw hs hj
  · have hlast : n = is.length := by
      have hlt := (List.getElem?_eq_some_iff.1 hj).1
      simp only [List.length_append, List.length_singleton] at hlt
      omega
    subst hlast
    rw [List.getElem?_concat_length] at hj
    cases hj
    refine ⟨hb, s, m, address_mono hgrows ha, call_mono hgrows hcall, ?_⟩
    rw [h.length, List.getElem?_concat_length]

/-- The publishers of a run grow by the call whose message a step records. -/
theorem publishers_snoc (h : Run u ls w) (c : ConnectionId) (k : Nat) (l : Label) :
    publishers c k u (ls ++ [l]) = publishers c k u ls ++ (recorder? c k (w, l)).toList :=
  h.filterMap_snoc _ l

/-- Nobody is behind a record that does not grow. -/
theorem recorder_of_eq (hs : w.step? l = some v) (hp : v.published c k = w.published c k) :
    recorder? c k (w, l) = none := by
  unfold recorder?
  simp only [hs]
  cases l with
  | run a => cases a <;> simp [hp]
  | _ => rfl

/-- The step after which a message more is published is one of the call that published it. -/
theorem recorder_of_append (hs : w.step? (.run (.call i)) = some v) {m : Message}
    (hp : v.published c k = w.published c k ++ [m]) :
    recorder? c k (w, .run (.call i)) = some i := by
  unfold recorder?
  simp only [hs, hp]
  simp

/-- A message goes on the record of one channel, at its end. -/
theorem published_of_record {m : Message} {tag : Nat} {tracked : Bool} {d : ConnectionId} {n : Nat}
    (h : v.post = w.post.record i s m tag tracked d n) (c : ConnectionId) (k : Nat) :
    v.published c k = if d = c ∧ n = k then w.published c k ++ [m] else w.published c k := by
  rw [← record_post, h, Post.record, Post.box_assign, Post.box_atBox]
  split <;> rfl

/-- The record of a channel and the calls behind it grow together. -/
theorem credited_of_run (h : Run {} ls w) (ht : Along Truthful {} ls) (c : ConnectionId)
    (k : Nat) : w.Credited c k (publishers c k {} ls) := by
  induction h with
  | refl => exact ⟨rfl, fun n i hi => by cases hi⟩
  | @step ls v l u hrun hs ih =>
    obtain ⟨hts, hl⟩ := (hrun.along_snoc _).1 ht
    have hv := ih hts
    have hw := wired_of_run hrun
    have hstep := posts_step hw (sound_of_run hrun) (posted_of_run hrun hts).upright hl hs
    have hsame : u.published c k = v.published c k →
        u.Credited c k (publishers c k {} (ls ++ [l])) := by
      intro hp
      rw [publishers_snoc hrun, recorder_of_eq hs hp, Option.toList_none, List.append_nil]
      exact hv.stay hw hs hp
    rcases hstep.post with he | hm
    · refine hsame ?_
      rw [← record_post, he, record_post]
    · rcases hm.record_cases with hrec | ⟨i, s, m, tag, tracked, d, n, rfl, hi, ha, he⟩
      · exact hsame (hrec c k)
      · have hbox := published_of_record he c k
        -- A message that is recorded on another channel does not concern this record.
        by_cases hdn : d = c ∧ n = k
        · obtain ⟨rfl, rfl⟩ := hdn
          rw [if_pos ⟨rfl, rfl⟩] at hbox
          obtain ⟨e, _, _, _, _, hcall⟩ := hw.exchange_of_sender hi
          rw [publishers_snoc hrun, recorder_of_append hs hbox]
          refine hv.add hw hs hbox ha hcall (.inr ⟨s, m, tag, tracked, ?_⟩)
          rw [he, Post.record, Post.sender_assign, if_pos rfl]
        · rw [if_neg hdn] at hbox
          exact hsame hbox

/-! ## After the close -/

/-- After the first stretch of a call that closes a session the session is closed. -/
theorem closed_closeSession (hs : s < w.sessions.length) (i : CallId) :
    ((w.closeSession i s).session s).closed = true := by
  obtain ⟨v, hq, ⟨hc, he⟩ | ⟨_, he⟩⟩ := closeSession_effect w i s
  · have hv : (v.forget s).session s = w.session s := by
      rw [session_congr (forget_leaves v s).2.2.1, hq.session]
    rw [he, finish_eq, session_setCall, hv, hc]
  · have hlt : s < (v.forget s).sessions.length := by
      rw [(forget_leaves v s).2.2.1, hq.sessions]
      exact hs
    rw [he, session_congr (ask_leaves _ i _ _ _ _).2.2.1,
      session_congr (u := ((v.forget s).shutSession s).2)
        (w := (v.forget s).modifySession s Session.shut) (by simp),
      session_modifySession_self hlt]
    rfl

/-- A session whose close was called is closed, from that call's start on. -/
theorem shut_of_called (h : Run {} ls w) (hcall : .closeSession s ∈ w.outline.calls) :
    (w.session s).closed = true := by
  refine h.since_called (P := fun v => (v.session s).closed = true) hcall ?_ ?_
  · intro v hv
    exact closed_closeSession (w := v.enlist (.closeSession s)) (lt_of_holdsSession hv) _
  · intro v u hm hc
    exact session_closed_of_moves hm hc

/-- A session that is closed is told nothing more. -/
theorem confirmations_of_closed (hu : w.Upright) (hc : (w.session s).closed = true)
    (h : w.dispatch? s = some v) : v.confirmations = w.confirmations := by
  rcases dispatch?_cases h with ⟨_, rfl⟩ | ⟨_, _, hd, _⟩
  · rfl
  · exact absurd hd (hu.still s hc)

/-! ## Soundness -/

/-- Confirm soundness. In every run in which the broker reports on recorded messages only and
announces its numbers truthfully: a step that calls confirm listeners is one of a dispatcher whose
session is open and had no close called, each outcome is that of the message that the broker
recorded under its number, and the report that is taken covers the number and has that flag. A
session is told of no number twice. Behind each outcome is the call that brought the message to its
number in the record: it sends that message on that session, and has not failed. -/
theorem confirms_sound {ls : List Label} {w : System} (h : Run {} ls w)
    (ht : Along Truthful {} ls) :
    (∀ l v, w.Truthful l → w.step? l = some v → ∃ new, v.confirmations = new ++ w.confirmations ∧
      ∀ s x, (s, x) ∈ new → l = .run (.dispatcher s) ∧ (w.session s).closed = false ∧
        (∀ t ∈ w.calls, t.call ≠ .closeSession s) ∧
        ∃ e, (w.channelOf s).stream.head? = some e ∧ e.covers x.tag = true ∧ x.ack = e.ack ∧
          1 ≤ x.tag ∧ (w.channelOf s).published[x.tag - 1]? = some x.message) ∧
    (∀ s, ((w.confirmations.filter fun a => a.1 = s).map fun a => a.2.tag).Nodup) ∧
    ∀ s x, (s, x) ∈ w.confirmations → ∃ (i : CallId) (t : Task),
      (publishers (w.session s).connection (w.session s).channel {} ls)[x.tag - 1]? = some i ∧
      w.calls[i]? = some t ∧ t.call = .send s x.message ∧ ∀ e, t.progress ≠ .ended (.error e) := by
  have hw := wired_of_run h
  have hsound := sound_of_run h
  have hposted := posted_of_run h ht
  refine ⟨fun l v hl hs => ?_, fun s => (hposted.sound.session s).once, fun s x hx => ?_⟩
  · have hstep := posts_step hw hsound hposted.upright hl hs
    rcases hstep.post with he | hm
    · exact ⟨[], congrArg Post.handed he, fun s x hx => by cases hx⟩
    · obtain ⟨new, hnew, hall⟩ :=
        hposted.sound.handed_move (fun _ _ _ => address_inj hsound) hm
      refine ⟨new, hnew, fun s x hx => ?_⟩
      obtain ⟨rfl, c, k, e, ha, he, hcov, hack, hpos, hrec⟩ := hall s x hx
      -- The dispatcher of a closed session hands nothing over, and this one did.
      have hopen : (w.session s).closed = false := by
        by_contra hc
        have heq : v.confirmations = w.confirmations :=
          confirmations_of_closed hposted.upright (by simpa using hc) hs
        have hnil : new = [] := List.append_left_eq_self.1 (hnew.symm.trans heq)
        rw [hnil] at hx
        cases hx
      rw [address_eq (lt_of_address ha)] at ha
      cases ha
      refine ⟨rfl, hopen, fun t htask hcall => ?_, e, he, hcov, hack, hpos, hrec⟩
      have hc := shut_of_called h (s := s) (hcall ▸ List.mem_map_of_mem htask)
      rw [hopen] at hc
      cases hc
  · have ha : w.address? s = some ((w.session s).connection, (w.session s).channel) := by
      cases ha : w.address? s with
      | none => exact absurd hx (((hposted.sound.session s).nobody ha).2.1 x)
      | some a => rw [← ha, address_eq (lt_of_address ha)]
    -- The call behind the record of that number is the one that sent the message.
    have hcredit := credited_of_run h ht (w.session s).connection (w.session s).channel
    obtain ⟨⟨hpos, hrec⟩, _⟩ := (hposted.sound.session s).handed ha hx
    have hlt := (List.getElem?_eq_some_iff.1 hrec).1
    rw [record_post, ← hcredit.length] at hlt
    obtain ⟨hb, t, m, hat, hcall, hm⟩ := hcredit.each _ _ (List.getElem?_eq_getElem hlt)
    obtain rfl := address_inj hsound hat ha
    rw [record_post, hm] at hrec
    cases hrec
    obtain ⟨y, hy, hycall⟩ := by simpa [outline] using hcall
    refine ⟨_, y, List.getElem?_eq_getElem hlt, hy, hycall, fun e he => ?_⟩
    exact hb.not_failed (by rw [progress?, hy]; exact congrArg some he)

/-- A first message fails before it reaches the broker, a second one gets its number. -/
def secondTry : List Label :=
  [.operate .createRegistry, .operate (.connect 0 (.ofMillis 15000) {}),
    .call (.createSession 0 false .auto none), .run (.call 0), .run (.call 0), .take 0,
    .operate (.setConfirmListener 0 (some { label := "app" })),
    .operate (.inject 0 { kind := .publish, failure := some .alreadyClosed }),
    .call (.send 0 { destination := .queue "orders", body := [1] }),
    .call (.send 0 { destination := .queue "orders", body := [2] }),
    .run (.call 1), .run (.call 2), .run (.call 2),
    .operate (.report 0 0 [{ tag := 1, ack := true }]), .run (.dispatcher 0), .run (.call 2)]

theorem secondTry_isSome : (after? {} secondTry).isSome = true := by decide

def secondTryEnd : System := (after? {} secondTry).get secondTry_isSome

/-- The first send failed, and its number went to the second one, of which alone the listener was
told. -/
theorem secondTryEnd_confirmed :
    secondTryEnd.confirmations =
      [(0, ⟨1, { destination := .queue "orders", body := [2] }, true⟩)] ∧
    publishers 0 0 {} secondTry = [2] ∧
    ∃ t, secondTryEnd.calls[2]? = some t ∧ ∀ e, t.progress ≠ .ended (.error e) := by
  have htruthful : Along Truthful {} secondTry := by decide
  have hconfirmed : secondTryEnd.confirmations =
      [(0, ⟨1, { destination := .queue "orders", body := [2] }, true⟩)] := by decide
  have hpublishers : publishers 0 0 {} secondTry = [2] := by decide
  obtain ⟨i, t, hi, ht, _, hend⟩ :=
    (confirms_sound (.of_isSome secondTry_isSome) htruthful).2.2 0 _
      (hconfirmed ▸ List.mem_singleton.2 rfl)
  have hc : (secondTryEnd.session 0).connection = 0 := by decide
  have hk : (secondTryEnd.session 0).channel = 0 := by decide
  rw [← secondTryEnd, hc, hk, hpublishers] at hi
  cases hi
  exact ⟨hconfirmed, hpublishers, t, ht, hend⟩

end System

end BrokerClient
