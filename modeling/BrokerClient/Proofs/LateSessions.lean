import BrokerClient.Proofs.Punctual
import BrokerClient.Proofs.Teardown

/-!
# Sessions on a closing connection

Setting up a session takes the broker's time, and the connection may be closed meanwhile. A channel
that comes too late is closed again, no connection ever has its session, and the call fails because
the connection is closed. Where the broker refuses the channel there is nothing to give up, and the
call fails with the broker's failure, though the connection is closed as well
(`closing_connection_gives_no_session`).

`System.SetupStep` says what a call that creates a session can come to when it goes on. That it is
only ever at one of two requests, that it needs nobody else to end, and which session it makes are
read off it.

That the session gets into no set is an argument about the past. A session is registered in the step
in which it is made or never (`unlisted_of_made`), and it is registered then only if its connection
is not closed. `made_history` follows the sessions that a call has made through the run so far, and
`unlisted_step` through what comes after.
-/

namespace BrokerClient

/-! ## The two requests -/

/-- An exchange of a call that creates a session: for the channel, which is handed over or refused,
or for the close of a channel that came too late. -/
def Exchange.SetsUp (e : Exchange) : Prop :=
  (∃ transacted mode, e.goal = .openSession transacted mode ∧ e.stage ≠ .answered .done) ∨
    ∃ s n, e.goal = .discardSession s n

/-- How often a call that stands in such an exchange goes on, at most. -/
def Exchange.left (e : Exchange) : Nat :=
  (match e.goal with
    | .openSession _ _ => 2
    | _ => 0) +
  match e.stage with
    | .before _ _ => 2
    | .answered _ => 1

/-- The failure with which the broker refuses a channel, if a call hears of one. -/
def Talk.refusal? : Talk → Option TransportFailure
  | .answered _ .createChannel (.error f) => some f
  | _ => none

/-- Whether a step leaves everybody but call `i` alone: the call goes on, or time passes. -/
def Label.isOwn (i : CallId) : Label → Bool
  | .run (.call j) => j = i
  | .tick _ => true
  | _ => false

namespace System

open Ledger

variable {w v u : System} {i : CallId} {c d : ConnectionId} {s : SessionId} {l : Label}
  {ls ms : List Label} {e : Exchange} {transacted : Bool} {mode : AckMode} {via : Option Domain}

/-- The failure with which the broker refuses a channel, if call `i` hears of it in a step. -/
def refusal? (i : CallId) (x : System × Label) : Option TransportFailure :=
  (talk i x).findSome? Talk.refusal?

/-- The session that a step of call `i` makes, if it makes one. -/
def made? (i : CallId) (x : System × Label) : Option SessionId :=
  if x.1.isStepOf i x.2 && (x.1.step? x.2).any (x.1.sessions.length < ·.sessions.length) then
    some x.1.sessions.length
  else none

/-- What a call that stands in the exchange `e` comes to when it goes on. -/
inductive SetupStep (c : ConnectionId) (i : CallId) (e : Exchange) (w v : System) : Prop where
  /-- Its request takes effect. -/
  | performed (e' : Exchange) (hp : v.progress? i = some (.exchange e')) (he : e'.SetsUp)
    (hleft : e'.left < e.left) (hlen : v.sessions.length = w.sessions.length)
  /-- The broker refuses the channel. -/
  | refused (f : TransportFailure) (hheard : e.heard w.now = [.answered w.now .createChannel
    (.error f)]) (hp : v.progress? i = some (.ended (.error (.transport f))))
    (hlen : v.sessions.length = w.sessions.length)
  /-- The channel comes in time. -/
  | inTime (hopen : (w.connection c).life ≠ .closed)
    (hp : v.progress? i = some (.ended (.ok (.session w.sessions.length))))
  /-- The channel comes too late. -/
  | tooLate (e' : Exchange) (hp : v.progress? i = some (.exchange e')) (he : e'.SetsUp)
    (hleft : e'.left < e.left)
    (hsets : ∀ d, (v.connection d).sessions = (w.connection d).sessions)
  /-- The channel that came too late is closed, or that failed. -/
  | discarded (hheard : (e.heard w.now).findSome? Talk.refusal? = none)
    (hp : v.progress? i = some (.ended (.error (.closed .connection))))
    (hlen : v.sessions.length = w.sessions.length)

/-! ## Going on -/

/-- A call that asks the broker stands at the request. -/
theorem ask_stands (hi : i < w.calls.length) (c : ConnectionId) (request : Request)
    (limit : Option Nat) (goal : Goal) :
    ∃ e, (w.ask i c request limit goal).progress? i = some (.exchange e) ∧ e.goal = goal ∧
      ∃ failure after, e.stage = .before failure after := by
  refine ⟨w.exchangeFor c request limit goal, ?_, rfl, exchangeFor_stage w c request limit goal⟩
  rw [ask_eq]
  exact progress_setCall_self (by exact hi) _

/-- A call that is finished has ended, whatever was done quietly before. -/
theorem ended_setCall (hi : i < w.calls.length) (hq : Quiet w v) (o : Outcome) :
    (v.finish i o).progress? i = some (.ended o) :=
  progress_setCall_self (by rw [hq.calls]; exact hi) _

/-- The request of an exchange takes effect. -/
theorem setupStep_takeEffect (hw : w.Wired) (hp : w.progress? i = some (.exchange e))
    (he : e.SetsUp) {after : Nat} (hs : e.stage = .before none after) :
    SetupStep c i e w (w.takeEffect i e after) := by
  obtain ⟨x, _, hf⟩ := hw.fits hp
  refine .performed _ (progress_setCall_self (by exact lt_of_progress hp) _) ?_ ?_ rfl
  · rcases he with ⟨t, m, hg, _⟩ | hg
    · simp only [Progress.Fits, Exchange.Fits, hg] at hf
      refine .inl ⟨t, m, hg, ?_⟩
      -- The broker answers a request for a channel with one, or with a failure.
      rw [hf.2.2.1]
      rcases (w.connection e.connection).broker.createChannel_cases with ⟨f, hb⟩ | hb <;>
        simp [Broker.perform, hb]
    · exact .inr hg
  · simp [Exchange.left, hs]

/-- The broker hands a channel over. -/
theorem setupStep_openSession (hi : i < w.calls.length) {t : Bool} {m : AckMode}
    (hg : e.goal = .openSession t m) (k : Nat) :
    SetupStep c i e w (w.openSession i c k t m) := by
  cases hl : (w.connection c).life.isClosed with
  | true =>
    rw [openSession_closed hl]
    obtain ⟨e', hp, hg', failure, after, hs'⟩ := ask_stands (i := i)
      (w := ((w.enroll c (w.newSession c k t m)).shutSession w.sessions.length).2)
      (by simpa using hi) c (.closeChannel k) none (.discardSession w.sessions.length
        ((w.enroll c (w.newSession c k t m)).shutSession w.sessions.length).1)
    refine .tooLate e' hp (.inr ⟨_, _, hg'⟩) ?_ fun d => ?_
    · simp only [Exchange.left, hg, hg', hs']
      split <;> omega
    · rw [connection_ask_of (g := Connection.sessions) (fun _ _ _ => rfl),
        connection_congr (w := w.enroll c (w.newSession c k t m)) (by simp)]
      exact connection_modifyConnection_of (g := Connection.sessions) (by intro _; rfl) _ c d
  | false =>
    obtain ⟨v, hq, he⟩ := openSession_open hl i k t m
    rw [he]
    refine .inTime (by simpa [Lifecycle.isClosed] using hl) (progress_setCall_self ?_ _)
    simpa [hq.calls] using hi

/-- The answer to an exchange is there. -/
theorem setupStep_resolve (hw : w.Wired) (hp : w.progress? i = some (.exchange e))
    (hcall : w.IsCall i (.createSession c transacted mode via)) (he : e.SetsUp) {reply : Reply}
    (hwake : e.wake ≤ w.now) (hr : (∃ f after, e.stage = .before (some f) after ∧
      reply = .failed f) ∨ e.stage = .answered reply) :
    SetupStep c i e w (w.resolve i e reply) := by
  have hi := lt_of_progress hp
  have hheard : e.heard w.now = [.answered w.now e.request reply.result] := by
    rw [Exchange.heard, if_neg (Nat.not_lt.2 hwake)]
    rcases hr with ⟨f, after, hs, rfl⟩ | hs
    · rw [hs]
      rfl
    · rw [hs]
  obtain ⟨x, hx, hf⟩ := hw.fits hp
  obtain ⟨t', ht', _⟩ := task_of_progress hp
  obtain rfl := (hx t' ht').symm.trans (hcall t' ht')
  rcases he with ⟨t, m, hg, hdone⟩ | ⟨s, n, hg⟩
  -- The exchange fits its call, so it asked for a channel, or it closes one that came too late.
  · simp only [Progress.Fits, Exchange.Fits, hg] at hf
    obtain ⟨-, -, hrequest, t', m', v', hcall'⟩ := hf
    obtain rfl : c = e.connection := by cases hcall'; rfl
    simp only [resolve, hg]
    cases reply with
    | opened k => exact setupStep_openSession hi hg k
    | failed f =>
      exact .refused f (by rw [hheard, hrequest]; rfl) (ended_setCall hi (.refl w) _) rfl
    | done =>
      rcases hr with ⟨f, after, _, hr⟩ | hs
      · cases hr
      · exact absurd hs hdone
  · simp only [Progress.Fits, Exchange.Fits, hg] at hf
    obtain ⟨-, -, k, -, hrequest⟩ := hf
    have hnone : (e.heard w.now).findSome? Talk.refusal? = none := by
      rw [hheard, hrequest]
      rfl
    have hq := quiet_sessionShut w s n reply
    simp only [resolve, hg]
    split
    next heq =>
      rw [heq] at hq
      exact .discarded hnone (ended_setCall hi hq _) (congrArg List.length hq.sessions)
    next heq =>
      rw [heq] at hq
      exact .discarded hnone (ended_setCall hi (hq.then_log _) _) (congrArg List.length hq.sessions)

theorem setup_step (hw : w.Wired) (hp : w.progress? i = some (.exchange e))
    (hcall : w.IsCall i (.createSession c transacted mode via)) (he : e.SetsUp)
    (h : w.resume? i = some v) : SetupStep c i e w v := by
  rcases resume_exchange hp h with ⟨reply, hwake, hr, rfl⟩ | ⟨after, _, hs, rfl⟩ |
    ⟨limit, hl, _, _, _⟩
  · exact setupStep_resolve hw hp hcall he hwake hr
  · exact setupStep_takeEffect hw hp he hs
  · -- Such a call gives nothing up.
    obtain ⟨x, _, hf⟩ := hw.fits hp
    rcases he with ⟨t, m, hg, _⟩ | ⟨s, n, hg⟩ <;>
      · simp only [Progress.Fits, Exchange.Fits, hg] at hf
        rw [hl] at hf
        cases hf.1

/-- A call that creates a session fails at once on a connection that is closed. -/
theorem setup_call (w : System) (c : ConnectionId) (transacted : Bool) (mode : AckMode)
    (via : Option Domain) :
    ((w.connection c).life = .closed ∧
      (w.call (.createSession c transacted mode via)).2.progress? w.calls.length =
        some (.ended (.error (.closed .connection)))) ∨
    ((w.connection c).life ≠ .closed ∧ ∃ e : Exchange, e.SetsUp ∧
      (w.call (.createSession c transacted mode via)).2.progress? w.calls.length =
        some (.exchange e)) := by
  rw [call_eq]
  have hlife : ((w.enlist (.createSession c transacted mode via)).connection c).life =
      (w.connection c).life := rfl
  have hlen {v : System} (hq : v.calls = (w.enlist (.createSession c transacted mode via)).calls) :
      w.calls.length < v.calls.length := by
    simp [hq]
  obtain ⟨v, hq, ⟨hcl, he | he⟩ | ⟨hcl, he⟩⟩ := createSession_effect
    (w.enlist (.createSession c transacted mode via)) w.calls.length c transacted mode via
  -- A connection that is closed refuses before it asks; otherwise the first exchange stands.
  · refine .inl ⟨by simpa [Lifecycle.isClosed, hlife] using hcl, ?_⟩
    exact (congrArg (progress? · _) he).trans (progress_setCall_self (hlen hq.calls) _)
  · refine .inl ⟨by simpa [Lifecycle.isClosed, hlife] using hcl, ?_⟩
    exact (congrArg (progress? · _) he).trans (progress_setCall_self (by exact hlen hq.calls) _)
  · obtain ⟨e, hp, hg, failure, after, hs⟩ := ask_stands (w := v.closeIdentifierWindow c)
      (hlen hq.calls) c .createChannel none (.openSession transacted mode)
    refine .inr ⟨by simpa [Lifecycle.isClosed, hlife] using hcl, e, .inl ⟨_, _, hg, ?_⟩,
      (congrArg (progress? · _) he).trans hp⟩
    rw [hs]
    simp

theorem isCall_of_outline {y : Call} (h : w.outline.calls[i]? = some y) : w.IsCall i y := by
  intro t ht
  simpa [outline, ht] using h

/-- A call that creates a session stands at one of the two requests, or it has ended. -/
theorem setup_of_run (h : Run {} ls w)
    (hcall : w.outline.calls[i]? = some (.createSession c transacted mode via)) :
    (∃ o, w.progress? i = some (.ended o)) ∨
      ∃ e : Exchange, e.SetsUp ∧ w.progress? i = some (.exchange e) := by
  induction h with
  | refl => simp [outline] at hcall
  | @step ls w l v hrun hs ih =>
    have hw := wired_of_run hrun
    rcases call_of_step hw hs hcall with hold | ⟨rfl, rfl⟩
    · rcases ih hold with ⟨o, ho⟩ | ⟨e, he, hp⟩
      · exact .inl ⟨o, ended_step hs ho⟩
      · by_cases hl : l = .run (.call i)
        · subst hl
          cases setup_step hw hp (isCall_of_outline hold) he hs with
          | performed e' hp he' => exact .inr ⟨e', he', hp⟩
          | refused f _ hp => exact .inl ⟨_, hp⟩
          | inTime _ hp => exact .inl ⟨_, hp⟩
          | tooLate e' hp he' => exact .inr ⟨e', he', hp⟩
          | discarded _ hp => exact .inl ⟨_, hp⟩
        · exact .inr ⟨e, he, (progress_step hs (lt_of_progress hp) hl).trans hp⟩
    · obtain ⟨_, rfl⟩ := step_call hs
      rcases setup_call w c transacted mode via with ⟨_, ho⟩ | ⟨_, e, he, hp⟩
      · exact .inl ⟨_, ho⟩
      · exact .inr ⟨e, he, hp⟩

/-! ## How it ends -/

/-- What a call comes to that creates a session on a closed connection. -/
def lateOutcome (refusal : Option TransportFailure) : Outcome :=
  match refusal with
  | some f => .error (.transport f)
  | none => .error (.closed .connection)

/-- The refusal that a call hears of when it ends is among what it hears in its last exchange. -/
theorem refusal?_run (hp : w.progress? i = some (.exchange e))
    (hs : w.step? (.run (.call i)) = some v) {o : Outcome} (ho : v.progress? i = some (.ended o)) :
    refusal? i (w, .run (.call i)) = (e.heard w.now).findSome? Talk.refusal? := by
  rw [refusal?, talk_run hp hs, exchange?_ended ho, Option.elim_none, List.append_nil]

theorem progress_ne_ended (h : w.hasEnded i = false) (o : Outcome) :
    w.progress? i ≠ some (.ended o) := by
  intro hp
  simp [hasEnded, hp] at h

/-- The step with which a call ends that creates a session on a connection that is closed. -/
theorem outcome_of_late (h : Run {} ls w) (hs : w.step? l = some v)
    (hcall : v.outline.calls[i]? = some (.createSession c transacted mode via))
    (hclosed : (w.connection c).life = .closed) (hgoes : w.hasEnded i = false) {o : Outcome}
    (ho : v.progress? i = some (.ended o)) : o = lateOutcome (refusal? i (w, l)) := by
  have hw := wired_of_run h
  have hended {o'} (ho' : v.progress? i = some (.ended o')) : o = o' := by
    rw [ho] at ho'
    exact Progress.ended.inj (Option.some.inj ho')
  rcases call_of_step hw hs hcall with hold | ⟨rfl, rfl⟩
  · rcases setup_of_run h hold with ⟨o', ho'⟩ | ⟨e, he, hp⟩
    · exact absurd ho' (progress_ne_ended hgoes o')
    · -- The call ends in a step of its own.
      obtain rfl : l = .run (.call i) := by
        by_contra hl
        rw [progress_step hs (lt_of_progress hp) hl, hp] at ho
        cases ho
      rw [refusal?_run hp hs ho]
      cases setup_step hw hp (isCall_of_outline hold) he hs with
      | performed e' hp' => rw [ho] at hp'; cases hp'
      | refused f hheard hp' =>
        rw [hheard]
        exact hended hp'
      | inTime hopen => exact absurd hclosed hopen
      | tooLate e' hp' => rw [ho] at hp'; cases hp'
      | discarded hheard hp' =>
        rw [hheard]
        exact hended hp'
  · have hnone : refusal? w.calls.length (w, .call (.createSession c transacted mode via)) =
        none := by
      rw [refusal?, talk_call hs, exchange?_ended ho]
      rfl
    obtain ⟨_, rfl⟩ := step_call hs
    rw [hnone]
    rcases setup_call w c transacted mode via with ⟨_, ho'⟩ | ⟨hopen, _⟩
    · exact hended ho'
    · exact absurd hclosed hopen

/-! ## It needs nobody else -/

/-- A call that waits for the broker goes on once the time has come. -/
theorem runs_on (hp : w.progress? i = some (.exchange e)) : ∃ t v, w.now ≤ t ∧
    ({ w with now := t } : System).resume? i = some v := by
  refine ⟨max w.now e.wake, ?_⟩
  have hp' : ({ w with now := max w.now e.wake } : System).progress? i = some (.exchange e) := hp
  have hwake : e.wake ≤ max w.now e.wake := Nat.le_max_right _ _
  rw [resume?, hp']
  simp only [advance?, hwake, if_true]
  cases e.stage with
  | before failure after =>
    cases failure with
    | none => exact ⟨_, Nat.le_max_left _ _, rfl⟩
    | some f => exact ⟨_, Nat.le_max_left _ _, rfl⟩
  | answered reply => exact ⟨_, Nat.le_max_left _ _, rfl⟩

/-- A call that creates a session ends though nobody else does anything. -/
theorem setup_ends (h : Run {} ls w)
    (hcall : w.outline.calls[i]? = some (.createSession c transacted mode via)) :
    ∃ ms u o, Run w ms u ∧ (∀ m ∈ ms, m.isOwn i = true) ∧ u.progress? i = some (.ended o) := by
  rcases setup_of_run h hcall with ⟨o, ho⟩ | ⟨e, he, hp⟩
  · exact ⟨[], w, o, .refl, by simp, ho⟩
  · -- Each time that it goes on there is less left to do.
    induction hn : e.left using Nat.strongRecOn generalizing e w ls with
    | ind n ih =>
      obtain ⟨t, v, ht, hv⟩ := runs_on hp
      have htick : w.step? (.tick t) = some { w with now := t } := if_pos ht
      have hr : Run w [.tick t, .run (.call i)] v := .step (.step .refl htick) hv
      have hown : ∀ m ∈ [Label.tick t, .run (.call i)], m.isOwn i = true := by
        simp [Label.isOwn]
      have hrv : Run {} (ls ++ [.tick t, .run (.call i)]) v := h.trans hr
      have hcall' : v.outline.calls[i]? = some (.createSession c transacted mode via) := by
        have hg := (hr.onward (wired_of_run h)).grows.calls
        rw [hg]
        exact List.getElem?_append_left (List.getElem?_eq_some_iff.1 hcall).1 ▸ hcall
      have hgo {e' : Exchange} (hp' : v.progress? i = some (.exchange e')) (he' : e'.SetsUp)
          (hleft : e'.left < e.left) : ∃ ms u o, Run w ms u ∧ (∀ m ∈ ms, m.isOwn i = true) ∧
            u.progress? i = some (.ended o) := by
        obtain ⟨ms, u, o, hms, hms', ho⟩ := ih e'.left (hn ▸ hleft) hrv hcall' e' he' hp' rfl
        exact ⟨_, u, o, hr.trans hms, by simpa [or_imp, forall_and, Label.isOwn] using hms', ho⟩
      have hw : ({ w with now := t } : System).Wired := wired_of_run (.step h htick)
      cases setup_step (w := { w with now := t }) hw hp (isCall_of_outline hcall) he hv with
      | performed e' hp' he' hleft => exact hgo hp' he' hleft
      | refused f _ hp' => exact ⟨_, v, _, hr, hown, hp'⟩
      | inTime _ hp' => exact ⟨_, v, _, hr, hown, hp'⟩
      | tooLate e' hp' he' hleft => exact hgo hp' he' hleft
      | discarded _ hp' => exact ⟨_, v, _, hr, hown, hp'⟩

/-! ## Its session is in no set -/

/-- Whether a connection has a session. -/
def Listed (w : System) (s : SessionId) : Prop := ∃ c, s ∈ (w.connection c).sessions

/-- Only a session that is new comes into a set. -/
theorem unlisted_of_moves {L M : Ledger} (hm : Moves L M) (hs : s < L.rooms.length)
    (h : ∀ c, s ∉ (L.line c).registered) (c : ConnectionId) : s ∉ (M.line c).registered := by
  induction hm generalizing c with
  | refl => exact h c
  | @tail L' M hms hm ih =>
    obtain ⟨y, hy, _⟩ := room_of_moves hms (List.getElem?_eq_getElem hs)
    have hlt := (List.getElem?_eq_some_iff.1 hy).1
    intro hmem
    rcases hm.newly_registered hmem with hold | ⟨rfl, -⟩
    · exact ih c hold
    · exact Nat.lt_irrefl _ hlt

theorem lt_of_listed (h : w.ledger.Sound) (hs : w.Listed s) : s < w.sessions.length := by
  obtain ⟨c, hs⟩ := hs
  obtain ⟨x, hx, _⟩ := h.placed.enlisted (c := c) (by rw [ledger_line]; exact hs)
  exact (room_eq_some hx).1

/-- A session that no connection has gets into no set any more. -/
theorem unlisted_step (hw : w.Wired) (h : w.ledger.Sound) (hs : w.step? l = some v)
    (hlt : s < w.sessions.length) (hnot : ¬w.Listed s) : ¬v.Listed s := by
  have hm := unlisted_of_moves (s := s) (moves_step hw h hs) (by simpa [ledger] using hlt)
    fun c hc => hnot ⟨c, by rwa [ledger_line] at hc⟩
  rintro ⟨c, hc⟩
  exact hm c (by rw [ledger_line]; exact hc)

/-- Sessions are added and never taken away. -/
theorem length_sessions_step (hw : w.Wired) (hs : w.step? l = some v) :
    w.sessions.length ≤ v.sessions.length := by
  simpa [outline] using (onward_step hw hs).grows.addresses.length_le

/-- What was in a set once is a session that there is. -/
theorem lt_of_wasListed (h : Run {} ls w) {x : System × Label} (hx : x ∈ ({} : System).steps ls)
    (hs : x.1.Listed s) : s < w.sessions.length := by
  induction h with
  | refl => cases hx
  | step hrun hstep ih =>
    rw [hrun.steps_snoc, List.mem_append, List.mem_singleton] at hx
    refine Nat.lt_of_lt_of_le ?_ (length_sessions_step (wired_of_run hrun) hstep)
    rcases hx with hx | rfl
    · exact ih hx
    · exact lt_of_listed (sound_of_run hrun) hs

/-- A session that a call makes is what the call gives, or it comes into no set. -/
theorem unlisted_of_made (hw : w.Wired) (h : Run {} ls w) (hs : w.step? l = some v)
    (hcall : w.IsCall i (.createSession c transacted mode via)) (hmade : made? i (w, l) = some s) :
    s = w.sessions.length ∧ s < v.sessions.length ∧
      (v.progress? i = some (.ended (.ok (.session s))) ∨ ¬v.Listed s) := by
  rw [made?, hs] at hmade
  simp only [Option.any_some, Bool.and_eq_true, decide_eq_true_eq, Option.ite_none_right_eq_some,
    Option.some.injEq] at hmade
  obtain ⟨⟨hstep, hgrows⟩, rfl⟩ := hmade
  refine ⟨rfl, hgrows, ?_⟩
  cases l with
  | call y =>
    obtain ⟨_, rfl⟩ := step_call hs
    exact absurd (seats_call w y).length_eq (Nat.ne_of_gt hgrows)
  | run a =>
    cases a with
    | dispatcher t => simp [isStepOf] at hstep
    | call j =>
      obtain rfl : j = i := by simpa [isStepOf] using hstep
      have hr : w.resume? j = some v := hs
      obtain ⟨p, hp⟩ : ∃ p, w.progress? j = some p := by
        cases hp : w.progress? j with
        | none => simp [resume?, hp] at hr
        | some p => exact ⟨p, rfl⟩
      obtain ⟨t, ht, -⟩ := task_of_progress hp
      have hout : w.outline.calls[j]? = some (.createSession c transacted mode via) := by
        simp [outline, ht, hcall t ht]
      rcases setup_of_run h hout with ⟨o, ho⟩ | ⟨e, he, hp⟩
      · simp [resume?, ho] at hr
      -- Only an answer that opens a channel makes a session, so the other kinds of step are out.
      · cases setup_step hw hp hcall he hr with
        | performed _ _ _ _ hlen => exact absurd hlen (Nat.ne_of_gt hgrows)
        | refused _ _ _ hlen => exact absurd hlen (Nat.ne_of_gt hgrows)
        | inTime _ hp' => exact .inl hp'
        | tooLate _ _ _ _ hsets =>
          right
          rintro ⟨d, hd⟩
          rw [hsets] at hd
          exact Nat.lt_irrefl _ (lt_of_listed (sound_of_run h) ⟨d, hd⟩)
        | discarded _ _ hlen => exact absurd hlen (Nat.ne_of_gt hgrows)
  | _ => simp [isStepOf] at hstep

/-- What call `i` was started for it was started for before. -/
theorem isCall_back {xs : List Call} (h : Onward w xs v) {y : Call} (hy : v.IsCall i y) :
    w.IsCall i y := by
  intro t ht
  have hc : v.outline.calls[i]? = some t.call := by
    rw [h.grows.calls]
    exact getElem?_of_grows (List.prefix_append _ _) (by simp [outline, ht])
  obtain ⟨t', ht', he⟩ : ∃ t', v.calls[i]? = some t' ∧ t'.call = t.call := by
    simpa [outline] using hc
  rw [← he]
  exact hy t' ht'

/-- The sessions that a call makes: the call has given one of them, or no connection ever had it. -/
theorem made_history (h : Run {} ls w)
    (hcall : w.IsCall i (.createSession c transacted mode via)) :
    ∀ s ∈ (({} : System).steps ls).filterMap (made? i), s < w.sessions.length ∧
      (w.progress? i = some (.ended (.ok (.session s))) ∨
        (∀ x ∈ ({} : System).steps ls, ¬x.1.Listed s) ∧ ¬w.Listed s) := by
  induction h with
  | refl => simp [steps]
  | @step ls w l v hrun hs ih =>
    have hw := wired_of_run hrun
    have hback := isCall_back (onward_step hw hs) hcall
    intro s hmade
    rw [hrun.filterMap_snoc, List.mem_append, Option.mem_toList] at hmade
    rw [hrun.steps_snoc]
    simp only [List.mem_append, List.mem_singleton, or_imp, forall_and, forall_eq]
    rcases hmade with hold | hnew
    · obtain ⟨hlt, ho | ⟨hnever, hnot⟩⟩ := ih hback s hold
      · exact ⟨Nat.lt_of_lt_of_le hlt (length_sessions_step hw hs), .inl (ended_step hs ho)⟩
      · exact ⟨Nat.lt_of_lt_of_le hlt (length_sessions_step hw hs),
          .inr ⟨⟨hnever, hnot⟩, unlisted_step hw (sound_of_run hrun) hs hlt hnot⟩⟩
    · obtain ⟨rfl, hlt, ho | hnot⟩ := unlisted_of_made hw hrun hs hback hnew
      · exact ⟨hlt, .inl ho⟩
      · -- Before it was made nobody had it.
        exact ⟨hlt, .inr ⟨⟨fun x hx hl => Nat.lt_irrefl _ (lt_of_wasListed hrun hx hl),
          fun hl => Nat.lt_irrefl _ (lt_of_listed (sound_of_run hrun) hl)⟩, hnot⟩⟩

/-! ## All together -/

/-- A call that was made in a run is in the outline at its end. -/
theorem called_of_mem (h : Run {} ls w) {y : Call} (hy : .call y ∈ ls) : y ∈ w.outline.calls := by
  rw [(h.onward wired_empty).grows.calls, List.mem_append, List.mem_flatMap]
  exact .inr ⟨_, hy, List.mem_singleton_self y⟩

/-- A call that creates a session on a connection which a call was started to close before it ended.
When it ends, and it does even if nobody else does anything any more, it fails because the
connection is closed, unless it hears at the end that the broker refuses the channel; then it fails
with the broker's failure. Either way no session that the call made is ever in the set of any
connection. -/
theorem closing_connection_gives_no_session (h : Run {} ls w) (hs : w.step? l = some v)
    (hcall : v.outline.calls[i]? = some (.createSession c transacted mode via))
    (hclose : .call (.close c) ∈ ls) (hgoes : w.hasEnded i = false) :
    (∀ o, v.progress? i = some (.ended o) →
      o = lateOutcome (refusal? i (w, l)) ∧
      ∀ ms u, Run v ms u → ∀ s ∈ (({} : System).steps (ls ++ l :: ms)).filterMap (made? i),
        (∀ x ∈ ({} : System).steps (ls ++ l :: ms), ¬x.1.Listed s) ∧ ¬u.Listed s) ∧
    ∃ ms u o, Run v ms u ∧ (∀ m ∈ ms, m.isOwn i = true) ∧ u.progress? i = some (.ended o) := by
  have hv : Run {} (ls ++ [l]) v := .step h hs
  refine ⟨fun o ho => ?_, setup_ends hv hcall⟩
  have hlate := outcome_of_late h hs hcall (closed_of_called h (called_of_mem h hclose)) hgoes ho
  refine ⟨hlate, fun ms u hms s hmade => ?_⟩
  have hu := hv.trans hms
  rw [List.append_assoc, List.singleton_append] at hu
  have hcall' : u.IsCall i (.createSession c transacted mode via) := by
    refine isCall_of_outline ?_
    rw [(hms.onward (wired_of_run hv)).grows.calls]
    exact getElem?_of_grows (List.prefix_append _ _) hcall
  rcases (made_history hu hcall' s hmade).2 with ho' | hnever
  · -- The call has failed, so it has not given the session.
    rw [hms.ended_stays ho, hlate] at ho'
    unfold lateOutcome at ho'
    split at ho' <;> cases ho'
  · exact hnever

/-- The channel of a session is opened before the connection is closed, and handed over after. -/
def handedLate : List Label :=
  [.operate .createRegistry, .operate (.connect 0 (.ofMillis 15000) {}),
    .call (.createSession 0 false .auto none), .run (.call 0), .call (.close 0), .run (.call 0),
    .run (.call 0)]

theorem handedLate_isSome : (after? {} handedLate).isSome = true := by decide

/-- The channel is closed again, and the call has not gone on yet. -/
def handedLateLast : System := (after? {} handedLate).get handedLate_isSome

theorem handedLateLast_isSome : (handedLateLast.step? (.run (.call 0))).isSome = true := by decide

/-- What this comes to. -/
def handedLateEnd : System := (handedLateLast.step? (.run (.call 0))).get handedLateLast_isSome

/-- The call has made a session, and no connection ever has it. -/
theorem handed_late_gives_no_session :
    .call (.close 0) ∈ handedLate ∧ handedLateLast.hasEnded 0 = false ∧
    handedLateEnd.progress? 0 = some (.ended (.error (.closed .connection))) ∧
    (({} : System).steps (handedLate ++ [.run (.call 0)])).filterMap (made? 0) = [0] ∧
    ∀ ms u, Run handedLateEnd ms u → ¬u.Listed 0 := by
  have hclose : .call (.close 0) ∈ handedLate := by simp [handedLate]
  have hcall : handedLateEnd.outline.calls[0]? = some (.createSession 0 false .auto none) := by rfl
  have hgoes : handedLateLast.hasEnded 0 = false := by decide
  have ho : handedLateEnd.progress? 0 = some (.ended (.error (.closed .connection))) := by rfl
  have hmade : (({} : System).steps (handedLate ++ [.run (.call 0)])).filterMap (made? 0) =
      [0] := by
    rfl
  have h := (closing_connection_gives_no_session (.of_isSome handedLate_isSome)
    (Option.some_get handedLateLast_isSome).symm hcall hclose hgoes).1 _ ho
  refine ⟨hclose, hgoes, ho, hmade, fun ms u hms => (h.2 ms u hms 0 ?_).2⟩
  -- What was made so far is among what is made in all.
  have hrun : Run {} (handedLate ++ [.run (.call 0)]) handedLateEnd :=
    .step (.of_isSome handedLate_isSome) (Option.some_get handedLateLast_isSome).symm
  rw [← List.singleton_append, ← List.append_assoc, hrun.steps_append, List.filterMap_append, hmade]
  exact List.mem_append_left _ (List.mem_singleton_self 0)

/-- The request for a channel reaches the broker only after the connection was closed. -/
def refusedLate : List Label :=
  [.operate .createRegistry, .operate (.connect 0 (.ofMillis 15000) {}),
    .operate (.inject 0 { kind := .createChannel, delay := 10 }),
    .call (.createSession 0 false .auto none), .call (.close 0), .run (.call 1), .run (.call 1),
    .tick 10, .run (.call 0)]

theorem refusedLate_isSome : (after? {} refusedLate).isSome = true := by decide

def refusedLateLast : System := (after? {} refusedLate).get refusedLate_isSome

theorem refusedLateLast_isSome : (refusedLateLast.step? (.run (.call 0))).isSome = true := by
  decide

def refusedLateEnd : System := (refusedLateLast.step? (.run (.call 0))).get refusedLateLast_isSome

/-- The connection was closed while the session was being set up, and the broker refuses the channel
for that very reason; yet the call fails with the broker's failure. -/
theorem refused_late_is_transport :
    Run {} refusedLate refusedLateLast ∧ .call (.close 0) ∈ refusedLate ∧
    (refusedLateLast.connection 0).life = .closed ∧ refusedLateLast.hasEnded 0 = false ∧
    refusedLateLast.step? (.run (.call 0)) = some refusedLateEnd ∧
    refusedLateEnd.outline.calls[0]? = some (.createSession 0 false .auto none) ∧
    refusedLateEnd.progress? 0 = some (.ended (.error (.transport .alreadyClosed))) :=
  ⟨.of_isSome refusedLate_isSome, by simp [refusedLate], by decide, by decide,
    (Option.some_get refusedLateLast_isSome).symm, by rfl, by rfl⟩

end System

end BrokerClient
