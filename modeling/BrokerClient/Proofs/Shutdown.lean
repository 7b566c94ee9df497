import BrokerClient.Proofs.Punctual
import BrokerClient.Proofs.Teardown

/-!
# Closing a connection

The call that closes a connection asks for the close of every channel that is registered, one after
the other in the order of the sessions' numbers and whatever comes of them, and then for the close
of the broker connection. `Course` says what the call asks and hears, and when, and how it ends:
with a failure of the broker connection, or else with that of the first session that failed. What
was closed already is no failure.

The close of the broker connection may take as long as the connection was given when it was made.
As no timer runs for more than thirty years, neither the call nor the broker waits longer at once: a
broker that is set to take longer has closed by then, and a call that may wait longer gives up then.

`Underway` says where such a call stands: it has the sessions of a plan before it, one after the
other, and what it has asked and heard so far is the part of the plan that lies behind it. The steps
of the call itself bring it on (`Underway.own`), the steps of all others leave it
(`Underway.other`), so that `Underway.course` reads the whole course off a call that has ended.

That it ends is a separate matter. Each of its steps takes one thing off the plan (`Exchange.toGo`),
and while it waits there is a moment for which it waits (`Underway.moment`), hence it can go on when
the time has come. Both are for prompt runs: a run that lets time pass while somebody can go on may
leave a call standing for as long as it likes.
-/

namespace BrokerClient

/-- A request that was answered, after a time. -/
structure Answered where
  request : Request
  takes : Nat
  result : Except TransportFailure Unit

/-- What is said when requests are made from a time on, each once the one before is answered. -/
def dialogue (t : Nat) : List Answered → List Talk
  | [] => []
  | a :: as => .asked t a.request a.takes :: .answered (t + a.takes) a.request a.result ::
      dialogue (t + a.takes) as

/-- When the last of them is answered. -/
def lastAnswer (t : Nat) (as : List Answered) : Nat := as.foldl (· + ·.takes) t

/-- The failure of the first of them that failed. -/
def firstFailure (as : List Answered) : Option TransportFailure :=
  as.findSome? fun a => closeFailure? a.result

/-- One answer more comes when the request has taken its time. -/
theorem lastAnswer_snoc (t : Nat) (as : List Answered) (a : Answered) :
    lastAnswer t (as ++ [a]) = lastAnswer t as + a.takes := by
  simp [lastAnswer]

/-- One answer more counts only if none before it was a failure. -/
theorem firstFailure_snoc (as : List Answered) (a : Answered) :
    firstFailure (as ++ [a]) = (firstFailure as).or (closeFailure? a.result) := by
  rw [firstFailure, List.findSome?_append, firstFailure]
  cases hf : closeFailure? a.result <;> simp [hf]

/-- The next request is made when the last answer is there. -/
theorem dialogue_snoc (t : Nat) (as : List Answered) (a : Answered) :
    dialogue t (as ++ [a]) = dialogue t as ++ [.asked (lastAnswer t as) a.request a.takes,
      .answered (lastAnswer t as + a.takes) a.request a.result] := by
  induction as generalizing t with
  | nil => rfl
  | cons b as ih =>
    rw [List.cons_append, dialogue, ih, dialogue]
    rfl

/-- The close of a connection by a call. -/
structure Shutdown where
  connection : ConnectionId
  call : CallId
  sessions : List SessionId
  channels : List Nat
  start : Nat
  timeout : Span

/-- What is asked for, in this order. -/
def Shutdown.plan (x : Shutdown) : List Request := x.channels.map .closeChannel ++ [.close]

/-- How far a shutdown has come, by what its call has asked and heard, and how the call has ended.
-/
inductive Course (x : Shutdown) : List Talk → Option Outcome → Prop where
  /-- It waits for the answer to a request, the ones before are answered. -/
  | waits {as r d rest} (h : as.map (·.request) ++ r :: rest = x.plan) :
    Course x (dialogue x.start as ++ [.asked (lastAnswer x.start as) r d]) none
  /-- All sessions are closed, and the broker connection takes too long. -/
  | gaveUp {as d} (h : as.map (·.request) = x.channels.map .closeChannel)
    (hd : x.timeout.ticks < d) :
    Course x (dialogue x.start as ++ [.asked (lastAnswer x.start as) .close d,
      .gaveUp (lastAnswer x.start as + x.timeout.ticks) .close])
      (some (.error (.closeTimeout x.timeout)))
  /-- All sessions and the broker connection are closed. -/
  | done {as d result} (h : as.map (·.request) = x.channels.map .closeChannel)
    (hd : d ≤ x.timeout.ticks) :
    Course x (dialogue x.start (as ++ [⟨.close, d, result⟩]))
      (some (System.closeOutcome ((closeFailure? result).or (firstFailure as))))

/-- Whether a step starts to close one of some sessions for its own sake. -/
def Label.closesOneOf (ss : List SessionId) : Label → Bool
  | .call (.closeSession s) => ss.contains s
  | _ => false

namespace System

open Ledger

/-- How a call has ended, if it has. -/
def outcome? (w : System) (i : CallId) : Option Outcome :=
  match w.progress? i with
  | some (.ended o) => some o
  | _ => none

/-- What is about to be closed with a connection. -/
def shutdown (w : System) (c : ConnectionId) : Shutdown where
  connection := c
  call := w.calls.length
  sessions := (w.connection c).sessions
  channels := (w.connection c).sessions.map fun s => (w.session s).channel
  start := w.now
  timeout := (w.connection c).timeout

/-- The close of a session's channel. -/
def closing (w : System) (s : SessionId) : Request := .closeChannel (w.session s).channel

/-- The call waits for an answer, with the requests before answered. -/
structure Awaits (x : Shutdown) (as : List Answered) (es : List Talk) (w : System)
    (e : Exchange) : Prop where
  stands : w.progress? x.call = some (.exchange e)
  talk : es = dialogue x.start as ++
    [.asked (lastAnswer x.start as) e.request (e.due - lastAnswer x.start as)]
  begun : lastAnswer x.start as ≤ e.due
  now : w.now ≤ e.wake

/-- Where the call stands. -/
inductive Standing (x : Shutdown) (w : System) (es : List Talk) : Prop where
  /-- It closes a session; others are to follow. -/
  | session {as e s n rest} (h : Awaits x as es w e)
    (goal : e.goal = .closeNext s n rest (firstFailure as))
    (plan : as.map (·.request) ++ e.request :: rest.map w.closing =
      x.channels.map .closeChannel)
    (follow : ∀ t ∈ rest, t ∈ x.sessions ∧ t < w.sessions.length ∧ (w.session t).closed = false)
    (nodup : rest.Nodup)
  /-- It closes the broker connection. -/
  | broker {as e} (h : Awaits x as es w e) (goal : e.goal = .closeBroker (firstFailure as))
    (plan : as.map (·.request) = x.channels.map .closeChannel)
    (limit : e.limit = some (lastAnswer x.start as + x.timeout.ticks))
    (intime : w.now ≤ lastAnswer x.start as + x.timeout.ticks)
  | ended {o} (stands : w.progress? x.call = some (.ended o)) (course : Course x es (some o))

/-- A close that is under way, or is over, as far as it has come. -/
structure Underway (x : Shutdown) (w : System) (es : List Talk) : Prop where
  called : w.IsCall x.call (.close x.connection)
  here : x.connection < w.connections.length
  timeout : (w.connection x.connection).timeout = x.timeout
  standing : Standing x w es

variable {w v u : System} {i j : CallId} {c : ConnectionId} {s t : SessionId} {l : Label}
  {ls : List Label} {x : Shutdown} {as : List Answered} {e : Exchange} {es : List Talk}

/-! ## Asking -/

/-- A call that has just asked awaits the answer, and its request is the last thing that it said. -/
theorem awaits_ask (hi : x.call < w.calls.length) (hnow : w.now = lastAnswer x.start as)
    (c : ConnectionId) (request : Request) (limit : Option Nat) (goal : Goal) :
    Awaits x as (dialogue x.start as ++
      ((w.ask x.call c request limit goal).exchange? x.call).elim [] (Exchange.asks w.now))
      (w.ask x.call c request limit goal) (w.exchangeFor c request limit goal) := by
  have hp : (w.ask x.call c request limit goal).progress? x.call =
      some (.exchange (w.exchangeFor c request limit goal)) := by
    rw [ask_eq]
    exact progress_setCall_self (by exact hi) _
  have hwake := le_wake_exchangeFor w c request limit goal
  refine ⟨hp, ?_, hnow ▸ Nat.le_trans hwake (wake_le_due _), hwake⟩
  obtain ⟨f, after, hstage⟩ := exchangeFor_stage w c request limit goal
  rw [exchange?_eq hp, Option.elim_some, Exchange.asks, hstage, ← hnow]

/-- Where sessions are left the next one is closed, and else the broker connection. -/
theorem standing_closeSessions (as : List Answered) (hi : x.call < w.calls.length)
    (hnow : w.now = lastAnswer x.start as)
    (htimeout : (w.connection x.connection).timeout = x.timeout) {ss : List SessionId}
    (hplan : as.map (·.request) ++ ss.map w.closing = x.channels.map .closeChannel)
    (hss : ∀ t ∈ ss, t ∈ x.sessions ∧ t < w.sessions.length ∧ (w.session t).closed = false)
    (hnodup : ss.Nodup) :
    Standing x (w.closeSessions x.call x.connection (firstFailure as) ss)
      (dialogue x.start as ++ ((w.closeSessions x.call x.connection (firstFailure as) ss).exchange?
        x.call).elim [] (Exchange.asks w.now)) := by
  cases ss with
  | nil =>
    -- No session is left: the broker is asked to close, and the time limit counts from now.
    rw [closeSessions]
    refine .broker (awaits_ask hi hnow _ _ _ _) rfl (by simpa using hplan) ?_ ?_
    · rw [(exchangeFor_parts ..).2.2.1, htimeout, deadline, hnow]
    · exact hnow ▸ Nat.le_add_right _ _
  | cons s rest =>
    -- The next session shuts at once; the call goes on when its channel has answered.
    obtain ⟨_, _, hopen⟩ := hss s (List.mem_cons_self ..)
    obtain ⟨hs, hrest⟩ := List.nodup_cons.1 hnodup
    have hchannel : ∀ t, ((w.shutSession s).2.session t).channel = (w.session t).channel :=
      session_shutSession_of (g := Session.channel) (by intro _; rfl) w s
    have hnow' : (w.shutSession s).2.now = w.now := by simp
    have hasks := awaits_ask (w := (w.shutSession s).2) (by simpa using hi) (hnow'.trans hnow)
      x.connection (.closeChannel (w.session s).channel) none
      (.closeNext s (w.shutSession s).1 rest (firstFailure as))
    rw [hnow'] at hasks
    rw [closeSessions, if_neg (by simp [hopen])]
    simp only [hchannel]
    refine .session hasks rfl ?_ (fun t ht => ?_) hrest
    · have hclosing : ((w.shutSession s).2.ask x.call x.connection
          (.closeChannel (w.session s).channel) none (.closeNext s (w.shutSession s).1 rest
            (firstFailure as))).closing = w.closing :=
        funext fun t => congrArg Request.closeChannel (hchannel t)
      rw [hclosing]
      exact hplan
    · obtain ⟨hmem, hlt, hcl⟩ := hss t (List.mem_cons_of_mem s ht)
      refine ⟨hmem, by simpa using hlt, ?_⟩
      have hne : s ≠ t := fun h => hs (h ▸ ht)
      have hother : t ∉ [s] := fun hm => hne (List.mem_singleton.1 hm).symm
      exact ((seats_shutSession w s).closed t hother).trans hcl

/-! ## Going on -/

/-- Only a channel that is opened is handed over later. -/
theorem lag_perform (b : Broker) {r : Request} (hr : r ≠ .createChannel) :
    (b.perform r).2.lag (b.perform r).1 = 0 :=
  (b.perform r).2.lag_eq_zero (b.perform_ne_opened hr)

/-- The broker has done what it was asked for; the answer comes when it is due. -/
theorem Awaits.takeEffect (h : Awaits x as es w e) {after : Nat} (hwake : e.wake ≤ w.now)
    (hs : e.stage = .before none after) (hr : e.request ≠ .createChannel) :
    ∃ e', Awaits x as es (w.takeEffect x.call e after) e' ∧ e'.goal = e.goal ∧
      e'.request = e.request ∧ e'.limit = e.limit ∧ (e'.asks w.now = []) := by
  have hnow := Nat.le_antisymm h.now hwake
  have hdue : e.due = w.now + after := by rw [Exchange.due, hs, hnow]
  refine ⟨_, ⟨progress_setCall_self (by exact lt_of_progress h.stands) _, ?_, ?_, ?_⟩, rfl, rfl,
    rfl, rfl⟩
  · rw [h.talk, hdue]
    simp only [Exchange.due, lag_perform _ hr, Nat.add_zero]
  · simp only [Exchange.due, lag_perform _ hr, Nat.add_zero]
    exact hdue ▸ h.begun
  · exact Nat.le_trans (Nat.le_add_right _ _) (Nat.le_add_right _ _)

/-- The call hears the answer when it is due. -/
theorem Awaits.hears (h : Awaits x as es w e) (hwake : e.wake ≤ w.now) {reply : Reply}
    (hr : (∃ f after, e.stage = .before (some f) after ∧ reply = .failed f) ∨
      e.stage = .answered reply) :
    w.now = lastAnswer x.start
        (as ++ [⟨e.request, e.due - lastAnswer x.start as, reply.result⟩]) ∧
      es ++ e.heard w.now = dialogue x.start
        (as ++ [⟨e.request, e.due - lastAnswer x.start as, reply.result⟩]) := by
  have hdue : e.due = w.now := by
    rw [Nat.le_antisymm h.now hwake, Exchange.due]
    rcases hr with ⟨f, after, hs, _⟩ | hs <;> rw [hs]
  have hlast : lastAnswer x.start as + (e.due - lastAnswer x.start as) = w.now :=
    (Nat.add_sub_cancel' h.begun).trans hdue
  have hheard : e.heard w.now = [.answered w.now e.request reply.result] := by
    rw [Exchange.heard, if_neg (Nat.not_lt.2 hwake)]
    rcases hr with ⟨f, after, hs, rfl⟩ | hs <;> rw [hs]
    rfl
  refine ⟨by rw [lastAnswer_snoc, hlast], ?_⟩
  rw [dialogue_snoc, hlast, hheard, h.talk, List.append_assoc]
  rfl

/-- Where the call stands fits a close of the connection. -/
theorem Underway.fits (hw : w.Wired) (h : Underway x w es)
    (hp : w.progress? x.call = some (.exchange e)) : e.Fits w.outline (.close x.connection) := by
  obtain ⟨t, ht, hpt⟩ := task_of_progress hp
  have hf := hw.fit x.call t ht
  rwa [hpt, h.called t ht] at hf

/-- Once a session is closed the next one follows, or the broker connection. -/
theorem Underway.own_session (hw : w.Wired) (h : Underway x w es)
    (hs : w.step? (.run (.call x.call)) = some v) {n : Nat} {rest : List SessionId}
    (ha : Awaits x as es w e) (hgoal : e.goal = .closeNext s n rest (firstFailure as))
    (hplan : as.map (·.request) ++ e.request :: rest.map w.closing =
      x.channels.map .closeChannel)
    (hfollow : ∀ t ∈ rest, t ∈ x.sessions ∧ t < w.sessions.length ∧ (w.session t).closed = false)
    (hnodup : rest.Nodup) : Standing x v (es ++ talk x.call (w, .run (.call x.call))) := by
  have hf := h.fits hw ha.stands
  simp only [Exchange.Fits, hgoal] at hf
  obtain ⟨hnone, _, hconn, k, hk⟩ := hf
  obtain hconn := Call.close.inj hconn
  rw [talk_run ha.stands hs, ← List.append_assoc]
  -- The answer comes and the next close is asked, or the effect happens and the call waits on.
  rcases resume_exchange ha.stands hs with ⟨reply, hwake, hr, rfl⟩ | ⟨after, hwake, hst, rfl⟩ |
    ⟨limit, hl, _⟩
  · obtain ⟨hnow, hes⟩ := ha.hears hwake hr
    obtain ⟨u, hq, he⟩ := resolve_closeNext_eq hgoal w x.call reply
    have hclosing : u.closing = w.closing := funext fun t => by
      rw [closing, hq.session, closing]
    rw [hes, he, ← hconn, ← firstFailure_snoc as ⟨e.request, _, reply.result⟩, ← hq.now]
    refine standing_closeSessions _ ?_ (hq.now.trans hnow) ?_ ?_ (fun t ht => ?_) hnodup
    · rw [hq.calls]
      exact lt_of_progress ha.stands
    · rw [hq.connection]
      exact h.timeout
    · rw [hclosing, ← hplan]
      simp
    · rw [hq.sessions, hq.session]
      exact hfollow t ht
  · obtain ⟨e', ha', hgoal', hreq', _, hasks⟩ := ha.takeEffect hwake hst (by simp [hk])
    have hheard : e.heard w.now = [] := by
      rw [Exchange.heard, if_neg (Nat.not_lt.2 hwake), hst]
    rw [hheard, exchange?_eq ha'.stands, Option.elim_some, hasks, List.append_nil, List.append_nil]
    exact .session ha' (hgoal'.trans hgoal) (by rw [hreq']; exact hplan) hfollow hnodup
  · rw [hnone] at hl
    cases hl

/-- The close of the broker connection ends the call, answered or not. -/
theorem Underway.own_broker (hw : w.Wired) (h : Underway x w es)
    (hs : w.step? (.run (.call x.call)) = some v) (ha : Awaits x as es w e)
    (hgoal : e.goal = .closeBroker (firstFailure as))
    (hplan : as.map (·.request) = x.channels.map .closeChannel)
    (hlimit : e.limit = some (lastAnswer x.start as + x.timeout.ticks))
    (hintime : w.now ≤ lastAnswer x.start as + x.timeout.ticks) :
    Standing x v (es ++ talk x.call (w, .run (.call x.call))) := by
  have hf := h.fits hw ha.stands
  simp only [Exchange.Fits, hgoal] at hf
  obtain ⟨_, hconn, hreq⟩ := hf
  obtain hconn := Call.close.inj hconn
  rw [talk_run ha.stands hs, ← List.append_assoc]
  rcases resume_exchange ha.stands hs with ⟨reply, hwake, hr, rfl⟩ | ⟨after, hwake, hst, rfl⟩ |
    ⟨limit, hl, hle, hlt, rfl⟩
  · obtain ⟨hnow, hes⟩ := ha.hears hwake hr
    obtain ⟨u, hq, he⟩ := resolve_closeBroker hgoal w x.call reply
    have hend : (u.finish x.call (closeOutcome ((closeFailure? reply.result).or
        (firstFailure as)))).progress? x.call = some (.ended (closeOutcome
          ((closeFailure? reply.result).or (firstFailure as)))) :=
      progress_setCall_self (by rw [hq.calls]; exact lt_of_progress ha.stands) _
    have htakes : e.due - lastAnswer x.start as ≤ x.timeout.ticks := by
      rw [hnow, lastAnswer_snoc] at hintime
      exact Nat.le_of_add_le_add_left hintime
    rw [hes, he, exchange?_ended hend, Option.elim_none, List.append_nil, hreq]
    exact .ended hend (.done hplan htakes)
  · obtain ⟨e', ha', hgoal', hreq', hlimit', hasks⟩ := ha.takeEffect hwake hst (by simp [hreq])
    have hheard : e.heard w.now = [] := by
      rw [Exchange.heard, if_neg (Nat.not_lt.2 hwake), hst]
    rw [hheard, exchange?_eq ha'.stands, Option.elim_some, hasks, List.append_nil, List.append_nil]
    exact .broker ha' (hgoal'.trans hgoal) hplan (hlimit'.trans hlimit) hintime
  · obtain ⟨u, hq, he⟩ := giveUp_effect w x.call e
    have hend : (u.fail x.call (.closeTimeout x.timeout)).progress? x.call =
        some (.ended (.error (.closeTimeout x.timeout))) :=
      progress_setCall_self (by rw [hq.calls]; exact lt_of_progress ha.stands) _
    obtain rfl : lastAnswer x.start as + x.timeout.ticks = limit :=
      Option.some.inj (hlimit.symm.trans hl)
    have hnow := Nat.le_antisymm hintime hle
    have hheard : e.heard w.now = [.gaveUp w.now e.request] := by
      rw [Exchange.heard, if_pos hlt]
    have hlate : x.timeout.ticks < e.due - lastAnswer x.start as := by
      have := wake_le_due e
      omega
    rw [he, ← hconn, h.timeout, exchange?_ended hend, Option.elim_none, List.append_nil, hheard,
      hnow, ha.talk, hreq, List.append_assoc]
    exact .ended hend (.gaveUp hplan hlate)

/-- A step of the call itself: its request takes effect, or it hears the answer and goes on, or it
gives the broker close up. -/
theorem Underway.own (hw : w.Wired) (h : Underway x w es)
    (hs : w.step? (.run (.call x.call)) = some v) :
    Standing x v (es ++ talk x.call (w, .run (.call x.call))) := by
  cases h.standing with
  | session ha hgoal hplan hfollow hnodup =>
    exact h.own_session hw hs ha hgoal hplan hfollow hnodup
  | broker ha hgoal hplan hlimit hintime => exact h.own_broker hw hs ha hgoal hplan hlimit hintime
  | ended hstands _ =>
    have hr : w.resume? x.call = some v := hs
    rw [resume?, hstands] at hr
    cases hr

/-! ## What others do -/

/-- A connection has one call that closes it at most. -/
theorem eq_of_closing {L : Ledger} (h : L.Tallied) {rest rest' : List SessionId}
    (hi : L.role i = .closing c rest) (hj : L.role j = .closing c rest') : i = j := by
  have hilt := lt_of_role (show L.role i ≠ .idle by rw [hi]; simp)
  have hjlt := lt_of_role (show L.role j ≠ .idle by rw [hj]; simp)
  refine eq_of_countP_le_one (p := Role.closes c) ?_ (roles_eq_some hilt) (roles_eq_some hjlt)
    (by simp [hi, Role.closes]) (by simp [hj, Role.closes])
  have hone := h.concluded c
  split at hone <;> omega

/-- What a call closes next is among the sessions of a connection that it closes. -/
theorem closing_of_following {p : Progress} (hp : w.progress? j = some p) (ht : t ∈ p.following) :
    ∃ d rest, w.ledger.role j = .closing d rest ∧ t ∈ rest := by
  cases p with
  | exchange e =>
    simp only [Progress.following] at ht
    split at ht
    next hg =>
      refine ⟨e.connection, _, ?_, ht⟩
      rw [role_of_progress hp, Progress.role, role_exchange (by simp [hg]), hg]
      rfl
    next => cases ht
  | _ => cases ht

/-- A call that has sessions of a connection to close has them for itself: only the calls that close
one of them for its own sake come before it. -/
theorem not_mem_closers (h : w.ledger.Sound) {rest : List SessionId}
    (hi : w.ledger.role i = .closing c rest) (ht : t ∈ rest) (hl : l ≠ .run (.call i))
    (hs : l ≠ .call (.closeSession t)) : t ∉ w.closers l := by
  intro hm
  obtain ⟨y, hy, rfl⟩ := h.placed.queued hi ht
  cases l with
  | call z =>
    cases z with
    | close d =>
      -- A connection with a call that closes it has forgotten its sessions.
      have hm : t ∈ (w.ledger.line d).registered := by
        rw [ledger_line]
        exact hm
      obtain ⟨y', hy', rfl⟩ := h.placed.enlisted hm
      obtain rfl : y = y' := Option.some.inj (hy.symm.trans hy')
      rw [h.placed.emptied (h.tallied.closed_of_closing hi)] at hm
      cases hm
    | closeSession s =>
      rw [List.mem_singleton.1 hm] at hs
      exact hs rfl
    | _ => cases hm
  | run a =>
    cases a with
    | call j =>
      cases hp : w.progress? j with
      | none => simp [closers, hp] at hm
      | some p =>
        -- Nor does another call close the connection.
        simp only [closers, hp, Option.elim_some] at hm
        obtain ⟨d, rest', hj, hm'⟩ := closing_of_following hp hm
        obtain ⟨y', hy', rfl⟩ := h.placed.queued hj hm'
        obtain rfl : y = y' := Option.some.inj (hy.symm.trans hy')
        exact hl (eq_of_closing h.tallied hi hj ▸ rfl)
    | dispatcher s => cases hm
  | _ => cases hm

/-- The time that a connection was given to close does not change. -/
theorem timeout_step (hs : w.step? l = some v) (hc : c < w.connections.length) :
    (v.connection c).timeout = (w.connection c).timeout := by
  rcases step_kinds hs with hr | ⟨y, _, hst⟩ | ⟨i, _, hst⟩ | ⟨i, e, after, _, _, _, _, rfl⟩
  · rcases hr.core c with he | ⟨hle, _⟩
    · exact congrArg Prod.fst he
    · exact absurd hc (Nat.not_lt.2 hle)
  · exact hst.timeout c
  · exact hst.timeout c
  · rw [System.takeEffect, connection_setCall,
      connection_modifyConnection_of (g := Connection.timeout) (by intro _; rfl)]

/-- The call is there. -/
theorem Underway.lt (h : Underway x w es) : x.call < w.calls.length := by
  cases h.standing with
  | session ha => exact lt_of_progress ha.stands
  | broker ha => exact lt_of_progress ha.stands
  | ended hstands => exact lt_of_progress hstands

/-- A punctual step passes no moment for which the call waits. -/
theorem now_le_of_punctual (hs : w.step? l = some v) (hp : w.punctual i l = true)
    (hstands : w.progress? i = some (.exchange e)) {m : Nat} (hm : m ∈ moments (.exchange e))
    (hle : w.now ≤ m) : v.now ≤ m := by
  rcases now_step hs with hn | ⟨t, rfl, hn⟩
  · exact hn ▸ hle
  · simp only [System.punctual, hstands, Option.all_some, List.all_eq_true,
      decide_eq_true_eq] at hp
    exact hn ▸ hp m hm

/-- What others do leaves the call where it stands, and the sessions that are to follow. -/
theorem Underway.other (hw : w.Wired) (hsound : w.ledger.Sound) (h : Underway x w es)
    (hs : w.step? l = some v) (hp : w.punctual x.call l = true)
    (hl : l.closesOneOf x.sessions = false) (hown : l ≠ .run (.call x.call)) :
    Standing x v es := by
  have hstays := progress_step hs h.lt hown
  have hawaits : ∀ {as e}, Awaits x as es w e → Awaits x as es v e := fun ha =>
    ⟨hstays.trans ha.stands, ha.talk, ha.begun,
      now_le_of_punctual hs hp ha.stands (List.mem_cons_self ..) ha.now⟩
  cases h.standing with
  | @session as e s n rest ha hgoal hplan hfollow hnodup =>
    have hrole : w.ledger.role x.call = .closing e.connection rest := by
      rw [role_of_progress ha.stands, Progress.role, role_exchange (by simp [hgoal]), hgoal]
      rfl
    have hgrows := (onward_step hw hs).grows
    have hclosing : rest.map v.closing = rest.map w.closing := by
      refine List.map_congr_left fun t ht => ?_
      exact congrArg (fun a : ConnectionId × Nat => Request.closeChannel a.2)
        (address_of_grows hgrows (hfollow t ht).2.1)
    refine .session (hawaits ha) hgoal (hclosing ▸ hplan) (fun t ht => ?_) hnodup
    obtain ⟨hmem, hlt, hopen⟩ := hfollow t ht
    have hne : l ≠ .call (.closeSession t) := by
      rintro rfl
      simp [Label.closesOneOf, hmem] at hl
    refine ⟨hmem, lt_of_address (getElem?_of_grows hgrows.addresses (address_of_lt hlt)), ?_⟩
    exact (session_step hw hs hlt (not_mem_closers hsound hrole ht hown hne)).trans hopen
  | broker ha hgoal hplan hlimit hintime =>
    exact .broker (hawaits ha) hgoal hplan hlimit
      (now_le_of_punctual hs hp ha.stands (by simp [moments, hlimit]) hintime)
  | ended hstands hcourse => exact .ended (hstays.trans hstands) hcourse

/-- Any step, of the call or of others, takes the close as far as it can come by it. -/
theorem Underway.step (hw : w.Wired) (hsound : w.ledger.Sound) (h : Underway x w es)
    (hs : w.step? l = some v) (hp : w.punctual x.call l = true)
    (hl : l.closesOneOf x.sessions = false) : Underway x v (es ++ talk x.call (w, l)) := by
  have hon := onward_step hw hs
  refine ⟨hon.isCall h.lt h.called, Nat.lt_of_lt_of_le h.here hon.grows.connections,
    (timeout_step hs h.here).trans h.timeout, ?_⟩
  by_cases hown : l = .run (.call x.call)
  · subst hown
    exact h.own hw hs
  · have hother : w.isStepOf x.call l = false := by
      cases l with
      | call y => simpa [isStepOf] using Nat.ne_of_gt h.lt
      | run a =>
        cases a with
        | call j => simpa [isStepOf] using fun hj : j = x.call => hown (by rw [hj])
        | dispatcher s => rfl
      | _ => rfl
    rw [talk_eq_nil hother, List.append_nil]
    exact h.other hw hsound hs hp hl hown

/-! ## The course -/

/-- How far a close has come is a course of it. -/
theorem Underway.course (hw : w.Wired) (h : Underway x w es) :
    Course x es (w.outcome? x.call) := by
  have hnone : ∀ {as e}, Awaits x as es w e → w.outcome? x.call = none := fun ha => by
    rw [outcome?, ha.stands]
  cases h.standing with
  | session ha hgoal hplan =>
    rw [ha.talk, hnone ha]
    exact .waits (by rw [Shutdown.plan, ← hplan, List.append_assoc]; rfl)
  | @broker as _ ha hgoal hplan =>
    have hf := h.fits hw ha.stands
    simp only [Exchange.Fits, hgoal] at hf
    have hall : as.map (·.request) ++ [.close] = x.plan := by rw [Shutdown.plan, hplan]
    rw [ha.talk, hnone ha, hf.2.2]
    exact .waits hall
  | ended hstands hcourse =>
    rw [outcome?, hstands]
    exact hcourse

/-! ## The end -/

end System

end BrokerClient
