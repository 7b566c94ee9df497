import BrokerClient.Proofs.ConsumerClosing
import BrokerClient.Proofs.LateSessions
import BrokerClient.Proofs.Upkeep

/-!
# Waiting for delivery

A call that waits until a consumer may receive looks at the session of the consumer, and at the
consumer itself only once the session does not pause any more. A wait goes on only while the session
is paused. While the program holds the connection, a wait that ends is right, with success for a
consumer that receives and with an error for one that is closed (`waits_on_sessions`).

A consumer that is closed by itself wakes nobody: whoever waits for it goes on waiting until its
session is resumed or closed (`waits_on_closed_consumer`).

A wait is right because of what its consumer shows at the moment at which it ends (`Justified`), and
that needs the connection to be held: once the program lets go of a connection its sessions die, and
a wait fails although nothing was closed. The theorem says which steps must not have occurred for
that. `meanwhile_waits_on_sessions` is a run with both outcomes of the wait, and
`waits_on_closed_consumer` the one in which it does not end.
-/

namespace BrokerClient

namespace System

open Ledger

variable {w v u : System} {i : CallId} {c : ConnectionId} {s : SessionId} {x : ConsumerId}
  {l : Label} {ls : List Label} {o : Outcome}

/-! ## Connections that are held -/

/-- Which connections the program holds. -/
def holdings (w : System) : List Bool := w.connections.map Connection.held

/-- Whether the program holds a connection shows to no step of upkeep. -/
theorem aloof_held : Connection.Aloof Connection.held where
  upkeep _ _ _ _ _ _ _ := rfl
  listener _ _ := rfl
  phase _ _ _ := rfl

theorem holdings_closeIdentifierWindow (w : System) (c : ConnectionId) :
    (w.closeIdentifierWindow c).holdings = w.holdings :=
  map_modify_eq (by intro _; rfl) w.connections c

theorem Aside.holdings (h : Aside w v) : v.holdings = w.holdings := by
  have hheld := congrArg (List.map Connection.held) h.connections
  simp only [List.map_map] at hheld
  exact hheld

/-- A connection that is closed is still held. -/
theorem holdings_closeConnection (w : System) (i : CallId) (c : ConnectionId) :
    (w.closeConnection i c).holdings = w.holdings := by
  rcases closeConnection_effect w i c with ⟨_, v, hq, he⟩ | ⟨_, v, rs, hq, he⟩ <;> rw [he]
  · exact congrArg (List.map Connection.held) hq.connections
  · refine (sameTo_closeSessions aloof_held _ i c none _).connections.trans ?_
    rw [holdings, ← hq.connections]
    exact map_modify_eq (by intro _; rfl) v.connections c

/-- A new connection is held, and the program lets go of a connection by dropping it. -/
theorem holdings_step (hs : w.step? l = some v) :
    v.holdings = w.holdings ∨ v.holdings = w.holdings ++ [true] ∨
      ∃ c, l = .operate (.dropConnection c) ∧ v.holdings = w.holdings.modify c fun _ => false := by
  -- A connection is held from its creation until the program drops it; of all steps only these two
  -- kinds matter.
  cases hu : l.used? with
  | some c =>
    rcases sameTo_use aloof_held hs hu with h | ⟨_, h⟩
    · exact .inl (h.connections.trans (holdings_closeIdentifierWindow w c))
    · exact .inl h.connections
  | none =>
    by_cases hl : l.isUpkeep = true
    · exact .inl (sameTo_step aloof_held hs hl).connections
    · cases l with
      | operate o =>
        obtain ⟨_, rfl⟩ := step_operate hs
        by_cases ha : o.isAside = true
        · exact .inl (operate_aside w ha).holdings
        cases o with
        | connect r timeout plan => exact .inr (.inl (List.map_append ..))
        | connectFrom f plan => exact .inr (.inl (List.map_append ..))
        | dropConnection c =>
          exact .inr (.inr ⟨c, rfl, map_modify_of (by intro _; rfl) w.connections c⟩)
        | _ => simp_all [Label.used?, Label.isUpkeep, Operation.isUpkeep, Operation.isAside]
      | call y =>
        obtain ⟨_, rfl⟩ := step_call hs
        cases y with
        | close c => exact .inl (holdings_closeConnection (w.enlist (.close c)) _ c)
        | createSession c transacted mode via => cases hu
        | _ => exact absurd rfl hl
      | _ => exact absurd rfl hl

/-- The program holds a connection that it has not dropped. -/
theorem held_of_run (h : Run {} ls w) (hc : c < w.connections.length)
    (hkept : .operate (.dropConnection c) ∉ ls) : (w.connection c).held = true := by
  have hall : ∀ b, w.holdings[c]? = some b → b = true := by
    clear hc
    induction h with
    | refl => simp [holdings]
    | @step ls w l v hrun hs ih =>
      intro b hb
      rw [List.mem_append, not_or, List.mem_singleton] at hkept
      rcases holdings_step hs with he | he | ⟨d, rfl, he⟩ <;> rw [he] at hb
      · exact ih hkept.1 b hb
      · rcases snoc_eq_some.1 hb with hb | ⟨_, rfl⟩
        · exact ih hkept.1 b hb
        · rfl
      · have hd : d ≠ c := by
          rintro rfl
          exact hkept.2 rfl
        obtain ⟨b', hb', rfl⟩ := modify_eq_some.1 hb
        rw [if_neg hd]
        exact ih hkept.1 b' hb'
  exact hall _ (by simp [holdings, connection, hc])

/-! ## Sessions within reach -/

/-- A call that closes a connection holds the sessions that are still before it. -/
theorem holdsSession_of_closing {t : Task} {rest : List SessionId}
    (ht : t.progress.role = .closing c rest) (hs : s ∈ rest) : t.holdsSession s = true := by
  obtain ⟨e, he, _, ⟨_, _, hg⟩ | ⟨_, _, _, _, hg⟩⟩ := exchange_of_role (.inr ⟨rest, ht⟩)
  · rw [he, Progress.role, Exchange.role, hg] at ht
    split at ht <;> cases ht
  · rw [he, Progress.role, Exchange.role, hg] at ht
    obtain ⟨_, rfl⟩ := Role.closing.inj ht
    simp [Task.holdsSession, he, hg, Goal.sessions, hs]

/-- An open session is registered with its connection, or the call that closes the connection has it
before it, so that it is not lost while the program holds the connection. -/
theorem sessionAlive_of_open (h : Run {} ls w) (hs : s < w.sessions.length)
    (hopen : (w.session s).closed = false)
    (hkept : .operate (.dropConnection (w.session s).connection) ∉ ls) :
    w.sessionAlive s = true := by
  have hplaced := (sound_of_run h).placed
  have hroom := room_of_lt hs
  rw [sessionAlive, Bool.or_eq_true, Bool.or_eq_true, Bool.and_eq_true]
  rcases hplaced.reach hroom hopen with hreg | ⟨i, rest, hrole, hrest⟩
  · have hc : (w.session s).connection < w.connections.length := by
      simpa [ledger] using hplaced.housed hroom
    refine .inr ⟨?_, ?_⟩
    · rw [ledger_line] at hreg
      exact List.contains_iff_mem.2 hreg
    · rw [connectionAlive, held_of_run h hc hkept, Bool.true_or]
  · have hi : i < w.calls.length := by
      simpa [ledger] using lt_of_role (show w.ledger.role i ≠ .idle by rw [hrole]; simp)
    have ht := List.getElem?_eq_getElem hi
    refine .inl (.inr (List.any_eq_true.2 ⟨w.calls[i], List.mem_of_getElem? ht, ?_⟩))
    rw [role_of_progress (p := w.calls[i].progress) (by simp [progress?, ht])] at hrole
    exact holdsSession_of_closing hrole hrest

/-! ## Waits -/

/-- What a wait for a consumer may end with: it succeeds on a consumer that receives, and fails on
one that is closed. -/
def Justified (w : System) (x : ConsumerId) (o : Outcome) : Prop :=
  (o = .ok .unit ∧ w.deliveryOf x = .running ∧ w.consumerClosed x = false) ∨
    (o = .error (.closed .consumer) ∧ w.consumerClosed x = true)

/-- A wait goes on only while the session is paused. -/
theorem paused_of_resumption (h : w.resumption x = none) : w.deliveryOf x = .paused := by
  unfold resumption at h
  cases hd : w.deliveryOf x with
  | paused => rfl
  | running =>
    rw [hd] at h
    simp only at h
    split at h <;> cases h
  | closed =>
    rw [hd] at h
    cases h

/-- A wait that ends is right, if the session is within reach while it is paused. -/
theorem justified_of_resumption
    (halive : w.deliveryOf x = .paused → w.sessionAlive (w.consumer x).session = true)
    (h : w.resumption x = some o) : w.Justified x o := by
  unfold resumption at h
  unfold Justified consumerClosed
  cases hd : w.deliveryOf x with
  | paused =>
    simp only [hd, halive hd, if_true] at h
    cases h
  | running =>
    simp only [hd] at h
    split at h
    next hclosed =>
      cases h
      exact .inr ⟨rfl, by rw [hclosed]; rfl⟩
    next hopen =>
      cases h
      exact .inl ⟨rfl, rfl, by rw [Bool.eq_false_iff.2 hopen]; rfl⟩
  | closed =>
    simp only [hd] at h
    cases h
    exact .inr ⟨rfl, by simp⟩

/-- A call that has not run yet holds nothing. -/
theorem resumption_enlist (w : System) (y : Call) (x : ConsumerId) :
    (w.enlist y).resumption x = w.resumption x := by
  have hsession (s) : (w.enlist y).calls.any (·.holdsSession s) =
      w.calls.any (·.holdsSession s) := by
    simp [Task.holdsSession]
  have hconnection (c) : (w.enlist y).calls.any (·.holdsConnection c) =
      w.calls.any (·.holdsConnection c) := by
    simp [Task.holdsConnection]
  have halive (s) : (w.enlist y).sessionAlive s = w.sessionAlive s := by
    simp only [sessionAlive, connectionAlive, hsession, hconnection]
    rfl
  unfold resumption
  rw [halive]
  rfl

/-- A wait that is started ends at once or goes on. -/
theorem wait_call (w : System) (x : ConsumerId) :
    (w.call (.awaitResume x)).2 = (w.enlist (.awaitResume x)).setCall w.calls.length
      ((w.resumption x).elim (.resumption x) .ended) := by
  rw [call_eq]
  show awaitResume _ _ x = _
  rw [awaitResume, resumption_enlist]
  cases w.resumption x <;> rfl

/-- A wait that goes on ends with what there is to tell of the consumer. -/
theorem wait_resume (hp : w.progress? i = some (.resumption x)) :
    w.resume? i = (w.resumption x).map (w.finish i) := by
  rw [resume?, hp]

/-- A wait that goes on ends. -/
theorem wait_step (hp : w.progress? i = some (.resumption x))
    (hs : w.step? (.run (.call i)) = some v) :
    ∃ o, w.resumption x = some o ∧ v = w.finish i o := by
  have hr : w.resume? i = some v := hs
  rw [wait_resume hp] at hr
  obtain ⟨o, ho, rfl⟩ := Option.map_eq_some_iff.1 hr
  exact ⟨o, ho, rfl⟩

/-- A call that waits for a consumer is pending, or it has ended. -/
theorem wait_of_run (h : Run {} ls w) (hcall : w.outline.calls[i]? = some (.awaitResume x)) :
    x < w.consumers.length ∧
      (w.progress? i = some (.resumption x) ∨ ∃ o, w.progress? i = some (.ended o)) := by
  induction h with
  | refl => simp [outline] at hcall
  | @step ls w l v hrun hs ih =>
    -- The call waits already, or it begins with this step and finds its consumer at once or not.
    have hw := wired_of_run hrun
    have hlen := length_consumers_step hw hs
    rcases call_of_step hw hs hcall with hold | ⟨rfl, rfl⟩
    · obtain ⟨hx, hp⟩ := ih hold
      refine ⟨Nat.lt_of_lt_of_le hx hlen, ?_⟩
      rcases hp with hp | ⟨o, ho⟩
      · by_cases hl : l = .run (.call i)
        · subst hl
          obtain ⟨o, _, rfl⟩ := wait_step hp hs
          exact .inr ⟨o, progress_setCall_self (lt_of_progress hp) _⟩
        · exact .inl ((progress_step hs (lt_of_progress hp) hl).trans hp)
      · exact .inr ⟨o, ended_step hs ho⟩
    · obtain ⟨hm, rfl⟩ := step_call hs
      refine ⟨Nat.lt_of_lt_of_le (by simpa [mayCall, hasConsumer] using hm) hlen, ?_⟩
      rw [wait_call, progress_setCall_self (by simp)]
      cases w.resumption x with
      | none => exact .inl rfl
      | some o => exact .inr ⟨o, rfl⟩

/-! ## Consumers that are closed -/

/-- A consumer that somebody has closed is closed. -/
theorem closed_of_closeConsumer (h : Run {} ls w) (hx : .operate (.closeConsumer x) ∈ ls) :
    (w.consumer x).closed = true := by
  induction h with
  | refl => cases hx
  | @step ls w l v hrun hs ih =>
    rcases List.mem_append.1 hx with hx | hx
    · exact closed_step (wired_of_run hrun) hs (ih hx)
    · obtain rfl := List.mem_singleton.1 hx
      obtain ⟨hm, rfl⟩ := step_operate hs
      have hlt : x < w.consumers.length := by simpa [mayOperate, hasConsumer] using hm
      show ((w.closeConsumer x).consumer x).closed = true
      rw [consumer, closeConsumer_consumers, List.getElem?_modify, List.getElem?_eq_getElem hlt]
      simp

/-- A consumer whose session is open is closed if and only if somebody has closed it. -/
theorem consumerClosed_of_open (h : Run {} ls w)
    (hopen : (w.session (w.consumer x).session).closed = false) :
    w.consumerClosed x = true ↔ .operate (.closeConsumer x) ∈ ls := by
  refine ⟨fun hc => ?_, fun hx => consumerClosed_iff.2 (.inl (closed_of_closeConsumer h hx))⟩
  have hnot : (w.session (w.consumer x).session).closed ≠ true := by rw [hopen]; decide
  rcases consumerClosed_iff.1 hc with hc | hd
  · exact ((closedFor_of_run h).cause x hc).resolve_right hnot
  · exact absurd ((closed_iff (sound_of_run h) _).2 hd) hnot

/-- A session that is paused is open. -/
theorem open_of_paused (h : Run {} ls w) (hd : w.deliveryOf x = .paused) :
    (w.session (w.consumer x).session).closed = false := by
  refine Bool.eq_false_iff.2 fun hc => ?_
  have hclosed : w.deliveryOf x = .closed := (closed_iff (sound_of_run h) _).1 hc
  rw [hd] at hclosed
  cases hclosed

/-- Nobody can go on in a state that is idle. -/
theorem resume?_of_idle (h : w.idle = true) (hi : i < w.calls.length) : w.resume? i = none := by
  have hready := List.all_eq_true.1 h (.call i)
    (List.mem_append_left _ (List.mem_map_of_mem (List.mem_range.2 hi)))
  simpa [ready, run?] using hready

/-- In every state a wait that may end would end rightly. -/
theorem justified_of_run (h : Run {} ls w) (hx : x < w.consumers.length)
    (hkept : .operate (.dropConnection (w.session (w.consumer x).session).connection) ∉ ls)
    (ho : w.resumption x = some o) : w.Justified x o :=
  justified_of_resumption (fun hd => sessionAlive_of_open h ((closedFor_of_run h).homed x hx)
    (open_of_paused h hd) hkept) ho

/-- A wait ends when it is started, or in a step of its own. -/
theorem justified_step (h : Run {} ls w)
    (hkept : .operate (.dropConnection (w.session (w.consumer x).session).connection) ∉ ls)
    (hs : w.step? l = some v) (hcall : v.outline.calls[i]? = some (.awaitResume x))
    (hgoes : w.hasEnded i = false) (ho : v.progress? i = some (.ended o)) : v.Justified x o := by
  -- The call ends in this step, so it took its own turn or began just now. Either way the outcome
  -- was read off the state that the step started from.
  rcases call_of_step (wired_of_run h) hs hcall with hold | ⟨rfl, rfl⟩
  · obtain ⟨hx, hp | ⟨o', ho'⟩⟩ := wait_of_run h hold
    · obtain rfl : l = .run (.call i) := by
        by_contra hl
        rw [progress_step hs (lt_of_progress hp) hl, hp] at ho
        cases ho
      obtain ⟨o', ho', rfl⟩ := wait_step hp hs
      rw [finish_eq, progress_setCall_self (lt_of_progress hp)] at ho
      cases ho
      have hright : w.Justified x o := justified_of_run h hx hkept ho'
      exact hright
    · exact absurd ho' (progress_ne_ended hgoes o')
  · obtain ⟨hm, rfl⟩ := step_call hs
    have hx : x < w.consumers.length := by simpa [mayCall, hasConsumer] using hm
    rw [wait_call, progress_setCall_self (by simp)] at ho
    cases hres : w.resumption x with
    | none =>
      rw [hres] at ho
      cases ho
    | some o' =>
      rw [hres] at ho
      cases ho
      have hright : w.Justified x o := justified_of_run h hx hkept hres
      rw [wait_call]
      exact hright

/-- Waiting for delivery. In a state in which nobody can go on, whoever still waits does so for a
consumer of a session that is paused and open, and the consumer is closed if and only if somebody
has closed the consumer itself. As long as the program has not dropped the connection, a wait that
ends does so in a state in which the session runs and the consumer is not closed, if it succeeds,
and in one in which the consumer or its session is closed, if it fails. -/
theorem waits_on_sessions {ls : List Label} {w : System} (h : Run {} ls w) (x : ConsumerId) :
    (∀ i, w.outline.calls[i]? = some (.awaitResume x) → w.idle = true → w.hasEnded i = false →
      w.deliveryOf x = .paused ∧ (w.session (w.consumer x).session).closed = false ∧
      (w.consumerClosed x = true ↔ .operate (.closeConsumer x) ∈ ls)) ∧
    (.operate (.dropConnection (w.session (w.consumer x).session).connection) ∉ ls →
      ∀ l v i o, w.step? l = some v → v.outline.calls[i]? = some (.awaitResume x) →
        w.hasEnded i = false → v.progress? i = some (.ended o) → v.Justified x o) := by
  refine ⟨fun i hcall hidle hgoes => ?_, fun hkept l v i o hs hcall hgoes ho =>
    justified_step h hkept hs hcall hgoes ho⟩
  obtain ⟨hx, hp | ⟨o, ho⟩⟩ := wait_of_run h hcall
  · have hnone := resume?_of_idle hidle (lt_of_progress hp)
    rw [wait_resume hp, Option.map_eq_none_iff] at hnone
    have hd := paused_of_resumption hnone
    have hopen := open_of_paused h hd
    exact ⟨hd, hopen, consumerClosed_of_open h hopen⟩
  · exact absurd ho (progress_ne_ended hgoes o)

/-- Somebody waits for each of two consumers of a session that is paused, and the second one is
closed. -/
def closedMeanwhile : List Label :=
  [.operate .createRegistry, .operate (.connect 0 (.ofMillis 15000) {}),
    .call (.createSession 0 false .auto none), .run (.call 0), .run (.call 0), .take 0,
    .operate (.createConsumer 0 (.topic "prices")), .operate (.createConsumer 0 (.topic "trades")),
    .call (.awaitResume 0), .call (.awaitResume 1), .operate (.closeConsumer 1)]

theorem closedMeanwhile_isSome : (after? {} closedMeanwhile).isSome = true := by decide

def closedMeanwhileEnd : System := (after? {} closedMeanwhile).get closedMeanwhile_isSome

/-- Then the connection is started. -/
def resumedMeanwhile : List Label := closedMeanwhile ++ [.operate (.start 0)]

theorem resumedMeanwhile_isSome : (after? {} resumedMeanwhile).isSome = true := by decide

/-- Nobody has gone on yet. -/
def resumedMeanwhileLast : System := (after? {} resumedMeanwhile).get resumedMeanwhile_isSome

theorem resumedMeanwhileLast_isSome :
    (resumedMeanwhileLast.step? (.run (.call 2))).isSome = true := by decide

/-- The call that waits for the closed consumer has gone on. -/
def resumedMeanwhileEnd : System :=
  (resumedMeanwhileLast.step? (.run (.call 2))).get resumedMeanwhileLast_isSome

theorem meanwhile_waits_on_sessions :
    (closedMeanwhileEnd.idle = true ∧ closedMeanwhileEnd.hasEnded 1 = false ∧
      closedMeanwhileEnd.deliveryOf 0 = .paused ∧ closedMeanwhileEnd.consumerClosed 0 = false) ∧
    resumedMeanwhileLast.hasEnded 2 = false ∧
      resumedMeanwhileEnd.progress? 2 = some (.ended (.error (.closed .consumer))) ∧
      resumedMeanwhileEnd.consumerClosed 1 = true := by
  have hidle : closedMeanwhileEnd.idle = true := by decide
  have hgoes : closedMeanwhileEnd.hasEnded 1 = false := by decide
  have hgoes' : resumedMeanwhileLast.hasEnded 2 = false := by decide
  have ho : resumedMeanwhileEnd.progress? 2 = some (.ended (.error (.closed .consumer))) := by rfl
  refine ⟨⟨hidle, hgoes, ?_⟩, hgoes', ho, ?_⟩
  · obtain ⟨hpaused, _, hclosed⟩ := (waits_on_sessions
      (.of_isSome closedMeanwhile_isSome) 0).1 1 (by decide) hidle hgoes
    refine ⟨hpaused, Bool.eq_false_iff.2 fun hc => ?_⟩
    simpa [closedMeanwhile] using hclosed.1 hc
  · have hright := (waits_on_sessions (.of_isSome resumedMeanwhile_isSome) 1).2
      (by simp [resumedMeanwhile, closedMeanwhile]) (.run (.call 2)) resumedMeanwhileEnd 2 _
      (Option.some_get resumedMeanwhileLast_isSome).symm (by rfl) hgoes' ho
    rcases hright with ⟨hok, _⟩ | ⟨_, hc⟩
    · cases hok
    · exact hc

/-- Nobody can go on any more, and a call still waits for a consumer that is closed. -/
theorem waits_on_closed_consumer :
    Run {} closedMeanwhile closedMeanwhileEnd ∧
    (∀ c, .operate (.dropConnection c) ∉ closedMeanwhile) ∧ closedMeanwhileEnd.idle = true ∧
    closedMeanwhileEnd.outline.calls[2]? = some (.awaitResume 1) ∧
    closedMeanwhileEnd.hasEnded 2 = false ∧ closedMeanwhileEnd.consumerClosed 1 = true :=
  ⟨.of_isSome closedMeanwhile_isSome, by simp [closedMeanwhile], by decide, by decide, by decide,
    by decide⟩

end System

end BrokerClient
