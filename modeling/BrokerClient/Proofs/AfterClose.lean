import BrokerClient.Proofs.Teardown

/-!
# After a connection was closed

A close ends a connection for good. Once the call that closed it has come to its end, whatever the
broker answered, the connection and all its sessions are closed and stay so. What is done with them
from then on is refused, a further close succeeds, and in either case nothing comes of it but
entries in the log (`System.closed_for_good`).

That no session escapes is read off the ledger. The call that closes a connection has sessions
before it until it asks for the close of the broker connection, and no other call ever has
(`Ledger.Retiring`).

`Shut` says what is left when the call has ended, and from there on there is nothing to follow in a
run: an operation on a shut connection is refused where it is made (`Shut.refuses`), and so is a
call (`Shut.fails`), but for a further close, which finds everything closed (`Shut.closes`). `Inert`
is the strongest thing that can be said of the state after it. The log is written to, calls are
counted, and the time for an identifier may end.
-/

namespace BrokerClient

namespace Ledger

variable {L M : Ledger} {c : ConnectionId} {i : CallId}

/-- A call has sessions of a connection before it, or the broker connection was asked to close. -/
def Retiring (L : Ledger) (c : ConnectionId) (i : CallId) : Prop :=
  (∃ rest, L.role i = .closing c rest) ∨ .close ∈ (L.line c).closes

/-- A call with sessions before it takes one of them, or has the broker connection closed. -/
theorem retiring_of_closing {rest : List SessionId} (hr : L.role i = .closing c rest)
    (hm : Move L M) : M.Retiring c i := by
  cases hm with
  | @conclude j d hj hd =>
    -- The sessions are done with, and the broker connection is asked to close.
    by_cases hij : j = i
    · subst hij
      obtain ⟨rfl, -⟩ := Role.closing.inj (hj.symm.trans hr)
      exact .inr (by grind)
    · exact .inl ⟨rest, by grind⟩
  | @skip j d s rest' x hj hx hclosed =>
    by_cases hij : j = i
    · subst hij
      obtain ⟨rfl, -⟩ := Role.closing.inj (hj.symm.trans hr)
      exact .inl ⟨rest', by grind⟩
    · exact .inl ⟨rest, by grind⟩
  | @closeNext j d s rest' x hj hx hd hopen =>
    by_cases hij : j = i
    · subst hij
      obtain ⟨rfl, -⟩ := Role.closing.inj (hj.symm.trans hr)
      exact .inl ⟨rest', by grind⟩
    · exact .inl ⟨rest, by grind⟩
  -- These are moves of calls that have another role, hence not of this one.
  | openChannel | register | discard | shutDown => exact .inl ⟨rest, by grind⟩
  -- These change nobody's role.
  | connect | drop | redirect | enlist | closeRoom | forget => exact .inl ⟨rest, by grind⟩

/-- The broker connection is not asked twice, so what was asked stays so. -/
theorem Retiring.move (h : L.Retiring c i) (hm : Move L M) : M.Retiring c i := by
  rcases h with ⟨rest, hr⟩ | hasked
  · exact retiring_of_closing hr hm
  · exact .inr (hm.asked hasked)

theorem Retiring.moves (h : L.Retiring c i) (hm : Moves L M) : M.Retiring c i := by
  induction hm with
  | refl => exact h
  | tail _ hm ih => exact ih.move hm

/-- A connection is closed once, so nobody has sessions of it before him when the broker connection
was asked to close. -/
theorem Retiring.done (hs : L.Sound) (h : L.Retiring c i)
    (hi : ∀ rest, L.role i ≠ .closing c rest) :
    (L.line c).life = .closed ∧ ∀ r ∈ L.roles, ∀ rest, r ≠ .closing c rest := by
  have hasked : 0 < (L.line c).closes.count .close :=
    List.count_pos_iff.2 (h.resolve_left fun ⟨rest, hr⟩ => hi rest hr)
  have hone := hs.tallied.concluded c
  constructor
  · by_contra hlife
    rw [if_neg hlife] at hone
    omega
  · have hnone : L.roles.countP (Role.closes c) = 0 := by
      split at hone <;> omega
    rintro _ hr rest rfl
    exact List.countP_eq_zero.1 hnone _ hr (by simp [Role.closes])

end Ledger

/-- A connection whatever may still be done with its identifier. -/
def Connection.settled (x : Connection) : Connection := { x with identifierOpen := true }

namespace System

open Ledger

variable {w v u : System} {c : ConnectionId} {s : SessionId} {i : CallId} {ls : List Label}

/-! ## What a close leaves -/

/-- A connection is closed, and so are all the sessions that were ever opened on it. -/
structure Shut (w : System) (c : ConnectionId) : Prop where
  life : (w.connection c).life = .closed
  emptied : (w.connection c).sessions = []
  sessions : ∀ s, w.isOn c s = true → (w.session s).closed = true ∧ (w.session s).delivery = .closed

/-- The call that closes a connection has its sessions before it from the start. -/
theorem retiring_start (h : w.ledger.Sound) (hc : w.mayCall (.close c) = true)
    (hopen : (w.connection c).life.isClosed = false) :
    (w.call (.close c)).2.ledger.Retiring c w.calls.length := by
  have hs : (w.enlist (.close c)).ledger.Sound := by
    rw [ledger_enlist]
    exact h.move (.enlist _)
  have hi : w.calls.length < (w.enlist (.close c)).calls.length := by simp
  obtain ⟨M, _, hr, hms⟩ := moves_shutDown hs hi (lt_of_holdsConnection hc)
    (idle_enlist w _) hopen
  exact Retiring.moves (.inl ⟨_, hr⟩) hms

/-- A call that has ended has no sessions before it. -/
theorem role_of_hasEnded (h : w.hasEnded i = true) (rest : List SessionId) :
    w.ledger.role i ≠ .closing c rest := by
  unfold hasEnded at h
  split at h
  next o hp =>
    rw [role_of_progress hp]
    rcases o with e | x
    · simp [Progress.role]
    · cases x <;> simp [Progress.role]
  next => cases h

/-- When the call that closed a connection has ended, no session has escaped. -/
theorem shut_of_ended {ms : List Label} (h : Run {} ls w) (hc : w.mayCall (.close c) = true)
    (hopen : (w.connection c).life.isClosed = false) (hms : Run (w.call (.close c)).2 ms v)
    (hended : v.hasEnded w.calls.length = true) : v.Shut c := by
  have hrun : Run {} (ls ++ [.call (.close c)]) (w.call (.close c)).2 :=
    .step h (step?_call hc)
  have hsound := sound_of_run (hrun.trans hms)
  have hret : v.ledger.Retiring c w.calls.length :=
    (retiring_start (sound_of_run h) hc hopen).moves
      (hms.moves (wired_of_run hrun) (sound_of_run hrun))
  obtain ⟨hlife, hroles⟩ := hret.done hsound (role_of_hasEnded hended)
  refine ⟨?_, ?_, fun s hs => ?_⟩
  · simpa using hlife
  · simpa using hsound.placed.emptied hlife
  · obtain ⟨hlt, hon⟩ := isOn_iff.1 hs
    have hx := room_of_lt hlt
    have hcl := closed_of_home hsound hlife hroles (List.mem_of_getElem? hx) hon
    exact ⟨hcl, (hsound.tuned.agree hx).1 hcl⟩

/-! ## What comes of nothing -/

/-- `v` is `w` with more in the log and more calls, and but for whether an identifier may still be
set. Nothing was asked of a broker, no registration or listener is another, no confirm that is
awaited is, and no listener was told anything. -/
structure Inert (w v : System) : Prop where
  now : v.now = w.now
  registries : v.registries = w.registries
  connections : v.connections.map Connection.settled = w.connections.map Connection.settled
  sessions : v.sessions = w.sessions
  consumers : v.consumers = w.consumers
  notices : ∃ es : List LogEvent, v.notices = es.map .log ++ w.notices

theorem Quiet.inert (h : Quiet w v) : Inert w v :=
  ⟨h.now, h.registries, congrArg _ h.connections, h.sessions, h.consumers, h.notices⟩

/-- That an identifier cannot be set any more does not count. -/
theorem Inert.closeIdentifierWindow (h : Inert w v) (c : ConnectionId) :
    Inert w (v.closeIdentifierWindow c) :=
  ⟨h.now, h.registries, (map_modify_eq (by intro _; rfl) v.connections c).trans h.connections,
    h.sessions, h.consumers, h.notices⟩

/-- A call starts and ends at once, with nothing coming of it. -/
def EndsAtOnce (w : System) (x : Call) (o : Outcome) : Prop :=
  (w.call x).2.calls = w.calls ++ [{ call := x, progress := .ended o }] ∧ Inert w (w.call x).2

/-- An operation is one that the state does not allow, and nothing comes of it. -/
def Refuses (w : System) (o : Operation) : Prop :=
  (∃ cause, (w.operate o).1 = .failed (.illegalState cause)) ∧
    (w.operate o).2.calls = w.calls ∧ Inert w (w.operate o).2

/-- Whether an operation uses a connection or one of its sessions. -/
def usedBy (w : System) (c : ConnectionId) : Operation → Bool
  | .clientId d => d = c
  | .setClientId d _ => d = c
  | .metadata d => d = c
  | .exceptionListener d => d = c
  | .setExceptionListener d _ => d = c
  | .start d => d = c
  | .stop d => d = c
  | .createConsumer s _ => w.isOn c s
  | .setConfirmListener s _ => w.isOn c s
  | _ => false

/-- Whether a call uses a connection or one of its sessions. -/
def calledBy (w : System) (c : ConnectionId) : Call → Bool
  | .createSession d _ _ _ => d = c
  | .subscribe s _ _ => w.isOn c s
  | .unsubscribe s _ => w.isOn c s
  | .send s _ => w.isOn c s
  | _ => false

/-- Whether a call closes a connection or one of its sessions. -/
def closedBy (w : System) (c : ConnectionId) : Call → Bool
  | .close d => d = c
  | .closeSession s => w.isOn c s
  | _ => false

/-- An operation is refused if it fails with a misuse and nothing comes of it. -/
theorem Refuses.of_eq {o : Operation} {cause : Misuse} (h : Inert w v) (hcalls : v.calls = w.calls)
    (he : w.operate o = (.failed (.illegalState cause), v)) : w.Refuses o :=
  ⟨⟨cause, by rw [he]⟩, by rw [he, hcalls], by rwa [he]⟩

/-- What is done with a connection that is shut, or with a session of it, is refused. -/
theorem Shut.refuses (h : w.Shut c) {o : Operation} (ho : w.usedBy c o = true) : w.Refuses o := by
  -- Before it looks at the connection, an operation at most writes a log line and closes the window
  -- of the client identifier. Both are inert, so only the answer is left.
  have hlog : ∀ e, Inert w (w.log e) := fun e => (Quiet.log w e).inert
  have hwindow : ∀ e, Inert w ((w.log e).closeIdentifierWindow c) := fun e =>
    (hlog e).closeIdentifierWindow c
  have hopen : ∀ (v : System) f, (v.connection c).life = .closed →
      v.ifOpen c f = (.failed (.closed .connection), v) := fun v f hv =>
    if_pos (congrArg Lifecycle.isClosed hv)
  have hlife : ∀ e, (((w.log e).closeIdentifierWindow c).connection c).life = .closed := fun e =>
    (connection_modifyConnection_of (g := Connection.life) (by intro _; rfl) _ c c).trans h.life
  cases o with
  | clientId d =>
    obtain rfl : d = c := by simpa [usedBy] using ho
    exact .of_eq (hlog _) rfl (hopen _ _ h.life)
  | setClientId d id =>
    obtain rfl : d = c := by simpa [usedBy] using ho
    have hl : ((w.log (.setClientId id)).connection d).life.isClosed = true :=
      congrArg Lifecycle.isClosed h.life
    -- The window is looked at first; it decides which of the two refusals it is.
    cases hwin : ((w.log (.setClientId id)).connection d).identifierOpen with
    | false =>
      have he : w.operate (.setClientId d id) =
          (.failed (.illegalState .identifierTooLate), w.log (.setClientId id)) := by
        simp [operate, setClientId, hwin]
      exact .of_eq (hlog _) rfl he
    | true =>
      have he : w.operate (.setClientId d id) =
          (.failed (.closed .connection), w.log (.setClientId id)) := by
        simp [operate, setClientId, hwin, hl]
      exact .of_eq (hlog _) rfl he
  | metadata d =>
    obtain rfl : d = c := by simpa [usedBy] using ho
    exact .of_eq (hwindow _) rfl (hopen _ _ (hlife _))
  | exceptionListener d =>
    obtain rfl : d = c := by simpa [usedBy] using ho
    exact .of_eq (hwindow _) rfl (hopen _ _ (hlife _))
  | setExceptionListener d label =>
    obtain rfl : d = c := by simpa [usedBy] using ho
    exact .of_eq (hwindow _) rfl (hopen _ _ (hlife _))
  | start d =>
    obtain rfl : d = c := by simpa [usedBy] using ho
    exact .of_eq (hwindow _) rfl (hopen _ _ (hlife _))
  | stop d =>
    obtain rfl : d = c := by simpa [usedBy] using ho
    exact .of_eq (hwindow _) rfl (hopen _ _ (hlife _))
  | createConsumer s d => exact .of_eq (Quiet.refl w).inert rfl (if_pos (h.sessions s ho).1)
  | setConfirmListener s l => exact .of_eq (Quiet.refl w).inert rfl (if_pos (h.sessions s ho).1)
  | _ => simp [usedBy] at ho

/-- A call that only the log has seen when it ends. -/
theorem EndsAtOnce.of_eq {x : Call} {o : Outcome} (h : Inert (w.enlist x) v)
    (hcalls : v.calls = (w.enlist x).calls)
    (he : (w.call x).2 = v.setCall w.calls.length (.ended o)) : w.EndsAtOnce x o := by
  rw [EndsAtOnce, he]
  constructor
  · show v.calls.modify w.calls.length (fun t => { t with progress := .ended o }) = _
    rw [hcalls, enlist]
    exact modify_append_self ..
  · exact ⟨h.now, h.registries, h.connections, h.sessions, h.consumers, h.notices⟩

/-- A call on a connection that is shut, or on a session of it, fails at once. -/
theorem Shut.fails (h : w.Shut c) {x : Call} (hx : w.calledBy c x = true) :
    ∃ cause, w.EndsAtOnce x (.error (.illegalState cause)) := by
  cases x with
  | createSession d transacted mode via =>
    obtain rfl : d = c := by simpa [calledBy] using hx
    refine ⟨.closed .connection, ?_⟩
    obtain ⟨v, hq, ⟨_, he | he⟩ | ⟨hopen, _⟩⟩ := createSession_effect
      (w.enlist (.createSession d transacted mode via)) w.calls.length d transacted mode via
    · exact .of_eq hq.inert hq.calls he
    · exact .of_eq (hq.inert.closeIdentifierWindow d) hq.calls he
    · have hl : ((w.enlist (.createSession d transacted mode via)).connection d).life = .closed :=
        h.life
      rw [hl] at hopen
      cases hopen
  | subscribe s d name =>
    exact ⟨.closed .session, .of_eq (Quiet.refl _).inert rfl (if_pos (h.sessions s hx).1)⟩
  | unsubscribe s name =>
    exact ⟨.closed .session, .of_eq (Quiet.refl _).inert rfl (if_pos (h.sessions s hx).1)⟩
  | send s m =>
    exact ⟨.closed .session, .of_eq (Quiet.refl _).inert rfl (if_pos (h.sessions s hx).1)⟩
  | _ => simp [calledBy] at hx

/-- A connection without sessions has none to forget. -/
theorem forget_eq_self (h : (w.connection (w.session s).connection).sessions = []) :
    w.forget s = w := by
  have hf : ∀ x, w.connections[(w.session s).connection]? = some x →
      { x with sessions := x.sessions.filter (· ≠ s) } = x := fun x hx => by
    have hc : w.connection (w.session s).connection = x := by simp [connection, hx]
    have hnone : x.sessions = [] := hc ▸ h
    rw [hnone, List.filter_nil, ← hnone]
  unfold forget
  split
  · rw [modifyConnection, modify_eq_self_of hf]
  · rfl

/-- A further close succeeds at once. -/
theorem Shut.closes (h : w.Shut c) {x : Call} (hx : w.closedBy c x = true) :
    w.EndsAtOnce x (.ok .unit) := by
  cases x with
  | close d =>
    obtain rfl : d = c := by simpa [closedBy] using hx
    rcases closeConnection_effect (w.enlist (.close d)) w.calls.length d with
      ⟨_, v, hq, he⟩ | ⟨hopen, _⟩
    · exact .of_eq hq.inert hq.calls he
    · have hl : ((w.enlist (.close d)).connection d).life = .closed := h.life
      rw [hl] at hopen
      cases hopen
  | closeSession s =>
    obtain ⟨v, hq, ⟨_, he⟩ | ⟨hopen, _⟩⟩ :=
      closeSession_effect (w.enlist (.closeSession s)) w.calls.length s
    · obtain ⟨_, hon⟩ := isOn_iff.1 hx
      have hnone : (v.connection (v.session s).connection).sessions = [] := by
        rw [hq.session, hq.connection]
        exact hon ▸ h.emptied
      rw [forget_eq_self hnone] at he
      exact .of_eq hq.inert hq.calls he
    · have hcl : ((w.enlist (.closeSession s)).session s).closed = true := (h.sessions s hx).1
      rw [hcl] at hopen
      cases hopen
  | _ => simp [closedBy] at hx

/-- Closed is closed for good. From when the call that closed a connection has ended, in whatever
way, the connection has no session and every session that was opened on it is closed; every use of
the connection or of one of its sessions is one that the state does not allow, every further close
succeeds, and nothing comes of either. -/
theorem closed_for_good {ms : List Label} (h : Run {} ls w) (hc : w.mayCall (.close c) = true)
    (hopen : (w.connection c).life.isClosed = false) (hms : Run (w.call (.close c)).2 ms v)
    (hended : v.hasEnded w.calls.length = true) :
    v.Shut c ∧ (∀ o, v.usedBy c o = true → v.Refuses o) ∧
    (∀ x, v.calledBy c x = true → ∃ cause, v.EndsAtOnce x (.error (.illegalState cause))) ∧
    ∀ x, v.closedBy c x = true → v.EndsAtOnce x (.ok .unit) := by
  have hshut := shut_of_ended h hc hopen hms hended
  exact ⟨hshut, fun _ => hshut.refuses, fun _ => hshut.fails, fun _ => hshut.closes⟩

/-- A connection with a session whose channel will fail to close, while another is being set up. -/
def oneAndAHalf : List Label :=
  [.operate .createRegistry, .operate (.connect 0 (.ofMillis 15000) {}),
    .operate (.setClientId 0 "ledger"), .call (.createSession 0 false .auto none), .run (.call 0),
    .run (.call 0), .take 0,
    .operate (.inject 0 {
      kind := .channelClose
      channel := some 0
      failure := some (.io "reset") }),
    .call (.createSession 0 false .auto none), .run (.call 1)]

theorem oneAndAHalf_isSome : (after? {} oneAndAHalf).isSome = true := by decide

def oneAndAHalfEnd : System := (after? {} oneAndAHalf).get oneAndAHalf_isSome

/-- The connection is closed, and the other session comes too late. -/
def closingBoth : List Label :=
  [.run (.call 1), .run (.call 2), .run (.call 2), .run (.call 1), .run (.call 2), .run (.call 1)]

theorem closingBoth_isSome :
    ((oneAndAHalfEnd.call (.close 0)).2.after? closingBoth).isSome = true := by decide

def closingBothEnd : System :=
  ((oneAndAHalfEnd.call (.close 0)).2.after? closingBoth).get closingBoth_isSome

/-- The close failed, and the connection is closed for good all the same, with both sessions. -/
theorem closingBothEnd_shut :
    closingBothEnd.progress? 2 = some (.ended (.error (.transport (.io "reset")))) ∧
    closingBothEnd.isOn 0 0 = true ∧ closingBothEnd.isOn 0 1 = true ∧ closingBothEnd.Shut 0 ∧
    closingBothEnd.Refuses (.setClientId 0 "ledger") ∧
    closingBothEnd.Refuses (.setConfirmListener 1 none) ∧
    (∃ cause, closingBothEnd.EndsAtOnce (.subscribe 0 (.topic "prices") "feed")
      (.error (.illegalState cause))) ∧
    closingBothEnd.EndsAtOnce (.close 0) (.ok .unit) := by
  obtain ⟨hshut, hrefused, hfails, hcloses⟩ := closed_for_good (c := 0)
    (.of_isSome oneAndAHalf_isSome) (by decide) (by decide) (.of_isSome closingBoth_isSome)
    (by decide)
  exact ⟨by rfl, by decide, by decide, hshut, hrefused _ (by decide), hrefused _ (by decide),
    hfails _ (by decide), hcloses _ (by decide)⟩

end System

end BrokerClient
