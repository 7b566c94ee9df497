import BrokerClient.Proofs.Bookkeeping

/-!
# Tearing a connection down

However sessions are opened and closed and the connection is closed, in whatever order the calls go
on and whatever the broker answers: no channel is asked to close twice, nor is the connection, and
when everything that was begun has ended after a close of the connection, every channel that the
broker opened was asked to close, once. The channels of sessions that were still being set up when
the connection was closed are among them.

Both are read off the ledger: a channel has one owner, so one session at most accounts for a close
of it, and a closed connection has no session that is open and that nobody is about to close.

What the ledger does not tell is that nothing was left undone when the calls have ended. A call that
owns a channel, or that has sessions before it, has not ended (`role_of_ended`), so that in the end
each channel belongs to a session, the session is closed (`closed_of_home`), and a session that is
closed accounts for one close.
-/

namespace BrokerClient

/-- Whether a call opens a session on a connection or closes the connection. -/
def Call.isOn (c : ConnectionId) : Call → Bool
  | .createSession d _ _ _ => d = c
  | .close d => d = c
  | _ => false

namespace System

open Ledger

variable {w v : System} {i : CallId} {c d : ConnectionId} {s : SessionId} {ls : List Label}

/-! ## At most one close -/

/-- The closes in the ledger are those that were asked of the broker. -/
theorem count_asked {r : Request} (hr : r.isClose = true) :
    (w.connection c).asked.count r = (w.ledger.line c).closes.count r := by
  rw [ledger_line]
  exact (List.count_filter hr).symm

/-- A close of a channel for each session on it that is closed. -/
theorem count_closeChannel (h : w.ledger.Sound) (c : ConnectionId) (k : Nat) :
    (w.connection c).asked.count (.closeChannel k) =
      w.ledger.rooms.countP fun x => x.isAt c k && x.closed := by
  rw [count_asked rfl, h.tallied.shut]

/-- A channel has one owner at most, and only that asks for its close. -/
theorem count_closeChannel_le_one (h : w.ledger.Sound) (c : ConnectionId) (k : Nat) :
    (w.connection c).asked.count (.closeChannel k) ≤ 1 := by
  have hle : (w.ledger.rooms.countP fun x => x.isAt c k && x.closed) ≤
      w.ledger.rooms.countP (Room.isAt c k) :=
    List.countP_mono_left fun x _ hx => (Bool.and_eq_true_iff.1 hx).1
  have ho := h.tallied.owned c k
  rw [owners] at ho
  rw [count_closeChannel h]
  split at ho <;> omega

/-- A connection has one call at most that closes it. -/
theorem count_close_le_one (h : w.ledger.Sound) (c : ConnectionId) :
    (w.connection c).asked.count .close ≤ 1 := by
  have hc := h.tallied.concluded c
  rw [count_asked rfl]
  split at hc <;> omega

/-! ## After the close of the connection -/

/-- A phase that nothing ends. -/
theorem life_of_moves {L M : Ledger} (hm : Moves L M) (h : (L.line c).life = .closed) :
    (M.line c).life = .closed := by
  induction hm with
  | refl => exact h
  | tail _ hm ih => exact hm.stays_closed ih

/-- Going on with the sessions leaves every connection in its phase. -/
theorem life_closeSessions (w : System) (i : CallId) (c : ConnectionId)
    (failure : Option TransportFailure) (ss : List SessionId) (d : ConnectionId) :
    ((w.closeSessions i c failure ss).connection d).life = (w.connection d).life := by
  have hask : ∀ (v : System) request limit goal,
      ((v.ask i c request limit goal).connection d).life = (v.connection d).life :=
    fun v request limit goal => connection_ask_of (fun _ _ _ => rfl) v i c request limit goal d
  induction ss with
  | nil => rw [closeSessions, hask]
  | cons s ss ih =>
    rw [closeSessions]
    split
    · exact ih
    · simp only [hask]
      rw [connection_congr (w := w) (by simp)]

/-- After the first stretch of a call that closes a connection the connection is closed, whoever did
it. -/
theorem life_closeConnection (hc : c < w.connections.length) (i : CallId) :
    ((w.closeConnection i c).connection c).life = .closed := by
  rcases closeConnection_effect w i c with ⟨hcl, v, hq, he⟩ | ⟨_, v, rs, hq, he⟩
  · rw [he, finish_eq, connection_setCall, hq.connection]
    simpa [Lifecycle.isClosed] using hcl
  · rw [he, life_closeSessions,
      connection_modifyConnection_self (by simpa [hq.connections] using hc)]

/-- A connection that a call was started to close is closed, from that call's start on. -/
theorem closed_of_called (h : Run {} ls w) (hcall : .close c ∈ w.outline.calls) :
    (w.connection c).life = .closed := by
  refine h.since_called (P := fun v => (v.connection c).life = .closed) hcall ?_ ?_
  · intro v hv
    exact life_closeConnection (w := v.enlist (.close c)) (lt_of_holdsConnection hv) _
  · intro v u hm hl
    have hlife := life_of_moves (c := c) hm (by rw [ledger_line]; exact hl)
    rw [ledger_line] at hlife
    exact hlife

/-! ## Complete -/

/-- A call that was handed a channel, or that has sessions of a connection to close, stands in an
exchange on that connection; the first creates a session, the second closes the connection. -/
theorem exchange_of_role {p : Progress} (h : (∃ k, p.role = .handing c k) ∨
    ∃ rest, p.role = .closing c rest) : ∃ e : Exchange, p = .exchange e ∧ e.connection = c ∧
      ((∃ t m, e.goal = .openSession t m) ∨ ∃ s n rest f, e.goal = .closeNext s n rest f) := by
  cases p with
  | exchange e =>
    refine ⟨e, rfl, ?_⟩
    simp only [Progress.role, Exchange.role] at h
    split at h
    next hg hs => exact ⟨by simpa using h, .inl ⟨_, _, hg⟩⟩
    next => cases hg : e.goal <;> simp_all [Goal.role]
  | ended o =>
    rcases o with e | v
    · simp [Progress.role] at h
    · cases v <;> simp [Progress.role] at h
  | _ => simp [Progress.role] at h

/-- Such a call is one on the connection, and it has not ended. -/
theorem Wired.busy {t : Task} (hw : w.Wired) (ht : w.calls[i]? = some t)
    (h : (∃ k, t.progress.role = .handing c k) ∨ ∃ rest, t.progress.role = .closing c rest) :
    t.call.isOn c = true ∧ ∀ o, t.progress ≠ .ended o := by
  obtain ⟨e, he, hconn, hg⟩ := exchange_of_role h
  have hf := hw.fit i t ht
  rw [he] at hf ⊢
  simp only [Progress.Fits, Exchange.Fits] at hf
  refine ⟨?_, by simp⟩
  rcases hg with ⟨t', m, hg⟩ | ⟨s, n, rest, f, hg⟩
  · simp only [hg] at hf
    obtain ⟨_, _, _, _, _, _, hx⟩ := hf
    simp [hx, Call.isOn, hconn]
  · simp only [hg] at hf
    obtain ⟨_, _, hx, _⟩ := hf
    simp [hx, Call.isOn, hconn]

/-- No call of a client is about to do anything with a connection once the calls on it have
ended. -/
theorem role_of_ended (hw : w.Wired)
    (hended : ∀ t ∈ w.calls, t.call.isOn c = true → ∃ o, t.progress = .ended o) :
    ∀ r ∈ w.ledger.roles, (∀ k, r ≠ .handing c k) ∧ ∀ rest, r ≠ .closing c rest := by
  intro r hr
  obtain ⟨t, ht, rfl⟩ := List.mem_map.1 (show r ∈ w.calls.map (·.progress.role) from hr)
  obtain ⟨i, hi⟩ := List.getElem?_of_mem ht
  have hnot : ¬((∃ k, t.progress.role = .handing c k) ∨
      ∃ rest, t.progress.role = .closing c rest) := by
    intro hb
    obtain ⟨hon, hne⟩ := hw.busy hi hb
    obtain ⟨o, ho⟩ := hended t ht hon
    exact hne o ho
  exact ⟨fun k hk => hnot (.inl ⟨k, hk⟩), fun rest hrest => hnot (.inr ⟨rest, hrest⟩)⟩

/-- The sessions of a closed connection are closed when nobody is closing it any more. -/
theorem closed_of_home (h : w.ledger.Sound) (hlife : (w.ledger.line c).life = .closed)
    (hroles : ∀ r ∈ w.ledger.roles, ∀ rest, r ≠ .closing c rest) {x : Room}
    (hx : x ∈ w.ledger.rooms) (hc : x.home = c) : x.closed = true := by
  obtain ⟨s, hs⟩ := List.getElem?_of_mem hx
  by_contra hopen
  rcases h.placed.reach hs (by simpa using hopen) with hreg | ⟨i, rest, hr, _⟩
  · rw [hc, h.placed.emptied hlife] at hreg
    cases hreg
  · have hi := lt_of_role (show w.ledger.role i ≠ .idle by rw [hr]; simp)
    have hmem := List.mem_of_getElem? (roles_eq_some hi)
    exact hroles _ hmem rest (hr.trans (by rw [hc]))

/-- Exactly-once teardown. In every run and for every connection: each channel is asked to close at
most once, and so is the broker connection. Once a close of the connection was called and the calls
that create sessions on it or close it have ended, each channel that the broker ever opened was
asked to close exactly once, and the broker connection too. -/
theorem teardown_exactly_once {ls : List Label} {w : System} (h : Run {} ls w)
    (c : ConnectionId) :
    (∀ k, (w.connection c).asked.count (.closeChannel k) ≤ 1) ∧
    (w.connection c).asked.count .close ≤ 1 ∧
    ((∃ t ∈ w.calls, t.call = .close c) →
      (∀ t ∈ w.calls, t.call.isOn c = true → ∃ o, t.progress = .ended o) →
      (∀ k < (w.connection c).broker.channels.length,
        (w.connection c).asked.count (.closeChannel k) = 1) ∧
      (w.connection c).asked.count .close = 1) := by
  have hsound := sound_of_run h
  refine ⟨count_closeChannel_le_one hsound c, count_close_le_one hsound c, ?_⟩
  rintro ⟨t, ht, hcall⟩ hended
  have hlife : (w.ledger.line c).life = .closed := by
    rw [ledger_line]
    exact closed_of_called h (hcall ▸ List.mem_map_of_mem ht)
  have hroles := role_of_ended (wired_of_run h) hended
  constructor
  · intro k hk
    have ho := hsound.tallied.owned c k
    -- No call has the channel in its hands, so a session has it.
    have hhands : w.ledger.roles.countP (Role.hands c k) = 0 := by
      rw [List.countP_eq_zero]
      intro r hr
      simpa [Role.hands] using (hroles r hr).1 k
    have hopen : k < (w.ledger.line c).opened := by
      rw [ledger_line]
      exact hk
    rw [owners, hhands, if_pos hopen, Nat.add_zero] at ho
    rw [count_closeChannel hsound, ← ho]
    -- Every session on the channel is closed, so the closed ones are all.
    refine List.countP_congr fun x hx => ?_
    have hcl := closed_of_home hsound hlife (fun r hr => (hroles r hr).2) hx
    simp only [Room.isAt, Bool.and_eq_true, decide_eq_true_eq, and_assoc]
    grind
  · have hcl := hsound.tallied.concluded c
    have hcloses : w.ledger.roles.countP (Role.closes c) = 0 := by
      rw [List.countP_eq_zero]
      intro r hr
      cases r with
      | closing d rest =>
        have := (hroles _ hr).2 rest
        simp only [Role.closes, decide_eq_true_eq]
        rintro rfl
        exact this rfl
      | _ => simp [Role.closes]
    rw [hcloses, if_pos hlife] at hcl
    rw [count_asked rfl]
    exact hcl

/-- Of two sessions the second is still being set up when the connection is closed. -/
def lateSession : List Label :=
  [.operate .createRegistry, .operate (.connect 0 (.ofMillis 15000) {}),
    .call (.createSession 0 false .auto none), .run (.call 0), .run (.call 0),
    .call (.createSession 0 false .auto none), .run (.call 1), .call (.close 0),
    .run (.call 1), .run (.call 1), .run (.call 1),
    .run (.call 2), .run (.call 2), .run (.call 2), .run (.call 2)]

theorem lateSession_isSome : (after? {} lateSession).isSome = true := by decide

/-- What they come to. -/
def lateSessionEnd : System := (after? {} lateSession).get lateSession_isSome

/-- Both channels are closed once, also the one that was opened too late, and so is the connection.
-/
theorem lateSession_teardown :
    (∀ k < 2, (lateSessionEnd.connection 0).asked.count (.closeChannel k) = 1) ∧
    (lateSessionEnd.connection 0).asked.count .close = 1 := by
  have hcalls : lateSessionEnd.calls =
      [⟨.createSession 0 false .auto none, .ended (.ok (.session 0)), false⟩,
        ⟨.createSession 0 false .auto none, .ended (.error (.closed .connection)), false⟩,
        ⟨.close 0, .ended (.ok .unit), false⟩] := rfl
  have hchannels : (lateSessionEnd.connection 0).broker.channels.length = 2 := by decide
  have hmem : (⟨.close 0, .ended (.ok .unit), false⟩ : Task) ∈ lateSessionEnd.calls := by
    rw [hcalls]
    simp
  have hended : ∀ t ∈ lateSessionEnd.calls, t.call.isOn 0 = true → ∃ o, t.progress = .ended o := by
    rw [hcalls]
    simp
  have h := (teardown_exactly_once (.of_isSome lateSession_isSome) 0).2.2 ⟨_, hmem, rfl⟩ hended
  rw [← lateSessionEnd, hchannels] at h
  exact h

end System

end BrokerClient
