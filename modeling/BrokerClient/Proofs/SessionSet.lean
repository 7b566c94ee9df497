import BrokerClient.Proofs.Bookkeeping
import BrokerClient.Proofs.Holders

/-!
# The sessions of a connection

A connection that is closed has no session. While it is not, and the program holds it, its sessions
are those that calls have created on it and that are not closed, and each of them delivers if and
only if the connection is started. This needs no call to have ended: it holds between any two steps
of any run, however creating, starting, stopping and closing fall into each other.

What is closed stays closed, a session and with it every consumer of the session.

All of it is read off the ledger. `Placed` gives the sessions that a connection has, `Tuned` what
they deliver, and `Wired` ties a room of the ledger to the call that created the session. What is
added here is that closing is for good: a room that is closed stays so through every move
(`session_closed_of_moves`), and `Run.closed_stays` carries it, with the consumers, along a run.
-/

namespace BrokerClient

/-- A call has produced a session only by ending with it. -/
theorem Progress.eq_of_role {p : Progress} {s : SessionId} (h : p.role = .produced s) :
    p = .ended (.ok (.session s)) := by
  cases p with
  | exchange e =>
    simp only [Progress.role, Exchange.role] at h
    split at h
    · cases h
    · cases hg : e.goal <;> simp_all [Goal.role]
  | ended o =>
    rcases o with e | (_ | t | x)
    · cases h
    · cases h
    · cases h
      rfl
    · cases h
  | _ => cases h

/-! ## What stays -/

namespace Ledger

/-- A session keeps its place through any moves, and what is closed of it stays closed. -/
theorem room_of_moves {L M : Ledger} (hm : Moves L M) {s : SessionId} {x : Room}
    (hx : L.rooms[s]? = some x) : ∃ y, M.rooms[s]? = some y ∧
      (x.closed = true → y.closed = true) ∧ (x.delivery = .closed → y.delivery = .closed) := by
  induction hm with
  | refl => exact ⟨x, hx, id, id⟩
  | tail _ hm ih =>
    obtain ⟨y, hy, hc, hd⟩ := ih
    obtain ⟨z, hz, _, _, hc', hd'⟩ := hm.room hy
    exact ⟨z, hz, hc' ∘ hc, hd' ∘ hd⟩

end Ledger

namespace System

open Ledger

variable {w v u : System} {i : CallId} {c : ConnectionId} {s : SessionId} {x : ConsumerId}
  {xs : List Call}

/-- A session that is closed is there. -/
theorem lt_of_closed (h : (w.session s).closed = true) : s < w.sessions.length := by
  by_contra hs
  rw [session, List.getElem?_eq_none (Nat.le_of_not_lt hs)] at h
  exact absurd h (by decide)

/-- So is one whose delivery has ended. -/
theorem lt_of_delivery (h : (w.session s).delivery = .closed) : s < w.sessions.length := by
  by_contra hs
  rw [session, List.getElem?_eq_none (Nat.le_of_not_lt hs)] at h
  exact absurd h (by decide)

/-- A session that is closed stays closed. -/
theorem session_closed_of_moves (hm : Moves w.ledger v.ledger) (h : (w.session s).closed = true) :
    (v.session s).closed = true := by
  obtain ⟨y, hy, hc, _⟩ := room_of_moves hm (room_of_lt (lt_of_closed h))
  obtain ⟨_, rfl⟩ := room_eq_some hy
  exact hc h

/-- Delivery that has ended does not begin again. -/
theorem delivery_closed_of_moves (hm : Moves w.ledger v.ledger)
    (h : (w.session s).delivery = .closed) : (v.session s).delivery = .closed := by
  obtain ⟨y, hy, _, hd⟩ := room_of_moves hm (room_of_lt (lt_of_delivery h))
  obtain ⟨_, rfl⟩ := room_eq_some hy
  exact hd h

/-- A session keeps its connection and its channel. -/
theorem address_of_grows (hg : w.outline.Grows xs v.outline) (hs : s < w.sessions.length) :
    (v.session s).address = (w.session s).address := by
  have ha := getElem?_of_grows hg.addresses (address_of_lt hs)
  have hv := address_of_lt (lt_of_address ha)
  rw [ha] at hv
  exact (Option.some.inj hv).symm

/-- A consumer keeps what it was created for. -/
theorem origin_of_grows (hg : w.outline.Grows xs v.outline) (hx : x < w.consumers.length) :
    (v.consumer x).origin = (w.consumer x).origin := by
  have ho : w.outline.origins[x]? = some (w.consumer x).origin := by
    simp [outline, consumer, hx]
  obtain ⟨y, hy, he⟩ := by simpa [outline] using getElem?_of_grows hg.origins ho
  simp [consumer, hy, he]

/-- The flag of a session tells as well as its delivery whether the session is closed. -/
theorem closed_iff (h : w.ledger.Sound) (s : SessionId) :
    (w.session s).closed = true ↔ (w.session s).delivery = .closed := by
  by_cases hs : s < w.sessions.length
  · exact h.tuned.agree (room_of_lt hs)
  · rw [session, List.getElem?_eq_none (Nat.le_of_not_lt hs)]
    decide

/-- A consumer is closed by itself or with its session. -/
theorem consumerClosed_iff : w.consumerClosed x = true ↔
    (w.consumer x).closed = true ∨ (w.session (w.consumer x).session).delivery = .closed := by
  rw [consumerClosed, Bool.or_eq_true]
  exact or_congr .rfl decide_eq_true_iff

/-- Consumers are never taken away. -/
theorem length_consumers_step (hw : w.Wired) {l : Label} (hs : w.step? l = some v) :
    w.consumers.length ≤ v.consumers.length := by
  simpa [outline] using (onward_step hw hs).grows.origins.length_le

/-- A consumer that is closed, itself or with its session, stays closed. -/
theorem consumerClosed_step (hw : w.Wired) (h : w.ledger.Sound) {l : Label}
    (hs : w.step? l = some v) (hx : x < w.consumers.length) (hc : w.consumerClosed x = true) :
    v.consumerClosed x = true := by
  rw [consumerClosed_iff] at hc ⊢
  have ho := origin_of_grows (onward_step hw hs).grows hx
  rcases hc with hc | hd
  · exact .inl (closed_step hw hs hc)
  · refine .inr ?_
    rw [show (v.consumer x).session = (w.consumer x).session from congrArg Prod.fst ho]
    exact delivery_closed_of_moves (moves_step hw h hs) hd

/-- What is closed stays closed for the rest of a run. -/
theorem Run.closed_stays {ls ms : List Label} (h : Run {} ls w) (h' : Run w ms u) :
    (∀ s, (w.session s).closed = true → (u.session s).closed = true) ∧
    ∀ x < w.consumers.length, w.consumerClosed x = true →
      x < u.consumers.length ∧ u.consumerClosed x = true := by
  induction h' with
  | refl => exact ⟨fun _ => id, fun x hx hc => ⟨hx, hc⟩⟩
  | step hrun hs ih =>
    have hr := h.trans hrun
    have hw := wired_of_run hr
    have hm := moves_step hw (sound_of_run hr) hs
    refine ⟨fun s hc => session_closed_of_moves hm (ih.1 s hc), fun x hx hc => ?_⟩
    obtain ⟨hlt, hcl⟩ := ih.2 x hx hc
    exact ⟨Nat.lt_of_lt_of_le hlt (length_consumers_step hw hs),
      consumerClosed_step hw (sound_of_run hr) hs hlt hcl⟩

/-! ## The set of sessions -/

/-- A call has created a session on a connection. -/
def Created (w : System) (c : ConnectionId) (s : SessionId) : Prop :=
  ∃ t ∈ w.calls, (∃ transacted mode via, t.call = .createSession c transacted mode via) ∧
    t.progress = .ended (.ok (.session s))

/-- A session that a call was given is there, on the connection that the call was for. -/
theorem Wired.room_of_created (hw : w.Wired) (h : w.Created c s) :
    s < w.sessions.length ∧ (w.session s).connection = c := by
  obtain ⟨t, ht, ⟨transacted, mode, via, hcall⟩, hp⟩ := h
  obtain ⟨i, hi⟩ := List.getElem?_of_mem ht
  have hf := hw.fit i t hi
  rw [hp, hcall] at hf
  obtain ⟨d, k, _, _, _, hx, ha⟩ := hf
  cases hx
  have hlt := lt_of_address ha
  rw [address_of_lt hlt] at ha
  exact ⟨hlt, congrArg Prod.fst (Option.some.inj ha)⟩

/-- Who produced an open session is the call that created it. -/
theorem created_of_open (hw : w.Wired) (h : w.ledger.Sound) (hs : s < w.sessions.length)
    (hc : (w.session s).closed = false) : w.Created (w.session s).connection s := by
  obtain ⟨i, hi⟩ := h.tuned.produced (room_of_lt hs) hc
  have hlt := lt_of_role (show w.ledger.role i ≠ .idle by rw [hi]; simp)
  obtain ⟨t, ht⟩ : ∃ t, w.calls[i]? = some t :=
    ⟨_, List.getElem?_eq_getElem (by simpa [ledger] using hlt)⟩
  have hp : t.progress = .ended (.ok (.session s)) := by
    rw [role_of_progress (p := t.progress) (by simp [progress?, ht])] at hi
    exact Progress.eq_of_role hi
  have hf := hw.fit i t ht
  rw [hp] at hf
  obtain ⟨d, k, transacted, mode, via, hx, ha⟩ := hf
  rw [address_of_lt hs] at ha
  cases ha
  exact ⟨t, List.mem_of_getElem? ht, ⟨transacted, mode, via, hx⟩, hp⟩

/-- The set of sessions of a connection, and what they deliver, in every state that a run comes to.
A connection that is not closed is looked at while the program holds it; without it, there is nobody
who could look. -/
theorem session_set_and_delivery {ls : List Label} {w : System} (h : Run {} ls w)
    (c : ConnectionId) :
    ((w.connection c).life = .closed → (w.connection c).sessions = []) ∧
    ((w.connection c).held = true → (w.connection c).life ≠ .closed →
      (w.connection c).sessions.Nodup ∧
      (∀ s, s ∈ (w.connection c).sessions ↔ w.Created c s ∧ (w.session s).closed = false) ∧
      ∀ s ∈ (w.connection c).sessions, (w.session s).delivery =
        if (w.connection c).life = .started then .running else .paused) ∧
    (∀ s, (w.session s).closed = true ↔ (w.session s).delivery = .closed) ∧
    ∀ ms u, Run w ms u →
      (∀ s, (w.session s).closed = true → (u.session s).closed = true ∧
        ∀ x, (u.consumer x).session = s → u.consumerClosed x = true) ∧
      ∀ x < w.consumers.length, w.consumerClosed x = true → u.consumerClosed x = true := by
  have hw := wired_of_run h
  have hsound := sound_of_run h
  have hline := ledger_line w c
  -- What is registered is placed and open, by the soundness of the ledger.
  have hmem : (w.connection c).held = true → ∀ s ∈ (w.connection c).sessions,
      s < w.sessions.length ∧ (w.session s).connection = c ∧ (w.session s).closed = false := by
    intro hheld s hs
    have hreg : s ∈ (w.ledger.line c).registered := by rw [hline]; exact hs
    obtain ⟨x, hx, hhome⟩ := hsound.placed.enlisted hreg
    have hopen := hsound.tuned.live (by rw [hline]; exact hheld) hreg hx
    obtain ⟨hlt, rfl⟩ := room_eq_some hx
    exact ⟨hlt, hhome, hopen⟩
  refine ⟨fun hl => ?_, fun hheld hl =>
    ⟨?_, fun s => ⟨fun hs => ?_, fun hs => ?_⟩, fun s hs => ?_⟩,
    closed_iff hsound, fun ms u h' => ?_⟩
  · have he := hsound.placed.emptied (c := c) (by rw [hline]; exact hl)
    rwa [hline] at he
  · have hd := hsound.tuned.distinct c
    rwa [hline] at hd
  · obtain ⟨hlt, hhome, hopen⟩ := hmem hheld s hs
    exact ⟨hhome ▸ created_of_open hw hsound hlt hopen, hopen⟩
  · obtain ⟨hcreated, hopen⟩ := hs
    obtain ⟨hlt, hhome⟩ := hw.room_of_created hcreated
    have hroom : (w.session s).room.home = c := hhome
    have hreg := registered_of_open hsound.placed hsound.tallied (room_of_lt hlt) hopen
      (by rw [hroom, hline]; exact hl)
    rw [hroom, hline] at hreg
    exact hreg
  · obtain ⟨hlt, hhome, hopen⟩ := hmem hheld s hs
    have hroom : (w.session s).room.home = c := hhome
    have ht := hsound.tuned.turned (room_of_lt hlt) hopen (by rw [hroom, hline]; exact hl)
    rw [hroom, hline] at ht
    exact ht
  · obtain ⟨hss, hxs⟩ := h.closed_stays h'
    refine ⟨fun s hc => ⟨hss s hc, fun x hx => ?_⟩, fun x hx hc => (hxs x hx hc).2⟩
    refine consumerClosed_iff.2 (.inr ?_)
    rw [hx]
    exact (closed_iff (sound_of_run (h.trans h')) s).1 (hss s hc)

/-- One session is closed, and another is still being created when the connection is stopped. -/
def stoppedMeanwhile : List Label :=
  [.operate .createRegistry, .operate (.connect 0 (.ofMillis 15000) {}),
    .call (.createSession 0 false .auto none), .run (.call 0), .run (.call 0), .take 0,
    .operate (.start 0), .call (.createSession 0 false .auto none), .run (.call 1),
    .call (.closeSession 0), .operate (.stop 0), .run (.call 1)]

theorem stoppedMeanwhile_isSome : (after? {} stoppedMeanwhile).isSome = true := by decide

def stoppedMeanwhileEnd : System := (after? {} stoppedMeanwhile).get stoppedMeanwhile_isSome

/-- The second session was set up across the stop and is paused all the same; the first one was
closed, and is not among the sessions any more. -/
theorem stoppedMeanwhileEnd_sessions :
    (stoppedMeanwhileEnd.connection 0).sessions = [1] ∧
    (stoppedMeanwhileEnd.session 1).delivery = .paused ∧
    ∀ s, s ∈ (stoppedMeanwhileEnd.connection 0).sessions ↔
      stoppedMeanwhileEnd.Created 0 s ∧ (stoppedMeanwhileEnd.session s).closed = false := by
  have hheld : (stoppedMeanwhileEnd.connection 0).held = true := by decide
  have hlife : (stoppedMeanwhileEnd.connection 0).life ≠ .closed := by decide
  have hsessions : (stoppedMeanwhileEnd.connection 0).sessions = [1] := by decide
  have hstopped : (stoppedMeanwhileEnd.connection 0).life ≠ .started := by decide
  obtain ⟨_, hmem, hdelivery⟩ := (session_set_and_delivery
    (.of_isSome stoppedMeanwhile_isSome) 0).2.1 hheld hlife
  refine ⟨hsessions, ?_, hmem⟩
  have hpaused := hdelivery 1 (by rw [← stoppedMeanwhileEnd, hsessions]; simp)
  rw [← stoppedMeanwhileEnd, if_neg hstopped] at hpaused
  exact hpaused

end System

end BrokerClient
