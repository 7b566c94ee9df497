import BrokerClient.Proofs.Core
import BrokerClient.Proofs.Ranks

/-!
# What a call asks and hears, and when

A call asks the broker for something, and hears the answer when it is due, unless it gives up
before. `System.talk` reads off a step what a call hears in it and what it asks next, with the time,
so that the talk of a whole run is computed from its steps.

Time may pass at will in a run. A step is punctual for a call if it lets no time pass beyond a
moment for which the call waits; the steps of a prompt run are so for every call
(`PromptRun.punctual`).

A call that waits for an answer has at most two moments: the one for which the answer is due, and
the one at which it gives up. `ready_of_moment` says that at either of them the call can go on, so
that a prompt run, which lets no time pass while somebody can go on, cannot miss it.
-/

namespace BrokerClient

/-- What a call asks of the broker and hears from it. -/
inductive Talk where
  /-- It asks, and the broker is going to take so long to answer. -/
  | asked (now : Nat) (request : Request) (takes : Nat)
  | answered (now : Nat) (request : Request) (result : Except TransportFailure Unit)
  | gaveUp (now : Nat) (request : Request)
  deriving DecidableEq

namespace Exchange

/-- When the answer is there. -/
def due (e : Exchange) : Nat :=
  match e.stage with
  | .before none after => e.wake + after
  | _ => e.wake

/-- What the call hears when it goes on. -/
def heard (now : Nat) (e : Exchange) : List Talk :=
  if now < e.wake then [.gaveUp now e.request]
  else match e.stage with
    | .before (some f) _ => [.answered now e.request (.error f)]
    | .before none _ => []
    | .answered reply => [.answered now e.request reply.result]

/-- What the call has just asked. -/
def asks (now : Nat) (e : Exchange) : List Talk :=
  match e.stage with
  | .before _ _ => [.asked now e.request (e.due - now)]
  | .answered _ => []

end Exchange

namespace System

variable {w v u : System} {i : CallId} {c : ConnectionId} {s t : SessionId} {l : Label}
  {ls : List Label}

/-! ## Talk -/

/-- The exchange in which a call stands. -/
def exchange? (w : System) (i : CallId) : Option Exchange :=
  match w.progress? i with
  | some (.exchange e) => some e
  | _ => none

/-- A call that waits for the broker has an exchange. -/
theorem exchange?_eq {e : Exchange} (h : w.progress? i = some (.exchange e)) :
    w.exchange? i = some e := by
  rw [exchange?, h]

/-- One that has ended has none. -/
theorem exchange?_ended {o : Outcome} (h : w.progress? i = some (.ended o)) :
    w.exchange? i = none := by
  rw [exchange?, h]

/-- Whether a step is one of a call: it starts it, or has it go on. -/
def isStepOf (w : System) (i : CallId) : Label → Bool
  | .call _ => w.calls.length = i
  | .run (.call j) => j = i
  | _ => false

/-- What a call hears in a step, and then asks. -/
def talk (i : CallId) (x : System × Label) : List Talk :=
  if x.1.isStepOf i x.2 then
    (x.1.exchange? i).elim [] (Exchange.heard x.1.now) ++
      ((x.1.step? x.2).bind fun v => v.exchange? i).elim [] (Exchange.asks x.1.now)
  else []

/-- In a step of others a call hears nothing and asks nothing. -/
theorem talk_eq_nil (h : w.isStepOf i l = false) : talk i (w, l) = [] := by
  simp [talk, h]

/-- A call that starts has heard nothing yet. -/
theorem talk_call {y : Call} (hs : w.step? (.call y) = some v) :
    talk w.calls.length (w, .call y) =
      (v.exchange? w.calls.length).elim [] (Exchange.asks w.now) := by
  have hnone : w.exchange? w.calls.length = none := by
    simp [exchange?, progress?]
  simp [talk, isStepOf, hnone, hs]

/-- A call that goes on hears first, and then asks. -/
theorem talk_run {e : Exchange} (hp : w.progress? i = some (.exchange e))
    (hs : w.step? (.run (.call i)) = some v) : talk i (w, .run (.call i)) =
      e.heard w.now ++ (v.exchange? i).elim [] (Exchange.asks w.now) := by
  simp [talk, isStepOf, exchange?_eq hp, hs]

/-- A request goes on no earlier than it was made. -/
theorem le_wake_exchangeFor (w : System) (c : ConnectionId) (request : Request)
    (limit : Option Nat) (goal : Goal) : w.now ≤ (w.exchangeFor c request limit goal).wake := by
  rw [exchangeFor, Nat.add_assoc]
  exact Nat.le_add_right _ _

/-- The answer is there no earlier than the request takes effect. -/
theorem wake_le_due (e : Exchange) : e.wake ≤ e.due := by
  unfold Exchange.due
  split
  · exact Nat.le_add_right _ _
  · exact Nat.le_refl _

/-! ## Time -/

/-- Operations take no time. -/
theorem now_operate (w : System) (o : Operation) : (w.operate o).2.now = w.now := by
  obtain ⟨u, hu, ha⟩ := operate_change w o
  rw [ha.now]
  cases hu with
  | addConsumer => exact (adopt_leaves ..).1
  | closeConsumer x => exact (closeConsumer_leaves w x).1
  | _ => rfl

/-- Time passes in ticks alone. -/
theorem now_step (hs : w.step? l = some v) : v.now = w.now ∨ ∃ t, l = .tick t ∧ v.now = t := by
  cases l with
  | operate o =>
    obtain ⟨_, rfl⟩ := step_operate hs
    exact .inl (now_operate w o)
  | call y =>
    obtain ⟨_, rfl⟩ := step_call hs
    exact .inl (stride_call w y).now
  | run a =>
    cases a with
    | call i =>
      rcases resume_cases hs with ⟨e, after, _, _, _, rfl⟩ | hst
      · exact .inl rfl
      · exact .inl hst.now
    | dispatcher s =>
      obtain ⟨f, hf⟩ := framed_dispatch hs
      exact .inl hf.now
  | take i => obtain ⟨o, _, rfl | ⟨s, _, rfl⟩⟩ := take?_cases hs <;> exact .inl rfl
  | tick t =>
    obtain ⟨_, rfl⟩ := step_tick hs
    exact .inr ⟨t, rfl, rfl⟩

/-- Whether a step lets no time pass beyond a moment for which a call waits. -/
def punctual (i : CallId) (w : System) : Label → Bool
  | .tick t => (w.progress? i).all fun p => (moments p).all (t ≤ ·)
  | _ => true

/-- An exchange that is due, or has come to its limit, goes on. -/
theorem ready_of_moment {e : Exchange} (hp : w.progress? i = some (.exchange e)) {m : Nat}
    (hm : m ∈ moments (.exchange e)) (hle : m ≤ w.now) : w.ready (.call i) = true := by
  simp only [ready, run?, resume?, hp, advance?]
  by_cases hw : e.wake ≤ w.now
  · rw [if_pos hw]
    split <;> rfl
  · rw [if_neg hw]
    have hl : e.limit = some m := by
      rcases List.mem_cons.1 hm with rfl | hm
      · exact absurd hle hw
      · exact Option.mem_toList.1 hm
    simp only [hl, if_pos hle]
    rfl

/-- Time that passes no moment for which anybody waits passes none for which one call does. -/
theorem punctual_of_isPrompt (h : w.isPrompt l = true) (i : CallId) :
    w.punctual i l = true := by
  cases l with
  | tick t =>
    simp only [isPrompt, mayPassTo, Bool.and_eq_true, decide_eq_true_eq] at h
    obtain ⟨⟨hidle, _⟩, hnext⟩ := h
    simp only [punctual]
    cases hp : w.progress? i with
    | none => rfl
    | some p =>
      cases p with
      | exchange e =>
        simp only [Option.all_some, List.all_eq_true, decide_eq_true_eq]
        intro m hm
        -- The call cannot go on, so that the moment is still to come.
        have hlt : w.now < m := by
          by_contra hle
          have hready := ready_of_moment hp hm (Nat.le_of_not_lt hle)
          have hmem : Activity.call i ∈ w.activities :=
            List.mem_append_left _ (List.mem_map_of_mem (List.mem_range.2 (lt_of_progress hp)))
          have := List.all_eq_true.1 hidle _ hmem
          rw [hready] at this
          cases this
        obtain ⟨x, hx, hpx⟩ := task_of_progress hp
        have hmoment : m ∈ (w.calls.flatMap fun t => moments t.progress).filter (w.now < ·) :=
          List.mem_filter.2 ⟨List.mem_flatMap.2 ⟨x, List.mem_of_getElem? hx, by rwa [hpx]⟩,
            by simpa using hlt⟩
        -- The next moment of all is not after it.
        obtain ⟨k, hk⟩ : ∃ k, w.nextMoment? = some k :=
          Option.ne_none_iff_exists'.1 fun hn =>
            List.ne_nil_of_mem hmoment (List.min?_eq_none_iff.1 hn)
        have hkm : k ≤ m := (List.min?_eq_some_iff.1 hk).2 m hmoment
        rw [hk] at hnext
        exact Nat.le_trans (by simpa using hnext) hkm
      | _ => rfl
  | _ => rfl

/-- A prompt run is punctual for every call. -/
theorem PromptRun.punctual (h : PromptRun w ls u) (i : CallId) :
    Along (fun v l => v.punctual i l = true) w ls := by
  induction h with
  | refl => exact along_nil
  | step hrun hp hs ih => exact (hrun.run.along_snoc _).2 ⟨ih, punctual_of_isPrompt hp i⟩

end System

end BrokerClient
