import BrokerClient.Client.Run

/-!
# Induction along runs

What holds at the start of a run and survives every step holds in every state that the run comes
to. Where a property survives only the steps of a well-behaved environment, the environment is a
predicate on the steps (`Along`) and `Run.invariant_along` carries the induction.

A step is a function of the state, so the labels of a run determine every state on the way:
`System.steps` lists each label with the state before it, and a history of the run (who did what,
in which order) is computed from that list.

Most developments of this library go the same way. A relation says what one step may do to the part
of the state that a property reads, an invariant is kept by that relation, and the induction along
the run is one of the lemmas here. Where the history matters, `Run.filterMap_snoc` and its like say
what the last step adds to it.

Concrete runs are computed: `after?` takes the steps in turn, and if each can be taken there is a
run (`Run.of_isSome`), so that a run is given by its labels and one evaluation.
-/

namespace BrokerClient.System

/-! ## What a step is -/

/-- An operation that is a step was allowed, and its answer does not matter for the state. -/
theorem step_operate {w v : System} {o : Operation} (h : w.step? (.operate o) = some v) :
    w.mayOperate o = true ∧ v = (w.operate o).2 := by
  rw [step?] at h
  split at h
  next ho =>
    cases h
    exact ⟨ho, rfl⟩
  next => cases h

/-- A call that is started was allowed, and has run to where it first waits. -/
theorem step_call {w v : System} {x : Call} (h : w.step? (.call x) = some v) :
    w.mayCall x = true ∧ v = (w.call x).2 := by
  rw [step?] at h
  split at h
  next hx =>
    cases h
    exact ⟨hx, rfl⟩
  next => cases h

/-- A call that is allowed can be started in any state. -/
theorem step?_call {w : System} {x : Call} (h : w.mayCall x = true) :
    w.step? (.call x) = some (w.call x).2 := by
  rw [step?, if_pos h]

/-- Time passes forward, and changes nothing else. -/
theorem step_tick {w v : System} {t : Nat} (h : w.step? (.tick t) = some v) :
    w.now ≤ t ∧ v = { w with now := t } := by
  rw [step?] at h
  split at h
  next ht =>
    cases h
    exact ⟨ht, rfl⟩
  next => cases h

/-! ## Runs in a row -/

theorem Run.trans {w v u : System} {ls ms : List Label} (h : Run w ls v) (h' : Run v ms u) :
    Run w (ls ++ ms) u := by
  induction h' with
  | refl => rw [List.append_nil]; exact h
  | step _ hs ih => rw [← List.append_assoc]; exact .step ih hs

/-! ## The steps of a run -/

/-- The state after steps that are taken in turn, if each can be taken. -/
def after? (w : System) : List Label → Option System
  | [] => some w
  | l :: ls => (w.step? l).bind fun v => after? v ls

/-- Steps that can be taken in turn are a run. -/
theorem Run.of_after? {w u : System} {ls : List Label} (h : w.after? ls = some u) :
    Run w ls u := by
  induction ls generalizing w with
  | nil =>
    cases h
    exact .refl
  | cons l ls ih =>
    obtain ⟨v, hv, hu⟩ := Option.bind_eq_some_iff.1 h
    exact Run.trans (.step .refl hv) (ih hu)

/-- A run with fixed steps, of which only has to be evaluated that they can be taken. -/
theorem Run.of_isSome {w : System} {ls : List Label} (h : (w.after? ls).isSome = true) :
    Run w ls ((w.after? ls).get h) :=
  .of_after? (Option.some_get h).symm

/-- The steps of a run: each label with the state before it. -/
def steps (w : System) : List Label → List (System × Label)
  | [] => []
  | l :: ls => (w, l) :: (w.step? l).elim [] fun v => steps v ls

/-- A run goes on from where its first part has come to. -/
theorem Run.steps_append {w u : System} {ls : List Label} (h : Run w ls u) :
    ∀ ms, w.steps (ls ++ ms) = w.steps ls ++ u.steps ms := by
  induction h with
  | refl => intro ms; rfl
  | @step ks v k u _ hs ih =>
    intro ms
    have hms : v.steps (k :: ms) = (v, k) :: u.steps ms := by rw [steps, hs]; rfl
    have hk : v.steps [k] = [(v, k)] := by rw [steps, hs]; rfl
    rw [List.append_assoc, List.singleton_append, ih, ih, hms, hk, List.append_assoc,
      List.singleton_append]

/-- The last step of a run is taken in the state to which the others came. -/
theorem Run.steps_snoc {w u : System} {ls : List Label} (h : Run w ls u) (l : Label) :
    w.steps (ls ++ [l]) = w.steps ls ++ [(u, l)] := by
  rw [h.steps_append]
  congr 1
  rw [steps]
  cases u.step? l <;> rfl

/-- A history of a run grows by what its last step adds. -/
theorem Run.filterMap_snoc {α : Type} {w u : System} {ls : List Label} (h : Run w ls u)
    (f : System × Label → Option α) (l : Label) :
    (w.steps (ls ++ [l])).filterMap f = (w.steps ls).filterMap f ++ (f (u, l)).toList := by
  rw [h.steps_snoc, List.filterMap_append]
  cases hf : f (u, l) <;> simp [hf]

/-- Every step of the run from `w` with these labels is one that `P` allows. -/
def Along (P : System → Label → Prop) (w : System) (ls : List Label) : Prop :=
  ∀ x ∈ w.steps ls, P x.1 x.2

instance {P : System → Label → Prop} [∀ w l, Decidable (P w l)] (w : System) (ls : List Label) :
    Decidable (Along P w ls) :=
  inferInstanceAs (Decidable (∀ x ∈ w.steps ls, P x.1 x.2))

/-- A run without steps is well-behaved. -/
theorem along_nil {P : System → Label → Prop} {w : System} : Along P w [] := by
  intro x hx
  cases hx

/-- A run is well-behaved if it was up to its last step and that one is. -/
theorem Run.along_snoc {P : System → Label → Prop} {w u : System} {ls : List Label}
    (h : Run w ls u) (l : Label) : Along P w (ls ++ [l]) ↔ Along P w ls ∧ P u l := by
  unfold Along
  rw [h.steps_snoc]
  simp [or_imp, forall_and]

/-- A run in two parts. -/
theorem Run.along_append {P : System → Label → Prop} {w u : System} {ls : List Label}
    (h : Run w ls u) (ms : List Label) : Along P w (ls ++ ms) ↔ Along P w ls ∧ Along P u ms := by
  unfold Along
  rw [h.steps_append]
  simp [or_imp, forall_and]

/-- Induction along a run of a well-behaved environment. -/
theorem Run.invariant_along {P : System → Label → Prop} {I : System → Prop} {w u : System}
    {ls : List Label} (h : Run w ls u) (ha : Along P w ls) (h0 : I w)
    (hstep : ∀ {v l v'}, I v → P v l → v.step? l = some v' → I v') : I u := by
  induction h with
  | refl => exact h0
  | step hrun hs ih =>
    obtain ⟨hks, hk⟩ := (hrun.along_snoc _).1 ha
    exact hstep (ih hks) hk hs

end BrokerClient.System
