import BrokerClient.Client.Schedule
import BrokerClient.Proofs.ClientIdentifiers
import BrokerClient.Proofs.FailedClaims
import BrokerClient.Proofs.Punctual

/-!
# What a schedule does is a run

A run is any interleaving of the activities of a client; a schedule settles on one of them. Whatever
it does takes the client along steps of `System.step?`: an activity that it runs until it waits
(`meanwhile_run`), everything that can go on (`reaches_settle`), time that passes
(`reaches_pass`), and a call that it starts or runs to its end (`reaches_start`, `reaches_perform`).
So what is proved of all runs holds of every state that a schedule comes to.

What has to be shown for it is about time. A schedule jumps from one moment to the next, and a jump
is a step only if it does not go back: the next moment for which a call waits lies ahead
(`lt_nextMoment`), and nothing but a jump moves the time (`Meanwhile`).

`System.Reaches` says more than that there is a run: no step of it takes back a claim on a consumer
that is not there. Such a claim would put that consumer under a name, and nothing could be said of
who stands under it. A register of names that knows only consumers that are there stays so
(`Reaches.keeps`).

That the bounds on the number of stretches suffice (`Schedule.stretches`, `Schedule.runsFor`) is not
shown. A schedule that stopped too early would have left something that could go on, and what it did
would still be a run.
-/

namespace BrokerClient

namespace System

variable {w v u : System} {c : ConnectionId} {i : CallId} {a : Activity} {l : Label} {t : Nat}

/-! ## Consumers that are there -/

/-- The register of names, and the calls that have claimed a name, know of no consumer that is not
there. -/
def Known (w : System) : Prop := ∀ c name, (w.tenure c name).Known w.consumers.length

/-- Whether a step takes back no claim but one on a consumer that is there. -/
def knows (w : System) : Label → Bool
  | .operate (.abandonSubscription _ _ _ claim) => claim.previous?.all w.hasConsumer
  | _ => true

theorem hasConsumer_iff {x : ConsumerId} : w.hasConsumer x = true ↔ x < w.consumers.length := by
  simp [hasConsumer]

/-- A name that is given to a consumer that is there, or to none. -/
theorem Known.enter (h : w.Known) (hn : v.consumers.length = w.consumers.length)
    {name : String} {y : Option ConsumerId} (hy : ∀ x, y = some x → x < w.consumers.length)
    (hv : v.names = w.names.enter c name y) : v.Known := by
  intro d other
  rw [tenure, hv, hn]
  by_cases hkey : c = d ∧ name = other
  · obtain ⟨rfl, rfl⟩ := hkey
    rw [Names.tenure_enter_self]
    exact ⟨fun {x} hx => hy x hx, (h c name).previous⟩
  · rw [Names.tenure_enter_ne hkey]
    exact h d other

/-- What the program does to the register of names by itself. -/
theorem Known.meddle (h : w.Known) {o : Operation} (hm : o.meddles = true)
    (ho : w.mayOperate o = true) (hk : w.knows (.operate o) = true) : (w.operate o).2.Known := by
  -- The three operations that write the registry by hand put a consumer, give an earlier one back,
  -- or erase the name.
  cases o with
  | claimSubscription d name y =>
    obtain ⟨hd, hy⟩ := by simpa [mayOperate] using ho
    simp only [operate, claimSubscription]
    split
    · exact h
    next claim v hok =>
      have hput : v.names = w.names.enter d name (some y) :=
        (claimName_effect hok).2.names.trans
          (names_rename (lt_of_holdsConnection hd) fun other => Subscriptions.get?_put _ _ other y)
      refine h.enter (by rw [(claimName_leaves hok).2.2.1]) (fun x hx => ?_) hput
      cases hx
      exact hasConsumer_iff.1 hy
  | abandonSubscription d name y claim =>
    obtain ⟨hd, _⟩ := by simpa [mayOperate] using ho
    have hn : (w.abandonName d name y claim).names = w.names.abandon d name y claim :=
      names_abandonName (lt_of_holdsConnection hd) name y claim
    unfold Names.abandon at hn
    split at hn
    · refine h.enter rfl (fun x hx => ?_) hn
      have hall : claim.previous?.all w.hasConsumer = true := hk
      rw [hx] at hall
      exact hasConsumer_iff.1 hall
    · exact fun d' other => by
        rw [tenure, operate, hn]
        exact h d' other
  | removeSubscription d name =>
    simp only [operate, removeSubscription]
    split
    · exact h
    next hok =>
      obtain ⟨rfl, _⟩ := Subscriptions.removeInactive_eq_ok hok
      have hd : d < w.connections.length := lt_of_holdsConnection ho
      have herase : (w.rename d fun r => r.erase name).names = w.names.enter d name none :=
        names_rename hd fun other => Subscriptions.get?_erase _ name other
      rw [rename_eq (f := fun r => r.erase name) rfl]
      refine h.enter rfl (fun x hx => ?_) herase
      cases hx
  | _ => cases hm

/-- A step that goes through sessions is a turn of each name, and by itself the program names
consumers that are there. -/
theorem Known.step (hw : w.Wired) (h : w.Known) (hk : w.knows l = true)
    (hs : w.step? l = some v) : v.Known := by
  by_cases hl : l.throughSessions = true
  · intro c name
    obtain ⟨k, ht⟩ := turned_step hw hl hs c name
    exact (h c name).move ht.move (consumers_le (onward_step hw hs).grows)
  · cases l with
    | operate o =>
      obtain ⟨ho, rfl⟩ := step_operate hs
      exact h.meddle (by simpa [Label.throughSessions] using hl) ho hk
    | _ => exact absurd rfl hl

/-- A registry that is there stays. -/
theorem registries_le (hs : w.step? l = some v) : w.registries.length ≤ v.registries.length := by
  have hlen : ∀ {p q : Roll}, Roll.Move l p q → p.registries.length ≤ q.registries.length := by
    intro p q hm
    cases hm <;> simp
  rcases roll_step hs with he | hm
  · exact Nat.le_of_eq (congrArg (fun p : Roll => p.registries.length) he.symm)
  · exact hlen hm

/-! ## Reaching a state -/

/-- `u` can be come to from `w`, and no step on the way names a consumer that is not there. -/
def Reaches (w u : System) : Prop := ∃ ls, Run w ls u ∧ Along (fun v l => v.knows l = true) w ls

theorem Reaches.refl (w : System) : Reaches w w := ⟨[], .refl, along_nil⟩

theorem Reaches.trans (h : Reaches w v) (h' : Reaches v u) : Reaches w u := by
  obtain ⟨ls, hls, ha⟩ := h
  obtain ⟨ms, hms, hb⟩ := h'
  exact ⟨_, hls.trans hms, (hls.along_append ms).2 ⟨ha, hb⟩⟩

theorem Reaches.of_step (hk : w.knows l = true) (hs : w.step? l = some v) : Reaches w v :=
  ⟨[l], .step .refl hs, (Run.refl.along_snoc l).2 ⟨along_nil, hk⟩⟩

/-- What is known at the start is known in the end, and registries and consumers are still there. -/
theorem Reaches.keeps (h : Reaches w u) (hw : w.Wired) (hk : w.Known) :
    u.Known ∧ w.registries.length ≤ u.registries.length ∧
      w.consumers.length ≤ u.consumers.length := by
  obtain ⟨ls, hrun, ha⟩ := h
  refine (hrun.invariant_along (I := fun v => v.Wired ∧ v.Known ∧
    w.registries.length ≤ v.registries.length ∧ w.consumers.length ≤ v.consumers.length) ha
    ⟨hw, hk, Nat.le_refl _, Nat.le_refl _⟩ fun {v l v'} hv hkn hs => ?_).2
  obtain ⟨hwv, hkv, hr, hc⟩ := hv
  exact ⟨(onward_step hwv hs).wired, hkv.step hwv hkn hs, Nat.le_trans hr (registries_le hs),
    Nat.le_trans hc (length_consumers_step hwv hs)⟩

/-- A client that has come from nothing. -/
theorem Reaches.wired (h : Reaches {} w) : w.Wired := by
  obtain ⟨ls, hrun, _⟩ := h
  exact wired_of_run hrun

/-- It knows only consumers that are there. -/
theorem Reaches.known (h : Reaches {} w) : w.Known :=
  (h.keeps (wired_of_run .refl) fun _ _ => ⟨by rintro _ ⟨⟩, by rintro _ _ _ _ ⟨⟩⟩).1

end System

/-! ## Schedules -/

namespace System

/-- `u` comes of `w` while no time passes. -/
structure Meanwhile (w u : System) : Prop where
  reaches : Reaches w u
  now : u.now = w.now

namespace Meanwhile

variable {w v u : System} {a : Activity}

theorem refl (w : System) : Meanwhile w w := ⟨.refl w, rfl⟩

theorem trans (h : Meanwhile w v) (h' : Meanwhile v u) : Meanwhile w u :=
  ⟨h.reaches.trans h'.reaches, h'.now.trans h.now⟩

/-- An activity that goes on takes no time. -/
theorem of_run (h : w.run? a = some v) : Meanwhile w v := by
  refine ⟨.of_step (l := .run a) rfl h, ?_⟩
  rcases now_step (l := .run a) h with hn | ⟨t, ht, _⟩
  · exact hn
  · cases ht

end Meanwhile

variable {w : System} {t : Nat}

theorem reaches_tick (h : w.now ≤ t) : Reaches w { w with now := t } :=
  .of_step (l := .tick t) rfl (if_pos h)

/-- The next moment for which a call waits lies ahead. -/
theorem lt_nextMoment (h : w.nextMoment? = some t) : w.now < t := by
  have hmem : t ∈ (w.calls.flatMap fun y => moments y.progress).filter (w.now < ·) :=
    List.min?_mem (h : List.min? _ = some t)
  exact of_decide_eq_true (List.mem_filter.1 hmem).2

theorem reaches_call {y : Call} (h : w.mayCall y = true) : Reaches w (w.call y).2 :=
  .of_step (l := .call y) rfl (step?_call h)

/-- Whoever takes an outcome gets the one with which the call has ended. -/
theorem take?_eq_some {i : CallId} {o : Outcome} {v : System} (h : w.take? i = some (o, v)) :
    Meanwhile w v ∧ v.progress? i = some (.ended o) := by
  have hs : w.step? (.take i) = some v := by rw [step?, h]; rfl
  have hp : w.progress? i = some (.ended o) := by
    unfold take? at h
    split at h
    next ht =>
      simp only at h
      split at h <;> cases h <;> simp [progress?, ht]
    next => cases h
  obtain ⟨_, _, rfl | ⟨s, _, rfl⟩⟩ := take?_cases hs
  · exact ⟨⟨.of_step rfl hs, rfl⟩, (progress_take w i i).trans hp⟩
  · exact ⟨⟨.of_step rfl hs, rfl⟩, (progress_take w i i).trans hp⟩

end System

namespace Schedule

open BrokerClient.System (Reaches Meanwhile)

variable {x : Schedule} {t : Nat} {c : Call}

/-- An activity that is run until it waits takes steps of its own. -/
theorem meanwhile_runOut (w : System) (a : Activity) (fuel : Nat) :
    Meanwhile w (runOut w a fuel) := by
  induction fuel generalizing w with
  | zero => exact .refl w
  | succ fuel ih =>
    unfold runOut
    split
    · exact .refl w
    next v hv => exact (Meanwhile.of_run hv).trans (ih v)

theorem meanwhile_run (x : Schedule) (a : Activity) : Meanwhile x.system (run x a).system :=
  meanwhile_runOut x.system a _

theorem meanwhile_drain (x : Schedule) (fuel : Nat) :
    Meanwhile x.system (drain x fuel).system := by
  induction fuel generalizing x with
  | zero => exact .refl _
  | succ fuel ih =>
    unfold drain
    split
    · exact .refl _
    next a rest _ => exact (meanwhile_run { x with queue := rest } a).trans (ih _)

/-- When a schedule settles no time passes. -/
theorem meanwhile_settle (x : Schedule) : Meanwhile x.system (settle x).system :=
  meanwhile_drain (refresh x) _

/-- When a schedule settles the client takes steps. -/
theorem reaches_settle (x : Schedule) : Reaches x.system (settle x).system :=
  (meanwhile_settle x).reaches

theorem reaches_jump (h : x.system.now ≤ t) : Reaches x.system (jump x t).system :=
  System.reaches_tick h

/-- Time that passes up to a moment that is not gone passes in steps of a run: it stops at each
moment for which a call waits. -/
theorem reaches_passTo (h : x.system.now ≤ t) (fuel : Nat) :
    Reaches x.system (passTo x t fuel).system := by
  induction fuel generalizing x with
  | zero => exact (System.reaches_tick h).trans (reaches_settle { x with system := _ })
  | succ fuel ih =>
    have hs := meanwhile_settle x
    have hle : (settle x).system.now ≤ t := hs.now ▸ h
    have hrest : Reaches x.system (settle (jump (settle x) t)).system :=
      (hs.reaches.trans (reaches_jump hle)).trans (reaches_settle _)
    rw [passTo]
    split
    next m hm =>
      split
      next hmt =>
        have hahead := reaches_jump (Nat.le_of_lt (System.lt_nextMoment hm))
        exact (hs.reaches.trans hahead).trans (ih hmt)
      next => exact hrest
    next => exact hrest

/-- Time that passes for a script passes in steps of a run. -/
theorem reaches_pass (x : Schedule) (ms : Nat) : Reaches x.system (pass x ms).system :=
  reaches_passTo (Nat.le_add_right _ _) _

/-- A call that is run to its end, time passing where nothing else helps. -/
theorem reaches_complete (x : Schedule) (i : CallId) (fuel : Nat) :
    Reaches x.system (complete x i fuel).system := by
  induction fuel generalizing x with
  | zero => exact .refl _
  | succ fuel ih =>
    have hfirst : Reaches x.system
        (if x.system.ready (.call i) then run x (.call i) else x).system := by
      split
      · exact (meanwhile_run x _).reaches
      · exact .refl _
    rw [complete]
    generalize (if x.system.ready (.call i) then run x (.call i) else x) = y at hfirst
    have hdrained := hfirst.trans (meanwhile_drain y (runsFor y.system)).reaches
    split
    · exact hfirst
    generalize drain y (runsFor y.system) = z at hdrained
    simp only
    split
    · exact hdrained.trans (ih z)
    · split
      · exact hdrained
      next m hm =>
        have hahead := reaches_jump (Nat.le_of_lt (System.lt_nextMoment hm))
        exact (hdrained.trans hahead).trans (ih _)

/-- A call that is started takes its first stretch at once. -/
theorem reaches_start (h : x.system.mayCall c = true) :
    Reaches x.system (x.start c).2.system :=
  (System.reaches_call h).trans (meanwhile_run { x with system := _ } _).reaches

/-- The schedule when a call that it began has been run as far as it goes. -/
def completed (x : Schedule) (c : Call) : Schedule :=
  let y := refresh
    { x with system := (x.system.call c).2, foreground := some x.system.calls.length }
  complete y x.system.calls.length (runsFor y.system)

/-- The call is made, and then it is run to its end. -/
theorem reaches_completed (h : x.system.mayCall c = true) :
    Reaches x.system (x.completed c).system :=
  (System.reaches_call h).trans (reaches_complete (refresh { x with system := _, foreground := _ })
    _ _)

/-- What a call is said to give is taken from it when it has been run as far as it goes. -/
theorem perform_eq (x : Schedule) (c : Call) : x.perform c =
    match (x.completed c).system.take? x.system.calls.length with
    | some (o, v) => (some o, { x.completed c with foreground := none, system := v })
    | none => (none, { x.completed c with foreground := none }) :=
  rfl

/-- A call that a schedule runs to its end is run by steps, and what it is said to give is that with
which it has ended. -/
theorem reaches_perform (h : x.system.mayCall c = true) :
    Reaches x.system (x.perform c).2.system ∧ ∀ o, (x.perform c).1 = some o →
      (x.perform c).2.system.progress? x.system.calls.length = some (.ended o) := by
  have hdone := reaches_completed h
  rw [perform_eq]
  split
  next o v hv =>
    obtain ⟨htaken, hended⟩ := System.take?_eq_some hv
    refine ⟨hdone.trans htaken.reaches, fun o' ho => ?_⟩
    cases ho
    exact hended
  next => exact ⟨hdone, fun o ho => nomatch ho⟩

end Schedule

end BrokerClient
