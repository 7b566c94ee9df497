import BrokerClient.Proofs.Outstanding

/-!
# What a stream of reports comes to

Reports may overlap, repeat each other and say different things of one number. What a listener hears
of a number is what the first report that covers it says, and it hears of each awaited number that
some report covers once, in the order of those first reports and by ascending number where one
report covers several (`confirm_stream`).

`Pending.drain` is what a stream brings, as a function of what was awaited before; the lemmas about
it are inductions on the stream in which what is awaited shrinks.

The first half is about lists. `drain` hands a stream over report by report; what it yields is
described by the first report that covers each number (`firstOn`), in an order that is total on
numbers (`Before`), so that the two are the same list (`mem_drain`, `pairwise_drain`).

The second half ties it to the client. One report that is handled calls the listener for exactly
what it settles (`heard_handleReport`), a run of steps that change nothing else delivers what the
stream brings (`delivered_of_run`), and a dispatcher that is running can take a stream to its end
(`run_dispatcher`). A listener may change its own session in a call. It is asked to leave itself
installed, for what it hears would otherwise end there.
-/

namespace BrokerClient

namespace Pending

variable {p : Pending} {e : ConfirmEvent} {es : List ConfirmEvent} {x : Confirmation}

/-! ## Draining a stream -/

/-- The outcomes that a stream of reports brings, in the order in which a listener hears of them. -/
def drain (p : Pending) : List ConfirmEvent → List Confirmation
  | [] => []
  | e :: es => p.settled e ++ (p.settle e).drain es

/-- What is awaited after a stream of reports. -/
def settleAll (p : Pending) (es : List ConfirmEvent) : Pending := es.foldl settle p

@[simp] theorem settleAll_nil (p : Pending) : p.settleAll [] = p := rfl

/-- Reports in two parts settle one after the other. -/
theorem settleAll_append (p : Pending) (es fs : List ConfirmEvent) :
    p.settleAll (es ++ fs) = (p.settleAll es).settleAll fs :=
  List.foldl_append

/-- What a stream settles is what its first part settles, and then what the second part does of the
rest. -/
theorem drain_append (p : Pending) (es fs : List ConfirmEvent) :
    p.drain (es ++ fs) = p.drain es ++ (p.settleAll es).drain fs := by
  induction es generalizing p with
  | nil => rfl
  | cons e es ih =>
    rw [List.cons_append, drain, ih, drain, List.append_assoc]
    rfl

/-- What is still awaited is what no report covers. -/
theorem entries_settleAll (p : Pending) (es : List ConfirmEvent) :
    (p.settleAll es).entries = p.entries.filter fun y => es.all fun e => !e.covers y.1 := by
  induction es generalizing p with
  | nil => simp
  | cons e es ih =>
    have hs : p.settleAll (e :: es) = (p.settle e).settleAll es := rfl
    rw [hs, ih, settle, only, List.filter_filter]
    simp only [List.all_cons, Bool.and_comm]

/-- An outcome is that of an awaited message, and is the one that the first report on it gives. -/
theorem mem_drain : x ∈ p.drain es ↔ (x.tag, x.message) ∈ p.entries ∧
    ∃ e, (es.find? fun e => e.covers x.tag) = some e ∧ x.ack = e.ack := by
  induction es generalizing p with
  | nil => simp [drain]
  | cons f es ih =>
    rw [drain, List.mem_append, mem_settled, ih, mem_settle, List.find?_cons]
    cases hf : f.covers x.tag with
    | true =>
      simp only [Bool.true_eq_false, and_false, false_and, or_false, true_and, Option.some.injEq,
        exists_eq_left']
    | false =>
      simp only [Bool.false_eq_true, and_false, false_and, false_or, and_true]

/-- The place of the first report on a number. -/
def firstOn (es : List ConfirmEvent) (t : Nat) : Nat := es.findIdx fun e => e.covers t

/-- One outcome comes before another: the first report on it comes earlier, or it is the same report
and the number is lower. -/
def Before (es : List ConfirmEvent) (x y : Confirmation) : Prop :=
  firstOn es x.tag < firstOn es y.tag ∨ (firstOn es x.tag = firstOn es y.tag ∧ x.tag < y.tag)

/-- Of two confirmations that come one before the other each has its own number. -/
theorem Before.tag_ne {y : Confirmation} (h : Before es x y) : x.tag ≠ y.tag := by
  intro heq
  rw [Before, heq] at h
  omega

/-- The outcomes that one report brings come by ascending number, as they are awaited. -/
theorem pairwise_settled (p : Pending) (e : ConfirmEvent) :
    (p.settled e).Pairwise fun x y => x.tag < y.tag :=
  List.pairwise_map.2 (p.ascending.filter _)

/-- The outcomes come in order. -/
theorem pairwise_drain (p : Pending) (es : List ConfirmEvent) :
    (p.drain es).Pairwise (Before es) := by
  induction es generalizing p with
  | nil => exact .nil
  | cons f es ih =>
    have hcov : ∀ {t}, f.covers t = true → firstOn (f :: es) t = 0 := by
      intro t ht
      simp [firstOn, List.findIdx_cons, ht]
    have hnot : ∀ {t}, f.covers t = false → firstOn (f :: es) t = firstOn es t + 1 := by
      intro t ht
      simp [firstOn, List.findIdx_cons, ht]
    -- What the later reports bring is not covered by the first one.
    have hlater : ∀ {y}, y ∈ (p.settle f).drain es → f.covers y.tag = false := fun hy =>
      (mem_settle.1 (mem_drain.1 hy).1).2
    rw [drain, List.pairwise_append]
    refine ⟨?head, ?tail, fun x hx y hy => ?across⟩
    case head =>
      refine (pairwise_settled p f).imp_of_mem fun {x y} hx hy hlt => .inr ⟨?_, hlt⟩
      rw [hcov (mem_settled.1 hx).2.1, hcov (mem_settled.1 hy).2.1]
    case tail =>
      refine (ih (p.settle f)).imp_of_mem fun {x y} hx hy hb => ?_
      rw [Before, hnot (hlater hx), hnot (hlater hy)]
      exact hb.imp (fun h => by omega) fun h => ⟨by omega, h.2⟩
    case across =>
      refine .inl ?_
      rw [hcov (mem_settled.1 hx).2.1, hnot (hlater hy)]
      exact Nat.succ_pos _

/-- A listener hears of each number once. -/
theorem nodup_drain (p : Pending) (es : List ConfirmEvent) :
    ((p.drain es).map Confirmation.tag).Nodup := by
  rw [List.Nodup, List.pairwise_map]
  exact (p.pairwise_drain es).imp fun h => h.tag_ne

end Pending

/-- What a notice tells the confirm listener of a session: the listener, and the outcome. -/
def Notice.heard? (s : SessionId) : Notice → Option (String × Confirmation)
  | .confirmed r label x _ => if r = s then some (label, x) else none
  | _ => none

namespace System

variable {w v u : System} {r s : SessionId} {l : Listener} {ls : List Label} {x : Label}

/-- The calls of a session's confirm listener, the newest first. -/
def heard (w : System) (s : SessionId) : List (String × Confirmation) :=
  w.notices.filterMap (Notice.heard? s)

/-! ## One report -/

/-- A listener that reacts calls nobody. -/
theorem notices_react (w : System) (s : SessionId) (l : Listener) :
    (w.react s l).notices = w.notices := by
  unfold react
  split
  · split <;> rfl
  · rfl

/-- A listener that stays leaves its session alone, and all leave other sessions alone. -/
theorem session_react (h : r ≠ s ∨ l.reaction = .stay) (w : System) :
    (w.react r l).session s = w.session s := by
  unfold react
  split
  · rcases h with hrs | hstay
    · split
      · rfl
      · exact session_modifySession_ne hrs _
      · exact session_modifySession_ne hrs _
    · rw [hstay]
  · rfl

/-- Calling a listener that stays leaves its session as it is, and calling any one leaves the
others. -/
theorem session_foldl_confirm (h : r ≠ s ∨ l.reaction = .stay) (xs : List Confirmation)
    (w : System) : (xs.foldl (confirm r l) w).session s = w.session s := by
  induction xs generalizing w with
  | nil => rfl
  | cons x xs ih =>
    rw [List.foldl_cons, ih, confirm, session_react h]
    rfl

/-- A session hears what is told of itself. -/
theorem heard_tell (w : System) (r s : SessionId) (label : String) (x : Confirmation)
    (left : Option Nat) : (w.tell (.confirmed r label x left)).heard s =
      (if r = s then [(label, x)] else []) ++ w.heard s := by
  unfold heard
  rw [tell, List.filterMap_cons, Notice.heard?]
  by_cases hrs : r = s <;> simp [hrs]

/-- A listener that is called hears of the whole batch. -/
theorem heard_foldl_confirm (r s : SessionId) (l : Listener) (xs : List Confirmation)
    (w : System) : (xs.foldl (confirm r l) w).heard s =
      (if r = s then (xs.map fun x => (l.label, x)).reverse else []) ++ w.heard s := by
  induction xs generalizing w with
  | nil => simp
  | cons x xs ih =>
    rw [List.foldl_cons, ih, confirm, heard, notices_react, ← heard, heard_tell]
    split <;> simp

/-- A session whose listener stays is left as it is, but for what it awaits. -/
theorem session_handleReport (hl : (w.session s).listener = some l) (hstay : l.reaction = .stay)
    (r : SessionId) (e : ConfirmEvent) : (w.handleReport r e).session s =
      if r = s then { w.session s with pending := (w.session s).pending.settle e }
      else w.session s := by
  have hv : (w.modifySession r fun x => { x with pending := x.pending.settle e }).session s =
      if r = s then { w.session s with pending := (w.session s).pending.settle e }
      else w.session s := by
    split
    next hrs =>
      subst hrs
      refine session_modifySession_self ?_ _
      by_contra hn
      rw [session, List.getElem?_eq_none (Nat.le_of_not_lt hn)] at hl
      cases hl
    next hrs => exact session_modifySession_ne hrs _
  -- With nothing to settle the report is dropped before the pending map is written; `settle` leaves
  -- it as it is then, so the equation holds there too.
  unfold handleReport
  simp only
  split
  next hnil =>
    split
    next hrs =>
      subst hrs
      rw [Pending.settle_eq_self (List.isEmpty_iff.1 hnil)]
      rfl
    · rfl
  · split
    · exact hv
    next l' hl' =>
      refine (session_foldl_confirm ?_ _ _).trans hv
      by_cases hrs : r = s
      · subst hrs
        -- The listener stays, so calling it does not change its own session.
        rw [hl] at hl'
        cases hl'
        exact .inr hstay
      · exact .inl hrs

/-- The listener hears of what the report settles. -/
theorem heard_handleReport (hl : (w.session s).listener = some l) (r : SessionId)
    (e : ConfirmEvent) : (w.handleReport r e).heard s = (if r = s then
      (((w.session s).pending.settled e).map fun x => (l.label, x)).reverse else []) ++
        w.heard s := by
  unfold handleReport
  simp only
  split
  next hnil =>
    split
    next hrs =>
      subst hrs
      rw [List.isEmpty_iff.1 hnil]
      rfl
    · rfl
  · split
    next hnone =>
      rw [if_neg]
      · rfl
      · rintro rfl
        rw [hl] at hnone
        cases hnone
    next l' hl' =>
      rw [heard_foldl_confirm]
      split
      next hrs =>
        subst hrs
        rw [hl] at hl'
        cases hl'
        rfl
      · rfl

end System

/-- Whether a step only takes reports to sessions, sends reports, or lets time pass. -/
def Label.delivers : Label → Bool
  | .run (.dispatcher _) => true
  | .operate (.report _ _ _) => true
  | .tick _ => true
  | _ => false

namespace System

variable {w v u : System} {r s : SessionId} {l : Listener} {ls : List Label} {x : Label}

/-- From `w` to `v` session `s` has taken the reports `es`: its listener `l` is still there and was
called for what they bring, and what they do not cover is awaited as before. -/
structure HandedOver (w v : System) (s : SessionId) (l : Listener) (es : List ConfirmEvent) :
    Prop where
  listener : (v.session s).listener = some l
  pending : (v.session s).pending = (w.session s).pending.settleAll es
  heard : v.heard s = (((w.session s).pending.drain es).map fun x => (l.label, x)).reverse ++
    w.heard s

/-- Nothing was taken where the sessions and what was told are the same. -/
theorem HandedOver.of_eq (hl : (w.session s).listener = some l) (hs : v.sessions = w.sessions)
    (hn : v.notices = w.notices) : HandedOver w v s l [] := by
  refine ⟨?_, ?_, ?_⟩
  · rw [session_congr hs, hl]
  · rw [session_congr hs]
    rfl
  · rw [System.heard, hn]
    rfl

/-- Reports that are taken after others. -/
theorem HandedOver.append {es es' : List ConfirmEvent} (h : HandedOver w v s l es)
    (h' : HandedOver v u s l es') : HandedOver w u s l (es ++ es') := by
  refine ⟨h'.listener, ?_, ?_⟩
  · rw [h'.pending, h.pending, Pending.settleAll_append]
  · rw [h'.heard, h.heard, h.pending, Pending.drain_append, List.map_append, List.reverse_append,
      List.append_assoc]

/-- A turn of a dispatcher takes one report to its own session, and none if it was told to stop. -/
theorem handedOver_dispatch (h : w.dispatch? r = some v) (hs : s < w.sessions.length)
    (hl : (w.session s).listener = some l) (hstay : l.reaction = .stay) :
    HandedOver w v s l (taken? s (w, .run (.dispatcher r))).toList := by
  rcases dispatch?_cases h with ⟨hd, rfl⟩ | ⟨e, rest, hd, hstream, rfl⟩
  · rw [taken_of_not_running (by rw [hd]; simp)]
    generalize hv : w.modifyChannelOf r Channel.abandonStream = v
    have hsame : v.session s = w.session s := by rw [← hv]; rfl
    refine ⟨?_, ?_, ?_⟩
    · rw [session_modifySession_of (g := Session.listener) (by intro _; rfl) v r s, hsame, hl]
    · rw [session_modifySession_of (g := Session.pending) (by intro _; rfl) v r s, hsame]
      rfl
    · rw [← hv]
      rfl
  · rw [taken_of_running hs hd hstream]
    have hsession := session_handleReport (w := w.modifyChannelOf r fun _ =>
      { w.channelOf r with stream := rest }) (by exact hl) hstay r e
    refine ⟨?_, ?_, ?_⟩
    · rw [hsession]
      split <;> exact hl
    · rw [hsession]
      split <;> rfl
    · rw [heard_handleReport (by exact hl)]
      split
      · simp only [Option.toList_some, Pending.drain, List.append_nil]
        rfl
      · rfl

/-- What such a step does to a session whose listener stays: it takes at most one report. -/
theorem step_delivers (hx : x.delivers = true) (h : w.step? x = some v)
    (hl : (w.session s).listener = some l) (hstay : l.reaction = .stay) :
    HandedOver w v s l (taken? s (w, x)).toList := by
  have hs : s < w.sessions.length := by
    by_contra hn
    rw [session, List.getElem?_eq_none (Nat.le_of_not_lt hn)] at hl
    cases hl
  cases x with
  | operate o =>
    cases o with
    | report c k es =>
      obtain ⟨_, rfl⟩ := step_operate h
      rw [operate, reportAll_eq]
      exact .of_eq hl rfl rfl
    | _ => cases hx
  | tick t =>
    obtain ⟨_, rfl⟩ := step_tick h
    exact .of_eq hl rfl rfl
  | run a =>
    cases a with
    | call i => cases hx
    | dispatcher r => exact handedOver_dispatch h hs hl hstay
  | _ => cases hx

/-- While reports are taken, what a session awaits and what its listener hears are those of the
stream that its dispatcher took. -/
theorem delivered_of_run (hl : (w.session s).listener = some l) (hstay : l.reaction = .stay)
    (h : Run w ls u) (hls : ∀ x ∈ ls, x.delivers = true) :
    HandedOver w u s l (dispatched s w ls) := by
  induction h with
  | refl => exact .of_eq hl rfl rfl
  | @step ls v x u hrun hs ih =>
    have hv := ih fun x hx => hls x (List.mem_append_left _ hx)
    have hx := hls x (List.mem_append_right _ (List.mem_singleton.2 rfl))
    have hes : dispatched s w (ls ++ [x]) = dispatched s w ls ++ (taken? s (v, x)).toList :=
      hrun.filterMap_snoc (taken? s) x
    rw [hes]
    exact hv.append (step_delivers hx hs hv.listener hstay)

/-! ## A dispatcher that takes everything -/

/-- A dispatcher that has taken a report has the rest of the stream before it. -/
theorem stream_dispatch (hl : (w.session s).listener = some l) (hstay : l.reaction = .stay)
    {e : ConfirmEvent} {rest : List ConfirmEvent} (hstream : (w.channelOf s).stream = e :: rest) :
    (((w.modifyChannelOf s fun _ => { w.channelOf s with stream := rest }).handleReport s
      e).channelOf s).stream = rest := by
  have hsub : rest ⊆ (w.channelOf s).stream := by
    rw [hstream]
    exact List.subset_cons_self e rest
  have hpost := post_modifyChannelOf (w := w) (s := s)
    (f := fun _ => { w.channelOf s with stream := rest }) rfl hsub
  generalize hv : (w.modifyChannelOf s fun _ => { w.channelOf s with stream := rest }) = v at hpost
  have hsame : v.session s = w.session s := by
    rw [← hv]
    rfl
  have hsession := session_handleReport (hsame ▸ hl) hstay s e
  rw [if_pos rfl] at hsession
  have hchannel : (v.handleReport s e).channelOf s = v.channelOf s := by
    rw [channelOf, hsession, connection_congr (framed_handleReport v s e).connections]
    rfl
  have hbox : (v.channelOf s).stream =
      (v.post.box (w.session s).connection (w.session s).channel).stream := by
    rw [← hsame]
    rfl
  rw [hchannel, hbox, hpost, Post.stream, Post.box_atBox, if_pos ⟨rfl, rfl⟩]

/-- A dispatcher that runs can take its whole stream. -/
theorem run_dispatcher (hl : (w.session s).listener = some l) (hstay : l.reaction = .stay)
    (hd : (w.session s).dispatcher = .running) {es : List ConfirmEvent}
    (hstream : (w.channelOf s).stream = es) :
    ∃ u, Run w (List.replicate es.length (.run (.dispatcher s))) u ∧
      dispatched s w (List.replicate es.length (.run (.dispatcher s))) = es ∧
      (u.channelOf s).stream = [] := by
  -- Induction on what is in the stream: one turn of the dispatcher takes its head and leaves the
  -- listener, so the next turn finds the same situation.
  induction es generalizing w with
  | nil => exact ⟨w, .refl, rfl, hstream⟩
  | cons e es ih =>
    have hs : s < w.sessions.length := by
      by_contra hn
      rw [session, List.getElem?_eq_none (Nat.le_of_not_lt hn)] at hl
      cases hl
    have hrest := stream_dispatch hl hstay hstream
    generalize hv : (w.modifyChannelOf s fun _ => { w.channelOf s with stream := es }).handleReport
      s e = v at hrest
    have hstep : w.step? (.run (.dispatcher s)) = some v := by
      simp only [step?, run?, dispatch?, hd, Channel.take, hstream, hv]
    have hsession := session_handleReport (w := w.modifyChannelOf s fun _ =>
      { w.channelOf s with stream := es }) (by exact hl) hstay s e
    rw [hv, if_pos rfl] at hsession
    obtain ⟨u, hrun, hes, hnil⟩ := ih (w := v) (by rw [hsession]; exact hl)
      (by rw [hsession]; exact hd) hrest
    refine ⟨u, Run.trans (.step .refl hstep) hrun, ?_, hnil⟩
    have htaken : taken? s (w, .run (.dispatcher s)) = some e := by
      rw [taken_of_running hs hd hstream, if_pos rfl]
    rw [dispatched, List.length_cons, List.replicate_succ, steps, hstep, List.filterMap_cons_some
      htaken]
    exact congrArg (e :: ·) hes

/-! ## The theorem -/

/-- The meaning of a stream of reports. Whatever a session with a listener that stays awaits, and
whichever reports its dispatcher takes, the listener is called once for each awaited number that
some report covers and never otherwise, with the message awaited under the number and the flag of
the first report on it; the calls come in the order of those first reports and by ascending number
within one report; and what no report covers is still awaited. A dispatcher that runs can take every
report of its stream. -/
theorem confirm_stream {w : System} {s : SessionId} {l : Listener}
    (hl : (w.session s).listener = some l) (hstay : l.reaction = .stay) :
    (∀ ls u, Run w ls u → (∀ x ∈ ls, x.delivers = true) → ∃ xs : List Confirmation,
      u.heard s = (xs.map fun x => (l.label, x)).reverse ++ w.heard s ∧
      (∀ x, x ∈ xs ↔ (x.tag, x.message) ∈ (w.session s).pending.entries ∧
        ∃ e, ((dispatched s w ls).find? fun e => e.covers x.tag) = some e ∧ x.ack = e.ack) ∧
      (xs.map Confirmation.tag).Nodup ∧
      xs.Pairwise (Pending.Before (dispatched s w ls)) ∧
      (u.session s).pending.entries = (w.session s).pending.entries.filter
        fun y => (dispatched s w ls).all fun e => !e.covers y.1) ∧
    ((w.session s).dispatcher = .running → ∃ u,
      Run w (List.replicate (w.channelOf s).stream.length (.run (.dispatcher s))) u ∧
      dispatched s w (List.replicate (w.channelOf s).stream.length (.run (.dispatcher s))) =
        (w.channelOf s).stream ∧
      (u.channelOf s).stream = []) := by
  refine ⟨fun ls u h hls => ?_, fun hd => run_dispatcher hl hstay hd rfl⟩
  obtain ⟨_, hpending, hheard⟩ := delivered_of_run hl hstay h hls
  exact ⟨_, hheard, fun _ => Pending.mem_drain, Pending.nodup_drain _ _, Pending.pairwise_drain _ _,
    by rw [hpending, Pending.entries_settleAll]⟩

/-- A session that awaits four outcomes, up to that of the last number there is. A report on the
first two numbers comes before one that contradicts it, and one that covers everything comes last.
-/
def contradicted : System :=
  { connections := [{
      registry := 0, timeout := .ofMillis 15000
      broker := { plan := {}, channels := [{
        index := 0, failsClose := false
        stream := [{ tag := 2, multiple := true, ack := true }, { tag := 1, ack := false },
          { tag := Number.wordMax, multiple := true, ack := false }] }] } }]
    sessions := [{
      connection := 0, number := 1, transacted := false, mode := .auto, channel := 0, held := true
      listener := some { label := "app" }
      pending := ⟨[(1, { destination := .queue "orders", body := [1] }),
        (2, { destination := .queue "orders", body := [2] }),
        (7, { destination := .queue "orders", body := [7] }),
        (Number.wordMax, { destination := .queue "orders", body := [9] })], by decide⟩ }] }

theorem contradicted_isSome :
    (contradicted.after? (.replicate 3 (.run (.dispatcher 0)))).isSome = true := by decide

def contradictedEnd : System :=
  (contradicted.after? (.replicate 3 (.run (.dispatcher 0)))).get contradicted_isSome

/-- Four calls of the listener, each with the flag of the report that came first, in the order of
the reports. -/
theorem contradictedEnd_heard :
    contradictedEnd.heard 0 =
      [("app", ⟨Number.wordMax, { destination := .queue "orders", body := [9] }, false⟩),
        ("app", ⟨7, { destination := .queue "orders", body := [7] }, false⟩),
        ("app", ⟨2, { destination := .queue "orders", body := [2] }, true⟩),
        ("app", ⟨1, { destination := .queue "orders", body := [1] }, true⟩)] ∧
    (contradictedEnd.session 0).pending.entries = [] ∧
    ∃ u, Run contradicted (.replicate 3 (.run (.dispatcher 0))) u ∧
      (u.channelOf 0).stream = [] := by
  have hl : (contradicted.session 0).listener = some { label := "app" } := rfl
  have hes : dispatched 0 contradicted (.replicate 3 (.run (.dispatcher 0))) =
      [{ tag := 2, multiple := true, ack := true }, { tag := 1, ack := false },
        { tag := Number.wordMax, multiple := true, ack := false }] := by decide
  obtain ⟨htaken, hdrain⟩ := confirm_stream hl rfl
  obtain ⟨_, _, _, _, _, hrest⟩ :=
    htaken _ _ (.of_isSome contradicted_isSome) (by decide)
  obtain ⟨u, hrun, _, hnil⟩ := hdrain rfl
  refine ⟨by decide, hrest.trans ?_, u, hrun, hnil⟩
  rw [hes]
  decide

end System

end BrokerClient
