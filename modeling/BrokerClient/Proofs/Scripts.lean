import BrokerClient.Proofs.Schedules
import BrokerClient.Script.Run

/-!
# What a script does is a run

A script drives a client step by step. Each step is an operation, or a call that a schedule runs, or
time that passes, and after it everything that can go on does. Whatever its steps are, a script
takes its client along a run (`runs_script`), so that what is proved of all runs holds of each state
that a script comes to.

A step asks whether the things that its handles stand for are held, and an operation is a step of a
run only if they are there. That they are is an invariant of the script (`Bench.Sound`): the
registry of every factory, every consumer that the script has seen, and the consumer that a claim
would put back. It rests on the register of names (`System.Known`), for an answer may name a
consumer that the script has never seen, such as the one that has a name already.
-/

namespace BrokerClient

/-! ## What a script is told -/

/-- The consumers that an answer names. -/
def Answer.consumers : Answer → List ConsumerId
  | .consumer c => [c]
  | .claimed claim => claim.previous?.toList
  | .heldBy holder => [holder]
  | .kept (.active holder) => [holder]
  | _ => []

namespace Subscriptions

variable {r : Subscriptions} {isClosed : ConsumerId → Bool} {name : String}
  {x holder : ConsumerId}

/-- A claim that fails names the consumer that has the name. -/
theorem get?_of_claim {destination : ConsumerId → Destination} {d : Destination}
    (h : r.claim isClosed destination name x d = .error holder) : r.get? name = some holder := by
  unfold claim at h
  split at h
  · cases h
  next hget =>
    split at h
    · cases h
      exact hget
    · split at h <;> cases h

/-- A name that is not removed because it is in use has a consumer. -/
theorem get?_of_active (h : r.removeInactive isClosed name = .error (.active holder)) :
    r.get? name = some holder := by
  unfold removeInactive at h
  split at h
  · cases h
  next hget =>
    split at h <;> cases h
    exact hget

end Subscriptions

namespace System

variable {w : System} {c : ConnectionId} {i : CallId} {o : Operation}

theorem consumers_ifOpen {f : Answer × System} (h : f.1.consumers = []) :
    (w.ifOpen c f).1.consumers = [] := by
  unfold ifOpen
  split
  · rfl
  · exact h

theorem length_adopt (w : System) (s : SessionId) (x : ConsumerId) :
    (w.adopt s x).2.consumers.length = w.consumers.length := by
  simpa [outline] using congrArg (fun p : Outline => p.origins.length) (outline_adopt w s x)

/-- A name that is not given to a consumer has one. -/
theorem entry_of_claimName {name : String} {x holder : ConsumerId} {d : Destination}
    (h : w.claimName c name x d = .error holder) : w.entry c name = some holder := by
  unfold claimName at h
  split at h
  next hno =>
    cases h
    exact Subscriptions.get?_of_claim hno
  · cases h

/-- A consumer that is created is the new one. -/
theorem answer_createConsumer (w : System) (s : SessionId) (d : Destination) :
    ∀ x ∈ (w.createConsumer s d).1.consumers, x < (w.createConsumer s d).2.consumers.length := by
  have hlen := length_adopt
    { w with consumers := w.consumers ++ [{ session := s, destination := d }] } s w.consumers.length
  simp only [createConsumer]
  split
  · intro x hx
    cases hx
  split
  next hadopt =>
    rw [hadopt] at hlen
    intro x hx
    obtain rfl := List.mem_singleton.1 hx
    simp [hlen]
  next =>
    intro x hx
    cases hx

/-- Taking a name by hand names its holder, or the one who had it before. -/
theorem Known.answer_claim (h : w.Known) (c : ConnectionId) (name : String) (y : ConsumerId) :
    ∀ x ∈ (w.claimSubscription c name y).1.consumers,
      x < (w.claimSubscription c name y).2.consumers.length := by
  unfold claimSubscription
  split
  next holder hno =>
    intro x hx
    obtain rfl := List.mem_singleton.1 hx
    exact (h c name).entry (entry_of_claimName hno)
  next claim v hok =>
    intro x hx
    have hx' : claim.previous? = some x := Option.mem_toList.1 hx
    rw [(claimName_leaves hok).2.2.1]
    exact (h c name).entry ((previous?_of_claimName hok).symm.trans hx')

/-- Removing a name by hand names its holder. -/
theorem Known.answer_remove (h : w.Known) (c : ConnectionId) (name : String) :
    ∀ x ∈ (w.removeSubscription c name).1.consumers,
      x < (w.removeSubscription c name).2.consumers.length := by
  unfold removeSubscription
  split
  next why hno =>
    intro x hx
    cases why with
    | unknown => cases hx
    | active holder =>
      obtain rfl := List.mem_singleton.1 hx
      exact (h c name).entry (Subscriptions.get?_of_active hno)
  next holder r hok =>
    intro x hx
    obtain rfl := List.mem_singleton.1 hx
    exact (h c name).entry (Subscriptions.removeInactive_eq_ok hok).2.1

/-- The consumer that an operation names is new, or it was in the register of names. -/
theorem Known.answer (h : w.Known) (o : Operation) :
    ∀ x ∈ (w.operate o).1.consumers, x < (w.operate o).2.consumers.length := by
  have hnone : (w.operate o).1.consumers = [] →
      ∀ x ∈ (w.operate o).1.consumers, x < (w.operate o).2.consumers.length := by
    intro he x hx
    rw [he] at hx
    cases hx
  cases o with
  | createConsumer s d => exact answer_createConsumer w s d
  | claimSubscription c name y => exact h.answer_claim c name y
  | removeSubscription c name => exact h.answer_remove c name
  -- The others name nobody.
  | clientId | metadata | exceptionListener | setExceptionListener =>
    exact hnone (consumers_ifOpen rfl)
  | start | stop => exact hnone (consumers_ifOpen (by split <;> rfl))
  | setClientId c id =>
    refine hnone ?_
    simp only [operate, setClientId]
    repeat' split
    all_goals rfl
  | notify c e =>
    refine hnone ?_
    simp only [operate, notify]
    split <;> rfl
  | setConfirmListener s l =>
    refine hnone ?_
    simp only [operate, setConfirmListener]
    split <;> rfl
  | _ => exact hnone rfl

/-- The consumer that a call has given is there. -/
theorem Wired.hasConsumer_of_ended (hw : w.Wired) {x : ConsumerId}
    (hp : w.progress? i = some (.ended (.ok (.consumer x)))) : w.hasConsumer x = true := by
  obtain ⟨y, _, hf⟩ := hw.fits hp
  obtain ⟨_, _, _, _, ho, _⟩ := hf
  exact hasConsumer_iff.2 (lt_of_origin ho)

end System

/-! ## Scripts -/

namespace Script.Bench

open BrokerClient.System (Reaches)

variable {x : Bench}

/-- A script has come along a run to where it is, and what its handles stand for is there. -/
structure Sound (x : Bench) : Prop where
  reached : Reaches {} x.system
  factories : ∀ f ∈ x.factories, x.system.hasRegistry f.registry = true
  consumers : ∀ c ∈ x.consumers, x.system.hasConsumer c = true
  claims : ∀ a, some a ∈ x.claims → ∀ c, a.previous? = some c → x.system.hasConsumer c = true

/-- A job that needs one thing, and has it. -/
theorem on_eq_ok {thing : Option Nat} {f : Nat → Call} {c : Call}
    (h : callOf.on thing f = .ok c) : ∃ a, thing = some a ∧ c = f a := by
  cases thing with
  | none => cases h
  | some a =>
    cases h
    exact ⟨a, rfl, rfl⟩

/-- Whoever waits for delivery is given no consumer. -/
theorem resumption_ne (w : System) (c d : ConsumerId) :
    w.resumption c ≠ some (.ok (.consumer d)) := by
  unfold System.resumption
  split
  · split <;> simp
  · split <;> simp
  · simp

theorem system_see? (x : Bench) (c : Option ConsumerId) : (x.see? c).2.system = x.system := by
  cases c with
  | none => rfl
  | some c =>
    show (x.see c).2.system = x.system
    unfold see
    split <;> rfl

namespace Sound

/-- What is there is still there when the client has gone on. -/
theorem goOn (h : x.Sound) {s : Schedule} (hr : Reaches x.system s.system) :
    Sound { x with schedule := s } := by
  obtain ⟨_, hregistries, hconsumers⟩ := hr.keeps h.reached.wired h.reached.known
  have hkept : ∀ {c}, x.system.hasConsumer c = true → s.system.hasConsumer c = true := fun hc =>
    System.hasConsumer_iff.2 (Nat.lt_of_lt_of_le (System.hasConsumer_iff.1 hc) hconsumers)
  refine ⟨h.reached.trans hr, fun f hf => ?_, fun c hc => hkept (h.consumers c hc),
    fun a ha c hc => hkept (h.claims a ha c hc)⟩
  have hlt := h.factories f hf
  simp only [System.hasRegistry, decide_eq_true_eq] at hlt ⊢
  exact Nat.lt_of_lt_of_le hlt hregistries

/-! ### Handles -/

/-- A consumer that is there may be kept in mind. -/
theorem see (h : x.Sound) {c : ConsumerId} (hc : x.system.hasConsumer c = true) :
    (x.see c).2.Sound := by
  unfold Bench.see
  split
  · exact h
  · refine ⟨h.reached, h.factories, fun d hd => ?_, h.claims⟩
    rcases List.mem_append.1 hd with hd | hd
    · exact h.consumers d hd
    · obtain rfl := List.mem_singleton.1 hd
      exact hc

theorem see? (h : x.Sound) {c : Option ConsumerId}
    (hc : ∀ d, c = some d → x.system.hasConsumer d = true) : (x.see? c).2.Sound := by
  cases c with
  | none => exact h
  | some c => exact h.see (hc c rfl)

/-- A step that needs a thing fails if its handle stands for none, and nothing comes of it. -/
theorem withHandle (h : x.Sound) {α : Type} {a : Option α} {f : α → Result × Bench}
    (hf : ∀ y, a = some y → (f y).2.Sound) : (x.withHandle a f).2.Sound := by
  cases a with
  | none => exact h
  | some y => exact hf y rfl

/-- A handle stands for a connection only while the program holds it. -/
theorem holdsConnection {k : Handle} {c : ConnectionId} (hc : x.connection? k = some c) :
    x.system.holdsConnection c = true := by
  unfold connection? at hc
  split at hc
  next hk =>
    cases hc
    exact hk
  next => cases hc

theorem holdsSession {k : Handle} {s : SessionId} (hs : x.session? k = some s) :
    x.system.holdsSession s = true :=
  (Option.filter_eq_some_iff.1 hs).2

theorem hasConnection {k : Handle} {c : ConnectionId} (hc : x.known? k = some c) :
    x.system.hasConnection c = true := by
  unfold known? at hc
  split at hc
  next hk =>
    cases hc
    exact decide_eq_true hk
  next => cases hc

/-- The registry of a factory is there. -/
theorem hasRegistry (h : x.Sound) {k : Handle} {f : Factory} (hf : x.factory? k = some f) :
    x.system.hasRegistry f.registry = true :=
  h.factories f (List.mem_of_getElem? hf)

theorem hasConsumer (h : x.Sound) {k : Handle} {c : ConsumerId} (hc : x.consumer? k = some c) :
    x.system.hasConsumer c = true :=
  h.consumers c (List.mem_of_getElem? hc)

/-! ### What is given -/

/-- A claim is kept for taking it back. -/
theorem addClaim (h : x.Sound) {claim : Claim}
    (hc : ∀ c, claim.previous? = some c → x.system.hasConsumer c = true) :
    Sound { x with claims := x.claims ++ [some claim] } := by
  refine ⟨h.reached, h.factories, h.consumers, fun a ha c hp => ?_⟩
  rcases List.mem_append.1 ha with ha | ha
  · exact h.claims a ha c hp
  · cases List.mem_singleton.1 ha
    exact hc c hp

/-- What a call has given may be a consumer, and that is kept in mind. -/
theorem outcome (h : x.Sound) {o : Outcome}
    (ho : ∀ c, o = .ok (.consumer c) → x.system.hasConsumer c = true) :
    (x.outcome o).2.Sound := by
  rcases o with e | (_ | s | c)
  · exact h
  · exact h
  · exact ⟨h.reached, h.factories, h.consumers, h.claims⟩
  · exact h.see (ho c rfl)

/-- What an operation has answered may name consumers, and these are kept in mind. -/
theorem answer (h : x.Sound) {a : Answer}
    (ha : ∀ c ∈ a.consumers, x.system.hasConsumer c = true) : (x.answer a).2.Sound := by
  cases a with
  | consumer c => exact h.see (ha c (List.mem_singleton_self c))
  | heldBy holder => exact h.see (ha holder (List.mem_singleton_self holder))
  | kept why =>
    cases why with
    | unknown => exact h
    | active holder => exact h.see (ha holder (List.mem_singleton_self holder))
  | claimed claim =>
    have hprevious : ∀ d, claim.previous? = some d → x.system.hasConsumer d = true :=
      fun d hd => ha d (Option.mem_toList.2 hd)
    exact (h.see? hprevious).addClaim fun d hd => by
      rw [system_see?]
      exact hprevious d hd
  | _ => exact h

/-- An operation that may be done, and takes back no claim but one on a consumer that is there. -/
theorem operate (h : x.Sound) {o : Operation} (ho : x.system.mayOperate o = true)
    (hk : x.system.knows (.operate o) = true) : (x.operate o).2.Sound := by
  have hr : Reaches x.system (x.system.operate o).2 := .of_step hk (if_pos ho)
  have hgone : (x.withSystem (x.system.operate o).2).Sound := h.goOn hr
  exact hgone.answer fun c hc => System.hasConsumer_iff.2 (h.reached.known.answer o c hc)

/-! ### Calls -/

/-- A call that a job means may be started. -/
theorem mayCall (h : x.Sound) {job : Job} {c : Call} (hj : x.callOf job = .ok c) :
    x.system.mayCall c = true := by
  -- A job that has a call names things that the script knows, and the program holds those.
  cases job with
  | createSession k transacted mode via =>
    simp only [callOf] at hj
    split at hj
    · cases hj
    · cases hj
    next hc _ =>
      cases hj
      exact holdsConnection hc
  | send k m =>
    simp only [callOf] at hj
    split at hj
    · cases hj
    · cases hj
    next hs =>
      cases hj
      exact holdsSession hs
  | close k =>
    obtain ⟨c, hc, rfl⟩ := on_eq_ok hj
    exact holdsConnection hc
  | closeSession k =>
    obtain ⟨s, hs, rfl⟩ := on_eq_ok hj
    exact holdsSession hs
  | subscribe k d name =>
    obtain ⟨s, hs, rfl⟩ := on_eq_ok hj
    exact holdsSession hs
  | unsubscribe k name =>
    obtain ⟨s, hs, rfl⟩ := on_eq_ok hj
    exact holdsSession hs
  | awaitResume k =>
    obtain ⟨c, hc, rfl⟩ := on_eq_ok hj
    exact h.hasConsumer hc

/-- A call that is run to its end and has given a consumer has one that is there. -/
theorem perform (h : x.Sound) {c : Call} (hc : x.system.mayCall c = true) {o : Outcome}
    (ho : (x.schedule.perform c).1 = some o) :
    (Bench.outcome { x with schedule := (x.schedule.perform c).2 } o).2.Sound := by
  obtain ⟨hr, hended⟩ := Schedule.reaches_perform hc
  have hgone := h.goOn hr
  refine hgone.outcome fun d hd => ?_
  have hp := hended o ho
  rw [hd] at hp
  exact hgone.reached.wired.hasConsumer_of_ended hp

/-- A step that runs a call to its end. -/
theorem runCall (h : x.Sound) {c : Call} (hc : x.system.mayCall c = true) :
    (x.runCall c).2.Sound := by
  cases c with
  | awaitResume d =>
    simp only [Bench.runCall]
    split
    next o ho => exact h.outcome fun c hoc => absurd ho (by rw [hoc]; exact resumption_ne _ _ _)
    next => exact h
  | _ =>
    simp only [Bench.runCall]
    split
    next o ho => exact h.perform hc ho
    next => exact h.goOn (Schedule.reaches_perform hc).1

theorem spawnCall (h : x.Sound) {c : Call} (hc : x.system.mayCall c = true) :
    (x.spawnCall c).2.Sound := by
  have hgone := h.goOn (Schedule.reaches_start hc)
  exact ⟨hgone.reached, hgone.factories, hgone.consumers, hgone.claims⟩

/-- A step that waits for a call that was started before. -/
theorem join (h : x.Sound) (k : Handle) : (x.join k).2.Sound := by
  unfold Bench.join
  split
  next i _ =>
    split
    next o v hv =>
      obtain ⟨htaken, hended⟩ := System.take?_eq_some hv
      have hgone : (x.withSystem v).Sound := h.goOn htaken.reaches
      have hjoined : Sound { x.withSystem v with tasks := x.tasks.set k none } :=
        ⟨hgone.reached, hgone.factories, hgone.consumers, hgone.claims⟩
      refine hjoined.outcome fun c hc => ?_
      rw [hc] at hended
      exact hgone.reached.wired.hasConsumer_of_ended hended
    next => exact h
  next => exact h

/-! ### Steps -/

/-- A factory comes with a registry of its own, or with that of another one. -/
theorem addFactory (h : x.Sound) (options : Options) {shared : Option Factory}
    (hf : ∀ f, shared = some f → x.system.hasRegistry f.registry = true) :
    (x.addFactory options shared).2.Sound := by
  have hadd : ∀ {y : Bench} {f : Factory}, y.Sound → y.system.hasRegistry f.registry = true →
      (addFactory.add y f).2.Sound := by
    intro y f hy hr
    refine ⟨hy.reached, fun g hg => ?_, hy.consumers, hy.claims⟩
    rcases List.mem_append.1 hg with hg | hg
    · exact hy.factories g hg
    · obtain rfl := List.mem_singleton.1 hg
      exact hr
  cases shared with
  | some f => exact hadd h (hf f rfl)
  | none =>
    have hr : Reaches x.system x.system.createRegistry.2 :=
      .of_step (l := .operate .createRegistry) rfl rfl
    have hgone : (x.withSystem x.system.createRegistry.2).Sound := h.goOn hr
    refine hadd hgone (decide_eq_true ?_)
    show x.system.registries.length < (x.system.registries ++ [({} : Identifiers)]).length
    simp

theorem createFactory (h : x.Sound) (options : Option String) (timeout : Option Span)
    (share : Option Handle) : (x.createFactory options timeout share).2.Sound := by
  unfold Bench.createFactory
  split
  · exact h
  · cases share with
    | none => exact h.addFactory _ fun f hf => nomatch hf
    | some k =>
      refine h.withHandle fun f hf => h.addFactory _ fun g hg => ?_
      cases hg
      exact h.hasRegistry hf

/-- An operation on a connection that the program holds is a step. -/
theorem onConnection (h : x.Sound) {k : Handle} {o : ConnectionId → Operation}
    (ho : ∀ c, x.system.holdsConnection c = true →
      x.system.mayOperate (o c) = true ∧ x.system.knows (.operate (o c)) = true) :
    (x.onConnection k o).2.Sound :=
  h.withHandle fun c hc => h.operate (ho c (holdsConnection hc)).1 (ho c (holdsConnection hc)).2

theorem onSession (h : x.Sound) {k : Handle} {o : SessionId → Operation}
    (ho : ∀ s, x.system.holdsSession s = true →
      x.system.mayOperate (o s) = true ∧ x.system.knows (.operate (o s)) = true) :
    (x.onSession k o).2.Sound :=
  h.withHandle fun s hs => h.operate (ho s (holdsSession hs)).1 (ho s (holdsSession hs)).2

/-- A claim that is taken back puts back a consumer that is there, as the script has kept the claim
since it was made. -/
theorem abandon (h : x.Sound) {c : ConnectionId} {name : String} {d : ConsumerId} {k : Handle}
    (hc : x.system.holdsConnection c = true) (hd : x.system.hasConsumer d = true) :
    (x.abandon c name d k).2.Sound := by
  refine h.withHandle fun claim hclaim => ?_
  have hmem : some claim ∈ x.claims := by
    obtain ⟨a, ha, rfl⟩ := Option.bind_eq_some_iff.1 hclaim
    exact List.mem_of_getElem? ha
  have hleft : Sound { x with claims := x.claims.set k none } := by
    refine ⟨h.reached, h.factories, h.consumers, fun a ha p hp => ?_⟩
    rcases List.mem_or_eq_of_mem_set ha with ha | ha
    · exact h.claims a ha p hp
    · cases ha
  refine hleft.operate (by simpa [System.mayOperate] using ⟨hc, hd⟩) ?_
  have hall : claim.previous?.all x.system.hasConsumer = true :=
    (Option.all_eq_true _ _).2 fun p hp => h.claims claim hmem p hp
  exact hall

/-- Each step of a script is an operation, a call, time that passes, or a look at what there is. -/
theorem take (h : x.Sound) (s : Step) : (x.take s).2.Sound := by
  cases s with
  | run job =>
    simp only [Bench.take]
    split
    next c hc => exact h.runCall (h.mayCall hc)
    next => exact h
  | spawn job =>
    simp only [Bench.take]
    split
    next c hc => exact h.spawnCall (h.mayCall hc)
    next => exact h
  | join k => exact h.join k
  | advance ms => exact h.goOn (Schedule.reaches_pass _ ms)
  | createFactory options timeout share => exact h.createFactory options timeout share
  | claimIdentifier k id => exact h.withHandle fun f hf => h.operate (h.hasRegistry hf) rfl
  | releaseIdentifier k id => exact h.withHandle fun f hf => h.operate (h.hasRegistry hf) rfl
  | connect k timeout plan =>
    refine h.withHandle fun f hf => ?_
    cases timeout with
    | none => exact h.operate (h.hasRegistry hf) rfl
    | some t => exact h.operate (h.hasRegistry hf) rfl
  | inject k fault => exact h.withHandle fun c hc => h.operate (hasConnection hc) rfl
  | refuse k refusing => exact h.withHandle fun c hc => h.operate (hasConnection hc) rfl
  | report k channel events => exact h.withHandle fun c hc => h.operate (hasConnection hc) rfl
  -- What works on a connection or a session needs no more than that it is held.
  | dropConnection | clientId | setClientId | metadata | exceptionListener
  | setExceptionListener | notify | start | stop | createConnectionConsumer
  | removeSubscription => exact h.onConnection fun c hc => ⟨hc, rfl⟩
  | dropSession | createConsumer | setConfirmListener =>
    exact h.onSession fun s hs => ⟨hs, rfl⟩
  | closeConsumer k => exact h.withHandle fun c hc => h.operate (h.hasConsumer hc) rfl
  | claimSubscription k name consumer =>
    refine h.withHandle fun c hc => h.withHandle fun d hd => h.operate ?_ rfl
    simpa [System.mayOperate] using ⟨holdsConnection hc, h.hasConsumer hd⟩
  | abandonSubscription k name consumer claim =>
    exact h.withHandle fun c hc => h.withHandle fun d hd =>
      h.abandon (holdsConnection hc) (h.hasConsumer hd)
  | getSubscription k name =>
    refine h.withHandle fun c _ => ?_
    have hentry : ∀ d, (x.system.connection c).subscriptions.get? name = some d →
        x.system.hasConsumer d = true := fun d hd =>
      System.hasConsumer_iff.2 ((h.reached.known c name).entry hd)
    have hseen := h.see? hentry
    unfold getSubscription
    split
    next hsee =>
      rw [hsee] at hseen
      exact hseen
    next hsee =>
      rw [hsee] at hseen
      exact hseen
  | sameConsumer k other => exact h.withHandle fun _ _ => h.withHandle fun _ _ => h
  -- Looking changes nothing.
  | viewFactory | viewChannel | viewConnection | showConnection | viewSession | showSession
  | viewConsumer | viewSubscription => exact h.withHandle fun _ _ => h

/-- After a step all that can go on does, unless it is held back. -/
theorem step (h : x.Sound) (s : Step) (held : Bool) : (x.step s held).2.2.Sound := by
  have htaken := h.take s
  have hheard : ∀ {y : Bench}, y.Sound → y.hear.2.Sound := fun hy =>
    ⟨hy.reached, hy.factories, hy.consumers, hy.claims⟩
  cases held with
  | true => exact hheard htaken
  | false => exact hheard (htaken.goOn (Schedule.reaches_settle _))

/-- A script begins with a client that has done nothing. -/
theorem start : Bench.start.Sound where
  reached := .of_step (l := .operate .createRegistry) rfl rfl
  factories f hf := by
    obtain rfl := List.mem_singleton.1 hf
    rfl
  consumers c hc := nomatch hc
  claims a ha := nomatch ha

/-- Each step of a script, from one that is sound, takes it to one that is. -/
theorem steps (h : x.Sound) (ss : List (Step × Bool)) :
    (ss.foldl (fun x s => (x.step s.1 s.2).2.2) x).Sound := by
  induction ss generalizing x with
  | nil => exact h
  | cons s ss ih => exact ih (h.step s.1 s.2)

end Sound

/-- A script drives a client along a run: what holds of all runs holds of the state that a script
comes to, whatever its steps are. -/
theorem runs_script (ss : List (Step × Bool)) :
    ∃ ls, System.Run {} ls (ss.foldl (fun x s => (x.step s.1 s.2).2.2) start).system := by
  obtain ⟨ls, hrun, _⟩ := (Sound.start.steps ss).reached
  exact ⟨ls, hrun⟩

end Script.Bench

end BrokerClient
