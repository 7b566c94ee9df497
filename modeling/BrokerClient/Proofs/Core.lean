import BrokerClient.Proofs.Others

/-!
# What only requests change at a broker

The program, the dispatchers and the side of the broker that reports work on streams of reports and
on whether channels are refused. All else that a broker keeps, its *core*, is changed by requests
alone, at the moment at which they take effect. So a step is one of three kinds (`step_kinds`): a
call goes on to another wait, a request takes effect, or neither calls nor cores change.

What takes effect was asked for before (`System.Asked`); in particular a channel that is closed was
asked to close.

The kinds are those of the properties that speak of a broker's record. A property of cores has to be
shown for requests that take effect (`Broker.core_reported`, `core_operate` and `core_dispatch` give
all the others), and then follows a run in one induction over `step_kinds`.

`Asked` is kept by the same induction: a request is noted when it is asked, and by the time it takes
effect it is still noted (`Asked.step`).
-/

namespace BrokerClient

/-- A channel without its stream of reports. -/
def Channel.core (x : Channel) : Channel := { x with stream := [], listening := true }

/-- A broker without its streams, and whether or not it refuses channels. -/
def Broker.core (b : Broker) : Broker :=
  { b with refusing := false, channels := b.channels.map Channel.core }

/-- A connection without what concerns the program alone: how long closing it may take, what was
asked of the broker, and the core of the broker. -/
abbrev Connection.core (x : Connection) : Span × List Request × Broker :=
  (x.timeout, x.asked, x.broker.core)

/-- A connection with another broker of the same core. -/
theorem Connection.core_broker {x : Connection} {b : Broker} (h : b.core = x.broker.core) :
    Connection.core { x with broker := b } = x.core :=
  congrArg (fun b => (x.timeout, x.asked, b)) h

/-- Whether a channel is open is a matter of the closes that it counts. -/
theorem Channel.isOpen_whenOpen {f : Channel → Channel}
    (hf : ∀ x, (f x).closeCalls = x.closeCalls) (x : Channel) :
    (Channel.whenOpen f x).2.isOpen = x.isOpen := by
  unfold Channel.whenOpen
  split
  · rw [Channel.isOpen, hf, Channel.isOpen]
  · rfl

namespace Broker

/-- A change of a channel that its core does not show. -/
theorem core_modifyChannel {b : Broker} {k : Nat} {f : Channel → Channel}
    (h : ∀ x, b.channels[k]? = some x → (f x).core = x.core) :
    (b.modifyChannel k f).core = b.core := by
  have hm : (b.channels.modify k f).map Channel.core = b.channels.map Channel.core :=
    (@map_modify_at _ _ _ _ id _ _ h).trans (List.modify_id k _)
  simp only [core, modifyChannel, hm]

/-- Reports go to streams. -/
theorem core_reported (b : Broker) (k : Nat) (es : List ConfirmEvent) :
    (b.reported k es).core = b.core := by
  induction es generalizing b with
  | nil => rfl
  | cons e es ih =>
    rw [reported, List.foldl_cons, ← reported, ih]
    refine core_modifyChannel fun x _ => ?_
    unfold Channel.report
    split <;> rfl

/-- A reading of channels that their cores carry. -/
theorem channelOrNew_of_core {α : Type} {g : Channel → α} (hg : ∀ x, g x.core = g x)
    {b b' : Broker} (h : b'.core = b.core) (k : Nat) :
    g (b'.channelOrNew k) = g (b.channelOrNew k) := by
  have hc : (b'.channels.map Channel.core)[k]? = (b.channels.map Channel.core)[k]? :=
    congrArg (fun b : Broker => b.channels[k]?) h
  rw [List.getElem?_map, List.getElem?_map] at hc
  rw [channelOrNew, channelOrNew, ← hg, ← hg (b.channels[k]?.getD _)]
  cases hb : b.channels[k]? <;> cases hb' : b'.channels[k]? <;> simp_all

end Broker

namespace System

variable {w v : System} {c : ConnectionId} {s : SessionId} {i : CallId}

/-- A reading that an update does not change in the connection that is updated. -/
theorem connection_modifyConnection_at {α : Type} {g : Connection → α}
    {f : Connection → Connection} {d : ConnectionId}
    (h : g (f (w.connection d)) = g (w.connection d)) (c : ConnectionId) :
    g ((w.modifyConnection d f).connection c) = g (w.connection c) := by
  by_cases hdc : d = c
  · subst hdc
    by_cases hd : d < w.connections.length
    · rw [connection_modifyConnection_self hd, h]
    · rw [modifyConnection, List.modify_eq_self (Nat.le_of_not_lt hd)]
  · rw [connection_modifyConnection_ne hdc]

/-- An update of connections that their cores do not show. -/
theorem core_modifyConnection {f : Connection → Connection} (h : ∀ x, (f x).core = x.core)
    (w : System) (d c : ConnectionId) :
    ((w.modifyConnection d f).connection c).core = (w.connection c).core :=
  connection_modifyConnection_at (g := Connection.core) (h _) c

/-- A change of a session's channel that its core does not show. -/
theorem core_modifyChannelOf {f : Channel → Channel}
    (h : (f (w.channelOf s)).core = (w.channelOf s).core) (c : ConnectionId) :
    ((w.modifyChannelOf s f).connection c).core = (w.connection c).core := by
  refine connection_modifyConnection_at (g := Connection.core) (Connection.core_broker ?_) c
  refine Broker.core_modifyChannel fun x hx => ?_
  have hch : w.channelOf s = x := by simp [channelOf, Broker.channelOrNew, hx]
  rwa [hch] at h

/-- Dispatchers take from streams. -/
theorem core_dispatch (h : w.dispatch? s = some v) (c : ConnectionId) :
    (v.connection c).core = (w.connection c).core := by
  rcases dispatch?_cases h with ⟨_, rfl⟩ | ⟨e, rest, _, _, rfl⟩
  · exact core_modifyChannelOf (f := Channel.abandonStream) rfl c
  · rw [connection_congr (framed_handleReport _ s e).connections]
    exact core_modifyChannelOf (f := fun _ => { w.channelOf s with stream := rest }) rfl c

/-- A new connection has a broker without channels, and stands where none stood. -/
theorem core_connect (w : System) {y : Connection} (hy : y.broker.channels = [])
    (c : ConnectionId) :
    (({ w with connections := w.connections ++ [y] } : System).connection c).core =
      (w.connection c).core ∨ (w.connections.length ≤ c ∧
        (({ w with connections := w.connections ++ [y] } : System).connection c).broker.channels =
          []) := by
  rw [connection, connection, List.getElem?_append]
  split
  · exact .inl rfl
  next h =>
    refine .inr ⟨Nat.le_of_not_lt h, ?_⟩
    cases c - w.connections.length with
    | zero => exact hy
    | succ n => rfl

/-- Operations work on what the program holds, or on streams; a broker that they set up has no
channel yet. -/
theorem core_operate (w : System) (o : Operation) (c : ConnectionId) :
    ((w.operate o).2.connection c).core = (w.connection c).core ∨
    (w.connections.length ≤ c ∧ ((w.operate o).2.connection c).broker.channels = []) := by
  obtain ⟨u, hu, ha⟩ := operate_change w o
  rw [ha.connection_of (g := Connection.core) (fun _ => rfl),
    ha.connection_of (g := fun x => x.broker.channels) (fun _ => rfl)]
  cases hu with
  | connect r timeout plan => exact core_connect w (by rfl) c
  | addConsumer =>
    rw [connection_congr (adopt_leaves ..).2.2.1]
    exact .inl rfl
  | closeConsumer x =>
    rw [connection_congr (closeConsumer_leaves w x).2.2.1]
    exact .inl rfl
  | report d k es =>
    exact .inl (core_modifyConnection (f := fun x => { x with broker := x.broker.reported k es })
      (fun x => Connection.core_broker (x.broker.core_reported k es)) w d c)
  | none | dropSession | listen => exact .inl rfl
  | dropConnection | redirect | rename | inject | refuse =>
    exact .inl (core_modifyConnection (by intro _; rfl) w _ c)

/-! ## The kinds of step -/

/-- Neither calls nor the cores of connections change; a new connection may be there. -/
structure Resting (w v : System) : Prop where
  progress : ∀ i, v.progress? i = w.progress? i
  core : ∀ c, (v.connection c).core = (w.connection c).core ∨
    (w.connections.length ≤ c ∧ (v.connection c).broker.channels = [])

/-- The inversion of a step, as far as calls and brokers are concerned. Every invariant about them
is kept by three cases. -/
theorem step_kinds {l : Label} (h : w.step? l = some v) : Resting w v ∨
    (∃ y, l = .call y ∧ Stride w.calls.length (w.enlist y) v) ∨
    (∃ i, l = .run (.call i) ∧ Stride i w v) ∨
    ∃ i e after, l = .run (.call i) ∧ w.progress? i = some (.exchange e) ∧ e.wake ≤ w.now ∧
      e.stage = .before none after ∧ v = w.takeEffect i e after := by
  cases l with
  | operate o =>
    obtain ⟨_, rfl⟩ := step_operate h
    exact .inl ⟨fun i => by rw [progress?, operate_calls, progress?], core_operate w o⟩
  | call y =>
    obtain ⟨_, rfl⟩ := step_call h
    exact .inr (.inl ⟨y, rfl, stride_call w y⟩)
  | run a =>
    cases a with
    | call i =>
      rcases resume_cases h with ⟨e, after, hp, hw, hs, rfl⟩ | hs
      · exact .inr (.inr (.inr ⟨i, e, after, rfl, hp, hw, hs, rfl⟩))
      · exact .inr (.inr (.inl ⟨i, rfl, hs⟩))
    | dispatcher s =>
      obtain ⟨f, hf⟩ := framed_dispatch h
      refine .inl ⟨fun i => ?_, fun c => .inl (core_dispatch h c)⟩
      rw [progress?, hf.calls]
      rfl
  | take i =>
    obtain ⟨o, _, rfl | ⟨s, _, rfl⟩⟩ := take?_cases h
    · exact .inl ⟨progress_take w i, fun _ => .inl rfl⟩
    · exact .inl ⟨progress_take w i, fun _ => .inl rfl⟩
  | tick t =>
    obtain ⟨_, rfl⟩ := step_tick h
    exact .inl ⟨fun _ => rfl, fun _ => .inl rfl⟩

/-- What a connection that is not there yet, or a new one, has. -/
theorem connection_of_le (h : w.connections.length ≤ c) : w.connection c = default := by
  rw [connection, List.getElem?_eq_none h]
  rfl

/-- What was asked of a broker stays asked. -/
theorem asked_step {l : Label} (h : w.step? l = some v) (c : ConnectionId) :
    (w.connection c).asked ⊆ (v.connection c).asked := by
  rcases step_kinds h with hr | ⟨y, _, hs⟩ | ⟨i, _, hs⟩ | ⟨i, e, after, _, _, _, _, rfl⟩
  · rcases hr.core c with he | ⟨hle, _⟩
    · rw [show (v.connection c).asked = (w.connection c).asked from
        congrArg (fun x => x.2.1) he]
      exact fun _ h => h
    · rw [connection_of_le hle]
      exact List.nil_subset _
  · exact hs.asked c
  · exact hs.asked c
  · rw [takeEffect, connection_setCall,
      connection_modifyConnection_of (g := Connection.asked) (by intro _; rfl)]
    exact fun _ h => h

/-! ## What was asked -/

/-- A call waits for what it has asked for, and only a close closes a channel. -/
structure Asked (w : System) : Prop where
  exchange : ∀ {i e}, w.progress? i = some (.exchange e) →
    e.request ∈ (w.connection e.connection).asked
  closed : ∀ {c k}, ((w.connection c).broker.channelOrNew k).isOpen = false →
    .closeChannel k ∈ (w.connection c).asked

end System

namespace Broker

/-- A channel that a request closes is the one that it asks to close. -/
theorem isOpen_perform {b : Broker} {r : Request} {k : Nat} (h : r ≠ .closeChannel k) :
    ((b.perform r).2.channelOrNew k).isOpen = (b.channelOrNew k).isOpen := by
  have hon : ∀ {n} {f : Channel → Except TransportFailure Unit × Channel},
      (∀ x, n ≠ k ∨ (f x).2.isOpen = x.isOpen) →
      ((b.onChannel n f).2.channelOrNew k).isOpen = (b.channelOrNew k).isOpen := by
    intro n f hf
    unfold onChannel
    split
    · rfl
    next x hx =>
      have hn := (List.getElem?_eq_some_iff.1 hx).1
      rw [channelOrNew_set hn]
      split
      next hnk =>
        subst hnk
        rw [(hf x).resolve_left (· rfl), channelOrNew, hx]
        rfl
      next => rfl
  cases r with
  | createChannel =>
    change (b.createChannel.2.channelOrNew k).isOpen = _
    unfold createChannel
    split
    · rfl
    · split
      · rfl
      · simp only [channelOrNew, List.getElem?_append]
        split
        · rfl
        next hn =>
          rw [List.getElem?_eq_none (Nat.le_of_not_lt hn)]
          cases k - b.channels.length <;> rfl
  | close => rfl
  | publish n m =>
    exact hon (f := Channel.publish m) fun x => .inr (Channel.isOpen_whenOpen (by intro _; rfl) x)
  | declare n topic name =>
    exact hon (f := Channel.declare topic name) fun x =>
      .inr (Channel.isOpen_whenOpen (by intro _; rfl) x)
  | delete n name =>
    exact hon (f := Channel.delete name) fun x => .inr (Channel.isOpen_whenOpen (by intro _; rfl) x)
  | closeChannel n =>
    refine hon (f := Channel.close) fun x => .inl ?_
    rintro rfl
    exact h rfl

end Broker

namespace System

variable {w v : System} {c : ConnectionId} {s : SessionId} {i : CallId}

/-- The connection of an exchange is there. -/
theorem Wired.lt_of_exchange (hw : w.Wired) {e : Exchange}
    (hp : w.progress? i = some (.exchange e)) : e.connection < w.connections.length := by
  obtain ⟨y, _, hf⟩ := hw.fits hp
  have hhoused : ∀ {s k}, w.outline.addresses[s]? = some (e.connection, k) →
      e.connection < w.connections.length := fun ha => hw.housed _ (List.mem_of_getElem? ha)
  simp only [Progress.Fits, Exchange.Fits] at hf
  cases hg : e.goal <;> simp only [hg] at hf
  case openSession | closeNext =>
    obtain ⟨_, hc, _⟩ := hf
    exact hc
  case closeBroker => exact hf.1
  -- The others are about a session, and where its channel is there is its connection.
  case discardSession | closeSession | unsubscribe =>
    obtain ⟨_, _, _, ha, _⟩ := hf
    exact hhoused ha
  case publish =>
    obtain ⟨_, _, _, _, ha, _⟩ := hf
    exact hhoused ha
  case retarget | declare =>
    obtain ⟨_, _, _, _, _, ha, _⟩ := hf
    exact hhoused ha

/-- A call that goes on has just asked for what it waits for, and what was asked stays asked. -/
theorem Asked.step (hw : w.Wired) (h : w.Asked) {l : Label} (hs : w.step? l = some v) :
    v.Asked := by
  have hlt {i e} := (onward_step hw hs).wired.lt_of_exchange (i := i) (e := e)
  have hask := asked_step hs
  -- A call that goes on to another wait has just asked, and the others stand where they stood.
  have hstride : ∀ {i u}, Stride i u v → (∀ j, u.progress? j = w.progress? j ∨
      u.progress? j = some .begun) → (∀ c, u.connection c = w.connection c) → v.Asked := by
    intro i u hst hp hc
    refine ⟨fun {j e} hj => ?_, fun {c k} hk => ?_⟩
    · by_cases hij : i = j
      · subst hij
        exact (hst.fresh e hj).1 (hlt hj)
      · rw [hst.progress j hij] at hj
        rcases hp j with he | he <;> rw [he] at hj
        · exact hask _ (h.exchange hj)
        · cases hj
    · rw [hst.broker, hc] at hk
      exact hask c (h.closed hk)
  rcases step_kinds hs with hr | ⟨y, _, hst⟩ | ⟨i, _, hst⟩ | ⟨i, e, after, _, hp, _, _, rfl⟩
  · refine ⟨fun {j e} hj => ?_, fun {c k} hk => ?_⟩
    · rw [hr.progress] at hj
      exact hask _ (h.exchange hj)
    · rcases hr.core c with he | ⟨_, he⟩
      · refine hask c (h.closed (k := k) (hk ▸ ?_))
        exact (Broker.channelOrNew_of_core (g := Channel.isOpen) (fun _ => rfl)
          (congrArg (fun x => x.2.2) he) k).symm
      · rw [Broker.channelOrNew, he] at hk
        cases hk
  · exact hstride hst (fun j => (progress_enlist w y j).imp id And.right) fun _ => rfl
  · exact hstride hst (fun _ => .inl rfl) fun _ => rfl
  · refine ⟨fun {j f} hj => ?_, fun {c k} hk => ?_⟩
    · by_cases hij : i = j
      · subst hij
        rw [takeEffect, progress_setCall_self (by exact lt_of_progress hp)] at hj
        obtain rfl := Progress.exchange.inj (Option.some.inj hj)
        have he := h.exchange hp
        exact hask _ he
      · rw [takeEffect, progress_setCall_ne hij] at hj
        exact hask _ (h.exchange hj)
    · by_cases hr : e.request = .closeChannel k ∧ e.connection = c
      · obtain ⟨hr, rfl⟩ := hr
        exact hask _ (hr ▸ h.exchange hp)
      · refine hask c (h.closed (k := k) (hk ▸ ?_))
        rw [takeEffect, connection_setCall]
        by_cases hc : e.connection = c
        · subst hc
          rw [connection_modifyConnection_self (hw.lt_of_exchange hp)]
          exact (Broker.isOpen_perform fun he => hr ⟨he, rfl⟩).symm
        · rw [connection_modifyConnection_ne hc]

/-- Nobody waits for what was not asked for, in any run. -/
theorem asked_of_run {ls : List Label} (h : Run {} ls w) : w.Asked := by
  induction h with
  | refl =>
    refine ⟨fun hi => ?_, fun hk => ?_⟩
    · cases hi
    · cases hk
  | step hrun hs ih => exact ih.step (wired_of_run hrun) hs

end System

end BrokerClient
