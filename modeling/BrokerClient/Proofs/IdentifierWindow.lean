import BrokerClient.Proofs.ClientIdentifiers

/-!
# When an identifier can be set

A connection takes an identifier once, before it is used for anything else, and while it is open.
`Connection.permit` keeps what that depends on in the connection itself: whether the time in which
it is allowed lasts, and the identifier that it has; a connection that is closed has no permit.
Three kinds of steps change a permit, each that of one connection (`Event`), and no other step
changes any (`System.permits_step`).

So the permit of a connection tells what was done with it before (`System.permit_of_run`). Together
with `Roll.Sound`, which tells who holds an identifier, that gives the answer to every attempt to
set one (`System.setting_is_answered`).

The three answers exclude one another, and which one is given is decided in this order: a connection
whose permit is not as good as new gets no further than its own state, and only then is the registry
asked. That the registry names no other connection than those that are open is where the ledger of
identifiers comes in (`mem_held_iff`).
-/

namespace BrokerClient

/-- What the setting of an identifier depends on in its own connection. -/
structure Permit where
  /-- Whether nothing else was done with the connection. -/
  lasts : Bool
  clientId : Option String

/-- A connection that is closed has no permit. -/
def Connection.permit (x : Connection) : Option Permit :=
  if x.life.isClosed then none else some ⟨x.identifierOpen, x.clientId⟩

/-- What matters to the identifier of a connection. -/
inductive Event where
  /-- Something else is done with the connection, whatever comes of it. -/
  | use (c : ConnectionId)
  | set (c : ConnectionId) (id : String)
  | close (c : ConnectionId)
  deriving DecidableEq

namespace Event

/-- The connection that an event is about. -/
def connection : Event → ConnectionId
  | .use c => c
  | .set c _ => c
  | .close c => c

/-- What becomes of the permit of the connection. -/
def revise : Event → Option Permit → Option Permit
  | .use _, p => p.map fun x => { x with lasts := false }
  | .set _ id, p => p.map fun x => { x with clientId := some id }
  | .close _, _ => none

end Event

namespace System

variable {w v u : System} {i : CallId} {c d : ConnectionId} {l : Label} {ls : List Label}
  {e : Event}

/-- What a step is to the identifiers of connections. -/
def event? (w : System) : Label → Option Event
  | .call (.close c) => some (.close c)
  | .operate (.setClientId c id) =>
    if (w.setClientId c id).1 = .unit then some (.set c id) else none
  | l => l.used?.map .use

/-- What a run was to the identifiers of connections, the oldest first. -/
def events (ls : List Label) : List Event :=
  (({} : System).steps ls).filterMap fun x => x.1.event? x.2

/-- The permits of the connections, in the order of their creation. -/
def permits (w : System) : List (Option Permit) := w.connections.map Connection.permit

theorem permits_connection (hc : c < w.connections.length) :
    w.permits[c]? = some (w.connection c).permit := by
  simp [permits, connection, List.getElem?_eq_getElem hc]

theorem lt_of_permits {p : Option Permit} (h : w.permits[c]? = some p) :
    c < w.connections.length ∧ (w.connection c).permit = p := by
  have hc : c < w.connections.length := by
    simpa [permits] using (List.getElem?_eq_some_iff.1 h).1
  rw [permits_connection hc] at h
  exact ⟨hc, Option.some.inj h⟩

/-! ## What steps do to permits -/

/-- Neither upkeep, nor a listener, nor starting and stopping shows in a permit. -/
theorem aloof_permit : Connection.Aloof Connection.permit where
  upkeep _ _ _ _ _ _ _ := rfl
  listener _ _ := rfl
  phase x life h := by rw [Connection.permit, Connection.permit, h]

/-- A connection that is closed has no permit to lose. -/
theorem permits_closed (h : (w.connection c).life.isClosed = true)
    {f : Option Permit → Option Permit} (hf : f none = none) :
    w.permits.modify c f = w.permits := by
  refine modify_eq_self_of fun p hp => ?_
  obtain ⟨_, rfl⟩ := lt_of_permits hp
  rw [Connection.permit, if_pos h, hf]

/-- The time in which an identifier may be set ends. -/
theorem permits_closeIdentifierWindow (w : System) (c : ConnectionId) :
    (w.closeIdentifierWindow c).permits = w.permits.modify c (Event.use c).revise := by
  refine map_modify_of (fun x => ?_) w.connections c
  unfold Connection.permit
  cases x.life.isClosed <;> rfl

/-- A use ends the time for an identifier, whatever comes of it; a connection that is closed has no
permit to lose. -/
theorem permits_use (hs : w.step? l = some v) (hl : l.used? = some c) :
    v.permits = w.permits.modify c (Event.use c).revise := by
  rcases sameTo_use aloof_permit hs hl with h | ⟨hclosed, h⟩
  · exact h.connections.trans (permits_closeIdentifierWindow w c)
  · exact h.connections.trans (permits_closed hclosed rfl).symm

/-- A close takes the permit away, in its first stretch. -/
theorem permits_closeConnection (w : System) (i : CallId) (c : ConnectionId) :
    (w.closeConnection i c).permits = w.permits.modify c (Event.close c).revise := by
  rcases closeConnection_effect w i c with ⟨hclosed, v, hq, he⟩ | ⟨_, v, rs, hq, he⟩ <;> rw [he]
  · exact (congrArg _ hq.connections).trans (permits_closed hclosed rfl).symm
  · refine (sameTo_closeSessions aloof_permit _ i c none _).connections.trans ?_
    rw [permits, ← hq.connections]
    exact map_modify_of (by intro _; rfl) v.connections c

/-- Setting an identifier shows in the permit just if it succeeds. -/
theorem permits_setClientId (w : System) (c : ConnectionId) (id : String) :
    (w.setClientId c id).1 = .unit ∧
      (w.setClientId c id).2.permits = w.permits.modify c (Event.set c id).revise ∨
    (w.setClientId c id).1 ≠ .unit ∧ (w.setClientId c id).2.permits = w.permits := by
  rcases setClientId_effect w c id with ⟨e, he⟩ | ⟨_, _, _, he⟩ <;> rw [he]
  · exact .inr ⟨by simp, rfl⟩
  · refine .inl ⟨rfl, map_modify_of (fun x => ?_) w.connections c⟩
    unfold Connection.permit
    cases x.life.isClosed <;> rfl

/-- The permit of a new connection. -/
theorem permits_connect {y : Connection} (hy : y.permit = some ⟨true, none⟩) :
    ({ w with connections := w.connections ++ [y] } : System).permits =
      w.permits ++ [some ⟨true, none⟩] := by
  rw [permits, List.map_append, List.map_singleton, hy]
  rfl

/-! ## Events -/

/-- The three kinds of steps that are events. -/
theorem event?_cases (h : w.event? l = some e) :
    (∃ c, e = .use c ∧ l.used? = some c) ∨ (∃ c, e = .close c ∧ l = .call (.close c)) ∨
    ∃ c id, e = .set c id ∧ l = .operate (.setClientId c id) ∧ (w.setClientId c id).1 = .unit := by
  unfold event? at h
  split at h
  · cases h
    exact .inr (.inl ⟨_, rfl, rfl⟩)
  · split at h
    next hset =>
      cases h
      exact .inr (.inr ⟨_, _, rfl, rfl, hset⟩)
    next => cases h
  · obtain ⟨c, hc, rfl⟩ := Option.map_eq_some_iff.1 h
    exact .inl ⟨c, rfl, hc⟩

/-- A step that uses a connection is possible only if the program holds it. -/
theorem lt_of_used (hs : w.step? l = some v) (hl : l.used? = some c) :
    c < w.connections.length := by
  refine lt_of_holdsConnection ?_
  cases l with
  | call y =>
    obtain ⟨hy, _⟩ := step_call hs
    cases y with
    | createSession d transacted mode via =>
      obtain rfl : d = c := Option.some.inj hl
      exact hy
    | _ => cases hl
  | operate o =>
    obtain ⟨ho, _⟩ := step_operate hs
    cases o with
    | metadata d | exceptionListener d | setExceptionListener d _ | start d | stop d =>
      obtain rfl : d = c := Option.some.inj hl
      exact ho
    | _ => cases hl
  | _ => cases hl

/-- An event changes the permit of its connection. -/
theorem permits_event (hs : w.step? l = some v) (h : w.event? l = some e) :
    e.connection < w.connections.length ∧
      v.permits = w.permits.modify e.connection e.revise := by
  rcases event?_cases h with ⟨c, rfl, hl⟩ | ⟨c, rfl, rfl⟩ | ⟨c, id, rfl, rfl, hset⟩
  · exact ⟨lt_of_used hs hl, permits_use hs hl⟩
  · obtain ⟨hy, rfl⟩ := step_call hs
    exact ⟨lt_of_holdsConnection hy, permits_closeConnection (w.enlist _) _ c⟩
  · obtain ⟨ho, rfl⟩ := step_operate hs
    rcases permits_setClientId w c id with ⟨_, hp⟩ | ⟨hn, _⟩
    · exact ⟨lt_of_holdsConnection ho, hp⟩
    · exact absurd hset hn

/-- Any other step changes no permit; a new connection has one that is as good as new. -/
theorem permits_other (hs : w.step? l = some v) (h : w.event? l = none) :
    v.permits = w.permits ∨ v.permits = w.permits ++ [some ⟨true, none⟩] := by
  by_cases hl : l.isUpkeep = true
  · exact .inl (sameTo_step aloof_permit hs hl).connections
  · cases l with
    | operate o =>
      obtain ⟨_, rfl⟩ := step_operate hs
      cases o with
      | createRegistry => exact .inl rfl
      | connect r timeout plan => exact .inr (permits_connect rfl)
      | connectFrom f plan => exact .inr (permits_connect (w := w.log _) rfl)
      | dropConnection c => exact .inl (map_modify_eq (by intro _; rfl) w.connections c)
      | setClientId c id =>
        rcases permits_setClientId w c id with ⟨hset, _⟩ | ⟨_, hp⟩
        · rw [event?, if_pos hset] at h
          cases h
        · exact .inl hp
      | claimIdentifier r id => exact .inl rfl
      | releaseIdentifier r id => exact .inl rfl
      | _ => simp_all [event?, Label.used?, Label.isUpkeep, Operation.isUpkeep]
    | call y =>
      cases y with
      | createSession c transacted mode via => cases h
      | close c => cases h
      | _ => exact absurd rfl hl
    | _ => exact absurd rfl hl

/-! ## What the permits tell of a run -/

theorem Run.events_snoc (h : Run {} ls w) (l : Label) :
    events (ls ++ [l]) = events ls ++ (w.event? l).toList :=
  h.filterMap_snoc (fun x => x.1.event? x.2) l

/-- Events are of connections that are there. -/
theorem lt_of_mem_events (h : Run {} ls w) (he : e ∈ events ls) :
    e.connection < w.connections.length := by
  have hlength : ∀ w : System, w.permits.length = w.connections.length := fun w =>
    List.length_map _
  induction h with
  | refl => cases he
  | @step ls w l v h hs ih =>
    rw [h.events_snoc, List.mem_append, Option.mem_toList] at he
    have hle : w.connections.length ≤ v.connections.length := by
      rw [← hlength, ← hlength]
      cases hev : w.event? l with
      | some f => simp [(permits_event hs hev).2]
      | none => rcases permits_other hs hev with hp | hp <;> simp [hp]
    rcases he with he | he
    · exact Nat.lt_of_lt_of_le (ih he) hle
    · exact Nat.lt_of_lt_of_le (permits_event hs he).1 hle

/-- A permit tells what was done with its connection. -/
structure Told (es : List Event) (c : ConnectionId) (p : Permit) : Prop where
  lasts : p.lasts = true ↔ .use c ∉ es
  unset : p.clientId = none ↔ ∀ id, .set c id ∉ es

/-- Nothing was done with a connection that has just been set up. -/
theorem told_new {es : List Event} (h : ∀ e ∈ es, e.connection ≠ c) : Told es c ⟨true, none⟩ :=
  ⟨iff_of_true rfl fun hm => h _ hm rfl, iff_of_true rfl fun _ hm => h _ hm rfl⟩

/-- An event changes the permit of its own connection as it says, and leaves the others. -/
theorem Told.snoc {es : List Event} {p : Permit} (h : Told es c p) {q : Permit}
    (hq : some q = if e.connection = c then e.revise (some p) else some p) :
    Told (es ++ [e]) c q := by
  by_cases hc : e.connection = c
  · rw [if_pos hc] at hq
    cases e with
    | use d =>
      obtain rfl := Option.some.inj hq
      obtain rfl : d = c := hc
      exact ⟨by simp, by simpa using h.unset⟩
    | set d id =>
      obtain rfl := Option.some.inj hq
      obtain rfl : d = c := hc
      exact ⟨by simpa using h.lasts, iff_of_false (by simp) fun hno => hno id (by simp)⟩
    | close d => cases hq
  · rw [if_neg hc] at hq
    obtain rfl := Option.some.inj hq
    have hother : ∀ f, f.connection = c → f ≠ e := fun f hf hfe => hc (hfe ▸ hf)
    refine ⟨?_, ?_⟩
    · simpa [hother (.use c) rfl] using h.lasts
    · simpa [hother (.set c _) rfl] using h.unset

/-- In every state the permits tell what was done in the run. -/
theorem told_of_run (h : Run {} ls w) {p : Permit} (hp : w.permits[c]? = some (some p)) :
    Told (events ls) c p := by
  induction h generalizing p with
  | refl => cases hp
  | @step ls w l v h hs ih =>
    rw [h.events_snoc l]
    cases he : w.event? l with
    | some e =>
      rw [(permits_event hs he).2] at hp
      obtain ⟨r, hr, hq⟩ := modify_eq_some.1 hp
      cases r with
      | some r => exact (ih hr).snoc hq
      | none =>
        -- A permit that is gone does not come back.
        cases e <;> simp [Event.revise] at hq
    | none =>
      rw [Option.toList_none, List.append_nil]
      rcases permits_other hs he with hv | hv <;> rw [hv] at hp
      · exact ih hp
      · rcases snoc_eq_some.1 hp with hp | ⟨rfl, hnew⟩
        · exact ih hp
        · obtain rfl := Option.some.inj hnew
          refine told_new fun f hf => ?_
          have hlt := lt_of_mem_events h hf
          rw [permits, List.length_map]
          exact Nat.ne_of_lt hlt

/-! ## The answer -/

/-- What must hold of a connection itself for its identifier to be set: nothing else was done with
it, it is not closed, and it has not been given an identifier. -/
structure Settable (ls : List Label) (w : System) (c : ConnectionId) : Prop where
  unused : .use c ∉ events ls
  live : (w.connection c).life ≠ .closed
  unset : ∀ id, .set c id ∉ events ls

/-- A connection that is not closed has a permit. -/
theorem permit_of_live (h : (w.connection c).life ≠ .closed) : (w.connection c).permit =
    some ⟨(w.connection c).identifierOpen, (w.connection c).clientId⟩ := by
  rw [Connection.permit, if_neg (by simpa [Lifecycle.isClosed] using h)]

/-- That a connection is as good as new is seen from its permit. -/
theorem settable_iff (h : Run {} ls w) (hc : c < w.connections.length) :
    Settable ls w c ↔ (w.connection c).permit = some ⟨true, none⟩ := by
  by_cases hlive : (w.connection c).life = .closed
  · refine iff_of_false (fun hs => hs.live hlive) fun hp => ?_
    rw [Connection.permit, if_pos (by simp [hlive, Lifecycle.isClosed])] at hp
    cases hp
  · have hp := permits_connection hc
    rw [permit_of_live hlive] at hp
    have htold := told_of_run h hp
    rw [permit_of_live hlive, Option.some.injEq, Permit.mk.injEq, htold.lasts, htold.unset]
    exact ⟨fun hs => ⟨hs.unused, hs.unset⟩, fun hs => ⟨hs.1, hlive, hs.2⟩⟩

/-- Only a connection with a permit as good as new gets as far as the registry. -/
theorem setClientId_answer (w : System) (c : ConnectionId) (id : String) :
    ((w.connection c).permit = some ⟨true, none⟩ ∧ (w.setClientId c id).1 =
      if id ∈ (w.registry (w.connection c).registry).held then .failed (.duplicateIdentifier id)
      else .unit) ∨
    ((w.connection c).permit ≠ some ⟨true, none⟩ ∧
      ∃ cause, (w.setClientId c id).1 = .failed (.illegalState cause)) := by
  have hc : (w.log (.setClientId id)).connection c = w.connection c := rfl
  have hr : ∀ r, (w.log (.setClientId id)).registry r = w.registry r := fun _ => rfl
  cases hopen : (w.connection c).identifierOpen with
  | false =>
    -- Closed window, closed connection, identifier set: in this order the call looks at them.
    refine .inr ⟨?_, .identifierTooLate, by simp [setClientId, hc, hopen]⟩
    cases hclosed : (w.connection c).life.isClosed <;> simp [Connection.permit, hopen, hclosed]
  | true =>
    cases hclosed : (w.connection c).life.isClosed with
    | true =>
      exact .inr ⟨by simp [Connection.permit, hclosed], .closed .connection,
        by simp [setClientId, hc, hopen, hclosed, Error.closed]⟩
    | false =>
      cases hid : (w.connection c).clientId with
      | some other =>
        exact .inr ⟨by simp [Connection.permit, hclosed, hid], .identifierSet,
          by simp [setClientId, hc, hopen, hclosed, hid]⟩
      | none =>
        refine .inl ⟨by simp [Connection.permit, hopen, hclosed, hid], ?_⟩
        simp only [setClientId, hc, hr, hopen, hclosed, hid, Identifiers.contains,
          List.contains_iff_mem, Bool.not_true, Bool.false_eq_true, if_false, Option.isSome_none]
        split <;> rfl

/-- The state does not allow it just if the permit is not as good as new. -/
theorem setClientId_illegal_iff {id : String} :
    (∃ cause, (w.setClientId c id).1 = .failed (.illegalState cause)) ↔
      (w.connection c).permit ≠ some ⟨true, none⟩ := by
  rcases setClientId_answer w c id with ⟨hp, ha⟩ | ⟨hp, ha⟩
  · refine iff_of_false ?_ fun hn => hn hp
    rintro ⟨cause, hcause⟩
    rw [ha] at hcause
    split at hcause <;> simp at hcause
  · exact iff_of_true ha hp

/-- Steps that are no event of a connection leave its permit as it is. -/
theorem permit_step (hs : w.step? l = some v) (hc : c < w.connections.length)
    (hne : ∀ e, w.event? l = some e → e.connection ≠ c) :
    (v.connection c).permit = (w.connection c).permit := by
  refine (lt_of_permits ?_).2
  cases he : w.event? l with
  | some e =>
    rw [(permits_event hs he).2, List.getElem?_modify_ne _ _ (hne e he)]
    exact permits_connection hc
  | none =>
    rcases permits_other hs he with hv | hv <;> rw [hv]
    · exact permits_connection hc
    · exact snoc_eq_some.2 (.inl (permits_connection hc))

theorem live_iff_permit : (w.connection c).life ≠ .closed ↔ (w.connection c).permit ≠ none := by
  unfold Connection.permit
  cases (w.connection c).life <;> simp [Lifecycle.isClosed]

/-- An identifier is held by a connection that is open and shares the registry. -/
theorem mem_held_iff {r : RegistryId} (h : w.roll.Sound r) {id : String} :
    id ∈ (w.registry r).held ↔ ∃ d < w.connections.length, (w.connection d).registry = r ∧
      (w.connection d).life ≠ .closed ∧ (w.connection d).clientId = some id := by
  refine (h.held id).trans ⟨?_, ?_⟩
  · rintro ⟨d, m, hm, hr, hid⟩
    have hd : d < w.connections.length := by
      simpa [roll] using (List.getElem?_eq_some_iff.1 hm).1
    obtain rfl : (w.connection d).member = m :=
      Option.some.inj ((roll_connection hd).symm.trans hm)
    refine ⟨d, hd, hr, fun hclosed => ?_, hid⟩
    have hnone := h.closed _ (List.mem_of_getElem? hm)
      (by simp [Connection.member, Lifecycle.isClosed, hclosed])
    rw [hnone] at hid
    cases hid
  · rintro ⟨d, hd, hr, _, hid⟩
    exact ⟨d, _, roll_connection hd, hr, hid⟩

/-- Another connection that is not closed and shares the registry has the identifier. -/
def HeldElsewhere (w : System) (c : ConnectionId) (id : String) : Prop :=
  ∃ d < w.connections.length, d ≠ c ∧ (w.connection d).registry = (w.connection c).registry ∧
    (w.connection d).life ≠ .closed ∧ (w.connection d).clientId = some id

/-- An identifier that is held is held by another connection, since this one has none yet. -/
theorem mem_held_iff_elsewhere (h : w.roll.Sound (w.connection c).registry)
    (hp : (w.connection c).permit = some ⟨true, none⟩) (id : String) :
    id ∈ (w.registry (w.connection c).registry).held ↔ HeldElsewhere w c id := by
  rw [mem_held_iff h]
  constructor
  · rintro ⟨d, hd, hr, hlive, hid⟩
    refine ⟨d, hd, fun hdc => ?_, hr, hlive, hid⟩
    -- The connection itself has none.
    rw [← hdc, permit_of_live hlive, hid] at hp
    simp at hp
  · rintro ⟨d, hd, _, hr, hlive, hid⟩
    exact ⟨d, hd, hr, hlive, hid⟩

/-- The three answers, each with the condition under which it is given. -/
theorem answer_of_run (h : Run {} ls w) (hc : c < w.connections.length)
    (hl : ∀ l ∈ ls, l.spares (w.connection c).registry = true) (id : String) :
    (Settable ls w c ∧ ¬HeldElsewhere w c id ∧ (w.setClientId c id).1 = .unit) ∨
    (Settable ls w c ∧ HeldElsewhere w c id ∧
      (w.setClientId c id).1 = .failed (.duplicateIdentifier id)) ∨
    (¬Settable ls w c ∧ ∃ cause, (w.setClientId c id).1 = .failed (.illegalState cause)) := by
  rw [settable_iff h hc]
  rcases setClientId_answer w c id with ⟨hp, ha⟩ | ⟨hp, ha⟩
  · have hheld := mem_held_iff_elsewhere (roll_of_run h hl) hp id
    by_cases he : HeldElsewhere w c id
    · exact .inr (.inl ⟨hp, he, ha.trans (if_pos (hheld.2 he))⟩)
    · exact .inl ⟨hp, he, ha.trans (if_neg fun hm => he (hheld.1 hm))⟩
  · exact .inr (.inr ⟨hp, ha⟩)

/-- The answer to an attempt to set an identifier, in every run of connections whose registry is
changed by nothing but setting identifiers and closing connections. The identifier is set if and
only if nothing else was done with the connection before, whatever came of it, the connection is not
closed, it has not been given an identifier, and no other open connection has this one. If only the
last is wrong the identifier is a duplicate, and otherwise the state is illegal. No step but using,
closing or naming the connection itself changes any of what must hold of the connection, nor, by
that, whether the answer is that the state is illegal. -/
theorem setting_is_answered (h : Run {} ls w) (hc : c < w.connections.length)
    (hl : ∀ l ∈ ls, l.spares (w.connection c).registry = true) (id : String) :
    ((w.operate (.setClientId c id)).1 = .unit ↔
      Settable ls w c ∧ ¬HeldElsewhere w c id) ∧
    ((w.operate (.setClientId c id)).1 = .failed (.duplicateIdentifier id) ↔
      Settable ls w c ∧ HeldElsewhere w c id) ∧
    ((∃ cause, (w.operate (.setClientId c id)).1 = .failed (.illegalState cause)) ↔
      ¬Settable ls w c) ∧
    ∀ l v, w.step? l = some v → (∀ e, w.event? l = some e → e.connection ≠ c) →
      (.use c ∉ events (ls ++ [l]) ↔ .use c ∉ events ls) ∧
      ((v.connection c).life ≠ .closed ↔ (w.connection c).life ≠ .closed) ∧
      ((∀ id, .set c id ∉ events (ls ++ [l])) ↔ ∀ id, .set c id ∉ events ls) ∧
      ∀ id, (∃ cause, (v.operate (.setClientId c id)).1 = .failed (.illegalState cause)) ↔
        ∃ cause, (w.operate (.setClientId c id)).1 = .failed (.illegalState cause) := by
  have hanswer := answer_of_run h hc hl id
  -- The answer is a case distinction on the permit, and the history tells what the permit is.
  refine ⟨?set, ?duplicate, ?illegal, fun l v hs hne => ?others⟩
  case set =>
    rw [operate]
    rcases hanswer with ⟨hp, he, ha⟩ | ⟨hp, he, ha⟩ | ⟨hp, cause, ha⟩ <;> simp [*]
  case duplicate =>
    rw [operate]
    rcases hanswer with ⟨hp, he, ha⟩ | ⟨hp, he, ha⟩ | ⟨hp, cause, ha⟩ <;> simp [*]
  case illegal =>
    rw [operate]
    rcases hanswer with ⟨hp, he, ha⟩ | ⟨hp, he, ha⟩ | ⟨hp, cause, ha⟩ <;> simp [*]
  case others =>
    have hpermit := permit_step hs hc hne
    have hevents : ∀ e : Event, e.connection = c → (e ∉ events (ls ++ [l]) ↔ e ∉ events ls) := by
      intro e hec
      rw [h.events_snoc, List.mem_append, Option.mem_toList, not_or]
      exact and_iff_left fun he => hne e he hec
    refine ⟨hevents (.use c) rfl, ?_, forall_congr' fun id => hevents (.set c id) rfl, fun id => ?_⟩
    · rw [live_iff_permit, live_iff_permit, hpermit]
    · exact (setClientId_illegal_iff.trans (by rw [hpermit])).trans setClientId_illegal_iff.symm

/-- The first connection has an identifier. The second one asked for its own and wanted that of the
first one; the third one was refused a session. -/
def threeApplicants : List Label :=
  [.operate .createRegistry, .operate (.connect 0 (.ofMillis 15000) {}),
    .operate (.connect 0 (.ofMillis 15000) {}), .operate (.connect 0 (.ofMillis 15000) {}),
    .operate (.setClientId 0 "app"), .operate (.clientId 1), .operate (.setClientId 1 "app"),
    .operate (.refuse 2 true), .call (.createSession 2 false .auto none), .run (.call 0)]

theorem threeApplicants_isSome : (after? {} threeApplicants).isSome = true := by decide

def threeApplicantsEnd : System := (after? {} threeApplicants).get threeApplicants_isSome

theorem threeApplicantsEnd_answers :
    (∀ l ∈ threeApplicants, l.spares 0 = true) ∧
    ((threeApplicantsEnd.operate (.setClientId 1 "other")).1 = .unit ∧
      Settable threeApplicants threeApplicantsEnd 1 ∧
      ¬HeldElsewhere threeApplicantsEnd 1 "other") ∧
    ((threeApplicantsEnd.operate (.setClientId 1 "app")).1 = .failed (.duplicateIdentifier "app") ∧
      HeldElsewhere threeApplicantsEnd 1 "app") ∧
    ((threeApplicantsEnd.operate (.setClientId 2 "other")).1 =
        .failed (.illegalState .identifierTooLate) ∧
      ¬Settable threeApplicants threeApplicantsEnd 2) := by
  have hrun : Run {} threeApplicants threeApplicantsEnd := .of_isSome threeApplicants_isSome
  have hsecond := setting_is_answered (c := 1) hrun (by decide) (by decide)
  have hthird := setting_is_answered (c := 2) hrun (by decide) (by decide)
  have hset : (threeApplicantsEnd.operate (.setClientId 1 "other")).1 = .unit := by decide
  have hdup : (threeApplicantsEnd.operate (.setClientId 1 "app")).1 =
      .failed (.duplicateIdentifier "app") := by decide
  have hlate : (threeApplicantsEnd.operate (.setClientId 2 "other")).1 =
      .failed (.illegalState .identifierTooLate) := by decide
  exact ⟨by decide, ⟨hset, (hsecond "other").1.1 hset⟩, ⟨hdup, ((hsecond "app").2.1.1 hdup).2⟩,
    ⟨hlate, (hthird "other").2.2.1.1 ⟨_, hlate⟩⟩⟩

end System

end BrokerClient
