import BrokerClient.Proofs.Bookkeeping
import BrokerClient.Proofs.Upkeep

/-!
# The identifiers of connections

Connections that share a registry take their client identifiers from it. `Roll` keeps of a client
the registries, and of each connection its registry, its identifier and whether it is closed. Only
setting an identifier and closing a connection change more of it than to add to it, and both change
the registry and the connection in one stretch (`Roll.Move`).

So as long as nobody else works on a registry, what it holds are the identifiers of the connections
that share it and are not closed, and no two of them have the same one (`Roll.Sound`,
`System.identifiers_in_step`).
-/

namespace BrokerClient

/-- What of a connection concerns its identifier. -/
structure Member where
  registry : RegistryId
  closed : Bool
  clientId : Option String

namespace Member

/-- A connection that was given an identifier. -/
def named (id : String) (m : Member) : Member := { m with clientId := some id }

/-- A connection that is closed has no identifier. -/
def leave (m : Member) : Member := { m with closed := true, clientId := none }

end Member

/-- What a connection shows of itself on the roll. -/
def Connection.member (x : Connection) : Member := ⟨x.registry, x.life.isClosed, x.clientId⟩

namespace Identifiers

/-- The identifiers but that of a connection that is closed. -/
def without (r : Identifiers) : Option String → Identifiers
  | none => r
  | some id => (r.release id).2

variable {r : Identifiers} {id other : String}

/-- An identifier that nobody holds is held by whoever asks for it first. -/
theorem held_claim (h : id ∉ r.held) : (r.claim id).2.held = id :: r.held := by
  have hc : ¬ r.contains id = true := by simpa [contains] using h
  rw [claim, dif_neg hc]

/-- An identifier is held once, so giving it back leaves nobody holding it. -/
theorem mem_without (r : Identifiers) (x : Option String) :
    other ∈ (r.without x).held ↔ other ∈ r.held ∧ x ≠ some other := by
  cases x with
  | none => simp [without]
  | some id =>
    show other ∈ r.held.erase id ↔ _
    rw [r.nodup.mem_erase_iff, and_comm, Ne, Ne, Option.some.injEq, eq_comm]

end Identifiers

/-- The registries, and the connections in the order of their creation. -/
structure Roll where
  registries : List Identifiers
  members : List Member

namespace Roll

/-- The identifiers of a registry; one that is not there holds none. -/
def registry (p : Roll) (r : RegistryId) : Identifiers := p.registries[r]?.getD default

/-- A connection has an identifier of a registry. -/
def Has (p : Roll) (c : ConnectionId) (r : RegistryId) (id : String) : Prop :=
  ∃ m, p.members[c]? = some m ∧ m.registry = r ∧ m.clientId = some id

end Roll

/-- Whether a step leaves a registry to the connections that share it. -/
def Label.spares (r : RegistryId) : Label → Bool
  | .operate (.claimIdentifier other _) => other ≠ r
  | .operate (.releaseIdentifier other _) => other ≠ r
  | _ => true

namespace Roll

/-- What can happen to the identifiers in a step. -/
inductive Move (l : Label) (p : Roll) : Roll → Prop where
  | register : Move l p { p with registries := p.registries ++ [{}] }
  | join {r} (hr : r < p.registries.length) :
    Move l p { p with members := p.members ++ [⟨r, false, none⟩] }
  /-- A connection takes an identifier that its registry does not hold. -/
  | claim {c m id} (hm : p.members[c]? = some m) (hopen : m.closed = false)
    (hid : m.clientId = none) (hfree : id ∉ (p.registry m.registry).held) :
    Move l p {
      registries := p.registries.modify m.registry fun x => (x.claim id).2
      members := p.members.modify c (Member.named id) }
  /-- A connection is closed, and gives its identifier back. -/
  | leave {c m} (hm : p.members[c]? = some m) (hopen : m.closed = false) :
    Move l p {
      registries := p.registries.modify m.registry (·.without m.clientId)
      members := p.members.modify c Member.leave }
  /-- Somebody works on a registry directly. -/
  | meddle {r f} (hl : l.spares r = false) :
    Move l p { p with registries := p.registries.modify r f }

/-- What holds of a registry that is left to the connections that share it. -/
structure Sound (r : RegistryId) (p : Roll) : Prop where
  enrolled : ∀ m ∈ p.members, m.registry < p.registries.length
  closed : ∀ m ∈ p.members, m.closed = true → m.clientId = none
  held : ∀ id, id ∈ (p.registry r).held ↔ ∃ c, p.Has c r id
  unique : ∀ {c d id}, p.Has c r id → p.Has d r id → c = d

/-! ## What moves keep -/

variable {p q : Roll} {r t : RegistryId} {c d : ConnectionId} {m n : Member} {id : String}
  {l : Label}

theorem registry_modify_self (h : r < p.registries.length) (f : Identifiers → Identifiers)
    (ms : List Member) : (⟨p.registries.modify r f, ms⟩ : Roll).registry r = f (p.registry r) := by
  rw [registry, registry, List.getElem?_modify_eq, List.getElem?_eq_getElem h]
  rfl

theorem registry_modify_ne (h : t ≠ r) (f : Identifiers → Identifiers) (ms : List Member) :
    (⟨p.registries.modify t f, ms⟩ : Roll).registry r = p.registry r := by
  rw [registry, registry, List.getElem?_modify_ne _ _ h]

/-- A registry that is not there yet is as good as an empty one. -/
theorem registry_snoc (p : Roll) (ms : List Member) (r : RegistryId) :
    ({ registries := p.registries ++ [{}], members := ms } : Roll).registry r = p.registry r := by
  show (p.registries ++ [({} : Identifiers)])[r]?.getD default = p.registries[r]?.getD default
  rw [List.getElem?_append]
  split
  · rfl
  next h =>
    rw [List.getElem?_eq_none (Nat.le_of_not_lt h)]
    cases r - p.registries.length <;> rfl

/-- A member after a change at one place was one before, or is the one that was changed. -/
theorem mem_modify {f : Member → Member} {ms : List Member} {k : Member}
    (h : k ∈ ms.modify c f) : k ∈ ms ∨ ∃ m, ms[c]? = some m ∧ k = f m := by
  obtain ⟨d, hd⟩ := List.mem_iff_getElem?.1 h
  obtain ⟨m, hm, rfl⟩ := modify_eq_some.1 hd
  by_cases hcd : c = d
  · subst hcd
    exact .inr ⟨m, hm, by rw [if_pos rfl]⟩
  · rw [if_neg hcd]
    exact .inl (List.mem_of_getElem? hm)

theorem has_modify_ne {f : Member → Member} (h : c ≠ d) (rs : List Identifiers) :
    (⟨rs, p.members.modify c f⟩ : Roll).Has d r id ↔ p.Has d r id := by
  show (∃ n, (p.members.modify c f)[d]? = some n ∧ _) ↔ ∃ n, p.members[d]? = some n ∧ _
  rw [List.getElem?_modify_ne _ _ h]

/-- A connection that changes has what the change gives it. -/
theorem has_modify_self {f : Member → Member} (hm : p.members[c]? = some m)
    (rs : List Identifiers) : (⟨rs, p.members.modify c f⟩ : Roll).Has c r id ↔
      (f m).registry = r ∧ (f m).clientId = some id := by
  show (∃ n, (p.members.modify c f)[c]? = some n ∧ _) ↔ _
  rw [List.getElem?_modify_eq, hm]
  simp

/-- Connections stay with registries that are there, as no connection goes over to another one. -/
theorem Sound.enrolled_modify (h : p.Sound r) (f : Member → Member)
    (hf : ∀ m, (f m).registry = m.registry) (c : ConnectionId) (t : RegistryId)
    (g : Identifiers → Identifiers) :
    ∀ n ∈ p.members.modify c f, n.registry < (p.registries.modify t g).length := by
  intro n hn
  rw [List.length_modify]
  rcases mem_modify hn with hn | ⟨k, hk, rfl⟩
  · exact h.enrolled n hn
  · rw [hf]
    exact h.enrolled k (List.mem_of_getElem? hk)

/-- A further registry is empty and nobody shares it. -/
theorem Sound.register (h : p.Sound r) :
    Sound r { p with registries := p.registries ++ [{}] } := by
  have hreg := registry_snoc p p.members r
  refine ⟨fun m hm => ?_, h.closed, fun id => ?_, h.unique⟩
  · rw [List.length_append]
    exact Nat.lt_add_right _ (h.enrolled m hm)
  · rw [hreg]
    exact h.held id

/-- A further connection has no identifier to begin with. -/
theorem Sound.join (h : p.Sound r) (ht : t < p.registries.length) :
    Sound r { p with members := p.members ++ [⟨t, false, none⟩] } := by
  -- The new connection has no identifier.
  have hhas : ∀ d id, Has { p with members := p.members ++ [⟨t, false, none⟩] } d r id ↔
      p.Has d r id := by
    intro d id
    constructor
    · rintro ⟨m, hm, hr, hid⟩
      rcases snoc_eq_some.1 hm with hm | ⟨_, rfl⟩
      · exact ⟨m, hm, hr, hid⟩
      · cases hid
    · rintro ⟨m, hm, hr, hid⟩
      exact ⟨m, snoc_eq_some.2 (.inl hm), hr, hid⟩
  refine ⟨List.forall_mem_append.2 ⟨h.enrolled, List.forall_mem_singleton.2 ht⟩,
    List.forall_mem_append.2 ⟨h.closed, List.forall_mem_singleton.2 fun _ => rfl⟩,
    fun id => ?_, fun hc hd => ?_⟩
  · simp only [hhas]
    exact h.held id
  · exact h.unique ((hhas _ _).1 hc) ((hhas _ _).1 hd)

/-- A connection without an identifier takes one that its registry does not hold. Then the registry
holds it, and no other connection has it. -/
theorem Sound.claim (h : p.Sound r) (hm : p.members[c]? = some m) (hid : m.clientId = none)
    (hopen : m.closed = false) (hfree : id ∉ (p.registry m.registry).held) : Sound r {
      registries := p.registries.modify m.registry fun x => (x.claim id).2
      members := p.members.modify c (Member.named id) } := by
  have henrolled := h.enrolled m (List.mem_of_getElem? hm)
  -- One connection has one identifier more.
  have hhas : ∀ d other, Has {
      registries := p.registries.modify m.registry fun x => (x.claim id).2
      members := p.members.modify c (Member.named id) } d r other ↔
      p.Has d r other ∨ (d = c ∧ m.registry = r ∧ id = other) := by
    intro d other
    by_cases hcd : c = d
    · subst hcd
      have hnone : ¬ p.Has c r other := by
        rintro ⟨n, hn, _, hnid⟩
        rw [hm] at hn
        cases hn
        rw [hid] at hnid
        cases hnid
      rw [has_modify_self hm]
      simp [hnone, Member.named]
    · rw [has_modify_ne hcd]
      simp [Ne.symm hcd]
  have hlost : ∀ {d}, m.registry = r → ¬ p.Has d r id := by
    rintro d rfl hd
    exact hfree ((h.held id).2 ⟨d, hd⟩)
  refine ⟨h.enrolled_modify (Member.named id) (fun _ => rfl) c _ _, fun n hn hc => ?closed,
    fun other => ?held, fun {d e other} hd he => ?unique⟩
  case closed =>
    rcases mem_modify hn with hn | ⟨k, hk, rfl⟩
    · exact h.closed n hn hc
    · rw [hm] at hk
      cases hk
      rw [Member.named, hopen] at hc
      cases hc
  case held =>
    simp only [hhas, exists_or, ← h.held]
    by_cases hr : m.registry = r
    · subst hr
      rw [registry_modify_self henrolled, Identifiers.held_claim hfree, List.mem_cons]
      simp [or_comm, eq_comm]
    · rw [registry_modify_ne hr]
      simp [hr]
  case unique =>
    rcases (hhas d other).1 hd with hd | ⟨hdc, hr, hdo⟩ <;>
      rcases (hhas e other).1 he with he | ⟨hec, hr, heo⟩
    · exact h.unique hd he
    · exact absurd (heo ▸ hd) (hlost hr)
    · exact absurd (hdo ▸ he) (hlost hr)
    · exact hdc.trans hec.symm

/-- A connection that is closed gives its identifier back, and nobody else had it. -/
theorem Sound.leave (h : p.Sound r) (hm : p.members[c]? = some m) : Sound r {
    registries := p.registries.modify m.registry (·.without m.clientId)
    members := p.members.modify c Member.leave } := by
  have henrolled := h.enrolled m (List.mem_of_getElem? hm)
  have hhas : ∀ d other, Has {
      registries := p.registries.modify m.registry (·.without m.clientId)
      members := p.members.modify c Member.leave } d r other ↔ p.Has d r other ∧ d ≠ c := by
    intro d other
    by_cases hcd : c = d
    · subst hcd
      rw [has_modify_self hm]
      simp [Member.leave]
    · rw [has_modify_ne hcd]
      simp [Ne.symm hcd]
  refine ⟨h.enrolled_modify Member.leave (fun _ => rfl) c _ _, fun n hn hc => ?closed,
    fun other => ?held, fun hd he => h.unique ((hhas _ _).1 hd).1 ((hhas _ _).1 he).1⟩
  case closed =>
    rcases mem_modify hn with hn | ⟨k, _, rfl⟩
    · exact h.closed n hn hc
    · rfl
  case held =>
    simp only [hhas]
    -- Who has the identifier of the one that leaves is that one.
    have hself : ∀ d, p.Has d r other → (d ≠ c ↔ ¬(m.registry = r ∧ m.clientId = some other)) := by
      intro d hd
      constructor
      · rintro hdc ⟨hr, hmid⟩
        exact hdc (h.unique hd ⟨m, hm, hr, hmid⟩)
      · rintro hno rfl
        obtain ⟨n, hn, hr, hnid⟩ := hd
        rw [hm] at hn
        cases hn
        exact hno ⟨hr, hnid⟩
    have hexists : (∃ d, p.Has d r other ∧ d ≠ c) ↔
        other ∈ (p.registry r).held ∧ ¬(m.registry = r ∧ m.clientId = some other) := by
      rw [h.held]
      constructor
      · rintro ⟨d, hd, hdc⟩
        exact ⟨⟨d, hd⟩, (hself d hd).1 hdc⟩
      · rintro ⟨⟨d, hd⟩, hno⟩
        exact ⟨d, hd, (hself d hd).2 hno⟩
    rw [hexists]
    by_cases hr : m.registry = r
    · subst hr
      rw [registry_modify_self henrolled, Identifiers.mem_without]
      simp
    · rw [registry_modify_ne hr]
      simp [hr]

/-- Every move keeps it, unless somebody works on this registry directly. -/
theorem Sound.move (h : p.Sound r) (hl : l.spares r = true) (hm : Move l p q) : q.Sound r := by
  cases hm with
  | register => exact h.register
  | join ht => exact h.join ht
  | claim hm hopen hid hfree => exact h.claim hm hid hopen hfree
  | leave hm _ => exact h.leave hm
  | @meddle t f ht =>
    have hne : t ≠ r := by
      rintro rfl
      rw [hl] at ht
      cases ht
    have hreg := registry_modify_ne (p := p) hne f p.members
    refine ⟨fun m hm => ?_, h.closed, fun id => ?_, h.unique⟩
    · rw [List.length_modify]
      exact h.enrolled m hm
    · rw [hreg]
      exact h.held id

/-- A connection that is closed stays so, and one that has an identifier keeps it until then. -/
theorem Move.keeps (hm : Move l p q) (h : p.members[c]? = some m)
    (hid : m.closed = true ∨ m.clientId = some id) :
    ∃ n, q.members[c]? = some n ∧ (n.closed = true ∨ n.clientId = some id) := by
  have hmodify : ∀ {d f}, (∀ k, p.members[d]? = some k →
      (k.closed = true ∨ k.clientId = some id) →
      ((f k).closed = true ∨ (f k).clientId = some id)) →
      ∃ n, (p.members.modify d f)[c]? = some n ∧ (n.closed = true ∨ n.clientId = some id) := by
    intro d f hf
    refine ⟨if d = c then f m else m, modify_eq_some.2 ⟨m, h, rfl⟩, ?_⟩
    split
    next hdc => exact hf m (hdc ▸ h) hid
    next => exact hid
  cases hm with
  | register => exact ⟨m, h, hid⟩
  | join => exact ⟨m, snoc_eq_some.2 (.inl h), hid⟩
  | @claim d k other hk hopen hnone hfree =>
    refine hmodify fun n hn hor => ?_
    rw [hk] at hn
    cases hn
    rw [hopen, hnone] at hor
    rcases hor with hor | hor <;> cases hor
  | leave _ _ => exact hmodify fun _ _ _ => .inl rfl
  | meddle _ => exact ⟨m, h, hid⟩

end Roll

namespace System

variable {w v u : System} {i : CallId} {c : ConnectionId} {s : SessionId} {r : RegistryId}
  {l : Label} {ls : List Label}

/-- The roll of a client. -/
def roll (w : System) : Roll := ⟨w.registries, w.connections.map Connection.member⟩

theorem roll_connection (hc : c < w.connections.length) :
    w.roll.members[c]? = some (w.connection c).member := by
  simp [roll, connection, List.getElem?_eq_getElem hc]

/-! ## What leaves the roll alone -/

/-- Neither upkeep, nor a listener, nor starting and stopping shows on the roll. -/
theorem aloof_member : Connection.Aloof Connection.member where
  upkeep _ _ _ _ _ _ _ := rfl
  listener _ _ := rfl
  phase x life h := by rw [Connection.member, Connection.member, h]

/-- What leaves registries and members alone leaves the roll alone. -/
theorem SameTo.roll (h : SameTo Connection.member w v) : v.roll = w.roll := by
  rw [System.roll, h.registries, h.connections, System.roll]

/-- Whether an identifier may still be set is not on the roll. -/
theorem roll_closeIdentifierWindow (w : System) (c : ConnectionId) :
    (w.closeIdentifierWindow c).roll = w.roll :=
  (SameTo.modifyConnection (by intro _; rfl) w c).roll

/-- Using a connection for something else does not change the roll. -/
theorem roll_use (hs : w.step? l = some v) (hl : l.used? = some c) : v.roll = w.roll := by
  rcases sameTo_use aloof_member hs hl with h | ⟨_, h⟩
  · exact h.roll.trans (roll_closeIdentifierWindow w c)
  · exact h.roll

/-! ## Setting an identifier -/

/-- An identifier is set, or it is refused and nothing changes. -/
theorem setClientId_effect (w : System) (c : ConnectionId) (id : String) :
    (∃ e, w.setClientId c id = (.failed e, w.log (.setClientId id))) ∨
    ((w.connection c).life.isClosed = false ∧ (w.connection c).clientId = none ∧
      id ∉ (w.registry (w.connection c).registry).held ∧
      w.setClientId c id = (.unit, ((w.log (.setClientId id)).modifyRegistry
        (w.connection c).registry fun r => (r.claim id).2).modifyConnection c
          fun x => { x with clientId := some id })) := by
  have hc : (w.log (.setClientId id)).connection c = w.connection c := rfl
  unfold setClientId
  simp only [hc]
  split
  · exact .inl ⟨_, rfl⟩
  split
  · exact .inl ⟨_, rfl⟩
  next hopen =>
    split
    · exact .inl ⟨_, rfl⟩
    next hnone =>
      split
      · exact .inl ⟨_, rfl⟩
      next hfree =>
        refine .inr ⟨by simpa using hopen, by simpa using hnone, fun hm => hfree ?_, rfl⟩
        show (w.registry (w.connection c).registry).held.contains id = true
        simpa using hm

/-- Setting an identifier is one move, or none if it is refused. -/
theorem roll_setClientId (hc : c < w.connections.length) (id : String) :
    (w.setClientId c id).2.roll = w.roll ∨
      Roll.Move l w.roll (w.setClientId c id).2.roll := by
  rcases setClientId_effect w c id with ⟨e, he⟩ | ⟨hopen, hnone, hfree, he⟩ <;> rw [he]
  · exact .inl rfl
  · have hm := roll_connection hc
    have hmembers : (w.connections.modify c fun x => { x with clientId := some id }).map
        Connection.member = w.roll.members.modify c (Member.named id) :=
      map_modify_of (by intro _; rfl) w.connections c
    right
    have hmove := Roll.Move.claim (l := l) hm hopen hnone hfree
    rw [← hmembers] at hmove
    exact hmove

theorem roll_connect {y : Connection} (hy : y.member = ⟨r, false, none⟩)
    (hr : r < w.registries.length) :
    Roll.Move l w.roll ({ w with connections := w.connections ++ [y] } : System).roll := by
  have hmembers : (w.connections ++ [y]).map Connection.member =
      w.roll.members ++ [⟨r, false, none⟩] := by rw [List.map_append, List.map_singleton, hy]; rfl
  have hmove := Roll.Move.join (l := l) (p := w.roll) hr
  rw [← hmembers] at hmove
  exact hmove

/-! ## Steps -/

/-- A close gives the identifier back in its first stretch, before any session is closed; a further
close does nothing. -/
theorem roll_closeConnection (hc : c < w.connections.length) (i : CallId) :
    (w.closeConnection i c).roll = w.roll ∨
      Roll.Move l w.roll (w.closeConnection i c).roll := by
  have hm := roll_connection hc
  have hmembers : (w.connections.modify c fun x =>
      { x with life := .closed, clientId := none, sessions := [] }).map Connection.member =
      w.roll.members.modify c Member.leave :=
    map_modify_of (by intro _; rfl) w.connections c
  have hw : (w.log .closeConnection).connection c = w.connection c := rfl
  unfold closeConnection
  simp only [hw]
  split
  · exact .inl rfl
  next hopen =>
    right
    have hmove := Roll.Move.leave (l := l) hm (by simpa [Connection.member] using hopen)
    rw [← hmembers] at hmove
    rw [(sameTo_closeSessions aloof_member _ i c none _).roll]
    cases hid : (w.connection c).clientId with
    | none =>
      -- Nothing is given back.
      have hreg : w.registries.modify (w.connection c).registry (·.without none) =
          w.registries := List.modify_id _ _
      rw [Connection.member, hid, roll, hreg] at hmove
      exact hmove
    | some id =>
      rw [Connection.member, hid] at hmove
      exact hmove

/-- Every step is one move of the roll at most. -/
theorem roll_step (hs : w.step? l = some v) : v.roll = w.roll ∨ Roll.Move l w.roll v.roll := by
  -- A use of the identifier and the upkeep of a connection are settled for all labels at once. What
  -- is left are the operations that change the roll.
  cases hu : l.used? with
  | some c => exact .inl (roll_use hs hu)
  | none =>
    by_cases hl : l.isUpkeep = true
    · exact .inl (sameTo_step aloof_member hs hl).roll
    · cases l with
      | operate o =>
        obtain ⟨ho, rfl⟩ := step_operate hs
        cases o with
        | createRegistry => exact .inr .register
        | connect r timeout plan =>
          exact .inr (roll_connect (by rfl) (by simpa [mayOperate, hasRegistry] using ho))
        | connectFrom f plan =>
          exact .inr (roll_connect (w := w.log _) (by rfl)
            (by simpa [mayOperate, hasRegistry] using ho))
        | dropConnection c => exact .inl (SameTo.modifyConnection (by intro _; rfl) w c).roll
        | setClientId c id => exact roll_setClientId (lt_of_holdsConnection ho) id
        | claimIdentifier r id => exact .inr (.meddle (by simp [Label.spares]))
        | releaseIdentifier r id => exact .inr (.meddle (by simp [Label.spares]))
        | _ => simp_all [Label.used?, Label.isUpkeep, Operation.isUpkeep]
      | call y =>
        obtain ⟨hy, rfl⟩ := step_call hs
        cases y with
        | close c =>
          exact roll_closeConnection (w := w.enlist (.close c)) (lt_of_holdsConnection hy) _
        | createSession c transacted mode via => cases hu
        | _ => exact absurd rfl hl
      | _ => exact absurd rfl hl

/-- So a registry is sound in every state if its connections alone work on it. -/
theorem roll_of_run (h : Run {} ls w) (hl : ∀ l ∈ ls, l.spares r = true) : w.roll.Sound r := by
  induction h with
  | refl =>
    have hnobody : ∀ {c id}, ¬ ({} : System).roll.Has c r id := by
      rintro c id ⟨m, hm, _⟩
      cases hm
    refine ⟨?_, ?_, fun id => ⟨?_, ?_⟩, fun hc => absurd hc hnobody⟩
    · intro m hm
      cases hm
    · intro m hm
      cases hm
    · intro hm
      cases hm
    · rintro ⟨c, hc⟩
      exact absurd hc hnobody
  | step _ hs ih =>
    obtain ⟨hls, hlast⟩ := List.forall_mem_append.1 hl
    rcases roll_step hs with he | hm
    · rw [he]
      exact ih hls
    · exact (ih hls).move (hlast _ List.mem_cons_self) hm

/-- A connection that has an identifier keeps it until it is closed. -/
theorem Run.keeps_clientId (h : Run w ls u) {id : String} (hc : c < w.connections.length)
    (hid : (w.connection c).clientId = some id) :
    (u.connection c).clientId = some id ∨ (u.connection c).life = .closed := by
  have hkept : ∃ m, u.roll.members[c]? = some m ∧ (m.closed = true ∨ m.clientId = some id) := by
    induction h with
    | refl => exact ⟨_, roll_connection hc, .inr hid⟩
    | step _ hs ih =>
      obtain ⟨m, hm, hor⟩ := ih
      rcases roll_step hs with he | hmove
      · exact ⟨m, he ▸ hm, hor⟩
      · exact hmove.keeps hm hor
  obtain ⟨m, hm, hor⟩ := hkept
  have hlt : c < u.connections.length := by
    simpa [roll] using (List.getElem?_eq_some_iff.1 hm).1
  rw [roll_connection hlt] at hm
  cases hm
  exact hor.symm.imp (fun hn => hn) (by simp [Connection.member, Lifecycle.isClosed])

/-- Client identifiers are unique and none is left behind. As long as a registry is changed by
nothing but setting identifiers and closing connections, it holds each identifier once, and exactly
those of the connections that share it and are not closed, no two of which have the same one. A
connection that is closed has none, one that has an identifier keeps it until it is closed, and a
call that fails to set one changes no registry and no connection's identifier. -/
theorem identifiers_in_step (h : Run {} ls w) (hl : ∀ l ∈ ls, l.spares r = true) :
    (w.registry r).held.Nodup ∧
    (∀ id, id ∈ (w.registry r).held ↔ ∃ c < w.connections.length,
      (w.connection c).registry = r ∧ (w.connection c).life ≠ .closed ∧
        (w.connection c).clientId = some id) ∧
    (∀ c < w.connections.length, ∀ d < w.connections.length, (w.connection c).registry = r →
      (w.connection d).registry = r → ∀ id, (w.connection c).clientId = some id →
        (w.connection d).clientId = some id → c = d) ∧
    (∀ c, (w.connection c).life = .closed → (w.connection c).clientId = none) ∧
    (∀ ms u, Run w ms u → ∀ c < w.connections.length, ∀ id,
      (w.connection c).clientId = some id →
        (u.connection c).clientId = some id ∨ (u.connection c).life = .closed) ∧
    (∀ c id e, (w.operate (.setClientId c id)).1 = .failed e →
      (w.operate (.setClientId c id)).2.registries = w.registries ∧
      ∀ d, ((w.operate (.setClientId c id)).2.connection d).clientId =
        (w.connection d).clientId) := by
  have hs := roll_of_run h hl
  have hclosed : ∀ c, (w.connection c).life = .closed → (w.connection c).clientId = none := by
    intro c hc
    by_cases hlt : c < w.connections.length
    · exact hs.closed _ (List.mem_of_getElem? (roll_connection hlt))
        (by simp [Connection.member, Lifecycle.isClosed, hc])
    · rw [connection, List.getElem?_eq_none (Nat.le_of_not_lt hlt)]
      rfl
  -- The roll of the run, read back as a statement about connections.
  have hhas : ∀ c id, w.roll.Has c r id ↔ c < w.connections.length ∧
      (w.connection c).registry = r ∧ (w.connection c).clientId = some id := by
    intro c id
    constructor
    · rintro ⟨m, hm, hr, hid⟩
      have hlt : c < w.connections.length := by
        simpa [roll] using (List.getElem?_eq_some_iff.1 hm).1
      rw [roll_connection hlt] at hm
      cases hm
      exact ⟨hlt, hr, hid⟩
    · rintro ⟨hlt, hr, hid⟩
      exact ⟨_, roll_connection hlt, hr, hid⟩
  refine ⟨(w.registry r).nodup, fun id => ?held, fun c hc d hd hcr hdr id hci hdi => ?unique,
    hclosed, fun ms u hu c hc id hid => hu.keeps_clientId hc hid, fun c id e he => ?failed⟩
  case held =>
    refine (hs.held id).trans ⟨?_, ?_⟩
    · rintro ⟨c, hc⟩
      obtain ⟨hlt, hr, hid⟩ := (hhas c id).1 hc
      refine ⟨c, hlt, hr, fun hlife => ?_, hid⟩
      rw [hclosed c hlife] at hid
      cases hid
    · rintro ⟨c, hlt, hr, _, hid⟩
      exact ⟨c, (hhas c id).2 ⟨hlt, hr, hid⟩⟩
  case unique => exact hs.unique ((hhas c id).2 ⟨hc, hcr, hci⟩) ((hhas d id).2 ⟨hd, hdr, hdi⟩)
  case failed =>
    rcases setClientId_effect w c id with ⟨f, hf⟩ | ⟨_, _, _, hf⟩ <;> rw [operate, hf] at he ⊢
    · exact ⟨rfl, fun _ => rfl⟩
    · cases he

/-- Two connections want one identifier; the second one is refused until the first one is closed. -/
def passedOn : List Label :=
  [.operate .createRegistry, .operate (.connect 0 (.ofMillis 15000) {}),
    .operate (.connect 0 (.ofMillis 15000) {}), .operate (.setClientId 0 "app"),
    .operate (.setClientId 1 "app"), .call (.close 0), .operate (.setClientId 1 "app")]

theorem passedOn_isSome : (after? {} passedOn).isSome = true := by decide

def passedOnEnd : System := (after? {} passedOn).get passedOn_isSome

theorem passedOnEnd_identifiers :
    (passedOnEnd.connection 0).life = .closed ∧ (passedOnEnd.connection 0).clientId = none ∧
    "app" ∈ (passedOnEnd.registry 0).held ∧
    ∃ c < passedOnEnd.connections.length, (passedOnEnd.connection c).registry = 0 ∧
      (passedOnEnd.connection c).life ≠ .closed ∧
      (passedOnEnd.connection c).clientId = some "app" := by
  have hclosed : (passedOnEnd.connection 0).life = .closed := by decide
  have hheld : "app" ∈ (passedOnEnd.registry 0).held := by decide
  obtain ⟨_, hiff, _, hnone, _⟩ :=
    identifiers_in_step (r := 0) (.of_isSome passedOn_isSome) (by decide)
  exact ⟨hclosed, hnone 0 hclosed, hheld, (hiff "app").1 hheld⟩

/-- The second one was refused before. -/
example : ((after? {} (passedOn.take 4)).map fun w => (w.operate (.setClientId 1 "app")).1) =
    some (.failed (.duplicateIdentifier "app")) := by decide

end System

end BrokerClient
