import BrokerClient.Proofs.Footprint
import Mathlib.Logic.Relation

/-!
# A ledger of sessions and channels

Which sessions a connection has, which channels were opened for them and which closes were asked of
the broker is a matter of few parts of a client. `Ledger` keeps these parts alone, and `Ledger.Move`
says what can happen to them, one constructor for each event; between two moves nothing that the
ledger tells changes.

`Ledger.Sound` is what holds of the ledger after any moves. Two of its fields carry the teardown:
each channel that was opened has one owner, a session or a call that is about to make one
(`owned`), and each session accounts for one close of its channel once it is closed (`shut`).

`Ledger.Sound` has three parts, each kept by itself. `Placed` says where sessions are: a session
that is open is registered with its connection unless a call has it before it. `Tallied` counts:
owners of a channel, closes of a channel, closes of a connection. `Tuned` says that a session
delivers as its connection does. For each field there is a lemma that goes through the moves, and in
it the moves are grouped by what they do to the field: those that touch it come first, each with its
reason, and those that do not come last.

Counting is by `countP` over the roles of calls and over the rooms. One move changes one role or one
room, and `countP_modify` says what that does to a count.
-/

namespace BrokerClient

/-- What a call is about to do with sessions. -/
inductive Role where
  | idle
  /-- A channel was opened for it. -/
  | handing (c : ConnectionId) (k : Nat)
  /-- It closes a connection; these sessions are still to be looked at. -/
  | closing (c : ConnectionId) (rest : List SessionId)
  /-- It gave a session. -/
  | produced (s : SessionId)
  deriving DecidableEq

/-- A session in the ledger. -/
structure Room where
  home : ConnectionId
  channel : Nat
  closed : Bool
  delivery : Delivery

/-- A connection in the ledger. -/
structure Line where
  life : Lifecycle := .opened
  registered : List SessionId := []
  /-- How many channels the broker opened. -/
  opened : Nat := 0
  /-- The closes that were asked of the broker. -/
  closes : List Request := []
  held : Bool := true

/-- Sessions, connections and calls, each in the order of creation. -/
structure Ledger where
  rooms : List Room := []
  lines : List Line := []
  roles : List Role := []

/-- How an open session of a connection in some phase delivers. -/
def Lifecycle.delivery (x : Lifecycle) : Delivery := if x = .started then .running else .paused

/-- No phase of a connection closes delivery; only closing a session does. -/
theorem Lifecycle.delivery_ne (l : Lifecycle) : l.delivery ≠ .closed := by
  cases l <;> decide

namespace Room

/-- A session that is closed delivers no more. -/
@[grind] def shut (x : Room) : Room := { x with closed := true, delivery := .closed }

/-- Delivery that is closed stays so. -/
@[grind] def turn (next : Delivery) (x : Room) : Room :=
  { x with delivery := if x.delivery = .closed then .closed else next }

/-- Closing a session leaves it with its connection and its channel. -/
@[simp] theorem shut_eq (x : Room) :
    x.shut.home = x.home ∧ x.shut.channel = x.channel ∧ x.shut.closed = true ∧
    x.shut.delivery = .closed :=
  ⟨rfl, rfl, rfl, rfl⟩

/-- Turning delivery neither moves a session nor closes it. -/
@[simp] theorem turn_eq (next : Delivery) (x : Room) :
    (x.turn next).home = x.home ∧ (x.turn next).channel = x.channel ∧
    (x.turn next).closed = x.closed ∧
    (x.turn next).delivery = if x.delivery = .closed then .closed else next :=
  ⟨rfl, rfl, rfl, rfl⟩

/-- Turning delivery twice the same way does no more than once. -/
theorem turn_turn (next : Delivery) (x : Room) : (x.turn next).turn next = x.turn next := by
  unfold turn
  by_cases h : x.delivery = .closed
  · simp [h]
  · simp only [h, if_false]
    split <;> simp_all

/-- Whether a session is the one on a channel of a connection. -/
def isAt (c : ConnectionId) (k : Nat) (x : Room) : Bool := x.home = c && x.channel = k

end Room

/-- Whether a call was handed a channel of a connection. -/
def Role.hands (c : ConnectionId) (k : Nat) (r : Role) : Bool := r = .handing c k

/-- Whether a call closes a connection. -/
def Role.closes (c : ConnectionId) : Role → Bool
  | .closing d _ => c = d
  | _ => false

namespace Ledger

/-- A connection that is not there has an empty line. -/
def line (L : Ledger) (c : ConnectionId) : Line := L.lines[c]?.getD {}

/-- A call that is not there is idle. -/
def role (L : Ledger) (i : CallId) : Role := L.roles[i]?.getD .idle

/-- The ledger after a change of one session. -/
def atRoom (L : Ledger) (s : SessionId) (f : Room → Room) : Ledger :=
  { L with rooms := L.rooms.modify s f }

/-- The ledger after a change of one connection. -/
def atLine (L : Ledger) (c : ConnectionId) (f : Line → Line) : Ledger :=
  { L with lines := L.lines.modify c f }

/-- The ledger in which a call has another role. -/
def assign (L : Ledger) (i : CallId) (r : Role) : Ledger :=
  { L with roles := L.roles.modify i fun _ => r }

/-- The ledger with a session more. -/
def addRoom (L : Ledger) (x : Room) : Ledger := { L with rooms := L.rooms ++ [x] }

/-- A ledger in which a close was asked of a broker. -/
def ask (L : Ledger) (c : ConnectionId) (r : Request) : Ledger :=
  L.atLine c fun l => { l with closes := l.closes ++ [r] }

/-- A ledger in which the sessions named are turned. -/
def turnAll (next : Delivery) (ss : List SessionId) (L : Ledger) : Ledger :=
  ss.foldl (fun L s => L.atRoom s (Room.turn next)) L

/-- What can happen. -/
inductive Move : Ledger → Ledger → Prop where
  | connect (L) : Move L { L with lines := L.lines ++ [({} : Line)] }
  | drop {L c} (hc : c < L.lines.length) : Move L (L.atLine c fun l => { l with held := false })
  /-- A connection is started or stopped, and its sessions with it. -/
  | redirect {L c life} (hc : c < L.lines.length) (hopen : (L.line c).life ≠ .closed)
    (hlife : life ≠ .closed) :
    Move L ((L.atLine c fun l => { l with life }).turnAll life.delivery (L.line c).registered)
  /-- A call is started. -/
  | enlist (L) : Move L { L with roles := L.roles ++ [.idle] }
  /-- The broker opens a channel for a call. -/
  | openChannel {L i c} (hi : i < L.roles.length) (hidle : L.role i = .idle)
    (hc : c < L.lines.length) :
    Move L ((L.atLine c fun l => { l with opened := l.opened + 1 }).assign i
      (.handing c (L.line c).opened))
  /-- A session is made of a channel in time. -/
  | register {L i c k} (hi : L.role i = .handing c k) (hc : c < L.lines.length)
    (hopen : (L.line c).life ≠ .closed) :
    Move L (((L.addRoom ⟨c, k, false, (L.line c).life.delivery⟩).atLine c fun l =>
      { l with registered := l.registered ++ [L.rooms.length] }).assign i
        (.produced L.rooms.length))
  /-- A session is made of a channel too late. -/
  | discard {L i c k} (hi : L.role i = .handing c k) (hc : c < L.lines.length)
    (hclosed : (L.line c).life = .closed) :
    Move L (((L.addRoom ⟨c, k, true, .closed⟩).ask c (.closeChannel k)).assign i .idle)
  /-- A session is closed by its own caller; a connection that is held forgets it. -/
  | closeRoom {L s x} (forgets : Bool) (hx : L.rooms[s]? = some x)
    (hc : x.home < L.lines.length) (hopen : x.closed = false)
    (hheld : (L.line x.home).held = true → forgets = true) :
    Move L (((L.atLine x.home fun l => { l with
      registered := if forgets then l.registered.filter (· ≠ s) else l.registered }).atRoom s
        Room.shut).ask x.home (.closeChannel x.channel))
  /-- A session that is closed already is forgotten. -/
  | forget {L s x} (hx : L.rooms[s]? = some x) (hc : x.home < L.lines.length)
    (hclosed : x.closed = true) :
    Move L (L.atLine x.home fun l => { l with registered := l.registered.filter (· ≠ s) })
  /-- A connection begins to close. -/
  | shutDown {L i c} (hi : i < L.roles.length) (hidle : L.role i = .idle)
    (hc : c < L.lines.length) (hopen : (L.line c).life ≠ .closed) :
    Move L ((L.atLine c fun l => { l with life := .closed, registered := [] }).assign i
      (.closing c (L.line c).registered))
  /-- The next session of a closing connection is closed already. -/
  | skip {L i c s rest x} (hi : L.role i = .closing c (s :: rest)) (hx : L.rooms[s]? = some x)
    (hclosed : x.closed = true) :
    Move L (L.assign i (.closing c rest))
  /-- The next session of a closing connection is closed. -/
  | closeNext {L i c s rest x} (hi : L.role i = .closing c (s :: rest))
    (hx : L.rooms[s]? = some x) (hc : c < L.lines.length) (hopen : x.closed = false) :
    Move L (((L.atRoom s Room.shut).ask c (.closeChannel x.channel)).assign i (.closing c rest))
  /-- No session is left; the broker connection is closed. -/
  | conclude {L i c} (hi : L.role i = .closing c []) (hc : c < L.lines.length) :
    Move L ((L.ask c .close).assign i .idle)

/-- How many sessions and calls have a channel. -/
def owners (L : Ledger) (c : ConnectionId) (k : Nat) : Nat :=
  L.rooms.countP (Room.isAt c k) + L.roles.countP (Role.hands c k)

end Ledger

/-! ## Lists -/

/-- What stands in a list of which one element was changed. -/
@[grind =] theorem modify_eq_some {α : Type} {l : List α} {i j : Nat} {f : α → α} {a : α} :
    (l.modify i f)[j]? = some a ↔ ∃ b, l[j]? = some b ∧ a = if i = j then f b else b := by
  rw [List.getElem?_modify, Option.map_eq_map, Option.map_eq_some_iff]
  simp only [eq_comm]

/-- What stands in a list to which one element was added. -/
@[grind =] theorem snoc_eq_some {α : Type} {l : List α} {j : Nat} {a b : α} :
    (l ++ [a])[j]? = some b ↔ l[j]? = some b ∨ (j = l.length ∧ b = a) := by
  rw [List.getElem?_append]
  split
  next h => simp [Nat.ne_of_lt h]
  next h =>
    have hn : l[j]? = none := List.getElem?_eq_none (Nat.le_of_not_lt h)
    rw [hn]
    constructor
    · intro hb
      obtain ⟨hlt, rfl⟩ := List.getElem?_eq_some_iff.1 hb
      have h1 : j - l.length = 0 := by simpa using hlt
      exact .inr ⟨by omega, by simp [h1]⟩
    · rintro (hb | ⟨rfl, rfl⟩)
      · cases hb
      · simp

/-- One default more at the end is not seen. -/
theorem getD_snoc {α : Type} (l : List α) (i : Nat) (d : α) :
    (l ++ [d])[i]?.getD d = l[i]?.getD d := by
  rw [List.getElem?_append]
  split
  · rfl
  next h =>
    rw [List.getElem?_eq_none (Nat.le_of_not_lt h)]
    cases i - l.length <;> rfl

/-- One element of a list changes; the count follows it. -/
theorem countP_modify {α : Type} {p : α → Bool} {l : List α} {i : Nat} {a : α}
    (h : l[i]? = some a) (f : α → α) :
    (l.modify i f).countP p + (p a).toNat = l.countP p + (p (f a)).toNat := by
  induction l generalizing i with
  | nil => simp at h
  | cons b l ih =>
    cases i with
    | zero =>
      obtain rfl : b = a := by simpa using h
      cases hb : p b <;> cases hf : p (f b) <;> simp [hb, hf]
    | succ i =>
      have := ih (i := i) (by simpa using h)
      rw [List.modify_succ_cons, List.countP_cons, List.countP_cons]
      omega

/-- An update that a count does not see. -/
theorem countP_modify_of {α : Type} {p : α → Bool} {f : α → α} (h : ∀ x, p (f x) = p x)
    (l : List α) (i : Nat) : (l.modify i f).countP p = l.countP p := by
  cases hx : l[i]? with
  | none => rw [List.modify_eq_self (List.getElem?_eq_none_iff.1 hx)]
  | some x =>
    have := countP_modify (p := p) hx f
    rw [h] at this
    omega

namespace Ledger

variable {L M : Ledger} {c d : ConnectionId} {s t : SessionId} {i j : CallId}

/-! ## Looking up after an update -/

/-- A change of a connection is seen in its own line. -/
@[grind =] theorem line_atLine (hc : c < L.lines.length) (f : Line → Line) (d : ConnectionId) :
    (L.atLine c f).line d = if c = d then f (L.line d) else L.line d := by
  rw [line, line, atLine, List.getElem?_modify]
  by_cases h : c = d
  · subst h
    simp [hc]
  · simp [h]

/-- A close is noted in the line of its connection, the last of those asked so far. -/
@[grind =] theorem line_ask (hc : c < L.lines.length) (r : Request) (d : ConnectionId) :
    (L.ask c r).line d =
      if c = d then { L.line d with closes := (L.line d).closes ++ [r] } else L.line d :=
  line_atLine hc _ d

/-- A role that is assigned is that of one call. -/
@[grind =] theorem role_assign (hi : i < L.roles.length) (r : Role) (j : CallId) :
    (L.assign i r).role j = if i = j then r else L.role j := by
  rw [role, role, assign, List.getElem?_modify]
  by_cases h : i = j
  · subst h
    simp [hi]
  · simp [h]

/-- What concerns sessions or calls is seen in no line. -/
@[simp, grind =] theorem line_atRoom (L : Ledger) (s : SessionId) (f : Room → Room)
    (c : ConnectionId) : (L.atRoom s f).line c = L.line c := rfl

@[simp, grind =] theorem line_assign (L : Ledger) (i : CallId) (r : Role) (c : ConnectionId) :
    (L.assign i r).line c = L.line c := rfl

@[simp, grind =] theorem line_addRoom (L : Ledger) (x : Room) (c : ConnectionId) :
    (L.addRoom x).line c = L.line c := rfl

/-- What concerns sessions or connections changes no role. -/
@[simp, grind =] theorem role_atLine (L : Ledger) (c : ConnectionId) (f : Line → Line)
    (i : CallId) : (L.atLine c f).role i = L.role i := rfl

@[simp, grind =] theorem role_ask (L : Ledger) (c : ConnectionId) (r : Request) (i : CallId) :
    (L.ask c r).role i = L.role i := rfl

@[simp, grind =] theorem role_atRoom (L : Ledger) (s : SessionId) (f : Room → Room)
    (i : CallId) : (L.atRoom s f).role i = L.role i := rfl

@[simp, grind =] theorem role_addRoom (L : Ledger) (x : Room) (i : CallId) :
    (L.addRoom x).role i = L.role i := rfl

/-- A call that is about to do something was started. -/
@[grind →] theorem lt_of_role (h : L.role i ≠ .idle) : i < L.roles.length := by
  by_contra hlt
  exact h (by simp [role, List.getElem?_eq_none (Nat.le_of_not_lt hlt)])

/-- A connection that has just been made has the line of one that is not there. -/
@[simp, grind =] theorem line_connect (L : Ledger) (c : ConnectionId) :
    ({ L with lines := L.lines ++ [({} : Line)] } : Ledger).line c = L.line c :=
  getD_snoc L.lines c {}

@[simp, grind =] theorem line_enlist (L : Ledger) (c : ConnectionId) :
    ({ L with roles := L.roles ++ [.idle] } : Ledger).line c = L.line c := rfl

@[simp, grind =] theorem role_connect (L : Ledger) (i : CallId) :
    ({ L with lines := L.lines ++ [({} : Line)] } : Ledger).role i = L.role i := rfl

/-- A call that has just been started is idle, as one that is not there. -/
@[simp, grind =] theorem role_enlist (L : Ledger) (i : CallId) :
    ({ L with roles := L.roles ++ [.idle] } : Ledger).role i = L.role i :=
  getD_snoc L.roles i .idle

/-- Only what concerns sessions changes rooms. -/
@[simp, grind =] theorem rooms_atLine (L : Ledger) (c : ConnectionId) (f : Line → Line) :
    (L.atLine c f).rooms = L.rooms := rfl

@[simp, grind =] theorem rooms_ask (L : Ledger) (c : ConnectionId) (r : Request) :
    (L.ask c r).rooms = L.rooms := rfl

@[simp, grind =] theorem rooms_assign (L : Ledger) (i : CallId) (r : Role) :
    (L.assign i r).rooms = L.rooms := rfl

@[simp, grind =] theorem rooms_atRoom (L : Ledger) (s : SessionId) (f : Room → Room) :
    (L.atRoom s f).rooms = L.rooms.modify s f := rfl

@[simp, grind =] theorem rooms_addRoom (L : Ledger) (x : Room) :
    (L.addRoom x).rooms = L.rooms ++ [x] := rfl

/-- A change of a connection makes none. -/
@[simp, grind =] theorem length_lines_atLine (L : Ledger) (c : ConnectionId) (f : Line → Line) :
    (L.atLine c f).lines.length = L.lines.length := List.length_modify ..

@[simp, grind =] theorem length_lines_ask (L : Ledger) (c : ConnectionId) (r : Request) :
    (L.ask c r).lines.length = L.lines.length := List.length_modify ..

@[simp, grind =] theorem lines_assign (L : Ledger) (i : CallId) (r : Role) :
    (L.assign i r).lines = L.lines := rfl

@[simp, grind =] theorem lines_atRoom (L : Ledger) (s : SessionId) (f : Room → Room) :
    (L.atRoom s f).lines = L.lines := rfl

@[simp, grind =] theorem lines_addRoom (L : Ledger) (x : Room) :
    (L.addRoom x).lines = L.lines := rfl

@[simp, grind =] theorem roles_atLine (L : Ledger) (c : ConnectionId) (f : Line → Line) :
    (L.atLine c f).roles = L.roles := rfl

@[simp, grind =] theorem roles_ask (L : Ledger) (c : ConnectionId) (r : Request) :
    (L.ask c r).roles = L.roles := rfl

@[simp, grind =] theorem roles_assign (L : Ledger) (i : CallId) (r : Role) :
    (L.assign i r).roles = L.roles.modify i (fun _ => r) := rfl

@[simp, grind =] theorem roles_atRoom (L : Ledger) (s : SessionId) (f : Room → Room) :
    (L.atRoom s f).roles = L.roles := rfl

@[simp, grind =] theorem roles_addRoom (L : Ledger) (x : Room) :
    (L.addRoom x).roles = L.roles := rfl

theorem assign_eq_self {r : Role} (h : L.role i = r) : L.assign i r = L := by
  have hm : L.roles.modify i (fun _ => r) = L.roles := by
    refine modify_eq_self_of fun x hx => ?_
    rw [← h, role, hx]
    rfl
  rw [assign, hm]

/-- A change of connections that changes none. -/
theorem atLine_eq_self {f : Line → Line} (h : ∀ l, f l = l) : L.atLine c f = L := by
  rw [atLine, modify_eq_self_of fun l _ => h l]

/-- Of two roles for one call the later one counts. -/
theorem assign_assign (L : Ledger) (i : CallId) (r r' : Role) :
    (L.assign i r).assign i r' = L.assign i r' := by
  rw [assign, assign, assign, List.modify_modify_eq]
  rfl

/-- Calls and connections are apart, so that changes of both commute. -/
theorem ask_assign (L : Ledger) (i : CallId) (r : Role) (c : ConnectionId) (q : Request) :
    (L.assign i r).ask c q = (L.ask c q).assign i r := rfl

/-- The same of calls and sessions. -/
theorem atRoom_assign (L : Ledger) (i : CallId) (r : Role) (s : SessionId) (f : Room → Room) :
    (L.assign i r).atRoom s f = (L.atRoom s f).assign i r := rfl

/-- A change of the session that was added last. -/
theorem atRoom_addRoom (L : Ledger) (x : Room) (f : Room → Room) :
    (L.addRoom x).atRoom L.rooms.length f = L.addRoom (f x) := by
  rw [atRoom, rooms_addRoom, modify_append_self]
  rfl

/-- Turning the delivery of sessions leaves connections and calls. -/
@[simp] theorem turnAll_leaves (next : Delivery) (ss : List SessionId) (L : Ledger) :
    (L.turnAll next ss).lines = L.lines ∧ (L.turnAll next ss).roles = L.roles := by
  induction ss generalizing L with
  | nil => exact ⟨rfl, rfl⟩
  | cons s ss ih => exact ih (L.atRoom s (Room.turn next))

/-- In the form in which `simp` and `grind` look lines up. -/
@[simp, grind =] theorem line_turnAll (next : Delivery) (ss : List SessionId) (L : Ledger)
    (c : ConnectionId) : (L.turnAll next ss).line c = L.line c := by
  rw [line, (turnAll_leaves next ss L).1, line]

/-- In the form in which they look roles up. -/
@[simp, grind =] theorem role_turnAll (next : Delivery) (ss : List SessionId) (L : Ledger)
    (i : CallId) : (L.turnAll next ss).role i = L.role i := by
  rw [role, (turnAll_leaves next ss L).2, role]

/-- Sessions that are named are turned, the others are not. -/
theorem turnAll_eq_some {next : Delivery} {ss : List SessionId} {L : Ledger} {s : SessionId}
    {y : Room} : (L.turnAll next ss).rooms[s]? = some y ↔
      ∃ x, L.rooms[s]? = some x ∧ y = if s ∈ ss then x.turn next else x := by
  induction ss generalizing L with
  | nil => simp [turnAll, eq_comm]
  | cons t ss ih =>
    rw [turnAll, List.foldl_cons, ← turnAll, ih]
    simp only [rooms_atRoom, modify_eq_some, List.mem_cons]
    constructor
    · rintro ⟨_, ⟨x, hx, rfl⟩, rfl⟩
      refine ⟨x, hx, ?_⟩
      by_cases hst : t = s
      · subst hst
        simp [Room.turn_turn]
      · simp [hst, Ne.symm hst]
    · rintro ⟨x, hx, rfl⟩
      refine ⟨_, ⟨x, hx, rfl⟩, ?_⟩
      by_cases hst : t = s
      · subst hst
        simp [Room.turn_turn]
      · simp [hst, Ne.symm hst]

/-! ## What a move leaves -/

/-- A session stays where it is, and stays closed. -/
theorem Move.room {L M : Ledger} (hm : Move L M) {s : SessionId} {x : Room}
    (hx : L.rooms[s]? = some x) :
    ∃ y, M.rooms[s]? = some y ∧ y.home = x.home ∧ y.channel = x.channel ∧
      (x.closed = true → y.closed = true) ∧ (x.delivery = .closed → y.delivery = .closed) := by
  cases hm with
  | redirect hc hopen hlife =>
    refine ⟨_, turnAll_eq_some.2 ⟨x, hx, rfl⟩, ?_⟩
    split <;> simp +contextual
  | closeRoom forgets hx' hc hopen hheld =>
    refine ⟨_, modify_eq_some.2 ⟨x, hx, rfl⟩, ?_⟩
    split <;> simp +contextual
  | closeNext hi hx' hc hopen =>
    refine ⟨_, modify_eq_some.2 ⟨x, hx, rfl⟩, ?_⟩
    split <;> simp +contextual
  -- A new session goes behind those that are there.
  | register | discard => exact ⟨x, snoc_eq_some.2 (.inl hx), rfl, rfl, id, id⟩
  | connect | drop | enlist | openChannel | forget | shutDown | skip | conclude =>
    exact ⟨x, hx, rfl, rfl, id, id⟩

/-- A session that is open is not the one that was just closed. -/
theorem open_of_shut {y : Room} (hy : (L.rooms.modify t Room.shut)[s]? = some y)
    (hc : y.closed = false) : t ≠ s ∧ L.rooms[s]? = some y := by
  obtain ⟨x, hx, rfl⟩ := modify_eq_some.1 hy
  split at hc
  · cases hc
  next hts => exact ⟨hts, by rwa [if_neg hts]⟩

/-- A session that is open was open before, or it was registered just now. -/
theorem Move.open_room {L M : Ledger} (hm : Move L M) {s : SessionId} {y : Room}
    (hy : M.rooms[s]? = some y) (hc : y.closed = false) :
    (∃ x, L.rooms[s]? = some x ∧ x.closed = false ∧ x.home = y.home) ∨
      s ∈ (M.line y.home).registered := by
  cases hm with
  | redirect hc' hopen hlife =>
    obtain ⟨x, hx, rfl⟩ := turnAll_eq_some.1 hy
    refine .inl ⟨x, hx, ?_⟩
    split <;> simp_all
  | closeRoom | closeNext => exact .inl ⟨y, (open_of_shut hy hc).2, hc, rfl⟩
  | @register i d k hi hd hopen =>
    rcases snoc_eq_some.1 hy with hy | ⟨rfl, rfl⟩
    · exact .inl ⟨y, hy, hc, rfl⟩
    · exact .inr (by grind)
  | discard =>
    -- A session that is made too late is closed.
    rcases snoc_eq_some.1 hy with hy | ⟨rfl, rfl⟩
    · exact .inl ⟨y, hy, hc, rfl⟩
    · cases hc
  | connect | drop | enlist | openChannel | forget | shutDown | skip | conclude =>
    exact .inl ⟨y, hy, hc, rfl⟩

/-- A registered session stays so, is closed, or is left to the call that closes its connection. -/
theorem Move.registered {L M : Ledger} (hm : Move L M) {s : SessionId} {c : ConnectionId}
    (hs : s ∈ (L.line c).registered) {y : Room} (hy : M.rooms[s]? = some y)
    (hc : y.closed = false) :
    s ∈ (M.line c).registered ∨ ∃ i rest, M.role i = .closing c rest ∧ s ∈ rest := by
  cases hm with
  | @shutDown i d hi hidle hd hopen =>
    -- The call that shuts the connection down takes all that are registered before it.
    by_cases hcd : d = c
    · subst hcd
      exact .inr ⟨i, _, by grind, hs⟩
    · exact .inl (by grind)
  -- What is forgotten is closed, so it is not `s`.
  | closeRoom | forget => exact .inl (by grind)
  -- The others forget no session.
  | connect | drop | redirect | enlist | openChannel | register | discard | skip | closeNext
  | conclude => exact .inl (by grind)

/-- What is registered after a move was before, or it is the session that was made. -/
theorem Move.newly_registered (hm : Move L M) (hs : s ∈ (M.line c).registered) :
    s ∈ (L.line c).registered ∨ (s = L.rooms.length ∧ ∃ x, M.rooms[s]? = some x ∧ x.home = c) := by
  cases hm with
  | @register i d k hi hd hopen =>
    by_cases hnew : s = L.rooms.length
    · by_cases hdc : d = c
      · exact .inr ⟨hnew, ⟨d, k, false, (L.line d).life.delivery⟩, by grind, hdc⟩
      · exact .inl (by grind)
    · exact .inl (by grind)
  -- These forget sessions.
  | closeRoom | forget | shutDown => exact .inl (by grind)
  | connect | drop | redirect | enlist | openChannel | discard | skip | closeNext | conclude =>
    exact .inl (by grind)

/-- A connection that is closed stays so. -/
theorem Move.stays_closed (hm : Move L M) (h : (L.line c).life = .closed) :
    (M.line c).life = .closed := by
  cases hm with
  -- Only one that is not closed is started, stopped or shut down.
  | redirect | shutDown => grind
  | connect | drop | enlist | openChannel | register | discard | closeRoom | forget | skip
  | closeNext | conclude => grind

/-- What was asked of the broker stays asked. -/
theorem Move.asked (hm : Move L M) {r : Request} (h : r ∈ (L.line c).closes) :
    r ∈ (M.line c).closes := by
  cases hm with
  -- One close more is asked for.
  | discard | closeRoom | closeNext | conclude => grind
  | connect | drop | redirect | enlist | openChannel | register | forget | shutDown | skip => grind

/-- A session that waits for the call that closes its connection still does, or it is closed. -/
theorem Move.queued {L M : Ledger} (hm : Move L M) {s : SessionId} {c : ConnectionId}
    {i : CallId} {rest : List SessionId} (hr : L.role i = .closing c rest) (hs : s ∈ rest)
    {y : Room} (hy : M.rooms[s]? = some y) (hc : y.closed = false) :
    ∃ rest, M.role i = .closing c rest ∧ s ∈ rest := by
  cases hm with
  | @skip j d t rest' x hj hx hclosed =>
    -- What is skipped is closed, so it is not `s`.
    by_cases hij : j = i
    · subst hij
      exact ⟨rest', by grind, by grind⟩
    · exact ⟨rest, by grind, hs⟩
  | @closeNext j d t rest' x hj hx hd hopen =>
    -- So is what is closed now.
    by_cases hij : j = i
    · subst hij
      have hts := (open_of_shut hy hc).1
      exact ⟨rest', by grind, by grind⟩
    · exact ⟨rest, by grind, hs⟩
  -- The others are moves of calls that close no connection, or begin or end to.
  | connect | drop | redirect | enlist | openChannel | register | discard | closeRoom | forget
  | shutDown | conclude => exact ⟨rest, by grind, hs⟩

/-! ## Where sessions are -/

/-- Sessions, connections and the calls that close them know of each other. -/
structure Placed (L : Ledger) : Prop where
  /-- A session has its connection. -/
  housed : ∀ {s : SessionId} {x : Room}, L.rooms[s]? = some x → x.home < L.lines.length
  enlisted : ∀ {c s}, s ∈ (L.line c).registered → ∃ x, L.rooms[s]? = some x ∧ x.home = c
  queued : ∀ {i c rest s}, L.role i = .closing c rest → s ∈ rest →
    ∃ x, L.rooms[s]? = some x ∧ x.home = c
  /-- A connection that is closed has forgotten its sessions. -/
  emptied : ∀ {c}, (L.line c).life = .closed → (L.line c).registered = []
  /-- An open session is registered, or the call that closes its connection has it before it. -/
  reach : ∀ {s : SessionId} {x : Room}, L.rooms[s]? = some x → x.closed = false →
    s ∈ (L.line x.home).registered ∨
      ∃ i rest, L.role i = .closing x.home rest ∧ s ∈ rest

/-- A session that is somewhere is somewhere after the move, and of the same connection. -/
theorem Move.somewhere (hm : Move L M) (hs : ∃ x, L.rooms[s]? = some x ∧ x.home = c) :
    ∃ x, M.rooms[s]? = some x ∧ x.home = c := by
  obtain ⟨x, hx, rfl⟩ := hs
  obtain ⟨y, hy, hh, _⟩ := hm.room hx
  exact ⟨y, hy, hh⟩

/-- Sessions keep their connection, and a new one has a connection that is there. -/
theorem housed_move (h : L.Placed) (hm : Move L M) {x : Room} (hx : M.rooms[s]? = some x) :
    x.home < M.lines.length := by
  have hh := @h.housed s
  cases hm with
  | redirect hc hopen hlife =>
    obtain ⟨y, hy, rfl⟩ := turnAll_eq_some.1 hx
    have := hh hy
    split <;> simpa using this
  -- A new session is one of a connection that is there.
  | register | discard => grind
  -- One that is closed stays where it is.
  | closeRoom | closeNext => grind
  | connect | drop | enlist | openChannel | forget | shutDown | skip | conclude => grind

/-- A session gets on the list of its own connection, as one that is there. -/
theorem enlisted_move (h : L.Placed) (hm : Move L M) (hs : s ∈ (M.line c).registered) :
    ∃ x, M.rooms[s]? = some x ∧ x.home = c := by
  rcases hm.newly_registered hs with hold | ⟨-, hnew⟩
  · exact hm.somewhere (h.enlisted hold)
  · exact hnew

/-- What a call that closes a connection has before it, it had before, or it was registered. -/
theorem queued_move (h : L.Placed) (hm : Move L M) {rest : List SessionId}
    (hr : M.role i = .closing c rest) (hs : s ∈ rest) :
    ∃ x, M.rooms[s]? = some x ∧ x.home = c := by
  have hreg := @h.enlisted c s
  have hq {rest} := @h.queued i c rest s
  refine hm.somewhere ?_
  cases hm with
  | shutDown | skip | closeNext => grind
  -- A call with another role has no sessions before it.
  | openChannel | register | discard | conclude => grind
  | connect | drop | redirect | enlist | closeRoom | forget => grind

/-- A connection that closes forgets its sessions, and none is registered with it later. -/
theorem emptied_move (h : L.Placed) (hm : Move L M) (hc : (M.line c).life = .closed) :
    (M.line c).registered = [] := by
  have he := @h.emptied c
  cases hm with
  -- A closed connection is neither started nor stopped, and registers nothing.
  | redirect | register => grind
  | shutDown => grind
  | closeRoom | forget => grind
  | connect | drop | enlist | openChannel | discard | skip | closeNext | conclude => grind

/-- An open session was reached before the move, or is registered by it. -/
theorem reach_move (h : L.Placed) (hm : Move L M) {y : Room} (hy : M.rooms[s]? = some y)
    (hc : y.closed = false) : s ∈ (M.line y.home).registered ∨
      ∃ i rest, M.role i = .closing y.home rest ∧ s ∈ rest := by
  rcases hm.open_room hy hc with ⟨x, hx, hxc, hh⟩ | hs
  · rcases h.reach hx hxc with hs | ⟨i, rest, hr, hs⟩
    · exact hm.registered (hh ▸ hs) hy hc
    · obtain ⟨rest', hr', hs'⟩ := hm.queued (hh ▸ hr) hs hy hc
      exact .inr ⟨i, rest', hr', hs'⟩
  · exact .inl hs

/-- Sessions stay where they are, whatever happens. -/
theorem Placed.move (h : L.Placed) (hm : Move L M) : M.Placed :=
  ⟨housed_move h hm, enlisted_move h hm, queued_move h hm, emptied_move h hm, reach_move h hm⟩

/-! ## Closes and channels -/

/-- Every channel that was opened has one owner, every closed session accounts for one close of its
channel, and every closed connection for one close, asked or still to be asked. -/
structure Tallied (L : Ledger) : Prop where
  owned : ∀ c k, L.owners c k = if k < (L.line c).opened then 1 else 0
  shut : ∀ c k, (L.line c).closes.count (.closeChannel k) =
    L.rooms.countP fun x => x.isAt c k && x.closed
  concluded : ∀ c, (L.line c).closes.count .close + L.roles.countP (Role.closes c) =
    if (L.line c).life = .closed then 1 else 0

/-- Who looks a call up that is there finds its role. -/
theorem roles_eq_some (hi : i < L.roles.length) : L.roles[i]? = some (L.role i) := by
  rw [role, List.getElem?_eq_getElem hi]
  rfl

/-- A call is given another role; the count of roles follows it. -/
theorem countP_assign (hi : i < L.roles.length) (r : Role) (p : Role → Bool) :
    (L.roles.modify i fun _ => r).countP p + (p (L.role i)).toNat =
      L.roles.countP p + (p r).toNat :=
  countP_modify (roles_eq_some hi) _

/-- Counting sessions by what delivery does not tell. -/
theorem countP_turnAll {p : Room → Bool} {next : Delivery} (h : ∀ x, p (x.turn next) = p x)
    (ss : List SessionId) (L : Ledger) : (L.turnAll next ss).rooms.countP p = L.rooms.countP p := by
  induction ss generalizing L with
  | nil => rfl
  | cons s ss ih =>
    rw [turnAll, List.foldl_cons, ← turnAll, ih]
    exact countP_modify_of h L.rooms s

/-- A channel passes from the broker to a call, and from the call to a session. -/
theorem owned_move (h : L.Tallied) (hm : Move L M) (c : ConnectionId) (k : Nat) :
    M.owners c k = if k < (M.line c).opened then 1 else 0 := by
  have ho := h.owned c k
  have hshut : ∀ s, (L.rooms.modify s Room.shut).countP (Room.isAt c k) =
      L.rooms.countP (Room.isAt c k) := countP_modify_of (f := Room.shut) (fun _ => rfl) L.rooms
  have hrole : ∀ i, i < L.roles.length → ∀ r, _ := fun i hi r =>
    countP_assign hi r (Role.hands c k)
  unfold owners at ho ⊢
  -- Only moves that open a channel, or change who has it, touch the count.
  cases hm with
  | connect =>
    rw [line_connect]
    exact ho
  | redirect hc hopen hlife =>
    rw [countP_turnAll (fun _ => rfl)]
    grind [turnAll_leaves]
  | enlist => grind [Role.hands]
  | @openChannel i d hi hidle hd =>
    have hr := hrole i hi (.handing d (L.line d).opened)
    grind [Role.hands]
  | @register i d k' hi hd hopen =>
    have hr := hrole i (lt_of_role (by rw [hi]; simp)) (.produced L.rooms.length)
    grind [Role.hands, Room.isAt]
  | @discard i d k' hi hd hclosed =>
    have hr := hrole i (lt_of_role (by rw [hi]; simp)) .idle
    grind [Role.hands, Room.isAt]
  | @shutDown i d hi hidle hd hopen =>
    have hr := hrole i hi (.closing d (L.line d).registered)
    grind [Role.hands]
  | @skip i d s rest x hi hx hclosed =>
    have hr := hrole i (lt_of_role (by rw [hi]; simp)) (.closing d rest)
    grind [Role.hands]
  | @closeNext i d s rest x hi hx hd hopen =>
    have hr := hrole i (lt_of_role (by rw [hi]; simp)) (.closing d rest)
    grind [Role.hands]
  | @conclude i d hi hd =>
    have hr := hrole i (lt_of_role (by rw [hi]; simp)) .idle
    grind [Role.hands]
  | drop | closeRoom | forget => grind

/-- A session is closed and its channel asked to close in one. -/
theorem shut_move (hp : L.Placed) (h : L.Tallied) (hm : Move L M) (c : ConnectionId) (k : Nat) :
    (M.line c).closes.count (.closeChannel k) =
      M.rooms.countP fun x => x.isAt c k && x.closed := by
  have ho := h.shut c k
  cases hm with
  | connect =>
    rw [line_connect]
    exact ho
  | redirect hc hopen hlife =>
    rw [countP_turnAll (fun _ => rfl)]
    grind
  | discard hi hd hclosed => grind [Room.isAt]
  | closeRoom forgets hx hd hopen hheld =>
    have hr := countP_modify (p := fun x => x.isAt c k && x.closed) hx Room.shut
    grind [Room.isAt]
  | closeNext hi hx hd hopen =>
    have hr := countP_modify (p := fun x => x.isAt c k && x.closed) hx Room.shut
    -- The session is one of the connection that closes, so its channel is of that broker.
    obtain ⟨x', hx', rfl⟩ := hp.queued hi (List.mem_cons_self ..)
    grind [Room.isAt]
  -- A new session that is open has nothing to account for.
  | register => grind
  -- What is asked of the broker last is no channel's close.
  | conclude => grind
  | drop | enlist | openChannel | forget | shutDown | skip => grind

/-- The close of a broker connection is asked for by the call that closes the connection, as the
last thing that it does. So a closed connection has either such a call or the close. -/
theorem concluded_move (h : L.Tallied) (hm : Move L M) (c : ConnectionId) :
    (M.line c).closes.count .close + M.roles.countP (Role.closes c) =
      if (M.line c).life = .closed then 1 else 0 := by
  have ho := h.concluded c
  have hrole : ∀ i, i < L.roles.length → ∀ r, _ := fun i hi r =>
    countP_assign hi r (Role.closes c)
  cases hm with
  | connect =>
    rw [line_connect]
    exact ho
  | redirect hc hopen hlife => grind [turnAll_leaves]
  | enlist => grind [Role.closes]
  | @openChannel i d hi hidle hd =>
    have hr := hrole i hi (.handing d (L.line d).opened)
    grind [Role.closes]
  | @register i d k' hi hd hopen =>
    have hr := hrole i (lt_of_role (by rw [hi]; simp)) (.produced L.rooms.length)
    grind [Role.closes]
  | @discard i d k' hi hd hclosed =>
    have hr := hrole i (lt_of_role (by rw [hi]; simp)) .idle
    grind [Role.closes]
  | @shutDown i d hi hidle hd hopen =>
    have hr := hrole i hi (.closing d (L.line d).registered)
    grind [Role.closes]
  | @skip i d s rest x hi hx hclosed =>
    have hr := hrole i (lt_of_role (by rw [hi]; simp)) (.closing d rest)
    grind [Role.closes]
  | @closeNext i d s rest x hi hx hd hopen =>
    have hr := hrole i (lt_of_role (by rw [hi]; simp)) (.closing d rest)
    grind [Role.closes]
  | @conclude i d hi hd =>
    have hr := hrole i (lt_of_role (by rw [hi]; simp)) .idle
    grind [Role.closes]
  -- What a session's own caller asks for is a channel's close.
  | closeRoom => grind
  | drop | forget => grind

/-- Every count of the ledger is right after a move. -/
theorem Tallied.move (hp : L.Placed) (h : L.Tallied) (hm : Move L M) : M.Tallied :=
  ⟨owned_move h hm, shut_move hp h hm, concluded_move h hm⟩

/-- A connection with a call that closes it is closed. -/
theorem Tallied.closed_of_closing (h : L.Tallied) {rest : List SessionId}
    (hr : L.role i = .closing c rest) : (L.line c).life = .closed := by
  have hi := lt_of_role (show L.role i ≠ .idle by rw [hr]; simp)
  have hmem : Role.closing c rest ∈ L.roles := hr ▸ List.mem_of_getElem? (roles_eq_some hi)
  have hpos : 0 < L.roles.countP (Role.closes c) :=
    List.countP_pos_iff.2 ⟨_, hmem, by simp [Role.closes]⟩
  -- Of a connection that is not closed the count is zero, but this call is in it.
  have := h.concluded c
  by_contra hne
  rw [if_neg hne] at this
  omega

/-- The open sessions of a connection that is not closed are registered. -/
theorem registered_of_open (hp : L.Placed) (ht : L.Tallied) {x : Room}
    (hx : L.rooms[s]? = some x) (hc : x.closed = false) (hl : (L.line x.home).life ≠ .closed) :
    s ∈ (L.line x.home).registered := by
  rcases hp.reach hx hc with hs | ⟨i, rest, hr, _⟩
  · exact hs
  · exact absurd (ht.closed_of_closing hr) hl

/-! ## What sessions deliver -/

/-- Open sessions deliver as their connection tells them to, and those of a connection that is held
are the registered ones. -/
structure Tuned (L : Ledger) : Prop where
  agree : ∀ {s : SessionId} {x : Room}, L.rooms[s]? = some x →
    (x.closed = true ↔ x.delivery = .closed)
  turned : ∀ {s : SessionId} {x : Room}, L.rooms[s]? = some x → x.closed = false →
    (L.line x.home).life ≠ .closed → x.delivery = (L.line x.home).life.delivery
  distinct : ∀ c, (L.line c).registered.Nodup
  live : ∀ {c : ConnectionId} {s : SessionId} {x : Room}, (L.line c).held = true →
    s ∈ (L.line c).registered → L.rooms[s]? = some x → x.closed = false
  /-- Some call gave an open session. -/
  produced : ∀ {s : SessionId} {x : Room}, L.rooms[s]? = some x → x.closed = false →
    ∃ i, L.role i = .produced s

/-- A call that gave a session has nothing more to do. -/
theorem Move.produced (hm : Move L M) (h : L.role i = .produced s) : M.role i = .produced s := by
  cases hm with
  -- A call that goes on or begins something is not that one.
  | openChannel | register | discard | shutDown | skip | closeNext | conclude => grind
  | connect | drop | redirect | enlist | closeRoom | forget => grind

/-- A session is closed and its delivery ended in one go. -/
theorem agree_move (h : L.Tuned) (hm : Move L M) {y : Room} (hy : M.rooms[s]? = some y) :
    y.closed = true ↔ y.delivery = .closed := by
  have ha := fun x => @h.agree s x
  have hd := Lifecycle.delivery_ne
  cases hm with
  | @redirect d life hc hopen hlife =>
    obtain ⟨x, hx, rfl⟩ := turnAll_eq_some.1 hy
    have hx' := ha x hx
    grind
  -- A session is closed and stops delivering in one, and a new one is open or closed altogether.
  | closeRoom | closeNext | register | discard => grind
  | connect | drop | enlist | openChannel | forget | shutDown | skip | conclude => exact ha y hy

/-- A connection that is started or stopped turns all of its open sessions, for it has them all. -/
theorem turned_move (hp : L.Placed) (ht : L.Tallied) (h : L.Tuned) (hm : Move L M) {y : Room}
    (hy : M.rooms[s]? = some y) (hc : y.closed = false)
    (hl : (M.line y.home).life ≠ .closed) : y.delivery = (M.line y.home).life.delivery := by
  have ha := fun x => @h.turned s x
  cases hm with
  | @redirect d life hd hopen hlife =>
    obtain ⟨x, hx, rfl⟩ := turnAll_eq_some.1 hy
    have hx' := ha x
    have hagree := h.agree hx
    have hreg := @registered_of_open L s hp ht x hx
    have hhome := @hp.enlisted d s
    grind
  -- A new session delivers as its connection does, and one that is made too late is closed.
  | register | discard => grind
  -- The sessions of a connection that shuts down need not deliver as it does.
  | shutDown => grind
  | closeRoom | closeNext => grind
  | connect | drop | enlist | openChannel | forget | skip | conclude => grind

/-- A session is registered once: whoever registers it has just made it. -/
theorem distinct_move (hp : L.Placed) (h : L.Tuned) (hm : Move L M) (c : ConnectionId) :
    (M.line c).registered.Nodup := by
  have hd := h.distinct c
  cases hm with
  | @register i d k hi hd' hopen =>
    -- The new session has a number that no session has yet.
    have hfresh : L.rooms.length ∉ (L.line d).registered := by
      intro hs
      obtain ⟨x, hx, _⟩ := hp.enlisted hs
      simp at hx
    grind
  -- The others register nothing, and some forget.
  | closeRoom | forget | shutDown => grind
  | connect | drop | redirect | enlist | openChannel | discard | skip | closeNext | conclude =>
    grind

/-- Whoever closes a session of a connection that is held has it forgotten by the connection, so
that the registered ones are open. -/
theorem live_move (hp : L.Placed) (ht : L.Tallied) (h : L.Tuned) (hm : Move L M) {y : Room}
    (hheld : (M.line c).held = true) (hs : s ∈ (M.line c).registered)
    (hy : M.rooms[s]? = some y) : y.closed = false := by
  have ha := fun x => @h.live c s x
  have he := @hp.enlisted c s
  cases hm with
  | @redirect d life hd hopen hlife =>
    obtain ⟨x, hx, rfl⟩ := turnAll_eq_some.1 hy
    have hx' := ha x
    grind
  | @closeNext i d t rest x hi hx hd hopen =>
    -- A closing connection has no registered session left, and closes none of another one.
    have hcl := hp.emptied (ht.closed_of_closing hi)
    have hq := @hp.queued i d (t :: rest) t hi
    grind
  -- A session that its own caller closes is forgotten by a connection that is held.
  | closeRoom => grind
  | register => grind
  | drop | discard | forget | shutDown => grind
  | connect | enlist | openChannel | skip | conclude => grind

/-- A session is open only if the call that made it has come to its end with it. -/
theorem produced_move (h : L.Tuned) (hm : Move L M) {y : Room} (hy : M.rooms[s]? = some y)
    (hc : y.closed = false) : ∃ i, M.role i = .produced s := by
  by_cases hlt : s < L.rooms.length
  · -- It was there and open before, and the call that gave it keeps its role.
    obtain ⟨y', hy', _, _, hcl, _⟩ := hm.room (List.getElem?_eq_getElem hlt)
    obtain rfl : y' = y := by simpa [hy'] using hy
    obtain ⟨i, hi⟩ := h.produced (List.getElem?_eq_getElem hlt)
      (Bool.eq_false_iff.2 fun ht => by simp [hcl ht] at hc)
    exact ⟨i, hm.produced hi⟩
  · cases hm with
    | @register i d k hi hd' hopen => exact ⟨i, by grind⟩
    | @redirect d life hd hopen hlife =>
      obtain ⟨x, hx, rfl⟩ := turnAll_eq_some.1 hy
      grind
    -- A session that is made too late is closed.
    | discard => grind
    -- The others make no session.
    | connect | drop | enlist | openChannel | closeRoom | forget | shutDown | skip | closeNext
    | conclude => grind

/-- Delivery goes with the phase of the connection after any move. -/
theorem Tuned.move (hp : L.Placed) (ht : L.Tallied) (h : L.Tuned) (hm : Move L M) : M.Tuned :=
  ⟨agree_move h hm, turned_move hp ht h hm, distinct_move hp h hm, live_move hp ht h hm,
    produced_move h hm⟩

/-! ## All together -/

/-- What holds after any moves. -/
structure Sound (L : Ledger) : Prop where
  placed : L.Placed
  tallied : L.Tallied
  tuned : L.Tuned

/-- The ledger stays sound. -/
theorem Sound.move (h : L.Sound) (hm : Move L M) : M.Sound :=
  ⟨h.placed.move hm, h.tallied.move h.placed hm, h.tuned.move h.placed h.tallied hm⟩

/-- Any moves, one after the other. -/
abbrev Moves : Ledger → Ledger → Prop := Relation.ReflTransGen Move

/-- Any moves keep the ledger sound. -/
theorem Sound.moves (h : L.Sound) (hm : Moves L M) : M.Sound := by
  induction hm with
  | refl => exact h
  | tail _ hm ih => exact ih.move hm

/-- A client in which nothing has happened. -/
theorem sound_empty : Sound {} := by
  refine ⟨⟨?_, ?_, ?_, ?_, ?_⟩, ⟨?_, ?_, ?_⟩, ⟨?_, ?_, ?_, ?_, ?_⟩⟩ <;>
    simp [line, role, owners]

end Ledger

end BrokerClient
