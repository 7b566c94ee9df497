import BrokerClient.Proofs.Ledger
import BrokerClient.Proofs.Wiring

/-!
# The ledger of a client

`System.ledger` reads the ledger off a client. Each step of a run is some moves of it, often none
(`moves_step`), so that the ledger is sound in every state that a new client comes to
(`sound_of_run`).

A stretch of a call works on several lists and writes the log on the way. What of it the ledger
tells is one move in most cases: a session is shut and its close is asked for
(`moves_closeSessions`), a connection is closed and its sessions are turned (`moves_shutDown`), a
session is enrolled and registered (`moves_openSession`). A request that takes effect is a move only
if it opens a channel (`moves_takeEffect`). The other stretches leave the ledger as it is;
`ledger_rest` says so of whatever changes neither rooms nor lines, up to what a call is about to do.

Each lemma is about one stretch, so that a change to a stretch of the client is a change to its
lemma and to nothing behind `moves_step`.
-/

namespace BrokerClient

/-- Whether a request closes a channel or the connection. -/
def Request.isClose : Request → Bool
  | .close => true
  | .closeChannel _ => true
  | _ => false

/-- What the ledger keeps of a session. -/
abbrev Session.room (x : Session) : Room := ⟨x.connection, x.channel, x.closed, x.delivery⟩

/-- What the ledger keeps of a connection; of all that was asked of its broker only the closes
count. -/
abbrev Connection.line (x : Connection) : Line :=
  ⟨x.life, x.sessions, x.broker.channels.length, x.asked.filter Request.isClose, x.held⟩

/-- What a call with a goal is about to do, whatever the answer. -/
def Goal.role (c : ConnectionId) : Goal → Role
  | .closeNext _ _ rest _ => .closing c rest
  | _ => .idle

/-- A call whose channel has been opened is about to hand it to a session. Until then it does
nothing that the ledger would show. -/
def Exchange.role (e : Exchange) : Role :=
  match e.goal, e.stage with
  | .openSession _ _, .answered (.opened k) => .handing e.connection k
  | goal, _ => goal.role e.connection

/-- What a call is about to do. One that has ended with a session has produced it, whether or not
the outcome was taken. -/
def Progress.role : Progress → Role
  | .exchange e => e.role
  | .ended (.ok (.session s)) => .produced s
  | _ => .idle

namespace System

open Ledger

/-- The ledger that a client stands for. -/
def ledger (w : System) : Ledger where
  rooms := w.sessions.map Session.room
  lines := w.connections.map Connection.line
  roles := w.calls.map (·.progress.role)

variable {w v : System} {i : CallId} {c : ConnectionId} {s : SessionId}

/-! ## Reading the ledger -/

/-- A connection is read off at its own line; one that is not there has the line of an empty
connection. -/
@[simp] theorem ledger_line (w : System) (c : ConnectionId) :
    w.ledger.line c = (w.connection c).line := by
  rw [line, ledger, connection, List.getElem?_map]
  cases w.connections[c]? <;> rfl

/-- A call that was never started is about to do nothing. -/
theorem ledger_role (w : System) (i : CallId) :
    w.ledger.role i = (w.progress? i).elim .idle Progress.role := by
  rw [role, ledger, progress?, List.getElem?_map]
  cases w.calls[i]? <;> rfl

theorem role_of_progress {p : Progress} (h : w.progress? i = some p) :
    w.ledger.role i = p.role := by
  rw [ledger_role, h]
  rfl

/-- The room of a session that is there. -/
theorem room_of_lt (hs : s < w.sessions.length) :
    w.ledger.rooms[s]? = some (w.session s).room := by
  simp [ledger, session, hs]

/-- Who finds a room has found that of a session. -/
theorem room_eq_some {x : Room} (h : w.ledger.rooms[s]? = some x) :
    s < w.sessions.length ∧ x = (w.session s).room := by
  have hlt : s < w.sessions.length := by
    simpa [ledger] using (List.getElem?_eq_some_iff.1 h).1
  rw [room_of_lt hlt] at h
  cases h
  exact ⟨hlt, rfl⟩

/-! ## Updates -/

/-- An update of a session that its room does not show. -/
theorem ledger_modifySession {f : Session → Session} (h : ∀ x, (f x).room = x.room) (w : System)
    (s : SessionId) : (w.modifySession s f).ledger = w.ledger := by
  rw [ledger, modifySession, map_modify_eq h]
  rfl

/-- An update of a session is seen in its room. -/
theorem ledger_modifySession_of {f : Session → Session} {g : Room → Room}
    (h : ∀ x, (f x).room = g x.room) (w : System) (s : SessionId) :
    (w.modifySession s f).ledger = w.ledger.atRoom s g := by
  rw [ledger, modifySession, map_modify_of h]
  rfl

/-- An update of a connection that its line does not show. -/
theorem ledger_modifyConnection {f : Connection → Connection} (h : ∀ x, (f x).line = x.line)
    (w : System) (c : ConnectionId) : (w.modifyConnection c f).ledger = w.ledger := by
  rw [ledger, modifyConnection, map_modify_eq h]
  rfl

/-- An update of a connection is seen in its line. -/
theorem ledger_modifyConnection_of {f : Connection → Connection} {g : Line → Line}
    (h : ∀ x, (f x).line = g x.line) (w : System) (c : ConnectionId) :
    (w.modifyConnection c f).ledger = w.ledger.atLine c g := by
  rw [ledger, modifyConnection, map_modify_of h]
  rfl

/-- It is enough that the update fits the connection that is updated, and not every one. -/
theorem ledger_modifyConnection_at {f : Connection → Connection} {g : Line → Line}
    (h : (f (w.connection c)).line = g (w.connection c).line) :
    (w.modifyConnection c f).ledger = w.ledger.atLine c g := by
  have hm : (w.connections.modify c f).map Connection.line =
      (w.connections.map Connection.line).modify c g := by
    refine map_modify_at fun x hx => ?_
    have hc : w.connection c = x := by simp [connection, hx]
    rw [← hc, h]
  rw [ledger, modifyConnection, hm]
  rfl

/-- Where a call stands shows in the ledger as its role, and nowhere else. -/
@[simp] theorem ledger_setCall (w : System) (i : CallId) (p : Progress) :
    (w.setCall i p).ledger = w.ledger.assign i p.role := by
  have hm : (w.calls.modify i fun t => { t with progress := p }).map (·.progress.role) =
      (w.calls.map (·.progress.role)).modify i fun _ => p.role :=
    map_modify_of (by intro _; rfl) w.calls i
  rw [ledger, setCall, hm]
  rfl

/-- Time, registries, consumers and notices are not in the ledger. -/
theorem ledger_congr (hs : v.sessions = w.sessions) (hn : v.connections = w.connections)
    (hc : v.calls = w.calls) : v.ledger = w.ledger := by
  rw [ledger, hs, hn, hc, ledger]

/-- What is told is not in the ledger. -/
theorem Quiet.ledger (h : Quiet w v) : v.ledger = w.ledger :=
  ledger_congr h.sessions h.connections h.calls

/-- An update aside changes neither a room nor a line. -/
theorem Aside.ledger (h : Aside w v) : v.ledger = w.ledger := by
  have hl := congrArg (List.map Connection.line) h.connections
  simp only [List.map_map] at hl
  rw [System.ledger, h.sessions, h.calls, System.ledger]
  congr 1

/-- Dispatchers work on what messages are about, which the ledger leaves out. -/
theorem Framed.ledger (h : Framed w v) : v.ledger = w.ledger := by
  have hs := congrArg (List.map Session.room) h.sessions
  simp only [List.map_map] at hs
  rw [System.ledger, h.connections, h.calls, System.ledger]
  congr 1

/-- Asking the broker adds a close to those asked, if it is one. -/
theorem ledger_ask (w : System) (i : CallId) (c : ConnectionId) (request : Request)
    (limit : Option Nat) (goal : Goal) :
    (w.ask i c request limit goal).ledger =
      (if request.isClose then w.ledger.ask c request else w.ledger).assign i (goal.role c) := by
  have hrole : (Progress.exchange (w.exchangeFor c request limit goal)).role = goal.role c := by
    obtain ⟨f, a, h⟩ := exchangeFor_stage w c request limit goal
    simp only [Progress.role, Exchange.role, h]
    cases goal <;> rfl
  rw [ask_eq, ledger_setCall, hrole]
  congr 1
  split
  next hc => exact ledger_modifyConnection_of (by intro x; simp [hc]) w c
  next hc => exact ledger_modifyConnection (by intro x; simp [hc]) w c

/-- A call that is about to do nothing with sessions and goes over to another such state. -/
theorem ledger_rest (hv : v.ledger = w.ledger) (hidle : w.ledger.role i = .idle) {p : Progress}
    (hp : p.role = .idle) : (v.setCall i p).ledger = w.ledger := by
  rw [ledger_setCall, hv, hp, assign_eq_self hidle]

/-- What the ledger does not show is no move. -/
theorem moves_of_eq (h : v.ledger = w.ledger) : Moves w.ledger v.ledger := h ▸ .refl

/-- A call that rests and goes on to rest makes no move. -/
theorem moves_rest (hv : v.ledger = w.ledger) (hidle : w.ledger.role i = .idle) {p : Progress}
    (hp : p.role = .idle) : Moves w.ledger (v.setCall i p).ledger := by
  rw [ledger_rest hv hidle hp]

/-- Asking for a close is noted, and the call has the role that its goal gives it. -/
theorem ledger_askClose (w : System) (i : CallId) (c : ConnectionId) {request : Request}
    (hr : request.isClose = true) (limit : Option Nat) (goal : Goal) :
    (w.ask i c request limit goal).ledger = (w.ledger.ask c request).assign i (goal.role c) := by
  rw [ledger_ask, if_pos hr]

/-- A call that rests and asks for something else than a close still rests. -/
theorem ledger_askRest (hv : v.ledger = w.ledger) (hidle : w.ledger.role i = .idle)
    {request : Request} (hr : request.isClose = false) {goal : Goal} (hg : goal.role c = .idle)
    (limit : Option Nat) : (v.ask i c request limit goal).ledger = w.ledger := by
  rw [ledger_ask, hr, hv, hg]
  exact assign_eq_self hidle

/-- What closing a session does without the broker is seen in its room alone. -/
theorem ledger_shutSession (w : System) (s : SessionId) :
    (w.shutSession s).2.ledger = w.ledger.atRoom s Room.shut := by
  rw [ledger_congr (w := w.modifySession s Session.shut) (by simp) (by simp) (by simp)]
  exact ledger_modifySession_of (by intro _; rfl) w s

/-! ## Each stretch -/

section Stretches

/-- The sessions of a closing connection are looked at in turn, up to the first that is open. -/
theorem moves_closeSessions (hi : i < w.calls.length) (hc : c < w.connections.length)
    (failure : Option TransportFailure) (ss : List SessionId)
    (h : (w.ledger.assign i (.closing c ss)).Sound) :
    Moves (w.ledger.assign i (.closing c ss)) (w.closeSessions i c failure ss).ledger := by
  have hi' : i < w.ledger.roles.length := by simpa [ledger] using hi
  have hc' : c < w.ledger.lines.length := by simpa [ledger] using hc
  have hrole : ∀ ss, (w.ledger.assign i (.closing c ss)).role i = .closing c ss := fun ss => by
    rw [role_assign hi', if_pos rfl]
  induction ss with
  | nil =>
    have hm := Move.conclude (hrole []) hc'
    rw [ask_assign, assign_assign] at hm
    rw [closeSessions, ledger_askClose _ _ _ rfl]
    exact .single hm
  | cons s rest ih =>
    -- The call knows of sessions that there are, so `s` has its room.
    obtain ⟨x, hx, -⟩ := h.placed.queued (hrole _) (List.mem_cons_self ..)
    obtain ⟨-, rfl⟩ := room_eq_some hx
    rw [closeSessions]
    by_cases hcl : (w.session s).closed = true
    · have hm := Move.skip (hrole _) hx hcl
      rw [assign_assign] at hm
      rw [if_pos hcl]
      exact .head hm (ih (h.move hm))
    · have hm := Move.closeNext (hrole _) hx hc' (by simpa using hcl)
      rw [atRoom_assign, ask_assign, assign_assign] at hm
      have hch : ((w.shutSession s).2.session s).channel = (w.session s).channel :=
        session_shutSession_of (g := Session.channel) (fun _ => rfl) w s s
      rw [if_neg hcl]
      simp only [hch]
      rw [ledger_askClose _ _ _ rfl, ledger_shutSession]
      exact .single hm

/-- A connection that is open begins to close, and the call goes on to its sessions. -/
theorem moves_shutDown (h : w.ledger.Sound) (hi : i < w.calls.length)
    (hc : c < w.connections.length) (hidle : w.ledger.role i = .idle)
    (hopen : (w.connection c).life.isClosed = false) :
    ∃ M, Move w.ledger M ∧ M.role i = .closing c (w.connection c).sessions ∧
      Moves M (w.closeConnection i c).ledger := by
  rcases closeConnection_effect w i c with ⟨hcl, _⟩ | ⟨_, v, rs, hq, he⟩
  · rw [hopen] at hcl
    cases hcl
  · have hi' : i < w.ledger.roles.length := by simpa [ledger] using hi
    have hm := Move.shutDown (L := w.ledger) (i := i) (c := c) hi' hidle
      (by simpa [ledger] using hc) (by simpa [Lifecycle.isClosed] using hopen)
    have hu : (({ v with registries := rs } : System).modifyConnection c fun x =>
        { x with life := .closed, clientId := none, sessions := [] }).ledger =
        w.ledger.atLine c fun l => { l with life := .closed, registered := [] } := by
      rw [ledger_modifyConnection_of (g := fun l => { l with life := .closed, registered := [] })
        (by intro _; rfl), ← hq.ledger]
      rfl
    refine ⟨_, hm, ?_, ?_⟩
    · rw [role_assign (by exact hi'), if_pos rfl, ledger_line]
    · rw [he, ← hu, ledger_line]
      apply moves_closeSessions
      · simpa [hq.calls] using hi
      · simpa [hq.connections] using hc
      · rw [hu]
        simpa using h.move hm

/-- Closing a connection is a move the first time, with what follows for its sessions, and none
later. -/
theorem moves_closeConnection (h : w.ledger.Sound) (hi : i < w.calls.length)
    (hc : c < w.connections.length) (hidle : w.ledger.role i = .idle) :
    Moves w.ledger (w.closeConnection i c).ledger := by
  cases hopen : (w.connection c).life.isClosed with
  | true =>
    rcases closeConnection_effect w i c with ⟨_, v, hq, he⟩ | ⟨hcl, _⟩
    · rw [he, finish_eq, ledger_rest hq.ledger hidle rfl]
    · rw [hopen] at hcl
      cases hcl
  | false =>
    obtain ⟨M, hm, _, hms⟩ := moves_shutDown h hi hc hidle hopen
    exact .head hm hms

/-- What a connection forgets when a session of it is closed by its own caller. -/
theorem ledger_forget (h : Quiet w v) (s : SessionId) :
    (v.forget s).ledger = w.ledger.atLine (w.session s).connection fun l =>
      { l with registered :=
          if w.connectionAlive (w.session s).connection then l.registered.filter (· ≠ s)
          else l.registered } := by
  have halive : v.connectionAlive (v.session s).connection =
      w.connectionAlive (w.session s).connection := by
    rw [h.session, connectionAlive, connectionAlive, h.connection, h.calls]
  rw [forget, halive, h.session]
  split
  · rw [ledger_modifyConnection_of (g := fun l =>
      { l with registered := l.registered.filter (· ≠ s) }) (by intro _; rfl), h.ledger]
  · rw [h.ledger]
    exact (atLine_eq_self fun _ => rfl).symm

/-- Closing a session takes it off its connection, if that is alive, and then asks for the close of
its channel, if it was open. -/
theorem moves_closeSession (hw : w.Wired) (hs : s < w.sessions.length)
    (hidle : w.ledger.role i = .idle) : Moves w.ledger (w.closeSession i s).ledger := by
  have hx := room_of_lt hs
  have hhome : (w.session s).connection < w.ledger.lines.length := by
    simpa [ledger, outline] using hw.housed _ (List.mem_of_getElem? (address_of_lt hs))
  obtain ⟨v, hq, ⟨hcl, he⟩ | ⟨hcl, he⟩⟩ := closeSession_effect w i s
  · rw [he, finish_eq, ledger_setCall, ledger_forget hq]
    by_cases ha : w.connectionAlive (w.session s).connection = true
    · simp only [ha, if_true]
      rw [assign_eq_self (by exact hidle)]
      exact .single (Move.forget hx hhome hcl)
    · simp only [ha, Bool.false_eq_true, if_false]
      rw [atLine_eq_self (fun _ => rfl), assign_eq_self (by exact hidle)]
  · -- A connection that the program holds is alive, and forgets the session.
    have hheld : (w.ledger.line (w.session s).connection).held = true →
        w.connectionAlive (w.session s).connection = true := by
      rw [ledger_line]
      intro hh
      rw [connectionAlive, Bool.or_eq_true]
      exact .inl hh
    rw [he, ledger_askClose _ _ _ rfl, ledger_shutSession, ledger_forget hq,
      assign_eq_self (by exact hidle)]
    exact .single (Move.closeRoom _ hx hhome hcl hheld)

/-! ### Creating sessions -/

/-- The time for setting the identifier is not in the ledger. -/
theorem ledger_closeIdentifierWindow (w : System) (c : ConnectionId) :
    (w.closeIdentifierWindow c).ledger = w.ledger :=
  ledger_modifyConnection (by intro _; rfl) w c

/-- Asking for a channel is no move: the channel counts from the moment at which the broker opens
it. -/
theorem ledger_createSession (hidle : w.ledger.role i = .idle) (transacted : Bool)
    (mode : AckMode) (via : Option Domain) :
    (w.createSession i c transacted mode via).ledger = w.ledger := by
  obtain ⟨v, hq, ⟨_, he | he⟩ | ⟨_, he⟩⟩ := createSession_effect w i c transacted mode via
  · rw [he, fail_eq, ledger_rest hq.ledger hidle rfl]
  · rw [he, fail_eq, ledger_rest ((ledger_closeIdentifierWindow v c).trans hq.ledger) hidle rfl]
  · rw [he, ledger_askRest ((ledger_closeIdentifierWindow v c).trans hq.ledger) hidle rfl rfl]

/-- A new session adds a room. -/
theorem ledger_enroll (w : System) (c : ConnectionId) (x : Session) :
    (w.enroll c x).ledger = w.ledger.addRoom x.room := by
  rw [enroll, ledger_modifyConnection (by intro _; rfl)]
  simp [ledger, addRoom]

/-- A call that hands over a channel makes a session of it, which is closed again at once if the
connection was closed meanwhile. -/
theorem moves_openSession (hc : c < w.connections.length) {k : Nat}
    (hrole : w.ledger.role i = .handing c k) (transacted : Bool) (mode : AckMode) :
    Moves w.ledger (w.openSession i c k transacted mode).ledger := by
  have hc' : c < w.ledger.lines.length := by simpa [ledger] using hc
  have hlen : w.ledger.rooms.length = w.sessions.length := by simp [ledger]
  cases hl : (w.connection c).life.isClosed with
  | true =>
    have hm := Move.discard hrole hc' (by simpa [Lifecycle.isClosed] using hl)
    rw [openSession_closed hl, ledger_askClose _ _ _ rfl, ledger_shutSession, ledger_enroll,
      ← hlen, atRoom_addRoom]
    exact .single hm
  | false =>
    have hm := Move.register hrole hc' (by simpa [Lifecycle.isClosed] using hl)
    obtain ⟨v, hq, he⟩ := openSession_open hl i k transacted mode
    rw [he, finish_eq, ledger_setCall, ledger_modifyConnection_of (g := fun l =>
      { l with registered := l.registered ++ [w.sessions.length] }) (by intro _; rfl), hq.ledger,
      ledger_enroll]
    rw [hlen, ledger_line] at hm
    exact .single hm

/-! ### Subscriptions and messages -/

/-- Consumers are not in the ledger. -/
theorem ledger_adopt (w : System) (s : SessionId) (x : ConsumerId) :
    (w.adopt s x).2.ledger = w.ledger := by
  unfold adopt
  split
  · exact ledger_congr (by simp) (by simp) (by simp)
  · exact ledger_modifySession (by intro _; rfl) w s

/-- Creating a durable subscriber moves nothing: it works on names, consumers and the broker. -/
theorem ledger_subscribe (hidle : w.ledger.role i = .idle) (d : Destination) (name : String) :
    (w.subscribe i s d name).ledger = w.ledger := by
  rcases subscribe_effect w i s d name with ⟨e, _, he⟩ | ⟨_, _, claim, v, u, hclaim, hq, he⟩
  · rw [he, fail_eq, ledger_rest rfl hidle rfl]
  · have hu : u.ledger = w.ledger := by
      rw [hq.ledger]
      unfold claimName at hclaim
      split at hclaim <;> cases hclaim
      exact ledger_modifyConnection (by intro _; rfl) w _
    rcases he with ⟨_, he⟩ | he
    · rw [he, ledger_askRest hu hidle rfl rfl]
    · rw [he, ledger_askRest hu hidle rfl rfl]

/-- Removing a subscription moves nothing either. -/
theorem ledger_unsubscribe (hidle : w.ledger.role i = .idle) (name : String) :
    (w.unsubscribe i s name).ledger = w.ledger := by
  rcases unsubscribe_effect w i s name with ⟨e, _, he⟩ | ⟨_, _, _, he⟩
  · rw [he, fail_eq, ledger_rest rfl hidle rfl]
  · rw [he, ledger_askRest (ledger_modifyConnection (by intro _; rfl) w _) hidle rfl rfl]

/-- Publishing moves nothing: messages are not in the ledger. -/
theorem ledger_publish (hidle : w.ledger.role i = .idle) (m : Message) (tracked : Bool) :
    (w.publish i s m tracked).ledger = w.ledger := by
  have hv : (w.readyToPublish s m tracked).ledger = w.ledger := by
    have hf := ledger_modifyConnection (f := fun c => { c with faults := (takeFault .nextTag
      (some (w.session s).channel) (w.connection (w.session s).connection).faults).2 })
      (by intro _; rfl) w (w.session s).connection
    cases tracked with
    | true => exact (ledger_modifySession (by intro _; rfl) _ s).trans hf
    | false => exact hf
  rw [publish_eq, ledger_askRest hv hidle rfl rfl]

/-- A send that waits for its turn moves as little as one that publishes. -/
theorem ledger_send (hidle : w.ledger.role i = .idle) (m : Message) :
    (w.send i s m).ledger = w.ledger := by
  have hv : (w.takePlace i s).ledger = w.ledger := ledger_modifySession (by intro _; rfl) w s
  rcases send_effect w i s m with he | ⟨_, he⟩ | he
  · rw [he, fail_eq, ledger_rest rfl hidle rfl]
  · rw [he, ledger_publish (hv ▸ hidle), hv]
  · rw [he, ledger_rest hv hidle rfl]

/-- Whether the message arrived makes no difference to the ledger. -/
theorem ledger_endPublish (hidle : w.ledger.role i = .idle) (tag : Nat) (tracked : Bool)
    (result : Except TransportFailure Unit) :
    (w.endPublish i s tag tracked result).ledger = w.ledger := by
  rcases endPublish_effect w i s tag tracked result with ⟨_, he⟩ | ⟨_, _, he⟩
  · rw [he, finish_eq, ledger_rest (ledger_modifySession (by intro _; rfl) w s) hidle rfl]
  · rw [he, fail_eq, ledger_rest (ledger_modifySession (by intro _; rfl) w s) hidle rfl]

/-- A wait for delivery that goes on ends without a session. -/
theorem ledger_resumed (hidle : w.ledger.role i = .idle) {x : ConsumerId} {o : Outcome}
    (ho : w.resumption x = some o) : (w.finish i o).ledger = w.ledger := by
  rcases resumption_cases ho with rfl | ⟨e, rfl⟩
  · rw [finish_eq, ledger_rest rfl hidle rfl]
  · rw [finish_eq, ledger_rest rfl hidle rfl]

/-- A wait for delivery that begins may end at once. -/
theorem ledger_awaitResume (hidle : w.ledger.role i = .idle) (x : ConsumerId) :
    (w.awaitResume i x).ledger = w.ledger := by
  unfold awaitResume
  split
  next ho => exact ledger_resumed hidle ho
  · rw [ledger_rest rfl hidle rfl]

end Stretches

/-! ## Steps -/

/-- A call that was started adds a role, and rests to begin with. -/
theorem ledger_enlist (w : System) (x : Call) :
    (w.enlist x).ledger = { w.ledger with roles := w.ledger.roles ++ [.idle] } := by
  simp [ledger, Progress.role]

/-- A call that has not run yet is about to do nothing. -/
theorem idle_enlist (w : System) (x : Call) : (w.enlist x).ledger.role w.calls.length = .idle := by
  rw [ledger_enlist, role_enlist, role]
  simp [ledger]

/-- The first stretch of a call, by cases on the call. -/
theorem moves_call (hw : w.Wired) (h : w.ledger.Sound) {x : Call} (hx : w.mayCall x = true) :
    Moves w.ledger (w.call x).2.ledger := by
  have hv := (onward_enlist hw x).wired
  have hm := Move.enlist w.ledger
  have hs := h.move hm
  have hi : w.calls.length < (w.enlist x).calls.length := by simp
  have hidle := idle_enlist w x
  rw [← ledger_enlist w x] at hm hs
  rw [call_eq]
  refine .head hm ?_
  cases x with
  | createSession d transacted mode via =>
    rw [begin, ledger_createSession hidle]
  | close d => exact moves_closeConnection hs hi (lt_of_holdsConnection hx) hidle
  | closeSession t => exact moves_closeSession hv (lt_of_holdsSession hx) hidle
  | subscribe t d name => rw [begin, ledger_subscribe hidle]
  | unsubscribe t name => rw [begin, ledger_unsubscribe hidle]
  | send t m => rw [begin, ledger_send hidle]
  | awaitResume y => rw [begin, ledger_awaitResume hidle]

/-- A call that does anything with sessions from here on was started. -/
theorem lt_of_progress {p : Progress} (hp : w.progress? i = some p) : i < w.calls.length := by
  obtain ⟨t, ht, -⟩ := task_of_progress hp
  exact (List.getElem?_eq_some_iff.1 ht).1

/-- Where no channel is on its way, the role of an exchange is that of its goal. -/
theorem role_exchange {e : Exchange} (hg : ∀ t m, e.goal ≠ .openSession t m) :
    e.role = e.goal.role e.connection := by
  unfold Exchange.role
  cases hgoal : e.goal <;> first | rfl | exact absurd hgoal (hg _ _)

/-- A call that asked for a channel gets one, or it fails and has had none. -/
theorem moves_opened {e : Exchange} (hp : w.progress? i = some (.exchange e)) {transacted : Bool}
    {mode : AckMode} (hg : e.goal = .openSession transacted mode)
    (hc : e.connection < w.connections.length) {reply : Reply}
    (hr : (∃ f after, e.stage = .before (some f) after ∧ reply = .failed f) ∨
      e.stage = .answered reply) : Moves w.ledger (w.resolve i e reply).ledger := by
  have hrole : w.ledger.role i = e.role := role_of_progress hp
  have hidle : (∀ k, reply ≠ .opened k) → w.ledger.role i = .idle := by
    intro hne
    rw [hrole, Exchange.role, hg]
    rcases hr with ⟨f, after, hs, _⟩ | hs <;> rw [hs]
    · rfl
    · cases reply with
      | opened k => exact absurd rfl (hne k)
      | _ => rfl
  simp only [resolve, hg]
  cases reply with
  | opened k =>
    -- The channel was in the hands of the call since it was opened.
    have hk : e.stage = .answered (.opened k) := by simpa using hr
    refine moves_openSession hc ?_ _ _
    rw [hrole, Exchange.role, hg, hk]
  | failed f => exact moves_rest rfl (hidle (by simp)) rfl
  | done => exact moves_rest rfl (hidle (by simp)) rfl

/-- A call that closes the sessions of a connection goes on to the next one. -/
theorem moves_closeNext (h : w.ledger.Sound) {e : Exchange}
    (hp : w.progress? i = some (.exchange e)) {s : SessionId} {n : Nat} {rest : List SessionId}
    {failure : Option TransportFailure} (hg : e.goal = .closeNext s n rest failure)
    (hc : e.connection < w.connections.length) (reply : Reply) :
    Moves w.ledger (w.resolve i e reply).ledger := by
  obtain ⟨v, f', hq, he⟩ := resolve_closeNext hg w i reply
  have hclosing : v.ledger.assign i (.closing e.connection rest) = w.ledger := by
    rw [hq.ledger]
    apply assign_eq_self
    rw [role_of_progress hp]
    exact (role_exchange (by simp [hg])).trans (by rw [hg]; rfl)
  rw [he, ← hclosing]
  apply moves_closeSessions
  · rw [hq.calls]
    exact lt_of_progress hp
  · exact hq.connections ▸ hc
  · exact hclosing ▸ h

/-- A stretch that begins with an answer, by cases on what the call was asking for. -/
theorem moves_resolve (hw : w.Wired) (h : w.ledger.Sound) {e : Exchange}
    (hp : w.progress? i = some (.exchange e)) {reply : Reply}
    (hr : (∃ f after, e.stage = .before (some f) after ∧ reply = .failed f) ∨
      e.stage = .answered reply) : Moves w.ledger (w.resolve i e reply).ledger := by
  have hrest (ho : ∀ t m, e.goal ≠ .openSession t m) (hi : e.goal.role e.connection = .idle) :
      w.ledger.role i = .idle := by rw [role_of_progress hp]; exact (role_exchange ho).trans hi
  obtain ⟨x, hx, hf⟩ := hw.fits hp
  simp only [Progress.Fits, Exchange.Fits] at hf
  cases hg : e.goal with
  | openSession transacted mode =>
    simp only [hg] at hf
    exact moves_opened hp hg hf.2.1 hr
  | closeNext s n rest failure =>
    simp only [hg] at hf
    exact moves_closeNext h hp hg hf.2.1 reply
  | publish s tag tracked =>
    have hidle := hrest (by simp [hg]) (by simp [hg, Goal.role])
    simp only [resolve, hg]
    rw [ledger_endPublish hidle]
  | retarget s y name claim =>
    have hidle := hrest (by simp [hg]) (by simp [hg, Goal.role])
    rcases resolve_retarget hg w i reply with he | ⟨f, he⟩ <;> rw [he]
    · rw [ledger_askRest rfl hidle rfl rfl]
    · exact moves_rest (ledger_modifyConnection (by intro _; rfl) w _) hidle rfl
  | declare s y name claim =>
    have hidle := hrest (by simp [hg]) (by simp [hg, Goal.role])
    have ha := ledger_adopt w s y
    rcases resolve_declare hg w i reply with he | ⟨f, he⟩ | ⟨f, he⟩ <;> rw [he]
    · exact moves_rest ha hidle rfl
    · exact moves_rest ha hidle rfl
    · exact moves_rest (ledger_modifyConnection (by intro _; rfl) w _) hidle rfl
  | _ =>
    have hidle := hrest (by simp [hg]) (by simp [hg, Goal.role])
    obtain ⟨v, hq, he | ⟨f, he⟩⟩ := resolve_last (by rw [hg]; rfl) w i reply <;> rw [he] <;>
      exact moves_rest hq.ledger hidle rfl

/-- Only opening a channel changes how many there are. -/
theorem length_channels_perform (b : Broker) {r : Request} (h : r ≠ .createChannel) :
    (b.perform r).2.channels.length = b.channels.length := by
  have hon : ∀ k f, (b.onChannel k f).2.channels.length = b.channels.length := by
    intro k f
    unfold Broker.onChannel
    split
    · rfl
    · exact List.length_set ..
  cases r with
  | createChannel => exact absurd rfl h
  | close => rfl
  | publish k m => exact hon k _
  | declare k topic name => exact hon k _
  | delete k name => exact hon k _
  | closeChannel k => exact hon k _

/-- A request that takes effect moves the ledger only if it opens a channel. -/
theorem moves_takeEffect (hw : w.Wired) {e : Exchange}
    (hp : w.progress? i = some (.exchange e)) {failure : Option TransportFailure} {after : Nat}
    (hs : e.stage = .before failure after) : Moves w.ledger (w.takeEffect i e after).ledger := by
  have hrole : w.ledger.role i = e.role := role_of_progress hp
  have hi : i < w.ledger.roles.length := by simpa [ledger] using lt_of_progress hp
  obtain ⟨x, hx, hf⟩ := hw.fits hp
  simp only [Progress.Fits, Exchange.Fits] at hf
  rw [takeEffect, ledger_setCall]
  -- A request that opens a channel hands it to the call; the others leave the ledger.
  by_cases hopen : ∃ t m, e.goal = .openSession t m
  · obtain ⟨t, m, hg⟩ := hopen
    simp only [hg] at hf
    have hidle : w.ledger.role i = .idle := by rw [hrole, Exchange.role, hg, hs]; rfl
    have hc : e.connection < w.ledger.lines.length := by simpa [ledger, outline] using hf.2.1
    have hperform : (w.connection e.connection).broker.perform e.request =
        (w.connection e.connection).broker.createChannel := by rw [hf.2.2.1]; rfl
    rcases (w.connection e.connection).broker.createChannel_cases with ⟨f, hb⟩ | hb
    · rw [hperform, hb, ledger_modifyConnection_at (g := id) rfl,
        atLine_eq_self (f := id) fun _ => rfl]
      rw [assign_eq_self (by simpa [Progress.role, Exchange.role, Goal.role, hg] using hidle)]
    · have hm := Move.openChannel hi hidle hc
      rw [ledger_line] at hm
      rw [hperform, hb, ledger_modifyConnection_at (g := fun l => { l with opened := l.opened + 1 })
        (by simp)]
      simpa [Progress.role, Exchange.role, hg] using Relation.ReflTransGen.single hm
  · have hne : ∀ t m, e.goal ≠ .openSession t m := fun t m hg => hopen ⟨t, m, hg⟩
    have hr : e.request ≠ .createChannel := by
      intro hr
      cases hg : e.goal <;> simp [hg, hr] at hf hne
    have hlen := length_channels_perform (w.connection e.connection).broker hr
    rw [ledger_modifyConnection_at (g := id) (by simp [hlen]),
      atLine_eq_self (f := id) fun _ => rfl]
    -- The stage does not matter to the role.
    have hstage : ∀ e' : Exchange, e'.goal = e.goal → e'.connection = e.connection →
        e'.role = e.role := by
      intro e' hgoal hconn
      rw [role_exchange (hgoal ▸ hne), role_exchange hne, hgoal, hconn]
    rw [assign_eq_self]
    rw [hrole, Progress.role]
    exact (hstage _ (by rfl) (by rfl)).symm

/-- A call that goes on has a request take effect, takes an answer, or gives up; a wait for a turn
or for delivery is no move. -/
theorem moves_resume (hw : w.Wired) (h : w.ledger.Sound) (hr : w.resume? i = some v) :
    Moves w.ledger v.ledger := by
  rcases resume?_cases hr with ⟨s, m, tracked, hp, _, rfl⟩ | ⟨e, reply, hp, _, hst, rfl⟩ |
    ⟨e, after, hp, _, hst, rfl⟩ | ⟨e, limit, hp, hl, _, _, rfl⟩ | ⟨x, o, hp, ho, rfl⟩
  · rw [ledger_publish (by rw [role_of_progress hp]; rfl)]
  · exact moves_resolve hw h hp hst
  · exact moves_takeEffect hw hp hst
  · -- Only the close of the broker connection has a limit.
    obtain ⟨failure, hg⟩ : ∃ failure, e.goal = .closeBroker failure := by
      obtain ⟨x, hx, hf⟩ := hw.fits hp
      simp only [Progress.Fits, Exchange.Fits] at hf
      cases hg : e.goal <;> simp [hg, hl] at hf ⊢
    have hidle : w.ledger.role i = .idle := by
      rw [role_of_progress hp, Progress.role, role_exchange (by simp [hg]), hg]
      rfl
    obtain ⟨v, hq, he⟩ := giveUp_effect w i e
    rw [he]
    exact moves_rest hq.ledger hidle rfl
  · rw [ledger_resumed (by rw [role_of_progress hp]; rfl) ho]

/-! ### Operations and dispatchers -/

/-- How many channels there are is seen in the ledger, but not what is on them. -/
theorem ledger_modifyChannelOf (w : System) (s : SessionId) (f : Channel → Channel) :
    (w.modifyChannelOf s f).ledger = w.ledger :=
  ledger_modifyConnection (by intro x; simp [Broker.modifyChannel]) w _

/-- A dispatcher moves nothing. -/
theorem ledger_dispatch (h : w.dispatch? s = some v) : v.ledger = w.ledger := by
  obtain ⟨f, hf⟩ := framed_dispatch h
  rw [hf.ledger, ledger_modifyChannelOf]

/-- Taking an outcome lets the program hold a session; its room does not tell who holds it. -/
theorem ledger_take (h : (w.take? i).map Prod.snd = some v) : v.ledger = w.ledger := by
  have hc : ({ w with calls := w.calls.modify i fun t => { t with taken := true } } :
      System).ledger = w.ledger := by
    simp only [ledger]
    rw [map_modify_eq (by intro _; rfl)]
  obtain ⟨o, _, rfl | ⟨s, _, rfl⟩⟩ := take?_cases h
  · exact hc
  · rw [ledger_modifySession (by intro _; rfl), hc]

/-- A ledger is its three lists. -/
theorem ledger_ext {L M : Ledger} (hr : L.rooms = M.rooms) (hl : L.lines = M.lines)
    (ho : L.roles = M.roles) : L = M := by
  cases L
  cases M
  simp_all

/-- Turning the delivery of rooms one by one is turning that of the sessions. -/
theorem rooms_turnAll {L : Ledger} {l : List Session} (h : L.rooms = l.map Session.room)
    (next : Delivery) (ss : List SessionId) :
    (L.turnAll next ss).rooms = (System.turnAll next ss l).map Session.room := by
  induction ss generalizing L l with
  | nil => exact h
  | cons s ss ih =>
    refine ih ?_
    rw [rooms_atRoom, h]
    exact (map_modify_of (by intro _; rfl) l s).symm

/-- Starting and stopping, seen in the ledger: the line of the connection, then the rooms of its
sessions. -/
theorem ledger_redirect (w : System) (c : ConnectionId) (life : Lifecycle) (next : Delivery) :
    (w.redirect c life next).ledger =
      (w.ledger.atLine c fun l => { l with life }).turnAll next (w.connection c).sessions := by
  have hl := ledger_modifyConnection_of (f := fun x => { x with life })
    (g := fun l => { l with life }) (by intro _; rfl) w c
  have hr := rooms_turnAll (L := w.ledger.atLine c fun l => { l with life }) (l := w.sessions) rfl
    next (w.connection c).sessions
  have ht := turnAll_leaves next (w.connection c).sessions
    (w.ledger.atLine c fun l => { l with life })
  have hlines : (w.redirect c life next).ledger.lines =
      (w.ledger.atLine c fun l => { l with life }).lines := (congrArg Ledger.lines hl :)
  have hroles : (w.redirect c life next).ledger.roles =
      (w.ledger.atLine c fun l => { l with life }).roles := (congrArg Ledger.roles hl :)
  exact ledger_ext hr.symm (hlines.trans ht.1.symm) (hroles.trans ht.2.symm)

/-- Reports open no channel. -/
theorem length_channels_reported (b : Broker) (k : Nat) (es : List ConfirmEvent) :
    (b.reported k es).channels.length = b.channels.length := by
  induction es generalizing b with
  | nil => rfl
  | cons e es ih =>
    rw [Broker.reported, List.foldl_cons, ← Broker.reported, ih]
    simp [Broker.modifyChannel]

/-- A new connection adds a line. -/
theorem moves_connect (w : System) {y : Connection} (hy : y.line = {}) :
    Moves w.ledger ({ w with connections := w.connections ++ [y] } : System).ledger := by
  have hu : ({ w with connections := w.connections ++ [y] } : System).ledger =
      { w.ledger with lines := w.ledger.lines ++ [({} : Line)] } := by
    simp [ledger, hy]
  exact hu ▸ .single (.connect _)

/-- Starting or stopping a connection that is not closed is one move, sessions and all. -/
theorem moves_redirect (ho : w.holdsConnection c = true) (hopen : (w.connection c).life ≠ .closed)
    {life : Lifecycle} (hlife : life ≠ .closed) :
    Moves w.ledger (w.redirect c life life.delivery).ledger := by
  have hm := @Move.redirect w.ledger c life (by simpa [ledger] using lt_of_holdsConnection ho)
    (by simpa using hopen) hlife
  rw [ledger_line, ← ledger_redirect] at hm
  exact .single hm

/-- Of the operations only those move the ledger that connect, drop a connection, or start or stop
one. -/
theorem moves_operate {o : Operation} (ho : w.mayOperate o = true) :
    Moves w.ledger (w.operate o).2.ledger := by
  obtain ⟨u, hu, ha⟩ := operate_change w o
  rw [ha.ledger]
  cases hu with
  | connect r timeout plan => exact moves_connect w rfl
  | dropConnection c =>
    have hc : c < w.ledger.lines.length := by simpa [ledger] using lt_of_holdsConnection ho
    have hu : (w.modifyConnection c fun x => { x with held := false }).ledger =
        w.ledger.atLine c fun l => { l with held := false } :=
      ledger_modifyConnection_of (by intro _; rfl) w c
    exact hu ▸ .single (.drop hc)
  | @redirect _ c _ _ hs hopen hlife =>
    have hc : w.holdsConnection c = true := by rcases hs with rfl | rfl <;> exact ho
    rcases hlife with ⟨rfl, rfl⟩ | ⟨rfl, rfl⟩ <;> exact moves_redirect hc hopen (by decide)
  -- The other changes are to fields that no line and no room of the ledger has.
  | none => exact .refl
  | addConsumer => exact moves_of_eq (ledger_adopt _ _ _)
  | closeConsumer x => exact moves_of_eq (ledger_congr (by simp) (by simp) (by simp))
  | dropSession | listen => exact moves_of_eq (ledger_modifySession (by intro _; rfl) w _)
  | rename | inject | refuse =>
    exact moves_of_eq (ledger_modifyConnection (by intro _; rfl) w _)
  | report =>
    exact moves_of_eq (ledger_modifyConnection (by intro x; simp [length_channels_reported]) w _)

/-- A step of a client is some moves of its ledger. -/
theorem moves_step (hw : w.Wired) (h : w.ledger.Sound) {l : Label} (hs : w.step? l = some v) :
    Moves w.ledger v.ledger := by
  cases l with
  | operate o =>
    obtain ⟨ho, rfl⟩ := step_operate hs
    exact moves_operate ho
  | call x =>
    obtain ⟨hx, rfl⟩ := step_call hs
    exact moves_call hw h hx
  | run a =>
    cases a with
    | call i => exact moves_resume hw h hs
    | dispatcher s => exact moves_of_eq (ledger_dispatch hs)
  | take i => exact moves_of_eq (ledger_take hs)
  | tick t =>
    obtain ⟨_, rfl⟩ := step_tick hs
    exact .refl

/-- The moves of a run are those of its steps, one after the other. -/
theorem Run.moves {ls : List Label} (h : Run w ls v) (hw : w.Wired) (hs : w.ledger.Sound) :
    Moves w.ledger v.ledger := by
  induction h with
  | refl => exact .refl
  | step hrun hstep ih =>
    exact ih.trans (moves_step (hrun.onward hw).wired (hs.moves ih) hstep)

/-- The ledger of every state that a new client comes to is sound. -/
theorem sound_of_run {ls : List Label} (h : Run {} ls w) : w.ledger.Sound :=
  sound_empty.moves (h.moves wired_empty sound_empty)

/-- What the start of a call brings about, and nothing undoes, holds once it was called. -/
theorem Run.since_called {ls : List Label} (h : Run {} ls w) {P : System → Prop} {x : Call}
    (hcall : x ∈ w.outline.calls) (hstart : ∀ v : System, v.mayCall x = true → P (v.call x).2)
    (hkeep : ∀ v u : System, Moves v.ledger u.ledger → P v → P u) : P w := by
  induction h with
  | refl => simp [outline] at hcall
  | @step ls v l u hrun hs ih =>
    have hv := wired_of_run hrun
    rw [(onward_step hv hs).grows.calls, List.mem_append] at hcall
    rcases hcall with hold | hnew
    · exact hkeep v u (moves_step hv (sound_of_run hrun) hs) (ih hold)
    · cases l with
      | call y =>
        obtain rfl : x = y := by simpa [Label.started] using hnew
        obtain ⟨hx, rfl⟩ := step_call hs
        exact hstart v hx
      | _ => simp [Label.started] at hnew

end System

end BrokerClient
