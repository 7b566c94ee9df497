import BrokerClient.Proofs.Footprint

/-!
# What a stretch of a call comes to

Between two waits a call does one thing after the other, writes the log on the way, and in the end
stands somewhere. The log is beside the point of nearly every property, so `System.Quiet` says that
one state is another one but for what was logged, and each lemma here gives a stretch up to that:
the updates that it makes and the `setCall` or `ask` with which it ends.

The lemma for a stretch has one case for each way in which it can end, and in each case the final
state is an explicit composition of updates. This is the only place where the stretches of the
client are unfolded. All relations between two states are proved from these cases, so that a change
in a stretch has to be followed here and in the lemmas that name the update that changed.
-/

namespace BrokerClient

/-- Whether a call ends with the answer, whatever it is. -/
def Goal.isLast : Goal → Bool
  | .discardSession _ _ => true
  | .closeSession _ _ => true
  | .closeBroker _ => true
  | .unsubscribe _ _ => true
  | _ => false

/-- The failure that the answer to a close tells of; a signal that all is closed already is none. -/
def closeFailure? : Except TransportFailure Unit → Option TransportFailure
  | .error (.io reason) => some (.io reason)
  | _ => none

namespace System

/-- `v` is `w` with more in the log. -/
structure Quiet (w v : System) : Prop where
  now : v.now = w.now
  registries : v.registries = w.registries
  connections : v.connections = w.connections
  sessions : v.sessions = w.sessions
  consumers : v.consumers = w.consumers
  calls : v.calls = w.calls
  notices : ∃ es : List LogEvent, v.notices = es.map .log ++ w.notices

namespace Quiet

variable {w v u : System}

theorem refl (w : System) : Quiet w w := ⟨rfl, rfl, rfl, rfl, rfl, rfl, [], rfl⟩

theorem trans (h : Quiet w v) (h' : Quiet v u) : Quiet w u := by
  obtain ⟨es, hes⟩ := h.notices
  obtain ⟨fs, hfs⟩ := h'.notices
  refine ⟨h'.now.trans h.now, h'.registries.trans h.registries,
    h'.connections.trans h.connections, h'.sessions.trans h.sessions,
    h'.consumers.trans h.consumers, h'.calls.trans h.calls, fs ++ es, ?_⟩
  rw [hfs, hes, List.map_append, List.append_assoc]

theorem log (w : System) (e : LogEvent) : Quiet w (w.log e) :=
  ⟨rfl, rfl, rfl, rfl, rfl, rfl, [e], rfl⟩

/-- Something is logged on top. -/
theorem then_log (h : Quiet w v) (e : LogEvent) : Quiet w (v.log e) := h.trans (log v e)

/-- Connections are as they were. -/
theorem connection (h : Quiet w v) (c : ConnectionId) : v.connection c = w.connection c :=
  connection_congr h.connections c

/-- Sessions are as they were. -/
theorem session (h : Quiet w v) (s : SessionId) : v.session s = w.session s :=
  session_congr h.sessions s

/-- Consumers are as they were. -/
theorem consumer (h : Quiet w v) (c : ConsumerId) : v.consumer c = w.consumer c :=
  consumer_congr h.consumers c

end Quiet

variable {w : System} {i : CallId} {c : ConnectionId} {s : SessionId}

/-! ## Closing -/

/-- A signal that something was closed already is logged, at most. -/
theorem quiet_normalizeClose (w : System) (result : Except TransportFailure Unit) :
    Quiet w (w.normalizeClose result).2 := by
  unfold normalizeClose
  split
  · exact .refl w
  · split
    · exact .log w _
    · exact .refl w

/-- What a close comes to is the failure that its result tells of, if it does. -/
theorem normalizeClose_fst (w : System) (result : Except TransportFailure Unit) :
    (w.normalizeClose result).1 = match closeFailure? result with
      | none => .ok ()
      | some f => .error f := by
  rcases result with (_ | _ | _) | _ <;> rfl

/-- The answer to a channel's close is logged. -/
theorem quiet_sessionShut (w : System) (s : SessionId) (n : Nat) (reply : Reply) :
    Quiet w (w.sessionShut s n reply).2 := by
  have hq := quiet_normalizeClose w reply.result
  unfold sessionShut
  split
  next heq =>
    rw [heq] at hq
    exact hq.then_log _
  next heq =>
    rw [heq] at hq
    exact hq

/-- A failure on the way is logged. -/
theorem quiet_noteFailure (w : System) (s : SessionId) (failure : Option TransportFailure)
    (e : TransportFailure) : Quiet w (w.noteFailure s failure e).2 := by
  unfold noteFailure
  split <;> exact .log w _

/-- The answer to the close of a session's channel, with the failure that it tells of. -/
theorem sessionShut_fst (w : System) (s : SessionId) (n : Nat) (reply : Reply) :
    (w.sessionShut s n reply).1 = match closeFailure? reply.result with
      | none => .ok ()
      | some f => .error f := by
  rw [← normalizeClose_fst w, sessionShut]
  split <;> simp [*]

/-- The first failure stays the one that counts. -/
theorem noteFailure_fst (w : System) (s : SessionId) (failure : Option TransportFailure)
    (e : TransportFailure) : (w.noteFailure s failure e).1 = failure.or (some e) := by
  cases failure <;> rfl

/-- A session that was closed by a closing connection: the others follow, with the failure of the
first session that failed. -/
theorem resolve_closeNext_eq {e : Exchange} {n : Nat} {rest : List SessionId}
    {failure : Option TransportFailure} (hg : e.goal = .closeNext s n rest failure)
    (w : System) (i : CallId) (reply : Reply) :
    ∃ v, Quiet w v ∧ w.resolve i e reply =
      v.closeSessions i e.connection (failure.or (closeFailure? reply.result)) rest := by
  have hq := quiet_sessionShut w s n reply
  have hfst := sessionShut_fst w s n reply
  unfold resolve
  rw [hg]
  simp only
  split
  next h =>
    rw [h] at hq hfst
    cases hf : closeFailure? reply.result with
    | none => exact ⟨_, hq, by rw [Option.or_none]⟩
    | some f =>
      rw [hf] at hfst
      cases hfst
  next h =>
    rw [h] at hq hfst
    cases hf : closeFailure? reply.result with
    | none =>
      rw [hf] at hfst
      cases hfst
    | some f =>
      rw [hf] at hfst
      obtain rfl := Except.error.inj hfst
      exact ⟨_, hq.trans (quiet_noteFailure _ s failure _), by rw [noteFailure_fst]⟩

/-- The sessions that are left are closed whatever the answer was; it only counts in the end. -/
theorem resolve_closeNext {e : Exchange} {n : Nat} {rest : List SessionId}
    {failure : Option TransportFailure} (hg : e.goal = .closeNext s n rest failure)
    (w : System) (i : CallId) (reply : Reply) :
    ∃ v failure', Quiet w v ∧
      w.resolve i e reply = v.closeSessions i e.connection failure' rest := by
  obtain ⟨v, hq, he⟩ := resolve_closeNext_eq hg w i reply
  exact ⟨v, _, hq, he⟩

/-- Ending the close of a connection ends the call. -/
theorem concludeClose_effect (w : System) (i : CallId) (closed : Except Error Unit)
    (failure : Option TransportFailure) :
    ∃ v, Quiet w v ∧ w.concludeClose i closed failure = v.finish i (match closed, failure with
      | .error e, _ => .error e
      | .ok (), some f => .error (.transport f)
      | .ok (), none => .ok .unit) := by
  unfold concludeClose
  rcases closed with e | _ <;> rcases failure with _ | f
  · exact ⟨_, .log w _, rfl⟩
  · exact ⟨_, (Quiet.log w _).then_log _, rfl⟩
  · exact ⟨_, .log w _, rfl⟩
  · exact ⟨_, .log w _, rfl⟩

/-- How a close ends, if it comes to a failure or not. -/
def closeOutcome (failure : Option TransportFailure) : Outcome :=
  match failure with
  | some f => .error (.transport f)
  | none => .ok .unit

/-- The answer to the close of the broker connection ends the call; a failure of it comes before
one of a session. -/
theorem resolve_closeBroker {e : Exchange} {failure : Option TransportFailure}
    (hg : e.goal = .closeBroker failure) (w : System) (i : CallId) (reply : Reply) :
    ∃ v, Quiet w v ∧ w.resolve i e reply =
      v.finish i (closeOutcome ((closeFailure? reply.result).or failure)) := by
  have hclosed := normalizeClose_fst w reply.result
  obtain ⟨v, hv, he⟩ := concludeClose_effect (w.normalizeClose reply.result).2 i
    ((w.normalizeClose reply.result).1.mapError .transport) failure
  refine ⟨v, (quiet_normalizeClose w reply.result).trans hv, ?_⟩
  simp only [resolve, hg]
  rw [he, hclosed]
  cases closeFailure? reply.result with
  | none => cases failure <;> rfl
  | some f => rfl

/-- A call that ends with the answer. -/
theorem resolve_last {e : Exchange} (hg : e.goal.isLast = true) (w : System) (i : CallId)
    (reply : Reply) : ∃ v, Quiet w v ∧ (w.resolve i e reply = v.finish i (.ok .unit) ∨
      ∃ f, w.resolve i e reply = v.fail i f) := by
  cases hgoal : e.goal with
  | discardSession s n =>
    have hq := quiet_sessionShut w s n reply
    simp only [resolve, hgoal]
    split
    next heq =>
      rw [heq] at hq
      exact ⟨_, hq, .inr ⟨_, rfl⟩⟩
    next heq =>
      rw [heq] at hq
      exact ⟨_, hq.then_log _, .inr ⟨_, rfl⟩⟩
  | closeSession s n =>
    have hq := quiet_sessionShut w s n reply
    simp only [resolve, hgoal]
    split
    next heq =>
      rw [heq] at hq
      exact ⟨_, hq, .inl rfl⟩
    next heq =>
      rw [heq] at hq
      exact ⟨_, hq, .inr ⟨_, rfl⟩⟩
  | closeBroker failure =>
    obtain ⟨v, hv, he⟩ := resolve_closeBroker hgoal w i reply
    refine ⟨v, hv, ?_⟩
    rw [he]
    cases (closeFailure? reply.result).or failure with
    | none => exact .inl rfl
    | some f => exact .inr ⟨_, rfl⟩
  | unsubscribe s name =>
    simp only [resolve, hgoal]
    split
    · exact ⟨_, .log w _, .inl rfl⟩
    · exact ⟨_, .refl w, .inr ⟨_, rfl⟩⟩
  | _ =>
    rw [hgoal] at hg
    cases hg

/-- A broker close that takes too long ends the call with the time that it was given. -/
theorem giveUp_effect (w : System) (i : CallId) (e : Exchange) :
    ∃ v, Quiet w v ∧ w.giveUp i e =
      v.fail i (.closeTimeout (w.connection e.connection).timeout) := by
  unfold giveUp
  exact (concludeClose_effect _ i _ _).imp fun v h => ⟨(Quiet.log w _).trans h.1, h.2⟩

/-- A connection that is not closed is closed at once, and its sessions follow. -/
theorem closeConnection_effect (w : System) (i : CallId) (c : ConnectionId) :
    ((w.connection c).life.isClosed = true ∧
      ∃ v, Quiet w v ∧ w.closeConnection i c = v.finish i (.ok .unit)) ∨
    ((w.connection c).life.isClosed = false ∧
      ∃ (v : System) (rs : List Identifiers), Quiet w v ∧
        w.closeConnection i c =
          ({ v with registries := rs }.modifyConnection c fun x =>
            { x with life := .closed, clientId := none, sessions := [] }).closeSessions i c none
              (w.connection c).sessions) := by
  unfold closeConnection
  simp only
  have hc : (w.log .closeConnection).connection c = w.connection c := rfl
  rw [hc]
  split
  next h => exact .inl ⟨h, _, .log w _, rfl⟩
  next h =>
    refine .inr ⟨by simpa using h, ?_⟩
    split
    · exact ⟨_, w.registries, .log w _, rfl⟩
    · exact ⟨_, _, (Quiet.log w _).then_log _, rfl⟩

/-- What a connection forgets when a session of it is closed by its own caller. -/
def forget (w : System) (s : SessionId) : System :=
  if w.connectionAlive (w.session s).connection then
    w.modifyConnection (w.session s).connection fun x =>
      { x with sessions := x.sessions.filter (· ≠ s) }
  else w

/-- Forgetting a session is a matter of its connection. -/
@[simp] theorem forget_leaves (w : System) (s : SessionId) :
    (w.forget s).now = w.now ∧ (w.forget s).registries = w.registries ∧
    (w.forget s).sessions = w.sessions ∧ (w.forget s).consumers = w.consumers ∧
    (w.forget s).calls = w.calls ∧ (w.forget s).notices = w.notices := by
  unfold forget
  split <;> simp

/-- A session is forgotten by its connection and, unless it was closed before, shut. -/
theorem closeSession_effect (w : System) (i : CallId) (s : SessionId) :
    ∃ v, Quiet w v ∧
      (((w.session s).closed = true ∧ w.closeSession i s = (v.forget s).finish i (.ok .unit)) ∨
      ((w.session s).closed = false ∧
        w.closeSession i s = ((v.forget s).shutSession s).2.ask i (w.session s).connection
          (.closeChannel (w.session s).channel) none
          (.closeSession s ((v.forget s).shutSession s).1))) := by
  -- The log tells of the detachment only where the connection is alive to forget the session.
  obtain ⟨v, hv, h⟩ : ∃ v, Quiet w v ∧ w.closeSession i s =
      if ((v.forget s).session s).closed then (v.forget s).finish i (.ok .unit)
      else ((v.forget s).shutSession s).2.ask i (w.session s).connection
        (.closeChannel (((v.forget s).shutSession s).2.session s).channel) none
        (.closeSession s ((v.forget s).shutSession s).1) := by
    have hl : ∀ e, (w.log e).connectionAlive ((w.log e).session s).connection =
        w.connectionAlive (w.session s).connection := fun _ => rfl
    by_cases ha : w.connectionAlive (w.session s).connection = true
    · refine ⟨(w.log (.closeSession (w.numberOf s))).log (.sessionDetached (w.numberOf s)
        ((w.connection (w.session s).connection).sessions.contains s)),
        (Quiet.log w _).then_log _, ?_⟩
      have hll : ∀ e e', ((w.log e).log e').connectionAlive
          (((w.log e).log e').session s).connection =
          w.connectionAlive (w.session s).connection := fun _ _ => rfl
      simp only [closeSession, forget, hl, hll, ha, if_true]
      rfl
    · refine ⟨w.log (.closeSession (w.numberOf s)), .log w _, ?_⟩
      simp only [closeSession, forget, hl, ha]
      rfl
  have hs : (v.forget s).session s = w.session s := by
    rw [← hv.session]
    exact session_congr (forget_leaves v s).2.2.1 s
  have hch : (((v.forget s).shutSession s).2.session s).channel = (w.session s).channel := by
    rw [← hs]
    exact session_shutSession_of (g := Session.channel) (fun _ => rfl) _ s s
  rw [hs, hch] at h
  refine ⟨v, hv, ?_⟩
  rw [h]
  by_cases hc : (w.session s).closed = true
  · exact .inl ⟨hc, if_pos hc⟩
  · exact .inr ⟨by simpa using hc, if_neg hc⟩

/-! ## Creating sessions -/

/-- All that asking for a session can come to. The call fails on a closed connection, with or
without the end of the time for setting the identifier, since a factory method looks first.
Otherwise the time is over and the call asks for a channel. -/
theorem createSession_effect (w : System) (i : CallId) (c : ConnectionId) (transacted : Bool)
    (mode : AckMode) (via : Option Domain) :
    ∃ v, Quiet w v ∧
      (((w.connection c).life.isClosed = true ∧
        (w.createSession i c transacted mode via = v.fail i (.closed .connection) ∨
          w.createSession i c transacted mode via =
            (v.closeIdentifierWindow c).fail i (.closed .connection))) ∨
      ((w.connection c).life.isClosed = false ∧
        w.createSession i c transacted mode via =
          (v.closeIdentifierWindow c).ask i c .createChannel none
            (.openSession transacted mode))) := by
  have hw : ∀ v, Quiet w v → (v.closeIdentifierWindow c).connectionClosed c =
      (w.connection c).life.isClosed := by
    intro v hv
    rw [connectionClosed, closeIdentifierWindow, ← hv.connection c]
    exact congrArg Lifecycle.isClosed
      (connection_modifyConnection_of (g := Connection.life) (by intro _; rfl) v c c)
  -- The calls for one kind of session look at the connection once before the window closes.
  have key : ∀ v, Quiet w v →
      ((w.connection c).life.isClosed = true ∧
        (if (v.closeIdentifierWindow c).connectionClosed c then
          (v.closeIdentifierWindow c).fail i (.closed .connection)
        else (v.closeIdentifierWindow c).ask i c .createChannel none
          (.openSession transacted mode)) =
          (v.closeIdentifierWindow c).fail i (.closed .connection)) ∨
      ((w.connection c).life.isClosed = false ∧
        (if (v.closeIdentifierWindow c).connectionClosed c then
          (v.closeIdentifierWindow c).fail i (.closed .connection)
        else (v.closeIdentifierWindow c).ask i c .createChannel none
          (.openSession transacted mode)) =
          (v.closeIdentifierWindow c).ask i c .createChannel none
            (.openSession transacted mode)) := by
    intro v hv
    rw [hw v hv]
    cases (w.connection c).life.isClosed <;> simp
  have h1 : Quiet w (w.log (.createSession transacted mode)) := .log w _
  cases via with
  | none =>
    refine ⟨_, h1, ?_⟩
    rcases key _ h1 with ⟨hc, he⟩ | ⟨hc, he⟩
    · exact .inl ⟨hc, .inr he⟩
    · exact .inr ⟨hc, he⟩
  | some d =>
    by_cases hcl : (w.connection c).life.isClosed = true
    · refine ⟨w.log (.createSessionFor d), .log w _, .inl ⟨hcl, .inl ?_⟩⟩
      have hc' : (w.log (.createSessionFor d)).connectionClosed c = true := hcl
      simp only [createSession, Option.isSome_some, Bool.true_and, hc', if_true]
    · have h2 := (Quiet.log w (.createSessionFor d)).then_log (.createSession transacted mode)
      refine ⟨_, h2, ?_⟩
      have hc' : (w.log (.createSessionFor d)).connectionClosed c = false :=
        Bool.eq_false_iff.2 hcl
      rcases key _ h2 with ⟨hc, _⟩ | ⟨hc, hk⟩
      · exact absurd hc hcl
      · refine .inr ⟨hc, Eq.trans ?_ hk⟩
        simp only [createSession, Option.isSome_some, Bool.true_and, hc', Bool.false_eq_true,
          if_false]

/-- The session that is made of a channel. -/
def newSession (w : System) (c : ConnectionId) (channel : Nat) (transacted : Bool)
    (mode : AckMode) : Session :=
  { connection := c, number := (w.connection c).nextNumber, transacted, channel
    mode := if transacted then .sessionTransacted else mode }

/-- A client with one session more, numbered by its connection. -/
def enroll (w : System) (c : ConnectionId) (x : Session) : System :=
  ({ w with sessions := w.sessions ++ [x] } : System).modifyConnection c fun x =>
    { x with nextNumber := x.nextNumber + 1 }

/-- A new session is added to the sessions, and its connection counts it. -/
@[simp] theorem enroll_leaves (w : System) (c : ConnectionId) (x : Session) :
    (w.enroll c x).now = w.now ∧ (w.enroll c x).registries = w.registries ∧
    (w.enroll c x).sessions = w.sessions ++ [x] ∧ (w.enroll c x).consumers = w.consumers ∧
    (w.enroll c x).calls = w.calls ∧ (w.enroll c x).notices = w.notices :=
  ⟨rfl, rfl, rfl, rfl, rfl, rfl⟩

/-- A session that is opened too late is shut at once. -/
theorem openSession_closed (h : (w.connection c).life.isClosed = true) (i : CallId) (k : Nat)
    (transacted : Bool) (mode : AckMode) :
    w.openSession i c k transacted mode =
      ((w.enroll c (w.newSession c k transacted mode)).shutSession w.sessions.length).2.ask i c
        (.closeChannel k) none (.discardSession w.sessions.length
          ((w.enroll c (w.newSession c k transacted mode)).shutSession w.sessions.length).1) := by
  unfold openSession
  simp only [h, if_true]
  rfl

/-- A session that is opened in time is registered, and receives if the connection is started. -/
theorem openSession_open (h : (w.connection c).life.isClosed = false) (i : CallId) (k : Nat)
    (transacted : Bool) (mode : AckMode) :
    ∃ v, Quiet (w.enroll c
        { w.newSession c k transacted mode with
          delivery := if (w.connection c).life = .started then .running else .paused }) v ∧
      w.openSession i c k transacted mode =
        (v.modifyConnection c fun x =>
          { x with sessions := x.sessions ++ [w.sessions.length] }).finish i
          (.ok (.session w.sessions.length)) := by
  unfold openSession
  simp only [h, Bool.false_eq_true, if_false]
  -- A connection that delivers resumes the new session at once, with a log line of its own.
  by_cases hs : (w.connection c).life = .started
  · have hm : (w.enroll c (w.newSession c k transacted mode)).modifySession w.sessions.length
        (fun x => { x with delivery := .running }) =
        w.enroll c { w.newSession c k transacted mode with delivery := .running } := by
      have := modify_append_self w.sessions (w.newSession c k transacted mode)
        fun x => { x with delivery := .running }
      rw [modifySession, (enroll_leaves w c _).2.2.1, this]
      rfl
    have hx : (w.enroll c (w.newSession c k transacted mode)).session w.sessions.length =
        w.newSession c k transacted mode := by
      simp [session]
    have hr : (w.enroll c (w.newSession c k transacted mode)).resumeSession w.sessions.length =
        (w.enroll c { w.newSession c k transacted mode with delivery := .running }).log
          (.resumed (w.connection c).nextNumber) := by
      rw [← hm, resumeSession, setDelivery, numberOf, hx]
      rfl
    refine ⟨((w.enroll c { w.newSession c k transacted mode with delivery := .running }).log
      (.resumed (w.connection c).nextNumber)).log (.sessionCreated (w.connection c).nextNumber),
      ?_, ?_⟩
    · simp only [hs, if_true]
      exact (Quiet.log _ _).then_log _
    · have hr' := congrArg (fun v : System => (v.modifyConnection c fun x =>
        { x with sessions := x.sessions ++ [w.sessions.length] }).log
        (.sessionCreated (w.connection c).nextNumber)) hr
      simp only [hs, if_true]
      exact congrArg (fun v : System => v.finish i (.ok (.session w.sessions.length))) hr'
  · refine ⟨(w.enroll c (w.newSession c k transacted mode)).log
      (.sessionCreated (w.connection c).nextNumber), ?_, ?_⟩
    · simp only [hs, if_false]
      exact Quiet.log _ _
    · simp only [hs, if_false]
      rfl

/-! ## Durable subscriptions -/

/-- A new consumer takes the name, if nobody holds it, and the broker is asked. -/
theorem subscribe_effect (w : System) (i : CallId) (s : SessionId) (d : Destination)
    (name : String) :
    (∃ e, e.isTransport = false ∧ w.subscribe i s d name = w.fail i e) ∨
    ((w.session s).closed = false ∧ d.isTopic = true ∧ ∃ claim v u,
      w.claimName (w.session s).connection name w.consumers.length d = .ok (claim, v) ∧
      Quiet { v with consumers := v.consumers ++
        [{ session := s, destination := d, subscription := some name }] } u ∧
      (((∃ previous, claim = .retarget previous) ∧
        w.subscribe i s d name = u.ask i (w.session s).connection
          (.delete (w.session s).channel name) none
          (.retarget s w.consumers.length name claim)) ∨
        w.subscribe i s d name = u.ask i (w.session s).connection
          (.declare (w.session s).channel d.name name) none
          (.declare s w.consumers.length name claim))) := by
  unfold subscribe
  simp only
  -- A closed session, a destination that is no topic and a name that is held refuse, in this order.
  split
  · exact .inl ⟨_, rfl, rfl⟩
  next hc =>
    split
    · exact .inl ⟨_, rfl, rfl⟩
    next ht =>
      split
      · exact .inl ⟨_, rfl, rfl⟩
      next claim v h =>
        refine .inr ⟨by simpa using hc, by simpa using ht, claim, v, ?_⟩
        cases claim with
        | retarget previous => exact ⟨_, h, .log _ _, .inl ⟨⟨_, rfl⟩, rfl⟩⟩
        | vacant => exact ⟨_, h, .refl _, .inr rfl⟩
        | reattach previous => exact ⟨_, h, .refl _, .inr rfl⟩

/-- A subscription without a live consumer is removed, and the broker is asked. -/
theorem unsubscribe_effect (w : System) (i : CallId) (s : SessionId) (name : String) :
    (∃ e, e.isTransport = false ∧ w.unsubscribe i s name = w.fail i e) ∨
    ∃ holder subscriptions,
      (w.connection (w.session s).connection).subscriptions.removeInactive w.consumerClosed name =
        .ok (holder, subscriptions) ∧
      w.unsubscribe i s name = (w.modifyConnection (w.session s).connection fun c =>
          { c with subscriptions := subscriptions }).ask i (w.session s).connection
        (.delete (w.session s).channel name) none (.unsubscribe s name) := by
  unfold unsubscribe
  simp only
  split
  · exact .inl ⟨_, rfl, rfl⟩
  · split
    · exact .inl ⟨_, rfl, rfl⟩
    · exact .inl ⟨_, rfl, rfl⟩
    next h => exact .inr ⟨_, _, h, rfl⟩

/-- Once the subscription is deleted it is declared again; if that failed, the name is given up. -/
theorem resolve_retarget {e : Exchange} {s : SessionId} {x : ConsumerId} {name : String}
    {claim : Claim} (hg : e.goal = .retarget s x name claim) (w : System) (i : CallId)
    (reply : Reply) :
    w.resolve i e reply = w.ask i e.connection
      (.declare (w.session s).channel (w.destinationOf x).name name) none
      (.declare s x name claim) ∨
    ∃ f, w.resolve i e reply = (w.abandonName e.connection name x claim).fail i f := by
  simp only [resolve, hg]
  split
  · exact .inl rfl
  · exact .inr ⟨_, rfl⟩

/-- Once the subscription is declared the session takes the consumer, unless it is closed. -/
theorem resolve_declare {e : Exchange} {s : SessionId} {x : ConsumerId} {name : String}
    {claim : Claim} (hg : e.goal = .declare s x name claim) (w : System) (i : CallId)
    (reply : Reply) :
    w.resolve i e reply = (w.adopt s x).2.finish i (.ok (.consumer x)) ∨
    (∃ f, w.resolve i e reply = (w.adopt s x).2.fail i f) ∨
    ∃ f, w.resolve i e reply = (w.abandonName e.connection name x claim).fail i f := by
  simp only [resolve, hg]
  split
  · split
    next heq =>
      rw [heq]
      exact .inl rfl
    next heq =>
      rw [heq]
      exact .inr (.inl ⟨_, rfl⟩)
  · exact .inr (.inr ⟨_, rfl⟩)

/-! ## Publishing -/

/-- The number that the broker gives for the next message of a session. -/
def announcedTag (w : System) (s : SessionId) : Nat :=
  let x := w.session s
  let c := w.connection x.connection
  ((takeFault .nextTag (some x.channel) c.faults).1.bind (·.tag)).getD
    (c.broker.nextTag x.channel)

/-- A client that has read that number, and awaits the outcome of the message if it is tracked. -/
def readyToPublish (w : System) (s : SessionId) (m : Message) (tracked : Bool) : System :=
  let x := w.session s
  let faults := (takeFault .nextTag (some x.channel) (w.connection x.connection).faults).2
  let v := w.modifyConnection x.connection fun c => { c with faults := faults }
  if tracked then
    v.modifySession s fun x => { x with pending := x.pending.track (w.announcedTag s) m }
  else v

/-- Publishing is in two parts: what is done before the message is sent, and sending it. -/
theorem publish_eq (w : System) (i : CallId) (s : SessionId) (m : Message) (tracked : Bool) :
    w.publish i s m tracked =
      (w.readyToPublish s m tracked).ask i (w.session s).connection
        (.publish (w.session s).channel m) none (.publish s (w.announcedTag s) tracked) := by
  cases tracked <;> rfl

/-- Before a message is sent, a fault may be used and the message may be awaited, and that is all.
-/
@[simp] theorem readyToPublish_leaves (w : System) (s : SessionId) (m : Message)
    (tracked : Bool) :
    (w.readyToPublish s m tracked).now = w.now ∧
    (w.readyToPublish s m tracked).registries = w.registries ∧
    (w.readyToPublish s m tracked).consumers = w.consumers ∧
    (w.readyToPublish s m tracked).calls = w.calls ∧
    (w.readyToPublish s m tracked).notices = w.notices := by
  cases tracked <;> exact ⟨rfl, rfl, rfl, rfl, rfl⟩

/-- A client in which call `i` has its place among those that publish on a session. -/
def takePlace (w : System) (i : CallId) (s : SessionId) : System :=
  w.modifySession s fun y => { y with turns := y.turns ++ [i] }

/-- Whether a message is tracked depends on the listener that is installed when it is sent. -/
theorem send_effect (w : System) (i : CallId) (s : SessionId) (m : Message) :
    w.send i s m = w.fail i (.closed .session) ∨
    ((w.session s).turns = [] ∧
      w.send i s m = (w.takePlace i s).publish i s m (w.session s).listener.isSome) ∨
    w.send i s m = (w.takePlace i s).setCall i (.turn s m (w.session s).listener.isSome) := by
  unfold send
  simp only
  split
  · exact .inl rfl
  · split
    next h => exact .inr (.inl ⟨List.isEmpty_iff.1 h, rfl⟩)
    next => exact .inr (.inr rfl)

/-- A call that has published, or failed to, gives its turn away; a message that failed is awaited
no longer. -/
theorem endPublish_effect (w : System) (i : CallId) (s : SessionId) (tag : Nat) (tracked : Bool)
    (result : Except TransportFailure Unit) :
    (result = .ok () ∧ w.endPublish i s tag tracked result =
      (w.modifySession s fun x => { x with turns := x.turns.erase i }).finish i (.ok .unit)) ∨
    ∃ e, result = .error e ∧ w.endPublish i s tag tracked result =
      (w.modifySession s fun x => { x with
        turns := x.turns.erase i
        pending := if tracked then x.pending.discard tag else x.pending }).fail i
          (.transport e) := by
  cases result with
  | ok => exact .inl ⟨rfl, rfl⟩
  | error e =>
    refine .inr ⟨e, rfl, ?_⟩
    cases tracked with
    | true =>
      simp only [endPublish, modifySession, if_true, List.modify_modify_eq]
      rfl
    | false => rfl

/-- Waiting for delivery gives nothing, or an error. -/
theorem resumption_cases {x : ConsumerId} {o : Outcome} (h : w.resumption x = some o) :
    o = .ok .unit ∨ ∃ e, o = .error e := by
  unfold resumption at h
  split at h
  · split at h <;> cases h
    exact .inr ⟨_, rfl⟩
  · split at h <;> cases h
    · exact .inr ⟨_, rfl⟩
    · exact .inl rfl
  · cases h
    exact .inr ⟨_, rfl⟩

/-! ## Starting -/

/-- A client with one call more, which has not run yet. -/
def enlist (w : System) (x : Call) : System := { w with calls := w.calls ++ [{ call := x }] }

/-- Starting a call is in two parts: it is added, and then it runs. -/
theorem call_eq (w : System) (x : Call) :
    (w.call x).2 = (w.enlist x).begin w.calls.length x := rfl

/-- A call that is added has done nothing yet. -/
@[simp] theorem enlist_leaves (w : System) (x : Call) :
    (w.enlist x).now = w.now ∧ (w.enlist x).registries = w.registries ∧
    (w.enlist x).connections = w.connections ∧ (w.enlist x).sessions = w.sessions ∧
    (w.enlist x).consumers = w.consumers ∧
    (w.enlist x).calls = w.calls ++ [{ call := x }] ∧ (w.enlist x).notices = w.notices :=
  ⟨rfl, rfl, rfl, rfl, rfl, rfl, rfl⟩

/-! ## Going on -/

/-- A request of call `i` takes effect at the broker; the answer is on its way. -/
def takeEffect (w : System) (i : CallId) (e : Exchange) (after : Nat) : System :=
  let answer := (w.connection e.connection).broker.perform e.request
  (w.modifyConnection e.connection fun x => { x with broker := answer.2 }).setCall i (.exchange
    { e with stage := .answered answer.1, wake := w.now + answer.2.lag answer.1 + after })

/-- A call goes on when it has its turn, when its exchange is due, or when its session receives. -/
theorem resume?_cases {u : System} (h : w.resume? i = some u) :
    (∃ s m tracked, w.progress? i = some (.turn s m tracked) ∧
      (w.session s).turns.head? = some i ∧ u = w.publish i s m tracked) ∨
    (∃ e reply, w.progress? i = some (.exchange e) ∧ e.wake ≤ w.now ∧
      ((∃ f after, e.stage = .before (some f) after ∧ reply = .failed f) ∨
        e.stage = .answered reply) ∧ u = w.resolve i e reply) ∨
    (∃ e after, w.progress? i = some (.exchange e) ∧ e.wake ≤ w.now ∧
      e.stage = .before none after ∧ u = w.takeEffect i e after) ∨
    (∃ e limit, w.progress? i = some (.exchange e) ∧ e.limit = some limit ∧ limit ≤ w.now ∧
      w.now < e.wake ∧ u = w.giveUp i e) ∨
    (∃ c o, w.progress? i = some (.resumption c) ∧ w.resumption c = some o ∧
      u = w.finish i o) := by
  unfold resume? at h
  split at h
  next s m tracked hp =>
    split at h
    next hh =>
      cases h
      exact .inl ⟨s, m, tracked, hp, hh, rfl⟩
    next => cases h
  next e hp =>
    unfold advance? at h
    -- The answer is looked at before the limit: at exactly the limit it still counts.
    split at h
    next hw =>
      split at h
      next f after hs =>
        cases h
        exact .inr (.inl ⟨e, _, hp, hw, .inl ⟨f, after, hs, rfl⟩, rfl⟩)
      next after hs =>
        cases h
        exact .inr (.inr (.inl ⟨e, after, hp, hw, hs, rfl⟩))
      next reply hs =>
        cases h
        exact .inr (.inl ⟨e, reply, hp, hw, .inr hs, rfl⟩)
    next hw =>
      split at h
      next limit hl =>
        split at h
        next hle =>
          cases h
          exact .inr (.inr (.inr (.inl ⟨e, limit, hp, hl, hle, by omega, rfl⟩)))
        next => cases h
      next => cases h
  next c hp =>
    obtain ⟨o, ho, rfl⟩ := Option.map_eq_some_iff.1 h
    exact .inr (.inr (.inr (.inr ⟨c, o, hp, ho, rfl⟩)))
  next => cases h

/-- A call that waits for the broker goes on in its exchange. -/
theorem resume_exchange {e : Exchange} {v : System} (hp : w.progress? i = some (.exchange e))
    (h : w.resume? i = some v) :
    (∃ reply, e.wake ≤ w.now ∧ ((∃ f after, e.stage = .before (some f) after ∧
      reply = .failed f) ∨ e.stage = .answered reply) ∧ v = w.resolve i e reply) ∨
    (∃ after, e.wake ≤ w.now ∧ e.stage = .before none after ∧ v = w.takeEffect i e after) ∨
    ∃ limit, e.limit = some limit ∧ limit ≤ w.now ∧ w.now < e.wake ∧ v = w.giveUp i e := by
  have hsame : ∀ {e'}, w.progress? i = some (.exchange e') → e' = e := by
    intro e' hp'
    rw [hp] at hp'
    exact (Progress.exchange.inj (Option.some.inj hp')).symm
  rcases resume?_cases h with ⟨_, _, _, hp', _⟩ | ⟨e', reply, hp', hw, hs, rfl⟩ |
    ⟨e', after, hp', hw, hs, rfl⟩ | ⟨e', limit, hp', hl, hle, hlt, rfl⟩ | ⟨_, _, hp', _⟩
  · rw [hp] at hp'
    cases hp'
  · obtain rfl := hsame hp'
    exact .inl ⟨reply, hw, hs, rfl⟩
  · obtain rfl := hsame hp'
    exact .inr (.inl ⟨after, hw, hs, rfl⟩)
  · obtain rfl := hsame hp'
    exact .inr (.inr ⟨limit, hl, hle, hlt, rfl⟩)
  · rw [hp] at hp'
    cases hp'

end System

end BrokerClient
