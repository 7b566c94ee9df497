import BrokerClient.Proofs.Confirms

/-!
# The order of the messages sent

A session has one publish lock. Calls that send take their places at it in the order in which they
come, and only the first of them publishes. `Lane` is the lock of one session together with the
record of its channel; a step moves one call on at most, whatever the broker's side does
(`System.lanes_step`).

The calls that have left the lock come before those that are still at it, in the order of their
arrivals. So the record is what those that returned well have sent, in that order, and at most one
message more: that of the call that has its turn, once the broker has recorded it (`Lane.Holds`,
`System.send_order`).

The lock is first come, first served, and nothing of this is visible to the broker. `Holds` says
what it comes to: only the first call at the lock publishes, its message is recorded or not, and the
record is what those before it have delivered and then, perhaps, this one message. Coming,
beginning, recording and leaving keep it (`Holds.move`).

Time and the reports of the broker do not matter here, nor do faults: a call that fails leaves the
lock without having delivered anything.
-/

namespace BrokerClient

/-- What a call does at the publish lock of a session. -/
inductive Stand where
  | aside
  | waiting (m : Message)
  /-- It publishes, and knows whether the broker has recorded the message. -/
  | publishing (m : Message) (recorded : Bool)

/-- The message of a call that publishes, if it is recorded. -/
def Stand.recorded? : Stand → Option Message
  | .publishing m true => some m
  | _ => none

/-- What a sender does at the lock of session `s`: whoever sends elsewhere stands aside here. -/
def Sender.stand (s : SessionId) : Sender → Stand
  | .idle => .aside
  | .waiting t m _ => if t = s then .waiting m else .aside
  | .sending t m _ _ recorded => if t = s then .publishing m recorded else .aside

/-- The publish lock of a session, and the record of its channel. -/
structure Lane where
  /-- Those at the lock, in the order in which they came. -/
  turns : List CallId
  record : List Message
  stand : CallId → Stand

namespace Lane

/-- Call `i` does `x` from now on. -/
def assign (p : Lane) (i : CallId) (x : Stand) : Lane :=
  { p with stand := fun j => if i = j then x else p.stand j }

@[simp] theorem stand_assign_self (p : Lane) (i : CallId) (x : Stand) :
    (p.assign i x).stand i = x := if_pos rfl

theorem stand_assign_ne {i j : CallId} (h : i ≠ j) (p : Lane) (x : Stand) :
    (p.assign i x).stand j = p.stand j := if_neg h

/-- A call that goes on with what it does leaves the lock as it was. -/
theorem assign_eq_self {p : Lane} {i : CallId} {x : Stand} (h : p.stand i = x) :
    p.assign i x = p := by
  obtain ⟨turns, record, stand⟩ := p
  have hs : (fun j => if i = j then x else stand j) = stand := by
    funext j
    split
    next hij => rw [← hij, ← h]
    next => rfl
  show Lane.mk turns record (fun j => if i = j then x else stand j) = ⟨turns, record, stand⟩
  rw [hs]

/-- What can happen at the lock in a step. -/
inductive Move (p : Lane) : Lane → Prop where
  /-- A call takes its place, and publishes if nobody is before it. -/
  | come {i m x} (hi : p.stand i = .aside)
    (hx : x = .waiting m ∨ (p.turns = [] ∧ x = .publishing m false)) :
    Move p ({ p with turns := p.turns ++ [i] }.assign i x)
  | start {i m} (hi : p.stand i = .waiting m) (hfirst : p.turns.head? = some i) :
    Move p (p.assign i (.publishing m false))
  | record {i m} (hi : p.stand i = .publishing m false) :
    Move p ({ p with record := p.record ++ [m] }.assign i (.publishing m true))
  | leave {i m r} (hi : p.stand i = .publishing m r) :
    Move p ({ p with turns := p.turns.erase i }.assign i .aside)

/-- The message of the call that has its turn, if the broker has recorded it. -/
def inTurn? (p : Lane) : Option Message := p.turns.head?.bind fun i => (p.stand i).recorded?

/-- What holds at the lock when the calls that have left it have delivered these messages. -/
structure Holds (p : Lane) (given : List Message) : Prop where
  nodup : p.turns.Nodup
  standing : ∀ i ∈ p.turns, p.stand i ≠ .aside
  leads : ∀ {i m r}, p.stand i = .publishing m r → p.turns.head? = some i
  record : p.record = given ++ p.inTurn?.toList

/-- Nobody comes or goes, or one call comes, or the first one goes; then its message was delivered
just if it was recorded. -/
inductive Change (p q : Lane) (given : List Message) : Prop where
  | stay (ht : q.turns = p.turns) (h : q.Holds given)
  | come (i : CallId) (hi : p.stand i = .aside) (hq : q.stand i ≠ .aside)
    (ht : q.turns = p.turns ++ [i]) (h : q.Holds given)
  | leave (i : CallId) (m : Message) (r : Bool) (hi : p.stand i = .publishing m r)
    (hq : q.stand i = .aside) (ht : p.turns = i :: q.turns)
    (h : q.Holds (given ++ if r then [m] else []))

variable {p q : Lane} {given : List Message} {i j : CallId} {m : Message}

/-- Only the first call can have its message recorded. -/
theorem inTurn?_of_head (h : p.turns.head? = some i) : p.inTurn? = (p.stand i).recorded? := by
  rw [inTurn?, h]
  rfl

/-- A call that comes last, with nothing recorded, leaves to whom it was the turn. -/
theorem inTurn?_of_arrival (ht : q.turns = p.turns ++ [i])
    (hother : ∀ {j}, j ∈ p.turns → q.stand j = p.stand j) (hi : (q.stand i).recorded? = none) :
    q.inTurn? = p.inTurn? := by
  cases hp : p.turns with
  | nil =>
    -- The call that came is the first one.
    have hhead : q.turns.head? = some i := by rw [ht, hp]; rfl
    rw [inTurn?_of_head hhead, hi, inTurn?, hp]
    rfl
  | cons j rest =>
    have hfirst : p.turns.head? = some j := by rw [hp]; rfl
    have hhead : q.turns.head? = some j := by rw [ht, hp]; rfl
    rw [inTurn?_of_head hhead, inTurn?_of_head hfirst, hother (hp ▸ List.mem_cons_self)]

/-- The one that comes is the last, and nothing of it is recorded yet. -/
theorem Holds.come (h : p.Holds given) (hi : p.stand i = .aside) {x : Stand}
    (hx : x = .waiting m ∨ (p.turns = [] ∧ x = .publishing m false)) :
    Change p ({ p with turns := p.turns ++ [i] }.assign i x) given := by
  have hnew : i ∉ p.turns := fun hm => h.standing i hm hi
  have haside : x ≠ .aside := by
    rcases hx with rfl | ⟨_, rfl⟩ <;> exact Stand.noConfusion
  generalize hq : ({ p with turns := p.turns ++ [i] }.assign i x : Lane) = q
  have hturns : q.turns = p.turns ++ [i] := by rw [← hq]; rfl
  have hself : q.stand i = x := by rw [← hq, stand_assign_self]
  have hother : ∀ {j}, i ≠ j → q.stand j = p.stand j := fun hij => by
    rw [← hq, stand_assign_ne hij]
  refine .come i hi (hself ▸ haside) hturns ⟨?nodup, ?standing, ?leads, ?record⟩
  case nodup =>
    rw [hturns, List.nodup_append]
    refine ⟨h.nodup, List.pairwise_singleton _ i, fun j hj k hk => ?_⟩
    rw [List.mem_singleton.1 hk]
    rintro rfl
    exact hnew hj
  case standing =>
    intro j hj
    rw [hturns] at hj
    by_cases hij : i = j
    · subst hij
      exact hself ▸ haside
    · rw [hother hij]
      refine h.standing j ((List.mem_append.1 hj).resolve_right fun hm => ?_)
      exact hij (List.mem_singleton.1 hm).symm
  case leads =>
    intro j n r hj
    rw [hturns]
    by_cases hij : i = j
    · subst hij
      rw [hself] at hj
      rcases hx with rfl | ⟨hnil, rfl⟩
      · cases hj
      · rw [hnil]
        rfl
    · rw [hother hij] at hj
      rw [List.head?_append, h.leads hj]
      rfl
  case record =>
    have hrec : q.record = p.record := by rw [← hq]; rfl
    have hquiet : (q.stand i).recorded? = none := by
      rw [hself]
      rcases hx with rfl | ⟨_, rfl⟩ <;> rfl
    rw [hrec, inTurn?_of_arrival hturns (fun hj => hother (by rintro rfl; exact hnew hj)) hquiet]
    exact h.record

/-- The first one publishes. -/
theorem Holds.publish (h : p.Holds given) (hfirst : p.turns.head? = some i) {r : Bool}
    {record : List Message}
    (hr : record = given ++ (Stand.publishing m r).recorded?.toList) :
    ({ p with record := record }.assign i (.publishing m r)).Holds given := by
  generalize hq : ({ p with record := record }.assign i (.publishing m r) : Lane) = q
  have hturns : q.turns = p.turns := by rw [← hq]; rfl
  have hself : q.stand i = .publishing m r := by rw [← hq, stand_assign_self]
  have hother : ∀ {j}, i ≠ j → q.stand j = p.stand j := fun hij => by
    rw [← hq, stand_assign_ne hij]
  have hhead : q.turns.head? = some i := hturns ▸ hfirst
  refine ⟨hturns ▸ h.nodup, fun j hj => ?_, fun {j n r} hj => ?_, ?_⟩
  · by_cases hij : i = j
    · subst hij
      rw [hself]
      exact Stand.noConfusion
    · rw [hother hij]
      exact h.standing j (hturns ▸ hj)
  · by_cases hij : i = j
    · exact hij ▸ hhead
    · rw [hother hij] at hj
      rw [hturns]
      exact h.leads hj
  · rw [inTurn?_of_head hhead, hself, ← hq]
    exact hr

/-- A call that begins to publish has nothing recorded. -/
theorem Holds.start (h : p.Holds given) (hi : p.stand i = .waiting m)
    (hfirst : p.turns.head? = some i) : (p.assign i (.publishing m false)).Holds given := by
  refine h.publish hfirst ?_
  rw [h.record, inTurn?_of_head hfirst, hi]
  rfl

/-- The message that is recorded is that of the call in turn, so it goes to the end of the record
and is not delivered yet. -/
theorem Holds.recorded (h : p.Holds given) (hi : p.stand i = .publishing m false) :
    ({ p with record := p.record ++ [m] }.assign i (.publishing m true)).Holds given := by
  have hfirst := h.leads hi
  refine h.publish hfirst ?_
  rw [h.record, inTurn?_of_head hfirst, hi]
  show (given ++ []) ++ [m] = given ++ [m]
  rw [List.append_nil]

/-- The one that leaves is the first. What was in turn is delivered now, and the next one has
nothing recorded. -/
theorem Holds.leave (h : p.Holds given) {r : Bool} (hi : p.stand i = .publishing m r) :
    Change p ({ p with turns := p.turns.erase i }.assign i .aside) given := by
  have hfirst := h.leads hi
  obtain ⟨rest, hp⟩ : ∃ rest, p.turns = i :: rest := List.head?_eq_some_iff.1 hfirst
  have hnodup := h.nodup
  rw [hp, List.nodup_cons] at hnodup
  generalize hq : ({ p with turns := p.turns.erase i }.assign i .aside : Lane) = q
  have hturns : q.turns = rest := by
    rw [← hq]
    show p.turns.erase i = rest
    rw [hp, List.erase_cons_head]
  have hself : q.stand i = .aside := by rw [← hq, stand_assign_self]
  have hother : ∀ {j}, i ≠ j → q.stand j = p.stand j := fun hij => by
    rw [← hq, stand_assign_ne hij]
  -- The one that leaves was the only one to publish.
  have hidle : ∀ j n r, q.stand j ≠ .publishing n r := by
    intro j n r hj
    by_cases hij : i = j
    · subst hij
      rw [hself] at hj
      cases hj
    · rw [hother hij] at hj
      exact hij (Option.some.inj (hfirst.symm.trans (h.leads hj)))
  refine .leave i m r hi hself (by rw [hp, hturns]) ?_
  have hq' : q.Holds q.record := by
    refine ⟨hturns ▸ hnodup.2, fun j hj => ?_, fun hj => absurd hj (hidle _ _ _), ?_⟩
    · rw [hturns] at hj
      rw [hother fun hij => hnodup.1 (hij ▸ hj)]
      exact h.standing j (hp ▸ List.mem_cons_of_mem i hj)
    · have hnone : q.inTurn? = none := by
        rw [inTurn?, Option.bind_eq_none_iff]
        intro j _
        cases hj : q.stand j with
        | publishing n r => exact absurd hj (hidle j n r)
        | _ => rfl
      rw [hnone]
      exact (List.append_nil _).symm
  have hrec : q.record = given ++ if r then [m] else [] := by
    have hr := h.record
    rw [inTurn?_of_head hfirst, hi] at hr
    rw [← hq]
    show p.record = _
    rw [hr]
    cases r <;> rfl
  rwa [← hrec]

/-- Whatever happens at the lock, what has been delivered and what is in turn make up the record. -/
theorem Holds.move (h : p.Holds given) (hm : Move p q) : Change p q given := by
  cases hm with
  | come hi hx => exact h.come hi hx
  | start hi hfirst => exact .stay rfl (h.start hi hfirst)
  | record hi => exact .stay rfl (h.recorded hi)
  | leave hi => exact h.leave hi

end Lane

/-! ## The lock of a session -/

/-- The lock of session `s`, whose channel is `a`. -/
def Post.lane (p : Post) (s : SessionId) (a : Option (ConnectionId × Nat)) : Lane where
  turns := (p.desk s).turns
  record := a.elim [] fun a => (p.box a.1 a.2).record
  stand i := (p.sender i).stand s

namespace Post

variable {A : SessionId → Option (ConnectionId × Nat)} {p q : Post} {i : CallId}
  {s t : SessionId} {m : Message} {a : Option (ConnectionId × Nat)}

/-- The lock of a session shows the turns there, the records and the senders, and nothing else. -/
theorem lane_congr (ht : (q.desk s).turns = (p.desk s).turns)
    (hb : ∀ c k, (q.box c k).record = (p.box c k).record) (hs : q.sender = p.sender) :
    q.lane s a = p.lane s a := by
  have hr : (q.lane s a).record = (p.lane s a).record := by
    cases a with
    | none => rfl
    | some a => exact hb a.1 a.2
  show Lane.mk _ (q.lane s a).record _ = Lane.mk _ (p.lane s a).record _
  rw [ht, hr, hs]

theorem lane_assign (p : Post) (i : CallId) (r : Sender) (s : SessionId)
    (a : Option (ConnectionId × Nat)) :
    (p.assign i r).lane s a = (p.lane s a).assign i (r.stand s) := by
  show Lane.mk _ _ _ = Lane.mk _ _ _
  congr 1
  funext j
  show ((p.assign i r).sender j).stand s = if i = j then r.stand s else (p.sender j).stand s
  rw [sender_assign]
  split <;> rfl

theorem stand_lane {r : Sender} (h : p.sender i = r) : (p.lane s a).stand i = r.stand s :=
  congrArg (Sender.stand s) h

/-- A change at the desk of another session. -/
theorem lane_atDesk_ne (h : t ≠ s) (f : Desk → Desk) : (p.atDesk t f).lane s a = p.lane s a :=
  lane_congr (by rw [desk_atDesk, if_neg h]) (fun _ _ => rfl) rfl

theorem lane_atDesk_self (f : Desk → Desk) :
    (p.atDesk s f).lane s a = { p.lane s a with turns := (f (p.desk s)).turns } := by
  show Lane.mk _ _ _ = Lane.mk _ _ _
  rw [desk_atDesk, if_pos rfl]
  rfl

theorem lane_desk {f : Desk → Desk} (hf : (f (p.desk t)).turns = (p.desk t).turns) :
    (p.atDesk t f).lane s a = p.lane s a := by
  refine lane_congr ?_ (fun _ _ => rfl) rfl
  rw [desk_atDesk]
  split
  next hts => rw [← hts, hf]
  next => rfl

theorem atDesk_atDesk (p : Post) (s : SessionId) (f g : Desk → Desk) :
    (p.atDesk s f).atDesk s g = p.atDesk s fun d => g (f d) := by
  refine ext (fun t => ?_) (fun _ _ => rfl) (fun _ => rfl) rfl
  simp only [desk_atDesk]
  split <;> rfl

/-- A call comes to the lock of a session; it may begin to publish at once. -/
theorem lane_come {f : Desk → Desk} {r : Sender} (hi : p.sender i = .idle)
    (hf : (f (p.desk t)).turns = (p.desk t).turns ++ [i])
    (hr : r.stand t = .waiting m ∨ ((p.desk t).turns = [] ∧ r.stand t = .publishing m false))
    (hne : t ≠ s → r.stand s = .aside) :
    ((p.atDesk t f).assign i r).lane s a = p.lane s a ∨
      Lane.Move (p.lane s a) (((p.atDesk t f).assign i r).lane s a) := by
  have haside : (p.lane s a).stand i = .aside := stand_lane hi
  rw [lane_assign]
  by_cases hts : t = s
  · subst hts
    right
    rw [lane_atDesk_self, hf]
    exact .come haside hr
  · left
    rw [lane_atDesk_ne hts, Lane.assign_eq_self (haside.trans (hne hts).symm)]

/-- The turn of a call has come. -/
theorem lane_start {f : Desk → Desk} {tracked : Bool} (hi : p.sender i = .waiting t m tracked)
    (hfirst : (p.desk t).turns.head? = some i)
    (hf : (f (p.desk t)).turns = (p.desk t).turns) (tag : Nat) :
    ((p.atDesk t f).assign i (.sending t m tag tracked false)).lane s a = p.lane s a ∨
      Lane.Move (p.lane s a)
        (((p.atDesk t f).assign i (.sending t m tag tracked false)).lane s a) := by
  have hstand : (p.lane s a).stand i = if t = s then .waiting m else .aside := stand_lane hi
  rw [lane_assign, lane_desk hf]
  by_cases hts : t = s
  · subst hts
    right
    rw [if_pos rfl] at hstand
    have hpub : (Sender.sending t m tag tracked false).stand t = .publishing m false := if_pos rfl
    rw [hpub]
    exact .start hstand hfirst
  · left
    rw [if_neg hts] at hstand
    exact Lane.assign_eq_self (hstand.trans (if_neg hts).symm)

/-- A call gives its turn away and sends no more. -/
theorem lane_leave {f : Desk → Desk} {tag : Nat} {tracked recorded : Bool}
    (hi : p.sender i = .sending t m tag tracked recorded)
    (hf : (f (p.desk t)).turns = (p.desk t).turns.erase i) :
    ((p.atDesk t f).assign i .idle).lane s a = p.lane s a ∨
      Lane.Move (p.lane s a) (((p.atDesk t f).assign i .idle).lane s a) := by
  have hstand : (p.lane s a).stand i = if t = s then .publishing m recorded else .aside :=
    stand_lane hi
  rw [lane_assign]
  by_cases hts : t = s
  · subst hts
    right
    rw [if_pos rfl] at hstand
    rw [lane_atDesk_self, hf]
    exact .leave hstand
  · left
    rw [if_neg hts] at hstand
    rw [lane_atDesk_ne hts]
    exact Lane.assign_eq_self hstand

/-- The broker records the message of a call on the channel of its session. No other session has
that channel, so no other lock is concerned. -/
theorem lane_record {c : ConnectionId} {k tag : Nat} {tracked : Bool}
    (hA : ∀ s t a, A s = some a → A t = some a → s = t)
    (hi : p.sender i = .sending t m tag tracked false) (ht : A t = some (c, k)) :
    (p.record i t m tag tracked c k).lane s (A s) = p.lane s (A s) ∨
      Lane.Move (p.lane s (A s)) ((p.record i t m tag tracked c k).lane s (A s)) := by
  have hstand : (p.lane s (A s)).stand i = if t = s then .publishing m false else .aside :=
    stand_lane hi
  rw [Post.record, lane_assign]
  by_cases hts : t = s
  · subst hts
    right
    rw [if_pos rfl] at hstand
    have hpub : (Sender.sending t m tag tracked true).stand t = .publishing m true := if_pos rfl
    have hlane : (p.atBox c k fun b => { b with
        next := b.next + 1
        record := b.record ++ [m] }).lane t (A t) =
        { p.lane t (A t) with record := (p.lane t (A t)).record ++ [m] } := by
      rw [ht]
      show Lane.mk _ _ _ = Lane.mk _ _ _
      simp only [Option.elim_some, box_atBox, and_self, if_true]
      rfl
    rw [hlane, hpub]
    exact .record hstand
  · left
    rw [if_neg hts] at hstand
    have haside : (Sender.sending t m tag tracked true).stand s = .aside := if_neg hts
    rw [haside]
    -- The channel is not that of this session.
    have hlane : (p.atBox c k fun b => { b with
        next := b.next + 1
        record := b.record ++ [m] }).lane s (A s) = p.lane s (A s) := by
      cases hs : A s with
      | none => rfl
      | some b =>
        have hne : ¬(c = b.1 ∧ k = b.2) := by
          rintro ⟨rfl, rfl⟩
          exact hts (hA t s _ ht hs)
        show Lane.mk _ _ _ = Lane.mk _ _ _
        simp only [Option.elim_some, box_atBox, if_neg hne]
        rfl
    rw [hlane, Lane.assign_eq_self hstand]

/-- Reports do not concern the lock. -/
theorem lane_stream (p : Post) (c : ConnectionId) (k : Nat) (es : List ConfirmEvent) :
    (p.stream c k es).lane s a = p.lane s a := by
  refine lane_congr rfl (fun d n => ?_) rfl
  rw [Post.stream, box_atBox]
  split <;> rfl

/-- A move is one at the lock of one session at most. -/
theorem Move.lane {l : Label} (hA : ∀ s t a, A s = some a → A t = some a → s = t)
    (hm : Move A l p q) (s : SessionId) :
    q.lane s (A s) = p.lane s (A s) ∨ Lane.Move (p.lane s (A s)) (q.lane s (A s)) := by
  cases hm with
  | queue hi => exact lane_come hi rfl (.inl (if_pos rfl)) fun h => if_neg h
  | start hi hfirst _ => exact lane_start hi hfirst rfl _
  | @come _ _ i t m tracked c k hi hfirst _ =>
    -- Coming to an empty queue is joining it and starting in one move; the lane sees one step.
    rw [start_queue]
    have hlane : ((p.atDesk t fun d => { d with turns := d.turns ++ [i] }).start i t m tracked c
        k).lane s (A s) = ((p.atDesk t fun d => { d with turns := d.turns ++ [i] }).assign i
          (.sending t m (p.box c k).next tracked false)).lane s (A s) := by
      rw [Post.start, lane_assign, lane_assign, lane_desk rfl]
      rfl
    rw [hlane]
    exact lane_come hi rfl (.inr ⟨hfirst, if_pos rfl⟩) fun h => if_neg h
  | record hi ht => exact lane_record hA hi ht
  | done hi => exact lane_leave hi rfl
  | fail hi => exact lane_leave hi rfl
  | report _ => exact .inl (lane_stream p _ _ _)
  | drop _ => exact .inl (lane_stream p _ _ _)
  | @take _ t c k e rest new _ _ _ =>
    left
    have hsettle : ((p.stream c k rest).settle t e new).lane s (A s) =
        (p.stream c k rest).lane s (A s) :=
      lane_desk (p := p.stream c k rest)
        (f := fun d => { d with pending := d.pending.settle e }) rfl
    rw [hsettle, lane_stream]

end Post

/-- The message that a call has delivered which returns so. -/
def Call.delivered? : Call → Outcome → Option Message
  | .send _ m, .ok _ => some m
  | _, _ => none

namespace System

variable {w v u : System} {i j : CallId} {c : ConnectionId} {s t : SessionId} {k : Nat}
  {m : Message} {tracked : Bool} {l : Label} {ls : List Label}

/-- The publish lock of a session. -/
def lane (w : System) (s : SessionId) : Lane := w.post.lane s (w.address? s)

/-- One call comes to a lock, goes on there, or leaves, at most; and only to a channel that has a
session anything is recorded. -/
structure Lanes (w v : System) : Prop where
  lane : ∀ s, v.post.lane s (w.address? s) = w.lane s ∨
    Lane.Move (w.lane s) (v.post.lane s (w.address? s))
  record : ∀ c k, v.published c k = w.published c k ∨ ∃ s, w.address? s = some (c, k)

theorem Lanes.of_post (h : v.post = w.post) : Lanes w v := by
  refine ⟨fun s => .inl ?_, fun c k => .inl ?_⟩
  · rw [h]
    rfl
  · rw [← record_post, h, record_post]

/-- One move of the post is one at each lock at most, and records on the channel of the session that
sends. -/
theorem Lanes.of_move (hA : ∀ s t a, w.address? s = some a → w.address? t = some a → s = t)
    (h : Post.Move w.address? l w.post v.post) : Lanes w v := by
  refine ⟨fun s => h.lane hA s, fun c k => ?_⟩
  rcases h.record_cases with hr | ⟨i, s, m, tag, tracked, d, n, _, _, ha, he⟩
  · exact .inl (hr c k)
  · by_cases hdn : d = c ∧ n = k
    · obtain ⟨rfl, rfl⟩ := hdn
      exact .inr ⟨s, ha⟩
    · left
      rw [← record_post, he, Post.record, Post.box_assign, Post.box_atBox, if_neg hdn, record_post]

theorem Lanes.of_case (hA : ∀ s t a, w.address? s = some a → w.address? t = some a → s = t)
    (h : v.post = w.post ∨ Post.Move w.address? l w.post v.post) : Lanes w v :=
  h.elim .of_post (.of_move hA)

/-! ## Steps at the lock -/

/-- A change at a desk together with one sender's records nothing. -/
theorem Lanes.of_desk {f : Desk → Desk} {r : Sender} (h : v.post = (w.post.atDesk t f).assign i r)
    (hl : ∀ s, ((w.post.atDesk t f).assign i r).lane s (w.address? s) = w.lane s ∨
      Lane.Move (w.lane s) (((w.post.atDesk t f).assign i r).lane s (w.address? s))) :
    Lanes w v :=
  ⟨fun s => h ▸ hl s, fun c k => .inl (by rw [← record_post, h]; rfl)⟩

/-- A broker changes in nothing but what is on its streams. -/
theorem Lanes.of_broker {b : Broker} (hc : c < w.connections.length)
    (es : List ConfirmEvent → List ConfirmEvent)
    (h : ∀ n, b.box n = if k = n then
      { (w.connection c).broker.box n with stream := es ((w.connection c).broker.box n).stream }
      else (w.connection c).broker.box n) :
    Lanes w (w.modifyConnection c fun y => { y with broker := b }) := by
  have hpost := post_modifyBroker (g := fun b => { b with stream := es b.stream }) hc h
  have hrec : ∀ d n, ((w.modifyConnection c fun y => { y with broker := b }).post.box d n).record =
      (w.post.box d n).record := by
    intro d n
    rw [hpost, Post.box_atBox]
    split <;> rfl
  refine ⟨fun s => .inl (Post.lane_congr ?_ hrec ?_), fun d n => .inl (hrec d n)⟩
  · rw [hpost]
    rfl
  · rw [hpost]
    rfl

/-- A call whose turn has come begins to publish. -/
theorem lanes_publish (hi : w.progress? i = some (.turn t m tracked))
    (hfirst : (w.session t).turns.head? = some i) (ht : t < w.sessions.length) :
    Lanes w (w.publish i t m tracked) :=
  .of_desk (post_publish_announced (lt_of_progress hi) ht) fun _ =>
    Post.lane_start (post_sender hi) hfirst rfl _

/-- A call that is to send is refused, or comes to the lock of its session. -/
theorem lanes_send (hi : i < w.calls.length) (hidle : w.post.sender i = .idle)
    (ht : t < w.sessions.length) : Lanes w (w.send i t m) := by
  have hplace := post_takePlace ht i
  rcases send_effect w i t m with he | ⟨hturns, he⟩ | he <;> rw [he]
  · exact .of_post ((Plain.refl w).mute.setCall hidle rfl).post
  · have hlt : t < (w.takePlace i t).sessions.length := by simpa [takePlace] using ht
    have hpost : ((w.takePlace i t).publish i t m (w.session t).listener.isSome).post = _ :=
      post_publish_announced hi hlt
    rw [hplace, Post.atDesk_atDesk] at hpost
    exact .of_desk hpost fun _ =>
      Post.lane_come hidle rfl (.inr ⟨hturns, if_pos rfl⟩) fun h => if_neg h
  · have hcalls : i < (w.takePlace i t).calls.length := hi
    refine .of_desk (by rw [post_setCall hcalls, hplace]) fun _ => ?_
    exact Post.lane_come hidle rfl (.inl (if_pos rfl)) fun h => if_neg h

/-- An operation moves nobody at a lock: the broker's side can only fail what comes later and put
reports on a stream. -/
theorem lanes_operate (w : System) {o : Operation} (ho : w.mayOperate o = true) :
    Lanes w (w.operate o).2 := by
  cases hb : o.isBrokerSide with
  | false => exact .of_post (mute_operate w hb).post
  | true =>
    cases o with
    | inject c f => exact .of_post (post_modifyConnection (by intro _; rfl) w c)
    | report c k es =>
      have hc : c < w.connections.length := by simpa [mayOperate, hasConnection] using ho
      obtain ⟨new, _, hbox⟩ := Broker.box_reported (w.connection c).broker k es
      have he : (w.operate (.report c k es)).2 = w.modifyConnection c fun y =>
          { y with broker := (w.connection c).broker.reported k es } :=
        (reportAll_eq w c k es).trans (modifyConnection_congr rfl)
      rw [he]
      exact .of_broker hc (· ++ new) hbox
    | _ => cases hb

/-- Whatever the broker's side does, a step moves one call at one lock at most. -/
theorem lanes_step (hw : w.Wired) (h : w.ledger.Sound) (hs : w.step? l = some v) : Lanes w v := by
  have hA : ∀ s t a, w.address? s = some a → w.address? t = some a → s = t :=
    fun _ _ _ => address_inj h
  cases l with
  | operate o =>
    obtain ⟨ho, rfl⟩ := step_operate hs
    exact lanes_operate w ho
  | call y =>
    obtain ⟨hy, rfl⟩ := step_call hs
    -- Of all calls only a send stands in a lane.
    cases y with
    | send t m =>
      have hv := plain_enlist w (.send t m)
      have hidle : (w.enlist (.send t m)).post.sender w.calls.length = .idle :=
        sender_of_isPlain (isPlain_enlist w _)
      have hl := lanes_send (m := m) (i := w.calls.length) (by simp) hidle (lt_of_holdsSession hy)
      have hlane : ∀ s, (w.enlist (.send t m)).lane s = w.lane s := by
        intro s
        show (w.enlist (.send t m)).post.lane s _ = _
        rw [hv.post]
        rfl
      refine ⟨fun s => ?_, hl.record⟩
      have hls := hl.lane s
      rw [hlane] at hls
      exact hls
    | _ => exact .of_post (mute_call w (by simp)).post
  | run a =>
    cases a with
    | call i =>
      rcases resume_post hw h hs with ⟨s, m, tracked, c, k, hp, hfirst, ha, rfl⟩ | ⟨_, hm⟩
      · exact lanes_publish hp hfirst (lt_of_address ha)
      · exact .of_case hA hm
    | dispatcher s => exact .of_move hA (move_dispatch hs)
  | take i => exact .of_post (plain_take hs).post
  | tick t =>
    obtain ⟨_, rfl⟩ := step_tick hs
    exact .of_post rfl

/-! ## Those that have left the lock -/

/-- The call that comes to the publish lock of a session in a step. -/
def arrival? (s : SessionId) (x : System × Label) : Option CallId :=
  (x.1.step? x.2).bind fun v => (v.session s).turns.find? fun i => i ∉ (x.1.session s).turns

/-- The calls that come to the publish lock of a session in a run, in that order. -/
def arrivals (s : SessionId) (w : System) (ls : List Label) : List CallId :=
  (w.steps ls).filterMap (arrival? s)

/-- The message of a call that has sent it and has returned well. -/
def delivered? (w : System) (i : CallId) : Option Message :=
  match w.calls[i]? with
  | some { call := x, progress := .ended o, .. } => x.delivered? o
  | _ => none

/-- The message of the call whose turn it is at the publish lock of a session, if the broker has
recorded it and the call has not returned yet. -/
def recordedInTurn? (w : System) (s : SessionId) : Option Message :=
  (w.session s).turns.head?.bind fun i =>
    match w.progress? i with
    | some (.exchange { stage := .answered reply, request := .publish _ m, .. }) =>
      if reply.result.toBool then some m else none
    | _ => none

theorem arrivals_snoc (h : Run u ls w) (s : SessionId) (l : Label) :
    arrivals s u (ls ++ [l]) = arrivals s u ls ++ (arrival? s (w, l)).toList :=
  h.filterMap_snoc _ l

/-- Where nobody is at the lock who was not there, nobody has come. -/
theorem arrival_of_subset (hs : w.step? l = some v)
    (ht : (v.session s).turns ⊆ (w.session s).turns) : arrival? s (w, l) = none := by
  rw [arrival?, hs]
  refine List.find?_eq_none.2 fun i hi => ?_
  simpa using ht hi

/-- The one that is new at the end of the line has come. -/
theorem arrival_of_append (hs : w.step? l = some v) (hi : i ∉ (w.session s).turns)
    (ht : (v.session s).turns = (w.session s).turns ++ [i]) : arrival? s (w, l) = some i := by
  rw [arrival?, hs]
  show (v.session s).turns.find? (fun i => i ∉ (w.session s).turns) = some i
  rw [ht, List.find?_append, List.find?_eq_none.2 fun j hj => by simpa using hj]
  simp [hi]

/-- A call that has ended has delivered what it sent, or it never will. -/
theorem delivered_eq {y : Call} {o : Outcome} (hc : w.outline.calls[i]? = some y)
    (hp : w.progress? i = some (.ended o)) : w.delivered? i = y.delivered? o := by
  obtain ⟨t, ht, hpt⟩ := task_of_progress hp
  obtain rfl : t.call = y := by simpa [outline, ht] using hc
  obtain ⟨call, progress, taken⟩ := t
  cases hpt
  rw [delivered?, ht]

/-- Only a call that has ended has delivered a message. -/
theorem ended_of_delivered (h : w.delivered? i ≠ none) :
    ∃ o, w.progress? i = some (.ended o) := by
  unfold delivered? at h
  split at h
  next x o taken ht => exact ⟨o, by rw [progress?, ht]; rfl⟩
  next => exact absurd rfl h

/-- What a call has delivered when it ended stays delivered. -/
theorem delivered_step (hw : w.Wired) (hs : w.step? l = some v) {o : Outcome}
    (hp : w.progress? i = some (.ended o)) : v.delivered? i = w.delivered? i := by
  obtain ⟨t, ht, _⟩ := task_of_progress hp
  have hc : w.outline.calls[i]? = some t.call := by simp [outline, ht]
  rw [delivered_eq hc hp,
    delivered_eq (call_mono (onward_step hw hs).grows hc) (ended_step hs hp)]

/-- A call at the publish lock of a session waits there to send a message, or sends it. -/
theorem sender_of_stand (hi : (w.lane s).stand i ≠ .aside) :
    (∃ m tracked, w.post.sender i = .waiting s m tracked) ∨
    ∃ m tag tracked recorded, w.post.sender i = .sending s m tag tracked recorded := by
  have hcase : (w.post.sender i).stand s ≠ .aside := hi
  cases hsend : w.post.sender i with
  | idle =>
    rw [hsend] at hcase
    exact absurd rfl hcase
  | waiting t m tracked =>
    rw [hsend] at hcase
    obtain rfl : t = s := by_contra fun hne => hcase (if_neg hne)
    exact .inl ⟨m, tracked, rfl⟩
  | sending t m tag tracked recorded =>
    rw [hsend] at hcase
    obtain rfl : t = s := by_contra fun hne => hcase (if_neg hne)
    exact .inr ⟨m, tag, tracked, recorded, rfl⟩

/-- A call that publishes at the lock of a session sends on it. -/
theorem sender_of_publishing {r : Bool} (hi : (w.lane s).stand i = .publishing m r) :
    ∃ tag tracked, w.post.sender i = .sending s m tag tracked r := by
  have hne : (w.lane s).stand i ≠ .aside := by
    rw [hi]
    exact Stand.noConfusion
  have hstand : (w.post.sender i).stand s = .publishing m r := hi
  rcases sender_of_stand hne with ⟨n, tracked, he⟩ | ⟨n, tag, tracked, recorded, he⟩ <;>
    rw [he, Sender.stand, if_pos rfl] at hstand <;> cases hstand
  exact ⟨tag, tracked, he⟩

/-- A call that waits at a publish lock. -/
theorem progress_of_waiting (h : w.post.sender i = .waiting s m tracked) :
    w.progress? i = some (.turn s m tracked) := by
  cases hp : w.progress? i with
  | none =>
    simp only [post, hp] at h
    cases h
  | some p =>
    rw [post_sender hp] at h
    cases p with
    | turn t n b =>
      cases h
      rfl
    | exchange e =>
      unfold Progress.sender Exchange.sender at h
      simp only at h
      split at h <;> cases h
    | _ => cases h

/-- Those at the publish lock of a session were made to send on it. -/
theorem Wired.send_of_stand (hw : w.Wired) (hi : (w.lane s).stand i ≠ .aside) :
    ∃ m, w.outline.calls[i]? = some (.send s m) := by
  rcases sender_of_stand hi with ⟨m, tracked, he⟩ | ⟨m, tag, tracked, recorded, he⟩
  · obtain ⟨t, ht, hpt⟩ := task_of_progress (progress_of_waiting he)
    have hf := hw.fit i t ht
    rw [hpt] at hf
    exact ⟨m, by simp [outline, ht, hf.1]⟩
  · obtain ⟨e, _, _, _, _, hc⟩ := hw.exchange_of_sender he
    exact ⟨m, hc⟩

/-- These calls have been at the publish lock of a session and have left it. -/
structure Left (w : System) (s : SessionId) (past : List CallId) : Prop where
  ended : ∀ i ∈ past, ∃ o, w.progress? i = some (.ended o)
  nodup : past.Nodup
  sends : ∀ i ∈ past, ∃ m, w.outline.calls[i]? = some (.send s m)

/-- Who has left the lock does not come back: the call has ended. -/
theorem Left.step {past : List CallId} (h : w.Left s past) (hw : w.Wired)
    (hs : w.step? l = some v) : v.Left s past := by
  refine ⟨fun i hi => ?_, h.nodup, fun i hi => ?_⟩
  · obtain ⟨o, ho⟩ := h.ended i hi
    exact ⟨o, ended_step hs ho⟩
  · obtain ⟨m, hm⟩ := h.sends i hi
    exact ⟨m, call_mono (onward_step hw hs).grows hm⟩

/-- What those that have left have delivered does not change. -/
theorem Left.delivered {past : List CallId} (h : w.Left s past) (hw : w.Wired)
    (hs : w.step? l = some v) :
    past.filterMap v.delivered? = past.filterMap w.delivered? := by
  refine List.filterMap_congr fun i hi => ?_
  obtain ⟨o, ho⟩ := h.ended i hi
  exact delivered_step hw hs ho

/-- The record of a session's channel is what those that have left the lock have delivered, up to
the message of the call that has its turn. -/
structure Passed (w : System) (s : SessionId) (past : List CallId) : Prop
    extends Left w s past where
  holds : (w.lane s).Holds (past.filterMap w.delivered?)

/-- Nothing is recorded on a channel without a session. -/
def Unused (w : System) : Prop :=
  ∀ c k, (∀ s, w.address? s ≠ some (c, k)) → w.published c k = []

/-- A message is recorded only on the channel of a session that is there. -/
theorem Unused.step (hw : w.Wired) (hl : Lanes w v) (h : w.Unused) (hs : w.step? l = some v) :
    v.Unused := by
  intro c k hck
  have hgrows := (onward_step hw hs).grows
  have hold : ∀ s, w.address? s ≠ some (c, k) := fun s ha => hck s (address_mono hgrows ha)
  rcases hl.record c k with he | ⟨s, ha⟩
  · rw [he]
    exact h c k hold
  · exact absurd ha (hold s)

/-- A session that is new has a channel on which nothing is recorded. -/
theorem lane_eq (hw : w.Wired) (hsound : v.ledger.Sound) (hl : Lanes w v) (h : w.Unused)
    (hs : w.step? l = some v) (s : SessionId) :
    v.lane s = v.post.lane s (w.address? s) := by
  have hgrows := (onward_step hw hs).grows
  cases ha : w.address? s with
  | some a => rw [lane, address_mono hgrows ha]
  | none =>
    cases hv : v.address? s with
    | none => rw [lane, hv]
    | some a =>
      have hnobody : ∀ t, w.address? t ≠ some a := by
        intro t ht
        obtain rfl := address_inj hsound (address_mono hgrows ht) hv
        rw [ha] at ht
        cases ht
      have hnil : v.published a.1 a.2 = [] := by
        rcases hl.record a.1 a.2 with he | ⟨t, ht⟩
        · rw [he]
          exact h _ _ hnobody
        · exact absurd ht (hnobody t)
      rw [lane, hv]
      show Lane.mk _ (v.published a.1 a.2) _ = Lane.mk _ [] _
      rw [hnil]

/-- A call that has ended is not at any lock. -/
theorem stand_of_ended {o : Outcome} (h : w.progress? i = some (.ended o)) (s : SessionId) :
    (w.lane s).stand i = .aside :=
  Post.stand_lane (post_sender h)

/-- The call that leaves the lock has ended, and it has delivered its message just if the broker
recorded it. -/
theorem Passed.leave {past : List CallId} (h : w.Passed s past) (hw : w.Wired)
    (hs : w.step? l = some v) {r : Bool} (hi : (w.lane s).stand i = .publishing m r)
    (hq : (v.lane s).stand i = .aside)
    (hv : (v.lane s).Holds (past.filterMap w.delivered? ++ if r then [m] else [])) :
    v.Passed s (past ++ [i]) := by
  obtain ⟨tag, tracked, hsend⟩ := sender_of_publishing hi
  obtain ⟨e, hp, _, _, _, hc⟩ := hw.exchange_of_sender hsend
  have hmoved : v.post.sender i ≠ .sending s m tag tracked r := by
    intro hv
    have hq : (v.post.sender i).stand s = .aside := hq
    rw [hv, Sender.stand, if_pos rfl] at hq
    cases hq
  -- The call has gone on, in a step of its own.
  have hl : l = .run (.call i) := by
    by_contra hne
    refine hmoved ?_
    rw [post_sender ((progress_step hs (lt_of_progress hp) hne).trans hp), ← post_sender hp, hsend]
  subst hl
  obtain ⟨o, ho, hgiven⟩ : ∃ o, v.progress? i = some (.ended o) ∧
      (Call.send s m).delivered? o = if r then some m else none := by
    rcases hw.publishing_step hsend hs with ⟨rfl, ho⟩ | ⟨rfl, ⟨f, ho⟩ | ⟨now, hv⟩⟩
    · exact ⟨_, ho, rfl⟩
    · exact ⟨_, ho, rfl⟩
    · have hq : (v.post.sender i).stand s = .aside := hq
      rw [hv, Sender.stand, if_pos rfl] at hq
      cases hq
  have hleft := h.toLeft.step hw hs
  have hcv := call_mono (onward_step hw hs).grows hc
  have hnew : i ∉ past := by
    intro hmem
    obtain ⟨o', ho'⟩ := h.ended i hmem
    rw [hp] at ho'
    cases ho'
  refine ⟨⟨?ended, ?nodup, ?sends⟩, ?holds⟩
  case ended =>
    refine List.forall_mem_append.2 ⟨hleft.ended, List.forall_mem_singleton.2 ⟨o, ho⟩⟩
  case nodup =>
    exact List.nodup_append.2 ⟨h.nodup, List.pairwise_singleton _ i, fun j hj k hk hjk =>
      hnew (List.mem_singleton.1 hk ▸ hjk ▸ hj)⟩
  case sends =>
    exact List.forall_mem_append.2 ⟨hleft.sends, List.forall_mem_singleton.2 ⟨m, hcv⟩⟩
  case holds =>
    have hlast : [i].filterMap v.delivered? = if r then [m] else [] := by
      rw [List.filterMap_cons, delivered_eq hcv ho, hgiven]
      cases r <;> rfl
    rw [List.filterMap_append, h.toLeft.delivered hw hs, hlast]
    exact hv

/-- A step takes one call to the lock at most, or lets the first one go. -/
theorem Passed.step {past : List CallId} (h : w.Passed s past) (hw : w.Wired)
    (hsound : v.ledger.Sound) (hl : Lanes w v) (hunused : w.Unused) (hs : w.step? l = some v) :
    ∃ past', v.Passed s past' ∧ past' ++ (v.session s).turns =
      past ++ (w.session s).turns ++ (arrival? s (w, l)).toList := by
  have hlane := lane_eq hw hsound hl hunused hs s
  have hchange : Lane.Change (w.lane s) (v.lane s) (past.filterMap w.delivered?) := by
    rw [hlane]
    rcases hl.lane s with he | hm
    · rw [he]
      exact .stay rfl h.holds
    · exact h.holds.move hm
  -- The lane stays, somebody comes to its end, or its first one leaves; `past` grows in the last
  -- case.
  cases hchange with
  | stay ht hv =>
    refine ⟨past, ⟨h.toLeft.step hw hs, h.toLeft.delivered hw hs ▸ hv⟩, ?_⟩
    have ht : (v.session s).turns = (w.session s).turns := ht
    rw [arrival_of_subset hs (ht ▸ List.Subset.refl _), ht]
    simp
  | come i hi hq ht hv =>
    refine ⟨past, ⟨h.toLeft.step hw hs, h.toLeft.delivered hw hs ▸ hv⟩, ?_⟩
    have ht : (v.session s).turns = (w.session s).turns ++ [i] := ht
    have hnew : i ∉ (w.session s).turns := fun hm => h.holds.standing i hm hi
    rw [arrival_of_append hs hnew ht, ht, ← List.append_assoc]
    rfl
  | leave i m r hi hq ht hv =>
    refine ⟨past ++ [i], h.leave hw hs hi hq hv, ?_⟩
    have ht : (w.session s).turns = i :: (v.session s).turns := ht
    rw [arrival_of_subset hs (ht ▸ List.subset_cons_self i _), ht]
    simp

theorem passed_empty (s : SessionId) : ({} : System).Passed s [] := by
  refine ⟨⟨?_, .nil, ?_⟩, ⟨.nil, ?_, ?_, rfl⟩⟩
  · intro i hi
    cases hi
  · intro i hi
    cases hi
  · intro i hi
    cases hi
  · intro i m r hi
    cases hi

/-- Those that come to a publish lock in a run have left it again, or are still there. -/
theorem passed_of_run (h : Run {} ls w) (s : SessionId) : w.Unused ∧
    ∃ past, w.Passed s past ∧ arrivals s {} ls = past ++ (w.session s).turns := by
  induction h with
  | refl => exact ⟨fun _ _ _ => rfl, [], passed_empty s, rfl⟩
  | @step ls v l u hrun hs ih =>
    obtain ⟨hunused, past, hp, ha⟩ := ih
    have hw := wired_of_run hrun
    have hl := lanes_step hw (sound_of_run hrun) hs
    obtain ⟨past', hp', ha'⟩ := hp.step hw (sound_of_run (.step hrun hs)) hl hunused hs
    exact ⟨hunused.step hw hl hs, past', hp', by rw [arrivals_snoc hrun, ha, ha']⟩

/-- A call that sends comes to the publish lock, unless it finds the session closed. -/
theorem send_comes (i : CallId) (ht : t < w.sessions.length) (hi : i < w.calls.length)
    (m : Message) : i ∈ ((w.send i t m).session t).turns ∨
      (w.send i t m).progress? i = some (.ended (.error (.closed .session))) := by
  have hplace : i ∈ ((w.takePlace i t).session t).turns := by
    rw [takePlace, session_modifySession_self ht]
    exact List.mem_append_right _ List.mem_cons_self
  rcases send_effect w i t m with he | ⟨_, he⟩ | he <;> rw [he]
  · exact .inr (progress_setCall_self hi _)
  · left
    have hlt : t < (w.takePlace i t).sessions.length := by simpa [takePlace] using ht
    have hpost : ((w.takePlace i t).publish i t m (w.session t).listener.isSome).post = _ :=
      post_publish_announced hi hlt
    have hturns := congrArg (fun p => (p.desk t).turns) hpost
    simp only [Post.desk_assign, Post.desk_atDesk, if_true] at hturns
    show i ∈ (((w.takePlace i t).publish i t m _).post.desk t).turns
    rw [hturns]
    exact hplace
  · exact .inl hplace

/-- A call that sends has come to the lock, or it was refused because the session was closed. -/
theorem arrived_of_run (h : Run {} ls w) (hc : w.outline.calls[i]? = some (.send s m)) :
    i ∈ arrivals s {} ls ∨ w.progress? i = some (.ended (.error (.closed .session))) := by
  induction h with
  | refl => cases hc
  | @step ls v l u hrun hs ih =>
    have hgrows := (onward_step (wired_of_run hrun) hs).grows
    -- The call is an old one, or this step begins it and its place in the queue with it.
    rw [hgrows.calls, List.getElem?_append] at hc
    split at hc
    · rcases ih hc with hi | ho
      · rw [arrivals_snoc hrun]
        exact .inl (List.mem_append_left _ hi)
      · exact .inr (ended_step hs ho)
    next hlt =>
      cases l with
      | call y =>
        obtain ⟨hy, rfl⟩ := step_call hs
        obtain ⟨rfl, rfl⟩ : i = v.calls.length ∧ y = .send s m := by
          have hlen : v.outline.calls.length = v.calls.length := by simp [outline]
          rw [hlen] at hc hlt
          have hzero := (List.getElem?_eq_some_iff.1 hc).1
          rw [Label.started, List.length_singleton] at hzero
          obtain rfl : i = v.calls.length :=
            Nat.le_antisymm (Nat.sub_eq_zero_iff_le.1 (Nat.lt_one_iff.1 hzero))
              (Nat.le_of_not_lt hlt)
          rw [Nat.sub_self] at hc
          exact ⟨rfl, Option.some.inj hc⟩
        obtain ⟨_, past, _, ha⟩ := passed_of_run (.step hrun hs) s
        rw [ha]
        refine (send_comes (w := v.enlist (.send s m)) v.calls.length (lt_of_holdsSession hy)
          (by simp) m).imp (fun hmem => ?_) id
        exact List.mem_append_right _ hmem
      | _ => cases hc

/-- The lock tells of the message in turn what the state does. -/
theorem recordedInTurn?_eq (hw : w.Wired) {given : List Message} (h : (w.lane s).Holds given) :
    w.recordedInTurn? s = (w.lane s).inTurn? := by
  unfold recordedInTurn? Lane.inTurn?
  show (w.session s).turns.head?.bind _ = (w.session s).turns.head?.bind _
  cases hhead : (w.session s).turns.head? with
  | none => rfl
  | some i =>
    have hne : (w.lane s).stand i ≠ .aside := h.standing i (List.mem_of_head? hhead)
    show _ = ((w.post.sender i).stand s).recorded?
    -- Who stands first waits for the lock or sends; the record is of the one who sends.
    rcases sender_of_stand hne with ⟨m, tracked, he⟩ | ⟨m, tag, tracked, recorded, he⟩
    · rw [he, Sender.stand, if_pos rfl, Option.bind_some, progress_of_waiting he]
      rfl
    · obtain ⟨e, hp, hg, _⟩ := hw.exchange_of_sender he
      rw [he, Sender.stand, if_pos rfl, Option.bind_some, hp]
      obtain ⟨y, _, hf⟩ := hw.fits hp
      simp only [Progress.Fits, Exchange.Fits, hg] at hf
      obtain ⟨_, n, k, _, _, hr⟩ := hf
      rw [post_sender_publish hp hg hr] at he
      cases he
      obtain ⟨c, request, stage, wake, limit, goal⟩ := e
      obtain rfl : request = .publish k m := hr
      cases stage with
      | before failure after => rfl
      | answered reply =>
        show (if reply.result.toBool then some m else none) =
          (Stand.publishing m reply.result.toBool).recorded?
        cases reply.result.toBool <;> rfl

/-- Sends keep order, lose nothing and duplicate nothing. In every state that a client comes to, the
record of a session's channel is what those of the calls that came to its publish lock have
delivered that have returned well, in the order in which they came, and then the message of the call
that has its turn, if it is recorded but has not returned. Every call that comes is one that sends
on the session, each comes once, and a call that sends there and does not come has found the session
closed. -/
theorem send_order (h : Run {} ls w) (hs : s < w.sessions.length) :
    (w.channelOf s).published =
      (arrivals s {} ls).filterMap w.delivered? ++ (w.recordedInTurn? s).toList ∧
    (arrivals s {} ls).Nodup ∧
    (∀ i ∈ arrivals s {} ls, ∃ t m, w.calls[i]? = some t ∧ t.call = .send s m) ∧
    ∀ i t m, w.calls[i]? = some t → t.call = .send s m →
      i ∈ arrivals s {} ls ∨ t.progress = .ended (.error (.closed .session)) := by
  obtain ⟨_, past, hp, ha⟩ := passed_of_run h s
  have hw := wired_of_run h
  -- Those at the lock have not returned yet.
  have hwaiting : (w.session s).turns.filterMap w.delivered? = [] := by
    refine List.filterMap_eq_nil_iff.2 fun i hi => ?_
    by_contra hd
    obtain ⟨o, ho⟩ := ended_of_delivered hd
    exact hp.holds.standing i hi (stand_of_ended ho s)
  have hsends : ∀ i ∈ arrivals s {} ls, ∃ m, w.outline.calls[i]? = some (.send s m) := by
    rw [ha]
    exact List.forall_mem_append.2 ⟨hp.sends, fun i hi => hw.send_of_stand (hp.holds.standing i hi)⟩
  refine ⟨?record, ?once, ?sends, ?all⟩
  case record =>
    have hrec : (w.channelOf s).published = (w.lane s).record := by
      rw [lane, address_eq hs]
      rfl
    rw [hrec, hp.holds.record, recordedInTurn?_eq hw hp.holds, ha, List.filterMap_append, hwaiting,
      List.append_nil]
  case once =>
    rw [ha, List.nodup_append]
    refine ⟨hp.nodup, hp.holds.nodup, fun i hi j hj hij => ?_⟩
    obtain ⟨o, ho⟩ := hp.ended i hi
    exact hp.holds.standing j hj (hij ▸ stand_of_ended ho s)
  case sends =>
    intro i hi
    obtain ⟨m, hm⟩ := hsends i hi
    obtain ⟨t, ht, hcall⟩ := by simpa [outline] using hm
    exact ⟨t, m, ht, hcall⟩
  case all =>
    intro i t m ht hcall
    have hc : w.outline.calls[i]? = some (.send s m) := by simp [outline, ht, hcall]
    refine (arrived_of_run h hc).imp id fun ho => ?_
    rw [progress?, ht] at ho
    exact Option.some.inj ho

/-- Four messages are sent at once. The first one fails before it reaches the broker, the second one
is recorded and its call returns, the third one is recorded, and the fourth one waits. -/
def fourAtOnce : List Label :=
  [.operate .createRegistry, .operate (.connect 0 (.ofMillis 15000) {}),
    .call (.createSession 0 false .auto none), .run (.call 0), .run (.call 0), .take 0,
    .operate (.inject 0 { kind := .publish, failure := some .alreadyClosed }),
    .call (.send 0 { destination := .queue "orders", body := [1] }),
    .call (.send 0 { destination := .queue "orders", body := [2] }),
    .call (.send 0 { destination := .queue "orders", body := [3] }),
    .call (.send 0 { destination := .queue "orders", body := [4] }),
    .run (.call 1), .run (.call 2), .run (.call 2), .run (.call 2), .run (.call 3), .run (.call 3)]

theorem fourAtOnce_isSome : (after? {} fourAtOnce).isSome = true := by decide

def fourAtOnceEnd : System := (after? {} fourAtOnce).get fourAtOnce_isSome

theorem fourAtOnceEnd_published :
    arrivals 0 {} fourAtOnce = [1, 2, 3, 4] ∧
    [1, 2, 3, 4].filterMap fourAtOnceEnd.delivered? =
      [{ destination := .queue "orders", body := [2] }] ∧
    fourAtOnceEnd.recordedInTurn? 0 = some { destination := .queue "orders", body := [3] } ∧
    (fourAtOnceEnd.channelOf 0).published =
      [{ destination := .queue "orders", body := [2] },
        { destination := .queue "orders", body := [3] }] := by
  have harrivals : arrivals 0 {} fourAtOnce = [1, 2, 3, 4] := by decide
  have hdelivered : [1, 2, 3, 4].filterMap fourAtOnceEnd.delivered? =
      [{ destination := .queue "orders", body := [2] }] := by decide
  have hturn : fourAtOnceEnd.recordedInTurn? 0 =
      some { destination := .queue "orders", body := [3] } := by decide
  refine ⟨harrivals, hdelivered, hturn, ?_⟩
  have hrec := (send_order (s := 0) (.of_isSome fourAtOnce_isSome) (by decide)).1
  rw [harrivals] at hrec
  exact hrec.trans (congrArg₂ (fun xs x => xs ++ x.toList) hdelivered hturn)

end System

end BrokerClient
