import BrokerClient.Proofs.Plain

/-!
# Messages and their confirms

What becomes of the messages sent on sessions is a matter of four things: the calls that send, each
session's turns and awaited messages, each channel's record and reports, and the confirms that were
handed to listeners. `Post` keeps these alone, and `Post.Move` says what can happen to them.

The number under which a message is awaited is read before the message is recorded, and it is given
again if publishing fails. So an awaited number either is that of a recorded message, and the
message is the recorded one, or it is the next one, and the call whose turn it is is still
publishing under it (`Sound.awaited`). A report concerns recorded numbers only, hence settles
messages of the first kind.

The invariant is a conjunction over sessions. `SessionSound` speaks of one session and its channel,
and a move concerns one session: for all others there is `SameFor`, one lemma for each move, and
`SessionSound.same`. For the session itself there are three moves with an argument in them. A
message that starts takes the next number, which nobody awaits (`SessionSound.start`); a message
that is recorded makes its number one of the recorded ones (`SessionSound.record`); and a report
hands over what it settles, none of which was handed over before (`SessionSound.settle`).
-/

namespace BrokerClient

/-- What a call does about a message. -/
inductive Sender where
  | idle
  | waiting (s : SessionId) (m : Message) (tracked : Bool)
  /-- It publishes under a number, and knows whether the broker has recorded the message. -/
  | sending (s : SessionId) (m : Message) (tag : Nat) (tracked recorded : Bool)

/-- What of a client concerns messages. -/
structure Post where
  desk : SessionId → Desk
  box : ConnectionId → Nat → Box
  sender : CallId → Sender
  /-- The confirms handed to listeners, the newest first. -/
  handed : List (SessionId × Confirmation)

/-- The session on which a call publishes. -/
def Sender.session? : Sender → Option SessionId
  | .sending s .. => some s
  | _ => none

namespace Box

variable {b : Box} {t : Nat} {m m' : Message}

/-- A message is recorded under a number, which count from one. -/
def Has (b : Box) (t : Nat) (m : Message) : Prop := 1 ≤ t ∧ b.record[t - 1]? = some m

/-- What holds of a channel after any moves. -/
structure Sound (b : Box) : Prop where
  counted : b.next = b.record.length + 1
  /-- A report concerns messages that are recorded. -/
  reported : ∀ e ∈ b.stream, e.tag < b.next

/-- What is recorded is so under a number that was given already. -/
theorem Sound.lt_next (h : b.Sound) (ht : b.Has t m) : t < b.next := by
  obtain ⟨hpos, hrec⟩ := ht
  have hlen := (List.getElem?_eq_some_iff.1 hrec).1
  have hc := h.counted
  omega

/-- What is recorded stays recorded under its number. -/
theorem Has.record (ht : b.Has t m') :
    Has { b with next := b.next + 1, record := b.record ++ [m] } t m' := by
  refine ⟨ht.1, ?_⟩
  rw [List.getElem?_append_left (List.getElem?_eq_some_iff.1 ht.2).1]
  exact ht.2

/-- A message that is recorded is so under the next number. -/
theorem Sound.has_next (h : b.Sound) (m : Message) :
    Has { b with next := b.next + 1, record := b.record ++ [m] } b.next m := by
  have hc := h.counted
  have hlast : b.next - 1 - b.record.length = 0 := by omega
  refine ⟨by omega, ?_⟩
  rw [List.getElem?_append_right (by omega), hlast]
  rfl

/-- A message that is recorded takes the next number, and the number after it is the next one. -/
theorem Sound.record (h : b.Sound) (m : Message) :
    Sound { b with next := b.next + 1, record := b.record ++ [m] } := by
  refine ⟨?_, fun e he => Nat.lt_succ_of_lt (h.reported e he)⟩
  rw [List.length_append, List.length_singleton, ← h.counted]

end Box

namespace Pending

variable {p : Pending} {t n : Nat} {m : Message} {e : ConfirmEvent}

/-- No number is awaited twice, for they ascend. -/
theorem nodup_tags (p : Pending) : p.tags.Nodup :=
  List.pairwise_map.2 (p.ascending.imp Nat.ne_of_lt)

/-- A number is awaited if some message is awaited under it. -/
theorem mem_tags : t ∈ p.tags ↔ ∃ m, (t, m) ∈ p.entries := by
  simp [tags]

/-- A number that is not awaited yet is added, wherever it goes. -/
theorem put_perm {l : List (Nat × Message)} (h : t ∉ l.map Prod.fst) (m : Message) :
    (put t m l).Perm ((t, m) :: l) := by
  induction l with
  | nil => exact .refl _
  | cons x l ih =>
    simp only [List.map_cons, List.mem_cons, not_or] at h
    rw [put, if_neg h.1]
    split
    · exact .refl _
    · exact ((ih h.2).cons x).trans (.swap ..)

/-- What is awaited once a message more is. -/
theorem mem_track (h : t ∉ p.tags) {x : Nat × Message} :
    x ∈ (p.track t m).entries ↔ x = (t, m) ∨ x ∈ p.entries := by
  rw [track, (put_perm h m).mem_iff, List.mem_cons]

/-- Awaiting a message adds its number. -/
theorem mem_tags_track (h : t ∉ p.tags) : n ∈ (p.track t m).tags ↔ n = t ∨ n ∈ p.tags := by
  rw [tags, track, ((put_perm h m).map Prod.fst).mem_iff, List.map_cons, List.mem_cons, tags]

/-- What is still awaited after a number was forgotten. -/
theorem mem_discard {x : Nat × Message} :
    x ∈ (p.discard t).entries ↔ x ∈ p.entries ∧ x.1 ≠ t := by
  simp [discard, only]

/-- What is still awaited after a report. -/
theorem mem_settle {x : Nat × Message} :
    x ∈ (p.settle e).entries ↔ x ∈ p.entries ∧ e.covers x.1 = false := by
  simp [settle, only]

/-- A report settles what was awaited under the numbers that it covers. -/
theorem mem_settled {x : Confirmation} : x ∈ p.settled e ↔
    (x.tag, x.message) ∈ p.entries ∧ e.covers x.tag = true ∧ x.ack = e.ack := by
  rw [settled, List.mem_map]
  constructor
  · rintro ⟨⟨t, m⟩, hx, rfl⟩
    obtain ⟨hx, hc⟩ := List.mem_filter.1 hx
    exact ⟨hx, hc, rfl⟩
  · rintro ⟨hx, hc, ha⟩
    exact ⟨(x.tag, x.message), List.mem_filter.2 ⟨hx, hc⟩, by rw [← ha]⟩

/-- A report settles no number twice. -/
theorem nodup_settled (p : Pending) (e : ConfirmEvent) :
    ((p.settled e).map Confirmation.tag).Nodup := by
  rw [settled, List.map_map]
  exact (List.filter_sublist.map Prod.fst).nodup p.nodup_tags

end Pending

namespace Post

/-! ## Updates -/

/-- A change of what one session keeps. -/
def atDesk (p : Post) (s : SessionId) (f : Desk → Desk) : Post :=
  { p with desk := fun t => if s = t then f (p.desk t) else p.desk t }

/-- A change of what one channel keeps. -/
def atBox (p : Post) (c : ConnectionId) (k : Nat) (f : Box → Box) : Post :=
  { p with box := fun d n => if c = d ∧ k = n then f (p.box d n) else p.box d n }

/-- A call does something else. -/
def assign (p : Post) (i : CallId) (r : Sender) : Post :=
  { p with sender := fun j => if i = j then r else p.sender j }

/-- A session after a change of one. -/
@[simp] theorem desk_atDesk (p : Post) (s t : SessionId) (f : Desk → Desk) :
    (p.atDesk s f).desk t = if s = t then f (p.desk t) else p.desk t := rfl

@[simp] theorem sender_atDesk (p : Post) (s : SessionId) (f : Desk → Desk) (i : CallId) :
    (p.atDesk s f).sender i = p.sender i := rfl

/-- A channel after a change of one. -/
@[simp] theorem box_atBox (p : Post) (c : ConnectionId) (k : Nat) (f : Box → Box)
    (d : ConnectionId) (n : Nat) :
    (p.atBox c k f).box d n = if c = d ∧ k = n then f (p.box d n) else p.box d n := rfl

@[simp] theorem desk_assign (p : Post) (i : CallId) (r : Sender) (s : SessionId) :
    (p.assign i r).desk s = p.desk s := rfl

@[simp] theorem box_assign (p : Post) (i : CallId) (r : Sender) (c : ConnectionId) (k : Nat) :
    (p.assign i r).box c k = p.box c k := rfl

/-- A call after one was assigned something. -/
@[simp] theorem sender_assign (p : Post) (i : CallId) (r : Sender) (j : CallId) :
    (p.assign i r).sender j = if i = j then r else p.sender j := rfl

/-- A message takes its place behind those that wait for their turn. -/
def queue (p : Post) (i : CallId) (s : SessionId) (m : Message) (tracked : Bool) : Post :=
  (p.atDesk s fun d => { d with turns := d.turns ++ [i] }).assign i (.waiting s m tracked)

/-- A message whose turn it is is awaited under the next number, and sent. -/
def start (p : Post) (i : CallId) (s : SessionId) (m : Message) (tracked : Bool)
    (c : ConnectionId) (k : Nat) : Post :=
  (p.atDesk s fun d => { d with
    pending := if tracked then d.pending.track (p.box c k).next m else d.pending }).assign i
      (.sending s m (p.box c k).next tracked false)

/-- The broker records a message. -/
def record (p : Post) (i : CallId) (s : SessionId) (m : Message) (tag : Nat) (tracked : Bool)
    (c : ConnectionId) (k : Nat) : Post :=
  (p.atBox c k fun b => { b with next := b.next + 1, record := b.record ++ [m] }).assign i
    (.sending s m tag tracked true)

/-- A call that has published a message, or failed to, gives its turn away. -/
def leave (p : Post) (i : CallId) (s : SessionId) (g : Pending → Pending) : Post :=
  (p.atDesk s fun d => ⟨d.turns.erase i, g d.pending⟩).assign i .idle

/-- The stream of a channel becomes another one. -/
def stream (p : Post) (c : ConnectionId) (k : Nat) (es : List ConfirmEvent) : Post :=
  p.atBox c k fun b => { b with stream := es }

/-- A session takes a report, and `new` is handed to its listener. -/
def settle (p : Post) (s : SessionId) (e : ConfirmEvent) (new : List (SessionId × Confirmation)) :
    Post :=
  { p.atDesk s fun d => { d with pending := d.pending.settle e } with handed := new ++ p.handed }

variable {A : SessionId → Option (ConnectionId × Nat)} {p q : Post} {i j : CallId}
  {s t : SessionId} {m : Message} {c : ConnectionId} {k : Nat}

/-- What can happen in a step, where `A` gives the channel of each session. -/
inductive Move (A : SessionId → Option (ConnectionId × Nat)) : Label → Post → Post → Prop where
  | queue {l p i s m tracked} (hi : p.sender i = .idle) : Move A l p (p.queue i s m tracked)
  /-- The turn of a message has come. -/
  | start {l p i s m tracked c k} (hi : p.sender i = .waiting s m tracked)
    (hfirst : (p.desk s).turns.head? = some i) (hs : A s = some (c, k)) :
    Move A l p (p.start i s m tracked c k)
  /-- A message need not wait for its turn. -/
  | come {l p i s m tracked c k} (hi : p.sender i = .idle) (hfirst : (p.desk s).turns = [])
    (hs : A s = some (c, k)) : Move A l p ((p.queue i s m tracked).start i s m tracked c k)
  | record {p i s m tag tracked c k} (hi : p.sender i = .sending s m tag tracked false)
    (hs : A s = some (c, k)) : Move A (.run (.call i)) p (p.record i s m tag tracked c k)
  | done {l p i s m tag tracked} (hi : p.sender i = .sending s m tag tracked true) :
    Move A l p (p.leave i s id)
  /-- A message that was not recorded is awaited no longer. -/
  | fail {l p i s m tag tracked} (hi : p.sender i = .sending s m tag tracked false) :
    Move A l p (p.leave i s fun q => if tracked then q.discard tag else q)
  | report {l p c k es} (hes : ∀ e ∈ es, e.tag < (p.box c k).next) :
    Move A l p (p.stream c k ((p.box c k).stream ++ es))
  /-- Reports are dropped, or taken by a session that awaits none of what they concern. -/
  | drop {l p c k es} (hes : es ⊆ (p.box c k).stream) : Move A l p (p.stream c k es)
  /-- A report is taken; what it settles is handed over, unless nobody listens. -/
  | take {p s c k e rest new} (hs : A s = some (c, k)) (he : (p.box c k).stream = e :: rest)
    (hnew : new = [] ∨ new = (((p.desk s).pending.settled e).map fun x => (s, x)).reverse) :
    Move A (.run (.dispatcher s)) p ((p.stream c k rest).settle s e new)

/-! ## What holds after any moves -/

/-- What holds of a session after any moves. -/
structure SessionSound (A : SessionId → Option (ConnectionId × Nat)) (p : Post) (s : SessionId) :
    Prop where
  /-- Only the first in turn publishes. -/
  leads : ∀ {i m tag tracked recorded}, p.sender i = .sending s m tag tracked recorded →
    (p.desk s).turns.head? = some i
  /-- Until it is recorded, a message is published under the next number. -/
  fresh : ∀ {i m tag tracked c k}, p.sender i = .sending s m tag tracked false →
    A s = some (c, k) → tag = (p.box c k).next
  /-- A message is awaited that is recorded, or is being published under the next number. -/
  awaited : ∀ {c k t m}, A s = some (c, k) → (t, m) ∈ (p.desk s).pending.entries →
    (p.box c k).Has t m ∨
      (t = (p.box c k).next ∧ ∃ i, p.sender i = .sending s m t true false)
  /-- What was handed over is recorded, and awaited no longer. -/
  handed : ∀ {x c k}, A s = some (c, k) → (s, x) ∈ p.handed →
    (p.box c k).Has x.tag x.message ∧ x.tag ∉ (p.desk s).pending.tags
  /-- No number was handed over twice. -/
  once : ((p.handed.filter fun a => a.1 = s).map fun a => a.2.tag).Nodup
  /-- Where there is no session, nothing is awaited or handed over. -/
  nobody : A s = none → (p.desk s).pending.entries = [] ∧ (∀ x, (s, x) ∉ p.handed) ∧
    ∀ i m tag tracked recorded, p.sender i ≠ .sending s m tag tracked recorded

/-- What holds after any moves. -/
structure Sound (A : SessionId → Option (ConnectionId × Nat)) (p : Post) : Prop where
  box : ∀ c k, (p.box c k).Sound
  session : ∀ s, SessionSound A p s

/-- To find a session sound that has a channel, only that channel is looked at. -/
theorem SessionSound.of_channel (hs : A s = some (c, k))
    (leads : ∀ {i m tag tracked recorded}, p.sender i = .sending s m tag tracked recorded →
      (p.desk s).turns.head? = some i)
    (fresh : ∀ {i m tag tracked}, p.sender i = .sending s m tag tracked false →
      tag = (p.box c k).next)
    (awaited : ∀ {t m}, (t, m) ∈ (p.desk s).pending.entries → (p.box c k).Has t m ∨
      (t = (p.box c k).next ∧ ∃ i, p.sender i = .sending s m t true false))
    (handed : ∀ {x}, (s, x) ∈ p.handed →
      (p.box c k).Has x.tag x.message ∧ x.tag ∉ (p.desk s).pending.tags)
    (once : ((p.handed.filter fun a => a.1 = s).map fun a => a.2.tag).Nodup) :
    SessionSound A p s := by
  refine ⟨leads, fun hi hA => ?_, fun hA ht => ?_, fun hA hx => ?_, once, fun hA => ?_⟩
  · cases hs.symm.trans hA
    exact fresh hi
  · cases hs.symm.trans hA
    exact awaited ht
  · cases hs.symm.trans hA
    exact handed hx
  · cases hs.symm.trans hA

/-! ## What a move leaves alone

A move concerns one session, and of the others it leaves alone all that their soundness rests on. -/

/-- What the soundness of a session rests on is the same before and after. -/
structure SameFor (A : SessionId → Option (ConnectionId × Nat)) (p q : Post) (s : SessionId) :
    Prop where
  pending : (q.desk s).pending = (p.desk s).pending
  /-- Whose turn it is keeps it. -/
  first : ∀ {i}, (p.desk s).turns.head? = some i → (q.desk s).turns.head? = some i
  sending : ∀ {i m tag tracked recorded}, q.sender i = .sending s m tag tracked recorded ↔
    p.sender i = .sending s m tag tracked recorded
  next : ∀ {c k}, A s = some (c, k) → (q.box c k).next = (p.box c k).next
  record : ∀ {c k}, A s = some (c, k) → (q.box c k).record = (p.box c k).record
  handed : (q.handed.filter fun a => a.1 = s) = p.handed.filter fun a => a.1 = s

/-- Who was handed something of a session is found among what was handed over of it. -/
theorem mem_handed_filter {x : Confirmation} :
    (s, x) ∈ (p.handed.filter fun a => a.1 = s) ↔ (s, x) ∈ p.handed := by
  simp [List.mem_filter]

/-- What is sound of a session stays so as long as nothing is touched on which it rests. -/
theorem SessionSound.same (h : SessionSound A p s) (hq : SameFor A p q s) :
    SessionSound A q s := by
  have hhas : ∀ {c k t m}, A s = some (c, k) → ((q.box c k).Has t m ↔ (p.box c k).Has t m) := by
    intro c k t m hs
    rw [Box.Has, Box.Has, hq.record hs]
  have hmem : ∀ {x}, (s, x) ∈ q.handed ↔ (s, x) ∈ p.handed := by
    intro x
    rw [← mem_handed_filter, hq.handed, mem_handed_filter]
  -- Each part of soundness reads the post only through what the two have in common.
  refine ⟨fun hi => hq.first (h.leads (hq.sending.1 hi)), fun hi hs => ?fresh,
    fun hs ht => ?awaited, fun hs hx => ?handed, ?once, fun hs => ?nobody⟩
  case fresh =>
    rw [hq.next hs]
    exact h.fresh (hq.sending.1 hi) hs
  case awaited =>
    rw [hq.pending] at ht
    rw [hhas hs, hq.next hs]
    refine (h.awaited hs ht).imp_right fun hflight => ?_
    obtain ⟨hnext, i, hi⟩ := hflight
    exact ⟨hnext, i, hq.sending.2 hi⟩
  case handed =>
    rw [hhas hs, hq.pending]
    exact h.handed hs (hmem.1 hx)
  case once =>
    rw [hq.handed]
    exact h.once
  case nobody =>
    obtain ⟨hp, hx, hi⟩ := h.nobody hs
    exact ⟨by rw [hq.pending, hp], fun x hx' => hx x (hmem.1 hx'),
      fun i m tag tracked recorded hi' => hi i m tag tracked recorded (hq.sending.1 hi')⟩

/-- Giving a call another part makes no difference to a session on which it publishes neither
before nor after. -/
theorem sending_assign {r : Sender} (hi : (p.sender i).session? ≠ some t)
    (hr : r.session? ≠ some t) {m : Message} {tag : Nat} {tracked recorded : Bool} :
    (p.assign i r).sender j = .sending t m tag tracked recorded ↔
      p.sender j = .sending t m tag tracked recorded := by
  rw [sender_assign]
  split
  next hij =>
    subst hij
    constructor
    · intro hj
      exact absurd (congrArg Sender.session? hj) hr
    · intro hj
      exact absurd (congrArg Sender.session? hj) hi
  · rfl

/-- A message that waits changes nothing for any session. -/
theorem sameFor_queue (hi : p.sender i = .idle) (s : SessionId) (m : Message) (tracked : Bool)
    (t : SessionId) : SameFor A p (p.queue i s m tracked) t where
  pending := by
    simp only [Post.queue, desk_assign, desk_atDesk]
    split <;> rfl
  first := by
    intro j hj
    simp only [Post.queue, desk_assign, desk_atDesk]
    split
    · rw [List.head?_append, hj]
      rfl
    · exact hj
  sending := by
    refine sending_assign ?_ ?_
    · rw [sender_atDesk, hi]
      exact (Option.some_ne_none t).symm
    · exact (Option.some_ne_none t).symm
  next _ := rfl
  record _ := rfl
  handed := rfl

/-- Reports change neither the numbers nor the record. -/
theorem sameFor_stream (p : Post) (c : ConnectionId) (k : Nat) (es : List ConfirmEvent)
    (t : SessionId) : SameFor A p (p.stream c k es) t where
  pending := rfl
  first := id
  sending := .rfl
  next _ := by
    simp only [Post.stream, box_atBox]
    split <;> rfl
  record _ := by
    simp only [Post.stream, box_atBox]
    split <;> rfl
  handed := rfl

/-- What another session begins to publish. -/
theorem sameFor_start {tracked : Bool} (hi : p.sender i = .waiting s m tracked) (hst : s ≠ t) :
    SameFor A p (p.start i s m tracked c k) t where
  pending := by simp only [Post.start, desk_assign, desk_atDesk, if_neg hst]
  first := by
    intro j hj
    simpa only [Post.start, desk_assign, desk_atDesk, if_neg hst] using hj
  sending := by
    refine sending_assign ?_ ?_
    · rw [sender_atDesk, hi]
      exact (Option.some_ne_none t).symm
    · exact fun h => hst (Option.some.inj h)
  next _ := rfl
  record _ := rfl
  handed := rfl

/-- What another session's message becomes at the broker, for sessions do not share a channel. -/
theorem sameFor_record (hA : ∀ s t a, A s = some a → A t = some a → s = t) {tag : Nat}
    {tracked : Bool} (hi : p.sender i = .sending s m tag tracked false) (hs : A s = some (c, k))
    (hst : s ≠ t) : SameFor A p (p.record i s m tag tracked c k) t where
  pending := rfl
  first := id
  sending := by
    refine sending_assign (fun h => ?_) fun h => ?_
    · exact hst (Option.some.inj ((congrArg Sender.session? hi).symm.trans h))
    · exact hst (Option.some.inj h)
  next := by
    intro d n ht
    simp only [Post.record, box_assign, box_atBox]
    rw [if_neg]
    rintro ⟨rfl, rfl⟩
    exact hst (hA s t _ hs ht)
  record := by
    intro d n ht
    simp only [Post.record, box_assign, box_atBox]
    rw [if_neg]
    rintro ⟨rfl, rfl⟩
    exact hst (hA s t _ hs ht)
  handed := rfl

/-- What another session stops publishing. -/
theorem sameFor_leave {tag : Nat} {tracked recorded : Bool} {g : Pending → Pending}
    (hi : p.sender i = .sending s m tag tracked recorded) (hst : s ≠ t) :
    SameFor A p (p.leave i s g) t where
  pending := by simp only [Post.leave, desk_assign, desk_atDesk, if_neg hst]
  first := by
    intro j hj
    simpa only [Post.leave, desk_assign, desk_atDesk, if_neg hst] using hj
  sending := by
    refine sending_assign ?_ ?_
    · rw [sender_atDesk, hi]
      exact fun h => hst (Option.some.inj h)
    · exact (Option.some_ne_none t).symm
  next _ := rfl
  record _ := rfl
  handed := rfl

/-- What another session's listener is handed. -/
theorem sameFor_settle {e : ConfirmEvent} {new : List (SessionId × Confirmation)}
    (hnew : ∀ a ∈ new, a.1 = s) (hst : s ≠ t) : SameFor A p (p.settle s e new) t where
  pending := by simp only [Post.settle, desk_atDesk, if_neg hst]
  first := by
    intro j hj
    simpa only [Post.settle, desk_atDesk, if_neg hst] using hj
  sending := .rfl
  next _ := rfl
  record _ := rfl
  handed := by
    have hnone : new.filter (fun a => a.1 = t) = [] := by
      rw [List.filter_eq_nil_iff]
      intro a ha hat
      exact hst ((hnew a ha).symm.trans (of_decide_eq_true hat))
    change (new ++ p.handed).filter _ = _
    rw [List.filter_append, hnone, List.nil_append]

/-! ## What moves keep -/

section Moves

variable {tag : Nat} {tracked recorded : Bool} {e : ConfirmEvent}

/-- While the first in turn waits, nobody publishes on the session. -/
theorem SessionSound.nobody_sends (h : SessionSound A p s)
    (hfirst : ∀ j, (p.desk s).turns.head? = some j → j = i)
    (hi : p.sender i = .waiting s m tracked) (j : CallId) (m' : Message) (tag : Nat)
    (tracked' recorded : Bool) : p.sender j ≠ .sending s m' tag tracked' recorded := by
  intro hj
  obtain rfl := hfirst j (h.leads hj)
  rw [hi] at hj
  cases hj

/-- Two calls that publish on a session are one. -/
theorem SessionSound.eq_of_sending (h : SessionSound A p s)
    (hi : p.sender i = .sending s m tag tracked recorded) {m' : Message} {tag' : Nat}
    {tracked' recorded' : Bool} (hj : p.sender j = .sending s m' tag' tracked' recorded') :
    i = j :=
  Option.some.inj ((h.leads hi).symm.trans (h.leads hj))

/-- While nobody publishes, everything that is awaited is recorded. -/
theorem SessionSound.has_of_awaited (h : SessionSound A p s) (hs : A s = some (c, k))
    (hnobody : ∀ j m' tag tracked recorded, p.sender j ≠ .sending s m' tag tracked recorded)
    {t : Nat} (ht : (t, m) ∈ (p.desk s).pending.entries) : (p.box c k).Has t m := by
  rcases h.awaited hs ht with hhas | ⟨_, j, hj⟩
  · exact hhas
  · exact absurd hj (hnobody j m t true false)

/-- Nothing is awaited under the next number while nobody publishes. -/
theorem SessionSound.next_not_awaited (h : SessionSound A p s) (hb : (p.box c k).Sound)
    (hs : A s = some (c, k))
    (hnobody : ∀ j m' tag tracked recorded, p.sender j ≠ .sending s m' tag tracked recorded) :
    (p.box c k).next ∉ (p.desk s).pending.tags := by
  intro ht
  obtain ⟨m, hm⟩ := Pending.mem_tags.1 ht
  exact Nat.lt_irrefl _ (hb.lt_next (h.has_of_awaited hs hnobody hm))

/-- A message that begins to be published joins what is awaited, under a number that is new. -/
theorem SessionSound.start (h : SessionSound A p s) (hb : (p.box c k).Sound)
    (hi : p.sender i = .waiting s m tracked) (hfirst : (p.desk s).turns.head? = some i)
    (hs : A s = some (c, k)) : SessionSound A (p.start i s m tracked c k) s := by
  have hnobody := h.nobody_sends (fun j hj => Option.some.inj (hj.symm.trans hfirst)) hi
  have hnew := h.next_not_awaited hb hs hnobody
  have hsender : ∀ j, (p.start i s m tracked c k).sender j =
      if i = j then .sending s m (p.box c k).next tracked false else p.sender j := fun _ => rfl
  have hdesk : (p.start i s m tracked c k).desk s = { p.desk s with
      pending := if tracked then (p.desk s).pending.track (p.box c k).next m
        else (p.desk s).pending } := by
    simp only [Post.start, desk_assign, desk_atDesk, if_true]
  -- The call that begins is the only one that publishes.
  have honly : ∀ {j m' tag tracked' recorded},
      (p.start i s m tracked c k).sender j = .sending s m' tag tracked' recorded →
      i = j ∧ tag = (p.box c k).next := by
    intro j m' tag tracked' recorded hj
    rw [hsender] at hj
    split at hj
    next hij =>
      cases hj
      exact ⟨hij, rfl⟩
    · exact absurd hj (hnobody j m' tag tracked' recorded)
  refine .of_channel hs (fun hj => ?leads) (fun hj => (honly hj).2) (fun ht => ?awaited)
    (fun hx => ?handed) h.once
  case leads =>
    rw [hdesk, ← (honly hj).1]
    exact hfirst
  case awaited =>
    rw [hdesk] at ht
    cases tracked with
    | true =>
      rcases (Pending.mem_track hnew).1 ht with heq | hold
      · cases heq
        exact .inr ⟨rfl, i, by rw [hsender, if_pos rfl]⟩
      · exact .inl (h.has_of_awaited hs hnobody hold)
    | false => exact .inl (h.has_of_awaited hs hnobody ht)
  case handed =>
    obtain ⟨hhas, hn⟩ := h.handed hs hx
    refine ⟨hhas, ?_⟩
    rw [hdesk]
    cases tracked with
    | true =>
      rw [if_pos rfl, Pending.mem_tags_track hnew, not_or]
      exact ⟨Nat.ne_of_lt (hb.lt_next hhas), hn⟩
    | false => exact hn

/-- A message that is recorded is so under the number under which it is published. -/
theorem SessionSound.record (h : SessionSound A p s) (hb : (p.box c k).Sound)
    (hi : p.sender i = .sending s m tag tracked false) (hs : A s = some (c, k)) :
    SessionSound A (p.record i s m tag tracked c k) s := by
  have htag : tag = (p.box c k).next := h.fresh hi hs
  have hsender : ∀ j, (p.record i s m tag tracked c k).sender j =
      if i = j then .sending s m tag tracked true else p.sender j := fun _ => rfl
  have hbox : (p.record i s m tag tracked c k).box c k =
      { p.box c k with next := (p.box c k).next + 1, record := (p.box c k).record ++ [m] } := by
    simp only [Post.record, box_assign, box_atBox, and_self, if_true]
  refine .of_channel hs (fun {j _ _ _ _} hj => ?leads) (fun {j _ _ _} hj => ?fresh)
    (fun ht => ?awaited) (fun hx => ?handed) h.once
  case leads =>
    rw [hsender] at hj
    split at hj
    next hij => exact hij ▸ h.leads hi
    · exact h.leads hj
  case fresh =>
    rw [hsender] at hj
    split at hj
    · cases hj
    next hij => exact absurd (h.eq_of_sending hi hj) hij
  case awaited =>
    rw [hbox]
    rcases h.awaited hs ht with hold | ⟨_, j, hj⟩
    · exact .inl hold.record
    · -- It was the one in flight, and is now the last that is recorded.
      obtain rfl := h.eq_of_sending hi hj
      cases hi.symm.trans hj
      rw [htag]
      exact .inl (hb.has_next m)
  case handed =>
    obtain ⟨hold, hn⟩ := h.handed hs hx
    rw [hbox]
    exact ⟨hold.record, hn⟩

/-- A call that stops publishing takes what it was publishing along, unless that is recorded. -/
theorem SessionSound.leave (h : SessionSound A p s)
    (hi : p.sender i = .sending s m tag tracked recorded) (hs : A s = some (c, k))
    {g : Pending → Pending}
    (hg : (g (p.desk s).pending).entries.Sublist (p.desk s).pending.entries)
    (hgone : tracked = true → recorded = false → (tag, m) ∉ (g (p.desk s).pending).entries) :
    SessionSound A (p.leave i s g) s := by
  have hdesk : (p.leave i s g).desk s = ⟨(p.desk s).turns.erase i, g (p.desk s).pending⟩ := by
    simp only [Post.leave, desk_assign, desk_atDesk, if_true]
  have hnobody : ∀ {j m' tag' tracked' recorded'},
      (p.leave i s g).sender j ≠ .sending s m' tag' tracked' recorded' := by
    intro j m' tag' tracked' recorded' hj
    change (if i = j then Sender.idle else p.sender j) = _ at hj
    split at hj
    · cases hj
    next hij => exact hij (h.eq_of_sending hi hj)
  refine .of_channel hs (fun hj => absurd hj hnobody) (fun hj => absurd hj hnobody)
    (fun ht => ?awaited) (fun hx => ?handed) h.once
  case awaited =>
    rw [hdesk] at ht
    rcases h.awaited hs (hg.subset ht) with hhas | ⟨_, j, hj⟩
    · exact .inl hhas
    · -- What is in flight is what this call was publishing, and that has just been dropped.
      obtain rfl := h.eq_of_sending hi hj
      cases hi.symm.trans hj
      exact absurd ht (hgone rfl rfl)
  case handed =>
    obtain ⟨hhas, hn⟩ := h.handed hs hx
    rw [hdesk]
    exact ⟨hhas, fun hm => hn ((hg.map Prod.fst).subset hm)⟩

/-- What a report settles is recorded, and awaited no longer, for a report concerns recorded
numbers only. -/
theorem SessionSound.has_of_settled (h : SessionSound A p s) (hs : A s = some (c, k))
    (he : e.tag < (p.box c k).next) {x : Confirmation} (hx : x ∈ (p.desk s).pending.settled e) :
    (p.box c k).Has x.tag x.message ∧ x.tag ∉ ((p.desk s).pending.settle e).tags := by
  obtain ⟨hentry, hcov, _⟩ := Pending.mem_settled.1 hx
  have hle := ConfirmEvent.covers_le hcov
  refine ⟨?_, fun hn => ?_⟩
  · rcases h.awaited hs hentry with hhas | ⟨hnext, _⟩
    · exact hhas
    · omega
  · obtain ⟨m', hm'⟩ := Pending.mem_tags.1 hn
    cases hcov.symm.trans (Pending.mem_settle.1 hm').2

/-- What a report settles is handed over once, and was not handed over before. -/
theorem SessionSound.once_settled (h : SessionSound A p s) (hs : A s = some (c, k))
    (e : ConfirmEvent) :
    ((((((p.desk s).pending.settled e).map fun x => (s, x)).reverse ++ p.handed).filter
      fun a => a.1 = s).map fun a => a.2.tag).Nodup := by
  have hall : ((((p.desk s).pending.settled e).map fun x => (s, x)).reverse.filter
      fun a => a.1 = s) = (((p.desk s).pending.settled e).map fun x => (s, x)).reverse := by
    rw [List.filter_eq_self]
    intro a ha
    obtain ⟨x, _, rfl⟩ := List.mem_map.1 (List.mem_reverse.1 ha)
    exact decide_eq_true rfl
  rw [List.filter_append, hall, List.map_append, List.nodup_append]
  refine ⟨?_, h.once, fun n hn n' hn' hnn => ?_⟩
  · rw [List.map_reverse, (List.reverse_perm _).nodup_iff, List.map_map]
    exact Pending.nodup_settled _ e
  · -- What was handed over before is awaited no longer, and this still was.
    subst hnn
    obtain ⟨a, ha, rfl⟩ := List.mem_map.1 hn
    obtain ⟨x, hx, rfl⟩ := List.mem_map.1 (List.mem_reverse.1 ha)
    obtain ⟨⟨t, z⟩, hzt, hz⟩ := List.mem_map.1 hn'
    obtain ⟨hmem, hts⟩ := List.mem_filter.1 hzt
    obtain rfl : t = s := of_decide_eq_true hts
    refine (h.handed hs hmem).2 (Pending.mem_tags.2 ⟨x.message, ?_⟩)
    rw [show z.tag = x.tag from hz]
    exact (Pending.mem_settled.1 hx).1

/-- A report that concerns recorded messages only hands over what is recorded, and what it hands
over is awaited no longer. -/
theorem SessionSound.settle (h : SessionSound A p s) (hs : A s = some (c, k))
    (he : e.tag < (p.box c k).next) {new : List (SessionId × Confirmation)}
    (hnew : new = [] ∨ new = (((p.desk s).pending.settled e).map fun x => (s, x)).reverse) :
    SessionSound A (p.settle s e new) s := by
  have hdesk : (p.settle s e new).desk s =
      { p.desk s with pending := (p.desk s).pending.settle e } := by
    simp only [Post.settle, desk_atDesk, if_true]
  -- Settling only takes entries away, so whatever held of all entries still does.
  have hsub : ((p.desk s).pending.settle e).entries.Sublist (p.desk s).pending.entries :=
    List.filter_sublist
  refine .of_channel hs (fun hj => ?leads) (fun hj => h.fresh hj hs) (fun ht => ?awaited)
    (fun hx => ?handed) ?once
  case leads =>
    rw [hdesk]
    exact h.leads hj
  case awaited =>
    rw [hdesk] at ht
    exact h.awaited hs (hsub.subset ht)
  case handed =>
    rw [hdesk]
    rcases List.mem_append.1 hx with hx | hx
    · rcases hnew with rfl | rfl
      · cases hx
      · obtain ⟨y, hy, heq⟩ := List.mem_map.1 (List.mem_reverse.1 hx)
        cases heq
        exact h.has_of_settled hs he hy
    · obtain ⟨hhas, hn⟩ := h.handed hs hx
      exact ⟨hhas, fun hm => hn ((hsub.map Prod.fst).subset hm)⟩
  case once =>
    rcases hnew with rfl | rfl
    · exact h.once
    · exact h.once_settled hs e

/-! ## The moves in turn -/

/-- A session on which a call publishes has a channel. -/
theorem Sound.channel_of_sending (h : p.Sound A)
    (hi : p.sender i = .sending s m tag tracked recorded) : ∃ c k, A s = some (c, k) := by
  cases hs : A s with
  | none => exact absurd hi ((h.session s).nobody hs |>.2.2 i m tag tracked recorded)
  | some a => exact ⟨a.1, a.2, rfl⟩

/-- A message that has to wait comes in last. -/
theorem Sound.queue (h : p.Sound A) (hi : p.sender i = .idle) (s : SessionId) (m : Message)
    (tracked : Bool) : (p.queue i s m tracked).Sound A :=
  ⟨h.box, fun t => (h.session t).same (sameFor_queue hi s m tracked t)⟩

/-- A message whose turn has come. -/
theorem Sound.start (h : p.Sound A) (hi : p.sender i = .waiting s m tracked)
    (hfirst : (p.desk s).turns.head? = some i) (hs : A s = some (c, k)) :
    (p.start i s m tracked c k).Sound A := by
  refine ⟨h.box, fun t => ?_⟩
  by_cases hst : s = t
  · exact hst ▸ (h.session s).start (h.box c k) hi hfirst hs
  · exact (h.session t).same (sameFor_start hi hst)

/-- A message that is recorded: no two sessions share a channel, so that it is one of its session
alone. -/
theorem Sound.record (h : p.Sound A) (hA : ∀ s t a, A s = some a → A t = some a → s = t)
    (hi : p.sender i = .sending s m tag tracked false) (hs : A s = some (c, k)) :
    (p.record i s m tag tracked c k).Sound A := by
  refine ⟨fun d n => ?_, fun t => ?_⟩
  · simp only [Post.record, box_assign, box_atBox]
    split
    · exact (h.box d n).record m
    · exact h.box d n
  · by_cases hst : s = t
    · exact hst ▸ (h.session s).record (h.box c k) hi hs
    · exact (h.session t).same (sameFor_record hA hi hs hst)

/-- A call that gives its turn away, with or without its message still awaited. -/
theorem Sound.leave (h : p.Sound A) (hi : p.sender i = .sending s m tag tracked recorded)
    {g : Pending → Pending}
    (hg : (g (p.desk s).pending).entries.Sublist (p.desk s).pending.entries)
    (hgone : tracked = true → recorded = false → (tag, m) ∉ (g (p.desk s).pending).entries) :
    (p.leave i s g).Sound A := by
  obtain ⟨c, k, hs⟩ := h.channel_of_sending hi
  refine ⟨h.box, fun t => ?_⟩
  by_cases hst : s = t
  · exact hst ▸ (h.session s).leave hi hs hg hgone
  · exact (h.session t).same (sameFor_leave hi hst)

/-- Reports on numbers that were given out. -/
theorem Sound.stream (h : p.Sound A) {es : List ConfirmEvent}
    (hes : ∀ e ∈ es, e.tag < (p.box c k).next) : (p.stream c k es).Sound A := by
  refine ⟨fun d n => ?_, fun t => (h.session t).same (sameFor_stream p c k es t)⟩
  simp only [Post.stream, box_atBox]
  split
  next hcd =>
    obtain ⟨rfl, rfl⟩ := hcd
    exact ⟨(h.box c k).counted, hes⟩
  · exact h.box d n

/-- A report that is taken. -/
theorem Sound.settle (h : p.Sound A) (hs : A s = some (c, k)) (he : e.tag < (p.box c k).next)
    {new : List (SessionId × Confirmation)}
    (hnew : new = [] ∨ new = (((p.desk s).pending.settled e).map fun x => (s, x)).reverse) :
    (p.settle s e new).Sound A := by
  refine ⟨h.box, fun t => ?_⟩
  by_cases hst : s = t
  · exact hst ▸ (h.session s).settle hs he hnew
  · refine (h.session t).same (sameFor_settle (fun a ha => ?_) hst)
    rcases hnew with rfl | rfl
    · cases ha
    · obtain ⟨x, _, rfl⟩ := List.mem_map.1 (List.mem_reverse.1 ha)
      rfl

/-- Whatever moves are made, the messages stay in order. -/
theorem Sound.move (h : p.Sound A) (hA : ∀ s t a, A s = some a → A t = some a → s = t) {l : Label}
    (hm : Move A l p q) : q.Sound A := by
  cases hm with
  | queue hi => exact h.queue hi _ _ _
  | start hi hfirst hs => exact h.start hi hfirst hs
  | @come _ _ i s m tracked c k hi hfirst hs =>
    -- A call that comes to an empty queue starts at once: it queues, and then it leads.
    refine (h.queue hi s m tracked).start ?_ ?_ hs
    · simp only [Post.queue, sender_assign, if_true]
    · simp only [Post.queue, desk_assign, desk_atDesk, if_true, hfirst]
      rfl
  | record hi hs => exact h.record hA hi hs
  | done hi =>
    refine h.leave hi (.refl _) fun _ hr => ?_
    cases hr
  | fail hi =>
    refine h.leave hi ?_ fun ht _ => ?_
    · split
      · exact List.filter_sublist
      · exact .refl _
    · rw [if_pos ht]
      intro hm
      exact (Pending.mem_discard.1 hm).2 rfl
  | report hes =>
    refine h.stream fun e he => ?_
    rcases List.mem_append.1 he with he | he
    · exact (h.box _ _).reported e he
    · exact hes e he
  | drop hes => exact h.stream fun e he => (h.box _ _).reported e (hes he)
  | @take _ s c k e rest new hs he hnew =>
    -- The report leaves the stream first, and then the session settles it.
    have hall : ∀ f ∈ e :: rest, f.tag < (p.box c k).next := fun f hf =>
      (h.box c k).reported f (he ▸ hf)
    have hst := h.stream fun f hf => hall f (List.mem_cons_of_mem e hf)
    refine hst.settle hs ?_ hnew
    simp only [Post.stream, box_atBox, and_self, if_true]
    exact hall e List.mem_cons_self

/-- New sessions have nothing to send yet. -/
theorem Sound.mono (h : p.Sound A) {B : SessionId → Option (ConnectionId × Nat)}
    (hAB : ∀ s a, A s = some a → B s = some a) : p.Sound B := by
  refine ⟨h.box, fun s => ?_⟩
  have hs := h.session s
  cases hA : A s with
  | some a =>
    have hB := hAB s a hA
    exact .of_channel hB hs.leads (fun hi => hs.fresh hi hA) (hs.awaited hA) (hs.handed hA) hs.once
  | none =>
    -- Of a session that was not there, there is nothing that could be unsound.
    obtain ⟨hp, hx, hi⟩ := hs.nobody hA
    refine ⟨hs.leads, fun hj _ => absurd hj (hi _ _ _ _ _), fun _ ht => ?_,
      fun _ hy => absurd hy (hx _), hs.once, fun _ => ⟨hp, hx, hi⟩⟩
    rw [hp] at ht
    cases ht

end Moves

end Post

end BrokerClient
