import BrokerClient.Confirm.Event
import BrokerClient.Message

/-!
# Messages awaiting a confirm

The messages of a session whose outcome the broker has not reported, by the number under which each
was published, in ascending order. The order is part of the type: every operation hands on the proof
of it, and `Pending.track` has to say where a number belongs.

A report settles the messages that it covers, the lowest number first, and they are awaited no
longer. So a message is settled at most once, by the first report that covers it. A number can also
be awaited in vain: if publishing fails it is discarded, without an outcome.
-/

namespace BrokerClient

/-- The outcome of a published message. -/
structure Confirmation where
  /-- The number under which the message was published. -/
  tag : Nat
  message : Message
  /-- Whether the broker took the message. -/
  ack : Bool
  deriving DecidableEq, Repr

/-- Messages with their numbers, in ascending order of the numbers. -/
def Ascending (es : List (Nat × Message)) : Prop := es.Pairwise fun a b => a.1 < b.1

instance (es : List (Nat × Message)) : Decidable (Ascending es) :=
  inferInstanceAs (Decidable (es.Pairwise _))

theorem ascending_nil : Ascending [] := List.Pairwise.nil

/-- The messages whose outcome is awaited, in ascending order of their numbers. -/
@[ext]
structure Pending where
  entries : List (Nat × Message) := []
  ascending : Ascending entries := by exact ascending_nil
  deriving DecidableEq, Repr

instance : Inhabited Pending := ⟨{}⟩

namespace Pending

def size (p : Pending) : Nat := p.entries.length

/-- The numbers awaited. -/
def tags (p : Pending) : List Nat := p.entries.map Prod.fst

/-- The message awaited under a number. -/
def get? (p : Pending) (tag : Nat) : Option Message := p.entries.lookup tag

/-- Puts a message under a number, in place of the one that was there. -/
def put (tag : Nat) (m : Message) : List (Nat × Message) → List (Nat × Message)
  | [] => [(tag, m)]
  | e :: rest =>
    if tag < e.1 then (tag, m) :: e :: rest
    else if tag = e.1 then (tag, m) :: rest
    else e :: put tag m rest

/-- What a number is put among stays, but for the message that was under it. -/
theorem mem_of_mem_put {tag : Nat} {m : Message} {x : Nat × Message} :
    ∀ {es : List (Nat × Message)}, x ∈ put tag m es → x = (tag, m) ∨ x ∈ es
  | [], h => .inl (List.mem_singleton.1 h)
  | e :: rest, h => by
    rw [put] at h
    split at h
    · exact List.mem_cons.1 h
    · split at h
      · exact (List.mem_cons.1 h).imp_right (List.mem_cons_of_mem e)
      · rcases List.mem_cons.1 h with rfl | h
        · exact .inr List.mem_cons_self
        · exact (mem_of_mem_put h).imp_right (List.mem_cons_of_mem e)

/-- A number is put where it belongs. -/
theorem ascending_put (tag : Nat) (m : Message) :
    ∀ {es : List (Nat × Message)}, Ascending es → Ascending (put tag m es)
  | [], _ => List.pairwise_singleton ..
  | e :: rest, h => by
    obtain ⟨hhead, hrest⟩ := List.pairwise_cons.1 h
    rw [put]
    split
    next hlt =>
      refine List.pairwise_cons.2 ⟨fun x hx => ?_, h⟩
      rcases List.mem_cons.1 hx with rfl | hx
      · exact hlt
      · exact Nat.lt_trans hlt (hhead x hx)
    next hlt =>
      split
      next heq => exact List.pairwise_cons.2 ⟨fun x hx => heq ▸ hhead x hx, hrest⟩
      next hne =>
        refine List.pairwise_cons.2 ⟨fun x hx => ?_, ascending_put tag m hrest⟩
        rcases mem_of_mem_put hx with rfl | hx
        · exact Nat.lt_of_le_of_ne (Nat.le_of_not_lt hlt) (Ne.symm hne)
        · exact hhead x hx

/-- Awaits the outcome of a message. -/
def track (p : Pending) (tag : Nat) (m : Message) : Pending :=
  ⟨put tag m p.entries, ascending_put tag m p.ascending⟩

/-- Awaits only some of the messages any longer. -/
def only (p : Pending) (keep : Nat → Bool) : Pending :=
  ⟨p.entries.filter fun e => keep e.1, p.ascending.filter _⟩

/-- Forgets a number whose message was not published. -/
def discard (p : Pending) (tag : Nat) : Pending := p.only (· ≠ tag)

/-- The outcomes that a report brings, the lowest number first. -/
def settled (p : Pending) (e : ConfirmEvent) : List Confirmation :=
  (p.entries.filter fun x => e.covers x.1).map fun x => ⟨x.1, x.2, e.ack⟩

/-- What is awaited after a report. -/
def settle (p : Pending) (e : ConfirmEvent) : Pending := p.only fun tag => !e.covers tag

end Pending

end BrokerClient
