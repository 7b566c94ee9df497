import BrokerClient.Destination

/-!
# Durable subscriptions of a connection

A name stands for the consumer that attached to it last. A closed consumer stays registered, for the
subscription outlives it and another consumer may attach under the same name later. Whether a
consumer is closed and where it receives from is asked of the functions that are given.

A claim takes the name at once, before the broker has been asked, and remembers whom it took it
from. If the broker then refuses, `abandon` gives the name back to that one, unless a later claim
has taken it meanwhile. Removing asks that the consumer is closed, and forgets the name for good:
nothing remembers whom it was taken from.
-/

namespace BrokerClient

/-- A consumer, by its number. -/
abbrev ConsumerId := Nat

/-- What taking a name for a new consumer found. -/
inductive Claim where
  /-- Nothing was registered under the name. -/
  | vacant
  /-- A closed consumer of the same destination was. -/
  | reattach (previous : ConsumerId)
  /-- A closed consumer of another destination was; its subscription has to go first. -/
  | retarget (previous : ConsumerId)
  deriving DecidableEq, Repr

/-- The consumer that was registered before. -/
def Claim.previous? : Claim → Option ConsumerId
  | .vacant => none
  | .reattach c => some c
  | .retarget c => some c

/-- Why a subscription was not removed. -/
inductive Kept where
  | unknown
  /-- Its consumer is not closed. -/
  | active (holder : ConsumerId)
  deriving DecidableEq, Repr

/-- The consumer registered under each name, each name once. -/
structure Subscriptions where
  entries : List (String × ConsumerId) := []
  nodup : (entries.map Prod.fst).Nodup := by exact List.nodup_nil
  deriving DecidableEq, Repr

instance : Inhabited Subscriptions := ⟨{}⟩

namespace Subscriptions

def get? (s : Subscriptions) (name : String) : Option ConsumerId := s.entries.lookup name

def size (s : Subscriptions) : Nat := s.entries.length

def isEmpty (s : Subscriptions) : Bool := s.entries.isEmpty

/-- Removes a name. -/
def erase (s : Subscriptions) (name : String) : Subscriptions where
  entries := s.entries.filter fun e => e.1 ≠ name
  nodup := s.nodup.sublist (List.filter_sublist.map Prod.fst)

/-- A name that was removed is not there. -/
theorem not_mem_erase (s : Subscriptions) (name : String) :
    name ∉ (s.erase name).entries.map Prod.fst := by
  simp [erase]

/-- Registers a consumer under a name, in place of the one that was there. -/
def put (s : Subscriptions) (name : String) (c : ConsumerId) : Subscriptions where
  entries := (name, c) :: (s.erase name).entries
  nodup := List.nodup_cons.2 ⟨s.not_mem_erase name, (s.erase name).nodup⟩

@[simp] theorem get?_put_self (s : Subscriptions) (name : String) (c : ConsumerId) :
    (s.put name c).get? name = some c := by simp [put, get?]

/-- Removing one key leaves what is found under the others. -/
theorem lookup_filter_ne {α : Type} (es : List (String × α)) {name other : String}
    (h : other ≠ name) :
    (es.filter fun e => e.1 ≠ name).lookup other = es.lookup other := by
  induction es with
  | nil => rfl
  | cons e es ih =>
    obtain ⟨k, c⟩ := e
    by_cases hk : k = name
    · subst hk
      have hne : (other == k) = false := by simpa using h
      simp only [List.lookup_cons, hne]
      simpa using ih
    · by_cases ho : other = k
      · subst ho; simp [hk]
      · have hne : (other == k) = false := by simpa using ho
        simp only [ne_eq, hk, not_false_eq_true, decide_true, List.filter_cons_of_pos,
          List.lookup_cons, hne]
        simpa using ih

/-- Registering under one name leaves the other names. -/
theorem get?_put_ne (s : Subscriptions) {name other : String} (c : ConsumerId)
    (h : other ≠ name) : (s.put name c).get? other = s.get? other := by
  have hne : (other == name) = false := by simpa using h
  simp only [put, get?, erase, List.lookup_cons, hne]
  exact lookup_filter_ne s.entries h

/-- Takes a name for a consumer, unless a consumer that is not closed has it; then that one is
named and nothing changes. -/
def claim (s : Subscriptions) (isClosed : ConsumerId → Bool)
    (destination : ConsumerId → Destination) (name : String) (c : ConsumerId) (d : Destination) :
    Except ConsumerId (Claim × Subscriptions) :=
  match s.get? name with
  | none => .ok (.vacant, s.put name c)
  | some holder =>
    if !isClosed holder then .error holder
    else if destination holder = d then .ok (.reattach holder, s.put name c)
    else .ok (.retarget holder, s.put name c)

/-- Takes a claim back, if its consumer still has the name: the one before it gets it again. -/
def abandon (s : Subscriptions) (name : String) (c : ConsumerId) (claim : Claim) :
    Subscriptions :=
  -- A later claim may have taken the name meanwhile; that one stays.
  if s.get? name = some c then
    match claim.previous? with
    | some previous => s.put name previous
    | none => s.erase name
  else s

/-- Removes a subscription whose consumer is closed, and names that consumer. -/
def removeInactive (s : Subscriptions) (isClosed : ConsumerId → Bool) (name : String) :
    Except Kept (ConsumerId × Subscriptions) :=
  match s.get? name with
  | none => .error .unknown
  | some holder => if isClosed holder then .ok (holder, s.erase name) else .error (.active holder)

end Subscriptions

end BrokerClient
