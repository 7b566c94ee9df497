import BrokerClient.Number.Shortest

/-!
# JSON values

A number is an integer or a double. The members of an object stand in ascending order of their
keys, each key once: `Members low` are members whose keys all come after `low`, and a member is put
before others only if its key comes before theirs. So no value holds an object whose members are out
of order, and `Members.insert` has to say where a key belongs. The last value put under a key stays.
-/

namespace BrokerClient.Json

open BrokerClient.Number

/-- A key comes after another one, if there is one. -/
def After : Option String → String → Prop
  | none, _ => True
  | some low, key => low < key

instance : (low : Option String) → (key : String) → Decidable (After low key)
  | none, _ => inferInstanceAs (Decidable True)
  | some low, key => inferInstanceAs (Decidable (low < key))

mutual

/-- A JSON value. -/
inductive Value where
  | null
  | bool (b : Bool)
  | int (n : Int)
  | float (x : Binary64)
  | str (s : String)
  | arr (items : Items)
  | obj (members : Members none)
  deriving DecidableEq, Repr

/-- The elements of an array. -/
inductive Items where
  | nil
  | cons (head : Value) (tail : Items)
  deriving DecidableEq, Repr

/-- Members of an object, in ascending order of their keys and all after `low`. -/
inductive Members : (low : Option String) → Type where
  | nil {low} : Members low
  | cons {low} (key : String) (value : Value) (tail : Members (some key)) (after : After low key) :
    Members low
  deriving DecidableEq, Repr

end

instance : Inhabited Value := ⟨.null⟩

instance {low : Option String} : Inhabited (Members low) := ⟨.nil⟩

namespace Items

def toList : Items → List Value
  | .nil => []
  | .cons v vs => v :: vs.toList

def ofList : List Value → Items
  | [] => .nil
  | v :: vs => .cons v (ofList vs)

@[simp] theorem toList_ofList (vs : List Value) : (ofList vs).toList = vs := by
  induction vs with
  | nil => rfl
  | cons v vs ih => simp [ofList, toList, ih]

end Items

namespace Members

variable {low : Option String}

def toList {low : Option String} : Members low → List (String × Value)
  | .nil => []
  | .cons k v ms _ => (k, v) :: ms.toList

def keys (ms : Members low) : List String := ms.toList.map Prod.fst

def isEmpty : Members low → Bool
  | .nil => true
  | .cons .. => false

def get? {low : Option String} (key : String) : Members low → Option Value
  | .nil => none
  | .cons k v ms _ => if k = key then some v else ms.get? key

/-- A key that neither comes before another one nor is the same comes after it. -/
theorem after_of_not {key k : String} (hlt : ¬ key < k) (hne : key ≠ k) : After (some k) key :=
  Decidable.byContradiction fun h =>
    hne (String.le_antisymm (String.not_lt.mp h) (String.not_lt.mp hlt))

/-- Puts a value under a key, in place of the one that was there. -/
def insert {low : Option String} (key : String) (value : Value) (after : After low key) :
    Members low → Members low
  | .nil => .cons key value .nil after
  | .cons k v ms h =>
    if hlt : key < k then .cons key value (.cons k v ms hlt) after
    else if heq : key = k then .cons k value ms h
    else .cons k v (ms.insert key value (after_of_not hlt heq)) h

/-- Puts a value under a key of an object. -/
def put (ms : Members none) (key : String) (value : Value) : Members none :=
  ms.insert key value trivial

/-- The members put in one after the other. -/
def ofList (ms : List (String × Value)) : Members none :=
  ms.foldl (fun acc m => acc.put m.1 m.2) .nil

end Members

/-- The member of an object under a key. -/
def Value.get? (key : String) : Value → Option Value
  | .obj ms => ms.get? key
  | _ => none

/-- An object with the given members. -/
def Value.ofMembers (ms : List (String × Value)) : Value := .obj (Members.ofList ms)

/-- An array of the given values. -/
def Value.ofValues (vs : List Value) : Value := .arr (Items.ofList vs)

end BrokerClient.Json
