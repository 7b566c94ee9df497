import BrokerClient.Json.Reader

/-!
# Reading values of a known shape

A shape reads one value of a type from the head of a text and names, where the text has something
else, what it wanted. Records are written as an object, whose unknown members are passed over, or as
an array of the fields in their order. A choice among names is written as a string, or as an object
with one name for `null`.
-/

namespace BrokerClient.Json

/-- Reads a value of a type: from a bound on the steps, the number of brackets that may still be
opened, and a text. -/
abbrev Shape (α : Type) := Nat → Nat → List Char → Except Failure (α × List Char)

/-- The failure at a text that begins with something other than what is wanted. -/
def mismatchAt (fuel : Nat) (expected : String) (cs : List Char) : Failure :=
  let found (f : Found) : Failure := .mismatch (.type f expected)
  let literal (word : List Char) (rest : List Char) (f : Found) : Failure :=
    match expectChars word rest with
    | .ok _ => found f
    | .error e => e
  let number (r : Except Failure (Numeral × List Char)) : Failure :=
    match r with
    | .ok (.int n, _) => found (.integer n)
    | .ok (.float x, _) => found (.float x)
    | .error e => e
  match cs with
  | [] => .ended
  | c :: rest =>
    if c = 'n' then literal ['u', 'l', 'l'] rest .null
    else if c = 't' then literal ['r', 'u', 'e'] rest (.boolean true)
    else if c = 'f' then literal ['a', 'l', 's', 'e'] rest (.boolean false)
    else if c = '-' then number (readNumber true rest)
    else if c.isDigit then number (readNumber false (c :: rest))
    else if c = '"' then
      match readString fuel rest with
      | .ok (s, _) => found (.string (String.ofList s))
      | .error e => e
    else if c = '[' then found .sequence
    else if c = '\x7b' then found .map
    else .malformed

/-- A string, called `expected` where the text has something else. -/
def Shape.stringAs (expected : String) : Shape String := fun fuel _ cs =>
  match skipBlanks cs with
  | [] => .error .ended
  | c :: rest =>
    if c = '"' then do
      let (s, rest) ← readString fuel rest
      return (String.ofList s, rest)
    else .error (mismatchAt fuel expected (c :: rest))

def Shape.string : Shape String := .stringAs "a string"

/-- `null`, or a value of the shape. -/
def Shape.optional {α : Type} (shape : Shape α) : Shape (Option α) := fun fuel depth cs =>
  match skipBlanks cs with
  | 'n' :: rest => do
    let rest ← expectChars ['u', 'l', 'l'] rest
    return (none, rest)
  | cs => do
    let (a, rest) ← shape fuel depth cs
    return (some a, rest)

def Shape.boolean : Shape Bool := fun fuel _ cs =>
  match skipBlanks cs with
  | [] => .error .ended
  | c :: rest =>
    if c = 't' then do
      let rest ← expectChars ['r', 'u', 'e'] rest
      return (true, rest)
    else if c = 'f' then do
      let rest ← expectChars ['a', 'l', 's', 'e'] rest
      return (false, rest)
    else .error (mismatchAt fuel "a boolean" (c :: rest))

/-- A number that fits in an unsigned 64-bit word. -/
def Shape.word : Shape Nat := fun fuel _ cs =>
  let accept (r : Except Failure (Numeral × List Char)) : Except Failure (Nat × List Char) := do
    match ← r with
    | (.int n, rest) =>
      if 0 ≤ n then return (n.toNat, rest)
      else .error (.mismatch (.value (.integer n) "u64"))
    | (.float x, _) => .error (.mismatch (.type (.float x) "u64"))
  match skipBlanks cs with
  | [] => .error .ended
  | c :: rest =>
    if c = '-' then accept (readNumber true rest)
    else if c.isDigit then accept (readNumber false (c :: rest))
    else .error (mismatchAt fuel "u64" (c :: rest))

/-- An object of any members. -/
def Shape.members : Shape (Members none) := fun fuel depth cs =>
  match skipBlanks cs with
  | [] => .error .ended
  | c :: rest =>
    if c = '\x7b' then
      if depth = 0 then .error .malformed else readMembers fuel (depth - 1) true .nil rest
    else .error (mismatchAt fuel "a map" (c :: rest))

/-! ## Records -/

/-- Reads the members of an object, the opening brace already read. `field` takes each key and the
text after it: the colon, and a value of the field's shape. -/
def readFields {σ : Type} (field : σ → String → List Char → Except Failure (σ × List Char)) :
    Nat → Bool → σ → List Char → Except Failure (σ × List Char)
  | 0, _, _, _ => .error .ended
  | fuel + 1, first, s, cs =>
    match skipBlanks cs with
    | [] => .error .ended
    | c :: rest =>
      if c = '\x7d' then .ok (s, rest)
      else do
        let rest ← keyStart first c rest
        let (key, rest) ← readString fuel rest
        let (s, rest) ← field s (String.ofList key) rest
        readFields field fuel false s rest

/-- Reads the value of a field that may be given once. -/
def onceField {α σ : Type} (name : String) (seen : Option α) (shape : Shape α) (put : Option α → σ)
    (fuel depth : Nat) (cs : List Char) : Except Failure (σ × List Char) :=
  match seen with
  | some _ => .error (.mismatch (.duplicateField name))
  | none => do
    let cs ← readColon cs
    let (a, rest) ← shape fuel depth cs
    return (put (some a), rest)

/-- Passes over the value of an unknown field. -/
def unknownField {σ : Type} (s : σ) (fuel : Nat) (cs : List Char) :
    Except Failure (σ × List Char) := do
  let cs ← readColon cs
  let rest ← skipValue fuel cs
  return (s, rest)

/-- The value of a field that has to be given. -/
def required {α : Type} (name : String) : Option α → Except Failure α
  | some a => .ok a
  | none => .error (.mismatch (.missingField name))

/-- Reads the next element of an array, if there is one; its closing bracket is left standing. -/
def element {α : Type} (first : Bool) (shape : Shape α) : Shape (Option α) := fun fuel depth cs =>
  match skipBlanks cs with
  | [] => .error .ended
  | c :: rest =>
    if c = ']' then .ok (none, c :: rest)
    else if first then do
      let (a, rest) ← shape fuel depth (c :: rest)
      return (some a, rest)
    else if c = ',' then
      match skipBlanks rest with
      | [] => .error .ended
      | d :: rest =>
        if d = ']' then .error .malformed
        else do
          let (a, rest) ← shape fuel depth (d :: rest)
          return (some a, rest)
    else .error .malformed

/-- An element that has to be there: `n` is the length of an array that lacks it. -/
def requiredElement {α : Type} (n : Nat) (expected : String) : Option α → Except Failure α
  | some a => .ok a
  | none => .error (.mismatch (.length n expected))

/-- Reads the closing bracket of an array whose elements have all been read. -/
def closeArray (cs : List Char) : Except Failure (List Char) :=
  match skipBlanks cs with
  | [] => .error .ended
  | c :: rest => if c = ']' then .ok rest else .error .malformed

/-- A record, as an object or as an array of its fields. -/
def Shape.record {α : Type} (title : String) (byName byPosition : Shape α) : Shape α :=
  fun fuel depth cs =>
    match skipBlanks cs with
    | [] => .error .ended
    | c :: rest =>
      if c = '[' then
        if depth = 0 then .error .malformed
        else do
          let (a, rest) ← byPosition fuel (depth - 1) rest
          let rest ← closeArray rest
          return (a, rest)
      else if c = '\x7b' then
        if depth = 0 then .error .malformed else byName fuel (depth - 1) rest
      else .error (mismatchAt fuel title (c :: rest))

/-! ## Choices -/

/-- The value that a name stands for. -/
def chosen {α : Type} (choices : List (String × α)) (name : String) : Except Failure α :=
  match choices.lookup name with
  | some a => .ok a
  | none => .error (.mismatch (.unknownVariant name (choices.map Prod.fst)))

/-- One of the names, as a string. -/
def Shape.variant {α : Type} (choices : List (String × α)) : Shape α := fun fuel depth cs => do
  let (name, rest) ← Shape.stringAs "variant identifier" fuel depth cs
  let a ← chosen choices name
  return (a, rest)

/-- Reads `null`. -/
def Shape.unit : Shape Unit := fun fuel _ cs =>
  match skipBlanks cs with
  | [] => .error .ended
  | c :: rest =>
    if c = 'n' then do
      let rest ← expectChars ['u', 'l', 'l'] rest
      return ((), rest)
    else .error (mismatchAt fuel "unit" (c :: rest))

/-- One of the names, as a string or as an object with that name for `null`. -/
def Shape.choice {α : Type} (choices : List (String × α)) : Shape α := fun fuel depth cs =>
  match skipBlanks cs with
  | [] => .error .ended
  | c :: rest =>
    if c = '"' then Shape.variant choices fuel depth (c :: rest)
    else if c = '\x7b' then
      if depth = 0 then .error .malformed
      else do
        let (a, rest) ← Shape.variant choices fuel (depth - 1) rest
        let rest ← readColon rest
        let ((), rest) ← Shape.unit fuel (depth - 1) rest
        match skipBlanks rest with
        | [] => .error .ended
        | d :: rest => if d = '\x7d' then return (a, rest) else .error .malformed
    else .error .malformed

end BrokerClient.Json
