import BrokerClient.Json.Lexer
import BrokerClient.Json.Value

/-!
# Reading JSON values

`readValue` builds a value and allows 127 arrays and objects to be open at once; `skip` passes over
one and allows any number. `Value.parse` reads a whole text. The first argument of each reader
bounds its steps; twice the length of the text is always enough.
-/

namespace BrokerClient.Json

/-- The number of arrays and objects that may be open at once where a value is built. -/
def maxDepth : Nat := 127

/-- Steps that suffice to read a text. -/
def stepsFor (cs : List Char) : Nat := 2 * cs.length + 2

def Numeral.value : Numeral → Value
  | .int n => .int n
  | .float x => .float x

/-- Passes over what stands before the characters of a key: a comma, unless it is the first, and
the opening mark. -/
def keyStart (first : Bool) (c : Char) (rest : List Char) : Except Failure (List Char) :=
  if first then
    if c = '"' then .ok rest else .error .malformed
  else if c = ',' then
    match skipBlanks rest with
    | [] => .error .ended
    | d :: rest => if d = '"' then .ok rest else .error .malformed
  else .error .malformed

mutual

/-- Reads a value; `depth` arrays and objects may still be opened. -/
def readValue : Nat → Nat → List Char → Except Failure (Value × List Char)
  | 0, _, _ => .error .ended
  | fuel + 1, depth, cs =>
    match skipBlanks cs with
    | [] => .error .ended
    | c :: rest =>
      if c = 'n' then do
        let rest ← expectChars ['u', 'l', 'l'] rest
        return (.null, rest)
      else if c = 't' then do
        let rest ← expectChars ['r', 'u', 'e'] rest
        return (.bool true, rest)
      else if c = 'f' then do
        let rest ← expectChars ['a', 'l', 's', 'e'] rest
        return (.bool false, rest)
      else if c = '"' then do
        let (s, rest) ← readString fuel rest
        return (.str (String.ofList s), rest)
      else if c = '[' then
        if depth = 0 then .error .malformed
        else do
          let (items, rest) ← readItems fuel (depth - 1) true rest
          return (.arr items, rest)
      else if c = '\x7b' then
        if depth = 0 then .error .malformed
        else do
          let (members, rest) ← readMembers fuel (depth - 1) true .nil rest
          return (.obj members, rest)
      else if c = '-' then do
        let (n, rest) ← readNumber true rest
        return (n.value, rest)
      else if c.isDigit then do
        let (n, rest) ← readNumber false (c :: rest)
        return (n.value, rest)
      else .error .malformed

/-- Reads the elements of an array and its closing bracket; `first` before the first element. -/
def readItems : Nat → Nat → Bool → List Char → Except Failure (Items × List Char)
  | 0, _, _, _ => .error .ended
  | fuel + 1, depth, first, cs =>
    match skipBlanks cs with
    | [] => .error .ended
    | c :: rest =>
      if c = ']' then .ok (.nil, rest)
      else if first then do
        let (v, rest) ← readValue fuel depth (c :: rest)
        let (vs, rest) ← readItems fuel depth false rest
        return (.cons v vs, rest)
      else if c = ',' then
        match skipBlanks rest with
        | [] => .error .ended
        | d :: rest =>
          if d = ']' then .error .malformed
          else do
            let (v, rest) ← readValue fuel depth (d :: rest)
            let (vs, rest) ← readItems fuel depth false rest
            return (.cons v vs, rest)
      else .error .malformed

/-- Reads the members of an object and its closing brace, and puts them into `acc`. -/
def readMembers : Nat → Nat → Bool → Members none → List Char →
    Except Failure (Members none × List Char)
  | 0, _, _, _, _ => .error .ended
  | fuel + 1, depth, first, acc, cs =>
    match skipBlanks cs with
    | [] => .error .ended
    | c :: rest =>
      if c = '\x7d' then .ok (acc, rest)
      else do
        let rest ← keyStart first c rest
        let (key, rest) ← readString fuel rest
        let rest ← readColon rest
        let (v, rest) ← readValue fuel depth rest
        readMembers fuel depth false (acc.put (String.ofList key) v) rest

end

/-! ## Passing over values -/

/-- An array or an object that is open. -/
inductive Bracket where
  | array
  | object
  deriving DecidableEq, Repr

/-- What the text goes on with while a value is passed over. -/
inductive Expecting where
  /-- A value. -/
  | value
  /-- The first element or member of the innermost bracket, or its end. -/
  | first
  /-- A comma or the end of the innermost bracket. -/
  | more
  deriving DecidableEq, Repr

def Bracket.close : Bracket → Char
  | .array => ']'
  | .object => '\x7d'

/-- Passes over a key and its colon. -/
def skipKey (fuel : Nat) (cs : List Char) : Except Failure (List Char) :=
  match skipBlanks cs with
  | [] => .error .ended
  | c :: rest =>
    if c = '"' then do
      let rest ← skipString fuel rest
      readColon rest
    else .error .malformed

/-- Passes over a word that is no bracket. -/
def skipScalar (fuel : Nat) (c : Char) (rest : List Char) : Except Failure (List Char) :=
  if c = 'n' then expectChars ['u', 'l', 'l'] rest
  else if c = 't' then expectChars ['r', 'u', 'e'] rest
  else if c = 'f' then expectChars ['a', 'l', 's', 'e'] rest
  else if c = '"' then skipString fuel rest
  else if c = '-' then skipNumber rest
  else if c.isDigit then skipNumber (c :: rest)
  else .error .malformed

/-- Passes over the rest of a value; the list holds the open brackets, the innermost first. -/
def skip : Nat → List Bracket → Expecting → List Char → Except Failure (List Char)
  | 0, _, _, _ => .error .ended
  | _ + 1, [], .more, cs => .ok cs
  | _ + 1, [], .first, cs => .ok cs
  | fuel + 1, brackets, .value, cs =>
    match skipBlanks cs with
    | [] => .error .ended
    | c :: rest =>
      if c = '[' then skip fuel (.array :: brackets) .first rest
      else if c = '\x7b' then skip fuel (.object :: brackets) .first rest
      else do
        let rest ← skipScalar fuel c rest
        skip fuel brackets .more rest
  | fuel + 1, b :: brackets, .first, cs =>
    match skipBlanks cs with
    | [] => .error .ended
    | c :: rest =>
      if c = b.close then skip fuel brackets .more rest
      else match b with
        | .array => skip fuel (b :: brackets) .value (c :: rest)
        | .object => do
          let rest ← skipKey fuel (c :: rest)
          skip fuel (b :: brackets) .value rest
  | fuel + 1, b :: brackets, .more, cs =>
    match skipBlanks cs with
    | [] => .error .ended
    | c :: rest =>
      if c = ',' then
        match b with
        | .array => skip fuel (b :: brackets) .value rest
        | .object => do
          let rest ← skipKey fuel rest
          skip fuel (b :: brackets) .value rest
      else if c = b.close then skip fuel brackets .more rest
      else .error .malformed

/-- Passes over a value. -/
def skipValue (fuel : Nat) (cs : List Char) : Except Failure (List Char) := skip fuel [] .value cs

/-! ## Whole texts -/

/-- Reads a whole text: nothing but blanks may follow what the reader takes. -/
def parseWith {α : Type} (read : Nat → Nat → List Char → Except Failure (α × List Char))
    (text : String) : Except Failure α := do
  let cs := text.toList
  let (a, rest) ← read (stepsFor cs) maxDepth cs
  match skipBlanks rest with
  | [] => return a
  | _ :: _ => .error .malformed

/-- The value that a text writes. -/
def Value.parse (text : String) : Except Failure Value := parseWith readValue text

end BrokerClient.Json
