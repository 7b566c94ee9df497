/-!
# Base64 with required padding

The standard alphabet, four symbols for three bytes. A text is accepted in one spelling only: the
last group is padded to four symbols, and the bits that padding leaves over are zero. `encode`
writes bytes; `decode` reads a text, given by its bytes, or says what is wrong with it.
-/

namespace BrokerClient.Text.Base64

/-- The symbol for six bits. -/
def symbol (n : Nat) : Char :=
  if n < 26 then Char.ofNat (65 + n)
  else if n < 52 then Char.ofNat (97 + (n - 26))
  else if n < 62 then Char.ofNat (48 + (n - 52))
  else if n = 62 then '+'
  else '/'

/-- The six bits that a byte stands for, if it is a symbol of the alphabet. -/
def value? (b : UInt8) : Option Nat :=
  if 65 ≤ b ∧ b ≤ 90 then some (b.toNat - 65)
  else if 97 ≤ b ∧ b ≤ 122 then some (b.toNat - 97 + 26)
  else if 48 ≤ b ∧ b ≤ 57 then some (b.toNat - 48 + 52)
  else if b = 43 then some 62
  else if b = 47 then some 63
  else none

/-- The padding byte, an equals sign. -/
def pad : UInt8 := 61

/-- Writes bytes, three at a time; one or two bytes at the end are padded to a full group. -/
def encode : List UInt8 → List Char
  | a :: b :: c :: rest =>
    symbol (a.toNat / 4) :: symbol (a.toNat % 4 * 16 + b.toNat / 16) ::
      symbol (b.toNat % 16 * 4 + c.toNat / 64) :: symbol (c.toNat % 64) :: encode rest
  | [a, b] =>
    [symbol (a.toNat / 4), symbol (a.toNat % 4 * 16 + b.toNat / 16), symbol (b.toNat % 16 * 4), '=']
  | [a] => [symbol (a.toNat / 4), symbol (a.toNat % 4 * 16), '=', '=']
  | [] => []

/-- What is wrong with a text. Offsets count bytes from the start of the text. -/
inductive Flaw where
  /-- A byte that is no symbol, or padding where none may stand. -/
  | symbol (byte : UInt8) (offset : Nat)
  /-- A last symbol whose surplus bits are not zero. -/
  | lastSymbol (byte : UInt8) (offset : Nat)
  /-- Too little padding. -/
  | padding
  /-- A length that no encoded text has. -/
  | length (n : Nat)
  deriving DecidableEq, Repr

/-- The wording of a flaw. -/
def Flaw.message : Flaw → String
  | .symbol b offset => s!"Invalid symbol {b.toNat}, offset {offset}."
  | .lastSymbol b offset => s!"Invalid last symbol {b.toNat}, offset {offset}."
  | .padding => "Invalid padding"
  | .length n => s!"Invalid input length: {n}"

/-- The symbol at an offset of the text. -/
def valueAt (offset : Nat) (b : UInt8) : Except Flaw Nat :=
  match value? b with
  | some v => .ok v
  | none => .error (.symbol b offset)

/-- The symbols of the last group, with their offsets, up to its padding. Padding may stand after
two symbols at the earliest and has nothing but padding after it. -/
def lastGroup (start : Nat) : Nat → List UInt8 → Except Flaw (List Nat)
  | _, [] => .ok []
  | k, b :: rest =>
    if b = pad then
      if k < 2 then .error (.symbol b (start + k))
      else if rest.all (· = pad) then .ok []
      else .error (.symbol pad (start + k))
    else do
      let v ← valueAt (start + k) b
      let vs ← lastGroup start (k + 1) rest
      return v :: vs

/-- The bytes of the last group, which holds at most four bytes of text. -/
def decodeLast (start : Nat) (text : List UInt8) : Except Flaw (List UInt8) := do
  let vs ← lastGroup start 0 text
  match text, vs with
  | [], _ => return []
  | _, [] => .error (.length start)
  | _, [_] => .error (.length (start + 1))
  | t, [v, w] =>
    if t.length ≠ 4 then .error .padding
    else if w % 16 ≠ 0 then .error (.lastSymbol (t.getD 1 0) (start + 1))
    else return [UInt8.ofNat (v * 4 + w / 16)]
  | t, [v, w, x] =>
    if t.length ≠ 4 then .error .padding
    else if x % 4 ≠ 0 then .error (.lastSymbol (t.getD 2 0) (start + 2))
    else return [UInt8.ofNat (v * 4 + w / 16), UInt8.ofNat (w % 16 * 16 + x / 4)]
  | _, v :: w :: x :: y :: _ =>
    return [UInt8.ofNat (v * 4 + w / 16), UInt8.ofNat (w % 16 * 16 + x / 4),
      UInt8.ofNat (x % 4 * 64 + y)]

/-- Decodes groups of four from an offset on; the last group is the one with nothing after it. -/
def decodeFrom (start : Nat) : List UInt8 → Except Flaw (List UInt8)
  | a :: b :: c :: d :: e :: rest => do
    let v ← valueAt start a
    let w ← valueAt (start + 1) b
    let x ← valueAt (start + 2) c
    let y ← valueAt (start + 3) d
    let tail ← decodeFrom (start + 4) (e :: rest)
    return UInt8.ofNat (v * 4 + w / 16) :: UInt8.ofNat (w % 16 * 16 + x / 4) ::
      UInt8.ofNat (x % 4 * 64 + y) :: tail
  | text => decodeLast start text

/-- A last byte that stands alone in its group and is neither symbol nor padding, such as a line
break after a complete text; it is reported before anything else. -/
def stray? (text : List UInt8) : Option Flaw :=
  match text.getLast? with
  | none => none
  | some b =>
    if text.length % 4 = 1 ∧ b ≠ pad ∧ value? b = none then some (.symbol b (text.length - 1))
    else none

/-- Reads a text, given by its bytes. -/
def decode (text : List UInt8) : Except Flaw (List UInt8) :=
  match stray? text with
  | some flaw => .error flaw
  | none => decodeFrom 0 text

end BrokerClient.Text.Base64
