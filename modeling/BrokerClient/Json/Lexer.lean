import BrokerClient.Json.Failure
import BrokerClient.Number.Word
import BrokerClient.Text.Hex

/-!
# The words of JSON

Readers of blanks, literals, strings and numbers. Each takes the rest of a text and gives what it
read and what is left. A string is read for its characters, or only passed over; the latter does not
ask for surrogates to come in pairs. A number keeps its first digits in a 64-bit word; the digits
that no longer fit count as zeros.
-/

namespace BrokerClient.Json

open BrokerClient.Number BrokerClient.Text

/-- Space, tab, line feed and carriage return. -/
def isBlank (c : Char) : Bool := c = ' ' || c = '\t' || c = '\n' || c = '\r'

def skipBlanks (cs : List Char) : List Char := cs.dropWhile isBlank

/-- Reads the given characters. -/
def expectChars : List Char → List Char → Except Failure (List Char)
  | [], cs => .ok cs
  | _ :: _, [] => .error .ended
  | w :: ws, c :: cs => if c = w then expectChars ws cs else .error .malformed

/-- Reads the colon between a key and its value. -/
def readColon (cs : List Char) : Except Failure (List Char) :=
  match skipBlanks cs with
  | [] => .error .ended
  | c :: rest => if c = ':' then .ok rest else .error .malformed

/-! ## Strings -/

/-- Reads the four hexadecimal digits of an escape. A text with fewer than four bytes left has
ended. -/
def readHex4 : List Char → Except Failure (Nat × List Char)
  | a :: b :: c :: d :: rest =>
    match hexValue? a, hexValue? b, hexValue? c, hexValue? d with
    | some w, some x, some y, some z => .ok (((w * 16 + x) * 16 + y) * 16 + z, rest)
    | _, _, _, _ => .error .malformed
  | cs => if 4 ≤ cs.foldl (fun n c => n + c.utf8Size) 0 then .error .malformed else .error .ended

def isLeading (n : Nat) : Bool := 0xD800 ≤ n && n ≤ 0xDBFF

def isTrailing (n : Nat) : Bool := 0xDC00 ≤ n && n ≤ 0xDFFF

/-- Reads the second escape of a surrogate pair. -/
def readTrailing (leading : Nat) (cs : List Char) : Except Failure (Char × List Char) :=
  match cs with
  | [] => .error .ended
  | '\\' :: rest =>
    match rest with
    | [] => .error .ended
    | 'u' :: rest => do
      let (n, rest) ← readHex4 rest
      if isTrailing n then
        return (Char.ofNat ((leading - 0xD800) * 0x400 + (n - 0xDC00) + 0x10000), rest)
      else .error .malformed
    | _ => .error .malformed
  | _ => .error .malformed

/-- Reads the rest of an escape, after its backslash. -/
def readEscape : List Char → Except Failure (Char × List Char)
  | [] => .error .ended
  | '"' :: rest => .ok ('"', rest)
  | '\\' :: rest => .ok ('\\', rest)
  | '/' :: rest => .ok ('/', rest)
  | 'b' :: rest => .ok ('\x08', rest)
  | 'f' :: rest => .ok ('\x0c', rest)
  | 'n' :: rest => .ok ('\n', rest)
  | 'r' :: rest => .ok ('\r', rest)
  | 't' :: rest => .ok ('\t', rest)
  | 'u' :: rest => do
    let (n, rest) ← readHex4 rest
    if isTrailing n then .error .malformed
    else if isLeading n then readTrailing n rest
    else return (Char.ofNat n, rest)
  | _ => .error .malformed

/-- Reads the characters of a string up to its closing mark, in at most `fuel` steps. -/
def readString : Nat → List Char → Except Failure (List Char × List Char)
  | 0, _ => .error .ended
  | _ + 1, [] => .error .ended
  | fuel + 1, c :: rest =>
    if c = '"' then .ok ([], rest)
    else if c = '\\' then do
      let (d, rest) ← readEscape rest
      let (ds, rest) ← readString fuel rest
      return (d :: ds, rest)
    else if c.toNat < 0x20 then .error .malformed
    else do
      let (ds, rest) ← readString fuel rest
      return (c :: ds, rest)

/-- Passes over the rest of an escape. -/
def skipEscape : List Char → Except Failure (List Char)
  | [] => .error .ended
  | 'u' :: rest => do
    let (_, rest) ← readHex4 rest
    return rest
  | c :: rest =>
    if c = '"' ∨ c = '\\' ∨ c = '/' ∨ c = 'b' ∨ c = 'f' ∨ c = 'n' ∨ c = 'r' ∨ c = 't' then .ok rest
    else .error .malformed

/-- Passes over a string up to its closing mark. -/
def skipString : Nat → List Char → Except Failure (List Char)
  | 0, _ => .error .ended
  | _ + 1, [] => .error .ended
  | fuel + 1, c :: rest =>
    if c = '"' then .ok rest
    else if c = '\\' then do
      let rest ← skipEscape rest
      skipString fuel rest
    else if c.toNat < 0x20 then .error .malformed
    else skipString fuel rest

/-! ## Numbers -/

/-- An integer of at most 64 bits, or a double. -/
inductive Numeral where
  | int (n : Int)
  | float (x : Binary64)
  deriving DecidableEq, Repr

def digitValue (c : Char) : Nat := c.toNat - 48

/-- The digits at the head of a text, and the rest. -/
def spanDigits (cs : List Char) : List Char × List Char := cs.span Char.isDigit

/-- Reads digits on to `n` while the result fits in a word; also counts the digits read. -/
def takeDigits (n : Nat) : Nat → List Char → Nat × Nat × List Char
  | count, c :: cs =>
    if c.isDigit ∧ n * 10 + digitValue c ≤ wordMax then
      takeDigits (n * 10 + digitValue c) (count + 1) cs
    else (n, count, c :: cs)
  | count, [] => (n, count, [])

/-- The quotient by the greatest table power, taken until the exponent is in the table. -/
def scaleDown (x : Binary64) (exponent : Int) : Nat → Option Binary64
  | 0 => some Binary64.zero
  | fuel + 1 =>
    if 0 ≤ exponent then do x.mul (← Binary64.pow10 exponent.toNat)
    else if -308 ≤ exponent then do x.div (← Binary64.pow10 (-exponent).toNat)
    else if x.isZero then some x
    else do scaleDown (← x.div (← Binary64.pow10 308)) (exponent + 308) fuel

/-- `n * 10 ^ exponent` as a double: the word is rounded first, then its product or quotient with a
power of ten. The largest power is `10 ^ 308`. -/
def scale (n : Nat) (exponent : Int) : Option Binary64 := do
  let x ← Binary64.ofNat n
  if 308 < exponent then if x.isZero then some x else none
  else scaleDown x exponent 4

/-- A double with its sign. -/
def signed (negative : Bool) (x : Binary64) : Binary64 := { x with negative := negative }

/-- A double with its sign, unless it is too large. -/
def finish (negative : Bool) (n : Nat) (exponent : Int) (rest : List Char) :
    Except Failure (Numeral × List Char) :=
  match scale n exponent with
  | some x => .ok (.float (signed negative x), rest)
  | none => .error .malformed

/-- The largest exponent that is read digit by digit. -/
def exponentMax : Nat := 2147483647

/-- Reads an exponent after its letter. -/
def readExponent (negative : Bool) (n : Nat) (start : Int) (cs : List Char) :
    Except Failure (Numeral × List Char) :=
  let (down, cs) := match cs with
    | '+' :: rest => (false, rest)
    | '-' :: rest => (true, rest)
    | _ => (false, cs)
  match cs with
  | [] => .error .ended
  | c :: _ =>
    if c.isDigit then
      let (digits, rest) := spanDigits cs
      let e := digits.foldl (fun e d => e * 10 + digitValue d) 0
      if exponentMax < e then
        if n ≠ 0 ∧ !down then .error .malformed
        else .ok (.float (signed negative Binary64.zero), rest)
      else finish negative n (if down then start - e else start + e) rest
    else .error .malformed

/-- Reads what may follow the digits of a double. -/
def readTail (negative : Bool) (n : Nat) (exponent : Int) :
    List Char → Except Failure (Numeral × List Char)
  | c :: cs =>
    if c = 'e' ∨ c = 'E' then readExponent negative n exponent cs
    else finish negative n exponent (c :: cs)
  | [] => finish negative n exponent []

/-- Reads the decimals after a point. -/
def readDecimals (negative : Bool) (n : Nat) (start : Int) (cs : List Char) :
    Except Failure (Numeral × List Char) :=
  let (m, count, rest) := takeDigits n 0 cs
  match rest with
  | [] => if count = 0 then .error .ended else readTail negative m (start - count) []
  | c :: _ =>
    if c.isDigit then readTail negative m (start - count) (rest.dropWhile Char.isDigit)
    else if count = 0 then .error .malformed
    else readTail negative m (start - count) rest

/-- The integer with a sign, as an integer where 64 bits hold it. -/
def integer (negative : Bool) (n : Nat) (rest : List Char) : Except Failure (Numeral × List Char) :=
  if !negative then .ok (.int n, rest)
  else if n = 0 ∨ 9223372036854775808 < n then finish true n 0 rest
  else .ok (.int (-n), rest)

/-- Reads what may follow the digits of an integer. -/
def readFraction (negative : Bool) (n : Nat) : List Char → Except Failure (Numeral × List Char)
  | c :: cs =>
    if c = '.' then readDecimals negative n 0 cs
    else if c = 'e' ∨ c = 'E' then readExponent negative n 0 cs
    else integer negative n (c :: cs)
  | [] => integer negative n []

/-- Reads what may follow the digits of an integer that no longer fits in a word: `skipped` of its
digits count as zeros. -/
def readLong (negative : Bool) (n skipped : Nat) : List Char → Except Failure (Numeral × List Char)
  | c :: cs =>
    if c = '.' then readDecimals negative n skipped cs
    else readTail negative n skipped (c :: cs)
  | [] => finish negative n skipped []

/-- Reads a number after its sign. Only a lone zero may begin with a zero. -/
def readNumber (negative : Bool) : List Char → Except Failure (Numeral × List Char)
  | [] => .error .ended
  | c :: cs =>
    if c = '0' then
      match cs with
      | [] => readFraction negative 0 []
      | d :: _ => if d.isDigit then .error .malformed else readFraction negative 0 cs
    else if c.isDigit then
      let (n, _, rest) := takeDigits (digitValue c) 1 cs
      let (more, tail) := spanDigits rest
      if more.isEmpty then readFraction negative n rest
      else readLong negative n more.length tail
    else .error .malformed

/-- Passes over the digits of an exponent. -/
def skipExponent (cs : List Char) : Except Failure (List Char) :=
  let cs := match cs with
    | '+' :: rest => rest
    | '-' :: rest => rest
    | _ => cs
  match cs with
  | [] => .error .malformed
  | c :: _ => if c.isDigit then .ok (cs.dropWhile Char.isDigit) else .error .malformed

/-- Passes over a number after its sign; its size does not matter. -/
def skipNumber (cs : List Char) : Except Failure (List Char) := do
  let cs ← match cs with
    | [] => .error .malformed
    | c :: rest =>
      if c = '0' then
        match rest with
        | [] => .ok rest
        | d :: _ => if d.isDigit then .error .malformed else .ok rest
      else if c.isDigit then .ok (rest.dropWhile Char.isDigit)
      else .error .malformed
  match cs with
  | '.' :: rest =>
    match rest with
    | [] => .error .malformed
    | c :: _ =>
      if c.isDigit then
        match rest.dropWhile Char.isDigit with
        | 'e' :: tail => skipExponent tail
        | 'E' :: tail => skipExponent tail
        | tail => .ok tail
      else .error .malformed
  | 'e' :: rest => skipExponent rest
  | 'E' :: rest => skipExponent rest
  | _ => .ok cs

end BrokerClient.Json
