import BrokerClient.Json.Value
import BrokerClient.Text.Hex

/-!
# Writing JSON

The compact form: no blanks, members in the order of the object. In strings the quotation mark, the
backslash and the characters below the space are escaped, everything else stands as it is.
-/

namespace BrokerClient.Json

open BrokerClient.Number BrokerClient.Text

/-- One character of a string. -/
def escapeChar (c : Char) : List Char :=
  if c = '"' then ['\\', '"']
  else if c = '\\' then ['\\', '\\']
  else if 0x20 ≤ c.toNat then [c]
  else if c = '\x08' then ['\\', 'b']
  else if c = '\x0c' then ['\\', 'f']
  else if c = '\n' then ['\\', 'n']
  else if c = '\r' then ['\\', 'r']
  else if c = '\t' then ['\\', 't']
  else ['\\', 'u', '0', '0', hexDigit (c.toNat / 16), hexDigit c.toNat]

/-- A string between quotation marks. -/
def stringChars (s : String) : List Char :=
  '"' :: s.toList.flatMap escapeChar ++ ['"']

def boolChars (b : Bool) : List Char :=
  if b then ['t', 'r', 'u', 'e'] else ['f', 'a', 'l', 's', 'e']

def natChars (n : Nat) : List Char := Nat.toDigits 10 n

def intChars (n : Int) : List Char :=
  if n < 0 then '-' :: natChars n.natAbs else natChars n.natAbs

mutual

/-- The text of a value. -/
def Value.chars : Value → List Char
  | .null => ['n', 'u', 'l', 'l']
  | .bool b => boolChars b
  | .int n => intChars n
  | .float x => x.chars
  | .str s => stringChars s
  | .arr items => '[' :: items.chars ++ [']']
  | .obj members => '\x7b' :: members.chars ++ ['\x7d']

/-- The elements of an array, with commas between them. -/
def Items.chars : Items → List Char
  | .nil => []
  | .cons v .nil => v.chars
  | .cons v (.cons w vs) => v.chars ++ ',' :: (Items.cons w vs).chars

/-- The members of an object, with commas between them. -/
def Members.chars {low : Option String} : Members low → List Char
  | .nil => []
  | .cons k v .nil _ => stringChars k ++ ':' :: v.chars
  | .cons k v (.cons l w ms h) _ =>
    stringChars k ++ ':' :: v.chars ++ ',' :: (Members.cons l w ms h).chars

end

/-- The text of a value. -/
def Value.text (v : Value) : String := String.ofList v.chars

/-- One field of a record: its name, and its value written already. -/
def fieldChars (name : String) (value : List Char) : List Char :=
  stringChars name ++ ':' :: value

/-- A record: its fields in the order given. -/
def recordChars (fields : List (List Char)) : List Char :=
  '\x7b' :: (fields.intersperse [',']).flatten ++ ['\x7d']

end BrokerClient.Json
