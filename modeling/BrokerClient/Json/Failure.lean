import BrokerClient.Number.Shortest
import BrokerClient.Text.Base64
import BrokerClient.Text.Quoted

/-!
# How reading JSON fails

A text ends too soon, is no JSON, or is JSON of another shape than the reader wants. The first
failure in the order of the text is the one that is reported.
-/

namespace BrokerClient.Json

open BrokerClient.Number BrokerClient.Text

/-- What stands in a text in place of what is wanted. -/
inductive Found where
  | null
  | boolean (b : Bool)
  | integer (n : Int)
  | float (x : Binary64)
  | string (s : String)
  | sequence
  | map
  deriving DecidableEq, Repr

/-- The wording of what was found. -/
def Found.text : Found → String
  | .null => "null"
  | .boolean b => s!"boolean `{b}`"
  | .integer n => s!"integer `{n}`"
  | .float x => s!"floating point `{x.text}`"
  | .string s => s!"string {quoted s}"
  | .sequence => "sequence"
  | .map => "map"

/-- How a well-formed text differs from the shape that is wanted. -/
inductive Mismatch where
  | type (found : Found) (expected : String)
  | value (found : Found) (expected : String)
  | length (n : Nat) (expected : String)
  | missingField (name : String)
  | duplicateField (name : String)
  | unknownVariant (name : String) (known : List String)
  | base64 (flaw : Base64.Flaw)
  deriving DecidableEq, Repr

/-- A choice among names, as messages put it. -/
def oneOf (names : List String) : String :=
  let ticked := names.map fun n => "`" ++ n ++ "`"
  match ticked with
  | [a] => a
  | [a, b] => a ++ " or " ++ b
  | _ => "one of " ++ ", ".intercalate ticked

/-- The wording of a mismatch. -/
def Mismatch.message : Mismatch → String
  | .type found expected => s!"invalid type: {found.text}, expected {expected}"
  | .value found expected => s!"invalid value: {found.text}, expected {expected}"
  | .length n expected => s!"invalid length {n}, expected {expected}"
  | .missingField name => s!"missing field `{name}`"
  | .duplicateField name => s!"duplicate field `{name}`"
  | .unknownVariant name known => s!"unknown variant `{name}`, expected {oneOf known}"
  | .base64 flaw => flaw.message

/-- Why a text could not be read. -/
inductive Failure where
  /-- The text ends too soon. -/
  | ended
  /-- The text is no JSON, or is nested too deeply, or holds a number beyond the largest double. -/
  | malformed
  /-- The text is JSON of another shape. -/
  | mismatch (m : Mismatch)
  deriving DecidableEq, Repr

/-- The category of a failure. -/
def Failure.category : Failure → String
  | .ended => "eof"
  | .malformed => "syntax"
  | .mismatch _ => "data"

/-- The wording of a failure, given only for a mismatch. -/
def Failure.message? : Failure → Option String
  | .mismatch m => some m.message
  | _ => none

end BrokerClient.Json
