import BrokerClient.Json.Printer
import BrokerClient.Json.Shape

/-!
# Destinations

Messages go to queues and topics. A JSON text writes a destination as an object with its kind and
its name, in either order; the name is read as a string once the kind is known.
-/

namespace BrokerClient

/-- Where a message is sent to or received from. -/
inductive Destination where
  /-- Each message goes to one receiver. -/
  | queue (name : String)
  /-- Each message goes to all subscribers. -/
  | topic (name : String)
  deriving DecidableEq, Repr, Inhabited

namespace Destination

/-- The two kinds of destination. -/
inductive Kind where
  | queue
  | topic
  deriving DecidableEq, Repr

def Kind.name : Kind → String
  | .queue => "queue"
  | .topic => "topic"

def ofKind : Kind → String → Destination
  | .queue, name => .queue name
  | .topic, name => .topic name

def kind : Destination → Kind
  | .queue _ => .queue
  | .topic _ => .topic

def name : Destination → String
  | .queue name => name
  | .topic name => name

def isTopic : Destination → Bool
  | .queue _ => false
  | .topic _ => true

/-- A destination as an address. -/
def address (d : Destination) : String := d.kind.name ++ "://" ++ d.name

/-- A destination in messages to the programmer. -/
def label : Destination → String
  | .queue name => "Queue(" ++ Text.quoted name ++ ")"
  | .topic name => "Topic(" ++ Text.quoted name ++ ")"

@[simp] theorem ofKind_kind_name (d : Destination) : ofKind d.kind d.name = d := by cases d <;> rfl

/-! ## JSON -/

/-- The JSON text of a destination. -/
def jsonChars (d : Destination) : List Char :=
  Json.recordChars [Json.fieldChars "kind" (Json.stringChars d.kind.name),
    Json.fieldChars "name" (Json.stringChars d.name)]

def jsonText (d : Destination) : String := String.ofList d.jsonChars

def kinds : List (String × Kind) := [("queue", .queue), ("topic", .topic)]

/-- What has been read of a destination. A name that comes before the kind is kept as it stands. -/
structure Draft where
  kind : Option Kind := none
  name : Option String := none
  early : Option Json.Value := none

/-- What a value is called where a string is wanted. -/
def foundIn : Json.Value → Json.Found
  | .null => .null
  | .bool b => .boolean b
  | .int n => .integer n
  | .float x => .float x
  | .str s => .string s
  | .arr _ => .sequence
  | .obj _ => .map

/-- A name that was read before the kind. -/
def nameOf : Json.Value → Except Json.Failure String
  | .str s => .ok s
  | v => .error (.mismatch (.type (foundIn v) "a string"))

/-- Reads the kind; a name kept for it is looked at now. -/
def kindField (p : Draft) (fuel depth : Nat) (cs : List Char) :
    Except Json.Failure (Draft × List Char) :=
  if p.kind.isSome then .error (.mismatch (.duplicateField "kind"))
  else do
    let cs ← Json.readColon cs
    let (k, rest) ← Json.Shape.choice kinds fuel depth cs
    match p.early with
    | none => return ({ p with kind := some k }, rest)
    | some v =>
      let name ← nameOf v
      return ({ p with kind := some k, name := some name }, rest)

/-- Reads the name, as a string if the kind is known and as any value if not. -/
def nameField (p : Draft) (fuel depth : Nat) (cs : List Char) :
    Except Json.Failure (Draft × List Char) :=
  if p.name.isSome ∨ p.early.isSome then .error (.mismatch (.duplicateField "name"))
  else do
    let cs ← Json.readColon cs
    if p.kind.isSome then
      let (name, rest) ← Json.Shape.string fuel depth cs
      return ({ p with name := some name }, rest)
    else
      let (v, rest) ← Json.readValue fuel depth cs
      return ({ p with early := some v }, rest)

/-- Reads the value of a member into the draft. -/
def readField (fuel depth : Nat) (p : Draft) (key : String) (cs : List Char) :
    Except Json.Failure (Draft × List Char) :=
  if key = "kind" then kindField p fuel depth cs
  else if key = "name" then nameField p fuel depth cs
  else Json.unknownField p fuel cs

def byName : Json.Shape Destination := fun fuel depth cs => do
  let (p, rest) ← Json.readFields (readField fuel depth) fuel true ⟨none, none, none⟩ cs
  let kind ← Json.required "kind" p.kind
  let name ← Json.required "name" p.name
  return (ofKind kind name, rest)

/-- What a text is told to be when it is no destination. -/
def title : String := "adjacently tagged enum Destination"

def byPosition : Json.Shape Destination := fun fuel depth cs => do
  let (kind, rest) ← Json.element true (Json.Shape.variant kinds) fuel depth cs
  let kind ← Json.requiredElement 0 title kind
  let (name, rest) ← Json.element false Json.Shape.string fuel depth rest
  let name ← Json.requiredElement 1 title name
  return (ofKind kind name, rest)

def shape : Json.Shape Destination := .record title byName byPosition

/-- The destination that a JSON text writes. -/
def parse (text : String) : Except Json.Failure Destination := Json.parseWith shape text

end Destination

end BrokerClient
