import BrokerClient.Destination

/-!
# Messages

What a session hands to the broker, and what a confirmation hands back. In JSON the body is Base64
text; an identifier that is not set and an empty set of properties are left out, and reading puts
them back as they were. Properties are JSON values of any kind, in the order of their keys.
-/

namespace BrokerClient

/-- A message to be published. -/
structure Message where
  destination : Destination
  /-- The identifier that the application gave it. -/
  id : Option String := none
  properties : Json.Members none := .nil
  body : List UInt8
  deriving DecidableEq, Repr, Inhabited

namespace Message

/-- A message with one more property, in place of the one that has the same key. -/
def withProperty (m : Message) (key : String) (value : Json.Value) : Message :=
  { m with properties := m.properties.put key value }

/-! ## JSON -/

/-- The Base64 text of a body. -/
def bodyChars (body : List UInt8) : List Char := Text.Base64.encode body

/-- The bytes of a text. -/
def bytesOf (s : String) : List UInt8 := s.toList.flatMap String.utf8EncodeChar

/-- The body that a text stands for. -/
def readBody (s : String) : Except Text.Base64.Flaw (List UInt8) := Text.Base64.decode (bytesOf s)

/-- The member for an identifier, if there is one. -/
def idFields : Option String → List (List Char)
  | none => []
  | some id => [Json.fieldChars "message_id" (Json.stringChars id)]

/-- The member for properties, if there are any. -/
def propertyFields : Json.Members none → List (List Char)
  | .nil => []
  | ms => [Json.fieldChars "properties" (Json.Value.obj ms).chars]

/-- The JSON text of a message. -/
def jsonChars (m : Message) : List Char :=
  Json.recordChars ([Json.fieldChars "destination" m.destination.jsonChars] ++ idFields m.id ++
    propertyFields m.properties ++ [Json.fieldChars "body" ('"' :: bodyChars m.body ++ ['"'])])

def jsonText (m : Message) : String := String.ofList m.jsonChars

/-- What has been read of a message. -/
structure Draft where
  destination : Option Destination := none
  id : Option (Option String) := none
  properties : Option (Json.Members none) := none
  body : Option (List UInt8) := none

/-- A body, as a string of Base64. -/
def bodyShape : Json.Shape (List UInt8) := fun fuel depth cs => do
  let (s, rest) ← Json.Shape.string fuel depth cs
  match readBody s with
  | .ok body => return (body, rest)
  | .error flaw => .error (.mismatch (.base64 flaw))

def idShape : Json.Shape (Option String) := .optional .string

/-- Reads the value of a member into the draft. -/
def readField (fuel depth : Nat) (p : Draft) (key : String) (cs : List Char) :
    Except Json.Failure (Draft × List Char) :=
  if key = "destination" then
    Json.onceField key p.destination Destination.shape ({ p with destination := · }) fuel depth cs
  else if key = "message_id" then
    Json.onceField key p.id idShape ({ p with id := · }) fuel depth cs
  else if key = "properties" then
    Json.onceField key p.properties .members ({ p with properties := · }) fuel depth cs
  else if key = "body" then
    Json.onceField key p.body bodyShape ({ p with body := · }) fuel depth cs
  else Json.unknownField p fuel cs

def byName : Json.Shape Message := fun fuel depth cs => do
  let (p, rest) ← Json.readFields (readField fuel depth) fuel true ⟨none, none, none, none⟩ cs
  let destination ← Json.required "destination" p.destination
  let body ← Json.required "body" p.body
  return (⟨destination, p.id.getD none, p.properties.getD .nil, body⟩, rest)

def title : String := "struct OutboundMessage"

def byPosition : Json.Shape Message := fun fuel depth cs => do
  let (destination, rest) ← Json.element true Destination.shape fuel depth cs
  let destination ← Json.requiredElement 0 (title ++ " with 4 elements") destination
  let (id, rest) ← Json.element false idShape fuel depth rest
  let (properties, rest) ← Json.element false .members fuel depth rest
  let (body, rest) ← Json.element false bodyShape fuel depth rest
  let body ← Json.requiredElement 3 (title ++ " with 4 elements") body
  return (⟨destination, id.getD none, properties.getD .nil, body⟩, rest)

def shape : Json.Shape Message := .record title byName byPosition

/-- The message that a JSON text writes. -/
def parse (text : String) : Except Json.Failure Message := Json.parseWith shape text

end Message

end BrokerClient
