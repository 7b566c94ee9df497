import BrokerClient.Json.Printer
import BrokerClient.Json.Shape
import BrokerClient.Span

/-!
# Connection options

What every connection of a factory is created with: how long closing it may wait for the broker.
-/

namespace BrokerClient

/-- Options of the connections of a factory. -/
structure Options where
  /-- How many milliseconds closing a connection waits for the broker. -/
  terminationMillis : Nat := 15000
  deriving DecidableEq, Repr, Inhabited

namespace Options

/-- The options that hold where nothing else is said. -/
def standard : Options := ⟨15000⟩

/-- Sets the termination timeout, cut to whole milliseconds of a 64-bit word. -/
def withTimeout (_ : Options) (timeout : Span) : Options := ⟨timeout.millisWord⟩

def timeout (o : Options) : Span := .ofMillis o.terminationMillis

/-! ## JSON -/

def jsonChars (o : Options) : List Char :=
  Json.recordChars [Json.fieldChars "termination_timeout_ms" (Json.natChars o.terminationMillis)]

/-- The JSON text of options. -/
def jsonText (o : Options) : String := String.ofList o.jsonChars

/-- Reads the value of a member. -/
def readField (fuel depth : Nat) (ms : Option Nat) (key : String) (cs : List Char) :
    Except Json.Failure (Option Nat × List Char) :=
  if key = "termination_timeout_ms" then Json.onceField key ms .word id fuel depth cs
  else Json.unknownField ms fuel cs

def byName : Json.Shape Options := fun fuel depth cs => do
  let (ms, rest) ← Json.readFields (readField fuel depth) fuel true none cs
  return (⟨ms.getD standard.terminationMillis⟩, rest)

def byPosition : Json.Shape Options := fun fuel depth cs => do
  let (ms, rest) ← Json.element true .word fuel depth cs
  return (⟨ms.getD standard.terminationMillis⟩, rest)

def shape : Json.Shape Options := .record "struct ConnectionOptions" byName byPosition

/-- The options that a JSON text writes; a field that is not given keeps its standard value. -/
def parse (text : String) : Except Json.Failure Options := Json.parseWith shape text

end Options

end BrokerClient
