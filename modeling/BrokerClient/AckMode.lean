import BrokerClient.Json.Printer
import BrokerClient.Json.Shape

/-!
# Acknowledgement modes

How a session acknowledges the messages that it has consumed. Each mode has a number, for
configurations written elsewhere, and a name.
-/

namespace BrokerClient

/-- How a session acknowledges messages. -/
inductive AckMode where
  /-- Local transactions: acknowledgement happens on commit. -/
  | sessionTransacted
  /-- The session acknowledges each message once it has been delivered. -/
  | auto
  /-- The application acknowledges; one acknowledgement covers all earlier messages. -/
  | client
  /-- Acknowledgement is lazy, and duplicates are tolerated. -/
  | dupsOk
  /-- The application acknowledges each message by itself. -/
  | clientIndividual
  deriving DecidableEq, Repr

namespace AckMode

instance : Inhabited AckMode := ⟨.auto⟩

def all : List AckMode := [.sessionTransacted, .auto, .client, .dupsOk, .clientIndividual]

/-- The number of a mode. -/
def code : AckMode → Nat
  | .sessionTransacted => 0
  | .auto => 1
  | .client => 2
  | .dupsOk => 3
  | .clientIndividual => 4

/-- The mode with a number. -/
def ofCode? (n : Int) : Option AckMode := all.find? fun m => (m.code : Int) = n

/-- The name of a mode in texts. -/
def name : AckMode → String
  | .sessionTransacted => "session_transacted"
  | .auto => "auto"
  | .client => "client"
  | .dupsOk => "dups_ok"
  | .clientIndividual => "client_individual"

/-- The name of a mode in messages to the programmer. -/
def label : AckMode → String
  | .sessionTransacted => "SessionTransacted"
  | .auto => "Auto"
  | .client => "Client"
  | .dupsOk => "DupsOk"
  | .clientIndividual => "ClientIndividual"

/-- The mode with a name. -/
def ofName? (s : String) : Option AckMode := all.find? fun m => m.name = s

/-- What is said of a number that no mode has. -/
def unknownCode (n : Int) : String := s!"invalid acknowledgement mode {n}"

def shape : Json.Shape AckMode := .choice (all.map fun m => (m.name, m))

/-- The mode that a JSON text writes. -/
def parse (text : String) : Except Json.Failure AckMode := Json.parseWith shape text

/-- The JSON text of a mode. -/
def jsonText (m : AckMode) : String := String.ofList (Json.stringChars m.name)

@[simp] theorem ofCode?_code (m : AckMode) : ofCode? m.code = some m := by cases m <;> rfl

@[simp] theorem ofName?_name (m : AckMode) : ofName? m.name = some m := by cases m <;> decide

end AckMode

end BrokerClient
