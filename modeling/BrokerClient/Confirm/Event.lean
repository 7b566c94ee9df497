import BrokerClient.Json.Printer
import BrokerClient.Json.Shape

/-!
# Confirm events

The broker's report on one published message, or on all messages up to one (`multiple`), and whether
it took them. A report says nothing about messages of which it was told before; that each outcome is
handed on once is a matter of the messages that are still awaited.
-/

namespace BrokerClient

/-- A report of the broker. -/
structure ConfirmEvent where
  /-- The number under which the message was published. -/
  tag : Nat
  /-- Whether the report covers every earlier message too. -/
  multiple : Bool := false
  /-- Whether the broker took the message; if not, it counts as lost. -/
  ack : Bool
  deriving DecidableEq, Repr, Inhabited

namespace ConfirmEvent

/-- The report extended to every earlier message. -/
def upTo (e : ConfirmEvent) : ConfirmEvent := { e with multiple := true }

/-- Whether the report settles the message with a number. -/
def covers (e : ConfirmEvent) (tag : Nat) : Bool :=
  if e.multiple then tag ≤ e.tag else tag = e.tag

theorem covers_le {e : ConfirmEvent} {tag : Nat} (h : e.covers tag = true) : tag ≤ e.tag := by
  unfold covers at h
  split at h <;> simp at h <;> omega

/-! ## JSON -/

/-- The JSON text of a report. -/
def jsonChars (e : ConfirmEvent) : List Char :=
  Json.recordChars [Json.fieldChars "delivery_tag" (Json.natChars e.tag),
    Json.fieldChars "multiple" (Json.boolChars e.multiple),
    Json.fieldChars "ack" (Json.boolChars e.ack)]

def jsonText (e : ConfirmEvent) : String := String.ofList e.jsonChars

/-- What has been read of a report. -/
structure Draft where
  tag : Option Nat := none
  multiple : Option Bool := none
  ack : Option Bool := none

/-- Reads the value of a member into the draft. -/
def readField (fuel depth : Nat) (p : Draft) (key : String) (cs : List Char) :
    Except Json.Failure (Draft × List Char) :=
  if key = "delivery_tag" then
    Json.onceField key p.tag .word ({ p with tag := · }) fuel depth cs
  else if key = "multiple" then
    Json.onceField key p.multiple .boolean ({ p with multiple := · }) fuel depth cs
  else if key = "ack" then
    Json.onceField key p.ack .boolean ({ p with ack := · }) fuel depth cs
  else Json.unknownField p fuel cs

def byName : Json.Shape ConfirmEvent := fun fuel depth cs => do
  let (p, rest) ← Json.readFields (readField fuel depth) fuel true ⟨none, none, none⟩ cs
  let tag ← Json.required "delivery_tag" p.tag
  let ack ← Json.required "ack" p.ack
  return (⟨tag, p.multiple.getD false, ack⟩, rest)

def title : String := "struct ConfirmEvent"

def byPosition : Json.Shape ConfirmEvent := fun fuel depth cs => do
  let (tag, rest) ← Json.element true .word fuel depth cs
  let tag ← Json.requiredElement 0 (title ++ " with 3 elements") tag
  let (multiple, rest) ← Json.element false .boolean fuel depth rest
  let (ack, rest) ← Json.element false .boolean fuel depth rest
  let ack ← Json.requiredElement 2 (title ++ " with 3 elements") ack
  return (⟨tag, multiple.getD false, ack⟩, rest)

def shape : Json.Shape ConfirmEvent := .record title byName byPosition

/-- The report that a JSON text writes. -/
def parse (text : String) : Except Json.Failure ConfirmEvent := Json.parseWith shape text

end ConfirmEvent

end BrokerClient
