import BrokerClient.Broker.Basic

/-!
# Injected faults

A fault is laid out for one request to come: it delays the request, makes it fail before it reaches
the broker, delays its answer, or puts another number in place of the next one to publish under.

Each request uses up the first fault that fits it, by its kind and, where the fault names a channel,
by that. Reading the next number counts as a request of its own kind, though nobody waits for it.
What is not used up stays laid out, in its order.
-/

namespace BrokerClient

/-- The kinds of broker call that a fault can be laid out for. -/
inductive CallKind where
  | createChannel
  | close
  | publish
  | declare
  | delete
  | channelClose
  | nextTag
  deriving DecidableEq, Repr, Inhabited

def Request.kind : Request → CallKind
  | .createChannel => .createChannel
  | .close => .close
  | .publish .. => .publish
  | .declare .. => .declare
  | .delete .. => .delete
  | .closeChannel _ => .channelClose

def Request.channel? : Request → Option Nat
  | .createChannel => none
  | .close => none
  | .publish i _ => some i
  | .declare i _ _ => some i
  | .delete i _ => some i
  | .closeChannel i => some i

/-- A fault for one call. Delays are in milliseconds. -/
structure Fault where
  kind : CallKind
  /-- The channel it is laid out for, or any. -/
  channel : Option Nat := none
  /-- The wait before the call reaches the broker. -/
  delay : Nat := 0
  /-- The wait before the answer comes back. -/
  after : Nat := 0
  /-- The failure that takes the place of the call. -/
  failure : Option TransportFailure := none
  /-- The number given in place of the next one. -/
  tag : Option Nat := none
  deriving DecidableEq, Repr, Inhabited

/-- Whether a fault is for a call of a kind on a channel. -/
def Fault.fits (f : Fault) (kind : CallKind) (channel : Option Nat) : Bool :=
  f.kind = kind && (f.channel.isNone || f.channel = channel)

/-- The first fault that fits a call, and the faults that remain. -/
def takeFault (kind : CallKind) (channel : Option Nat) (faults : List Fault) :
    Option Fault × List Fault :=
  (faults.find? (·.fits kind channel), faults.eraseP (·.fits kind channel))

end BrokerClient
