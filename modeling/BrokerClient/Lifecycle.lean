/-!
# The life of a connection

A connection is open at first, is started and stopped any number of times, and is closed for good.

```text
opened ──start──▶ started ──stop──▶ stopped
                     ▲                 │
                     └──────start──────┘
any ──close──▶ closed
```
-/

namespace BrokerClient

/-- Where a connection stands in its life. -/
inductive Lifecycle where
  /-- Just created: consumers receive nothing yet. -/
  | opened
  | started
  | stopped
  | closed
  deriving DecidableEq, Repr, Inhabited

namespace Lifecycle

def isClosed (s : Lifecycle) : Bool := s = .closed

/-- The name of a state in texts. -/
def name : Lifecycle → String
  | .opened => "open"
  | .started => "started"
  | .stopped => "stopped"
  | .closed => "closed"

/-- The name of a state in messages to the programmer. -/
def label : Lifecycle → String
  | .opened => "Open"
  | .started => "Started"
  | .stopped => "Stopped"
  | .closed => "Closed"

/-- Whether starting moves the connection. -/
def canStart (s : Lifecycle) : Bool := s = .opened || s = .stopped

/-- Whether stopping moves the connection. -/
def canStop (s : Lifecycle) : Bool := s = .started

end Lifecycle

/-- Whether a session lets its consumers receive. -/
inductive Delivery where
  | paused
  | running
  | closed
  deriving DecidableEq, Repr, Inhabited

namespace Delivery

def label : Delivery → String
  | .paused => "Paused"
  | .running => "Running"
  | .closed => "Closed"

/-- Lets a session receive or not; tells whether that changed anything. Nothing reopens a closed
one. -/
def change (next now : Delivery) : Option Delivery :=
  if now = .closed ∨ now = next then none else some next

end Delivery

end BrokerClient
