/-!
# Client identifiers

The set of identifiers that live connections hold; that each is in it once is part of the type.
Connections that share a registry never hold the same identifier at once: `claim` refuses one that
is held, and a connection gives its own back when it is closed.
-/

namespace BrokerClient

/-- The identifiers in use, each once. -/
structure Identifiers where
  held : List String := []
  nodup : held.Nodup := by exact List.nodup_nil
  deriving DecidableEq, Repr

instance : Inhabited Identifiers := ⟨{}⟩

namespace Identifiers

def contains (r : Identifiers) (id : String) : Bool := r.held.contains id

def size (r : Identifiers) : Nat := r.held.length

def isEmpty (r : Identifiers) : Bool := r.held.isEmpty

/-- Takes an identifier that nobody holds; tells whether it did. -/
def claim (r : Identifiers) (id : String) : Bool × Identifiers :=
  if h : r.contains id then (false, r)
  else (true, ⟨id :: r.held, List.nodup_cons.2 ⟨by simpa [contains] using h, r.nodup⟩⟩)

/-- Gives an identifier back; tells whether it was held. -/
def release (r : Identifiers) (id : String) : Bool × Identifiers :=
  (r.contains id, ⟨r.held.erase id, r.nodup.sublist List.erase_sublist⟩)

end Identifiers

end BrokerClient
