import BrokerClient.Client.State
import BrokerClient.Options

/-!
# Factories

A factory creates connections that have the same options and share one registry of identifiers.
Several factories may share a registry.
-/

namespace BrokerClient

/-- What connections are created with. -/
structure Factory where
  options : Options := .standard
  registry : RegistryId
  deriving DecidableEq, Repr, Inhabited

namespace System

/-- Sets up a registry that holds no identifier. -/
def createRegistry (w : System) : RegistryId × System :=
  (w.registries.length, { w with registries := w.registries ++ [{}] })

/-- Connects to a new broker; closing the connection waits for it as long as `timeout`. -/
def connect (w : System) (registry : RegistryId) (timeout : Span) (plan : BrokerPlan) :
    ConnectionId × System :=
  let x : Connection := { registry, timeout, broker := { plan } }
  (w.connections.length, { w with connections := w.connections ++ [x] })

/-- Connects to a new broker with the options of a factory. -/
def connectFrom (w : System) (f : Factory) (plan : BrokerPlan) : ConnectionId × System :=
  (w.log (.connectionCreated f.options.terminationMillis)).connect f.registry f.options.timeout plan

end System

end BrokerClient
