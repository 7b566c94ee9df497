/-!
# The provider

What this client says about itself. The values are the same for every connection.
-/

namespace BrokerClient

/-- The provider, and the level of the messaging interface that it offers. -/
structure Provider where
  apiVersion : String
  apiMajor : Nat
  apiMinor : Nat
  name : String
  version : String
  versionMajor : Nat
  versionMinor : Nat
  /-- The names of the optional message properties that are supported. -/
  properties : List String
  deriving DecidableEq, Repr

/-- This client. -/
def provider : Provider where
  apiVersion := "1.1"
  apiMajor := 1
  apiMinor := 1
  name := "rjms"
  version := "0.1.0"
  versionMajor := 0
  versionMinor := 1
  properties := ["JMSXGroupID", "JMSXGroupSeq", "JMSXDeliveryCount"]

end BrokerClient
