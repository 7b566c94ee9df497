/-!
# Machine words

The range of an unsigned 64-bit word. Counts are natural numbers throughout; where one comes from a
word or goes into one, the range is asked for.
-/

namespace BrokerClient.Number

/-- The largest count that a 64-bit word holds. -/
def wordMax : Nat := (1 <<< 64) - 1

end BrokerClient.Number
