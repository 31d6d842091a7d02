import StackPeek.Memory.Errno
import StackPeek.Numeral
import StackPeek.Probe

/-!
# Reading bytes

An `Attempt` is a probe that may end without a value because of a `ReadError`. All reading
goes through `fetchAll`, which asks the target at most once, never at the null address, never
for nothing and never for more than `maxRawRead` bytes, and takes only complete answers.
-/

namespace StackPeek

/-- A probe for a value that may turn out unreadable. -/
abbrev Attempt := ExceptT ReadError Probe

namespace Memory

def maxRawRead : UInt64 := 4194304

def accept (address : Address) (length : UInt64) : Reply → Attempt (List UInt8)
  | .failed errno => do
    if errno ≠ Errno.fault then
      Probe.report .debug
        s!"Failed to read {length} bytes at {Numeral.address address}: {Errno.describe errno}"
    throw .unmapped
  | .copied bytes =>
    if bytes.length < length.toNat then throw .outOfRange else return bytes.take length.toNat

def fetchAll (address : Address) (length : UInt64) : Attempt (List UInt8) :=
  if maxRawRead < length then do
    Probe.report .debug
      (s!"Refusing to read {length} bytes at {Numeral.address address}, " ++
        s!"limit is {maxRawRead}")
    throw .outOfRange
  else if address = 0 then throw .unmapped
  else if length = 0 then return []
  else do
    let reply ← Probe.fetch address length
    accept address length reply

end Memory
end StackPeek
