import StackPeek.LineTable.Locations
import StackPeek.Probe

/-!
# Looking up lines

A `LineTable` answers which source line an instruction belongs to. Positions that are not
positive belong to the first line. A damaged table gives the last line reached before the
damage, and a line is stored in 32 bits.
-/

namespace StackPeek

structure LineTable where
  format : LineTableFormat
  firstLine : Int32
  data : List UInt8

namespace LineTable

/-- The largest table that is read; a longer one counts as damaged. -/
def maxSize : UInt64 := 1048576

def exactLine (t : LineTable) (offset : Nat) : Int × Option Malformed :=
  let first := t.firstLine.toInt
  match t.format with
  | .lnotab => (stepLine unsignedStep offset 0 first t.data, none)
  | .lnotabSigned => (stepLine signedStep offset 0 first t.data, none)
  | .linetable310 => (rangeLine offset 0 first first t.data, none)
  | .locationTable311 => entryLine offset first t.data

/-- The line of the instruction at a position, and what was found wrong with the table. -/
def lookup (t : LineTable) (offset : Int64) : Int32 × Option Malformed :=
  if offset ≤ 0 then (t.firstLine, none)
  else
    let (line, damage) := t.exactLine offset.toInt.toNat
    (Int32.ofInt line, damage)

def lineAt (t : LineTable) (offset : Int64) : Probe Int32 :=
  match t.lookup offset with
  | (line, none) => return line
  | (line, some damage) => do
    Probe.report .info s!"Failed to parse location table: {damage.message}"
    return line

theorem lookup_of_le_zero (t : LineTable) {offset : Int64} (h : offset ≤ 0) :
    t.lookup offset = (t.firstLine, none) := by simp [lookup, h]

end LineTable
end StackPeek
