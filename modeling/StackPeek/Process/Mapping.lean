import StackPeek.Numeral
import StackPeek.Numeral.Scan
import StackPeek.Text.Utf8

/-!
# Memory mappings

The system lists the mappings of a process one a line, as
`start-end access offset major:minor inode   name`, where the name may be missing.
`Mapping.parse?` reads such a line and `Mapping.render` writes it the way the system does.
-/

namespace StackPeek

structure Mapping where
  start : UInt64
  stop : UInt64
  offset : UInt64
  readable : Bool
  writable : Bool
  executable : Bool
  shared : Bool
  devMajor : UInt32
  devMinor : UInt32
  inode : UInt64
  name : Text
  deriving DecidableEq, Inhabited

namespace Mapping

def contains (m : Mapping) (a : UInt64) : Bool := m.start ≤ a && a < m.stop

def access (m : Mapping) : List Char :=
  [if m.readable then 'r' else '-', if m.writable then 'w' else '-',
   if m.executable then 'x' else '-', if m.shared then 's' else 'p']

/-- The access rights that four bytes stand for; an unknown byte grants nothing. -/
def withAccess (m : Mapping) : List UInt8 → Option Mapping
  | [r, w, x, s] =>
    some { m with
      readable := r == 114, writable := w == 119, executable := x == 120, shared := s == 115 }
  | _ => none

/-- The mapping that a line describes. Only the part before a NUL is scanned, but the name
reaches to the end of the line. -/
def parse? (line : List UInt8) : Option Mapping := do
  let scanned := line.takeWhile (· ≠ 0)
  let (start, rest) ← Scan.word? 16 scanned
  let rest ← Scan.literal? 45 rest
  let (stop, rest) ← Scan.word? 16 rest
  let (access, rest) ← Scan.run? 4 rest
  let (offset, rest) ← Scan.word? 16 rest
  let (major, rest) ← Scan.word? 16 rest
  let rest ← Scan.literal? 58 rest
  let (minor, rest) ← Scan.word? 16 rest
  let (inode, rest) ← Scan.word? 10 rest
  let behind := Scan.skipBlanks rest
  let name : Text := ⟨line.drop (scanned.length - behind.length)⟩
  withAccess
    ⟨start, stop, offset, false, false, false, false, major.toUInt32, minor.toUInt32, inode, name⟩
    access

/-- The line of a mapping, with `gap` spaces between the inode and the name. -/
def render (gap : Nat) (m : Mapping) : List UInt8 :=
  let head :=
    s!"{Numeral.paddedHex 8 m.start.toNat}-{Numeral.paddedHex 8 m.stop.toNat} " ++
    s!"{String.ofList m.access} {Numeral.paddedHex 8 m.offset.toNat} " ++
    s!"{Numeral.paddedHex 2 m.devMajor.toNat}:{Numeral.paddedHex 2 m.devMinor.toNat} {m.inode}"
  (Text.ofString head).octets ++ List.replicate gap 32 ++ m.name.octets

end Mapping
end StackPeek
