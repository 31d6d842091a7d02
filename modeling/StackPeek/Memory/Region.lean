import StackPeek.Memory.Errno
import StackPeek.Probe

/-!
# Memory as a list of regions

A `Region` is a run of mapped addresses. It may refuse every read with an error number, or
hand over only so many bytes at a time. Regions of one memory do not overlap.
-/

namespace StackPeek

structure Region where
  start : Address
  contents : ByteArray
  /-- The error of every read in the region, or zero. -/
  errno : Nat
  limit : Option Nat

namespace Region

def contains (r : Region) (a : Address) : Bool :=
  r.start ≤ a && a.toNat < r.start.toNat + r.contents.size

def slice (r : Region) (offset count : Nat) : List UInt8 :=
  (r.contents.extract offset (offset + count)).data.toList

def read (r : Region) (a : Address) (length : Nat) : Reply :=
  if r.errno ≠ 0 then .failed r.errno
  else
    let count := min length (r.limit.getD length)
    .copied (r.slice (a.toNat - r.start.toNat) count)

/-- The contents with other bytes from the `offset`-th on; what does not fit is lost. -/
def overwrite (contents : ByteArray) (offset : Nat) (bytes : List UInt8) : ByteArray :=
  (bytes.foldl (fun (state : ByteArray × Nat) b =>
    let (array, i) := state
    (if h : i < array.size then array.set i b h else array, i + 1)) (contents, offset)).1

def fill (size : Nat) (byte : UInt8) : ByteArray := ⟨Array.replicate size byte⟩

end Region

abbrev Regions := List Region

namespace Regions

def find? (m : Regions) (a : Address) : Option Region := List.find? (·.contains a) m

def read (m : Regions) (a : Address) (length : Nat) : Reply :=
  match m.find? a with
  | none => .failed Errno.fault
  | some r => r.read a length

/-- Maps a region in the place of the one that starts at the same address. -/
def map (m : Regions) (r : Region) : Regions := r :: List.filter (·.start ≠ r.start) m

def unmap (m : Regions) (a : Address) : Regions := List.filter (fun r => !r.contains a) m

def write (m : Regions) (a : Address) (bytes : List UInt8) : Regions :=
  List.map (fun r : Region =>
    if r.contains a then
      { r with contents := Region.overwrite r.contents (a.toNat - r.start.toNat) bytes }
    else r) m

end Regions
end StackPeek
