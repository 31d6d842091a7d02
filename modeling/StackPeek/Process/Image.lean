import StackPeek.Memory.Region
import StackPeek.Process.Procfs

/-!
# A process as the system sees it

An `Image` holds the anonymous mappings of a process. Reads run on from one mapping into the
next as long as addresses are mapped and readable; what was copied before the first address
that is not is all there is. Adjacent mappings with equal access rights are one mapping.
-/

namespace StackPeek

structure Block where
  start : Address
  contents : ByteArray
  accessible : Bool

structure Image where
  pid : Int
  blocks : List Block

namespace Block

def pageSize : Nat := 4096

def wholePages (size : Nat) : Nat := (size + (pageSize - 1)) / pageSize * pageSize

def region (b : Block) : Region := ⟨b.start, b.contents, 0, none⟩

def stop (b : Block) : UInt64 := b.start + UInt64.ofNat b.contents.size

def mapping (b : Block) : Mapping :=
  ⟨b.start, b.stop, 0, b.accessible, b.accessible, false, false, 0, 0, 0, ⟨[]⟩⟩

end Block

namespace Image

def regions (i : Image) : Regions := (i.blocks.filter (·.accessible)).map Block.region

/-- At most `length` bytes from an address on, out of at most `pieces` regions. -/
def gather (m : Regions) : (pieces : Nat) → Address → (length : Nat) → List UInt8
  | 0, _, _ => []
  | pieces + 1, a, length =>
    match m.find? a with
    | none => []
    | some r =>
      let bytes := r.slice (a.toNat - r.start.toNat) length
      if bytes.length < length then
        bytes ++ gather m pieces (a + UInt64.ofNat bytes.length) (length - bytes.length)
      else bytes

/-- Reads from the process. Nothing is asked of the system for an empty read. -/
def read (i : Image) (a : Address) (length : UInt64) : Reply :=
  if length = 0 then .copied []
  else if (i.regions.find? a).isNone then .failed Errno.fault
  else .copied (gather i.regions i.blocks.length a length.toNat)

/-- Joins a mapping with the next one if they touch and have equal rights. -/
def join : List Mapping → List Mapping
  | m :: n :: rest =>
    if m.stop = n.start ∧ m.readable = n.readable then join ({ m with stop := n.stop } :: rest)
    else m :: join (n :: rest)
  | ms => ms
termination_by ms => ms.length

def mappings (i : Image) : List Mapping :=
  join ((i.blocks.map Block.mapping).mergeSort fun m n => m.start ≤ n.start)

def entry (i : Image) : ProcEntry where
  pid := i.pid
  alive := true
  maps := some (i.mappings.flatMap fun m => m.render 1 ++ [10])

def target {σ : Type} (i : Image) (hear : Log.Entry → σ → σ) : Target σ where
  read a length s := (i.read a length, s)
  cancelled _ := false
  hear := hear

end Image
end StackPeek
