import StackPeek.Bytes
import StackPeek.Layout.Field

/-!
# Layouts

A `Layout` says where one interpreter build keeps each member, how wide it is and how its
bytes are read, and which conventions the build follows for line tables, for the position
inside a code object and for the link from a thread to its frames.

A structure is read in one piece: `Layout.span` is the smallest range of offsets that covers
all its members, data stored inline apart. Offsets and widths add up modulo `2 ^ 64`, as
addresses do.
-/

namespace StackPeek

inductive DecodeRule where
  | unsigned
  | signed
  | pointer
  | charArray
  | bitFlags
  /-- A pointer to a string object, read as its text. -/
  | string
  /-- Data of variable length inside the structure; only its address is known. -/
  | inlineData
  deriving DecidableEq, Inhabited

namespace DecodeRule

def all : List DecodeRule :=
  [.unsigned, .signed, .pointer, .charArray, .bitFlags, .string, .inlineData]

def name : DecodeRule → String
  | .unsigned => "Unsigned"
  | .signed => "Signed"
  | .pointer => "Pointer"
  | .charArray => "CharArray"
  | .bitFlags => "BitFlags"
  | .string => "String"
  | .inlineData => "InlineData"

def ofName? (text : String) : Option DecodeRule := all.find? (·.name == text)

def isInteger : DecodeRule → Bool
  | .charArray | .inlineData => false
  | _ => true

theorem isInteger_iff {rule : DecodeRule} :
    rule.isInteger = true ↔ rule ≠ .charArray ∧ rule ≠ .inlineData := by
  cases rule <;> decide

end DecodeRule

/-- Place and shape of one member. The bit range counts for `bitFlags` only. -/
structure FieldSpec where
  offset : UInt64
  width : UInt32
  rule : DecodeRule
  bitOffset : UInt8
  bitWidth : UInt8
  deriving DecidableEq, Inhabited

namespace FieldSpec

/-- The offset that stands for "this build has no such member". -/
def missingOffset : UInt64 := 9999

def pointerAt (offset : UInt64) : FieldSpec := ⟨offset, 8, .pointer, 0, 0⟩
def unsignedAt (offset : UInt64) (width : UInt32) : FieldSpec := ⟨offset, width, .unsigned, 0, 0⟩
def signedAt (offset : UInt64) (width : UInt32) : FieldSpec := ⟨offset, width, .signed, 0, 0⟩
def stringAt (offset : UInt64) : FieldSpec := ⟨offset, 8, .string, 0, 0⟩
def inlineAt (offset : UInt64) : FieldSpec := ⟨offset, 0, .inlineData, 0, 0⟩

def bitsAt (offset : UInt64) (first count : UInt8) : FieldSpec :=
  ⟨offset, 1, .bitFlags, first, count⟩

def stop (spec : FieldSpec) : UInt64 := spec.offset + spec.width.toUInt64

end FieldSpec

inductive LayoutId where
  | v33
  | v36
  | v39
  | v310
  | v311
  deriving DecidableEq, Inhabited

namespace LayoutId

def all : List LayoutId := [.v33, .v36, .v39, .v310, .v311]

def name : LayoutId → String
  | .v33 => "cpython-33"
  | .v36 => "cpython-36"
  | .v39 => "cpython-39"
  | .v310 => "cpython-310"
  | .v311 => "cpython-311"

def nameOfCode (code : Nat) : String := (all[code]?).elim "cpython-unknown" name

end LayoutId

inductive LineTableFormat where
  /-- Pairs of a position step and an unsigned line step. -/
  | lnotab
  /-- Pairs of a position step and a signed line step. -/
  | lnotabSigned
  /-- Ranges with a signed line step, some of them without a line. -/
  | linetable310
  /-- Entries of variable length with varint line steps. -/
  | locationTable311
  deriving DecidableEq, Inhabited

namespace LineTableFormat

def all : List LineTableFormat := [.lnotab, .lnotabSigned, .linetable310, .locationTable311]

def name : LineTableFormat → String
  | .lnotab => "Lnotab"
  | .lnotabSigned => "LnotabSigned"
  | .linetable310 => "Linetable310"
  | .locationTable311 => "LocationTable311"

def ofName? (text : String) : Option LineTableFormat := all.find? (·.name == text)

end LineTableFormat

inductive InstructionEncoding where
  | lastiBytes
  /-- A count of two-byte code units. -/
  | lastiCodeUnits
  /-- An address inside the bytecode of the code object. -/
  | prevInstrPointer
  deriving DecidableEq, Inhabited

namespace InstructionEncoding

def all : List InstructionEncoding := [.lastiBytes, .lastiCodeUnits, .prevInstrPointer]

def name : InstructionEncoding → String
  | .lastiBytes => "LastiBytes"
  | .lastiCodeUnits => "LastiCodeUnits"
  | .prevInstrPointer => "PrevInstrPointer"

def ofName? (text : String) : Option InstructionEncoding := all.find? (·.name == text)

end InstructionEncoding

inductive FrameLink where
  | direct
  /-- Through a record that the thread state points to. -/
  | viaCFrame
  deriving DecidableEq, Inhabited

namespace FrameLink

def all : List FrameLink := [.direct, .viaCFrame]

def name : FrameLink → String
  | .direct => "Direct"
  | .viaCFrame => "ViaCFrame"

def ofName? (text : String) : Option FrameLink := all.find? (·.name == text)

end FrameLink

structure Layout where
  id : LayoutId
  major : Nat
  minor : Nat
  lineTable : LineTableFormat
  instruction : InstructionEncoding
  frameLink : FrameLink
  spec? : Field → Option FieldSpec

structure Span where
  start : UInt64
  stop : UInt64
  deriving DecidableEq, Inhabited

namespace Span

def empty : Span := ⟨0, 0⟩

def size (s : Span) : UInt64 := s.stop - s.start

end Span

namespace Layout

/-- The layout with one member described anew; `missingOffset` takes it away. -/
def set (l : Layout) (field : Field) (spec : FieldSpec) : Layout :=
  { l with spec? := fun f =>
      if f = field then (if spec.offset = FieldSpec.missingOffset then none else some spec)
      else l.spec? f }

def erase (l : Layout) (field : Field) : Layout :=
  { l with spec? := fun f => if f = field then none else l.spec? f }

/-- The places of the members of a structure that are read with it. -/
def placed (l : Layout) (kind : StructKind) : List FieldSpec :=
  Field.all.filterMap fun f =>
    if f.kind = kind then (l.spec? f).filter (·.rule ≠ .inlineData) else none

/-- The smallest range of offsets that covers the placed members of a structure. -/
def span (l : Layout) (kind : StructKind) : Span :=
  let specs := l.placed kind
  let stop := specs.foldl (fun e s => max e s.stop) 0
  if stop = 0 then .empty
  else ⟨specs.foldl (fun b s => min b s.offset) Address.top, stop⟩

@[simp] theorem spec?_set_ne (l : Layout) {f field : Field} (spec : FieldSpec) (h : f ≠ field) :
    (l.set field spec).spec? f = l.spec? f := by simp [set, h]

@[simp] theorem spec?_erase_self (l : Layout) (field : Field) :
    (l.erase field).spec? field = none := by simp [erase]

theorem mem_placed {l : Layout} {kind : StructKind} {spec : FieldSpec} :
    spec ∈ l.placed kind ↔
      ∃ f, f.kind = kind ∧ l.spec? f = some spec ∧ spec.rule ≠ .inlineData := by
  unfold placed
  rw [List.mem_filterMap]
  constructor
  · rintro ⟨f, _, h⟩
    split at h
    · rename_i hk
      rw [Option.filter_eq_some_iff] at h
      exact ⟨f, hk, h.1, by simpa using h.2⟩
    · simp at h
  · rintro ⟨f, hk, hf, hr⟩
    exact ⟨f, f.mem_all, by simp [hk, hf, hr]⟩

end Layout
end StackPeek
