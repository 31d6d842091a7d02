import StackPeek.Member.Decode
import StackPeek.Walker

/-!
# Snapshots of structures

`Walker.readStruct` copies all members of a structure with one read, so that they belong
together. Members are taken from the copy; data stored inline is only located.
-/

namespace StackPeek

structure Snapshot where
  layout : Layout
  kind : StructKind
  address : Address
  span : Span
  bytes : List UInt8

namespace Snapshot

/-- The integer in a member, without regard to its sign. The end of a member is a word, and where
it wraps the test lets members through that do not lie in the copy. Zeros stand for their bytes
outside the copy, where a decoder that does not look at the bounds again reads what happens to be
there. -/
def raw (s : Snapshot) (field : Field) : Except ReadError UInt64 :=
  match s.layout.spec? field with
  | none => .error .unsupportedField
  | some spec =>
    if field.kind ≠ s.kind then .error .outOfRange
    else if spec.rule = .inlineData then s.address.plus? spec.offset
    else if spec.rule = .charArray ∨ spec.offset < s.span.start ∨
        UInt64.ofNat s.bytes.length < spec.offset - s.span.start + spec.width.toUInt64 then
      .error .outOfRange
    else spec.decode (s.bytes.drop (spec.offset - s.span.start).toNat)

def unsigned (s : Snapshot) (field : Field) : Except ReadError UInt64 := do
  let raw ← s.raw field
  match s.layout.spec? field with
  | none => .error .unsupportedField
  | some spec => spec.toUnsigned raw

def signed (s : Snapshot) (field : Field) : Except ReadError Int64 := do
  let raw ← s.raw field
  match s.layout.spec? field with
  | none => .error .unsupportedField
  | some spec => spec.toSigned raw

def pointer (s : Snapshot) (field : Field) : Except ReadError Address := s.unsigned field

end Snapshot

def Walker.readStruct (w : Walker) (base : Address) (kind : StructKind) : Attempt Snapshot :=
  let span := w.layout.span kind
  if span.size = 0 then throw .unsupportedField
  else do
    let address ← base.plus? span.start
    let bytes ← Memory.fetchAll address span.size
    return ⟨w.layout, kind, base, span, bytes⟩

end StackPeek
