import StackPeek.Member.Snapshot

/-!
# String and bytes objects

A string object of the target holds its characters in one of several ways: behind its header
(compact), in a buffer of its own, as a buffer of four-byte units (not ready yet), or as a
cached UTF-8 form. `Walker.decodeText` finds the characters, cuts them at the limit of the
walk and writes them as UTF-8. Everything it relies on is read from the target and checked.
-/

namespace StackPeek

inductive UnitWidth where
  | one
  | two
  | four
  deriving DecidableEq, Inhabited

namespace UnitWidth

def ofCode? (code : UInt64) : Option UnitWidth :=
  if code = 1 then some .one else if code = 2 then some .two else if code = 4 then some .four
  else none

def bytes : UnitWidth → UInt64
  | .one => 1
  | .two => 2
  | .four => 4

def pairsOnto (read : List Nat) : List UInt8 → List Nat
  | a :: b :: rest => pairsOnto (Bytes.littleEndian [a, b] :: read) rest
  | _ => read

def quadsOnto (read : List Nat) : List UInt8 → List Nat
  | a :: b :: c :: d :: rest => quadsOnto (Bytes.littleEndian [a, b, c, d] :: read) rest
  | _ => read

/-- The units that the bytes of a buffer hold; bytes that are no whole unit are ignored. -/
def split : UnitWidth → List UInt8 → List Nat
  | .one, bytes => bytes.map UInt8.toNat
  | .two, bytes => (pairsOnto [] bytes).reverse
  | .four, bytes => (quadsOnto [] bytes).reverse

theorem pairsOnto_eq (read : List Nat) : (bytes : List UInt8) →
    pairsOnto read bytes = pairsOnto [] bytes ++ read
  | [] | [_] => by simp [pairsOnto]
  | a :: b :: rest => by
    rw [pairsOnto, pairsOnto, pairsOnto_eq _ rest, pairsOnto_eq [_] rest]
    simp

theorem quadsOnto_eq (read : List Nat) : (bytes : List UInt8) →
    quadsOnto read bytes = quadsOnto [] bytes ++ read
  | [] | [_] | [_, _] | [_, _, _] => by simp [quadsOnto]
  | a :: b :: c :: d :: rest => by
    rw [quadsOnto, quadsOnto, quadsOnto_eq _ rest, quadsOnto_eq [_] rest]
    simp

end UnitWidth

namespace Walker

/-- `count` characters of a buffer, each of the width that `kind` names. The size of the buffer is
a word and wraps as one. It wraps only if the limit is `2 ^ 62` or more, and then `count` is
forgotten here and the text is that of the bytes read: a decoder that makes room for `count`
characters first cannot get it and ends in a failure to allocate. -/
def decodeUnits (data : Address) (count kind : UInt64) : Attempt Text :=
  match UnitWidth.ofCode? kind with
  | none => throw .outOfRange
  | some width => do
    let bytes ← Memory.fetchAll data (count * width.bytes)
    return .ofUnits (width.split bytes)

/-- A cached UTF-8 form of `length` bytes. No character takes more than four bytes, so more
than four times the limit is never read. -/
def decodeCachedUtf8 (w : Walker) (data : Address) (length : Int64) : Attempt Text :=
  if length < 0 then throw .outOfRange
  else do
    let limit := w.options.maxStringLength
    let bytes ← Memory.fetchAll data (min length.toUInt64 (limit * 4))
    return .ofUnits (Utf8.repair limit.toNat bytes)

def cachedUtf8? (extra : Snapshot) : Option (Address × Int64) :=
  match extra.pointer .stringUtf8, extra.signed .stringUtf8Length with
  | .ok data, .ok length => if data = 0 then none else some (data, length)
  | _, _ => none

def wideCount (w : Walker) (extra : Snapshot) (count : UInt64) : UInt64 :=
  match extra.signed .stringWideLength with
  | .ok length => if length < 0 then count else min length.toUInt64 w.options.maxStringLength
  | .error _ => count

/-- Text of a string that is not ready: the cached UTF-8 form, else the buffer of four-byte
units, else the bytes behind the header. -/
def decodeNotReady (w : Walker) (header : Snapshot) (count : UInt64) : Attempt Text := do
  let extra ← w.readStruct header.address .compactString
  match cachedUtf8? extra with
  | some (data, length) => w.decodeCachedUtf8 data length
  | none =>
    let wide := (header.pointer .stringWide).toOption.getD 0
    if wide ≠ 0 then decodeUnits wide (w.wideCount extra count) 4
    else do
      let data ← w.fieldAddress header.address .stringAsciiData
      decodeUnits data count 1

def decodeSeparate (w : Walker) (address : Address) (count kind : UInt64) : Attempt Text := do
  let extra ← w.readStruct address .compactString
  let data ← extra.pointer .stringData
  if data ≠ 0 then decodeUnits data count kind
  else match cachedUtf8? extra with
    | some (data, length) => w.decodeCachedUtf8 data length
    | none => throw .unmapped

/-- The length to decode: at most the limit, and a longer string is reported. -/
def cutLength (w : Walker) (address : Address) (length : UInt64) : Attempt UInt64 := do
  let limit := w.options.maxStringLength
  if limit < length then
    Probe.report .debug
      s!"Truncating {length} character string at {Numeral.address address} to {limit}"
    return limit
  else return length

def decodeText (w : Walker) (address : Address) : Attempt Text :=
  if address = 0 then throw .unmapped
  else do
    let header ← w.readStruct address .string
    let kind ← header.unsigned .stringKind
    let compact ← header.unsigned .stringCompact
    let ascii ← header.unsigned .stringAscii
    let ready ← header.unsigned .stringReady
    let length ← header.signed .stringLength
    if length < 0 then throw .outOfRange
    else do
      let count ← w.cutLength address length.toUInt64
      if ready = 0 then w.decodeNotReady header count
      else if compact = 0 then w.decodeSeparate address count kind
      else if ascii ≠ 0 then do
        let data ← w.fieldAddress address .stringAsciiData
        decodeUnits data count 1
      else do
        let data ← w.fieldAddress address .stringCompactData
        decodeUnits data count kind

/-- The contents of the bytes object at an address, unless it is larger than `limit`. -/
def decodeBytes (w : Walker) (address : Address) (limit : UInt64) : Attempt (List UInt8) :=
  if address = 0 then throw .unmapped
  else do
    let header ← w.readStruct address .bytes
    let size ← header.signed .bytesSize
    if size < 0 then throw .outOfRange
    else if limit < size.toUInt64 then do
      Probe.report .info
        s!"Bytes object at {Numeral.address address} is {size} bytes, limit is {limit}"
      throw .outOfRange
    else do
      let data ← w.fieldAddress address .bytesData
      Memory.fetchAll data size.toUInt64

end Walker
end StackPeek
