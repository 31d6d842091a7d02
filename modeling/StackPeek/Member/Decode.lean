import StackPeek.Layout.Basic

/-!
# Integers in members

Turns the bytes of a member into a number. A member of the rule `signed` is in two's
complement of its own width; every other integer is unsigned.
-/

namespace StackPeek.FieldSpec

/-- The integer in the first `width` bytes, or the run of its bits that the rule `bitFlags`
names. -/
def decode (spec : FieldSpec) (bytes : List UInt8) : Except ReadError UInt64 :=
  if spec.width = 0 ∨ 8 < spec.width then .error .outOfRange
  else
    let value := Bytes.littleEndian (bytes.take spec.width.toNat)
    if spec.rule = .bitFlags then
      if spec.bitWidth = 0 ∨ 64 < spec.bitOffset.toNat + spec.bitWidth.toNat then
        .error .outOfRange
      else .ok (UInt64.ofNat ((value >>> spec.bitOffset.toNat) % (1 <<< spec.bitWidth.toNat)))
    else .ok (UInt64.ofNat value)

def signExtend (width : Nat) (value : UInt64) : Int64 :=
  if 8 ≤ width then value.toInt64 else Int64.ofInt (Int.bmod value.toNat (Bytes.capacity width))

def toUnsigned (spec : FieldSpec) (raw : UInt64) : Except ReadError UInt64 :=
  if spec.rule = .signed ∧ signExtend spec.width.toNat raw < 0 then .error .outOfRange
  else .ok raw

def toSigned (spec : FieldSpec) (raw : UInt64) : Except ReadError Int64 :=
  if spec.rule = .signed then .ok (signExtend spec.width.toNat raw)
  else if raw.toInt64 < 0 then .error .outOfRange
  else .ok raw.toInt64

end StackPeek.FieldSpec
