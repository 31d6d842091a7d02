import StackPeek.Text.Object

/-!
# Reading single members

`Walker.readField` reads one member by itself and decodes it by its rule. `readUnsigned` and
`readSigned` want a number that fits their type.
-/

namespace StackPeek

inductive FieldValue where
  | unsigned (n : UInt64)
  | signed (n : Int64)
  | bytes (content : List UInt8)
  | text (content : Text)
  deriving DecidableEq, Inhabited

namespace FieldValue

def toUnsigned : FieldValue → Except ReadError UInt64
  | .unsigned n => .ok n
  | .signed n => if n < 0 then .error .outOfRange else .ok n.toUInt64
  | _ => .error .outOfRange

def toSigned : FieldValue → Except ReadError Int64
  | .signed n => .ok n
  | .unsigned n => if n.toInt64 < 0 then .error .outOfRange else .ok n.toInt64
  | _ => .error .outOfRange

end FieldValue

namespace Walker

/-- What the bytes of a member mean; a pointer to a string is followed. -/
def valueOf (w : Walker) (spec : FieldSpec) (bytes : List UInt8) : Attempt FieldValue :=
  if spec.rule = .charArray then return .bytes bytes
  else do
    let raw ← spec.decode bytes
    match spec.rule with
    | .signed => return .signed (FieldSpec.signExtend spec.width.toNat raw)
    | .string => return .text (← w.decodeText raw)
    | _ => return .unsigned raw

def readField (w : Walker) (base : Address) (field : Field) : Attempt FieldValue :=
  match w.layout.spec? field with
  | none => throw .unsupportedField
  | some spec => do
    let address ← base.plus? spec.offset
    if spec.rule = .inlineData then return .unsigned address
    else do
      let bytes ← Memory.fetchAll address spec.width.toUInt64
      w.valueOf spec bytes

def readUnsigned (w : Walker) (base : Address) (field : Field) : Attempt UInt64 := do
  let value ← w.readField base field
  value.toUnsigned

def readSigned (w : Walker) (base : Address) (field : Field) : Attempt Int64 := do
  let value ← w.readField base field
  value.toSigned

end Walker
end StackPeek
