/-!
# UTF-8

Text leaves the library as UTF-8 octets. `encode` writes one code point and puts U+FFFD in
the place of surrogates and of values above U+10FFFF. `repair` reads octets that claim to be
UTF-8 but come from memory that may be damaged: an octet that starts no complete sequence
becomes U+FFFD, and reading goes on behind it.
-/

namespace StackPeek

namespace Utf8

def replacement : Nat := 0xFFFD

def isScalar (c : Nat) : Bool := c < 0xD800 || (0xE000 ≤ c && c ≤ 0x10FFFF)

def scalar (c : Nat) : Nat := if isScalar c then c else replacement

/-- The shortest sequence for a value below `2 ^ 21`. -/
def sequence (c : Nat) : List UInt8 :=
  if c < 0x80 then [UInt8.ofNat c]
  else if c < 0x800 then [UInt8.ofNat (0xC0 + c / 64), UInt8.ofNat (0x80 + c % 64)]
  else if c < 0x10000 then
    [UInt8.ofNat (0xE0 + c / 4096), UInt8.ofNat (0x80 + c / 64 % 64), UInt8.ofNat (0x80 + c % 64)]
  else
    [UInt8.ofNat (0xF0 + c / 262144), UInt8.ofNat (0x80 + c / 4096 % 64),
     UInt8.ofNat (0x80 + c / 64 % 64), UInt8.ofNat (0x80 + c % 64)]

def encode (c : Nat) : List UInt8 := sequence (scalar c)

def encodeAll (cs : List Nat) : List UInt8 := cs.flatMap encode

theorem isScalar_scalar (c : Nat) : isScalar (scalar c) = true := by
  unfold scalar
  split
  · assumption
  · rfl

theorem encodeAll_append (cs ds : List Nat) :
    encodeAll (cs ++ ds) = encodeAll cs ++ encodeAll ds := List.flatMap_append

/-- How many octets continue the sequence that an octet starts, and the bits it carries. -/
def lead? (octet : UInt8) : Option (Nat × Nat) :=
  let n := octet.toNat
  if n < 0x80 then some (0, n)
  else if n < 0xC0 then none
  else if n < 0xE0 then some (1, n % 0x20)
  else if n < 0xF0 then some (2, n % 0x10)
  else if n < 0xF8 then some (3, n % 0x08)
  else none

def extend? (c : Nat) : List UInt8 → Option Nat
  | [] => some c
  | b :: rest => if b.toNat / 64 = 2 then extend? (c * 64 + b.toNat % 64) rest else none

/-- Reads at most `limit` more characters and puts them before the ones already read. A
sequence that the octets cut off ends the reading. -/
def repairOnto (read : List Nat) : (limit : Nat) → List UInt8 → List Nat
  | 0, _ => read
  | _, [] => read
  | limit + 1, b :: rest =>
    match lead? b with
    | none => repairOnto (replacement :: read) limit rest
    | some (count, bits) =>
      let tail := rest.take count
      if tail.length < count then replacement :: read
      else match extend? bits tail with
        | none => repairOnto (replacement :: read) limit rest
        | some c => repairOnto (c :: read) limit (rest.drop count)

def repair (limit : Nat) (octets : List UInt8) : List Nat := (repairOnto [] limit octets).reverse

theorem length_repairOnto_le (read : List Nat) (limit : Nat) (octets : List UInt8) :
    (repairOnto read limit octets).length ≤ read.length + limit := by
  induction limit generalizing read octets with
  | zero => simp [repairOnto]
  | succ limit ih =>
    cases octets with
    | nil => simp [repairOnto]
    | cons b rest =>
      simp only [repairOnto]
      have step (c : Nat) (o : List UInt8) :
          (repairOnto (c :: read) limit o).length ≤ read.length + (limit + 1) := by
        have := ih (c :: read) o
        simp only [List.length_cons] at this
        omega
      split
      · exact step _ _
      · split
        · simp
        · split
          · exact step _ _
          · exact step _ _

end Utf8

structure Text where
  octets : List UInt8
  deriving DecidableEq, Inhabited

namespace Text

def ofUnits (units : List Nat) : Text := ⟨Utf8.encodeAll units⟩

def ofString (s : String) : Text := ofUnits (s.toList.map Char.toNat)

/-- The characters of the text; octets that are not UTF-8 show as U+FFFD. -/
def toString (t : Text) : String :=
  String.ofList ((Utf8.repair t.octets.length t.octets).map fun c => Char.ofNat (Utf8.scalar c))

end Text
end StackPeek
