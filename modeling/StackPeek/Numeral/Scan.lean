/-!
# Reading numbers

Numbers in configuration text and on command lines are read by the rules of the system's C
library in its default locale: white space in front is skipped, one sign may follow and, in
base sixteen, a mark `0x`, which counts as a zero when no digit comes behind it. A number that
does not fit 64 bits becomes the largest one, whatever its sign; another negative one wraps.
-/

namespace StackPeek.Scan

/-- White space: the space and the control characters from tab to carriage return. -/
def isBlank (b : UInt8) : Bool := b == 32 || (9 ≤ b && b ≤ 13)

def skipBlanks (input : List UInt8) : List UInt8 := input.dropWhile isBlank

def digit? (base : Nat) (b : UInt8) : Option Nat :=
  let n := b.toNat
  let value :=
    if 48 ≤ n ∧ n ≤ 57 then some (n - 48)
    else if 97 ≤ n ∧ n ≤ 102 then some (n - 87)
    else if 65 ≤ n ∧ n ≤ 70 then some (n - 55)
    else none
  value.filter (· < base)

/-- The exact value of the digits in front, on top of `value`, and what follows them. -/
def digits (base value : Nat) : List UInt8 → Nat × List UInt8
  | [] => (value, [])
  | b :: rest =>
    match digit? base b with
    | some d => digits base (value * base + d) rest
    | none => (value, b :: rest)

def sign : List UInt8 → Bool × List UInt8
  | 45 :: rest => (true, rest)
  | 43 :: rest => (false, rest)
  | input => (false, input)

def baseMark? (base : Nat) : List UInt8 → Option (List UInt8)
  | 48 :: x :: rest => if base = 16 ∧ (x = 120 ∨ x = 88) then some rest else none
  | _ => none

structure Signed where
  negative : Bool
  magnitude : Nat
  deriving DecidableEq, Inhabited

def number? (base : Nat) (input : List UInt8) : Option (Signed × List UInt8) :=
  let (negative, input) := sign (skipBlanks input)
  match baseMark? base input with
  | some behind =>
    let (n, rest) := digits base 0 behind
    some (⟨negative, n⟩, rest)
  | none =>
    match input with
    | b :: _ =>
      if (digit? base b).isSome then
        let (n, rest) := digits base 0 input
        some (⟨negative, n⟩, rest)
      else none
    | [] => none

namespace Signed

def toWord (s : Signed) : UInt64 :=
  if UInt64.size ≤ s.magnitude then 0xFFFFFFFFFFFFFFFF
  else if s.negative then 0 - UInt64.ofNat s.magnitude
  else UInt64.ofNat s.magnitude

/-- The number as a signed 64-bit word; what does not fit becomes the nearest that does. -/
def toSignedWord (s : Signed) : Int64 :=
  if s.negative then Int64.ofInt (max (-(s.magnitude : Int)) Int64.minValue.toInt)
  else Int64.ofInt (min (s.magnitude : Int) Int64.maxValue.toInt)

end Signed

def word? (base : Nat) (input : List UInt8) : Option (UInt64 × List UInt8) :=
  (number? base input).map fun (s, rest) => (s.toWord, rest)

def literal? (b : UInt8) : List UInt8 → Option (List UInt8)
  | c :: rest => if c = b then some rest else none
  | [] => none

/-- At most `limit` bytes without white space, of which there must be one, and what follows. -/
def run? (limit : Nat) (input : List UInt8) : Option (List UInt8 × List UInt8) :=
  let input := skipBlanks input
  let found := (input.take limit).takeWhile fun b => !isBlank b
  if found.isEmpty then none else some (found, input.drop found.length)

end StackPeek.Scan
