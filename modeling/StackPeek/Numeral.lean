/-!
# Writing numbers

Addresses are written in lower-case hexadecimal without padding, everything else in decimal.
-/

namespace StackPeek.Numeral

/-- Lower-case hexadecimal digits, most significant first; zero has one digit. -/
def hexDigits (n : Nat) : List Char := Nat.toDigits 16 n

def hex (n : Nat) : String := String.ofList (hexDigits n)

def paddedHex (width n : Nat) : String :=
  let digits := hexDigits n
  String.ofList (List.replicate (width - digits.length) '0' ++ digits)

def address (a : UInt64) : String := "0x" ++ hex a.toNat

end StackPeek.Numeral
