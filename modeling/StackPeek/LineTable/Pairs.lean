/-!
# Line tables made of byte pairs

The older builds keep a line table as pairs of bytes: how far the pair moves the position in
the bytecode and how far it moves the line. A last byte without a partner is ignored. Lines
are added up exactly; who stores one decides about its width.
-/

namespace StackPeek.LineTable

def signedStep (b : UInt8) : Int := b.toInt8.toInt

def unsignedStep (b : UInt8) : Int := b.toNat

/-- The line in force at `offset`, where every pair first moves the position and then, unless
it has passed `offset`, the line. -/
def stepLine (step : UInt8 → Int) (offset : Nat) : (position : Nat) → (line : Int) →
    List UInt8 → Int
  | position, line, move :: delta :: rest =>
    let position := position + move.toNat
    if offset < position then line
    else stepLine step offset position (line + step delta) rest
  | _, line, _ => line

/-- The line of the range that holds `offset`, or of the last range before it. A pair without
a line step makes the current range longer; the step `-128` marks bytecode without a line. The
line in `best` is the last one that had bytecode of its own. -/
def rangeLine (offset : Nat) : (stop : Nat) → (line best : Int) → List UInt8 → Int
  | stop, line, best, move :: delta :: rest =>
    let next := stop + move.toNat
    if signedStep delta = 0 then rangeLine offset next line best rest
    else if offset < stop then best
    else if signedStep delta = -128 then rangeLine offset next line best rest
    else if move = 0 then rangeLine offset next (line + signedStep delta) best rest
    else if offset < next then line + signedStep delta
    else rangeLine offset next (line + signedStep delta) (line + signedStep delta) rest
  | _, _, best, _ => best

end StackPeek.LineTable
