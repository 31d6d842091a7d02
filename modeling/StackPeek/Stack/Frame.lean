import StackPeek.Member.Snapshot

/-!
# Frames

`Walker.readFrame` copies a frame with one read and turns whatever the layout records about
the current instruction into a byte position in the bytecode. A position below zero means
that no instruction has run yet.
-/

namespace StackPeek

structure FrameHandle where
  address : Address
  back : Address
  code : Address
  instructionOffset : Int64
  deriving DecidableEq, Inhabited

namespace Walker

/-- A position counted in code units, as bytes; only positive counts are scaled. -/
def unitsToBytes (index : Int64) : Int64 := if 0 < index then index * 2 else index

/-- An address inside the bytecode, as a position in it. Null stands for no position. -/
def pointerToBytes (code : Address) (offset : UInt64) (instruction : Address) : Int64 :=
  if instruction = 0 ∨ code = 0 then -1 else (instruction - (code + offset)).toInt64

def instructionOffset (w : Walker) (s : Snapshot) (code : Address) : Attempt Int64 :=
  match w.layout.instruction with
  | .lastiBytes => do
    let index := s.signed .frameLasti
    w.demand .frameLasti index
    index
  | .lastiCodeUnits => do
    let index := s.signed .frameLasti
    w.demand .frameLasti index
    return unitsToBytes (← index)
  | .prevInstrPointer => do
    let instruction := s.pointer .framePrevInstr
    w.demand .framePrevInstr instruction
    let instruction ← instruction
    match w.layout.spec? .codeBytecode with
    | none => Probe.fault (.missingField w.layout.id .codeBytecode)
    | some bytecode => return pointerToBytes code bytecode.offset instruction

def frameHandle (w : Walker) (frame : Address) (s : Snapshot) : Attempt FrameHandle := do
  let back := s.pointer .frameBack
  let code := s.pointer .frameCode
  w.demand .frameBack back
  w.demand .frameCode code
  let back ← back
  let code ← code
  let offset ← w.instructionOffset s code
  return ⟨frame, back, code, offset⟩

def readFrame (w : Walker) (frame : Address) : Attempt FrameHandle := do
  let s ← w.demandRead .frameBack (w.readStruct frame .frame)
  w.frameHandle frame s

end Walker
end StackPeek
