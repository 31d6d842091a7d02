import StackPeek.LineTable.Lookup
import StackPeek.Text.Object

/-!
# Code objects and source locations

`Walker.readCode` copies what a code object says about itself with one read.
`Walker.locate` turns it and a position in its bytecode into a function, a file and a line;
it always answers, and marks the location when a part of it had to be substituted.
-/

namespace StackPeek

/-- What is known of a code object without following its pointers. -/
structure CodeHandle where
  address : Address
  name : Address
  filename : Address
  firstLine : Int32
  lineTable : Address
  deriving DecidableEq, Inhabited

structure Location where
  function : Text
  file : Text
  line : Int32
  complete : Bool
  deriving DecidableEq, Inhabited

namespace Walker

/-- The handle that a copy of a code object gives. Every member must be in the layout. -/
def codeHandle (w : Walker) (code : Address) (s : Snapshot) : Attempt CodeHandle := do
  let name := s.pointer .codeName
  let filename := s.pointer .codeFilename
  let firstLine := s.signed .codeFirstLine
  let lineTable := s.pointer .codeLineTable
  w.demand .codeName name
  w.demand .codeFilename filename
  w.demand .codeFirstLine firstLine
  w.demand .codeLineTable lineTable
  match name, filename, lineTable with
  | .ok name, .ok filename, .ok lineTable =>
    match firstLine with
    | .ok line => return ⟨code, name, filename, line.toInt32, lineTable⟩
    | .error e => throw e
  | _, _, _ => throw .outOfRange

def readCode (w : Walker) (code : Address) : Attempt CodeHandle := do
  let s ← w.demandRead .codeName (w.readStruct code .code)
  w.codeHandle code s

def resolveLine (w : Walker) (code : CodeHandle) (offset : Int64) : Probe (Int32 × Bool) :=
  if offset ≤ 0 then return (code.firstLine, true)
  else do
    match ← (w.decodeBytes code.lineTable LineTable.maxSize).run with
    | .error e =>
      Probe.report .debug
        (s!"Failed to read line table at {Numeral.address code.lineTable} " ++
          s!"of code object {Numeral.address code.address}: {e.name}")
      return (code.firstLine, false)
    | .ok data =>
      let line ← LineTable.lineAt ⟨w.layout.lineTable, code.firstLine, data⟩ offset
      return (line, true)

/-- A name, and whether it could be read; otherwise what stands for unreadable names. -/
def resolveName (w : Walker) (address : Address) : Probe (Text × Bool) := do
  match ← (w.decodeText address).run with
  | .ok text => return (text, true)
  | .error _ => return (w.options.unresolvedName, false)

def locate (w : Walker) (code : CodeHandle) (offset : Int64) : Probe Location := do
  let (function, named) ← w.resolveName code.name
  let (file, filed) ← w.resolveName code.filename
  let (line, lined) ← w.resolveLine code offset
  return ⟨function, file, line, named && filed && lined⟩

/-- Fails only if the code object cannot be read. -/
def resolve (w : Walker) (code : Address) (offset : Int64) : Attempt Location := do
  let handle ← w.readCode code
  w.locate handle offset

end Walker
end StackPeek
