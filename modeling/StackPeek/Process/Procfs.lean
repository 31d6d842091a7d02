import StackPeek.Probe
import StackPeek.Process.Mapping

/-!
# What the process file system shows

A `ProcEntry` is what the system shows of one process: whether its status file exists, and the
text of its mapping list, if that can be opened. Lines are read one by one; a line that is no
mapping ends the reading, and so does the visitor.
-/

namespace StackPeek

structure ProcEntry where
  pid : Int
  alive : Bool
  maps : Option (List UInt8)

namespace ProcEntry

/-- Cuts text into lines; text behind the last line end is a line if there is any. -/
def linesOnto (done : List (List UInt8)) (line : List UInt8) : List UInt8 → List (List UInt8)
  | [] => (if line.isEmpty then done else line.reverse :: done).reverse
  | b :: rest =>
    if b = 10 then linesOnto (line.reverse :: done) [] rest else linesOnto done (b :: line) rest

def lines (text : List UInt8) : List (List UInt8) := linesOnto [] [] text

variable {σ : Type}

def visitLines (e : ProcEntry) (f : σ → Mapping → ForInStep σ) :
    List (List UInt8) → σ → Probe (σ × Bool)
  | [], state => return (state, true)
  | line :: rest, state =>
    match Mapping.parse? line with
    | none => do
      Probe.report .debug
        s!"Failed to parse memory mapping '{Text.toString ⟨line⟩}' of process {e.pid}"
      return (state, false)
    | some m =>
      match f state m with
      | .done state => return (state, true)
      | .yield state => visitLines e f rest state

def visit (e : ProcEntry) (f : σ → Mapping → ForInStep σ) (state : σ) : Probe (σ × Bool) :=
  match e.maps with
  | none => do
    Probe.report .debug s!"Failed to open memory maps of process {e.pid}"
    return (state, false)
  | some text => e.visitLines f (lines text) state

def findMapping (e : ProcEntry) (a : Address) : Probe (Option Mapping) := do
  let (found, _) ← e.visit
    (fun found m => if m.contains a then .done (some m) else .yield found) none
  return found

def isReadable (e : ProcEntry) (a : Address) : Probe Bool := do
  match ← e.findMapping a with
  | none =>
    Probe.report .debug s!"{Numeral.address a} is not mapped in process {e.pid}"
    return false
  | some m =>
    if m.readable then return true
    else
      Probe.report .debug
        (s!"{Numeral.address a} is in non-readable mapping " ++
          s!"{Numeral.address m.start}-{Numeral.address m.stop} of process {e.pid}")
      return false

end ProcEntry
end StackPeek
