import StackPeek.Memory.Region

/-!
# Scripted targets

A `ScriptedTarget` plays a target process from a script: regions of memory, and actions that happen
just before the reads with given numbers. It keeps two cancellation flags, one of the session
and one of the current sampler, and writes down every read and every diagnostic.
-/

namespace StackPeek

inductive Action where
  | map (region : Region)
  | write (address : Address) (bytes : List UInt8)
  | unmap (address : Address)
  | cancel

/-- A read and what came of it: a count of bytes, or a negative error number. -/
structure Access where
  address : Address
  length : UInt64
  result : Int
  deriving DecidableEq

inductive Watch where
  | nothing
  | session
  | sampler
  deriving DecidableEq

structure ScriptedTarget where
  memory : Regions
  /-- Actions with the numbers of the reads they precede. -/
  script : List (Nat × Action)
  reads : Nat
  sessionCancelled : Bool
  samplerCancelled : Bool
  accesses : List Access
  entries : List Log.Entry

namespace ScriptedTarget

def empty (script : List (Nat × Action)) : ScriptedTarget where
  memory := []
  script := script
  reads := 0
  sessionCancelled := false
  samplerCancelled := false
  accesses := []
  entries := []

def perform (s : ScriptedTarget) : Action → ScriptedTarget
  | .map region => { s with memory := s.memory.map region }
  | .write a bytes => { s with memory := s.memory.write a bytes }
  | .unmap a => { s with memory := s.memory.unmap a }
  | .cancel => { s with sessionCancelled := true, samplerCancelled := true }

def due (s : ScriptedTarget) (number : Nat) : List Action :=
  s.script.filterMap fun (n, action) => if n = number then some action else none

def resultOf : Reply → Int
  | .copied bytes => bytes.length
  | .failed errno => -errno

def read (a : Address) (length : UInt64) (s : ScriptedTarget) : Reply × ScriptedTarget :=
  let number := s.reads + 1
  let s := (s.due number).foldl perform { s with reads := number }
  let reply := s.memory.read a length.toNat
  (reply, { s with accesses := ⟨a, length, resultOf reply⟩ :: s.accesses })

def cancelled (watch : Watch) (s : ScriptedTarget) : Bool :=
  match watch with
  | .nothing => false
  | .session => s.sessionCancelled
  | .sampler => s.samplerCancelled

def target (watch : Watch) : Target ScriptedTarget where
  read := read
  cancelled := cancelled watch
  hear e s := { s with entries := e :: s.entries }

def clearRecords (s : ScriptedTarget) : ScriptedTarget := { s with accesses := [], entries := [] }

end ScriptedTarget
end StackPeek
