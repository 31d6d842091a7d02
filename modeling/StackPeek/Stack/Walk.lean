import StackPeek.Stack.Code
import StackPeek.Stack.Frame
import StackPeek.Thread.Basic

/-!
# Walking a stack

`Walker.walk` follows a thread's frames from the innermost one outwards. It stops at the null
frame, when it is cancelled, at the depth limit, at a frame it has already seen and at a frame
it cannot read, in this order of precedence, and the status of the stack says why. The room
left under the depth limit is what the recursion runs on, so a hostile chain of frames cannot
keep it going.
-/

namespace StackPeek

inductive StackStatus where
  /-- The chain of frames was followed to its end, and nothing was substituted. -/
  | complete
  | incomplete
  | cycleDetected
  | depthExceeded
  deriving DecidableEq, Inhabited

namespace StackStatus

def all : List StackStatus := [.complete, .incomplete, .cycleDetected, .depthExceeded]

def name : StackStatus → String
  | .complete => "Complete"
  | .incomplete => "Partial"
  | .cycleDetected => "CycleDetected"
  | .depthExceeded => "DepthExceeded"

def nameOfCode (code : Nat) : String := (all[code]?).elim "Unknown" name

end StackStatus

structure ResolvedFrame where
  function : Text
  file : Text
  line : Int32
  depth : Nat
  /-- False for the placeholder of a frame whose code object could not be read. -/
  resolved : Bool
  deriving DecidableEq, Inhabited

structure CallStack where
  threadId : UInt64
  threadState : Address
  interpreterState : Address
  frames : List ResolvedFrame
  status : StackStatus
  deriving DecidableEq, Inhabited

/-- What a walk has seen so far; the latest frame comes first. -/
structure Trail where
  frames : List ResolvedFrame
  visited : List Address
  depth : Nat
  /-- Something was substituted or could not be read. -/
  incomplete : Bool

/-- A finished walk: what it has seen, the frame it did not go on with, and why. -/
structure Walked where
  trail : Trail
  next : Address
  status : StackStatus

namespace Trail

def start (incomplete : Bool) : Trail := ⟨[], [], 0, incomplete⟩

def extend (t : Trail) (address : Address) (frame : ResolvedFrame) (whole : Bool) : Trail :=
  ⟨frame :: t.frames, address :: t.visited, t.depth + 1, t.incomplete || !whole⟩

end Trail

namespace Walker

def placeholder (w : Walker) (depth : Nat) : ResolvedFrame :=
  ⟨w.options.unresolvedName, w.options.unresolvedName, 0, depth, false⟩

def resolveFrame (w : Walker) (frame : FrameHandle) (depth : Nat) :
    Probe (ResolvedFrame × Bool) := do
  match ← (w.resolve frame.code frame.instructionOffset).run with
  | .ok place => return (⟨place.function, place.file, place.line, depth, true⟩, place.complete)
  | .error _ => return (w.placeholder depth, false)

def walkFrom (w : Walker) (threadId : UInt64) (room : Nat) (address : Address) (t : Trail) :
    Probe Walked :=
  if address = 0 then return ⟨t, address, if t.incomplete then .incomplete else .complete⟩
  else do
    if ← Probe.cancelled then return ⟨t, address, .incomplete⟩
    else match room with
      | 0 =>
        Probe.report .info
          (s!"Stack of thread {threadId} is deeper than {w.options.maxStackDepth} frames, " ++
            "truncating")
        return ⟨t, address, .depthExceeded⟩
      | room + 1 =>
        if address ∈ t.visited then
          Probe.report .info
            s!"Stack of thread {threadId} loops back to frame {Numeral.address address}"
          return ⟨t, address, .cycleDetected⟩
        else match ← (w.readFrame address).run with
          | .error e =>
            Probe.report .debug
              s!"Failed to read frame {Numeral.address address} of thread {threadId}: {e.name}"
            return ⟨t, address, .incomplete⟩
          | .ok frame =>
            let (resolved, whole) ← w.resolveFrame frame t.depth
            w.walkFrom threadId room frame.back (t.extend address resolved whole)

def walk (w : Walker) (thread : ThreadHandle) : Probe CallStack := do
  let r ← w.walkFrom thread.threadId w.options.maxStackDepth.toNat thread.frame
    (.start thread.frameUnavailable)
  return ⟨thread.threadId, thread.address, 0, r.trail.frames.reverse, r.status⟩

end Walker
end StackPeek
