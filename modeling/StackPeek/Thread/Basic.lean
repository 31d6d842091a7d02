import StackPeek.Member.Read

/-!
# Thread states

`Walker.readThread` copies a thread state with one read. Where the build keeps the innermost
frame behind another record, a second read follows the link; if that fails, the thread is
still reported, without a frame and marked.
-/

namespace StackPeek

structure ThreadHandle where
  address : Address
  next : Address
  /-- The innermost frame, or null when the thread runs no code of the interpreter. -/
  frame : Address
  threadId : UInt64
  /-- The link to the frame could not be read, so a null frame says nothing. -/
  frameUnavailable : Bool
  deriving DecidableEq, Inhabited

namespace Walker

def cframeFrame (w : Walker) (thread cframe : Address) : Probe (Address × Bool) := do
  match ← (w.demandRead .cframeCurrent (w.readUnsigned cframe .cframeCurrent)).run with
  | .ok frame => return (frame, false)
  | .error e =>
    Probe.report .debug
      (s!"Failed to read current frame of thread {Numeral.address thread} " ++
        s!"through cframe {Numeral.address cframe}: {e.name}")
    return (0, true)

def threadFrame (w : Walker) (thread : Address) (s : Snapshot) : Attempt (Address × Bool) :=
  match w.layout.frameLink with
  | .direct => do
    let frame := s.pointer .threadFrame
    w.demand .threadFrame frame
    return (← frame, false)
  | .viaCFrame => do
    let cframe := s.pointer .threadCFrame
    w.demand .threadCFrame cframe
    let cframe ← cframe
    if cframe = 0 then return (0, false)
    else do
      w.cframeFrame thread cframe

def threadHandle (w : Walker) (thread : Address) (s : Snapshot) : Attempt ThreadHandle := do
  let next := s.pointer .threadNext
  let threadId := s.unsigned .threadId
  w.demand .threadNext next
  w.demand .threadId threadId
  let next ← next
  let threadId ← threadId
  let (frame, unavailable) ← w.threadFrame thread s
  return ⟨thread, next, frame, threadId, unavailable⟩

def readThread (w : Walker) (thread : Address) : Attempt ThreadHandle := do
  let s ← w.demandRead .threadNext (w.readStruct thread .threadState)
  w.threadHandle thread s

end Walker
end StackPeek
