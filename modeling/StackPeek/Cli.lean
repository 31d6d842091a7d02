import StackPeek.Layout.Version
import StackPeek.Process.Procfs
import StackPeek.Sampling.Sampler

/-!
# The command line

`Cli.run` is the whole program over an abstract `Host`: it checks its arguments, refuses a
process that does not exist and an address that is not readable, and prints the requested
number of samples. Diagnostics go to standard output between the other lines, in the order in
which they arise.
-/

namespace StackPeek.Cli

structure Console where
  out : String
  err : String
  deriving DecidableEq, Inhabited

namespace Console

def print (c : Console) (text : String) : Console := { c with out := c.out ++ text }

def complain (c : Console) (text : String) : Console := { c with err := c.err ++ text }

def hear (e : Log.Entry) (c : Console) : Console := c.print s!"{e.level.name}: {e.text}\n"

end Console

/-- What the program needs of the machine it runs on. -/
structure Host (σ : Type) where
  walkThreads : UInt64
  entry : Int32 → ProcEntry
  read : Int32 → Address → UInt64 → σ → Reply × σ

structure Request where
  pid : Int32
  interpreter : Address
  version : String
  samples : Nat
  deriving DecidableEq

private def bytesOf (text : String) : List UInt8 := (Text.ofString text).octets

/-- The process number in an argument; text that is no number counts as zero. -/
def pidOf (text : String) : Int32 :=
  ((Scan.number? 10 (bytesOf text)).elim 0 fun (n, _) => n.toSignedWord).toInt32

def wordOf (base : Nat) (text : String) : UInt64 :=
  (Scan.word? base (bytesOf text)).elim 0 (·.1)

/-- The request behind the program's name; nothing if there are too few arguments. -/
def Request.ofArgs? : List String → Option Request
  | pid :: interpreter :: version :: rest => some {
      pid := pidOf pid
      interpreter := wordOf 16 interpreter
      version := version
      samples := rest.head?.elim 1 fun count => (wordOf 10 count).toNat }
  | _ => none

def usage (program : String) : String :=
  s!"Usage: {program} <PID> <INTERPRETER_STATE_ADDR> <PYTHON_VERSION> [SAMPLES]\n"

private def stackLines (s : CallStack) : String :=
  s!"Thread {s.threadId} ({s.status.name}):\n" ++
    String.join (s.frames.map fun f =>
      s!"    {f.function.toString} ({f.file.toString}:{f.line})\n")

def sampleLines (index : Nat) (s : Sample) : String :=
  let note := if s.threadsIncomplete then " (thread list incomplete)" else ""
  s!"SAMPLE {index} threads: {s.callStacks.length}{note}\n" ++
    String.join (s.callStacks.map stackLines) ++ "\n"

variable {σ : Type}

def Host.target (h : Host σ) (pid : Int32) : Target (σ × Console) where
  read a n s := let (r, state) := h.read pid a n s.1; (r, (state, s.2))
  cancelled _ := false
  hear e s := (s.1, s.2.hear e)

def printSamples (h : Host σ) (sampler : Sampler) (r : Request) :
    (count index : Nat) → σ × Console → Except Fault Unit × (σ × Console)
  | 0, _, s => (.ok (), s)
  | count + 1, index, s =>
    match (sampler.sample [] r.interpreter).run (h.target r.pid) s with
    | (.error f, s) => (.error f, s)
    | (.ok found, (state, console)) =>
      printSamples h sampler r count (index + 1) (state, console.print (sampleLines index found))

def profile (h : Host σ) (r : Request) (s : σ × Console) : Except Fault Unit × (σ × Console) :=
  let prepare : Probe Sampler := do
    let layout ← Layout.select r.version
    Sampler.create layout { Options.standard with walkThreads := h.walkThreads } true
  match prepare.run (h.target r.pid) s with
  | (.error f, s) => (.error f, s)
  | (.ok sampler, s) => printSamples h sampler r r.samples 0 s

def serve (h : Host σ) (r : Request) (s : σ × Console) : UInt32 × (σ × Console) :=
  let say (s : σ × Console) (f : Console → Console) : σ × Console := (s.1, f s.2)
  let s := say s (·.print s!"Profile PID: {r.pid}\n")
  let entry := h.entry r.pid
  if !entry.alive then (1, say s (·.complain s!"Process {r.pid} does not exist\n"))
  else match (entry.isReadable r.interpreter).run (h.target r.pid) s with
    | (.ok true, s) =>
      match profile h r s with
      | (.ok (), s) => (0, s)
      | (.error f, s) => (1, say s (·.complain s!"Cannot sample: {f.message}\n"))
    | (_, s) =>
      let address := Numeral.address r.interpreter
      (1, say s (·.complain s!"{address} is not a readable address in process {r.pid}\n"))

/-- The program, called by its name with arguments; returns the exit code. -/
def run (h : Host σ) (program : String) (args : List String) (s : σ) : UInt32 × (σ × Console) :=
  match Request.ofArgs? args with
  | none => (1, (s, (default : Console).print (usage program)))
  | some r =>
    if r.pid ≤ 0 ∨ r.interpreter = 0 then
      (1, (s, (default : Console).complain "Invalid PID or interpreter state address\n"))
    else serve h r (s, default)

end StackPeek.Cli
