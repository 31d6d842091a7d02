import StackPeek.Layout.Validate
import StackPeek.Sampling.Pool
import StackPeek.Stack.Walk
import StackPeek.Thread.List

/-!
# Sampling

A `Sampler` takes the call stacks of all threads of one interpreter, or of all interpreters of
a process. It exists only for layouts that describe everything a walk needs. A `Sample` says
whether the thread lists were followed to their ends and whether the session was cancelled.
-/

namespace StackPeek

/-- Call stacks, grouped by interpreter and in list order. -/
structure Sample where
  callStacks : List CallStack
  threadsIncomplete : Bool
  cancelled : Bool
  deriving DecidableEq, Inhabited

/-- A walker for a layout that has been checked. -/
structure Sampler where
  walker : Walker
  valid : walker.layout.validate = .ok ()

namespace Sampler

/-- A sampler for a layout and limits. Without anything to read from there is none. -/
def create (layout : Layout) (options : Options) (hasReader : Bool) : Probe Sampler :=
  if !hasReader then .fault .noReader
  else match h : layout.validate with
    | .error f => .fault f
    | .ok () => do
      Probe.report .info
        (s!"Sampling with layout {layout.id.name} " ++
          s!"({max options.walkThreads 1} walker threads)")
      return ⟨⟨layout, options⟩, h⟩

def walkInTurn (w : Walker) : List ThreadHandle → (walked : List CallStack) →
    Probe (List CallStack)
  | [], walked => return walked.reverse
  | thread :: rest, walked => do
    if ← Probe.cancelled then return walked.reverse
    else
      let stack ← w.walk thread
      walkInTurn w rest (stack :: walked)

def walkInParallel (w : Walker) (schedule : Schedule) (threads : List ThreadHandle) :
    Probe (List CallStack) :=
  Pool.run (min w.options.walkThreads.toNat threads.length) schedule (threads.map w.walk)

def walkAll (w : Walker) (schedule : Schedule) (threads : List ThreadHandle) :
    Probe (List CallStack) :=
  if 1 < w.options.walkThreads ∧ 1 < threads.length then walkInParallel w schedule threads
  else walkInTurn w threads []

def sampleInterpreter (w : Walker) (schedule : Schedule) (interpreter : Address) (s : Sample) :
    Probe Sample := do
  let found ← w.enumerateThreads interpreter
  let cut := found.incomplete || found.cycleDetected
  if cut then
    Probe.report .info
      (s!"Enumerated {found.threads.length} threads of interpreter " ++
        s!"{Numeral.address interpreter}, list incomplete")
  let walked ← walkAll w schedule found.threads
  return { s with
    callStacks := s.callStacks ++
      walked.map fun stack => { stack with interpreterState := interpreter }
    threadsIncomplete := s.threadsIncomplete || cut }

def sampleEach (w : Walker) (schedule : Schedule) : List Address → Sample → Probe Sample
  | [], s => return s
  | interpreter :: rest, s => do
    if ← Probe.cancelled then return s
    else
      let s ← sampleInterpreter w schedule interpreter s
      sampleEach w schedule rest s

def conclude (s : Sample) : Probe Sample := do
  let cancelled ← Probe.cancelled
  return { s with cancelled := cancelled }

def sample (sampler : Sampler) (schedule : Schedule) (interpreter : Address) : Probe Sample := do
  let s ← sampleInterpreter sampler.walker schedule interpreter default
  conclude s

def sampleAll (sampler : Sampler) (schedule : Schedule) (main : Address) : Probe Sample := do
  let w := sampler.walker
  let r ← w.iterateInterpreters main (fun seen i => .yield (i :: seen)) []
  let cut := r.incomplete || r.cycleDetected
  if cut then
    Probe.report .info
      (s!"Enumerated {r.state.length} interpreters from {Numeral.address main}, " ++
        "list incomplete")
  let s ← sampleEach w schedule r.state.reverse ⟨[], cut, false⟩
  conclude s

end Sampler
end StackPeek
