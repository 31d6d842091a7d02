import StackPeek.Probe

/-!
# A pool of workers

Workers share a list of tasks. A worker fetches the next index from a common counter, looks
whether it should go on, carries out the task and puts the result into the slot of that index,
until the counter has passed the last task. A fault of a task stops its worker and keeps the
others from starting another task; the first fault is the one that counts.

A worker's share of the work is cut into steps: fetching, looking, one effect of the task, and
storing. A `Schedule` says which worker makes each step; when it is used up, the workers finish
one after the other. Every order in which concurrent workers can act is some schedule.
-/

namespace StackPeek

/-- The workers that make the steps, in order. -/
abbrev Schedule := List Nat

inductive Worker (α : Type) where
  | fetching
  /-- It holds an index and has not looked yet whether to go on. -/
  | holding (index : Nat)
  | working (index : Nat) (rest : Probe α)
  | finished

structure Pool (α : Type) where
  next : Nat
  workers : List (Worker α)
  slots : List (Option α)
  fault : Option Fault

namespace Probe
variable {α : Type}

/-- The first effect of a probe; its value is what is left to do. -/
def advance : Probe α → Probe (Probe α)
  | .read a n k => .read a n fun r => .done (k r)
  | .poll k => .poll fun b => .done (k b)
  | .log e k => .log e (.done k)
  | p => .done p

/-- Carries a probe out and turns a fault into a value. -/
def settle : Probe α → Probe (Except Fault α)
  | .done a => .done (.ok a)
  | .fault f => .done (.error f)
  | .read a n k => .read a n fun r => (k r).settle
  | .poll k => .poll fun b => (k b).settle
  | .log e k => .log e k.settle

end Probe

namespace Pool
variable {α : Type}

def start (count size : Nat) : Pool α :=
  ⟨0, List.replicate count .fetching, List.replicate size none, none⟩

def setWorker (p : Pool α) (i : Nat) (w : Worker α) : Pool α :=
  { p with workers := p.workers.set i w }

def store (p : Pool α) (index : Nat) (a : α) : Pool α :=
  { p with slots := p.slots.set index (some a) }

def fail (p : Pool α) (f : Fault) : Pool α := { p with fault := p.fault.or (some f) }

def step (tasks : List (Probe α)) (p : Pool α) (i : Nat) : Probe (Pool α) :=
  match p.workers[i]? with
  | none | some .finished => return p
  | some .fetching =>
    let worker := if p.next < tasks.length then .holding p.next else .finished
    return { p with next := p.next + 1 }.setWorker i worker
  | some (.holding index) => do
    let cancelled ← Probe.cancelled
    match tasks[index]? with
    | none => return p.setWorker i .finished
    | some task =>
      if cancelled || p.fault.isSome then return p.setWorker i .finished
      else return p.setWorker i (.working index task)
  | some (.working index (.done a)) => return (p.store index a).setWorker i .fetching
  | some (.working _ (.fault f)) => return (p.fail f).setWorker i .finished
  | some (.working index rest) => do
    let rest ← rest.advance
    return p.setWorker i (.working index rest)

def follow (tasks : List (Probe α)) : Schedule → Pool α → Probe (Pool α)
  | [], p => return p
  | i :: rest, p => do
    let p ← p.step tasks i
    follow tasks rest p

/-- Carries a task out; false if the worker must stop. -/
def carryOut (p : Pool α) (index : Nat) (task : Probe α) : Probe (Pool α × Bool) := do
  match ← task.settle with
  | .ok a => return (p.store index a, true)
  | .error f => return (p.fail f, false)

def takeRest : (tasks : List (Probe α)) → Pool α → Probe (Pool α)
  | [], p => return { p with next := p.next + 1 }
  | task :: rest, p => do
    let index := p.next
    let p := { p with next := p.next + 1 }
    if (← Probe.cancelled) || p.fault.isSome then return p
    else
      let (p, goOn) ← p.carryOut index task
      if goOn then takeRest rest p else return p

def finish (tasks : List (Probe α)) (worker : Worker α) (p : Pool α) : Probe (Pool α) :=
  match worker with
  | .finished => return p
  | .fetching => takeRest (tasks.drop p.next) p
  | .holding index => do
    if (← Probe.cancelled) || p.fault.isSome then return p
    else match tasks[index]? with
      | none => return p
      | some task =>
        let (p, goOn) ← p.carryOut index task
        if goOn then takeRest (tasks.drop p.next) p else return p
  | .working index rest => do
    let (p, goOn) ← p.carryOut index rest
    if goOn then takeRest (tasks.drop p.next) p else return p

def finishAll (tasks : List (Probe α)) : List (Worker α) → Pool α → Probe (Pool α)
  | [], p => return p
  | w :: rest, p => do
    let p ← finish tasks w p
    finishAll tasks rest p

def run (count : Nat) (schedule : Schedule) (tasks : List (Probe α)) : Probe (List α) := do
  let p ← follow tasks schedule (start count tasks.length)
  let p ← finishAll tasks p.workers p
  match p.fault with
  | some f => .fault f
  | none => return p.slots.filterMap id

end Pool
end StackPeek
