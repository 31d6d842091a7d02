import StackPeek.Thread.Basic

/-!
# Lists of threads and interpreters

The threads of an interpreter and the interpreters of a process are linked lists in the
target. Both walks hand each element to a visitor, keep the same limit, notice an element
that comes up again, and say in a `ListWalk` how they ended: at the end of the list exactly
when none of its marks is set.
-/

namespace StackPeek

/-- How a walk over a linked list ended, and what its visitor made of the elements. -/
structure ListWalk (σ : Type) where
  state : σ
  count : Nat
  /-- There may be more that was not seen. -/
  incomplete : Bool
  cycleDetected : Bool
  stopped : Bool
  error : Option ReadError
  /-- Where the walk stood when it ended; null at the end of the list. -/
  final : Address

def ListWalk.start {σ : Type} (state : σ) : ListWalk σ :=
  ⟨state, 0, false, false, false, none, 0⟩

structure ThreadEnumeration where
  threads : List ThreadHandle
  incomplete : Bool
  cycleDetected : Bool
  error : Option ReadError

namespace Walker
variable {σ : Type}

def threadsFrom (w : Walker) (interpreter : Address) (visit : σ → ThreadHandle → ForInStep σ)
    (room : Nat) (address : Address) (visited : List Address) (r : ListWalk σ) :
    Probe (ListWalk σ) :=
  let r := { r with final := address }
  if address = 0 then return r
  else do
    if ← Probe.cancelled then return { r with incomplete := true }
    else match room with
      | 0 =>
        Probe.report .warn
          (s!"Interpreter {Numeral.address interpreter} has more than " ++
            s!"{w.options.maxThreads} threads, ignoring the rest")
        return { r with incomplete := true }
      | room + 1 =>
        if address ∈ visited then
          Probe.report .info
            (s!"Thread list of interpreter {Numeral.address interpreter} " ++
              s!"loops back to {Numeral.address address}")
          return { r with cycleDetected := true }
        else match ← (w.readThread address).run with
          | .error e =>
            Probe.report .debug
              s!"Failed to read thread state {Numeral.address address}: {e.name}"
            return { r with incomplete := true, error := some e }
          | .ok thread =>
            let r := { r with
              incomplete := r.incomplete || thread.frameUnavailable
              count := r.count + 1 }
            match visit r.state thread with
            | .done state => return { r with state := state, stopped := true }
            | .yield state =>
              w.threadsFrom interpreter visit room thread.next (address :: visited)
                { r with state := state }

def iterateThreads (w : Walker) (interpreter : Address)
    (visit : σ → ThreadHandle → ForInStep σ) (state : σ) : Probe (ListWalk σ) := do
  match ← (w.demandRead .interpreterThreads
      (w.readUnsigned interpreter .interpreterThreads)).run with
  | .error e =>
    Probe.report .info
      s!"Failed to read thread list of interpreter {Numeral.address interpreter}: {e.name}"
    return { ListWalk.start state with incomplete := true, error := some e }
  | .ok head =>
    w.threadsFrom interpreter visit w.options.maxThreads.toNat head [] (.start state)

def enumerateThreads (w : Walker) (interpreter : Address) : Probe ThreadEnumeration := do
  let r ← w.iterateThreads interpreter (fun seen t => .yield (t :: seen)) []
  return ⟨r.state.reverse, r.incomplete, r.cycleDetected, r.error⟩

def interpretersFrom (w : Walker) (visit : σ → Address → ForInStep σ)
    (room : Nat) (address : Address) (visited : List Address) (r : ListWalk σ) :
    Probe (ListWalk σ) :=
  let r := { r with final := address }
  if address = 0 then return r
  else do
    if ← Probe.cancelled then return { r with incomplete := true }
    else match room with
      | 0 => return { r with incomplete := true }
      | room + 1 =>
        if address ∈ visited then return { r with cycleDetected := true }
        else
          let r := { r with count := r.count + 1 }
          match visit r.state address with
          | .done state => return { r with state := state, stopped := true }
          | .yield state =>
            let r := { r with state := state }
            match ← (w.demandRead .interpreterNext
                (w.readUnsigned address .interpreterNext)).run with
            | .error e =>
              Probe.report .debug
                s!"Failed to read next interpreter of {Numeral.address address}: {e.name}"
              return { r with incomplete := true, error := some e }
            | .ok next => w.interpretersFrom visit room next (address :: visited) r

def iterateInterpreters (w : Walker) (head : Address) (visit : σ → Address → ForInStep σ)
    (state : σ) : Probe (ListWalk σ) :=
  w.interpretersFrom visit w.options.maxThreads.toNat head [] (.start state)

end Walker
end StackPeek
