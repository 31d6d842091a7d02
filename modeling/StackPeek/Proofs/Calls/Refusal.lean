import StackPeek.Proofs.Calls.Operations
import StackPeek.Proofs.Member.Range

/-!
# Members the layout lacks

The call of an operation for a member that the layout lacks is refused. A refusal ends the
operation with the fault that names the member (`Operation.heeded`), unless it comes from the
decoder: what a text or a line table lacks is taken for an unreadable name and the first line
(`Operation.absorbs_refusal`).
-/

namespace StackPeek
variable {α σ : Type}

inductive Operation : Type → Type 1 where
  | readFrame (frame : Address) : Operation (Except ReadError FrameHandle)
  | walk (thread : ThreadHandle) : Operation CallStack
  | readCode (code : Address) : Operation (Except ReadError CodeHandle)
  | locate (code : CodeHandle) (offset : Int64) : Operation Location
  | resolve (code : Address) (offset : Int64) : Operation (Except ReadError Location)
  | readThread (thread : Address) : Operation (Except ReadError ThreadHandle)
  | iterateThreads {σ : Type} (interpreter : Address) (visit : σ → ThreadHandle → ForInStep σ)
      (state : σ) : Operation (ListWalk σ)
  | iterateInterpreters {σ : Type} (head : Address) (visit : σ → Address → ForInStep σ)
      (state : σ) : Operation (ListWalk σ)

namespace Operation
variable {w : Walker}

def probe (w : Walker) : Operation α → Probe α
  | .readFrame frame => (w.readFrame frame).run
  | .walk thread => w.walk thread
  | .readCode code => (w.readCode code).run
  | .locate code offset => w.locate code offset
  | .resolve code offset => (w.resolve code offset).run
  | .readThread thread => (w.readThread thread).run
  | .iterateThreads interpreter visit state => w.iterateThreads interpreter visit state
  | .iterateInterpreters head visit state => w.iterateInterpreters head visit state

def plan (w : Walker) : Operation α → Plan α
  | .readFrame frame => (w.framePlan frame).run
  | .walk thread => w.walkPlan thread
  | .readCode code => (w.codePlan code).run
  | .locate code offset => w.locatePlan code offset
  | .resolve code offset => (w.resolvePlan code offset).run
  | .readThread thread => (w.threadPlan thread).run
  | .iterateThreads interpreter visit state => w.iterateThreadsPlan interpreter visit state
  | .iterateInterpreters head visit state => w.iterateInterpretersPlan head visit state

theorem carryOut_plan (op : Operation α) : (op.plan w).carryOut w = op.probe w := by
  cases op with
  | readFrame frame => exact Trial.carryOut_run (Walker.carryOut_framePlan frame)
  | walk thread => exact Walker.carryOut_walkPlan thread
  | readCode code => exact Trial.carryOut_run (Walker.carryOut_codePlan code)
  | locate code offset => exact Walker.carryOut_locatePlan code offset
  | resolve code offset => exact Trial.carryOut_run (Walker.carryOut_resolvePlan code offset)
  | readThread thread => exact Trial.carryOut_run (Walker.carryOut_threadPlan thread)
  | iterateThreads interpreter visit state =>
    exact Walker.carryOut_iterateThreadsPlan interpreter visit state
  | iterateInterpreters head visit state =>
    exact Walker.carryOut_iterateInterpretersPlan head visit state

theorem insists_plan (op : Operation α) : (op.plan w).Insists w := by
  cases op with
  | readFrame frame => exact Walker.insists_framePlan frame
  | walk thread => exact Walker.insists_walkPlan thread
  | readCode code => exact Walker.insists_codePlan code
  | locate code offset => exact Walker.insists_locatePlan code offset
  | resolve code offset => exact Walker.insists_resolvePlan code offset
  | readThread thread => exact Walker.insists_threadPlan thread
  | iterateThreads interpreter visit state =>
    exact Walker.insists_iterateThreadsPlan interpreter visit state
  | iterateInterpreters head visit state =>
    exact Walker.insists_iterateInterpretersPlan head visit state

/-- An operation is its plan, and a refused call outside the decoder is the last one it makes. -/
theorem heeded (op : Operation α) (w : Walker) (t : Target σ) (s : σ) :
    (op.plan w).carryOut w = op.probe w ∧
      Plan.Heeded w ((op.plan w).answers w t s) ((op.probe w).run t s).1 := by
  have hplan : (op.plan w).carryOut w = op.probe w := op.carryOut_plan
  refine ⟨hplan, ?_⟩
  rw [← hplan]
  exact op.insists_plan.run t s

/-- Strings without a length, and bytes without a size. -/
def unmeasured : Walker := ⟨((Layout.builtin .v39).erase .stringLength).erase .bytesSize, .standard⟩

def someCode : CodeHandle := ⟨0x1000, 0x1100, 0x1200, 7, 0x1300⟩

/-- All three calls for a location are refused, and the location is made up of what stands for
unreadable names and of the first line. -/
theorem absorbs_refusal :
    ((locate someCode 2).plan unmeasured).answers unmeasured StillMemory.zeros.target () =
        [⟨.text 0x1100, .error .unsupportedField⟩, ⟨.text 0x1200, .error .unsupportedField⟩,
          ⟨.bytes 0x1300 LineTable.maxSize, .error .unsupportedField⟩] ∧
      (((locate someCode 2).probe unmeasured).run StillMemory.zeros.target ()).1 =
        .ok ⟨unmeasured.options.unresolvedName, unmeasured.options.unresolvedName, 7, false⟩ :=
  ⟨rfl, rfl⟩

end Operation
end StackPeek
