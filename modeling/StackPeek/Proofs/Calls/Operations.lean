import StackPeek.Proofs.Calls.Plan
import StackPeek.Stack.Walk
import StackPeek.Thread.List

/-!
# The operations as plans

Each operation over frames, code objects, threads and interpreters is the plan of its calls,
carried out.
-/

namespace StackPeek

namespace Walker
open Trial (check need)

section Plans

def offsetPlan (w : Walker) (s : Snapshot) (code : Address) : Trial Int64 :=
  match w.layout.instruction with
  | .lastiBytes => do
    let index ← check w .frameLasti (.signed s .frameLasti)
    index
  | .lastiCodeUnits => do
    let index ← check w .frameLasti (.signed s .frameLasti)
    return unitsToBytes (← index)
  | .prevInstrPointer => do
    let instruction ← check w .framePrevInstr (.unsigned s .framePrevInstr)
    let instruction ← instruction
    let bytecode ← need w .codeBytecode (.place .codeBytecode)
    return pointerToBytes code bytecode.offset instruction

def framePlan (w : Walker) (frame : Address) : Trial FrameHandle := do
  let s ← need w .frameBack (.copy frame .frame)
  let back ← check w .frameBack (.unsigned s .frameBack)
  let code ← check w .frameCode (.unsigned s .frameCode)
  let back ← back
  let code ← code
  let offset ← w.offsetPlan s code
  return ⟨frame, back, code, offset⟩

def codePlan (w : Walker) (code : Address) : Trial CodeHandle := do
  let s ← need w .codeName (.copy code .code)
  let name ← check w .codeName (.unsigned s .codeName)
  let filename ← check w .codeFilename (.unsigned s .codeFilename)
  let firstLine ← check w .codeFirstLine (.signed s .codeFirstLine)
  let lineTable ← check w .codeLineTable (.unsigned s .codeLineTable)
  match name, filename, lineTable with
  | .ok name, .ok filename, .ok lineTable =>
    match firstLine with
    | .ok line => return ⟨code, name, filename, line.toInt32, lineTable⟩
    | .error e => throw e
  | _, _, _ => throw .outOfRange

def linePlan (t : LineTable) (offset : Int64) : Plan Int32 :=
  match t.lookup offset with
  | (line, none) => return line
  | (line, some damage) => do
    Plan.report .info s!"Failed to parse location table: {damage.message}"
    return line

def resolveLinePlan (w : Walker) (code : CodeHandle) (offset : Int64) : Plan (Int32 × Bool) :=
  if offset ≤ 0 then return (code.firstLine, true)
  else do
    match ← Plan.ask (.bytes code.lineTable LineTable.maxSize) with
    | .error e =>
      Plan.report .debug
        (s!"Failed to read line table at {Numeral.address code.lineTable} " ++
          s!"of code object {Numeral.address code.address}: {e.name}")
      return (code.firstLine, false)
    | .ok data =>
      let line ← linePlan ⟨w.layout.lineTable, code.firstLine, data⟩ offset
      return (line, true)

def namePlan (w : Walker) (address : Address) : Plan (Text × Bool) := do
  match ← Plan.ask (.text address) with
  | .ok text => return (text, true)
  | .error _ => return (w.options.unresolvedName, false)

def locatePlan (w : Walker) (code : CodeHandle) (offset : Int64) : Plan Location := do
  let (function, named) ← w.namePlan code.name
  let (file, filed) ← w.namePlan code.filename
  let (line, lined) ← w.resolveLinePlan code offset
  return ⟨function, file, line, named && filed && lined⟩

def resolvePlan (w : Walker) (code : Address) (offset : Int64) : Trial Location := do
  let handle ← w.codePlan code
  w.locatePlan handle offset

def resolveFramePlan (w : Walker) (frame : FrameHandle) (depth : Nat) :
    Plan (ResolvedFrame × Bool) := do
  match ← (w.resolvePlan frame.code frame.instructionOffset).run with
  | .ok place => return (⟨place.function, place.file, place.line, depth, true⟩, place.complete)
  | .error _ => return (w.placeholder depth, false)

def walkPlanFrom (w : Walker) (threadId : UInt64) (room : Nat) (address : Address) (t : Trail) :
    Plan Walked :=
  if address = 0 then return ⟨t, address, if t.incomplete then .incomplete else .complete⟩
  else do
    if ← Plan.cancelled then return ⟨t, address, .incomplete⟩
    else match room with
      | 0 =>
        Plan.report .info
          (s!"Stack of thread {threadId} is deeper than {w.options.maxStackDepth} frames, " ++
            "truncating")
        return ⟨t, address, .depthExceeded⟩
      | room + 1 =>
        if address ∈ t.visited then
          Plan.report .info
            s!"Stack of thread {threadId} loops back to frame {Numeral.address address}"
          return ⟨t, address, .cycleDetected⟩
        else match ← (w.framePlan address).run with
          | .error e =>
            Plan.report .debug
              s!"Failed to read frame {Numeral.address address} of thread {threadId}: {e.name}"
            return ⟨t, address, .incomplete⟩
          | .ok frame =>
            let (resolved, whole) ← w.resolveFramePlan frame t.depth
            w.walkPlanFrom threadId room frame.back (t.extend address resolved whole)

def walkPlan (w : Walker) (thread : ThreadHandle) : Plan CallStack := do
  let r ← w.walkPlanFrom thread.threadId w.options.maxStackDepth.toNat thread.frame
    (.start thread.frameUnavailable)
  return ⟨thread.threadId, thread.address, 0, r.trail.frames.reverse, r.status⟩

def cframePlan (w : Walker) (thread cframe : Address) : Plan (Address × Bool) := do
  match ← Plan.insist w .cframeCurrent (.member cframe .cframeCurrent) with
  | .ok frame => return (frame, false)
  | .error e =>
    Plan.report .debug
      (s!"Failed to read current frame of thread {Numeral.address thread} " ++
        s!"through cframe {Numeral.address cframe}: {e.name}")
    return (0, true)

def threadFramePlan (w : Walker) (thread : Address) (s : Snapshot) : Trial (Address × Bool) :=
  match w.layout.frameLink with
  | .direct => do
    let frame ← check w .threadFrame (.unsigned s .threadFrame)
    return (← frame, false)
  | .viaCFrame => do
    let cframe ← check w .threadCFrame (.unsigned s .threadCFrame)
    let cframe ← cframe
    if cframe = 0 then return (0, false)
    else do
      w.cframePlan thread cframe

def threadPlan (w : Walker) (thread : Address) : Trial ThreadHandle := do
  let s ← need w .threadNext (.copy thread .threadState)
  let next ← check w .threadNext (.unsigned s .threadNext)
  let threadId ← check w .threadId (.unsigned s .threadId)
  let next ← next
  let threadId ← threadId
  let (frame, unavailable) ← w.threadFramePlan thread s
  return ⟨thread, next, frame, threadId, unavailable⟩

section Lists
variable {σ : Type}

def threadsPlanFrom (w : Walker) (interpreter : Address) (visit : σ → ThreadHandle → ForInStep σ)
    (room : Nat) (address : Address) (visited : List Address) (r : ListWalk σ) :
    Plan (ListWalk σ) :=
  let r := { r with final := address }
  if address = 0 then return r
  else do
    if ← Plan.cancelled then return { r with incomplete := true }
    else match room with
      | 0 =>
        Plan.report .warn
          (s!"Interpreter {Numeral.address interpreter} has more than " ++
            s!"{w.options.maxThreads} threads, ignoring the rest")
        return { r with incomplete := true }
      | room + 1 =>
        if address ∈ visited then
          Plan.report .info
            (s!"Thread list of interpreter {Numeral.address interpreter} " ++
              s!"loops back to {Numeral.address address}")
          return { r with cycleDetected := true }
        else match ← (w.threadPlan address).run with
          | .error e =>
            Plan.report .debug
              s!"Failed to read thread state {Numeral.address address}: {e.name}"
            return { r with incomplete := true, error := some e }
          | .ok thread =>
            let r := { r with
              incomplete := r.incomplete || thread.frameUnavailable
              count := r.count + 1 }
            match visit r.state thread with
            | .done state => return { r with state := state, stopped := true }
            | .yield state =>
              w.threadsPlanFrom interpreter visit room thread.next (address :: visited)
                { r with state := state }

def iterateThreadsPlan (w : Walker) (interpreter : Address)
    (visit : σ → ThreadHandle → ForInStep σ) (state : σ) : Plan (ListWalk σ) := do
  match ← Plan.insist w .interpreterThreads (.member interpreter .interpreterThreads) with
  | .error e =>
    Plan.report .info
      s!"Failed to read thread list of interpreter {Numeral.address interpreter}: {e.name}"
    return { ListWalk.start state with incomplete := true, error := some e }
  | .ok head =>
    w.threadsPlanFrom interpreter visit w.options.maxThreads.toNat head [] (.start state)

def interpretersPlanFrom (w : Walker) (visit : σ → Address → ForInStep σ)
    (room : Nat) (address : Address) (visited : List Address) (r : ListWalk σ) :
    Plan (ListWalk σ) :=
  let r := { r with final := address }
  if address = 0 then return r
  else do
    if ← Plan.cancelled then return { r with incomplete := true }
    else match room with
      | 0 => return { r with incomplete := true }
      | room + 1 =>
        if address ∈ visited then return { r with cycleDetected := true }
        else
          let r := { r with count := r.count + 1 }
          match visit r.state address with
          | .done state => return { r with state := state, stopped := true }
          | .yield state =>
            let r := { r with state := state }
            match ← Plan.insist w .interpreterNext (.member address .interpreterNext) with
            | .error e =>
              Plan.report .debug
                s!"Failed to read next interpreter of {Numeral.address address}: {e.name}"
              return { r with incomplete := true, error := some e }
            | .ok next => w.interpretersPlanFrom visit room next (address :: visited) r

def iterateInterpretersPlan (w : Walker) (head : Address) (visit : σ → Address → ForInStep σ)
    (state : σ) : Plan (ListWalk σ) :=
  w.interpretersPlanFrom visit w.options.maxThreads.toNat head [] (.start state)

end Lists
end Plans

section Equal
variable {w : Walker}

theorem carryOut_offsetPlan (s : Snapshot) (code : Address) :
    (w.offsetPlan s code).carryOut w = w.instructionOffset s code := by
  unfold offsetPlan instructionOffset
  cases w.layout.instruction with
  | lastiBytes => exact Trial.carryOut_check rfl (Trial.carryOut_ofExcept (s.signed .frameLasti))
  | lastiCodeUnits =>
    exact Trial.carryOut_check rfl <|
      Trial.carryOut_seq (Trial.carryOut_ofExcept (s.signed .frameLasti)) fun _ => rfl
  | prevInstrPointer =>
    refine Trial.carryOut_check rfl <|
      Trial.carryOut_seq (Trial.carryOut_ofExcept (s.pointer .framePrevInstr)) fun instruction => ?_
    rw [Trial.carryOut_bind, Trial.carryOut_need, Call.perform_place]
    cases w.layout.spec? .codeBytecode <;> rfl

theorem carryOut_framePlan (frame : Address) :
    (w.framePlan frame).carryOut w = w.readFrame frame := by
  refine Trial.carryOut_seq (Trial.carryOut_need _ _) fun s => ?_
  refine Trial.carryOut_check rfl (Trial.carryOut_check rfl ?_)
  refine Trial.carryOut_seq (Trial.carryOut_ofExcept (s.pointer .frameBack)) fun back => ?_
  refine Trial.carryOut_seq (Trial.carryOut_ofExcept (s.pointer .frameCode)) fun code => ?_
  exact Trial.carryOut_seq (carryOut_offsetPlan s code) fun _ => rfl

theorem carryOut_codePlan (code : Address) : (w.codePlan code).carryOut w = w.readCode code := by
  refine Trial.carryOut_seq (Trial.carryOut_need _ _) fun s => ?_
  -- All four members are looked at before any of them is used.
  refine Trial.carryOut_check (x := s.pointer .codeName) rfl ?_
  refine Trial.carryOut_check (x := s.pointer .codeFilename) rfl ?_
  refine Trial.carryOut_check (x := s.signed .codeFirstLine) rfl ?_
  refine Trial.carryOut_check (x := s.pointer .codeLineTable) rfl ?_
  cases s.pointer .codeName with
  | error e => rfl
  | ok name =>
    cases s.pointer .codeFilename with
    | error e => rfl
    | ok filename =>
      cases s.pointer .codeLineTable with
      | error e => rfl
      | ok lineTable => cases s.signed .codeFirstLine <;> rfl

theorem carryOut_linePlan (t : LineTable) (offset : Int64) :
    (linePlan t offset).carryOut w = t.lineAt offset := by
  unfold linePlan LineTable.lineAt
  rcases t.lookup offset with ⟨line, _ | damage⟩ <;> rfl

theorem carryOut_resolveLinePlan (code : CodeHandle) (offset : Int64) :
    (w.resolveLinePlan code offset).carryOut w = w.resolveLine code offset := by
  unfold resolveLinePlan resolveLine
  split
  · rfl
  refine Plan.carryOut_seq (Plan.carryOut_ask _) fun r => ?_
  cases r with
  | error e => rfl
  | ok data => exact Plan.carryOut_seq (carryOut_linePlan _ _) fun _ => rfl

theorem carryOut_namePlan (address : Address) :
    (w.namePlan address).carryOut w = w.resolveName address := by
  refine Plan.carryOut_seq (Plan.carryOut_ask _) fun r => ?_
  cases r <;> rfl

theorem carryOut_locatePlan (code : CodeHandle) (offset : Int64) :
    (w.locatePlan code offset).carryOut w = w.locate code offset := by
  refine Plan.carryOut_seq (carryOut_namePlan _) fun function => ?_
  refine Plan.carryOut_seq (carryOut_namePlan _) fun file => ?_
  exact Plan.carryOut_seq (carryOut_resolveLinePlan _ _) fun _ => rfl

theorem carryOut_resolvePlan (code : Address) (offset : Int64) :
    (w.resolvePlan code offset).carryOut w = w.resolve code offset := by
  refine Trial.carryOut_seq (carryOut_codePlan code) fun handle => ?_
  rw [Trial.carryOut_lift, carryOut_locatePlan]

theorem carryOut_resolveFramePlan (frame : FrameHandle) (depth : Nat) :
    (w.resolveFramePlan frame depth).carryOut w = w.resolveFrame frame depth := by
  refine Plan.carryOut_seq (Trial.carryOut_run (carryOut_resolvePlan _ _)) fun r => ?_
  cases r <;> rfl

theorem carryOut_walkPlanFrom (threadId : UInt64) (room : Nat) (address : Address) (t : Trail) :
    (w.walkPlanFrom threadId room address t).carryOut w = w.walkFrom threadId room address t := by
  -- The plan recurs on the room as the walk does, and splits where the walk splits.
  induction room generalizing address t with
  | zero =>
    unfold walkPlanFrom walkFrom
    split
    · rfl
    refine Plan.carryOut_seq rfl fun flag => ?_
    cases flag <;> rfl
  | succ room ih =>
    unfold walkPlanFrom walkFrom
    split
    · rfl
    refine Plan.carryOut_seq rfl fun flag => ?_
    cases flag with
    | true => rfl
    | false =>
      simp only [Bool.false_eq_true, if_false]
      split
      · rfl
      refine Plan.carryOut_seq (Trial.carryOut_run (carryOut_framePlan address)) fun r => ?_
      cases r with
      | error e => rfl
      | ok frame => exact Plan.carryOut_seq (carryOut_resolveFramePlan _ _) fun _ => ih _ _

theorem carryOut_walkPlan (thread : ThreadHandle) :
    (w.walkPlan thread).carryOut w = w.walk thread :=
  Plan.carryOut_seq (carryOut_walkPlanFrom _ _ _ _) fun _ => rfl

theorem carryOut_cframePlan (thread cframe : Address) :
    (w.cframePlan thread cframe).carryOut w = w.cframeFrame thread cframe := by
  refine Plan.carryOut_seq (Plan.carryOut_insist _ _) fun r => ?_
  cases r <;> rfl

theorem carryOut_threadFramePlan (thread : Address) (s : Snapshot) :
    (w.threadFramePlan thread s).carryOut w = w.threadFrame thread s := by
  unfold threadFramePlan threadFrame
  cases w.layout.frameLink with
  | direct =>
    exact Trial.carryOut_check rfl <|
      Trial.carryOut_seq (Trial.carryOut_ofExcept (s.pointer .threadFrame)) fun _ => rfl
  | viaCFrame =>
    refine Trial.carryOut_check rfl <|
      Trial.carryOut_seq (Trial.carryOut_ofExcept (s.pointer .threadCFrame)) fun cframe => ?_
    split
    · rfl
    · rw [Trial.carryOut_lift, carryOut_cframePlan]

theorem carryOut_threadPlan (thread : Address) :
    (w.threadPlan thread).carryOut w = w.readThread thread := by
  refine Trial.carryOut_seq (Trial.carryOut_need _ _) fun s => ?_
  refine Trial.carryOut_check rfl (Trial.carryOut_check rfl ?_)
  refine Trial.carryOut_seq (Trial.carryOut_ofExcept (s.pointer .threadNext)) fun next => ?_
  refine Trial.carryOut_seq (Trial.carryOut_ofExcept (s.unsigned .threadId)) fun threadId => ?_
  exact Trial.carryOut_seq (carryOut_threadFramePlan thread s) fun _ => rfl

section Lists
variable {σ : Type}

theorem carryOut_threadsPlanFrom (interpreter : Address)
    (visit : σ → ThreadHandle → ForInStep σ) (room : Nat) (address : Address)
    (visited : List Address) (r : ListWalk σ) :
    (w.threadsPlanFrom interpreter visit room address visited r).carryOut w =
      w.threadsFrom interpreter visit room address visited r := by
  induction room generalizing address visited r with
  | zero =>
    unfold threadsPlanFrom threadsFrom
    simp only
    split
    · rfl
    refine Plan.carryOut_seq rfl fun flag => ?_
    cases flag <;> rfl
  | succ room ih =>
    unfold threadsPlanFrom threadsFrom
    simp only
    split
    · rfl
    refine Plan.carryOut_seq rfl fun flag => ?_
    cases flag with
    | true => rfl
    | false =>
      simp only [Bool.false_eq_true, if_false]
      split
      · rfl
      refine Plan.carryOut_seq (Trial.carryOut_run (carryOut_threadPlan address)) fun found => ?_
      cases found with
      | error e => rfl
      | ok thread =>
        simp only
        cases visit r.state thread with
        | done state => rfl
        | yield state => exact ih _ _ _

theorem carryOut_iterateThreadsPlan (interpreter : Address)
    (visit : σ → ThreadHandle → ForInStep σ) (state : σ) :
    (w.iterateThreadsPlan interpreter visit state).carryOut w =
      w.iterateThreads interpreter visit state := by
  refine Plan.carryOut_seq (Plan.carryOut_insist _ _) fun head => ?_
  cases head with
  | error e => rfl
  | ok head => exact carryOut_threadsPlanFrom _ _ _ _ _ _

theorem carryOut_interpretersPlanFrom (visit : σ → Address → ForInStep σ) (room : Nat)
    (address : Address) (visited : List Address) (r : ListWalk σ) :
    (w.interpretersPlanFrom visit room address visited r).carryOut w =
      w.interpretersFrom visit room address visited r := by
  induction room generalizing address visited r with
  | zero =>
    unfold interpretersPlanFrom interpretersFrom
    simp only
    split
    · rfl
    refine Plan.carryOut_seq rfl fun flag => ?_
    cases flag <;> rfl
  | succ room ih =>
    unfold interpretersPlanFrom interpretersFrom
    simp only
    split
    · rfl
    refine Plan.carryOut_seq rfl fun flag => ?_
    cases flag with
    | true => rfl
    | false =>
      simp only [Bool.false_eq_true, if_false]
      split
      · rfl
      cases visit r.state address with
      | done state => rfl
      | yield state =>
        refine Plan.carryOut_seq (Plan.carryOut_insist _ _) fun next => ?_
        cases next with
        | error e => rfl
        | ok next => exact ih _ _ _

theorem carryOut_iterateInterpretersPlan (head : Address)
    (visit : σ → Address → ForInStep σ) (state : σ) :
    (w.iterateInterpretersPlan head visit state).carryOut w =
      w.iterateInterpreters head visit state :=
  carryOut_interpretersPlanFrom _ _ _ _ _

end Lists
end Equal

section Insisting
open Plan (Insists insists_ask insists_cancelled insists_insist insists_report)
open Trial (insists_check insists_need insists_ofExcept insists_pure insists_throw)
variable {w : Walker}

theorem insists_offsetPlan (s : Snapshot) (code : Address) : (w.offsetPlan s code).Insists w := by
  unfold offsetPlan
  cases w.layout.instruction with
  | lastiBytes => exact Trial.Insists.bind (insists_check rfl) fun index => insists_ofExcept index
  | lastiCodeUnits =>
    exact Trial.Insists.bind (insists_check rfl) fun index => (insists_ofExcept index).bind fun _ =>
      insists_pure _
  | prevInstrPointer =>
    refine Trial.Insists.bind (insists_check rfl) fun instruction => ?_
    apply (insists_ofExcept instruction).bind
    intro instruction
    exact Trial.Insists.bind (insists_need rfl) fun _ => insists_pure _

theorem insists_framePlan (frame : Address) : (w.framePlan frame).Insists w := by
  refine Trial.Insists.bind (insists_need rfl) fun s => ?_
  refine Trial.Insists.bind (insists_check rfl) fun back => ?_
  refine Trial.Insists.bind (insists_check rfl) fun code => ?_
  apply (insists_ofExcept back).bind
  intro back
  apply (insists_ofExcept code).bind
  intro code
  exact (insists_offsetPlan s code).bind fun _ => insists_pure _

theorem insists_codePlan (code : Address) : (w.codePlan code).Insists w := by
  refine Trial.Insists.bind (insists_need rfl) fun s => ?_
  refine Trial.Insists.bind (insists_check rfl) fun name => ?_
  refine Trial.Insists.bind (insists_check rfl) fun filename => ?_
  refine Trial.Insists.bind (insists_check rfl) fun firstLine => ?_
  refine Trial.Insists.bind (insists_check rfl) fun lineTable => ?_
  split
  · split
    · exact insists_pure _
    · exact insists_throw _
  · exact insists_throw _

theorem insists_linePlan (t : LineTable) (offset : Int64) : (linePlan t offset).Insists w := by
  unfold linePlan
  split
  · exact .done _
  · exact (insists_report _ _).bind fun _ => .done _

theorem insists_resolveLinePlan (code : CodeHandle) (offset : Int64) :
    (w.resolveLinePlan code offset).Insists w := by
  unfold resolveLinePlan
  split
  · exact .done _
  refine Insists.bind (insists_ask rfl) fun r => ?_
  cases r with
  | error e => exact (insists_report _ _).bind fun _ => .done _
  | ok data => exact (insists_linePlan _ _).bind fun _ => .done _

theorem insists_namePlan (address : Address) : (w.namePlan address).Insists w := by
  refine Insists.bind (insists_ask rfl) fun r => ?_
  cases r <;> exact .done _

theorem insists_locatePlan (code : CodeHandle) (offset : Int64) :
    (w.locatePlan code offset).Insists w := by
  apply (insists_namePlan _).bind
  intro function
  apply (insists_namePlan _).bind
  intro file
  exact (insists_resolveLinePlan _ _).bind fun _ => .done _

theorem insists_resolvePlan (code : Address) (offset : Int64) :
    (w.resolvePlan code offset).Insists w :=
  (insists_codePlan code).bind fun _ => Trial.insists_lift (insists_locatePlan _ _)

theorem insists_resolveFramePlan (frame : FrameHandle) (depth : Nat) :
    (w.resolveFramePlan frame depth).Insists w := by
  apply Insists.bind (insists_resolvePlan _ _)
  intro r
  cases r <;> exact .done _

theorem insists_walkPlanFrom (threadId : UInt64) (room : Nat) (address : Address) (t : Trail) :
    (w.walkPlanFrom threadId room address t).Insists w := by
  induction room generalizing address t with
  | zero =>
    unfold walkPlanFrom
    split
    · exact .done _
    apply insists_cancelled.bind
    intro flag
    split
    · exact .done _
    · exact (insists_report _ _).bind fun _ => .done _
  | succ room ih =>
    unfold walkPlanFrom
    split
    · exact .done _
    apply insists_cancelled.bind
    intro flag
    split
    · exact .done _
    dsimp only
    split
    · exact (insists_report _ _).bind fun _ => .done _
    apply Insists.bind (insists_framePlan address)
    intro r
    cases r with
    | error e => exact (insists_report _ _).bind fun _ => .done _
    | ok frame => exact (insists_resolveFramePlan _ _).bind fun _ => ih _ _

theorem insists_walkPlan (thread : ThreadHandle) : (w.walkPlan thread).Insists w :=
  (insists_walkPlanFrom _ _ _ _).bind fun _ => .done _

theorem insists_cframePlan (thread cframe : Address) : (w.cframePlan thread cframe).Insists w := by
  refine Insists.bind (insists_insist rfl) fun r => ?_
  cases r with
  | ok frame => exact .done _
  | error e => exact (insists_report _ _).bind fun _ => .done _

theorem insists_threadFramePlan (thread : Address) (s : Snapshot) :
    (w.threadFramePlan thread s).Insists w := by
  unfold threadFramePlan
  cases w.layout.frameLink with
  | direct =>
    refine Trial.Insists.bind (insists_check rfl) fun frame => ?_
    exact (insists_ofExcept frame).bind fun _ => insists_pure _
  | viaCFrame =>
    refine Trial.Insists.bind (insists_check rfl) fun cframe => ?_
    apply (insists_ofExcept cframe).bind
    intro cframe
    split
    · exact insists_pure _
    · exact Trial.insists_lift (insists_cframePlan _ _)

theorem insists_threadPlan (thread : Address) : (w.threadPlan thread).Insists w := by
  refine Trial.Insists.bind (insists_need rfl) fun s => ?_
  refine Trial.Insists.bind (insists_check rfl) fun next => ?_
  refine Trial.Insists.bind (insists_check rfl) fun threadId => ?_
  apply (insists_ofExcept next).bind
  intro next
  apply (insists_ofExcept threadId).bind
  intro threadId
  exact (insists_threadFramePlan thread s).bind fun _ => insists_pure _

section Lists
variable {σ : Type}

theorem insists_threadsPlanFrom (interpreter : Address)
    (visit : σ → ThreadHandle → ForInStep σ) (room : Nat) (address : Address)
    (visited : List Address) (r : ListWalk σ) :
    (w.threadsPlanFrom interpreter visit room address visited r).Insists w := by
  induction room generalizing address visited r with
  | zero =>
    unfold threadsPlanFrom
    dsimp only
    split
    · exact .done _
    apply insists_cancelled.bind
    intro flag
    split
    · exact .done _
    · exact (insists_report _ _).bind fun _ => .done _
  | succ room ih =>
    unfold threadsPlanFrom
    dsimp only
    split
    · exact .done _
    apply insists_cancelled.bind
    intro flag
    split
    · exact .done _
    split
    · exact (insists_report _ _).bind fun _ => .done _
    apply Insists.bind (insists_threadPlan address)
    intro found
    cases found with
    | error e => exact (insists_report _ _).bind fun _ => .done _
    | ok thread =>
      dsimp only
      split
      · exact .done _
      · exact ih _ _ _

theorem insists_iterateThreadsPlan (interpreter : Address)
    (visit : σ → ThreadHandle → ForInStep σ) (state : σ) :
    (w.iterateThreadsPlan interpreter visit state).Insists w := by
  refine Insists.bind (insists_insist rfl) fun head => ?_
  cases head with
  | error e => exact (insists_report _ _).bind fun _ => .done _
  | ok head => exact insists_threadsPlanFrom _ _ _ _ _ _

theorem insists_interpretersPlanFrom (visit : σ → Address → ForInStep σ) (room : Nat)
    (address : Address) (visited : List Address) (r : ListWalk σ) :
    (w.interpretersPlanFrom visit room address visited r).Insists w := by
  induction room generalizing address visited r with
  | zero =>
    unfold interpretersPlanFrom
    dsimp only
    split
    · exact .done _
    apply insists_cancelled.bind
    intro flag
    split <;> exact .done _
  | succ room ih =>
    unfold interpretersPlanFrom
    dsimp only
    split
    · exact .done _
    apply insists_cancelled.bind
    intro flag
    split
    · exact .done _
    split
    · exact .done _
    split
    · exact .done _
    refine Insists.bind (insists_insist rfl) fun next => ?_
    cases next with
    | error e => exact (insists_report _ _).bind fun _ => .done _
    | ok next => exact ih _ _ _

theorem insists_iterateInterpretersPlan (head : Address) (visit : σ → Address → ForInStep σ)
    (state : σ) : (w.iterateInterpretersPlan head visit state).Insists w :=
  insists_interpretersPlanFrom _ _ _ _ _

end Lists
end Insisting
end Walker
end StackPeek
