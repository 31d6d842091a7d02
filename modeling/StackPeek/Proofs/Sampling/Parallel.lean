import StackPeek.Proofs.Sampling.Finish
import StackPeek.Proofs.Stack.Status
import StackPeek.Proofs.Stack.Supported
import StackPeek.Sampling.Sampler

/-!
# Parallel and serial sampling

In memory at rest a pool of workers gives the same stacks in the same order as one worker,
however the steps of the workers interleave.
-/

namespace StackPeek

namespace Walker
variable {w : Walker} {m : StillMemory}

def withThreads (w : Walker) (n : UInt64) : Walker :=
  { w with options := { w.options with walkThreads := n } }

theorem walkFrom_withThreads (n threadId : UInt64) (room : Nat) (address : Address) (t : Trail) :
    (w.withThreads n).walkFrom threadId room address t = w.walkFrom threadId room address t := by
  induction room generalizing address t with
  | zero =>
    unfold walkFrom
    rfl
  | succ room ih =>
    unfold walkFrom
    simp only [ih]
    rfl

theorem walk_withThreads (n : UInt64) (thread : ThreadHandle) :
    (w.withThreads n).walk thread = w.walk thread := by
  unfold walk
  rw [walkFrom_withThreads]
  rfl

theorem threadsFrom_withThreads {σ : Type} (n : UInt64) (interpreter : Address)
    (visit : σ → ThreadHandle → ForInStep σ) (room : Nat) (address : Address)
    (visited : List Address) (r : ListWalk σ) :
    (w.withThreads n).threadsFrom interpreter visit room address visited r =
      w.threadsFrom interpreter visit room address visited r := by
  induction room generalizing address visited r with
  | zero =>
    unfold threadsFrom
    rfl
  | succ room ih =>
    unfold threadsFrom
    simp only [ih]
    rfl

theorem enumerateThreads_withThreads (n : UInt64) (interpreter : Address) :
    (w.withThreads n).enumerateThreads interpreter = w.enumerateThreads interpreter := by
  unfold enumerateThreads iterateThreads
  simp only [threadsFrom_withThreads]
  rfl

/-- The stack that a walk in memory at rest gives; any stack if it ends in a fault. -/
def stackOf (w : Walker) (m : StillMemory) (thread : ThreadHandle) : CallStack :=
  ((w.walk thread).outcome m).toOption.getD default

end Walker

namespace Sampler
variable {w : Walker} {m : StillMemory}

def serial (sampler : Sampler) : Sampler := ⟨sampler.walker.withThreads 1, sampler.valid⟩

section Walk
variable {threads : List ThreadHandle} {results : List CallStack}
  (hok : (threads.map w.walk).map (Probe.outcome m) = results.map .ok)

include hok

theorem outcome_walkInTurn (walked : List CallStack) :
    (walkInTurn w threads walked).outcome m = .ok (walked.reverse ++ results) := by
  induction threads generalizing results walked with
  | nil =>
    obtain rfl : results = [] := by simpa using hok.symm
    rw [List.append_nil]
    rfl
  | cons thread rest ih =>
    cases results with
    | nil => cases hok
    | cons stack results =>
      simp only [List.map_cons, List.cons.injEq] at hok
      unfold walkInTurn
      rw [Probe.bind_eq, Probe.outcome_bind_ok Probe.outcome_cancelled]
      simp only [Bool.false_eq_true, if_false, Probe.bind_eq]
      rw [Probe.outcome_bind_ok hok.1, ih hok.2, List.reverse_cons, List.append_assoc]
      rfl

omit hok in
theorem workers_pos (h : 0 < w.options.walkThreads) :
    0 < min w.options.walkThreads.toNat threads.length ∨ threads.map w.walk = [] := by
  cases threads with
  | nil => exact .inr rfl
  | cons thread rest =>
    have h : 0 < w.options.walkThreads.toNat := h
    simp only [List.length_cons]
    omega

theorem outcome_walkInParallel (h : 0 < w.options.walkThreads) (schedule : Schedule) :
    (walkInParallel w schedule threads).outcome m = .ok results := by
  obtain ⟨_, _, _, -, -, hr⟩ := Pool.run_results hok (workers_pos h) schedule
  exact hr

theorem outcome_walkAll (schedule : Schedule) :
    (walkAll w schedule threads).outcome m = .ok results := by
  unfold walkAll
  split
  · rename_i h
    exact outcome_walkInParallel hok (UInt64.lt_trans (by decide) h.1) schedule
  · exact outcome_walkInTurn hok []

end Walk

theorem outcomes_walk (hw : ∀ thread, (w.walk thread).outcome m = .ok (w.stackOf m thread))
    (threads : List ThreadHandle) :
    (threads.map w.walk).map (Probe.outcome m) = (threads.map (w.stackOf m)).map .ok := by
  rw [List.map_map, List.map_map]
  exact List.map_congr_left fun thread _ => hw thread

theorem outcome_sampleInterpreter (schedule : Schedule) (interpreter : Address) (s : Sample) :
    (sampleInterpreter w schedule interpreter s).outcome m =
      ((w.enumerateThreads interpreter).outcome m).bind fun found =>
        ((walkAll w schedule found.threads).outcome m).bind fun walked =>
          .ok { s with
            callStacks := s.callStacks ++
              walked.map fun stack => { stack with interpreterState := interpreter }
            threadsIncomplete :=
              s.threadsIncomplete || (found.incomplete || found.cycleDetected) } := by
  unfold sampleInterpreter
  rw [Probe.bind_eq, Probe.outcome_bind]
  refine congrArg (Except.bind _) (funext fun found => ?_)
  simp only [← Probe.outcome_done (m := m), ← Probe.outcome_bind]
  cases found.incomplete || found.cycleDetected <;> rfl

/-- The number of workers and their schedule leave no trace in a sample. -/
theorem outcome_sampleInterpreter_withThreads
    (hw : ∀ thread, (w.walk thread).outcome m = .ok (w.stackOf m thread))
    (n : UInt64) (schedule schedule' : Schedule) (interpreter : Address) (s : Sample) :
    (sampleInterpreter w schedule interpreter s).outcome m =
      (sampleInterpreter (w.withThreads n) schedule' interpreter s).outcome m := by
  have hstack : (w.withThreads n).stackOf m = w.stackOf m := by
    funext thread
    unfold Walker.stackOf
    rw [Walker.walk_withThreads]
  have hw' : ∀ thread, ((w.withThreads n).walk thread).outcome m =
      .ok ((w.withThreads n).stackOf m thread) := by
    intro thread
    rw [Walker.walk_withThreads, hstack, hw]
  rw [outcome_sampleInterpreter, outcome_sampleInterpreter, Walker.enumerateThreads_withThreads]
  refine congrArg (Except.bind _) (funext fun found => ?_)
  rw [outcome_walkAll (outcomes_walk hw _), outcome_walkAll (outcomes_walk hw' _), hstack]

theorem outcome_sample (sampler : Sampler)
    (hw : ∀ thread, (sampler.walker.walk thread).outcome m = .ok (sampler.walker.stackOf m thread))
    (schedule schedule' : Schedule) (interpreter : Address) :
    (sampler.sample schedule interpreter).outcome m =
      (sampler.serial.sample schedule' interpreter).outcome m := by
  unfold sample
  rw [Probe.bind_eq, Probe.bind_eq, Probe.outcome_bind, Probe.outcome_bind,
    outcome_sampleInterpreter_withThreads hw 1 schedule schedule']
  rfl

end Sampler

/-- What the deeds of workers that share tasks come to, up to some moment. -/
structure Pool.Shared {α : Type} (m : StillMemory) (tasks : List (Probe α)) (ds : List Deed)
    (p : Pool α) : Prop where
  /-- At most one worker has had to do with an index, and it does every deed once. -/
  alone : ∀ k < tasks.length, ∃ i, List.IsPrefix (story k ds) (storedBy i k)
  /-- Only a worker that fetched an index writes its slot. -/
  owner : ∀ (i k : Nat) (q : Pool α), (p.step tasks i).outcome m = .ok q →
    q.slots[k]? ≠ p.slots[k]? → (⟨i, .fetch, k⟩ : Deed) ∈ ds

namespace Pool
variable {α : Type} {m : StillMemory} {tasks : List (Probe α)} {results : List α}
  {ds : List Deed} {p : Pool α}

theorem Orderly.shared (ho : Orderly m tasks results ds p) : Shared m tasks ds p where
  alone _ hk := ho.story_prefix hk
  owner i k q hq hs := by
    obtain ⟨q', h', hstep⟩ := step_stepped m tasks p i
    cases h'.symm.trans hq
    exact ho.fetched_of_slot_ne hstep hs

end Pool

namespace Sampler
variable {m : StillMemory} {σ : Type}

/-- A schedule takes the workers in front of some threads to the pool `p`, with deeds `ds`. -/
def Interleaves (w : Walker) (m : StillMemory) (threads : List ThreadHandle) (schedule : Schedule)
    (ds : List Deed) (p : Pool CallStack) : Prop :=
  Pool.Steps m (threads.map w.walk)
    (.start (min w.options.walkThreads.toNat threads.length) threads.length) schedule ds p

section Interleaved
variable {w : Walker} {threads : List ThreadHandle} {results : List CallStack}
  {schedule : Schedule} {ds : List Deed} {p : Pool CallStack}
  (hok : (threads.map w.walk).map (Probe.outcome m) = results.map .ok)

include hok

theorem Interleaves.orderly (h : Interleaves w m threads schedule ds p) :
    Pool.Orderly m (threads.map w.walk) results ds p := by
  have ho : Pool.Orderly m (threads.map w.walk) results []
      (.start (min w.options.walkThreads.toNat threads.length) (threads.map w.walk).length) :=
    Pool.Orderly.init _
  rw [List.length_map] at ho
  exact ho.steps hok h

theorem Interleaves.complete (h : Interleaves w m threads schedule ds p)
    (hpos : 0 < w.options.walkThreads) (hc : p.Complete) :
    (∀ k < threads.length, ∃ i, story k ds = Pool.storedBy i k) ∧ p.slots = results.map some := by
  have ho := h.orderly hok
  have hlen : p.workers.length = min w.options.walkThreads.toNat threads.length := by
    rw [Pool.Steps.length_workers h]
    exact List.length_replicate
  constructor
  · intro k hk
    have hpos : 0 < w.options.walkThreads.toNat := hpos
    obtain ⟨i, a, hs, -⟩ := ho.settled_of_complete hc (by omega) (by rwa [List.length_map])
    exact ⟨i, hs⟩
  · refine ho.slots_of_complete hok hc ?_
    rw [hlen]
    exact workers_pos hpos

theorem exists_complete (hpos : 0 < w.options.walkThreads) (schedule : Schedule) :
    ∃ rest ds p, Interleaves w m threads (schedule ++ rest) ds p ∧ p.Complete := by
  obtain ⟨rest, ds, p, hs, hc, -⟩ := Pool.run_results hok (workers_pos hpos) schedule
  rw [List.length_map] at hs
  exact ⟨rest, ds, p, hs, hc⟩

end Interleaved

/-- However the steps of the workers interleave, every thread is walked once, by the worker
that fetched it, and as long as there is a worker the stacks come in the order of the threads.
So every sample is the one that a serial sampler takes. -/
theorem parallel_eq_serial {t : Target σ} (hq : t.AtRest m) (sampler : Sampler)
    (hn : ∀ thread s f, ((sampler.walker.walk thread).run t s).1 ≠ .error f)
    (threads : List ThreadHandle) (s : σ) :
    ∃ results : List CallStack,
      threads.map (fun thread => ((sampler.walker.walk thread).run t s).1) = results.map .ok ∧
      (∀ schedule ds p, Interleaves sampler.walker m threads schedule ds p →
        Pool.Shared m (threads.map sampler.walker.walk) ds p ∧
        (0 < sampler.walker.options.walkThreads → p.Complete →
          (∀ k < threads.length, ∃ i, story k ds = Pool.storedBy i k) ∧
          p.slots = results.map some)) ∧
      (0 < sampler.walker.options.walkThreads → ∀ schedule,
        (∃ rest ds p,
          Interleaves sampler.walker m threads (schedule ++ rest) ds p ∧ p.Complete) ∧
        ((walkInParallel sampler.walker schedule threads).run t s).1 = .ok results) ∧
      ∀ schedule schedule' interpreter,
        ((sampler.sample schedule interpreter).run t s).1 =
          ((sampler.serial.sample schedule' interpreter).run t s).1 := by
  have hw : ∀ thread, (sampler.walker.walk thread).outcome m =
      .ok (sampler.walker.stackOf m thread) := by
    intro thread
    have h := hn thread s
    rw [Probe.run_atRest hq] at h
    unfold Walker.stackOf
    cases ho : (sampler.walker.walk thread).outcome m with
    | error f => exact absurd ho (h f)
    | ok stack => rfl
  have hok := outcomes_walk hw threads
  refine ⟨threads.map (sampler.walker.stackOf m), ?_, ?_, ?_, ?_⟩
  · rw [List.map_map]
    exact List.map_congr_left fun thread _ => (Probe.run_atRest hq _ s).trans (hw thread)
  · intro schedule ds p h
    exact ⟨(h.orderly hok).shared, h.complete hok⟩
  · intro hpos schedule
    refine ⟨exists_complete hok hpos schedule, ?_⟩
    rw [Probe.run_atRest hq]
    exact outcome_walkInParallel hok hpos schedule
  · intro schedule schedule' interpreter
    rw [Probe.run_atRest hq, Probe.run_atRest hq]
    exact outcome_sample sampler hw schedule schedule' interpreter

def pair : Sampler :=
  ⟨⟨.builtin .v310, { Options.standard with maxStackDepth := 3, walkThreads := 2 }⟩, rfl⟩

/-- Another thread of the small interpreter, that runs its outer frame only. -/
def outerThread : ThreadHandle := ⟨0x3000, 0, 0x4100, 12, false⟩

def outerStack : CallStack :=
  let code := smallCode .v310
  ⟨12, 0x3000, 0, [⟨code.function, code.file, 10, 0, true⟩], .complete⟩

theorem run_outer :
    ((pair.walker.walk outerThread).run (smallMemory .v310).still.target ()).1 =
      .ok outerStack := by
  have hwithin : ThreadImage.Within ⟨0x3000, 12, (smallFrames .v310).tail⟩ pair.walker.options := by
    refine ⟨by decide, by decide, fun f hf => ?_⟩
    obtain rfl := List.mem_singleton.mp hf
    exact smallCode_within .v310 (by decide)
  have hwalk : (pair.walker.walk outerThread).outcome (smallMemory .v310).still =
      .ok (ThreadImage.stack ⟨0x3000, 12, (smallFrames .v310).tail⟩
        pair.walker.layout.lineTable) :=
    Walker.outcome_walk (Layout.builtin_usual .v310) (smallMemory_frames .v310).2 hwithin 0
  rw [Probe.run_atRest (StillMemory.target_atRest _), hwalk]
  rfl

theorem parallel_eq_serial_small :
    (∀ thread s f,
      ((pair.walker.walk thread).run (smallMemory .v310).still.target s).1 ≠ .error f) ∧
      ∀ schedule,
        ((walkInParallel pair.walker schedule [Walker.smallThread, outerThread]).run
          (smallMemory .v310).still.target ()).1 = .ok [Walker.smallStack, outerStack] := by
  have hn : ∀ thread s f,
      ((pair.walker.walk thread).run (smallMemory .v310).still.target s).1 ≠ .error f := by
    intro thread s f h
    obtain ⟨stack, hs, -⟩ := (Walker.walk_ensures (w := pair.walker)
      (Layout.builtin_supports .v310) thread).run (smallMemory .v310).still.target s
    rw [hs] at h
    cases h
  refine ⟨hn, fun schedule => ?_⟩
  obtain ⟨results, hs, -, hp, -⟩ := parallel_eq_serial (StillMemory.target_atRest _) pair hn
    [Walker.smallThread, outerThread] ()
  rw [(hp (by decide) schedule).2]
  have hsmall : ((pair.walker.walk Walker.smallThread).run
      (smallMemory .v310).still.target ()).1 = .ok Walker.smallStack := by
    rw [Probe.run_atRest (StillMemory.target_atRest _)]
    exact Walker.outcome_walk_small rfl (by decide) (by decide)
  rw [List.map_cons, List.map_cons, List.map_nil, hsmall, run_outer] at hs
  match results, hs with
  | [_, _], rfl => rfl

end Sampler
end StackPeek
