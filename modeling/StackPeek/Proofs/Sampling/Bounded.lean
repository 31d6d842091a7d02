import StackPeek.Proofs.Image.Sample
import StackPeek.Proofs.Member.Range
import StackPeek.Proofs.Sampling.Faultless
import StackPeek.Proofs.Sampling.Purse
import StackPeek.Proofs.Text.Cost

/-!
# Sampling hostile memory

Whatever a target answers, a sample ends, and the limits of the walker bound what it asks for
(`sample_bounded`). A frame is at most ten requests: the frame, its code object, two names and a
line table. A thread is at most two, and an interpreter one for the head of its thread list and
one for its successor. It makes no difference who walks the stacks and in which order.
-/

namespace StackPeek
open Attempt

/-- The heads and the links of the lists are no strings, so that each of them is one request. -/
def Layout.PlainLinks (l : Layout) : Prop :=
  ∀ f ∈ [Field.interpreterThreads, .interpreterNext, .cframeCurrent],
    ∀ spec, l.spec? f = some spec → spec.rule ≠ .string

theorem Layout.builtin_plainLinks (id : LayoutId) : (Layout.builtin id).PlainLinks := by
  intro f hf spec
  have hlinks : ∀ f ∈ [Field.interpreterThreads, .interpreterNext, .cframeCurrent],
      ∀ spec ∈ (Layout.builtin id).spec? f, spec.rule ≠ .string := by
    cases id <;> decide
  exact hlinks f hf spec

namespace Walker
variable {w : Walker} {polls : Bool}

theorem costs_demanded {α β : Type} (field : Field) (r : Except ReadError α)
    {f : Unit → Attempt β} {n : Nat} (hf : (f ()).Costs polls n) :
    ((liftM (w.demand field r) : Attempt Unit) >>= f).Costs polls n :=
  (costs_lift (spends_demand field r)).bind_free fun _ => hf

section Frame

theorem costs_instructionOffset (s : Snapshot) (code : Address) :
    (w.instructionOffset s code).Costs polls 0 := by
  unfold instructionOffset
  cases w.layout.instruction with
  | lastiBytes => exact costs_demanded _ _ (costs_ofExcept _)
  | lastiCodeUnits =>
    exact costs_demanded _ _ ((costs_ofExcept _).bind_free fun _ => costs_pure _)
  | prevInstrPointer =>
    refine costs_demanded _ _ ((costs_ofExcept _).bind_free fun instruction => ?_)
    split
    · exact costs_lift (P := fun _ => True) .fault
    · exact costs_pure _

theorem costs_readFrame (frame : Address) : (w.readFrame frame).Costs polls 1 := by
  refine (costs_demandRead (costs_readStruct _ _) _).bind (k := 0) fun s => ?_
  refine costs_demanded _ _ (costs_demanded _ _ ?_)
  refine (costs_ofExcept _).bind_free fun back => ?_
  refine (costs_ofExcept _).bind_free fun code => ?_
  exact (costs_instructionOffset s code).bind_free fun offset => costs_pure _

theorem costs_readCode (code : Address) : (w.readCode code).Costs polls 1 := by
  refine (costs_demandRead (costs_readStruct _ _) _).bind (k := 0) fun s => ?_
  refine costs_demanded _ _ (costs_demanded _ _ (costs_demanded _ _ (costs_demanded _ _ ?_)))
  split
  · split
    · exact costs_pure _
    · exact costs_throw _
  · exact costs_throw _

theorem spends_resolveName (address : Address) :
    (w.resolveName address).Spends polls (fun _ _ => True) 3 := by
  refine Probe.Spends.bind (k := 0) (costs_decodeText address) fun r _ => ?_
  cases r <;> exact .done trivial

theorem spends_lineAt (t : LineTable) (offset : Int64) :
    (t.lineAt offset).Spends polls (fun _ _ => True) 0 := by
  unfold LineTable.lineAt
  split
  · exact .done trivial
  · exact (Probe.spends_report _ _).bind_free fun _ _ => .done trivial

theorem spends_resolveLine (code : CodeHandle) (offset : Int64) :
    (w.resolveLine code offset).Spends polls (fun _ _ => True) 2 := by
  unfold resolveLine
  split
  · exact .done trivial
  refine Probe.Spends.bind (k := 0) (costs_decodeBytes _ _) fun r _ => ?_
  cases r with
  | error e => exact (Probe.spends_report _ _).bind_free fun _ _ => .done trivial
  | ok data => exact (spends_lineAt _ _).bind_free fun _ _ => .done trivial

theorem spends_locate (code : CodeHandle) (offset : Int64) :
    (w.locate code offset).Spends polls (fun _ _ => True) 8 := by
  refine (spends_resolveName _).bind (k := 5) fun function _ => ?_
  refine (spends_resolveName _).bind (k := 2) fun file _ => ?_
  exact (spends_resolveLine _ _).bind (k := 0) fun line _ => .done trivial

theorem spends_resolveFrame (frame : FrameHandle) (depth : Nat) :
    (w.resolveFrame frame depth).Spends polls (fun _ _ => True) 9 := by
  have hr : (w.resolve frame.code frame.instructionOffset).Costs polls 9 :=
    (costs_readCode _).bind (k := 8) fun code => costs_lift (spends_locate code _)
  refine Probe.Spends.bind (k := 0) hr fun r _ => ?_
  cases r <;> exact .done trivial

/-- One step of a walk is at most ten requests, and the room bounds the steps. -/
theorem spends_walkFrom (threadId : UInt64) (room : Nat) (address : Address) (t : Trail) :
    (w.walkFrom threadId room address t).Spends true (fun _ _ => True) (10 * room) := by
  induction room generalizing address t with
  | zero =>
    unfold walkFrom
    split
    · exact .done trivial
    refine Probe.spends_cancelled.bind_free fun flag _ => ?_
    split
    · exact .done trivial
    · exact (Probe.spends_report _ _).bind_free fun _ _ => .done trivial
  | succ room ih =>
    unfold walkFrom
    split
    · exact .done trivial
    refine Probe.spends_cancelled.bind_free fun flag _ => ?_
    split
    · exact .done trivial
    simp only
    split
    · exact (Probe.spends_report _ _).bind_free fun _ _ => .done trivial
    -- One request for the frame, nine for where it stands, and ten for each frame to come.
    have hstep : 1 + (9 + 10 * room) = 10 * (room + 1) := by omega
    rw [← hstep]
    refine Probe.Spends.bind (costs_readFrame address) fun r _ => ?_
    cases r with
    | error e => exact (Probe.spends_report _ _).bind_free fun _ _ => .done trivial
    | ok frame => exact (spends_resolveFrame frame _).bind fun _ _ => ih _ _

theorem spends_walk (thread : ThreadHandle) :
    (w.walk thread).Spends true (fun _ _ => True) (10 * w.options.maxStackDepth.toNat) :=
  (spends_walkFrom _ _ _ _).bind (k := 0) fun _ _ => .done trivial

end Frame

section Lists
variable (hl : w.layout.PlainLinks)
include hl

theorem costs_readLink {field : Field}
    (hf : field ∈ [Field.interpreterThreads, .interpreterNext, .cframeCurrent]) (base : Address) :
    (w.demandRead field (w.readUnsigned base field)).Costs polls 1 :=
  costs_demandRead (costs_readUnsigned (n := 0) (fun spec hs hr => absurd hr (hl field hf spec hs))
    base) field

theorem costs_threadFrame (thread : Address) (s : Snapshot) :
    (w.threadFrame thread s).Costs polls 1 := by
  unfold threadFrame
  cases w.layout.frameLink with
  | direct =>
    refine costs_demanded _ _ ?_
    exact (costs_ofExcept _).bind_free fun frame => costs_pure _
  | viaCFrame =>
    refine costs_demanded _ _ ((costs_ofExcept _).bind_free fun cframe => ?_)
    split
    · exact costs_pure _
    have hframe : (w.cframeFrame thread cframe).Spends polls (fun _ _ => True) 1 := by
      refine Probe.Spends.bind (k := 0) (costs_readLink hl (by simp) cframe) fun r _ => ?_
      cases r with
      | error e => exact (Probe.spends_report _ _).bind_free fun _ _ => .done trivial
      | ok frame => exact .done trivial
    exact costs_lift hframe

theorem costs_readThread (thread : Address) : (w.readThread thread).Costs polls 2 := by
  refine (costs_demandRead (costs_readStruct _ _) _).bind (k := 1) fun s => ?_
  refine costs_demanded _ _ (costs_demanded _ _ ?_)
  refine (costs_ofExcept _).bind_free fun next => ?_
  refine (costs_ofExcept _).bind_free fun threadId => ?_
  exact (costs_threadFrame hl thread s).bind (k := 0) fun link => costs_pure _

theorem spends_threadsFrom (interpreter : Address) (room : Nat) (address : Address)
    (visited : List Address) (r : ListWalk (List ThreadHandle)) :
    (w.threadsFrom interpreter (fun seen t => .yield (t :: seen)) room address visited r).Spends
      true (fun _ r' => r'.state.length ≤ r.state.length + room) (2 * room) := by
  induction room generalizing address visited r with
  | zero =>
    unfold threadsFrom
    simp only
    split
    · exact .done (Nat.le_refl _)
    refine Probe.spends_cancelled.bind_free fun flag _ => ?_
    split
    · exact .done (Nat.le_refl _)
    · exact (Probe.spends_report _ _).bind_free fun _ _ => .done (Nat.le_refl _)
  | succ room ih =>
    unfold threadsFrom
    simp only
    split
    · exact .done (Nat.le_add_right _ _)
    refine Probe.spends_cancelled.bind_free fun flag _ => ?_
    split
    · exact .done (Nat.le_add_right _ _)
    split
    · exact (Probe.spends_report _ _).bind_free fun _ _ => .done (Nat.le_add_right _ _)
    have hstep : 2 + 2 * room = 2 * (room + 1) := by omega
    rw [← hstep]
    refine Probe.Spends.bind (costs_readThread hl address) fun found _ => ?_
    cases found with
    | error e =>
      exact (Probe.spends_report _ _).bind_free fun _ _ => .done (Nat.le_add_right _ _)
    | ok thread =>
      refine (ih _ _ _).weaken fun _ r' hr' => ?_
      simp only [List.length_cons] at hr'
      omega

theorem spends_enumerateThreads (interpreter : Address) :
    (w.enumerateThreads interpreter).Spends true
      (fun _ found => found.threads.length ≤ w.options.maxThreads.toNat)
      (1 + 2 * w.options.maxThreads.toNat) := by
  have hwalk : (w.iterateThreads interpreter (fun seen t => .yield (t :: seen)) []).Spends true
      (fun _ r => r.state.length ≤ w.options.maxThreads.toNat)
      (1 + 2 * w.options.maxThreads.toNat) := by
    refine Probe.Spends.bind (costs_readLink hl (by simp) interpreter) fun head _ => ?_
    cases head with
    | error e => exact (Probe.spends_report _ _).bind_free fun _ _ => .done (Nat.zero_le _)
    | ok head =>
      refine (spends_threadsFrom hl _ _ _ _ _).weaken fun _ r hr => ?_
      have h0 : (ListWalk.start ([] : List ThreadHandle)).state.length = 0 := rfl
      omega
  refine hwalk.bind (k := 0) fun r hr => .done ?_
  rwa [List.length_reverse]

theorem spends_interpretersFrom (room : Nat) (address : Address) (visited : List Address)
    (r : ListWalk (List Address)) :
    (w.interpretersFrom (fun seen i => .yield (i :: seen)) room address visited r).Spends true
      (fun _ r' => r'.state.length ≤ r.state.length + room) room := by
  induction room generalizing address visited r with
  | zero =>
    unfold interpretersFrom
    simp only
    split
    · exact .done (Nat.le_refl _)
    refine Probe.spends_cancelled.bind_free fun flag _ => ?_
    split
    · exact .done (Nat.le_refl _)
    · exact .done (Nat.le_refl _)
  | succ room ih =>
    unfold interpretersFrom
    simp only
    split
    · exact .done (Nat.le_add_right _ _)
    refine Probe.spends_cancelled.bind_free fun flag _ => ?_
    split
    · exact .done (Nat.le_add_right _ _)
    split
    · exact .done (Nat.le_add_right _ _)
    rw [Nat.add_comm room 1]
    refine Probe.Spends.bind (costs_readLink hl (by simp) address) fun next _ => ?_
    cases next with
    | error e =>
      refine (Probe.spends_report _ _).bind_free fun _ _ => .done ?_
      simp only [List.length_cons]
      omega
    | ok next =>
      refine (ih _ _ _).weaken fun _ r' hr' => ?_
      simp only [List.length_cons] at hr'
      omega

end Lists
end Walker

/-- The requests that a sample of one interpreter may take: the head of the thread list, two for
each thread and ten for each frame. -/
def Options.requests (o : Options) : Nat :=
  1 + 2 * o.maxThreads.toNat + 10 * o.maxThreads.toNat * o.maxStackDepth.toNat

namespace Sampler
variable {w : Walker}

theorem spends_walkInTurn (threads : List ThreadHandle) (walked : List CallStack) :
    (walkInTurn w threads walked).Spends true (fun _ _ => True)
      (threads.length * (10 * w.options.maxStackDepth.toNat)) := by
  induction threads generalizing walked with
  | nil => exact .done trivial
  | cons thread rest ih =>
    unfold walkInTurn
    refine Probe.spends_cancelled.bind_free fun flag _ => ?_
    split
    · exact .done trivial
    rw [List.length_cons, Nat.succ_mul, Nat.add_comm]
    exact (Walker.spends_walk thread).bind fun stack _ => ih _

theorem spends_walkAll (schedule : Schedule) (threads : List ThreadHandle) :
    (walkAll w schedule threads).Spends true (fun _ _ => True)
      (threads.length * (10 * w.options.maxStackDepth.toNat)) := by
  unfold walkAll
  split
  · have htasks : ∀ task ∈ threads.map w.walk, task.Spends true (fun _ _ => True)
        (10 * w.options.maxStackDepth.toNat) := by
      intro task hm
      obtain ⟨thread, -, rfl⟩ := List.mem_map.mp hm
      exact Walker.spends_walk thread
    rw [Nat.mul_comm, ← List.length_map w.walk]
    exact Pool.spends_run htasks _ schedule
  · exact spends_walkInTurn _ _

section
variable (hl : w.layout.PlainLinks)
include hl

theorem spends_sampleInterpreter (schedule : Schedule) (interpreter : Address) (s : Sample) :
    (sampleInterpreter w schedule interpreter s).Spends true (fun _ _ => True)
      w.options.requests := by
  refine (Walker.spends_enumerateThreads hl interpreter).bind fun found hfound => ?_
  -- Both ways on walk the threads that were found, of which there are not too many.
  have hrest : ∀ f : List CallStack → Sample,
      ((walkAll w schedule found.threads).bind fun walked => .done (f walked)).Spends true
        (fun _ _ => True) (10 * w.options.maxThreads.toNat * w.options.maxStackDepth.toNat) := by
    intro f
    have hcost : found.threads.length * (10 * w.options.maxStackDepth.toNat) ≤
        10 * w.options.maxThreads.toNat * w.options.maxStackDepth.toNat := by
      rw [Nat.mul_comm 10 w.options.maxThreads.toNat, Nat.mul_assoc]
      exact Nat.mul_le_mul_right _ hfound
    exact ((spends_walkAll schedule _).bind (k := 0) fun _ _ => .done trivial).mono hcost
  simp only
  split
  · exact (Probe.spends_report _ _).bind_free fun _ _ => hrest _
  · exact hrest _

theorem spends_sampleEach (schedule : Schedule) (interpreters : List Address) (s : Sample) :
    (sampleEach w schedule interpreters s).Spends true (fun _ _ => True)
      (interpreters.length * w.options.requests) := by
  induction interpreters generalizing s with
  | nil => exact .done trivial
  | cons interpreter rest ih =>
    unfold sampleEach
    refine Probe.spends_cancelled.bind_free fun flag _ => ?_
    split
    · exact .done trivial
    rw [List.length_cons, Nat.succ_mul, Nat.add_comm]
    exact (spends_sampleInterpreter hl schedule interpreter s).bind fun s' _ => ih s'

end

theorem spends_conclude (s : Sample) : (conclude s).Spends true (fun _ _ => True) 0 :=
  Probe.spends_cancelled.bind_free fun _ _ => .done trivial

theorem spends_sample {sampler : Sampler} (hl : sampler.walker.layout.PlainLinks)
    (schedule : Schedule) (interpreter : Address) :
    (sampler.sample schedule interpreter).Spends true (fun _ _ => True)
      sampler.walker.options.requests :=
  (spends_sampleInterpreter hl schedule interpreter _).bind (k := 0) fun s _ =>
    spends_conclude s

theorem spends_sampleAll {sampler : Sampler} (hl : sampler.walker.layout.PlainLinks)
    (schedule : Schedule) (main : Address) :
    (sampler.sampleAll schedule main).Spends true (fun _ _ => True)
      (sampler.walker.options.maxThreads.toNat +
        sampler.walker.options.maxThreads.toNat * sampler.walker.options.requests) := by
  refine Probe.Spends.bind (Walker.spends_interpretersFrom hl _ _ _ _) fun r hr => ?_
  have hlen : r.state.reverse.length ≤ sampler.walker.options.maxThreads.toNat := by
    have h0 : (ListWalk.start ([] : List Address)).state.length = 0 := rfl
    rw [List.length_reverse]
    omega
  have hrest := fun s => ((spends_sampleEach hl schedule r.state.reverse s).bind (k := 0)
    fun s' _ => spends_conclude s').mono (Nat.mul_le_mul_right _ hlen)
  simp only
  split
  · exact (Probe.spends_report _ _).bind_free fun _ _ => hrest _
  · exact hrest _

/-- A sample ends, whatever the target answers, and the limits of the walker bound what it asks
for. All that it asks for is askable. -/
theorem sample_bounded (sampler : Sampler) (id : LayoutId)
    (hid : sampler.walker.layout = .builtin id) {σ : Type} (t : Target σ) (schedule : Schedule)
    (interpreter : Address) (s : σ) :
    let maxThreads := sampler.walker.options.maxThreads.toNat
    let maxDepth := sampler.walker.options.maxStackDepth.toNat
    let one := sampler.sample schedule interpreter
    let all := sampler.sampleAll schedule interpreter
    ((∃ taken, (one.run t s).1 = .ok taken) ∧
      (one.requests t s).length ≤ 1 + 2 * maxThreads + 10 * maxThreads * maxDepth ∧
      ∀ q ∈ one.requests t s, Memory.Askable q.1 q.2) ∧
    (∃ taken, (all.run t s).1 = .ok taken) ∧
      (all.requests t s).length ≤
        maxThreads + maxThreads * (1 + 2 * maxThreads + 10 * maxThreads * maxDepth) ∧
      ∀ q ∈ all.requests t s, Memory.Askable q.1 q.2 := by
  have hlinks : sampler.walker.layout.PlainLinks := by
    rw [hid]
    exact Layout.builtin_plainLinks id
  have hprovides : sampler.walker.layout.Provides := by
    refine Layout.provides_of_placed sampler.valid ?_
    rw [hid]
    cases id <;> decide
  intro maxThreads maxDepth one all
  obtain ⟨taken, hone, -⟩ := (ensures_sample hprovides schedule interpreter).run t s
  obtain ⟨takenAll, hall, -⟩ := (ensures_sampleAll hprovides schedule interpreter).run t s
  exact ⟨⟨⟨taken, hone⟩, (spends_sample hlinks schedule interpreter).requests t s⟩,
    ⟨takenAll, hall⟩, (spends_sampleAll hlinks schedule interpreter).requests t s⟩

/-- With room for two threads of two frames, against memory full of zeros. -/
theorem sample_bounded_small :
    (smallSampler .v311).walker.layout = .builtin .v311 ∧
      (((smallSampler .v311).sample [] 0x1000).requests StillMemory.zeros.target ()).length ≤ 45 ∧
      (((smallSampler .v311).sampleAll [] 0x1000).requests StillMemory.zeros.target ()).length ≤
        92 := by
  obtain ⟨⟨-, hone, -⟩, -, hall, -⟩ := sample_bounded (smallSampler .v311) .v311 rfl
    StillMemory.zeros.target [] 0x1000 ()
  exact ⟨rfl, hone, hall⟩

end Sampler
end StackPeek
