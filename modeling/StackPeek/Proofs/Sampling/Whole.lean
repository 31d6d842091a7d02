import StackPeek.Proofs.Image.Threads
import StackPeek.Proofs.Probe.Latch
import StackPeek.Proofs.Thread.Walks
import StackPeek.Sampling.Sampler

/-!
# No thread is lost in silence

A sample carries two marks: that a list of threads was not followed to its end, and that the
session was cancelled. If neither is set and nobody takes the flag back, then the sample is
`Whole`: every list was followed from the pointer that was read to a null pointer, the frame of
every thread could be found, and there is one stack for each thread, in order
(`sample_whole`). Nothing is assumed about the answers of the target.
-/

namespace StackPeek

theorem StillMemory.target_latching (m : StillMemory) : m.target.Latching :=
  ⟨fun _ _ _ h => h, fun _ _ h => h⟩

namespace Sampler
variable {w : Walker}

/-- Threads walked one after the other, each after a look at the flag. -/
inductive WalkedEach (w : Walker) : List ThreadHandle → List Event → List CallStack → Prop where
  | nil : WalkedEach w [] [] []
  | cons {thread : ThreadHandle} {rest : List ThreadHandle} {es₁ es₂ : List Event}
      {stack : CallStack} {more : List CallStack} :
      (w.walk thread).Course es₁ (.ok stack) → WalkedEach w rest es₂ more →
      WalkedEach w (thread :: rest) (.poll false :: (es₁ ++ es₂)) (stack :: more)

/-- Whose stack it is: the interpreter, the thread state and the identifier of the thread. -/
def owner (stack : CallStack) : Address × Address × UInt64 :=
  (stack.interpreterState, stack.threadState, stack.threadId)

/-- In these events all threads of an interpreter were found, and these are their stacks. -/
structure Whole (w : Walker) (interpreter : Address) (items : List (Item ThreadHandle))
    (es : List Event) (results : List CallStack) : Prop where
  distinct : (items.map Item.address).Nodup
  found : ∀ i ∈ items, i.FrameFound w
  owners : results.map owner = items.map fun i => (interpreter, i.address, i.element.threadId)
  sampled : ∃ head es₁ es₂ walked, es = es₁ ++ es₂ ∧
    w.ThreadsRead interpreter (some head) items es₁ ∧ Row (some head) items (some 0) ∧
    WalkedEach w (items.map Item.element) es₂ walked ∧
    results = walked.map fun stack => { stack with interpreterState := interpreter }

/-- The same for several interpreters, one after the other. -/
inductive WholeEach (w : Walker) : List Address → List Event → List CallStack → Prop where
  | nil : WholeEach w [] [] []
  | cons {interpreter : Address} {rest : List Address} {items : List (Item ThreadHandle)}
      {es₁ es₂ : List Event} {results more : List CallStack} :
      Whole w interpreter items es₁ results → WholeEach w rest es₂ more →
      WholeEach w (interpreter :: rest) (.poll false :: (es₁ ++ es₂)) (results ++ more)

theorem owner_of_walk {thread : ThreadHandle} {es : List Event} {stack : CallStack}
    (h : (w.walk thread).Course es (.ok stack)) :
    stack.threadState = thread.address ∧ stack.threadId = thread.threadId := by
  obtain ⟨r, es₁, es₂, -, -, h₂⟩ := h.of_bind
  obtain ⟨-, rfl⟩ := h₂.of_done
  exact ⟨rfl, rfl⟩

theorem WalkedEach.owners {threads : List ThreadHandle} {es : List Event}
    {walked : List CallStack} (h : WalkedEach w threads es walked) (interpreter : Address) :
    (walked.map fun stack => { stack with interpreterState := interpreter }).map owner =
      threads.map fun t => (interpreter, t.address, t.threadId) := by
  induction h with
  | nil => rfl
  | cons hw _ ih =>
    obtain ⟨ha, hi⟩ := owner_of_walk hw
    simp only [List.map_cons, ih]
    simp only [owner, ha, hi]

theorem course_walkInTurn {threads : List ThreadHandle} {walked results : List CallStack}
    {es : List Event} (h : (walkInTurn w threads walked).Course es (.ok results))
    (hcalm : Calm es) : ∃ more, results = walked.reverse ++ more ∧ WalkedEach w threads es more := by
  induction threads generalizing walked es with
  | nil =>
    obtain ⟨rfl, rfl⟩ := h.of_done
    exact ⟨[], (List.append_nil _).symm, .nil⟩
  | cons thread rest ih =>
    unfold walkInTurn at h
    obtain ⟨flag, es₀, rfl, h₀⟩ := Probe.Course.of_cancelled h
    obtain ⟨rfl, hcalm₀⟩ := calm_poll.mp hcalm
    obtain ⟨stack, es₁, es₂, rfl, h₁, h₂⟩ := h₀.of_bind
    obtain ⟨more, rfl, hw⟩ := ih h₂ (calm_append.mp hcalm₀).2
    refine ⟨stack :: more, ?_, .cons h₁ hw⟩
    rw [List.reverse_cons, List.append_assoc]
    rfl

theorem course_walkAll (hserial : w.options.walkThreads ≤ 1) {schedule : Schedule}
    {threads : List ThreadHandle} {results : List CallStack} {es : List Event}
    (h : (walkAll w schedule threads).Course es (.ok results)) (hcalm : Calm es) :
    WalkedEach w threads es results := by
  unfold walkAll at h
  rw [if_neg fun hp => UInt64.not_lt.mpr hserial hp.1] at h
  obtain ⟨more, rfl, hw⟩ := course_walkInTurn h hcalm
  exact hw

theorem course_sampleInterpreter (hserial : w.options.walkThreads ≤ 1) {schedule : Schedule}
    {interpreter : Address} {s s' : Sample} {es : List Event}
    (h : (sampleInterpreter w schedule interpreter s).Course es (.ok s')) (hcalm : Calm es)
    (hwhole : s'.threadsIncomplete = false) :
    s.threadsIncomplete = false ∧ ∃ items results, s'.callStacks = s.callStacks ++ results ∧
      Whole w interpreter items es results := by
  unfold sampleInterpreter at h
  obtain ⟨found, es₁, es₂, rfl, h₁, h₂⟩ := h.of_bind
  obtain ⟨head, items, last, r, hread, -, hr, hs, rfl⟩ := Walker.course_enumerateThreads h₁
  cases hcut : (r.incomplete || r.cycleDetected) with
  | true =>
    -- The sample would be marked.
    simp only [hcut, if_true] at h₂
    obtain ⟨es₃, -, h₃⟩ := h₂.of_report
    obtain ⟨walked, es₄, es₅, -, -, h₅⟩ := h₃.of_bind
    obtain ⟨-, rfl⟩ := h₅.of_done
    rw [Bool.or_true] at hwhole
    cases hwhole
  | false =>
    simp only [hcut, Bool.false_eq_true, if_false] at h₂
    obtain ⟨walked, es₃, es₄, rfl, h₃, h₄⟩ := h₂.of_bind
    obtain ⟨rfl, rfl⟩ := h₄.of_done
    rw [List.append_nil] at hcalm ⊢
    have hw := course_walkAll hserial h₃ (calm_append.mp hcalm).2
    obtain ⟨hi, hc⟩ := Bool.or_eq_false_iff.mp hcut
    obtain rfl := hr.of_end hi hc hs
    obtain ⟨a, rfl⟩ := hr.row.begins
    have hfound : ∀ i ∈ items, i.FrameFound w := fun i hm =>
      (hread.each i hm).frameFound ((hr.sure hi).2 i hm)
    have howners : (walked.map fun stack => { stack with interpreterState := interpreter }).map
        owner = items.map fun i => (interpreter, i.address, i.element.threadId) := by
      rw [hw.owners, List.map_map]
      apply List.map_congr_left
      intro i hm
      simp only [Function.comp_apply, (hread.each i hm).address]
    exact ⟨(Bool.or_eq_false_iff.mp hwhole).1, items, _, rfl, hr.distinct, hfound, howners, a,
      es₁, es₃, walked, rfl, hread, hr.row, hw, rfl⟩

theorem course_sampleEach (hserial : w.options.walkThreads ≤ 1) {schedule : Schedule}
    {interpreters : List Address} {s s' : Sample} {es : List Event}
    (h : (sampleEach w schedule interpreters s).Course es (.ok s')) (hcalm : Calm es)
    (hwhole : s'.threadsIncomplete = false) :
    s.threadsIncomplete = false ∧
      ∃ more, s'.callStacks = s.callStacks ++ more ∧ WholeEach w interpreters es more := by
  induction interpreters generalizing s es with
  | nil =>
    obtain ⟨rfl, rfl⟩ := h.of_done
    exact ⟨hwhole, [], (List.append_nil _).symm, .nil⟩
  | cons interpreter rest ih =>
    unfold sampleEach at h
    obtain ⟨flag, es₀, rfl, h₀⟩ := Probe.Course.of_cancelled h
    obtain ⟨rfl, hcalm₀⟩ := calm_poll.mp hcalm
    obtain ⟨s₁, es₁, es₂, rfl, h₁, h₂⟩ := h₀.of_bind
    obtain ⟨hcalm₁, hcalm₂⟩ := calm_append.mp hcalm₀
    obtain ⟨hs₁, more, hmore, hrest⟩ := ih h₂ hcalm₂
    obtain ⟨hs, items, results, hresults, hone⟩ := course_sampleInterpreter hserial h₁ hcalm₁ hs₁
    refine ⟨hs, results ++ more, ?_, .cons hone hrest⟩
    rw [hmore, hresults, List.append_assoc]

theorem course_conclude {s s' : Sample} {es : List Event}
    (h : (conclude s).Course es (.ok s')) :
    ∃ flag, es = [.poll flag] ∧ s' = { s with cancelled := flag } := by
  obtain ⟨flag, es₀, rfl, h₀⟩ := Probe.Course.of_cancelled h
  obtain ⟨rfl, rfl⟩ := h₀.of_done
  exact ⟨flag, rfl, rfl⟩

theorem course_sample {sampler : Sampler} (hserial : sampler.walker.options.walkThreads ≤ 1)
    {schedule : Schedule} {interpreter : Address} {es : List Event} {s : Sample}
    (h : (sampler.sample schedule interpreter).Course es (.ok s)) (hlatched : Latched es)
    (hwhole : s.threadsIncomplete = false) (hcancel : s.cancelled = false) :
    ∃ items es', es = es' ++ [.poll false] ∧
      Whole sampler.walker interpreter items es' s.callStacks := by
  obtain ⟨s₁, es₁, es₂, rfl, h₁, h₂⟩ := h.of_bind
  obtain ⟨flag, rfl, rfl⟩ := course_conclude h₂
  obtain rfl : flag = false := hcancel
  obtain ⟨-, items, results, hresults, hw⟩ :=
    course_sampleInterpreter hserial h₁ hlatched.calm hwhole
  obtain rfl : s₁.callStacks = results := hresults
  exact ⟨items, es₁, rfl, hw⟩

theorem course_sampleAll {sampler : Sampler} (hserial : sampler.walker.options.walkThreads ≤ 1)
    {schedule : Schedule} {main : Address} {es : List Event} {s : Sample}
    (h : (sampler.sampleAll schedule main).Course es (.ok s)) (hlatched : Latched es)
    (hwhole : s.threadsIncomplete = false) (hcancel : s.cancelled = false) :
    ∃ items es₁ es₂, es = es₁ ++ es₂ ++ [.poll false] ∧
      sampler.walker.InterpretersRead items es₁ ∧ Row (some main) items (some 0) ∧
      (items.map Item.address).Nodup ∧
      WholeEach sampler.walker (items.map Item.address) es₂ s.callStacks := by
  obtain ⟨r, es₁, es₀, rfl, h₁, h₀⟩ := h.of_bind
  obtain ⟨items, last, hread, hr⟩ := Walker.course_iterateInterpreters h₁
  obtain ⟨hs, hl⟩ := hr.collected
  have hitems : items.map Item.element = items.map Item.address :=
    List.map_congr_left fun i hm => (hread.each i hm).address
  rw [hl, hitems] at h₀
  have hlatched₀ : Latched es₀ := (List.pairwise_append.mp hlatched).2.1
  cases hcut : (r.incomplete || r.cycleDetected) with
  | true =>
    -- A mark that the walk over the interpreters has left stays in the sample.
    simp only [hcut, if_true] at h₀
    obtain ⟨es₂, rfl, h₂⟩ := h₀.of_report
    obtain ⟨s₁, es₃, es₄, rfl, h₃, h₄⟩ := h₂.of_bind
    obtain ⟨flag, rfl, rfl⟩ := course_conclude h₄
    obtain rfl : flag = false := hcancel
    have hcalm : Calm es₃ := Latched.calm hlatched₀.of_cons
    cases (course_sampleEach hserial h₃ hcalm hwhole).1
  | false =>
    simp only [hcut, Bool.false_eq_true, if_false] at h₀
    obtain ⟨s₁, es₂, es₃, rfl, h₂, h₃⟩ := h₀.of_bind
    obtain ⟨flag, rfl, rfl⟩ := course_conclude h₃
    obtain rfl : flag = false := hcancel
    obtain ⟨-, more, hmore, heach⟩ := course_sampleEach hserial h₂ hlatched₀.calm hwhole
    obtain rfl : s₁.callStacks = more := hmore
    obtain ⟨hi, hc⟩ := Bool.or_eq_false_iff.mp hcut
    obtain rfl := hr.of_end hi hc hs
    exact ⟨items, es₁, es₂, (List.append_assoc ..).symm, hread, hr.row, hr.distinct, heach⟩

/-- Whatever the target answers and whenever the flag is set for good, a serial sample without
a mark is whole. -/
theorem sample_whole (sampler : Sampler) (hserial : sampler.walker.options.walkThreads ≤ 1) :
    (∀ {schedule : Schedule} {interpreter : Address} {es : List Event} {s : Sample},
      (sampler.sample schedule interpreter).Course es (.ok s) → Latched es →
      s.threadsIncomplete = false → s.cancelled = false →
      ∃ items es', es = es' ++ [.poll false] ∧
        Whole sampler.walker interpreter items es' s.callStacks) ∧
    ∀ {schedule : Schedule} {main : Address} {es : List Event} {s : Sample},
      (sampler.sampleAll schedule main).Course es (.ok s) → Latched es →
      s.threadsIncomplete = false → s.cancelled = false →
      ∃ items es₁ es₂, es = es₁ ++ es₂ ++ [.poll false] ∧
        sampler.walker.InterpretersRead items es₁ ∧ Row (some main) items (some 0) ∧
        (items.map Item.address).Nodup ∧
        WholeEach sampler.walker (items.map Item.address) es₂ s.callStacks := by
  constructor
  · intro schedule interpreter es s h hlatched hwhole hcancel
    exact course_sample hserial h hlatched hwhole hcancel
  · intro schedule main es s h hlatched hwhole hcancel
    exact course_sampleAll hserial h hlatched hwhole hcancel

def pairSampler : Sampler := ⟨⟨.builtin .v33, .standard⟩, rfl⟩

/-- The small interpreter, behind one at 0x700 with a thread whose frame cannot be read. -/
def pairObjects : List (Address × List UInt8) :=
  let l := Layout.builtin .v33
  (0x700, l.emit 24 [(.interpreterNext, 0x1000), (.interpreterThreads, 0x7000)] []) ::
    (0x7000, l.emit 192 [(.threadNext, 0), (.threadId, 13), (.threadFrame, 0x9000)] []) ::
    smallObjects .v33

def pairMemory : StillMemory := (Regions.ofObjects pairObjects).still

def pairStacks : List CallStack :=
  let code := smallCode .v33
  [⟨11, 0x2000, 0x1000, [⟨code.function, code.file, 11, 0, true⟩,
      ⟨code.function, code.file, 10, 1, true⟩], .complete⟩,
    ⟨12, 0x3000, 0x1000, [], .complete⟩]

def wholePair : Sample := ⟨⟨13, 0x7000, 0x700, [], .incomplete⟩ :: pairStacks, false, false⟩

theorem ok_of_toOption {α : Type} {x : Except Fault α} {a : α} (h : x.toOption = some a) :
    x = .ok a := by
  cases x with
  | error f => cases h
  | ok b =>
    cases h
    rfl

theorem run_pair : ((pairSampler.sample [] 0x1000).run pairMemory.target ()).1 =
    .ok ⟨pairStacks, false, false⟩ := by
  rw [pairMemory, Regions.still_ofObjects]
  exact ok_of_toOption (by decide +kernel)

theorem run_wholePair : ((pairSampler.sampleAll [] 0x700).run pairMemory.target ()).1 =
    .ok wholePair := by
  rw [pairMemory, Regions.still_ofObjects]
  exact ok_of_toOption (by decide +kernel)

theorem sample_whole_pair :
    (∃ es items es', (pairSampler.sample [] 0x1000).Course es (.ok ⟨pairStacks, false, false⟩) ∧
      Latched es ∧ es = es' ++ [.poll false] ∧
      Whole pairSampler.walker 0x1000 items es' pairStacks) ∧
    ∃ es items es₁ es₂, (pairSampler.sampleAll [] 0x700).Course es (.ok wholePair) ∧
      Latched es ∧ es = es₁ ++ es₂ ++ [.poll false] ∧
      pairSampler.walker.InterpretersRead items es₁ ∧ Row (some 0x700) items (some 0) ∧
      WholeEach pairSampler.walker (items.map Item.address) es₂ wholePair.callStacks := by
  obtain ⟨hone, hall⟩ := sample_whole pairSampler (by decide)
  constructor
  · obtain ⟨es, h, hlatched, -⟩ := Probe.latched_course_of_run pairMemory.target_latching
      (pairSampler.sample [] 0x1000) ()
    rw [run_pair] at h
    obtain ⟨items, es', hes, hwhole⟩ := hone h hlatched rfl rfl
    exact ⟨es, items, es', h, hlatched, hes, hwhole⟩
  · obtain ⟨es, h, hlatched, -⟩ := Probe.latched_course_of_run pairMemory.target_latching
      (pairSampler.sampleAll [] 0x700) ()
    rw [run_wholePair] at h
    obtain ⟨items, es₁, es₂, hes, hread, hrow, -, heach⟩ := hall h hlatched rfl rfl
    exact ⟨es, items, es₁, es₂, h, hlatched, hes, hread, hrow, heach⟩

end Sampler
end StackPeek
