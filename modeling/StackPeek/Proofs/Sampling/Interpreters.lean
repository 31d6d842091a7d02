import Mathlib.Tactic.Choose
import StackPeek.Proofs.Sampling.Faultless
import StackPeek.Proofs.Sampling.Whole

/-!
# One sample of all interpreters

In memory at rest, sampling all interpreters of a process gives what sampling them one by one
gives, in the order in which they are linked (`sampleAll_joined`). The marks of the parts are
marks of the whole, and so is a list of interpreters that was not followed to its end.
-/

namespace StackPeek.Sampler
variable {w : Walker} {m : StillMemory} {schedule : Schedule}

/-- What a sample has after another one was taken into it: a mark that is set stays set. -/
def join (s x : Sample) : Sample :=
  { s with
    callStacks := s.callStacks ++ x.callStacks
    threadsIncomplete := s.threadsIncomplete || x.threadsIncomplete }

def together (one : Address → Sample) (interpreters : List Address) : Sample where
  callStacks := interpreters.flatMap fun i => (one i).callStacks
  threadsIncomplete := interpreters.any fun i => (one i).threadsIncomplete
  cancelled := false

theorem join_assoc (s x y : Sample) : join (join s x) y = join s (join x y) := by
  simp only [join, List.append_assoc, Bool.or_assoc]

theorem together_cons (one : Address → Sample) (i : Address) (rest : List Address)
    (hi : (one i).cancelled = false) :
    together one (i :: rest) = join (one i) (together one rest) := by
  simp only [together, join, List.flatMap_cons, List.any_cons, hi]

theorem sampleInterpreter_eq (interpreter : Address) (s : Sample) :
    sampleInterpreter w schedule interpreter s =
      (sampleInterpreter w schedule interpreter default).bind fun x => .done (join s x) := by
  unfold sampleInterpreter
  simp only [Probe.bind_eq, Probe.bind_assoc]
  refine congrArg (Probe.bind _) (funext fun found => ?_)
  cases found.incomplete || found.cycleDetected <;>
    simp only [Bool.false_eq_true, if_true, if_false, Probe.bind_assoc, Probe.pure_eq,
      Probe.done_bind] <;> rfl

theorem cancelled_sampleInterpreter {interpreter : Address} {s x : Sample}
    (h : (sampleInterpreter w schedule interpreter s).outcome m = .ok x) :
    x.cancelled = s.cancelled := by
  rw [sampleInterpreter_eq] at h
  obtain ⟨y, -, hy⟩ := Probe.outcome_of_bind h
  cases hy
  rfl

theorem outcome_sampleEach {one : Address → Sample}
    (h : ∀ i, (sampleInterpreter w schedule i default).outcome m = .ok (one i))
    (interpreters : List Address) (s : Sample) :
    (sampleEach w schedule interpreters s).outcome m = .ok (join s (together one interpreters)) := by
  induction interpreters generalizing s with
  | nil =>
    simp only [sampleEach, together, join, List.flatMap_nil, List.any_nil, List.append_nil,
      Bool.or_false]
    rfl
  | cons i rest ih =>
    have hi : (one i).cancelled = false := cancelled_sampleInterpreter (h i)
    have hone : (sampleInterpreter w schedule i s).outcome m = .ok (join s (one i)) := by
      rw [sampleInterpreter_eq, Probe.outcome_bind_ok (h i)]
      rfl
    unfold sampleEach
    rw [Probe.bind_eq, Probe.outcome_bind_ok Probe.outcome_cancelled]
    simp only [Bool.false_eq_true, if_false, Probe.bind_eq]
    rw [Probe.outcome_bind_ok hone, ih, join_assoc, together_cons one i rest hi]

theorem outcome_conclude (s : Sample) :
    (conclude s).outcome m = .ok { s with cancelled := false } := rfl

theorem outcome_sampleAll {sampler : Sampler} {one : Address → Sample}
    (h : ∀ i, (sampleInterpreter sampler.walker schedule i default).outcome m = .ok (one i))
    {main : Address} {r : ListWalk (List Address)}
    (hr : (sampler.walker.iterateInterpreters main (fun seen i => .yield (i :: seen)) []).outcome m =
      .ok r) :
    (sampler.sampleAll schedule main).outcome m =
      .ok (join ⟨[], r.incomplete || r.cycleDetected, false⟩ (together one r.state.reverse)) := by
  have hrest : ∀ cut, ((sampleEach sampler.walker schedule r.state.reverse ⟨[], cut, false⟩).bind
      conclude).outcome m = .ok (join ⟨[], cut, false⟩ (together one r.state.reverse)) := by
    intro cut
    rw [Probe.outcome_bind_ok (outcome_sampleEach h _ _)]
    rfl
  unfold sampleAll
  simp only [Probe.bind_eq]
  rw [Probe.outcome_bind_ok hr]
  split
  · exact hrest _
  · exact hrest _

/-- In memory at rest the sample of all interpreters has the samples of the interpreters that are
found, one behind the other, and is marked if one of them is or if not all were found. -/
theorem sampleAll_joined {σ : Type} {t : Target σ} (hq : t.AtRest m) (sampler : Sampler)
    (id : LayoutId) (hid : sampler.walker.layout = .builtin id) (schedule : Schedule)
    (main : Address) (s : σ) :
    ∃ (r : ListWalk (List Address)) (one : Address → Sample),
      ((sampler.walker.iterateInterpreters main (fun seen i => .yield (i :: seen)) []).run t s).1 =
        .ok r ∧
      (∀ i s', ((sampler.sample schedule i).run t s').1 = .ok (one i)) ∧
      ((sampler.sampleAll schedule main).run t s).1 = .ok
        { callStacks := r.state.reverse.flatMap fun i => (one i).callStacks
          threadsIncomplete := r.incomplete || r.cycleDetected ||
            r.state.reverse.any fun i => (one i).threadsIncomplete
          cancelled := false } := by
  have hl : sampler.walker.layout.Provides := by
    refine Layout.provides_of_placed sampler.valid ?_
    rw [hid]
    cases id <;> decide
  obtain ⟨r, hr, -⟩ := (Walker.ensures_iterateInterpreters hl main
    (fun seen i => .yield (i :: seen)) []).run t s
  have hone : ∀ i, ∃ x, (sampleInterpreter sampler.walker schedule i default).outcome m = .ok x := by
    intro i
    obtain ⟨x, hx, -⟩ := (ensures_sampleInterpreter hl schedule i default).run t s
    rw [Probe.run_atRest hq] at hx
    exact ⟨x, hx⟩
  choose one hone using hone
  refine ⟨r, one, hr, ?_, ?_⟩
  · intro i s'
    have hi : (one i).cancelled = false := cancelled_sampleInterpreter (hone i)
    rw [Probe.run_atRest hq]
    unfold sample
    rw [Probe.bind_eq, Probe.outcome_bind_ok (hone i), outcome_conclude, ← hi]
  · rw [Probe.run_atRest hq] at hr ⊢
    exact outcome_sampleAll hone hr

/-- The stacks of the pair of interpreters are those of the first one and those of the second. -/
theorem sampleAll_joined_pair :
    pairMemory.target.AtRest pairMemory ∧ pairSampler.walker.layout = .builtin .v33 ∧
      ∃ one : Address → Sample,
        (∀ i, ((pairSampler.sample [] i).run pairMemory.target ()).1 = .ok (one i)) ∧
        wholePair.callStacks = (one 0x700).callStacks ++ (one 0x1000).callStacks ∧
        (one 0x1000).callStacks = pairStacks := by
  obtain ⟨r, one, hr, hone, hall⟩ := sampleAll_joined pairMemory.target_atRest pairSampler .v33 rfl
    [] 0x700 ()
  have hfound : ((pairSampler.walker.iterateInterpreters 0x700 (fun seen i => .yield (i :: seen))
      []).run pairMemory.target ()).1.toOption.map ListWalk.state = some [0x1000, 0x700] := by
    rw [pairMemory, Regions.still_ofObjects]
    decide +kernel
  rw [hr] at hfound
  injection hfound with hfound
  rw [run_wholePair, hfound] at hall
  injection hall with hall
  have hstacks := congrArg Sample.callStacks hall
  have hsmall := hone 0x1000 ()
  rw [run_pair] at hsmall
  injection hsmall with hsmall
  refine ⟨pairMemory.target_atRest, rfl, one, fun i => hone i (), ?_, ?_⟩
  · simpa only [List.reverse_cons, List.reverse_nil, List.nil_append, List.cons_append,
      List.flatMap_cons, List.flatMap_nil, List.append_nil] using hstacks
  · rw [← hsmall]

end StackPeek.Sampler
