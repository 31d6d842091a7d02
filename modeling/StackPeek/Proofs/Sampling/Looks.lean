import StackPeek.Proofs.Probe.Cancelled
import StackPeek.Proofs.Sampling.Bounded

/-!
# Between two looks at the flag

The flag is looked at before every frame, every thread and every interpreter. A round of a walk
is what lies between two looks: one request for the frame and nine for where it stands
(`spends_round`). For a thread it is two requests, and for an interpreter one. So a walk that is
cancelled during a request has the rest of one round before it (`afterReads_walkFrom`,
`heeds_threadsFrom`, `heeds_interpretersFrom`).
-/

namespace StackPeek

namespace Walker
variable {w : Walker} {threadId : UInt64} {σ : Type}

/-- Where the chain of frames goes on, what the frame shows, and whether nothing of it was
substituted. -/
abbrev Found := Address × ResolvedFrame × Bool

/-- The part of a walk between two looks at the flag. -/
def round (w : Walker) (threadId : UInt64) (address : Address) (depth : Nat) :
    Probe (Option Found) := do
  match ← (w.readFrame address).run with
  | .error e =>
    Probe.report .debug
      s!"Failed to read frame {Numeral.address address} of thread {threadId}: {e.name}"
    return none
  | .ok frame =>
    let (resolved, whole) ← w.resolveFrame frame depth
    return some (frame.back, resolved, whole)

def goOn (w : Walker) (threadId : UInt64) (room : Nat) (address : Address) (t : Trail) :
    Option Found → Probe Walked
  | none => return ⟨t, address, .incomplete⟩
  | some (back, frame, whole) => w.walkFrom threadId room back (t.extend address frame whole)

theorem walkFrom_fresh {room : Nat} {address : Address} {t : Trail} (ha : address ≠ 0)
    (hm : address ∉ t.visited) :
    w.walkFrom threadId (room + 1) address t =
      .poll fun flag =>
        if flag then .done ⟨t, address, .incomplete⟩
        else (w.round threadId address t.depth).bind (w.goOn threadId room address t) := by
  conv => lhs; unfold walkFrom
  rw [if_neg ha]
  refine congrArg Probe.poll (funext fun flag => ?_)
  cases flag with
  | true => rfl
  | false =>
    simp only [Bool.false_eq_true, if_false, if_neg hm, Probe.done_bind, round, Probe.bind_eq,
      Probe.bind_assoc]
    refine congrArg (Probe.bind _) (funext fun r => ?_)
    cases r with
    | error e => rfl
    | ok frame =>
      simp only [Probe.bind_assoc]
      rfl

theorem ensures_round (hl : w.layout.Supports) (address : Address) (depth : Nat) :
    (w.round threadId address depth).Ensures fun _ => True := by
  refine Probe.Ensures.bind (plain_readFrame hl address).faultless fun r _ => ?_
  cases r with
  | error e => exact (Probe.ensures_report _ _).bind fun _ _ => .done trivial
  | ok frame => exact (ensures_resolveFrame hl frame depth).bind fun _ _ => .done trivial

theorem spends_round (address : Address) (depth : Nat) :
    (w.round threadId address depth).Spends false (fun _ _ => True) 10 := by
  refine Probe.Spends.bind (k := 9) (costs_readFrame address) fun r _ => ?_
  cases r with
  | error e => exact (Probe.spends_report _ _).bind_free fun _ _ => .done trivial
  | ok frame => exact (spends_resolveFrame frame depth).bind (k := 0) fun _ _ => .done trivial

theorem stops_walkFrom (room : Nat) (address : Address) (t : Trail) :
    (w.walkFrom threadId room address t).Stops (fun r => r.trail = t) 0 := by
  unfold walkFrom
  split
  · exact .done rfl
  · exact .poll (.done rfl)

theorem stops_goOn (room : Nat) (address : Address) (t : Trail) (found : Option Found) :
    (w.goOn threadId room address t found).Stops
      (fun r => ∃ more, more.length ≤ 1 ∧ r.trail.frames = more ++ t.frames) 0 := by
  cases found with
  | none => exact .done ⟨[], Nat.zero_le 1, rfl⟩
  | some found =>
    obtain ⟨back, frame, whole⟩ := found
    refine (stops_walkFrom room back (t.extend address frame whole)).weaken ?_
    rintro r hr
    refine ⟨[frame], Nat.le_refl 1, ?_⟩
    rw [hr]
    rfl

theorem ensures_goOn (hl : w.layout.Supports) (room : Nat) (address : Address) (t : Trail)
    (found : Option Found) : (w.goOn threadId room address t found).Ensures fun _ => True := by
  cases found with
  | none => exact .done trivial
  | some found => exact ensures_walkFrom hl _ _ _ _

/-- Behind every request of a walk, the rest of a round is left and what follows it. -/
theorem afterReads_walkFrom (hl : w.layout.Supports) {G : Probe Walked → Prop}
    (hG : ∀ room address t (rest : Probe (Option Found)), rest.Prompt 9 →
      G (rest.bind (w.goOn threadId room address t)))
    (room : Nat) (address : Address) (t : Trail) :
    (w.walkFrom threadId room address t).AfterReads G := by
  induction room generalizing address t with
  | zero =>
    unfold walkFrom
    split
    · exact .done _
    · exact .poll (.log (.done _))
  | succ room ih =>
    by_cases ha : address = 0
    · unfold walkFrom
      rw [if_pos ha]
      exact .done _
    by_cases hm : address ∈ t.visited
    · unfold walkFrom
      rw [if_neg ha]
      refine .poll ?_
      simp only [if_pos hm]
      exact .log (.done _)
    rw [walkFrom_fresh ha hm]
    have hround : (w.round threadId address t.depth).AfterReads (Probe.Prompt 9) :=
      .of_spends (spends_round address t.depth) (ensures_round hl address t.depth) (Nat.le_refl _)
    refine .poll (.bind (hround.mono fun rest hr => hG room address t rest hr) fun found => ?_)
    cases found with
    | none => exact .done _
    | some found => exact ih _ _

section Lists
variable (hl : w.layout.Provides)
include hl

theorem prompt_threadsFrom (interpreter : Address) (visit : σ → ThreadHandle → ForInStep σ)
    (room : Nat) (address : Address) (visited : List Address) (r : ListWalk σ) :
    (w.threadsFrom interpreter visit room address visited r).Prompt 0 := by
  refine ⟨?_, ensures_threadsFrom hl _ _ _ _ _ _⟩
  unfold threadsFrom
  simp only
  split
  · exact .done trivial
  · exact .poll (.done trivial)

theorem prompt_interpretersFrom (visit : σ → Address → ForInStep σ) (room : Nat)
    (address : Address) (visited : List Address) (r : ListWalk σ) :
    (w.interpretersFrom visit room address visited r).Prompt 0 := by
  refine ⟨?_, ensures_interpretersFrom hl _ _ _ _ _⟩
  unfold interpretersFrom
  simp only
  split
  · exact .done trivial
  · exact .poll (.done trivial)

variable (hp : w.layout.PlainLinks)
include hp

theorem afterReads_readLink {field : Field} (n : Nat)
    (hf : field ∈ [Field.interpreterThreads, .interpreterNext, .cframeCurrent])
    (hm : (w.layout.spec? field).isSome) (base : Address) :
    (w.demandRead field (w.readUnsigned base field)).run.AfterReads (Probe.Prompt n) := by
  have hplain := plain_readUnsigned hl hm base
  have hcost : (w.demandRead field (w.readUnsigned base field)).Costs false 1 :=
    costs_readLink hp hf base
  refine .of_spends hcost ?_ (Nat.succ_le_succ (Nat.zero_le n))
  rw [demandRead_eq hplain]
  exact hplain.faultless

theorem heeds_threadsFrom (interpreter : Address) (visit : σ → ThreadHandle → ForInStep σ)
    (room : Nat) (address : Address) (visited : List Address) (r : ListWalk σ) :
    (w.threadsFrom interpreter visit room address visited r).Heeds 1 := by
  refine ⟨prompt_threadsFrom hl _ _ _ _ _ _, ?_⟩
  induction room generalizing address visited r with
  | zero =>
    unfold threadsFrom
    simp only
    split
    · exact .done _
    · exact .poll (.log (.done _))
  | succ room ih =>
    have hcost : (w.readThread address).Costs false 2 := costs_readThread hp address
    have hread : (w.readThread address).run.AfterReads (Probe.Prompt 1) :=
      .of_spends hcost (plain_readThread hl address).faultless (Nat.le_refl _)
    unfold threadsFrom
    simp only
    split
    · exact .done _
    refine .poll ?_
    split
    · exact .log (.done _)
    apply hread.bind_heeds
    intro x
    cases x with
    | error e => exact Probe.heeds_report _ _ _ _
    | ok thread =>
      simp only
      split
      · exact Probe.heeds_done _ _
      · exact ⟨prompt_threadsFrom hl _ _ _ _ _ _, ih _ _ _⟩

theorem afterReads_enumerateThreads (interpreter : Address) :
    (w.enumerateThreads interpreter).AfterReads (Probe.Prompt 1) := by
  have hlink := afterReads_readLink hl hp 1 (by simp)
    (hl.always (f := .interpreterThreads) (by decide)) interpreter
  have hwalk : (w.iterateThreads interpreter (fun seen t => .yield (t :: seen)) []).AfterReads
      (Probe.Prompt 1) := by
    apply hlink.bind_heeds
    intro x
    cases x with
    | error e => exact Probe.heeds_report _ _ _ _
    | ok head => exact heeds_threadsFrom hl hp _ _ _ _ _ _
  exact hwalk.bind_heeds fun r => Probe.heeds_done _ _

theorem heeds_interpretersFrom (visit : σ → Address → ForInStep σ) (room : Nat)
    (address : Address) (visited : List Address) (r : ListWalk σ) :
    (w.interpretersFrom visit room address visited r).Heeds 0 := by
  refine ⟨prompt_interpretersFrom hl _ _ _ _ _, ?_⟩
  induction room generalizing address visited r with
  | zero =>
    unfold interpretersFrom
    simp only
    split
    · exact .done _
    · exact .poll (.done _)
  | succ room ih =>
    have hlink := afterReads_readLink hl hp 0 (by simp)
      (hl.always (f := .interpreterNext) (by decide)) address
    unfold interpretersFrom
    simp only
    split
    · exact .done _
    refine .poll ?_
    split
    · exact .done _
    split
    · exact .done _
    apply hlink.bind_heeds
    intro x
    cases x with
    | error e => exact Probe.heeds_report _ _ _ _
    | ok next => exact ⟨prompt_interpretersFrom hl _ _ _ _ _, ih _ _ _⟩

end Lists
end Walker
end StackPeek
