import StackPeek.Proofs.Probe.Still
import StackPeek.Proofs.Stack.Visit

/-!
# Rounds of a walk in memory at rest

In memory that does not change, a round of a walk has one outcome. There is one equation for
each way in which a round can go: the chain of frames ends, there is no room left, the frame has
been seen, or it is read and the walk goes on behind it.
-/

namespace StackPeek.Walker
variable {w : Walker} {m : StillMemory} {threadId : UInt64} {room : Nat} {address : Address}
  {t : Trail}

theorem outcome_walkFrom_null :
    (w.walkFrom threadId room 0 t).outcome m =
      .ok ⟨t, 0, if t.incomplete then .incomplete else .complete⟩ := by
  unfold walkFrom
  rw [if_pos rfl]
  rfl

theorem outcome_walkFrom_full (ha : address ≠ 0) :
    (w.walkFrom threadId 0 address t).outcome m = .ok ⟨t, address, .depthExceeded⟩ := by
  unfold walkFrom
  rw [if_neg ha]
  rfl

theorem outcome_walkFrom_seen (ha : address ≠ 0) (hm : address ∈ t.visited) :
    (w.walkFrom threadId (room + 1) address t).outcome m = .ok ⟨t, address, .cycleDetected⟩ := by
  unfold walkFrom
  rw [if_neg ha, Probe.bind_eq, Probe.outcome_bind_ok Probe.outcome_cancelled]
  simp only [Bool.false_eq_true, if_false, if_pos hm]
  rfl

/-- A frame that has not been seen yet is read first of all. -/
theorem outcome_walkFrom_fresh (ha : address ≠ 0) (hm : address ∉ t.visited) :
    (w.walkFrom threadId (room + 1) address t).outcome m =
      ((w.readFrame address).outcome m).bind fun
        | .error _ => .ok ⟨t, address, .incomplete⟩
        | .ok frame =>
          ((w.resolve frame.code frame.instructionOffset).outcome m).bind fun place =>
            (w.walkFrom threadId room frame.back
              (t.extend address (w.shown t.depth place) (wholePlace place))).outcome m := by
  conv => lhs; unfold walkFrom
  rw [if_neg ha, Probe.bind_eq, Probe.outcome_bind_ok Probe.outcome_cancelled]
  simp only [Bool.false_eq_true, if_false, if_neg hm, resolveFrame_eq, Probe.bind_eq]
  rw [Probe.outcome_bind]
  refine congrArg (Except.bind _) (funext fun frame => ?_)
  cases frame with
  | error e => rfl
  | ok frame =>
    simp only [Probe.bind_assoc, Probe.done_bind]
    rw [Probe.outcome_bind]
    rfl

theorem outcome_walkFrom_visit {frame : FrameHandle} {place : Except ReadError Location}
    (ha : address ≠ 0) (hm : address ∉ t.visited)
    (hf : (w.readFrame address).outcome m = .ok (.ok frame))
    (hp : (w.resolve frame.code frame.instructionOffset).outcome m = .ok place) :
    (w.walkFrom threadId (room + 1) address t).outcome m =
      (w.walkFrom threadId room frame.back
        (t.extend address (w.shown t.depth place) (wholePlace place))).outcome m := by
  rw [outcome_walkFrom_fresh ha hm, hf]
  simp only [Except.bind, hp]

end StackPeek.Walker
