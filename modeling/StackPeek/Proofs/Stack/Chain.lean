import Mathlib.Data.Nat.Find
import StackPeek.Proofs.Stack.Round
import StackPeek.Proofs.Stack.Status

/-!
# The chain of back pointers in memory at rest

In memory that does not change, the back pointers from a first frame make a fixed sequence of
addresses, `Walker.chain`. `haltIndex` is the first place in it where a walk has a reason to
stop, and `chainStatus` is the status for the first such reason, both said without the walk.
The main statement is that a walk that does not end in a fault shows exactly the frames before
that place (`walk_chain`). The rounds of a walk are taken apart in the lemmas before it.
-/

namespace StackPeek.Walker
variable {w : Walker} {m : StillMemory} {threadId : UInt64} {address : Address}

def frameAt (w : Walker) (m : StillMemory) (address : Address) : Option FrameHandle :=
  match (w.readFrame address).outcome m with
  | .ok (.ok frame) => some frame
  | _ => none

/-- What a frame's code object says about itself, or why it cannot be read. -/
def codeOf (w : Walker) (m : StillMemory) (frame : FrameHandle) : Except ReadError CodeHandle :=
  match (w.readCode frame.code).outcome m with
  | .ok read => read
  -- What stands here for a fault is never shown, as the walk ends in the fault, too.
  | .error _ => .error .unsupportedField

def locationIn (w : Walker) (m : StillMemory) (code : CodeHandle) (offset : Int64) : Location :=
  match (w.locate code offset).outcome m with
  | .ok place => place
  | .error _ => default

/-- The place in the source of a frame. There is none if the code object cannot be read, and
only then. -/
def placeOf (w : Walker) (m : StillMemory) (frame : FrameHandle) : Except ReadError Location :=
  (w.codeOf m frame).map fun code => w.locationIn m code frame.instructionOffset

def chain (w : Walker) (m : StillMemory) (first : Address) : Nat → Address
  | 0 => first
  | i + 1 => ((w.frameAt m (w.chain m first i)).map FrameHandle.back).getD 0

def chainBefore (w : Walker) (m : StillMemory) (first : Address) (k : Nat) : List Address :=
  (List.range k).map (w.chain m first)

/-- There is a reason to stop at the `k`-th address. -/
def Halts (w : Walker) (m : StillMemory) (first : Address) (k : Nat) : Prop :=
  w.chain m first k = 0 ∨ k = w.options.maxStackDepth.toNat ∨
    w.chain m first k ∈ w.chainBefore m first k ∨ w.frameAt m (w.chain m first k) = none

instance (first : Address) : DecidablePred (w.Halts m first) := fun k =>
  inferInstanceAs (Decidable (_ ∨ k = _ ∨ _ ∈ w.chainBefore m first k ∨ _ = none))

theorem exists_halts (w : Walker) (m : StillMemory) (first : Address) :
    ∃ k, w.Halts m first k := ⟨w.options.maxStackDepth.toNat, .inr (.inl rfl)⟩

def haltIndex (w : Walker) (m : StillMemory) (first : Address) : Nat :=
  Nat.find (w.exists_halts m first)

/-- What became of the code object of the `i`-th frame. -/
def chainPlace (w : Walker) (m : StillMemory) (first : Address) (i : Nat) :
    Except ReadError Location :=
  match w.frameAt m (w.chain m first i) with
  | some frame => w.placeOf m frame
  | none => .error .unmapped

def chainFrames (w : Walker) (m : StillMemory) (first : Address) (k : Nat) : List ResolvedFrame :=
  (List.range k).map fun i => w.shown i (w.chainPlace m first i)

/-- Some frame before the `k`-th address has something substituted in it. -/
def substituted (w : Walker) (m : StillMemory) (first : Address) (k : Nat) : Bool :=
  (List.range k).any fun i => !wholePlace (w.chainPlace m first i)

/-- The status for the first reason to stop, in the order null, depth, repetition, unreadable. -/
def chainStatus (w : Walker) (m : StillMemory) (thread : ThreadHandle) : StackStatus :=
  let k := w.haltIndex m thread.frame
  if w.chain m thread.frame k = 0 then
    if thread.frameUnavailable || w.substituted m thread.frame k then .incomplete else .complete
  else if k = w.options.maxStackDepth.toNat then .depthExceeded
  else if w.chain m thread.frame k ∈ w.chainBefore m thread.frame k then .cycleDetected
  else .incomplete

def trailTo (w : Walker) (m : StillMemory) (first : Address) (incomplete : Bool) (k : Nat) :
    Trail :=
  ⟨(w.chainFrames m first k).reverse, (w.chainBefore m first k).reverse, k,
    incomplete || w.substituted m first k⟩

section Chain
variable {first : Address} {incomplete : Bool}

theorem frameAt_eq_some {frame : FrameHandle}
    (h : (w.readFrame address).outcome m = .ok (.ok frame)) : w.frameAt m address = some frame := by
  rw [frameAt, h]

theorem placeOf_of_resolve {frame : FrameHandle} {place : Except ReadError Location}
    (h : (w.resolve frame.code frame.instructionOffset).outcome m = .ok place) :
    w.placeOf m frame = place := by
  unfold placeOf codeOf
  unfold resolve at h
  cases hc : (w.readCode frame.code).outcome m with
  | error f =>
    rw [Attempt.outcome_bind_fault hc] at h
    cases h
  | ok read =>
    cases read with
    | error e =>
      rw [Attempt.outcome_bind_error hc] at h
      cases h
      rfl
    | ok code =>
      rw [Attempt.outcome_bind_ok hc, Attempt.outcome_lift] at h
      unfold locationIn
      cases hp : (w.locate code frame.instructionOffset).outcome m with
      | error f => rw [hp] at h; cases h
      | ok location =>
        rw [hp] at h
        cases h
        simp only [Except.map, hp]

theorem chain_succ {i : Nat} {frame : FrameHandle}
    (h : w.frameAt m (w.chain m first i) = some frame) :
    w.chain m first (i + 1) = frame.back := by
  rw [chain, h]
  rfl

theorem trailTo_zero : w.trailTo m first incomplete 0 = .start incomplete := by
  simp [trailTo, Trail.start, chainFrames, chainBefore, substituted]

theorem trailTo_succ {i : Nat} {frame : FrameHandle}
    (h : w.frameAt m (w.chain m first i) = some frame) :
    w.trailTo m first incomplete (i + 1) =
      (w.trailTo m first incomplete i).extend (w.chain m first i)
        (w.shown i (w.placeOf m frame)) (wholePlace (w.placeOf m frame)) := by
  have hp : w.chainPlace m first i = w.placeOf m frame := by rw [chainPlace, h]
  simp only [trailTo, Trail.extend, chainFrames, chainBefore, substituted, List.range_succ,
    List.map_append, List.any_append, List.reverse_append, Bool.or_assoc]
  simp [hp]

theorem mem_visited_trailTo {k : Nat} :
    address ∈ (w.trailTo m first incomplete k).visited ↔ address ∈ w.chainBefore m first k :=
  List.mem_reverse

theorem halts_haltIndex : w.Halts m first (w.haltIndex m first) := Nat.find_spec _

theorem haltIndex_le : w.haltIndex m first ≤ w.options.maxStackDepth.toNat :=
  Nat.find_min' _ (.inr (.inl rfl))

theorem not_halts {i : Nat} (h : i < w.haltIndex m first) : ¬ w.Halts m first i :=
  Nat.find_min _ h

theorem walkFrom_chain_step {i : Nat} {r : Walked} (hi : i < w.haltIndex m first)
    (h : (w.walkFrom threadId (w.options.maxStackDepth.toNat - i) (w.chain m first i)
      (w.trailTo m first incomplete i)).outcome m = .ok r) :
    (w.walkFrom threadId (w.options.maxStackDepth.toNat - (i + 1)) (w.chain m first (i + 1))
      (w.trailTo m first incomplete (i + 1))).outcome m = .ok r := by
  have hn := not_halts hi
  simp only [Halts, not_or] at hn
  obtain ⟨h0, -, hs, hf⟩ := hn
  have hle : w.haltIndex m first ≤ w.options.maxStackDepth.toNat := haltIndex_le
  have hroom : w.options.maxStackDepth.toNat - i = w.options.maxStackDepth.toNat - (i + 1) + 1 := by
    omega
  rw [hroom, outcome_walkFrom_fresh h0 (fun hm => hs (mem_visited_trailTo.mp hm))] at h
  cases hr : (w.readFrame (w.chain m first i)).outcome m with
  | error f => rw [hr] at h; cases h
  | ok frame =>
    cases frame with
    | error e => exact absurd (by rw [frameAt, hr]) hf
    | ok frame =>
      have hfr := frameAt_eq_some hr
      rw [hr] at h
      simp only [Except.bind] at h
      cases hp : (w.resolve frame.code frame.instructionOffset).outcome m with
      | error f => rw [hp] at h; cases h
      | ok place =>
        rw [hp] at h
        rw [chain_succ hfr, trailTo_succ hfr, placeOf_of_resolve hp]
        exact h

theorem walkFrom_chain_halt {thread : ThreadHandle} {r : Walked}
    (h : (w.walkFrom threadId
      (w.options.maxStackDepth.toNat - w.haltIndex m thread.frame)
      (w.chain m thread.frame (w.haltIndex m thread.frame))
      (w.trailTo m thread.frame thread.frameUnavailable
        (w.haltIndex m thread.frame))).outcome m = .ok r) :
    r.trail = w.trailTo m thread.frame thread.frameUnavailable (w.haltIndex m thread.frame) ∧
      r.status = w.chainStatus m thread := by
  have hle : w.haltIndex m thread.frame ≤ w.options.maxStackDepth.toNat := haltIndex_le
  have hh : w.Halts m thread.frame (w.haltIndex m thread.frame) := halts_haltIndex
  unfold chainStatus
  simp only
  generalize w.haltIndex m thread.frame = k at *
  by_cases h0 : w.chain m thread.frame k = 0
  · rw [h0, outcome_walkFrom_null] at h
    cases h
    rw [if_pos h0]
    exact ⟨rfl, rfl⟩
  rw [if_neg h0]
  by_cases hd : k = w.options.maxStackDepth.toNat
  · rw [← hd, Nat.sub_self, outcome_walkFrom_full h0] at h
    cases h
    rw [if_pos hd]
    exact ⟨rfl, rfl⟩
  rw [if_neg hd]
  obtain ⟨room, hroom⟩ : ∃ room, w.options.maxStackDepth.toNat - k = room + 1 :=
    ⟨w.options.maxStackDepth.toNat - k - 1, by omega⟩
  rw [hroom] at h
  by_cases hs : w.chain m thread.frame k ∈ w.chainBefore m thread.frame k
  · rw [outcome_walkFrom_seen h0 (mem_visited_trailTo.mpr hs)] at h
    cases h
    rw [if_pos hs]
    exact ⟨rfl, rfl⟩
  rw [if_neg hs]
  have hf : w.frameAt m (w.chain m thread.frame k) = none := by
    rcases hh with hh | hh | hh | hh
    · exact absurd hh h0
    · exact absurd hh hd
    · exact absurd hh hs
    · exact hh
  rw [outcome_walkFrom_fresh h0 (fun hm => hs (mem_visited_trailTo.mp hm))] at h
  cases hr : (w.readFrame (w.chain m thread.frame k)).outcome m with
  | error f => rw [hr] at h; cases h
  | ok frame =>
    cases frame with
    | error e =>
      rw [hr] at h
      cases h
      exact ⟨rfl, rfl⟩
    | ok frame =>
      rw [frameAt_eq_some hr] at hf
      cases hf

theorem walkFrom_chain {thread : ThreadHandle} {i : Nat} {r : Walked}
    (hi : i ≤ w.haltIndex m thread.frame)
    (h : (w.walkFrom threadId (w.options.maxStackDepth.toNat - i) (w.chain m thread.frame i)
      (w.trailTo m thread.frame thread.frameUnavailable i)).outcome m = .ok r) :
    r.trail = w.trailTo m thread.frame thread.frameUnavailable (w.haltIndex m thread.frame) ∧
      r.status = w.chainStatus m thread := by
  -- The induction is on the way still to go to the first reason to stop.
  induction hn : w.haltIndex m thread.frame - i generalizing i with
  | zero =>
    obtain rfl : i = w.haltIndex m thread.frame := by omega
    exact walkFrom_chain_halt h
  | succ n ih => exact ih (by omega) (walkFrom_chain_step (by omega) h) (by omega)

end Chain

/-- A walk in memory at rest that does not end in a fault shows exactly the frames before the
first reason to stop, and its status names that reason. -/
theorem walk_chain {σ : Type} {target : Target σ} (hq : target.AtRest m) (s : σ)
    {thread : ThreadHandle} (hf : ∀ f, ((w.walk thread).run target s).1 ≠ .error f) :
    ((w.walk thread).run target s).1 = .ok
      { threadId := thread.threadId
        threadState := thread.address
        interpreterState := 0
        frames := w.chainFrames m thread.frame (w.haltIndex m thread.frame)
        status := w.chainStatus m thread } := by
  rw [Probe.run_atRest hq] at hf ⊢
  cases hw : (w.walk thread).outcome m with
  | error f => exact absurd hw (hf f)
  | ok stack =>
    unfold walk at hw
    obtain ⟨r, h, h'⟩ := Probe.outcome_of_bind hw
    cases h'
    rw [← trailTo_zero (w := w) (m := m)] at h
    have h₀ : (w.walkFrom thread.threadId (w.options.maxStackDepth.toNat - 0)
        (w.chain m thread.frame 0) (w.trailTo m thread.frame thread.frameUnavailable 0)).outcome m =
        .ok r := h
    obtain ⟨ht, hs⟩ := walkFrom_chain (Nat.zero_le _) h₀
    rw [ht, hs, trailTo, List.reverse_reverse]

/-- The ring has a reason to stop at its third address, one before the depth limit, and the thread
of the small interpreter has none before the null pointer behind its second frame. -/
theorem walk_chain_ring_small :
    ((∀ f, ((shallow.walk ringThread).run ringMemory.target ()).1 ≠ .error f) ∧
      ((shallow.walk ringThread).run ringMemory.target ()).1 = .ok
        { threadId := 7
          threadState := 0x500
          interpreterState := 0
          frames := shallow.chainFrames ringMemory 0x1000 (shallow.haltIndex ringMemory 0x1000)
          status := shallow.chainStatus ringMemory ringThread } ∧
      shallow.haltIndex ringMemory 0x1000 = 2 ∧
      shallow.chainStatus ringMemory ringThread = .cycleDetected) ∧
    let m := (smallMemory .v310).still
    (∀ f, ((shallow.walk smallThread).run m.target ()).1 ≠ .error f) ∧
      ((shallow.walk smallThread).run m.target ()).1 = .ok
        { threadId := 11
          threadState := 0x2000
          interpreterState := 0
          frames := shallow.chainFrames m 0x4000 (shallow.haltIndex m 0x4000)
          status := shallow.chainStatus m smallThread } ∧
      shallow.haltIndex m 0x4000 = 2 ∧ shallow.chainFrames m 0x4000 2 = smallStack.frames ∧
      shallow.chainStatus m smallThread = .complete := by
  have follows {m : StillMemory} {thread : ThreadHandle} {stack : CallStack}
      (hrun : ((shallow.walk thread).run m.target ()).1 = .ok stack) :
      (∀ f, ((shallow.walk thread).run m.target ()).1 ≠ .error f) ∧
        ((shallow.walk thread).run m.target ()).1 = .ok
          { threadId := thread.threadId
            threadState := thread.address
            interpreterState := 0
            frames := shallow.chainFrames m thread.frame (shallow.haltIndex m thread.frame)
            status := shallow.chainStatus m thread } ∧
        shallow.haltIndex m thread.frame = stack.frames.length ∧
        shallow.chainFrames m thread.frame stack.frames.length = stack.frames ∧
        shallow.chainStatus m thread = stack.status := by
    have hf : ∀ f, ((shallow.walk thread).run m.target ()).1 ≠ .error f := by
      rw [hrun]
      exact fun f => nofun
    have hw := walk_chain m.target_atRest () hf
    have hr := hw.symm.trans hrun
    injection hr with hr
    have hframes : shallow.chainFrames m thread.frame (shallow.haltIndex m thread.frame) =
        stack.frames := congrArg CallStack.frames hr
    have hl : shallow.haltIndex m thread.frame = stack.frames.length := by
      rw [← hframes, chainFrames, List.length_map, List.length_range]
    exact ⟨hf, hw, hl, hl ▸ hframes, congrArg CallStack.status hr⟩
  obtain ⟨hf, hw, hl, -, hs⟩ := follows run_ring
  exact ⟨⟨hf, hw, hl, hs⟩, follows run_small⟩

end StackPeek.Walker
