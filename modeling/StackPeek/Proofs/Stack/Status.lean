import StackPeek.Layout.Builtin
import StackPeek.Proofs.Image.Threads

/-!
# What the status of a stack promises

Whatever the target answers, a walk is a row of linked visits of different frames, at most as
many as the depth limit allows, and its status tells the truth about how the row ended
(`walk_honest`). `Followed` is the invariant behind it: what one walk from a given trail adds
to that trail.
-/

namespace StackPeek

/-- A walk from `address` on with some room under the limit has made these visits on top of the
trail `t`, and ended as `r` says. -/
structure Followed (w : Walker) (room : Nat) (address : Address) (t : Trail) (r : Walked)
    (visits : List Visit) : Prop where
  linked : Linked address visits r.next
  took : ∀ v ∈ visits, v.Took w
  frames : r.trail.frames =
    (visits.mapIdx fun i v => w.shown (t.depth + i) v.place).reverse ++ t.frames
  visited : r.trail.visited = (visits.map Visit.address).reverse ++ t.visited
  incomplete : r.trail.incomplete = (t.incomplete || visits.any fun v => !Walker.wholePlace v.place)
  within : visits.length ≤ room
  fresh : ∀ v ∈ visits, v.address ∉ t.visited
  distinct : (visits.map Visit.address).Nodup
  of_complete : r.status = .complete → r.next = 0 ∧ r.trail.incomplete = false
  of_cycle : r.status = .cycleDetected → r.next ∈ r.trail.visited
  of_depth : r.status = .depthExceeded → visits.length = room ∧ r.next ≠ 0

/-- What a stack and its status promise about the visits behind it, and about the frame `next`
that would have come after them. -/
structure CallStack.Honest (w : Walker) (thread : ThreadHandle) (stack : CallStack)
    (visits : List Visit) (next : Address) : Prop where
  took : ∀ v ∈ visits, v.Took w
  linked : Linked thread.frame visits next
  distinct : (visits.map Visit.address).Nodup
  frames : stack.frames = visits.mapIdx fun i v => w.shown i v.place
  within : stack.frames.length ≤ w.options.maxStackDepth.toNat
  depth : ∀ (i : Nat) (f : ResolvedFrame), stack.frames[i]? = some f → f.depth = i
  /-- A placeholder stands for a frame whose code object could not be read, and only for one. -/
  unresolved : ∀ (i : Nat) (v : Visit) (f : ResolvedFrame), visits[i]? = some v →
    stack.frames[i]? = some f → (f.resolved = false ↔ v.Unreadable w) ∧
      (f.resolved = false → f = ⟨w.options.unresolvedName, w.options.unresolvedName, 0, i, false⟩)
  of_complete : stack.status = .complete → thread.frameUnavailable = false ∧ next = 0 ∧
    (∀ f ∈ stack.frames, f.resolved = true) ∧
    ∀ v ∈ visits, ∃ place, v.place = .ok place ∧
      w.Obtained v.frame.code v.frame.instructionOffset v.resolving place
  of_cycle : stack.status = .cycleDetected → next ∈ visits.map Visit.address
  of_depth : stack.status = .depthExceeded →
    stack.frames.length = w.options.maxStackDepth.toNat ∧ next ≠ 0

/-- With this status a walk goes no further from an address, on top of the trail `t`. -/
inductive StackStatus.Explains : StackStatus → (room : Nat) → Address → (t : Trail) → Prop where
  | complete {room : Nat} {t : Trail} : t.incomplete = false → Explains .complete room 0 t
  | incomplete {room : Nat} {address : Address} {t : Trail} : Explains .incomplete room address t
  | cycle {room : Nat} {address : Address} {t : Trail} : address ∈ t.visited →
      Explains .cycleDetected room address t
  | depth {address : Address} {t : Trail} : address ≠ 0 → Explains .depthExceeded 0 address t

namespace Followed
variable {w : Walker} {room : Nat} {address : Address} {t : Trail}

theorem stop {status : StackStatus} (h : status.Explains room address t) :
    Followed w room address t ⟨t, address, status⟩ [] where
  linked := .nil address
  took _ hv := absurd hv List.not_mem_nil
  frames := rfl
  visited := rfl
  incomplete := (Bool.or_false _).symm
  within := Nat.zero_le _
  fresh _ hv := absurd hv List.not_mem_nil
  distinct := List.nodup_nil
  of_complete := by
    rintro rfl
    cases h with
    | complete ht => exact ⟨rfl, ht⟩
  of_cycle := by
    rintro rfl
    cases h with
    | cycle hm => exact hm
  of_depth := by
    rintro rfl
    cases h with
    | depth ha => exact ⟨rfl, ha⟩

theorem step {v : Visit} {r : Walked} {visits : List Visit}
    (h : Followed w room v.frame.back
      (t.extend v.address (w.shown t.depth v.place) (Walker.wholePlace v.place)) r visits)
    (ht : v.Took w) (hv : v.address ∉ t.visited) :
    Followed w (room + 1) v.address t r (v :: visits) where
  linked := .cons h.linked
  took := by
    intro u hu
    rcases List.mem_cons.mp hu with rfl | hu
    · exact ht
    · exact h.took u hu
  frames := by
    rw [h.frames, List.mapIdx_cons, List.reverse_cons, List.append_assoc]
    simp only [Trail.extend, List.singleton_append, Nat.add_zero, Nat.add_assoc, Nat.add_comm 1]
  visited := by
    rw [h.visited, List.map_cons, List.reverse_cons, List.append_assoc]
    rfl
  incomplete := by
    rw [h.incomplete, List.any_cons]
    exact Bool.or_assoc _ _ _
  within := Nat.succ_le_succ h.within
  fresh := by
    intro u hu
    rcases List.mem_cons.mp hu with rfl | hu
    · exact hv
    · exact fun hm => h.fresh u hu (List.mem_cons_of_mem _ hm)
  distinct := by
    rw [List.map_cons, List.nodup_cons]
    refine ⟨fun hm => ?_, h.distinct⟩
    obtain ⟨u, hu, he⟩ := List.mem_map.mp hm
    exact h.fresh u hu (he ▸ List.mem_cons_self)
  of_complete := h.of_complete
  of_cycle := h.of_cycle
  of_depth := by
    intro hs
    obtain ⟨hl, hn⟩ := h.of_depth hs
    exact ⟨congrArg Nat.succ hl, hn⟩

end Followed

namespace Walker
variable {w : Walker}

/-- A walk goes no further for a reason that its status names, or makes one visit and goes on
from the back pointer. -/
theorem walkFrom_cases {threadId : UInt64} {room : Nat} {address : Address} {t : Trail}
    {es : List Event} {r : Walked}
    (h : (w.walkFrom threadId room address t).Course es (.ok r)) :
    (∃ status : StackStatus, r = ⟨t, address, status⟩ ∧ status.Explains room address t) ∨
    ∃ (v : Visit) (room' : Nat) (rest : List Event), v.Took w ∧ v.address = address ∧
      v.address ∉ t.visited ∧ room = room' + 1 ∧ es = v.events ++ rest ∧
      (w.walkFrom threadId room' v.frame.back
        (t.extend v.address (w.shown t.depth v.place) (wholePlace v.place))).Course rest
          (.ok r) := by
  unfold walkFrom at h
  by_cases ha : address = 0
  · rw [if_pos ha] at h
    obtain ⟨-, rfl⟩ := h.of_done
    refine .inl ⟨_, rfl, ?_⟩
    rw [ha]
    cases ht : t.incomplete with
    | true => exact .incomplete
    | false => exact .complete ht
  rw [if_neg ha] at h
  obtain ⟨flag, es₀, rfl, h₀⟩ := Probe.Course.of_cancelled h
  clear h
  cases flag with
  | true =>
    obtain ⟨-, rfl⟩ := h₀.of_done
    exact .inl ⟨_, rfl, .incomplete⟩
  | false =>
    rw [if_neg Bool.false_ne_true] at h₀
    cases room with
    | zero =>
      obtain rfl := Probe.Course.of_reported h₀
      exact .inl ⟨_, rfl, .depth ha⟩
    | succ room =>
      by_cases hm : address ∈ t.visited
      · simp only [if_pos hm] at h₀
        obtain rfl := Probe.Course.of_reported h₀
        exact .inl ⟨_, rfl, .cycle hm⟩
      simp only [if_neg hm, resolveFrame_eq] at h₀
      obtain ⟨frame, es₁, es₂, rfl, h₁, h₂⟩ := h₀.of_bind
      cases frame with
      | error e =>
        obtain rfl := Probe.Course.of_reported h₂
        exact .inl ⟨_, rfl, .incomplete⟩
      | ok frame =>
        obtain ⟨f, es₃, es₄, rfl, h₃, h₄⟩ := h₂.of_bind
        obtain ⟨place, es₅, es₆, rfl, h₅, h₆⟩ := h₃.of_bind
        obtain ⟨rfl, rfl⟩ := h₆.of_done
        refine .inr ⟨⟨address, frame, place, es₁, es₅⟩, room, es₄, ⟨ha, h₁, h₅⟩, rfl, hm, rfl, ?_,
          h₄⟩
        rw [Visit.events, List.append_nil, List.cons_append, List.append_assoc]

/-- Every course of a walk is a row of visits and what it did before it stopped. -/
theorem course_walkFrom {threadId : UInt64} {room : Nat} {address : Address} {t : Trail}
    {es : List Event} {r : Walked}
    (h : (w.walkFrom threadId room address t).Course es (.ok r)) :
    ∃ visits rest, es = visits.flatMap Visit.events ++ rest ∧
      Followed w room address t r visits := by
  induction room generalizing address t es with
  | zero =>
    rcases walkFrom_cases h with ⟨status, rfl, hs⟩ | ⟨v, room', rest, _, _, _, hr, _⟩
    · exact ⟨[], es, rfl, .stop hs⟩
    · cases hr
  | succ room ih =>
    rcases walkFrom_cases h with ⟨status, rfl, hs⟩ | ⟨v, room', rest, ht, rfl, hv, hr, rfl, h'⟩
    · exact ⟨[], es, rfl, .stop hs⟩
    · cases hr
      obtain ⟨visits, rest', rfl, hf⟩ := ih h'
      refine ⟨v :: visits, rest', ?_, hf.step ht hv⟩
      rw [List.flatMap_cons, List.append_assoc]

theorem Followed.obtained {t : Trail} {room : Nat} {address : Address} {r : Walked}
    {visits : List Visit} (h : Followed w room address t r visits)
    (hi : r.trail.incomplete = false) :
    t.incomplete = false ∧ ∀ v ∈ visits, wholePlace v.place = true := by
  have hi' := h.incomplete.symm.trans hi
  rw [Bool.or_eq_false_iff, List.any_eq_false] at hi'
  refine ⟨hi'.1, fun v hv => ?_⟩
  have hw := hi'.2 v hv
  simpa using hw

/-- Whatever the target answers and whenever the flag is set, the stack that a walk returns is
honest about the visits in which it was found. -/
theorem walk_honest {thread : ThreadHandle} {es : List Event} {stack : CallStack}
    (h : (w.walk thread).Course es (.ok stack)) :
    ∃ visits next rest, es = visits.flatMap Visit.events ++ rest ∧
      stack.threadId = thread.threadId ∧ stack.threadState = thread.address ∧
      stack.Honest w thread visits next := by
  unfold walk at h
  obtain ⟨r, es₁, es₂, rfl, h₁, h₂⟩ := h.of_bind
  obtain ⟨rfl, rfl⟩ := h₂.of_done
  obtain ⟨visits, rest, rfl, hf⟩ := course_walkFrom h₁
  have hframes : r.trail.frames.reverse = visits.mapIdx fun i v => w.shown i v.place := by
    rw [hf.frames]
    simp [Trail.start]
  refine ⟨visits, r.next, rest, by rw [List.append_nil], rfl, rfl, ?_⟩
  constructor
  · exact hf.took
  · exact hf.linked
  · exact hf.distinct
  · exact hframes
  · simp only [hframes, List.length_mapIdx]
    exact hf.within
  · intro i f hi
    simp only [hframes, List.getElem?_mapIdx, Option.map_eq_some_iff] at hi
    obtain ⟨v, -, rfl⟩ := hi
    cases v.place <;> rfl
  · intro i v f hv hi
    simp only [hframes, List.getElem?_mapIdx, hv, Option.map_some, Option.some.injEq] at hi
    subst hi
    exact ⟨Visit.resolved_eq_false_iff (hf.took v (List.mem_of_getElem? hv)) i,
      Visit.shown_of_unresolved⟩
  · intro hs
    obtain ⟨hn, hi⟩ := hf.of_complete hs
    obtain ⟨ht, hw⟩ := Followed.obtained hf hi
    refine ⟨ht, hn, ?_, fun v hv => Visit.obtained_of_whole (hf.took v hv) (hw v hv)⟩
    intro f hm
    simp only [hframes] at hm
    obtain ⟨i, hi, rfl⟩ := List.mem_mapIdx.mp hm
    obtain ⟨place, hp, -⟩ := Visit.obtained_of_whole (hf.took _ (List.getElem_mem hi))
      (hw _ (List.getElem_mem hi))
    rw [hp]
    rfl
  · intro hs
    have hm := hf.of_cycle hs
    rw [hf.visited] at hm
    simpa [Trail.start] using hm
  · intro hs
    simp only [hframes, List.length_mapIdx]
    exact hf.of_depth hs

/-- Two frames without a code object, at 0x1000 and 0x2000, that are each other's callers. -/
def ringMemory : StillMemory := fun address _ =>
  if address = 0x1018 then .copied (Bytes.ofNat 8 0x2000 ++ List.replicate 68 0)
  else if address = 0x2018 then .copied (Bytes.ofNat 8 0x1000 ++ List.replicate 68 0)
  else .failed Errno.fault

def shallow : Walker := ⟨.builtin .v310, { Options.standard with maxStackDepth := 3 }⟩

def ringThread : ThreadHandle := ⟨0x500, 0, 0x1000, 7, false⟩

def ringStack : CallStack :=
  ⟨7, 0x500, 0, [shallow.placeholder 0, shallow.placeholder 1], .cycleDetected⟩

theorem run_ring : ((shallow.walk ringThread).run ringMemory.target ()).1 = .ok ringStack := by
  rfl

/-- The thread with two frames in the small interpreter. -/
def smallThread : ThreadHandle := ⟨0x2000, 0x3000, 0x4000, 11, false⟩

def smallStack : CallStack :=
  let code := smallCode .v310
  ⟨11, 0x2000, 0, [⟨code.function, code.file, 11, 0, true⟩,
    ⟨code.function, code.file, 10, 1, true⟩], .complete⟩

theorem outcome_walk_small (hl : w.layout = .builtin .v310)
    (hdepth : 2 ≤ w.options.maxStackDepth.toNat) (htext : 4 ≤ w.options.maxStringLength.toNat) :
    (w.walk smallThread).outcome (smallMemory .v310).still = .ok smallStack := by
  have husual : w.layout.Usual := hl ▸ Layout.builtin_usual .v310
  have hframes : (smallMemory .v310).still.FramesAt w.layout (smallFrames .v310) :=
    hl ▸ smallMemory_frames .v310
  have hwalk : (w.walk smallThread).outcome (smallMemory .v310).still =
      .ok (ThreadImage.stack ⟨0x2000, 11, smallFrames .v310⟩ w.layout.lineTable) :=
    outcome_walk husual hframes (smallThreads_within .v310 hdepth htext _ List.mem_cons_self) 0x3000
  rw [hwalk, hl]
  simp only [ThreadImage.stack, smallFrames, List.mapIdx_cons, List.mapIdx_nil,
    FrameImage.resolved, smallCode_line]
  rfl

theorem run_small :
    ((shallow.walk smallThread).run (smallMemory .v310).still.target ()).1 = .ok smallStack := by
  rw [Probe.run_atRest (StillMemory.target_atRest _)]
  exact outcome_walk_small rfl (by decide) (by decide)

theorem walk_honest_ring_small :
    (∃ es visits next rest, (shallow.walk ringThread).Course es (.ok ringStack) ∧
      es = visits.flatMap Visit.events ++ rest ∧
      ringStack.Honest shallow ringThread visits next) ∧
    ∃ es visits next rest, (shallow.walk smallThread).Course es (.ok smallStack) ∧
      es = visits.flatMap Visit.events ++ rest ∧
      smallStack.Honest shallow smallThread visits next := by
  have honest {m : StillMemory} {thread : ThreadHandle} {stack : CallStack}
      (hrun : ((shallow.walk thread).run m.target ()).1 = .ok stack) :
      ∃ es visits next rest, (shallow.walk thread).Course es (.ok stack) ∧
        es = visits.flatMap Visit.events ++ rest ∧ stack.Honest shallow thread visits next := by
    obtain ⟨es, h⟩ := Probe.course_of_run m.target (shallow.walk thread) ()
    rw [hrun] at h
    obtain ⟨visits, next, rest, hes, -, -, hs⟩ := walk_honest h
    exact ⟨es, visits, next, rest, h, hes, hs⟩
  exact ⟨honest run_ring, honest run_small⟩

end Walker
end StackPeek
