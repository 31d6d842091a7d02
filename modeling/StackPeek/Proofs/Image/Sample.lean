import StackPeek.Proofs.Image.Threads
import StackPeek.Proofs.Memory.Regions
import StackPeek.Proofs.Sampling.Parallel

/-!
# Sampling an image gives the image back

`StillMemory.ImageAt` says that memory holds an interpreter and a list of threads, laid out the
way one of the known builds does. A sample of such an interpreter is exact: one complete stack
for each thread, in list order, with every frame in its place (`sample_image`).
-/

namespace StackPeek

/-- Memory holds the interpreter and its threads. -/
structure StillMemory.ImageAt (m : StillMemory) (l : Layout) (interpreter : Address)
    (threads : List ThreadImage) : Prop where
  stored : ∃ bytes, m.Object l .interpreterState interpreter
    [(.interpreterThreads, ThreadImage.first threads)] bytes
  linked : m.ThreadsAt l threads
  distinct : (threads.map ThreadImage.address).Nodup

namespace Sampler
variable {w : Walker} {m : StillMemory} {σ : Type}

theorem outcomes_walk_handles (hl : w.layout.Usual) {threads : List ThreadImage}
    (h : m.ThreadsAt w.layout threads) (hw : ∀ t ∈ threads, t.Within w.options) :
    ((ThreadImage.handles threads).map w.walk).map (Probe.outcome m) =
      (threads.map fun t => t.stack w.layout.lineTable).map .ok := by
  induction threads with
  | nil => rfl
  | cons t rest ih =>
    obtain ⟨ht, hrest⟩ := h
    have hwalk := Walker.outcome_walk hl ht.frames (hw t List.mem_cons_self)
      (ThreadImage.first rest)
    simp only [ThreadImage.handles, List.map_cons, hwalk,
      ih hrest fun u hu => hw u (List.mem_cons_of_mem t hu)]

/-- Memory that holds the image of an interpreter, within the limits of the sampler, gives the
image back: every thread in list order, every frame with its function, its file and its line. -/
theorem sample_image {t : Target σ} (hq : t.AtRest m) (sampler : Sampler) (id : LayoutId)
    (hid : sampler.walker.layout = .builtin id) {interpreter : Address}
    {threads : List ThreadImage} (h : m.ImageAt (.builtin id) interpreter threads)
    (hlimit : threads.length ≤ sampler.walker.options.maxThreads.toNat)
    (hw : ∀ thread ∈ threads, thread.Within sampler.walker.options) (schedule : Schedule) (s : σ) :
    ((sampler.sample schedule interpreter).run t s).1 = .ok
      { callStacks := threads.map fun thread =>
          { threadId := thread.threadId
            threadState := thread.address
            interpreterState := interpreter
            frames := thread.frames.mapIdx fun i f =>
              { function := f.code.function
                file := f.code.file
                line := f.code.line (Layout.builtin id).lineTable f.offset
                depth := i
                resolved := true }
            status := .complete }
        threadsIncomplete := false
        cancelled := false } := by
  rw [Probe.run_atRest hq]
  rw [← hid] at h ⊢
  have hl : sampler.walker.layout.Usual := by
    rw [hid]
    exact Layout.builtin_usual id
  obtain ⟨bytes, ho⟩ := h.stored
  obtain ⟨e, hfound⟩ := Walker.outcome_enumerateThreads hl h.linked h.distinct hlimit ho
  have hwalk := outcome_walkAll (outcomes_walk_handles hl h.linked hw) schedule
  unfold sample
  rw [Probe.bind_eq, Probe.outcome_bind, outcome_sampleInterpreter, hfound]
  simp only [Except.bind, hwalk]
  rw [List.map_map]
  rfl

theorem smallMemory_image (id : LayoutId) :
    (smallMemory id).still.ImageAt (.builtin id) 0x1000 (smallThreads id) := by
  refine ⟨⟨smallBytes id 0x1000, smallMemory_object ?_⟩, smallMemory_threads id, ?_⟩
  · cases id <;> decide +kernel
  · cases id <;> decide

def smallSampler (id : LayoutId) : Sampler :=
  ⟨⟨.builtin id, { Options.standard with maxThreads := 2, maxStackDepth := 2 }⟩,
    by cases id <;> rfl⟩

theorem sample_image_small :
    (∀ id, (smallMemory id).still.ImageAt (.builtin id) 0x1000 (smallThreads id)) ∧
    ∀ id, (((smallSampler id).sample [] 0x1000).run (smallMemory id).still.target ()).1 = .ok
      { callStacks :=
          [⟨11, 0x2000, 0x1000,
            [⟨(smallCode id).function, (smallCode id).file, 11, 0, true⟩,
              ⟨(smallCode id).function, (smallCode id).file, 10, 1, true⟩], .complete⟩,
            ⟨12, 0x3000, 0x1000, [], .complete⟩]
        threadsIncomplete := false
        cancelled := false } := by
  refine ⟨smallMemory_image, ?_⟩
  intro id
  rw [sample_image (smallMemory id).still.target_atRest (smallSampler id) id rfl
    (smallMemory_image id) (by cases id <;> decide)
    (smallThreads_within id (by cases id <;> decide) (by cases id <;> decide)) [] ()]
  simp only [smallThreads, smallFrames, List.map_cons, List.map_nil, List.mapIdx_cons,
    List.mapIdx_nil, smallCode_line]
  rfl

end Sampler
end StackPeek
