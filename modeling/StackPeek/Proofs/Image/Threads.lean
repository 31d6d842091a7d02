import StackPeek.Proofs.Image.Frames
import StackPeek.Proofs.Memory.Regions
import StackPeek.Proofs.Stack.Round
import StackPeek.Thread.List

/-!
# Threads in memory

A `ThreadImage` is a thread with its frames, innermost first. `StillMemory.ThreadsAt` says that
memory holds the thread states of a list of them, each linked to the next one and, directly or
through another record, to its innermost frame. Walking such a thread shows all its frames, and
enumerating such a list finds all its threads, up to and including the limits. The small
interpreter in `smallMemory`, which each of the known builds lays out its own way, is an example
for this module and later ones.
-/

namespace StackPeek

structure ThreadImage where
  address : Address
  threadId : UInt64
  frames : List FrameImage

def FrameImage.first : List FrameImage → Address
  | [] => 0
  | f :: _ => f.address

def ThreadImage.first : List ThreadImage → Address
  | [] => 0
  | t :: _ => t.address

namespace StillMemory

/-- Memory holds the frames, each linked to the next one. -/
def FramesAt (m : StillMemory) (l : Layout) : List FrameImage → Prop
  | [] => True
  | f :: rest => m.FrameAt l f (FrameImage.first rest) ∧ m.FramesAt l rest

/-- What a thread state stores to name its innermost frame, and in which member. -/
def LinkAt (m : StillMemory) (l : Layout) (frame : Address) (link : Field × UInt64) : Prop :=
  match l.frameLink with
  | .direct => link = (.threadFrame, frame)
  | .viaCFrame => ∃ cframe bytes, link = (.threadCFrame, cframe) ∧
    m.Object l .cframe cframe [(.cframeCurrent, frame)] bytes

/-- Memory holds the thread, and `next` is the address of the next one. -/
structure ThreadAt (m : StillMemory) (l : Layout) (t : ThreadImage) (next : Address) : Prop where
  stored : ∃ link bytes, m.LinkAt l (FrameImage.first t.frames) link ∧
    m.Object l .threadState t.address
      [(.threadNext, next), (.threadId, t.threadId), link] bytes
  frames : m.FramesAt l t.frames

def ThreadsAt (m : StillMemory) (l : Layout) : List ThreadImage → Prop
  | [] => True
  | t :: rest => m.ThreadAt l t (ThreadImage.first rest) ∧ m.ThreadsAt l rest

end StillMemory

namespace FrameImage

def resolved (f : FrameImage) (format : LineTableFormat) (depth : Nat) : ResolvedFrame :=
  ⟨f.code.function, f.code.file, f.code.line format f.offset, depth, true⟩

end FrameImage

namespace ThreadImage

/-- The frames do not come up twice, there are not too many, and what they name can be read. -/
structure Within (t : ThreadImage) (o : Options) : Prop where
  distinct : (t.frames.map FrameImage.address).Nodup
  depth : t.frames.length ≤ o.maxStackDepth.toNat
  code : ∀ f ∈ t.frames, f.code.Within o

def stack (t : ThreadImage) (format : LineTableFormat) : CallStack where
  threadId := t.threadId
  threadState := t.address
  interpreterState := 0
  frames := t.frames.mapIdx fun i f => f.resolved format i
  status := .complete

/-- What is known of the threads of a list without walking them. -/
def handles : List ThreadImage → List ThreadHandle
  | [] => []
  | t :: rest => ⟨t.address, first rest, FrameImage.first t.frames, t.threadId, false⟩ ::
    handles rest

end ThreadImage

namespace Walker
variable {w : Walker} {m : StillMemory}

theorem fresh_of_cons {α : Type} {address : α → Address} {x : α} {rest : List α}
    {visited : List Address} (hx : address x ∉ rest.map address)
    (hv : ∀ y ∈ x :: rest, address y ∉ visited) : ∀ y ∈ rest, address y ∉ address x :: visited := by
  intro y hy hm
  rcases List.mem_cons.mp hm with he | hm
  · exact hx (he ▸ List.mem_map_of_mem hy)
  · exact hv y (List.mem_cons_of_mem x hy) hm

theorem outcome_walkFrom_frames (hl : w.layout.Usual) {frames : List FrameImage}
    (h : m.FramesAt w.layout frames) (hw : ∀ f ∈ frames, f.code.Within w.options)
    (hd : (frames.map FrameImage.address).Nodup) {room : Nat} (hr : frames.length ≤ room)
    (threadId : UInt64) {t : Trail} (hv : ∀ f ∈ frames, f.address ∉ t.visited)
    (ht : t.incomplete = false) :
    ∃ r, (w.walkFrom threadId room (FrameImage.first frames) t).outcome m = .ok r ∧
      r.trail.frames.reverse = t.frames.reverse ++
        frames.mapIdx (fun i f => f.resolved w.layout.lineTable (t.depth + i)) ∧
      r.status = .complete := by
  induction frames generalizing room t with
  | nil =>
    refine ⟨_, outcome_walkFrom_null, ?_, ?_⟩
    · rw [List.mapIdx_nil, List.append_nil]
    · rw [ht]
      rfl
  | cons f rest ih =>
    obtain ⟨hf, hrest⟩ := h
    have h0 : room ≠ 0 := by
      rw [List.length_cons] at hr
      omega
    obtain ⟨room, rfl⟩ := Nat.exists_eq_succ_of_ne_zero h0
    obtain ⟨bytes, ho⟩ := hf.stored
    rw [List.map_cons, List.nodup_cons] at hd
    have hstep : (w.walkFrom threadId (room + 1) f.address t).outcome m = _ :=
      outcome_walkFrom_visit ho.holds.nonnull (hv f List.mem_cons_self) (outcome_readFrame hl hf)
        (outcome_resolve hl hf.code (hw f List.mem_cons_self))
    have hfresh : ∀ g ∈ rest, g.address ∉ f.address :: t.visited := fresh_of_cons hd.1 hv
    obtain ⟨r, hrun, hframes, hstatus⟩ := ih hrest
      (fun g hg => hw g (List.mem_cons_of_mem f hg)) hd.2 (Nat.le_of_succ_le_succ hr)
      (t := t.extend f.address (f.resolved w.layout.lineTable t.depth) true) hfresh
      (by rw [Trail.extend, ht]; rfl)
    refine ⟨r, hstep.trans hrun, ?_, hstatus⟩
    rw [hframes, List.mapIdx_cons]
    simp only [Trail.extend, List.reverse_cons, List.append_assoc, List.singleton_append,
      Nat.add_zero, Nat.add_assoc, Nat.add_comm 1]

/-- Walking a thread that memory holds gives its stack. -/
theorem outcome_walk (hl : w.layout.Usual) {t : ThreadImage} (h : m.FramesAt w.layout t.frames)
    (hw : t.Within w.options) (next : Address) :
    (w.walk ⟨t.address, next, FrameImage.first t.frames, t.threadId, false⟩).outcome m =
      .ok (t.stack w.layout.lineTable) := by
  obtain ⟨r, hrun, hframes, hstatus⟩ := outcome_walkFrom_frames (t := .start false) hl h hw.code
    hw.distinct hw.depth t.threadId (fun _ _ => List.not_mem_nil) rfl
  unfold walk
  rw [Probe.bind_eq, Probe.outcome_bind_ok hrun, hframes, hstatus]
  simp only [Trail.start, List.reverse_nil, List.nil_append, Nat.zero_add]
  rfl

theorem outcome_threadFrame (hl : w.layout.Usual) {a frame : Address} {link : Field × UInt64}
    {members : List (Field × UInt64)} {bytes : List UInt8}
    (hlink : m.LinkAt w.layout frame link) (h : m.Object w.layout .threadState a members bytes)
    (hm : link ∈ members) (thread : Address) :
    (w.threadFrame thread (w.layout.copy .threadState a bytes)).outcome m =
      .ok (.ok (frame, false)) := by
  unfold StillMemory.LinkAt at hlink
  unfold threadFrame Snapshot.pointer
  cases he : w.layout.frameLink with
  | direct =>
    simp only [he] at hlink ⊢
    subst hlink
    rw [h.unsigned hl hm (.inl rfl), outcome_demand_bind, Attempt.outcome_ok_bind]
    rfl
  | viaCFrame =>
    simp only [he] at hlink ⊢
    obtain ⟨cframe, record, rfl, ho⟩ := hlink
    have hread : (w.readUnsigned cframe .cframeCurrent).outcome m = .ok (.ok frame) :=
      outcome_readUnsigned hl ho.holds (ho.stores _ List.mem_cons_self) rfl ho.size
    have hframe : (w.cframeFrame thread cframe).outcome m = .ok (frame, false) :=
      (Probe.outcome_bind_ok (outcome_demandRead hread) _).trans rfl
    rw [h.unsigned hl hm (.inl rfl), outcome_demand_bind, Attempt.outcome_ok_bind,
      if_neg ho.holds.nonnull, Attempt.outcome_lift, hframe]
    rfl

theorem outcome_readThread (hl : w.layout.Usual) {t : ThreadImage} {next : Address}
    (h : m.ThreadAt w.layout t next) :
    (w.readThread t.address).outcome m =
      .ok (.ok ⟨t.address, next, FrameImage.first t.frames, t.threadId, false⟩) := by
  obtain ⟨link, bytes, hlink, ho⟩ := h.stored
  have hread := ho.outcome_readStruct hl (f := .threadNext) (v := next) (by simp) nofun
  have hnext := ho.unsigned hl (f := .threadNext) (v := next) (by simp) (.inl rfl)
  have hid := ho.unsigned hl (f := .threadId) (v := t.threadId) (by simp) (.inl rfl)
  have hframe := outcome_threadFrame hl hlink ho (by simp) t.address
  unfold readThread
  rw [Attempt.outcome_bind_ok (outcome_demandRead hread)]
  unfold threadHandle Snapshot.pointer
  simp only [hnext, hid]
  rw [outcome_demand_bind, outcome_demand_bind, Attempt.outcome_ok_bind,
    Attempt.outcome_ok_bind, Attempt.outcome_bind_ok hframe]
  rfl

theorem outcome_threadsFrom_visit {σ : Type} {interpreter address : Address}
    {visit : σ → ThreadHandle → ForInStep σ} {room : Nat} {visited : List Address}
    {r : ListWalk σ} {thread : ThreadHandle} {state : σ} (ha : address ≠ 0)
    (hm : address ∉ visited) (hread : (w.readThread address).outcome m = .ok (.ok thread))
    (hvisit : visit r.state thread = .yield state) :
    (w.threadsFrom interpreter visit (room + 1) address visited r).outcome m =
      (w.threadsFrom interpreter visit room thread.next (address :: visited)
        { r with
          state := state
          count := r.count + 1
          incomplete := r.incomplete || thread.frameUnavailable
          final := address }).outcome m := by
  conv => lhs; unfold threadsFrom
  simp only [if_neg ha]
  rw [Probe.bind_eq, Probe.outcome_bind_ok Probe.outcome_cancelled]
  simp only [Bool.false_eq_true, if_false, if_neg hm]
  rw [Probe.bind_eq, Probe.outcome_bind_ok hread]
  simp only [hvisit]

/-- Every thread that memory holds is found, and the walk ends at the end of the list. -/
theorem outcome_threadsFrom (hl : w.layout.Usual) {threads : List ThreadImage}
    (h : m.ThreadsAt w.layout threads) (hd : (threads.map ThreadImage.address).Nodup)
    {room : Nat} (hr : threads.length ≤ room) (interpreter : Address) {visited : List Address}
    (hv : ∀ t ∈ threads, t.address ∉ visited) (r : ListWalk (List ThreadHandle)) :
    ∃ r', (w.threadsFrom interpreter (fun seen t => .yield (t :: seen)) room
        (ThreadImage.first threads) visited r).outcome m = .ok r' ∧
      r'.state.reverse = r.state.reverse ++ ThreadImage.handles threads ∧
      r'.incomplete = r.incomplete ∧ r'.cycleDetected = r.cycleDetected := by
  induction threads generalizing room visited r with
  | nil =>
    unfold threadsFrom
    refine ⟨_, rfl, ?_, rfl, rfl⟩
    exact (List.append_nil _).symm
  | cons t rest ih =>
    obtain ⟨ht, hrest⟩ := h
    have h0 : room ≠ 0 := by
      rw [List.length_cons] at hr
      omega
    obtain ⟨room, rfl⟩ := Nat.exists_eq_succ_of_ne_zero h0
    obtain ⟨_, _, _, ho⟩ := ht.stored
    rw [List.map_cons, List.nodup_cons] at hd
    have hfresh : ∀ u ∈ rest, u.address ∉ t.address :: visited := fresh_of_cons hd.1 hv
    have hstep : (w.threadsFrom interpreter (fun seen t => .yield (t :: seen)) (room + 1) t.address
        visited r).outcome m = _ :=
      outcome_threadsFrom_visit ho.holds.nonnull (hv t List.mem_cons_self)
        (outcome_readThread hl ht) rfl
    obtain ⟨r', hrun, hstate, hi, hc⟩ := ih hrest hd.2 (Nat.le_of_succ_le_succ hr) hfresh
      { r with
        state :=
          ⟨t.address, ThreadImage.first rest, FrameImage.first t.frames, t.threadId, false⟩ ::
          r.state
        count := r.count + 1
        incomplete := r.incomplete || false
        final := t.address }
    refine ⟨r', hstep.trans hrun, ?_, hi.trans (Bool.or_false _), hc⟩
    rw [hstate, List.reverse_cons, List.append_assoc]
    rfl

theorem outcome_enumerateThreads (hl : w.layout.Usual) {threads : List ThreadImage}
    (h : m.ThreadsAt w.layout threads) (hd : (threads.map ThreadImage.address).Nodup)
    (hr : threads.length ≤ w.options.maxThreads.toNat) {interpreter : Address}
    {bytes : List UInt8}
    (ho : m.Object w.layout .interpreterState interpreter
      [(.interpreterThreads, ThreadImage.first threads)] bytes) :
    ∃ e, (w.enumerateThreads interpreter).outcome m =
      .ok ⟨ThreadImage.handles threads, false, false, e⟩ := by
  have hread : (w.readUnsigned interpreter .interpreterThreads).outcome m =
      .ok (.ok (ThreadImage.first threads)) :=
    outcome_readUnsigned hl ho.holds (ho.stores _ List.mem_cons_self) rfl ho.size
  obtain ⟨r, hrun, hstate, hi, hc⟩ := outcome_threadsFrom hl h hd hr interpreter
    (fun _ _ => List.not_mem_nil) (.start [])
  refine ⟨r.error, ?_⟩
  have hlist : (w.iterateThreads interpreter (fun seen t => .yield (t :: seen)) []).outcome m =
      .ok r := (Probe.outcome_bind_ok (outcome_demandRead hread) _).trans hrun
  unfold enumerateThreads
  rw [Probe.bind_eq, Probe.outcome_bind_ok hlist, hstate, hi, hc]
  rfl

end Walker

/-- The code object of `run` in `a.py`: line 10 and, from offset 4 on, line 11. -/
def smallCode (id : LayoutId) : CodeImage where
  function := ⟨[0x72, 0x75, 0x6E]⟩
  file := ⟨[0x61, 0x2E, 0x70, 0x79]⟩
  firstLine := 10
  table := match id with
    | .v33 | .v36 | .v39 => [4, 1]
    | .v310 => [4, 0, 4, 1]
    | .v311 => [0xD1, 0, 0, 0xD9, 0, 0]

def smallLink (id : LayoutId) (frame cframe : Address) : Field × UInt64 :=
  match (Layout.builtin id).frameLink with
  | .direct => (.threadFrame, frame)
  | .viaCFrame => (.threadCFrame, cframe)

/-- Two frames that run it, at offset 4 and at its beginning. -/
def smallFrames (id : LayoutId) : List FrameImage :=
  [⟨0x4000, 0x5000, smallCode id, 4⟩, ⟨0x4100, 0x5000, smallCode id, 0⟩]

/-- A thread with these frames and an idle one. -/
def smallThreads (id : LayoutId) : List ThreadImage :=
  [⟨0x2000, 11, smallFrames id⟩, ⟨0x3000, 12, []⟩]

/-- The objects of an interpreter with these threads, with their addresses. -/
def smallObjects (id : LayoutId) : List (Address × List UInt8) :=
  let l := Layout.builtin id
  let text (octets : List UInt8) : List UInt8 :=
    l.emit 48 [(.stringLength, UInt64.ofNat octets.length), (.stringKind, 1), (.stringCompact, 1),
      (.stringAscii, 1), (.stringReady, 1)] (octets ++ [0])
  let code := smallCode id
  [(0x1000, l.emit 24 [(.interpreterThreads, 0x2000)] []),
    (0x2000, l.emit 192 [(.threadNext, 0x3000), (.threadId, 11), smallLink id 0x4000 0x2800] []),
    (0x2800, l.emit 16 [(.cframeCurrent, 0x4000)] []),
    (0x3000, l.emit 192 [(.threadNext, 0), (.threadId, 12), smallLink id 0 0x3800] []),
    (0x3800, l.emit 16 [(.cframeCurrent, 0)] []),
    (0x4000, l.emit 128 [(.frameBack, 0x4100), (.frameCode, 0x5000), l.storedPosition 0x5000 4] []),
    (0x4100, l.emit 128 [(.frameBack, 0), (.frameCode, 0x5000), l.storedPosition 0x5000 0] []),
    (0x5000, l.emit 192 [(.codeName, 0x6000), (.codeFilename, 0x6100), (.codeFirstLine, 10),
      (.codeLineTable, 0x6200)] []),
    (0x6000, text code.function.octets),
    (0x6100, text code.file.octets),
    (0x6200, l.emit 32 [(.bytesSize, UInt64.ofNat code.table.length)] (code.table ++ [0]))]

def smallMemory (id : LayoutId) : Regions := .ofObjects (smallObjects id)

def smallBytes (id : LayoutId) (a : Address) : List UInt8 :=
  (((smallObjects id).find? (·.1 = a)).map Prod.snd).getD []

theorem smallObjects_place (id : LayoutId) :
    ∀ p ∈ smallObjects id, p.1 ≠ 0 ∧ p.1.toNat + p.2.length ≤ UInt64.size := by
  cases id <;> decide +kernel

theorem smallMemory_disjoint (id : LayoutId) : (smallMemory id).Disjoint := by
  unfold Regions.Disjoint
  cases id <;> decide +kernel

theorem smallMemory_object {id : LayoutId} {kind : StructKind} {members : List (Field × UInt64)}
    {a : Address}
    (h : (a, smallBytes id a) ∈ smallObjects id ∧
      ((Layout.builtin id).span kind).stop.toNat ≤ (smallBytes id a).length ∧
      ∀ p ∈ members, p.1.kind = kind ∧ (Layout.builtin id).Stores (smallBytes id a) p.1 p.2) :
    (smallMemory id).still.Object (.builtin id) kind a members (smallBytes id a) := by
  obtain ⟨ha, hs, hm⟩ := h
  obtain ⟨h0, hfits⟩ := smallObjects_place id _ ha
  exact Regions.object (smallMemory_disjoint id) (List.mem_map.mpr ⟨_, ha, rfl⟩) h0 hfits hs hm

theorem smallMemory_regional (id : LayoutId) : (smallMemory id).still.Regional := by
  refine Regions.regional (smallMemory_disjoint id) fun r hr => ?_
  obtain ⟨p, hp, rfl⟩ := List.mem_map.mp hr
  exact ⟨p.1, p.2, rfl, smallObjects_place id p hp⟩

theorem smallMemory_code (id : LayoutId) :
    (smallMemory id).still.CodeAt (.builtin id) 0x5000 (smallCode id) := by
  refine ⟨0x6000, 0x6100, 0x6200, smallBytes id 0x5000, ?_,
    ⟨?_, smallBytes id 0x6000, ?_, ?_⟩, ⟨?_, smallBytes id 0x6100, ?_, ?_⟩,
    smallBytes id 0x6200, ?_, ?_⟩
  · exact smallMemory_object (by cases id <;> decide +kernel)
  · cases id <;> decide +kernel
  · exact smallMemory_object (by cases id <;> decide +kernel)
  · cases id <;> decide +kernel
  · cases id <;> decide +kernel
  · exact smallMemory_object (by cases id <;> decide +kernel)
  · cases id <;> decide +kernel
  · exact smallMemory_object (by cases id <;> decide +kernel)
  · cases id <;> decide +kernel

theorem smallMemory_link (id : LayoutId) {frame cframe : Address}
    (h : (cframe, smallBytes id cframe) ∈ smallObjects id ∧
      ((Layout.builtin id).span .cframe).stop.toNat ≤ (smallBytes id cframe).length ∧
      ((Layout.builtin id).frameLink = .viaCFrame →
        (Layout.builtin id).Stores (smallBytes id cframe) .cframeCurrent frame)) :
    (smallMemory id).still.LinkAt (.builtin id) frame (smallLink id frame cframe) := by
  obtain ⟨ha, hs, hm⟩ := h
  unfold StillMemory.LinkAt smallLink
  cases hl : (Layout.builtin id).frameLink with
  | direct => rfl
  | viaCFrame =>
    refine ⟨cframe, smallBytes id cframe, rfl, smallMemory_object ⟨ha, hs, ?_⟩⟩
    intro p hp
    obtain rfl := List.mem_singleton.mp hp
    exact ⟨rfl, hm hl⟩

theorem smallMemory_frame {id : LayoutId} {a back : Address} {offset : Int64}
    (h : (a, smallBytes id a) ∈ smallObjects id ∧
      ((Layout.builtin id).span .frame).stop.toNat ≤ (smallBytes id a).length ∧
      ∀ p ∈ [(.frameBack, back), (.frameCode, 0x5000),
        (Layout.builtin id).storedPosition 0x5000 offset],
        p.1.kind = .frame ∧ (Layout.builtin id).Stores (smallBytes id a) p.1 p.2)
    (hr : (Layout.builtin id).Representable 0x5000 offset) :
    (smallMemory id).still.FrameAt (.builtin id) ⟨a, 0x5000, smallCode id, offset⟩ back :=
  ⟨⟨_, smallMemory_object h⟩, smallMemory_code id, hr⟩

theorem smallMemory_frames (id : LayoutId) :
    (smallMemory id).still.FramesAt (.builtin id) (smallFrames id) := by
  refine ⟨smallMemory_frame ?_ ?_, smallMemory_frame ?_ ?_, trivial⟩
  all_goals cases id <;> decide +kernel

theorem smallMemory_threads (id : LayoutId) :
    (smallMemory id).still.ThreadsAt (.builtin id) (smallThreads id) := by
  refine ⟨⟨⟨smallLink id 0x4000 0x2800, smallBytes id 0x2000, smallMemory_link id ?_,
      smallMemory_object ?_⟩, smallMemory_frames id⟩,
    ⟨⟨smallLink id 0 0x3800, smallBytes id 0x3000, smallMemory_link id ?_,
      smallMemory_object ?_⟩, trivial⟩, trivial⟩
  all_goals cases id <;> decide +kernel

theorem smallCode_within (id : LayoutId) {o : Options} (h : 4 ≤ o.maxStringLength.toNat) :
    (smallCode id).Within o where
  function_limit := Nat.le_trans (by cases id <;> decide) h
  function_max := by cases id <;> decide
  file_limit := h
  file_max := by cases id <;> decide
  table_max := by cases id <;> decide

theorem smallThreads_within (id : LayoutId) {o : Options} (hdepth : 2 ≤ o.maxStackDepth.toNat)
    (htext : 4 ≤ o.maxStringLength.toNat) : ∀ t ∈ smallThreads id, t.Within o := by
  intro t ht
  simp only [smallThreads, List.mem_cons, List.not_mem_nil, or_false] at ht
  rcases ht with rfl | rfl
  · refine ⟨by cases id <;> decide, hdepth, fun f hf => ?_⟩
    simp only [smallFrames, List.mem_cons, List.not_mem_nil, or_false] at hf
    rcases hf with rfl | rfl <;> exact smallCode_within id htext
  · exact ⟨List.nodup_nil, Nat.zero_le _, nofun⟩

theorem smallCode_line (id : LayoutId) :
    (smallCode id).line (Layout.builtin id).lineTable 4 = 11 := by
  cases id <;> decide +kernel

end StackPeek
