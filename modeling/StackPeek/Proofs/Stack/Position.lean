import StackPeek.Proofs.Image.Frames
import StackPeek.Proofs.Memory.Regions
import StackPeek.Proofs.Sampling.Bounded

/-!
# Where a frame stands in its bytecode

A build stores the current instruction of a frame as a position in bytes, as a count of code units
or as an address. `Layout.StandsAt` says that a frame is stored with its instruction at a distance
from the start of the bytecode, and `Layout.NotStarted` that it has none yet. Whichever of the three
the build uses, `Walker.readFrame` gives the distance back (`readFrame_position`). An index of
code units is doubled without overflow, whatever the bytes of the frame are.
-/

namespace StackPeek

theorem Bytes.ofNat_littleEndian (bytes : List UInt8) :
    ofNat bytes.length (littleEndian bytes) = bytes := by
  induction bytes with
  | nil => rfl
  | cons b rest ih =>
    have hb := b.toNat_lt
    have hlow : UInt8.ofNat (b.toNat + 256 * littleEndian rest) = b := by
      apply UInt8.toNat_inj.mp
      rw [UInt8.toNat_ofNat']
      omega
    have hrest : (b.toNat + 256 * littleEndian rest) / 256 = littleEndian rest := by omega
    rw [List.length_cons, littleEndian, ofNat, hlow, hrest, ih]

namespace Layout

/-- The frame is stored with its instruction at this distance from the start of the bytecode
of `code`. -/
inductive StandsAt (l : Layout) (bytes : List UInt8) (code : Address) : Nat → Prop where
  | byte {offset : Nat} : l.instruction = .lastiBytes → offset < UInt32.size / 2 →
      l.Stores bytes .frameLasti (storedIndex offset) → StandsAt l bytes code offset
  | unit {offset : Nat} : l.instruction = .lastiCodeUnits → offset % 2 = 0 →
      offset / 2 < UInt32.size / 2 → l.Stores bytes .frameLasti (storedIndex (offset / 2 : Nat)) →
      StandsAt l bytes code offset
  | address {offset : Nat} {bytecode : FieldSpec} : l.instruction = .prevInstrPointer →
      l.spec? .codeBytecode = some bytecode → offset < UInt64.size / 2 →
      code.toNat + bytecode.offset.toNat + offset < UInt64.size →
      l.Stores bytes .framePrevInstr (.ofNat (code.toNat + bytecode.offset.toNat + offset)) →
      StandsAt l bytes code offset

/-- The frame is stored before its first instruction. -/
inductive NotStarted (l : Layout) (bytes : List UInt8) (code : Address) : Prop where
  | index : l.instruction ≠ .prevInstrPointer → l.Stores bytes .frameLasti (storedIndex (-1)) →
      NotStarted l bytes code
  | before {bytecode : FieldSpec} : l.instruction = .prevInstrPointer →
      l.spec? .codeBytecode = some bytecode →
      l.Stores bytes .framePrevInstr (code + bytecode.offset - 2) → NotStarted l bytes code
  | null : l.instruction = .prevInstrPointer → l.Stores bytes .framePrevInstr 0 →
      NotStarted l bytes code

/-- The position agrees with what a frame with these bytes says of its instruction. An index is
taken as it is or doubled, over the integers. -/
structure Position (l : Layout) (bytes : List UInt8) (code : Address) (offset : Int64) : Prop where
  standing : code ≠ 0 → ∀ n, l.StandsAt bytes code n → offset.toInt = n
  waiting : l.NotStarted bytes code → offset < 0
  byte : l.instruction = .lastiBytes →
    ∃ i : Int32, l.Stores bytes .frameLasti i.toUInt32.toUInt64 ∧ offset.toInt = i.toInt
  unit : l.instruction = .lastiCodeUnits →
    ∃ i : Int32, l.Stores bytes .frameLasti i.toUInt32.toUInt64 ∧
      offset.toInt = if 0 < i.toInt then 2 * i.toInt else i.toInt

namespace Usual
variable {l : Layout} {f : Field} {bytes : List UInt8} (hl : l.Usual)
  (hb : (l.span f.kind).stop.toNat ≤ bytes.length)

include hl hb

theorem exists_stores {spec : FieldSpec} (hs : l.spec? f = some spec)
    (hi : spec.rule ≠ .inlineData) (hr : spec.rule ≠ .bitFlags) :
    ∃ v : UInt64, v.toNat < Bytes.capacity spec.width.toNat ∧ l.Stores bytes f v := by
  obtain ⟨-, hstop⟩ := hl.within hs hi
  have h8 : spec.width.toNat ≤ 8 :=
    UInt32.le_iff_toNat_le.mp ((hl.fits f spec hs).integer hi).2.2
  have hlen : (spec.part bytes).length = spec.width.toNat := by
    unfold FieldSpec.part
    rw [List.length_take, List.length_drop]
    omega
  have hlt : Bytes.littleEndian (spec.part bytes) < Bytes.capacity spec.width.toNat :=
    hlen ▸ Bytes.littleEndian_lt _
  have hword : (UInt64.ofNat (Bytes.littleEndian (spec.part bytes))).toNat =
      Bytes.littleEndian (spec.part bytes) :=
    UInt64.toNat_ofNat_of_lt (Nat.lt_of_lt_of_le hlt (Bytes.capacity_mono h8))
  refine ⟨_, hword ▸ hlt, spec, hs, ?_⟩
  unfold FieldSpec.Holds
  rw [if_neg hr, hword, ← hlen, Bytes.ofNat_littleEndian]

theorem exists_word (hf : f.shape = .word) (hs : (l.spec? f).isSome) :
    ∃ v, l.Stores bytes f v ∧ ∀ a, (l.copy f.kind a bytes).unsigned f = .ok v := by
  obtain ⟨spec, hs⟩ := Option.isSome_iff_exists.mp hs
  have hfits := hl.fits f spec hs
  rw [hf] at hfits
  have hr : spec.rule ≠ .inlineData ∧ spec.rule ≠ .bitFlags := by
    rcases hfits.1 with hr | hr <;> rw [hr] <;> exact ⟨nofun, nofun⟩
  obtain ⟨v, -, hv⟩ := hl.exists_stores hb hs hr.1 hr.2
  exact ⟨v, hv, fun a => hl.unsigned_copy hv hb a (.inl hf)⟩

theorem exists_int32 (hf : f.shape = .int32) (hs : (l.spec? f).isSome) :
    ∃ i : Int32, l.Stores bytes f i.toUInt32.toUInt64 ∧
      ∀ a, (l.copy f.kind a bytes).signed f = .ok i.toInt64 := by
  obtain ⟨spec, hs⟩ := Option.isSome_iff_exists.mp hs
  have hfits := hl.fits f spec hs
  rw [hf] at hfits
  obtain ⟨hr, hw⟩ := hfits
  obtain ⟨v, hlt, hv⟩ := hl.exists_stores hb hs (by rw [hr]; nofun) (by rw [hr]; nofun)
  rw [hw] at hlt
  have hlow : v.toNat < 4294967296 := hlt
  have hback : v = v.toUInt32.toInt32.toUInt32.toUInt64 := by
    apply UInt64.toNat_inj.mp
    rw [UInt32.toUInt32_toInt32, UInt32.toNat_toUInt64, UInt64.toNat_toUInt32]
    omega
  exact ⟨v.toUInt32.toInt32, hback ▸ hv, fun a => hl.signed_copy_int32 hv hb a hf hback⟩

theorem word_unique {u v : UInt64} (hf : f.shape = .word) (hu : l.Stores bytes f u)
    (hv : l.Stores bytes f v) : u = v := by
  have hsame := hl.unsigned_copy hu hb 0 (.inl hf)
  rw [hl.unsigned_copy hv hb 0 (.inl hf)] at hsame
  exact (Except.ok.inj hsame).symm

theorem int32_unique {i j : Int32} (hf : f.shape = .int32)
    (hi : l.Stores bytes f i.toUInt32.toUInt64) (hj : l.Stores bytes f j.toUInt32.toUInt64) :
    i = j := by
  have hsame := hl.signed_copy_int32 hi hb 0 hf rfl
  rw [hl.signed_copy_int32 hj hb 0 hf rfl] at hsame
  rw [← Int32.toInt32_toInt64 i, ← Except.ok.inj hsame, Int32.toInt32_toInt64]

end Usual
end Layout

namespace Walker
variable {w : Walker} {m : StillMemory} {a : Address} {bytes : List UInt8} {code : Address}

theorem toInt_unitsToBytes (i : Int32) :
    (unitsToBytes i.toInt64).toInt = if 0 < i.toInt then 2 * i.toInt else i.toInt := by
  have hlow : -2147483648 ≤ i.toInt := i.le_toInt
  have hhigh : i.toInt < 2147483648 := i.toInt_lt
  unfold unitsToBytes
  simp only [Int64.lt_iff_toInt_lt, Int64.toInt_zero, Int32.toInt_toInt64]
  split
  · have h2 : (2 : Int64).toInt = 2 := rfl
    rw [Int64.toInt_mul, Int32.toInt_toInt64, h2, Int.bmod_eq_of_le (by omega) (by omega),
      Int.mul_comm]
  · exact Int32.toInt_toInt64 i

theorem toInt_storedIndex {offset : Nat} (h : offset < UInt32.size / 2) :
    (Int32.ofInt offset).toInt = offset := by
  have h : offset < 2147483648 := h
  exact Int32.toInt_ofInt_of_le (by omega) (by omega)

theorem toInt_pointerToBytes {shift : UInt64} {offset : Nat} (h0 : code ≠ 0)
    (hoffset : offset < UInt64.size / 2) (hsum : code.toNat + shift.toNat + offset < UInt64.size) :
    (pointerToBytes code shift (.ofNat (code.toNat + shift.toNat + offset))).toInt = offset := by
  have hoffset : offset < 9223372036854775808 := hoffset
  have hpos : code.toNat ≠ 0 := fun hz => h0 (UInt64.toNat_inj.mp hz)
  have hword : UInt64.ofNat (code.toNat + shift.toNat + offset) =
      code + shift + (Int64.ofNat offset).toUInt64 := by
    rw [UInt64.ofNat_add, UInt64.ofNat_add, UInt64.ofNat_toNat, UInt64.ofNat_toNat]
    rfl
  have hnonnull : code + shift + (Int64.ofNat offset).toUInt64 ≠ 0 := by
    intro hz
    have hnat := congrArg UInt64.toNat (hword.trans hz)
    rw [UInt64.toNat_ofNat', Nat.mod_eq_of_lt hsum, UInt64.toNat_zero] at hnat
    omega
  rw [hword, pointerToBytes_add h0 rfl hnonnull, Int64.toInt_ofNat_of_lt hoffset]

theorem pointerToBytes_null (shift : UInt64) : pointerToBytes code shift 0 < 0 := by
  unfold pointerToBytes
  rw [if_pos (.inl rfl)]
  decide

theorem pointerToBytes_before (shift : UInt64) :
    pointerToBytes code shift (code + shift - 2) < 0 := by
  unfold pointerToBytes
  split
  · decide
  · have hback : code + shift - 2 - (code + shift) = -2 := by
      rw [UInt64.sub_eq_iff_eq_add, UInt64.add_comm (-2), ← UInt64.sub_eq_add_neg]
    rw [hback]
    decide

variable (hl : w.layout.Usual) (hb : (w.layout.span .frame).stop.toNat ≤ bytes.length)

include hl hb

theorem position_byte (he : w.layout.instruction = .lastiBytes) {i : Int32}
    (hi : w.layout.Stores bytes .frameLasti i.toUInt32.toUInt64) :
    w.layout.Position bytes code i.toInt64 where
  standing _ n h := by
    cases h with
    | byte _ hn hs =>
      rw [hl.int32_unique (f := .frameLasti) hb rfl hi hs, Int32.toInt_toInt64,
        toInt_storedIndex hn]
    | unit he' | address he' => rw [he] at he'; cases he'
  waiting h := by
    cases h with
    | index _ hs =>
      rw [hl.int32_unique (f := .frameLasti) hb rfl hi hs]
      decide
    | before he' | null he' => rw [he] at he'; cases he'
  byte _ := ⟨i, hi, Int32.toInt_toInt64 i⟩
  unit he' := by rw [he] at he'; cases he'

theorem position_unit (he : w.layout.instruction = .lastiCodeUnits) {i : Int32}
    (hi : w.layout.Stores bytes .frameLasti i.toUInt32.toUInt64) :
    w.layout.Position bytes code (unitsToBytes i.toInt64) where
  standing _ n h := by
    cases h with
    | unit _ heven hn hs =>
      rw [toInt_unitsToBytes, hl.int32_unique (f := .frameLasti) hb rfl hi hs,
        toInt_storedIndex hn]
      split <;> omega
    | byte he' | address he' => rw [he] at he'; cases he'
  waiting h := by
    cases h with
    | index _ hs =>
      rw [hl.int32_unique (f := .frameLasti) hb rfl hi hs]
      decide
    | before he' | null he' => rw [he] at he'; cases he'
  byte he' := by rw [he] at he'; cases he'
  unit _ := ⟨i, hi, toInt_unitsToBytes i⟩

theorem position_address (he : w.layout.instruction = .prevInstrPointer) {bytecode : FieldSpec}
    (hs : w.layout.spec? .codeBytecode = some bytecode) {v : Address}
    (hv : w.layout.Stores bytes .framePrevInstr v) :
    w.layout.Position bytes code (pointerToBytes code bytecode.offset v) where
  standing h0 n h := by
    cases h with
    | address _ hs' hn hsum hv' =>
      obtain rfl := Option.some.inj (hs.symm.trans hs')
      rw [hl.word_unique (f := .framePrevInstr) hb rfl hv hv', toInt_pointerToBytes h0 hn hsum]
    | byte he' | unit he' => rw [he] at he'; cases he'
  waiting h := by
    cases h with
    | before _ hs' hv' =>
      obtain rfl := Option.some.inj (hs.symm.trans hs')
      rw [hl.word_unique (f := .framePrevInstr) hb rfl hv hv']
      exact pointerToBytes_before _
    | null _ hv' =>
      rw [hl.word_unique (f := .framePrevInstr) hb rfl hv hv']
      exact pointerToBytes_null _
    | index he' => exact absurd he he'
  byte he' := by rw [he] at he'; cases he'
  unit he' := by rw [he] at he'; cases he'

/-- Whatever the bytes of a frame are, its position can be read and agrees with them. -/
theorem exists_position (code : Address) :
    ∃ offset, (w.instructionOffset (w.layout.copy .frame a bytes) code).outcome m =
      .ok (.ok offset) ∧ w.layout.Position bytes code offset := by
  have hmember : ∀ f, f ∈ w.layout.required → (w.layout.spec? f).isSome := hl.member
  unfold Layout.required at hmember
  unfold instructionOffset
  cases he : w.layout.instruction with
  | lastiBytes =>
    rw [he] at hmember
    obtain ⟨i, hi, hread⟩ := hl.exists_int32 (f := .frameLasti) hb rfl (hmember _ (by simp))
    have hread : (w.layout.copy .frame a bytes).signed .frameLasti = .ok i.toInt64 := hread a
    refine ⟨i.toInt64, ?_, position_byte hl hb he hi⟩
    simp only [hread]
    rw [outcome_demand_bind]
    rfl
  | lastiCodeUnits =>
    rw [he] at hmember
    obtain ⟨i, hi, hread⟩ := hl.exists_int32 (f := .frameLasti) hb rfl (hmember _ (by simp))
    have hread : (w.layout.copy .frame a bytes).signed .frameLasti = .ok i.toInt64 := hread a
    refine ⟨unitsToBytes i.toInt64, ?_, position_unit hl hb he hi⟩
    simp only [hread]
    rw [outcome_demand_bind, Attempt.outcome_ok_bind]
    rfl
  | prevInstrPointer =>
    rw [he] at hmember
    obtain ⟨v, hv, hread⟩ := hl.exists_word (f := .framePrevInstr) hb rfl (hmember _ (by simp))
    have hread : (w.layout.copy .frame a bytes).pointer .framePrevInstr = .ok v := hread a
    obtain ⟨bytecode, hs⟩ := Option.isSome_iff_exists.mp (hmember .codeBytecode (by simp))
    refine ⟨pointerToBytes code bytecode.offset v, ?_, position_address hl hb he hs hv⟩
    simp only [hread]
    rw [outcome_demand_bind, Attempt.outcome_ok_bind, hs]
    rfl

omit hl hb

/-- With a known build, every frame in memory is read, with the addresses that it holds and with a
position that agrees with what it says of its instruction: the distance from the start of the
bytecode that was stored, in whichever of the three forms, and a number below zero before the first
instruction. -/
theorem readFrame_position {σ : Type} {t : Target σ} (ht : t.Frozen m) (w : Walker) (id : LayoutId)
    (hid : w.layout = .builtin id) (hm : m.Holds a bytes)
    (hsize : (w.layout.span .frame).stop.toNat ≤ bytes.length) (s : σ) :
    ∃ frame : FrameHandle, ((w.readFrame a).run.run t s).1 = .ok (.ok frame) ∧
      frame.address = a ∧
      (∀ back, w.layout.Stores bytes .frameBack back → frame.back = back) ∧
      (∀ code, w.layout.Stores bytes .frameCode code → frame.code = code) ∧
      w.layout.Position bytes frame.code frame.instructionOffset := by
  have hl : w.layout.Usual := by
    rw [hid]
    exact Layout.builtin_usual id
  have always : ∀ f ∈ Layout.alwaysRequired, (w.layout.spec? f).isSome := fun f hf =>
    hl.member f (List.mem_append_left _ (List.mem_append_left _ hf))
  obtain ⟨back, hback, -⟩ := hl.exists_word (f := .frameBack) hsize rfl (always _ (by decide))
  obtain ⟨code, hcode, -⟩ := hl.exists_word (f := .frameCode) hsize rfl (always _ (by decide))
  obtain ⟨offset, hoffset, hposition⟩ := exists_position (m := m) (a := a) hl hsize code
  have ho : m.Object w.layout .frame a [(.frameBack, back), (.frameCode, code)] bytes :=
    ⟨hm, hsize, by simp [Field.kind], by simp [hback, hcode]⟩
  refine ⟨⟨a, back, code, offset⟩, ?_, rfl, ?_, ?_, hposition⟩
  · rw [(costs_readFrame a).run_frozen ht]
    exact outcome_readFrame_object hl ho (by simp) (by simp) hoffset
  · intro v hv
    exact hl.word_unique (f := .frameBack) hsize rfl hback hv
  · intro v hv
    exact hl.word_unique (f := .frameCode) hsize rfl hcode hv

/-- A frame as the build stores it at a position in the bytecode at `0x3000`. -/
def storedFrame (id : LayoutId) (offset : Int64) : List UInt8 :=
  (Layout.builtin id).emit 128 [(.frameBack, 0x2000), (.frameCode, 0x3000),
    (Layout.builtin id).storedPosition 0x3000 offset] []

def storedMemory (id : LayoutId) (offset : Int64) : StillMemory :=
  Regions.still [Region.of 0x1000 (storedFrame id offset)]

section Stored
variable (id : LayoutId) {offset : Int64}

theorem storedFrame_standsAt : (Layout.builtin id).StandsAt (storedFrame id 12) 0x3000 12 := by
  cases id with
  | v33 | v36 | v39 => exact .byte rfl (by decide) (by decide +kernel)
  | v310 => exact .unit rfl (by decide) (by decide) (by decide +kernel)
  | v311 => exact .address rfl rfl (by decide) (by decide) (by decide +kernel)

theorem storedFrame_notStarted : (Layout.builtin id).NotStarted (storedFrame id (-1)) 0x3000 := by
  cases id with
  | v33 | v36 | v39 | v310 => exact .index (by decide) (by decide +kernel)
  | v311 => exact .before rfl rfl (by decide +kernel)

variable (h : offset = 12 ∨ offset = -1)

include h

theorem storedMemory_holds : (storedMemory id offset).Holds 0x1000 (storedFrame id offset) := by
  apply Regions.holds _ (List.pairwise_singleton _ _) (.head _) (by decide)
  rcases h with rfl | rfl <;> cases id <;> decide +kernel

theorem storedFrame_size :
    ((Layout.builtin id).span .frame).stop.toNat ≤ (storedFrame id offset).length := by
  rcases h with rfl | rfl <;> cases id <;> decide +kernel

theorem storedFrame_stores :
    (Layout.builtin id).Stores (storedFrame id offset) .frameBack 0x2000 ∧
      (Layout.builtin id).Stores (storedFrame id offset) .frameCode 0x3000 := by
  rcases h with rfl | rfl <;> cases id <;> decide +kernel

end Stored

theorem readFrame_position_stored :
    (∀ id, (Layout.builtin id).StandsAt (storedFrame id 12) 0x3000 12) ∧
      (∀ id, (Layout.builtin id).NotStarted (storedFrame id (-1)) 0x3000) ∧
      (∀ id, (((⟨.builtin id, .standard⟩ : Walker).readFrame 0x1000).run.run
        (storedMemory id 12).target ()).1 = .ok (.ok ⟨0x1000, 0x2000, 0x3000, 12⟩)) ∧
      ∀ id, ∃ offset < 0, (((⟨.builtin id, .standard⟩ : Walker).readFrame 0x1000).run.run
        (storedMemory id (-1)).target ()).1 = .ok (.ok ⟨0x1000, 0x2000, 0x3000, offset⟩) := by
  have hcode0 : (0x3000 : Address) ≠ 0 := by decide
  refine ⟨storedFrame_standsAt, storedFrame_notStarted, fun id => ?_, fun id => ?_⟩
  · obtain ⟨hback, hcode⟩ := storedFrame_stores id (.inl rfl)
    obtain ⟨⟨address, back, code, offset⟩, hrun, rfl, hb, hc, hposition⟩ :=
      readFrame_position (StillMemory.target_frozen _) ⟨.builtin id, .standard⟩ id rfl
        (storedMemory_holds id (.inl rfl)) (storedFrame_size id (.inl rfl)) ()
    obtain rfl : back = 0x2000 := hb _ hback
    obtain rfl : code = 0x3000 := hc _ hcode
    have ho : offset = 12 := by
      apply Int64.toInt_inj.mp
      rw [hposition.standing hcode0 12 (storedFrame_standsAt id)]
      rfl
    rw [hrun, ho]
  · obtain ⟨hback, hcode⟩ := storedFrame_stores id (.inr rfl)
    obtain ⟨⟨address, back, code, offset⟩, hrun, rfl, hb, hc, hposition⟩ :=
      readFrame_position (StillMemory.target_frozen _) ⟨.builtin id, .standard⟩ id rfl
        (storedMemory_holds id (.inr rfl)) (storedFrame_size id (.inr rfl)) ()
    obtain rfl : back = 0x2000 := hb _ hback
    obtain rfl : code = 0x3000 := hc _ hcode
    exact ⟨offset, hposition.waiting (storedFrame_notStarted id), hrun⟩

end Walker
end StackPeek
