import StackPeek.Layout.Validate
import StackPeek.Member.Read
import StackPeek.Proofs.Member.Range

/-!
# Structures stored in memory

`StillMemory.Holds` says that a run of bytes can be read at an address, in whatever pieces it
is asked for. `Layout.Stores` says that such bytes hold a value in a member, as a program of
that build would write it. The lemmas read those values back: a copy of the structure that is
big enough gives them all, and so does reading a single member.
-/

namespace StackPeek

/-- From `a` on the memory holds these bytes, in whatever pieces they are asked for. -/
structure StillMemory.Holds (m : StillMemory) (a : Address) (bytes : List UInt8) : Prop where
  nonnull : a ≠ 0
  fits : a.toNat + bytes.length ≤ UInt64.size
  copied : ∀ offset n : UInt64, 0 < n.toNat → offset.toNat + n.toNat ≤ bytes.length →
    m (a + offset) n = .copied ((bytes.drop offset.toNat).take n.toNat)

namespace StillMemory.Holds
variable {m : StillMemory} {a : Address} {bytes : List UInt8} {offset n : UInt64}

theorem toNat_add (h : m.Holds a bytes) (ho : offset.toNat < bytes.length) :
    (a + offset).toNat = a.toNat + offset.toNat := by
  have hf : a.toNat + bytes.length ≤ 18446744073709551616 := h.fits
  rw [UInt64.toNat_add, Nat.mod_eq_of_lt (by omega)]

theorem toNat_pos (h : m.Holds a bytes) : 0 < a.toNat := by
  have hn := h.nonnull
  rcases Nat.eq_zero_or_pos a.toNat with h0 | h0
  · exact absurd (UInt64.toNat_inj.mp h0) hn
  · exact h0

theorem add_ne_zero (h : m.Holds a bytes) (ho : offset.toNat < bytes.length) :
    a + offset ≠ 0 := by
  intro h0
  have ht := h.toNat_add ho
  have hp := h.toNat_pos
  rw [h0] at ht
  have h0' : (0 : UInt64).toNat = 0 := rfl
  omega

theorem plus? (h : m.Holds a bytes) (ho : offset.toNat < bytes.length) :
    a.plus? offset = .ok (a + offset) := by
  have hf := h.fits
  exact Address.plus?_of_lt h.nonnull (by omega)

theorem outcome_fetchAll (h : m.Holds a bytes) (ho : offset.toNat < bytes.length)
    (hn : offset.toNat + n.toNat ≤ bytes.length) (hm : n ≤ Memory.maxRawRead) :
    (Memory.fetchAll (a + offset) n).outcome m =
      .ok (.ok ((bytes.drop offset.toNat).take n.toNat)) := by
  by_cases h0 : n = 0
  · subst h0
    exact Memory.outcome_fetchAll_zero (h.add_ne_zero ho)
  · have hpos : n.toNat ≠ 0 := fun hz => h0 (UInt64.toNat_inj.mp hz)
    have hlen : n.toNat ≤ ((bytes.drop offset.toNat).take n.toNat).length := by
      rw [List.length_take, List.length_drop]
      omega
    rw [Memory.outcome_fetchAll_copied hm (h.add_ne_zero ho) h0
      (h.copied offset n (by omega) hn) hlen, List.take_take, Nat.min_self]

theorem outcome_prefix (h : m.Holds a bytes) (hn : n.toNat ≤ bytes.length)
    (hm : n ≤ Memory.maxRawRead) :
    (Memory.fetchAll a n).outcome m = .ok (.ok (bytes.take n.toNat)) := by
  by_cases h0 : n = 0
  · subst h0
    exact Memory.outcome_fetchAll_zero h.nonnull
  · have hpos : n.toNat ≠ 0 := fun hz => h0 (UInt64.toNat_inj.mp hz)
    have hzero : (0 : UInt64).toNat = 0 := rfl
    have hf : (Memory.fetchAll (a + 0) n).outcome m =
        .ok (.ok ((bytes.drop (0 : UInt64).toNat).take n.toNat)) :=
      h.outcome_fetchAll (by omega) (by omega) hm
    rwa [UInt64.add_zero, hzero, List.drop_zero] at hf

theorem piece {n : Nat} (h : m.Holds a bytes) (ho : offset.toNat < bytes.length)
    (hn : offset.toNat + n ≤ bytes.length) :
    m.Holds (a + offset) ((bytes.drop offset.toNat).take n) := by
  have hf : a.toNat + bytes.length ≤ 18446744073709551616 := h.fits
  have ha := h.toNat_add ho
  have hlen : ((bytes.drop offset.toNat).take n).length = n := by
    rw [List.length_take, List.length_drop]
    omega
  refine ⟨h.add_ne_zero ho, ?_, ?_⟩
  · rw [ha, hlen]
    exact Nat.le_trans (by omega) h.fits
  · intro k j hj hle
    rw [hlen] at hle
    have hsum : (offset + k).toNat = offset.toNat + k.toNat := by
      rw [UInt64.toNat_add, Nat.mod_eq_of_lt (by omega)]
    rw [UInt64.add_assoc, h.copied (offset + k) j hj (by omega), hsum, List.drop_take,
      List.take_take, List.drop_drop, Nat.min_eq_left (by omega)]

end StillMemory.Holds

/-- The kinds of members that all builds agree on. -/
inductive Shape where
  | word
  | text
  | int32
  | int64
  | flags
  | inlined
  deriving DecidableEq

def Field.shape : Field → Shape
  | .codeFirstLine | .frameLasti => .int32
  | .bytesSize | .stringLength | .stringUtf8Length | .stringWideLength => .int64
  | .stringInterned | .stringKind | .stringCompact | .stringAscii | .stringReady => .flags
  | .codeBytecode | .bytesData | .stringAsciiData | .stringCompactData => .inlined
  | .codeFilename | .codeName => .text
  | _ => .word

def Shape.Fits : Shape → FieldSpec → Prop
  | .word, spec => (spec.rule = .unsigned ∨ spec.rule = .pointer) ∧ spec.width = 8
  | .text, spec => spec.rule = .string ∧ spec.width = 8
  | .int32, spec => spec.rule = .signed ∧ spec.width = 4
  | .int64, spec => spec.rule = .signed ∧ spec.width = 8
  | .flags, spec => spec.rule = .bitFlags ∧ spec.wellShaped
  | .inlined, spec => spec.rule = .inlineData

instance : (shape : Shape) → (spec : FieldSpec) → Decidable (shape.Fits spec)
  | .word, spec => inferInstanceAs (Decidable ((spec.rule = .unsigned ∨ _) ∧ _ = _))
  | .text, spec => inferInstanceAs (Decidable (spec.rule = .string ∧ _ = _))
  | .int32, spec | .int64, spec => inferInstanceAs (Decidable (spec.rule = .signed ∧ _ = _))
  | .flags, spec => inferInstanceAs (Decidable (spec.rule = .bitFlags ∧ _ = true))
  | .inlined, spec => inferInstanceAs (Decidable (spec.rule = .inlineData))

/-- A layout with members of the usual shapes, all of them near the start of their structure. -/
structure Layout.Usual (l : Layout) : Prop where
  member : ∀ f ∈ l.required, (l.spec? f).isSome
  fits : ∀ f spec, l.spec? f = some spec → f.shape.Fits spec
  near : ∀ f spec, l.spec? f = some spec → spec.offset.toNat + spec.width.toNat ≤ 4096
  span : ∀ kind, (l.span kind).stop ≤ 4096

theorem Layout.forall_spec {l : Layout} {P : Field → FieldSpec → Prop}
    [∀ f spec, Decidable (P f spec)]
    (h : Field.all.all fun f => (l.spec? f).all fun spec => P f spec)
    {f : Field} {spec : FieldSpec} (hs : l.spec? f = some spec) : P f spec := by
  have hf := List.all_eq_true.mp h f f.mem_all
  rw [hs] at hf
  exact of_decide_eq_true hf

theorem Layout.builtin_usual (id : LayoutId) : (Layout.builtin id).Usual where
  member := by cases id <;> decide
  fits f spec :=
    Layout.forall_spec (P := fun f spec => f.shape.Fits spec) (by cases id <;> decide)
  near f spec :=
    Layout.forall_spec (P := fun _ spec => spec.offset.toNat + spec.width.toNat ≤ 4096)
      (by cases id <;> decide)
  span kind := by cases id <;> cases kind <;> decide

theorem Shape.Fits.integer {shape : Shape} {spec : FieldSpec} (h : shape.Fits spec)
    (hi : spec.rule ≠ .inlineData) :
    spec.rule ≠ .charArray ∧ 0 < spec.width ∧ spec.width ≤ 8 := by
  cases shape with
  | word =>
    obtain ⟨hr, hw⟩ := h
    rw [hw]
    rcases hr with hr | hr <;> rw [hr] <;> decide
  | text | int32 | int64 =>
    obtain ⟨hr, hw⟩ := h
    rw [hr, hw]
    decide
  | flags =>
    obtain ⟨hr, hw⟩ := h
    rw [hr]
    exact ⟨by decide, FieldSpec.width_of_wellShaped hw⟩
  | inlined => exact absurd h hi

theorem Shape.Fits.not_inlined {shape : Shape} {spec : FieldSpec} (h : shape.Fits spec)
    (hs : shape ≠ .inlined) : spec.rule ≠ .inlineData := by
  intro hi
  cases shape with
  | word => rcases h.1 with hr | hr <;> rw [hr] at hi <;> cases hi
  | text | int32 | int64 | flags =>
    have hr := h.1
    rw [hr] at hi
    cases hi
  | inlined => exact hs rfl

theorem Shape.Fits.of_unsigned {shape : Shape} {spec : FieldSpec} (h : shape.Fits spec)
    (hs : shape = .word ∨ shape = .text ∨ shape = .flags) :
    spec.rule ≠ .signed ∧ (spec.rule ≠ .bitFlags → spec.width = 8) := by
  rcases hs with rfl | rfl | rfl
  · obtain ⟨hr, hw⟩ := h
    refine ⟨?_, fun _ => hw⟩
    intro hn
    rcases hr with hr | hr <;> rw [hr] at hn <;> cases hn
  · obtain ⟨hr, hw⟩ := h
    refine ⟨?_, fun _ => hw⟩
    intro hn
    rw [hr] at hn
    cases hn
  · obtain ⟨hr, -⟩ := h
    constructor
    · intro hn
      rw [hr] at hn
      cases hn
    · intro hn
      exact absurd hr hn

theorem Shape.Fits.wellShaped {shape : Shape} {spec : FieldSpec} (h : shape.Fits spec)
    (hb : spec.rule = .bitFlags) : spec.wellShaped = true := by
  cases shape with
  | flags => exact h.2
  | word => rcases h.1 with hr | hr <;> rw [hr] at hb <;> cases hb
  | text | int32 | int64 =>
    have hr := h.1
    rw [hr] at hb
    cases hb
  | inlined =>
    have hr : spec.rule = .inlineData := h
    rw [hr] at hb
    cases hb

/-- The bytes of a structure that belong to a member. -/
def FieldSpec.part (spec : FieldSpec) (bytes : List UInt8) : List UInt8 :=
  (bytes.drop spec.offset.toNat).take spec.width.toNat

/-- The bytes hold a value in a member: its low bytes, or its bits where the member is a run
of bits. -/
def FieldSpec.Holds (spec : FieldSpec) (bytes : List UInt8) (v : UInt64) : Prop :=
  if spec.rule = .bitFlags then
    (Bytes.littleEndian (spec.part bytes) >>> spec.bitOffset.toNat) %
      (1 <<< spec.bitWidth.toNat) = v.toNat
  else spec.part bytes = Bytes.ofNat spec.width.toNat v.toNat

theorem FieldSpec.decode_take (spec : FieldSpec) (bytes : List UInt8) :
    spec.decode bytes = spec.decode (bytes.take spec.width.toNat) := by
  unfold FieldSpec.decode
  rw [List.take_take, Nat.min_self]

theorem FieldSpec.decode_of_holds {spec : FieldSpec} {shape : Shape} {bytes : List UInt8}
    {v : UInt64} (hs : shape.Fits spec) (hi : spec.rule ≠ .inlineData) (h : spec.Holds bytes v)
    (hv : spec.rule ≠ .bitFlags → v.toNat < Bytes.capacity spec.width.toNat) :
    spec.decode (spec.part bytes) = .ok v := by
  obtain ⟨-, hpos, hw⟩ := hs.integer hi
  have hwidth : ¬ (spec.width = 0 ∨ 8 < spec.width) := by
    rintro (h0 | h8)
    · rw [h0] at hpos
      exact absurd hpos (by decide)
    · exact UInt32.not_lt.mpr hw h8
  have htake : (spec.part bytes).take spec.width.toNat = spec.part bytes := by
    unfold FieldSpec.part
    rw [List.take_take, Nat.min_self]
  unfold FieldSpec.decode
  rw [if_neg hwidth, htake]
  unfold FieldSpec.Holds at h
  by_cases hb : spec.rule = .bitFlags
  · rw [if_pos hb] at h ⊢
    have hrange := FieldSpec.range_of_wellShaped (hs.wellShaped hb) hb
    rw [if_neg hrange, h, UInt64.ofNat_toNat]
  · rw [if_neg hb] at h ⊢
    rw [h, Bytes.littleEndian_ofNat, Nat.mod_eq_of_lt (hv hb), UInt64.ofNat_toNat]

/-- The layout has the member, and the bytes of a structure hold a value in it. -/
def Layout.Stores (l : Layout) (bytes : List UInt8) (f : Field) (v : UInt64) : Prop :=
  ∃ spec, l.spec? f = some spec ∧ spec.Holds bytes v

instance (spec : FieldSpec) (bytes : List UInt8) (v : UInt64) : Decidable (spec.Holds bytes v) :=
  inferInstanceAs (Decidable (if spec.rule = .bitFlags then _ = _ else _ = _))

/-- The layout has the member, and data of variable length is stored there with something
behind it. -/
def Layout.StoresInline (l : Layout) (bytes : List UInt8) (f : Field) (data : List UInt8) : Prop :=
  ∃ spec, l.spec? f = some spec ∧ spec.offset.toNat + data.length < bytes.length ∧
    (bytes.drop spec.offset.toNat).take data.length = data

instance (l : Layout) (bytes : List UInt8) (f : Field) (v : UInt64) :
    Decidable (l.Stores bytes f v) :=
  inferInstanceAs (Decidable (∃ spec ∈ l.spec? f, spec.Holds bytes v))

instance (l : Layout) (bytes : List UInt8) (f : Field) (data : List UInt8) :
    Decidable (l.StoresInline bytes f data) :=
  inferInstanceAs (Decidable (∃ spec ∈ l.spec? f, _ < _ ∧ _ = _))

/-- Writes a value into a member: its low bytes, or its bits where the member is a run of
bits of a byte. -/
def FieldSpec.write (spec : FieldSpec) (bytes : List UInt8) (v : UInt64) : List UInt8 :=
  let offset := spec.offset.toNat
  if spec.rule = .bitFlags then
    let mask := ((1 <<< spec.bitWidth) - 1) <<< spec.bitOffset
    bytes.modify offset fun b => (b &&& ~~~mask) ||| ((v.toUInt8 <<< spec.bitOffset) &&& mask)
  else
    bytes.take offset ++ Bytes.ofNat spec.width.toNat v.toNat ++
      bytes.drop (offset + spec.width.toNat)

/-- A structure of zero bytes with some members written, and data behind it. -/
def Layout.emit (l : Layout) (size : Nat) (members : List (Field × UInt64)) (data : List UInt8) :
    List UInt8 :=
  members.foldl (fun bytes p => ((l.spec? p.1).map fun spec => spec.write bytes p.2).getD bytes)
    (List.replicate size 0) ++ data

/-- What a copy of the structure with these bytes has in it. -/
def Layout.copy (l : Layout) (kind : StructKind) (a : Address) (bytes : List UInt8) : Snapshot :=
  ⟨l, kind, a, l.span kind,
    (bytes.drop (l.span kind).start.toNat).take (l.span kind).size.toNat⟩

namespace Layout.Usual
variable {l : Layout} {f : Field} {spec : FieldSpec}

theorem within (hl : l.Usual) (hs : l.spec? f = some spec) (hi : spec.rule ≠ .inlineData) :
    (l.span f.kind).start.toNat ≤ spec.offset.toNat ∧
      spec.offset.toNat + spec.width.toNat ≤ (l.span f.kind).stop.toNat := by
  have hn := hl.near f spec hs
  have hsize : UInt64.size = 18446744073709551616 := rfl
  exact within_span (mem_placed.mpr ⟨f, rfl, hs, hi⟩) (by omega)

theorem size_toNat (h : (l.span f.kind).start.toNat ≤ (l.span f.kind).stop.toNat) :
    (l.span f.kind).size.toNat = (l.span f.kind).stop.toNat - (l.span f.kind).start.toNat :=
  UInt64.toNat_sub_of_le _ _ (UInt64.le_iff_toNat_le.mpr h)

theorem raw_copy (hl : l.Usual) (hs : l.spec? f = some spec) (hi : spec.rule ≠ .inlineData)
    {bytes : List UInt8} (hb : (l.span f.kind).stop.toNat ≤ bytes.length) (a : Address) :
    (l.copy f.kind a bytes).raw f = spec.decode (spec.part bytes) := by
  obtain ⟨hstart, hstop⟩ := hl.within hs hi
  have hsize := size_toNat (l := l) (f := f) (by omega)
  have hlen : (l.copy f.kind a bytes).bytes.length = (l.span f.kind).size.toNat := by
    simp only [copy, List.length_take, List.length_drop]
    omega
  have hposition : (l.copy f.kind a bytes).position spec =
      spec.offset.toNat - (l.span f.kind).start.toNat := rfl
  have hinside : (l.copy f.kind a bytes).Inside spec := ⟨hstart, by omega⟩
  have hinteger : spec.rule.isInteger = true :=
    DecodeRule.isInteger_iff.mpr ⟨((hl.fits f spec hs).integer hi).1, hi⟩
  have hraw : (l.copy f.kind a bytes).raw f = _ :=
    hinside.raw_eq hs rfl hinteger (hlen ▸ (l.span f.kind).size.toNat_lt)
  rw [hraw, FieldSpec.decode_take, hposition]
  refine congrArg spec.decode ?_
  simp only [copy, FieldSpec.part]
  rw [List.drop_take, List.take_take, List.drop_drop, Nat.min_eq_left (by omega),
    Nat.add_sub_cancel' hstart]

section Values
variable {bytes : List UInt8} {v : UInt64} (hl : l.Usual) (h : l.Stores bytes f v)
  (hb : (l.span f.kind).stop.toNat ≤ bytes.length) (a : Address)

include hl h hb

theorem unsigned_copy (hf : f.shape = .word ∨ f.shape = .text ∨ f.shape = .flags) :
    (l.copy f.kind a bytes).unsigned f = .ok v := by
  obtain ⟨spec, hs, hv⟩ := h
  have hfits := hl.fits f spec hs
  obtain ⟨hsigned, hwidth⟩ := hfits.of_unsigned hf
  have hi : spec.rule ≠ .inlineData := by
    apply hfits.not_inlined
    rcases hf with hf | hf | hf <;> rw [hf] <;> nofun
  have hlt : spec.rule ≠ .bitFlags → v.toNat < Bytes.capacity spec.width.toNat := by
    intro hr
    rw [hwidth hr]
    exact v.toNat_lt
  have hraw := hl.raw_copy hs hi hb a
  rw [FieldSpec.decode_of_holds hfits hi hv hlt] at hraw
  have hlayout : (l.copy f.kind a bytes).layout.spec? f = some spec := hs
  unfold Snapshot.unsigned
  rw [hraw, hlayout]
  exact if_neg fun hneg => hsigned hneg.1

theorem signed_copy (width : Nat) (hf : ∀ spec, l.spec? f = some spec →
      spec.rule = .signed ∧ spec.width.toNat = width) (hv : v.toNat < Bytes.capacity width) :
    (l.copy f.kind a bytes).signed f = .ok (FieldSpec.signExtend width v) := by
  obtain ⟨spec, hs, hh⟩ := h
  obtain ⟨hr, rfl⟩ := hf spec hs
  have hi : spec.rule ≠ .inlineData := by
    rw [hr]
    nofun
  have hraw := hl.raw_copy hs hi hb a
  rw [FieldSpec.decode_of_holds (hl.fits f spec hs) hi hh fun _ => hv] at hraw
  have hlayout : (l.copy f.kind a bytes).layout.spec? f = some spec := hs
  unfold Snapshot.signed
  rw [hraw, hlayout]
  exact if_pos hr

theorem signed_copy_int64 (hf : f.shape = .int64) :
    (l.copy f.kind a bytes).signed f = .ok v.toInt64 := by
  refine signed_copy hl h hb a 8 (fun spec hs => ?_) v.toNat_lt
  have hfits := hl.fits f spec hs
  rw [hf] at hfits
  exact ⟨hfits.1, by rw [hfits.2]; rfl⟩

theorem signed_copy_int32 (hf : f.shape = .int32) {i : Int32} (hi : v = i.toUInt32.toUInt64) :
    (l.copy f.kind a bytes).signed f = .ok i.toInt64 := by
  subst hi
  have hn : i.toUInt32.toUInt64.toNat = i.toUInt32.toNat := UInt32.toNat_toUInt64 _
  have hs := signed_copy hl h hb a 4 (fun spec hs => ?_) (by rw [hn]; exact i.toUInt32.toNat_lt)
  · rw [hs]
    refine congrArg Except.ok ?_
    unfold FieldSpec.signExtend
    rw [if_neg (by decide), hn, ← Int64.ofInt_int32ToInt]
    exact congrArg Int64.ofInt (BitVec.toInt_eq_toNat_bmod i.toBitVec).symm
  · have hfits := hl.fits f spec hs
    rw [hf] at hfits
    exact ⟨hfits.1, by rw [hfits.2]; rfl⟩

end Values

end Layout.Usual
namespace Walker
variable {w : Walker} {m : StillMemory} {a : Address} {bytes : List UInt8} {f : Field} {v : UInt64}

theorem outcome_readStruct (hl : w.layout.Usual) (h : m.Holds a bytes)
    (hs : w.layout.Stores bytes f v) (hf : f.shape ≠ .inlined)
    (hb : (w.layout.span f.kind).stop.toNat ≤ bytes.length) :
    (w.readStruct a f.kind).outcome m = .ok (.ok (w.layout.copy f.kind a bytes)) := by
  obtain ⟨spec, hs, -⟩ := hs
  have hfits := hl.fits f spec hs
  have hi := hfits.not_inlined hf
  obtain ⟨hstart, hstop⟩ := hl.within hs hi
  have hpos := UInt32.lt_iff_toNat_lt.mp (hfits.integer hi).2.1
  have h0 : (0 : UInt32).toNat = 0 := rfl
  have hsize := Layout.Usual.size_toNat (l := w.layout) (f := f) (by omega)
  have hspan := UInt64.le_iff_toNat_le.mp (hl.span f.kind)
  have h4096 : (4096 : UInt64).toNat = 4096 := rfl
  have hne : (w.layout.span f.kind).size ≠ 0 := by
    intro hz
    rw [hz] at hsize
    have h0' : (0 : UInt64).toNat = 0 := rfl
    omega
  have hmax : (w.layout.span f.kind).size ≤ Memory.maxRawRead := by
    rw [UInt64.le_iff_toNat_le]
    have hm : Memory.maxRawRead.toNat = 4194304 := rfl
    omega
  unfold readStruct
  simp only [if_neg hne]
  rw [h.plus? (by omega), Attempt.outcome_ok_bind,
    Attempt.outcome_bind_ok (h.outcome_fetchAll (by omega) (by omega) hmax)]
  rfl

theorem outcome_readUnsigned (hl : w.layout.Usual) (h : m.Holds a bytes)
    (hs : w.layout.Stores bytes f v) (hf : f.shape = .word)
    (hb : (w.layout.span f.kind).stop.toNat ≤ bytes.length) :
    (w.readUnsigned a f).outcome m = .ok (.ok v) := by
  obtain ⟨spec, hs, hv⟩ := hs
  have hfits := hl.fits f spec hs
  have hi : spec.rule ≠ .inlineData := hfits.not_inlined (by rw [hf]; nofun)
  obtain ⟨-, hstop⟩ := hl.within hs hi
  rw [hf] at hfits
  obtain ⟨hr, hw⟩ := hfits
  have h8 : spec.width.toNat = 8 := by rw [hw]; rfl
  have hn : spec.width.toUInt64.toNat = spec.width.toNat := UInt32.toNat_toUInt64 _
  have hmax : spec.width.toUInt64 ≤ Memory.maxRawRead := by
    rw [hw]
    decide
  have hbytes : (Memory.fetchAll (a + spec.offset) spec.width.toUInt64).outcome m = _ :=
    h.outcome_fetchAll (by omega) (by omega) hmax
  have hraw : spec.decode (spec.part bytes) = .ok v := by
    have hword : Shape.word.Fits spec := ⟨hr, hw⟩
    apply FieldSpec.decode_of_holds hword hi hv
    intro _
    rw [h8]
    exact v.toNat_lt
  have hvalue : (w.valueOf spec (spec.part bytes)).outcome m = .ok (.ok (.unsigned v)) := by
    unfold valueOf
    rcases hr with hr | hr <;>
      rw [if_neg (by rw [hr]; nofun), hraw,
        Attempt.outcome_ok_bind, hr] <;> rfl
  have hfield : (w.readField a f).outcome m = .ok (.ok (.unsigned v)) := by
    unfold readField
    rw [hs]
    simp only
    rw [h.plus? (by omega), Attempt.outcome_ok_bind, if_neg hi,
      Attempt.outcome_bind_ok hbytes, hn]
    exact hvalue
  unfold readUnsigned
  rw [Attempt.outcome_bind_ok hfield]
  rfl

end Walker
end StackPeek
