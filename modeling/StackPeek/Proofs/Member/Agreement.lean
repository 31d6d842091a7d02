import StackPeek.Member.Read
import StackPeek.Proofs.Image.Sample
import StackPeek.Proofs.Member.Range
import StackPeek.Proofs.Text.Cost

/-!
# A member of a copy and the member read by itself

A member can be taken from a copy of its structure or read by itself. In memory that consists
of regions both ways give the same number or the same error, and a string member read by itself
gives the text of the string that the copy points to (`readField_agrees`).

Members that are byte arrays are NOT covered, since a copy does not give them.
-/

namespace StackPeek

/-- The ends of all members are offsets. -/
def Layout.Bounded (l : Layout) : Prop :=
  ∀ f spec, l.spec? f = some spec → spec.offset.toNat + spec.width.toNat < UInt64.size

theorem Layout.Usual.bounded {l : Layout} (h : l.Usual) : l.Bounded := by
  intro f spec hs
  have hnear := h.near f spec hs
  have hsize : UInt64.size = 18446744073709551616 := rfl
  omega

namespace FieldSpec
variable {spec : FieldSpec} {bytes : List UInt8} {raw : UInt64} {width : Nat}

theorem decode_unfit (h : spec.width = 0 ∨ 8 < spec.width) :
    spec.decode bytes = .error .outOfRange := if_pos h

theorem lt_of_decode (h : spec.decode bytes = .ok raw) (hr : spec.rule ≠ .bitFlags) :
    raw.toNat < Bytes.capacity spec.width.toNat := by
  have hlen : (bytes.take spec.width.toNat).length ≤ spec.width.toNat := by
    rw [List.length_take]
    omega
  unfold decode at h
  split at h
  · cases h
  cases h
  calc (UInt64.ofNat (Bytes.littleEndian (bytes.take spec.width.toNat))).toNat
      ≤ Bytes.littleEndian (bytes.take spec.width.toNat) := Nat.mod_le _ _
    _ < Bytes.capacity (bytes.take spec.width.toNat).length := Bytes.littleEndian_lt _
    _ ≤ Bytes.capacity spec.width.toNat := Bytes.capacity_mono hlen

theorem toUInt64_signExtend (h : raw.toNat < Bytes.capacity width)
    (hn : ¬ signExtend width raw < 0) : (signExtend width raw).toUInt64 = raw := by
  unfold signExtend at *
  split
  · rfl
  · rename_i hw
    rw [if_neg hw, Int.bmod_def, Int.emod_eq_of_lt (by omega) (by omega)] at hn
    rw [Int.bmod_def, Int.emod_eq_of_lt (by omega) (by omega)]
    have hcap : Bytes.capacity width ≤ Bytes.capacity 7 := Bytes.capacity_mono (by omega)
    have h7 : Bytes.capacity 7 = 72057594037927936 := rfl
    split
    · change UInt64.ofBitVec (BitVec.ofInt 64 raw.toNat) = raw
      rw [BitVec.ofInt_natCast]
      exact UInt64.ofNat_toNat
    · rename_i hhalf
      rw [if_neg hhalf] at hn
      refine absurd ?_ hn
      rw [Int64.lt_iff_toInt_lt, Int64.toInt_ofInt_of_le (by omega) (by omega), Int64.toInt_zero]
      omega

def number (spec : FieldSpec) (raw : UInt64) : FieldValue :=
  if spec.rule = .signed then .signed (signExtend spec.width.toNat raw) else .unsigned raw

theorem toUnsigned_number
    (h : spec.rule = .signed → raw.toNat < Bytes.capacity spec.width.toNat) :
    (spec.number raw).toUnsigned = spec.toUnsigned raw := by
  unfold number toUnsigned
  by_cases hr : spec.rule = .signed
  · rw [if_pos hr]
    by_cases hn : signExtend spec.width.toNat raw < 0
    · rw [if_pos ⟨hr, hn⟩]
      exact if_pos hn
    · rw [if_neg fun hneg => hn hneg.2]
      change (if _ then _ else _) = _
      rw [if_neg hn, toUInt64_signExtend (h hr) hn]
  · rw [if_neg hr, if_neg fun hneg => hr hneg.1]
    rfl

theorem toSigned_number : (spec.number raw).toSigned = spec.toSigned raw := by
  unfold number toSigned
  by_cases hr : spec.rule = .signed
  · rw [if_pos hr, if_pos hr]
    rfl
  · rw [if_neg hr, if_neg hr]
    rfl

end FieldSpec

namespace Snapshot
variable {s : Snapshot} {f : Field}

theorem raw_none (h : s.layout.spec? f = none) : s.raw f = .error .unsupportedField := by
  unfold raw
  rw [h]

theorem lt_of_raw {spec : FieldSpec} {n : UInt64} (h : s.raw f = .ok n)
    (hs : s.layout.spec? f = some spec) (hr : spec.rule = .signed) :
    n.toNat < Bytes.capacity spec.width.toNat := by
  have hd : s.Decodes f spec := decodes_of_raw h hs (by rw [hr]; nofun)
  rw [hd.raw_eq] at h
  exact FieldSpec.lt_of_decode h (by rw [hr]; nofun)

def number (s : Snapshot) (f : Field) : Except ReadError FieldValue := do
  let raw ← s.raw f
  match s.layout.spec? f with
  | none => .error .unsupportedField
  | some spec => return spec.number raw

theorem unsigned_eq (s : Snapshot) (f : Field) :
    s.unsigned f = s.number f >>= FieldValue.toUnsigned := by
  unfold unsigned number
  cases hraw : s.raw f with
  | error e => rfl
  | ok raw =>
    cases hs : s.layout.spec? f with
    | none => rfl
    | some spec => exact (FieldSpec.toUnsigned_number (lt_of_raw hraw hs)).symm

theorem signed_eq (s : Snapshot) (f : Field) :
    s.signed f = s.number f >>= FieldValue.toSigned := by
  unfold signed number
  cases s.raw f with
  | error e => rfl
  | ok raw =>
    cases s.layout.spec? f with
    | none => rfl
    | some spec => exact FieldSpec.toSigned_number.symm

end Snapshot

/-- The memory still holds what was copied from the structure at `base`. -/
structure StillMemory.Copied (m : StillMemory) (l : Layout) (base : Address) (s : Snapshot) :
    Prop where
  layout : s.layout = l
  address : s.address = base
  span : s.span = l.span s.kind
  nonnull : base ≠ 0
  start : (base + s.span.start).toNat = base.toNat + s.span.start.toNat
  length : s.bytes.length = s.span.size.toNat
  small : s.span.size ≤ Memory.maxRawRead
  holds : m.Holds (base + s.span.start) s.bytes

namespace Walker
variable {w : Walker} {m : StillMemory} {base : Address} {kind : StructKind} {s : Snapshot}
  {f : Field} {spec : FieldSpec}

theorem copied_of_readStruct (hm : m.Regional)
    (h : (w.readStruct base kind).outcome m = .ok (.ok s)) :
    s.kind = kind ∧ m.Copied w.layout base s := by
  unfold readStruct at h
  simp only at h
  split at h
  · cases h
  rename_i hsize
  cases hp : base.plus? (w.layout.span kind).start with
  | error e =>
    rw [hp] at h
    cases h
  | ok address =>
    rw [hp, Attempt.outcome_ok_bind] at h
    obtain ⟨bytes, hbytes, h⟩ := Attempt.outcome_of_bind h
    cases h
    obtain ⟨hmax, h0, copied, hreply, hlen, rfl⟩ := Memory.reply_of_fetchAll hbytes hsize
    have hbase : base ≠ 0 := by
      rintro rfl
      cases hp
    have hsum := Address.toNat_of_plus? hp
    obtain rfl : address = base + (w.layout.span kind).start := by
      apply UInt64.toNat_inj.mp
      rw [hsum, UInt64.toNat_add, Nat.mod_eq_of_lt]
      rw [← hsum]
      exact address.toNat_lt
    refine ⟨rfl, rfl, rfl, rfl, hbase, hsum, ?_, hmax, hm _ _ _ h0 hreply hlen⟩
    rw [List.length_take, Nat.min_eq_left hlen]

/-- What the integer in a member is, the member being read by itself. -/
def meaning (w : Walker) (spec : FieldSpec) (raw : UInt64) : Attempt FieldValue :=
  if spec.rule = .string then do return .text (← w.decodeText raw)
  else return spec.number raw

theorem valueOf_eq (hr : spec.rule ≠ .charArray) (bytes : List UInt8) :
    w.valueOf spec bytes = (liftM (spec.decode bytes) : Attempt UInt64) >>= w.meaning spec := by
  unfold valueOf
  rw [if_neg hr]
  refine congrArg _ (funext fun raw => ?_)
  unfold meaning FieldSpec.number
  cases hrule : spec.rule <;> rfl

section Placed
variable (hc : m.Copied w.layout base s) (hb : w.layout.Bounded)
  (hs : w.layout.spec? f = some spec) (hk : f.kind = s.kind) (hi : spec.rule ≠ .inlineData)
include hc hb hs hk hi

theorem inside_copied : s.Inside spec :=
  Snapshot.inside_of_placed hc.span hc.length (Layout.mem_placed.mpr ⟨f, hk, hs, hi⟩)
    (hb f spec hs)

theorem raw_copied (hr : spec.rule ≠ .charArray) :
    s.raw f = spec.decode (s.bytes.drop (s.position spec)) := by
  have hlt : s.bytes.length < UInt64.size := by
    rw [hc.length]
    exact s.span.size.toNat_lt
  exact (inside_copied hc hb hs hk hi).raw_eq (hc.layout ▸ hs) hk
    (DecodeRule.isInteger_iff.mpr ⟨hr, hi⟩) hlt

theorem outcome_fetch_copied (hw : spec.width ≠ 0) :
    base.plus? spec.offset = .ok (base + spec.offset) ∧
      (Memory.fetchAll (base + spec.offset) spec.width.toUInt64).outcome m =
        .ok (.ok ((s.bytes.drop (s.position spec)).take spec.width.toNat)) := by
  obtain ⟨hstart, hlen⟩ := inside_copied hc hb hs hk hi
  have hsub := Snapshot.position_eq (UInt64.le_iff_toNat_le.mpr hstart)
  have hpos : 0 < spec.width.toNat := UInt32.lt_iff_toNat_lt.mp (UInt32.pos_iff_ne_zero.mpr hw)
  have hfits := hc.holds.fits
  have hsum := hc.start
  have hsize := UInt64.le_iff_toNat_le.mp hc.small
  have hposition : s.position spec = spec.offset.toNat - s.span.start.toNat := rfl
  -- What is known of the memory starts where the copy starts, so the member is taken from there.
  have hback : base + s.span.start + (spec.offset - s.span.start) = base + spec.offset := by
    rw [UInt64.add_assoc, UInt64.add_comm s.span.start, UInt64.sub_add_cancel]
  have hwidth : spec.width.toUInt64.toNat = spec.width.toNat := UInt32.toNat_toUInt64 _
  refine ⟨Address.plus?_of_lt hc.nonnull (by omega), ?_⟩
  have hlength := hc.length
  have hfetch : (Memory.fetchAll (base + s.span.start + (spec.offset - s.span.start))
      spec.width.toUInt64).outcome m = _ :=
    hc.holds.outcome_fetchAll (by omega) (by omega) (UInt64.le_iff_toNat_le.mpr (by omega))
  rwa [hback, hsub, hwidth] at hfetch

end Placed

/-- A member without bytes is refused when it is read by itself, whether or not its offset can
be added to the base. -/
theorem outcome_readField_empty (h0 : base ≠ 0) (hs : w.layout.spec? f = some spec)
    (hi : spec.rule ≠ .inlineData) (hr : spec.rule ≠ .charArray) (hw : spec.width = 0) :
    (w.readField base f).outcome m = .ok (.error .outOfRange) := by
  unfold readField
  simp only [hs]
  rcases Address.plus?_cases h0 spec.offset with hp | ⟨address, hp, ha⟩
  · rw [hp]
    rfl
  have hfetch : (Memory.fetchAll address spec.width.toUInt64).outcome m = .ok (.ok []) := by
    rw [hw]
    exact Memory.outcome_fetchAll_zero ha
  rw [hp, Attempt.outcome_ok_bind, if_neg hi, Attempt.outcome_bind_ok hfetch, valueOf_eq hr,
    FieldSpec.decode_unfit (.inl hw)]
  rfl

/-- Reading a member by itself is taking its integer from the copy, which then gets its
meaning. -/
theorem outcome_readField (hc : m.Copied w.layout base s) (hb : w.layout.Bounded)
    (hs : w.layout.spec? f = some spec) (hk : f.kind = s.kind) (hr : spec.rule ≠ .charArray) :
    (w.readField base f).outcome m =
      ((liftM (s.raw f) : Attempt UInt64) >>= w.meaning spec).outcome m := by
  by_cases hi : spec.rule = .inlineData
  -- Nothing is read for inline data: either way it is the address.
  · have hraw : s.raw f = base.plus? spec.offset := by
      unfold Snapshot.raw
      simp only [hc.layout, hs, hc.address]
      rw [if_neg (not_not_intro hk), if_pos hi]
    unfold readField
    simp only [hs]
    rw [hraw]
    refine congrArg (Attempt.outcome m) (congrArg _ (funext fun address => ?_))
    unfold meaning FieldSpec.number
    rw [if_pos hi, if_neg (by rw [hi]; nofun), if_neg (by rw [hi]; nofun)]
  rw [raw_copied hc hb hs hk hi hr]
  by_cases hw : spec.width = 0
  · rw [outcome_readField_empty hc.nonnull hs hi hr hw, FieldSpec.decode_unfit (.inl hw)]
    rfl
  · obtain ⟨hsum, hfetch⟩ := outcome_fetch_copied hc hb hs hk hi hw
    unfold readField
    simp only [hs]
    rw [hsum, Attempt.outcome_ok_bind, if_neg hi, Attempt.outcome_bind_ok hfetch, valueOf_eq hr,
      ← FieldSpec.decode_take]

theorem outcome_readField_none (hs : w.layout.spec? f = none) :
    (w.readField base f).outcome m = .ok (.error .unsupportedField) := by
  unfold readField
  simp only [hs]
  rfl

section Number
variable (hc : m.Copied w.layout base s) (hb : w.layout.Bounded) (hk : f.kind = s.kind)
  (hn : ∀ spec, w.layout.spec? f = some spec → spec.rule ≠ .charArray ∧ spec.rule ≠ .string)
include hc hb hk hn

theorem outcome_readField_number : (w.readField base f).outcome m = .ok (s.number f) := by
  unfold Snapshot.number
  cases hs : w.layout.spec? f with
  | none =>
    rw [outcome_readField_none hs, Snapshot.raw_none (hc.layout ▸ hs)]
    rfl
  | some spec =>
    obtain ⟨hr, ht⟩ := hn spec hs
    rw [outcome_readField hc hb hs hk hr, hc.layout, hs]
    cases s.raw f with
    | error e => rfl
    | ok raw =>
      rw [Attempt.outcome_ok_bind]
      unfold meaning
      rw [if_neg ht]
      rfl

theorem outcome_readUnsigned_copied : (w.readUnsigned base f).outcome m = .ok (s.unsigned f) := by
  rw [s.unsigned_eq f]
  exact Attempt.outcome_bind_ofExcept (outcome_readField_number hc hb hk hn) _

theorem outcome_readSigned_copied : (w.readSigned base f).outcome m = .ok (s.signed f) := by
  rw [s.signed_eq f]
  exact Attempt.outcome_bind_ofExcept (outcome_readField_number hc hb hk hn) _

end Number

theorem outcome_readField_string (hc : m.Copied w.layout base s) (hb : w.layout.Bounded)
    (hk : f.kind = s.kind) (ht : ∀ spec, w.layout.spec? f = some spec → spec.rule = .string) :
    (w.readField base f).outcome m =
      match s.pointer f with
      | .error e => .ok (.error e)
      | .ok a => ((w.decodeText a).outcome m).map (.map .text) := by
  cases hs : w.layout.spec? f with
  | none =>
    have hp : s.pointer f = .error .unsupportedField := by
      unfold Snapshot.pointer Snapshot.unsigned
      rw [Snapshot.raw_none (hc.layout ▸ hs)]
      rfl
    rw [outcome_readField_none hs, hp]
  | some spec =>
    have hrule := ht spec hs
    have hp : s.pointer f = s.raw f := by
      unfold Snapshot.pointer Snapshot.unsigned
      rw [hc.layout, hs]
      cases s.raw f with
      | error e => rfl
      | ok a => exact if_neg fun hneg => absurd hneg.1 (by rw [hrule]; nofun)
    rw [outcome_readField hc hb hs hk (by rw [hrule]; nofun), hp]
    cases s.raw f with
    | error e => rfl
    | ok a =>
      rw [Attempt.outcome_ok_bind]
      unfold meaning
      rw [if_pos hrule]
      exact Attempt.outcome_bind_pure _ _

/-- Reading a member by itself and taking it from the copy of its structure give the same
number or the same error. A string member read by itself is the text of the string that the
copy points to. -/
theorem readField_agrees {σ : Type} {t : Target σ} (ht : t.Frozen m) (hm : m.Regional)
    (w : Walker) (hb : w.layout.Bounded) {s₀ : σ}
    (hread : ((w.readStruct base kind).run.run t s₀).1 = .ok (.ok s)) (f : Field)
    (hk : f.kind = kind) (s₁ : σ) :
    ((∀ spec, w.layout.spec? f = some spec → spec.rule ≠ .charArray ∧ spec.rule ≠ .string) →
      ((w.readUnsigned base f).run.run t s₁).1 = .ok (s.unsigned f) ∧
        ((w.readSigned base f).run.run t s₁).1 = .ok (s.signed f)) ∧
    ((∀ spec, w.layout.spec? f = some spec → spec.rule = .string) →
      ((w.readField base f).run.run t s₁).1 =
        match s.pointer f with
        | .error e => .ok (.error e)
        | .ok a => (((w.decodeText a).run.run t s₁).1).map (.map .text)) := by
  rw [(costs_readStruct base kind).run_frozen ht] at hread
  obtain ⟨rfl, hc⟩ := copied_of_readStruct hm hread
  have hcost : ∀ spec, w.layout.spec? f = some spec → spec.rule = .string → 3 ≤ 3 :=
    fun _ _ _ => Nat.le_refl 3
  constructor
  · intro hn
    rw [(costs_readUnsigned hcost base).run_frozen ht, (costs_readSigned hcost base).run_frozen ht]
    exact ⟨outcome_readUnsigned_copied hc hb hk hn, outcome_readSigned_copied hc hb hk hn⟩
  · intro hstring
    have htext : ∀ a, ((w.decodeText a).run.run t s₁).1 = (w.decodeText a).outcome m :=
      fun a => (costs_decodeText a).run_frozen ht s₁
    rw [(costs_readField hcost base).run_frozen ht]
    simp only [htext]
    exact outcome_readField_string hc hb hk hstring

/-- The code object of the small image: its first line and, through a pointer, its name. -/
theorem readField_agrees_small :
    (smallMemory .v39).still.Regional ∧ (Layout.builtin .v39).Bounded ∧
      let w : Walker := ⟨.builtin .v39, .standard⟩
      let t := (smallMemory .v39).still.target
      let copy := w.layout.copy .code 0x5000 (smallBytes .v39 0x5000)
      ((w.readStruct 0x5000 .code).run.run t ()).1 = .ok (.ok copy) ∧
        ((w.readSigned 0x5000 .codeFirstLine).run.run t ()).1 = .ok (.ok 10) ∧
        ((w.readField 0x5000 .codeName).run.run t ()).1 =
          .ok (.ok (.text ⟨[0x72, 0x75, 0x6E]⟩)) := by
  have hl := Layout.builtin_usual .v39
  have hm : (smallMemory .v39).still.Regional := smallMemory_regional .v39
  have hcode : (smallMemory .v39).still.Object (.builtin .v39) .code 0x5000
      [(.codeName, 0x6000), (.codeFirstLine, 10)] (smallBytes .v39 0x5000) :=
    smallMemory_object (by decide +kernel)
  have hname : (smallMemory .v39).still.StringAt (.builtin .v39) 0x6000
      ⟨[0x72, 0x75, 0x6E]⟩ := by
    refine ⟨?_, smallBytes .v39 0x6000, smallMemory_object ?_, ?_⟩
    all_goals decide +kernel
  refine ⟨hm, hl.bounded, ?_⟩
  intro w t copy
  have hread : ((w.readStruct 0x5000 .code).run.run t ()).1 = .ok (.ok copy) := by
    rw [Probe.run_atRest (StillMemory.target_atRest _)]
    exact hcode.outcome_readStruct hl (f := .codeName) (v := 0x6000) (by simp) nofun
  have hline : copy.signed .codeFirstLine = .ok 10 :=
    hcode.signed_int32 hl (i := 10) (.tail _ (.head _)) rfl
  have hpointer : copy.pointer .codeName = .ok 0x6000 :=
    hcode.unsigned hl (by simp) (.inr (.inl rfl))
  have htext : ((w.decodeText 0x6000).run.run t ()).1 = .ok (.ok ⟨[0x72, 0x75, 0x6E]⟩) := by
    rw [Probe.run_atRest (StillMemory.target_atRest _)]
    exact outcome_decodeText hl hname (by decide) (by decide)
  obtain ⟨hnumber, -⟩ := readField_agrees (StillMemory.target_frozen _) hm w hl.bounded hread
    .codeFirstLine rfl ()
  obtain ⟨-, hstring⟩ := readField_agrees (StillMemory.target_frozen _) hm w hl.bounded hread
    .codeName rfl ()
  refine ⟨hread, ?_, ?_⟩
  · rw [← hline]
    refine (hnumber fun spec hs => ?_).2
    cases hs
    exact ⟨nofun, nofun⟩
  · rw [hstring fun spec hs => by cases hs; rfl, hpointer]
    exact congrArg (Except.map (Except.map FieldValue.text)) htext

end Walker
end StackPeek
