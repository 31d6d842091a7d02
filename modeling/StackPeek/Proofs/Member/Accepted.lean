import StackPeek.Proofs.Layout.Required
import StackPeek.Proofs.Member.Range

/-!
# Members of an accepted layout

`Snapshot.Reads` says that a copy has an integer in a member: whatever the copied bytes are, the
bytes at the member stand for it. In a layout that `Layout.validate` accepts, the required
members that are read so are those with the rule of an integer that lie in the copy, as they do
when they end at an offset (`reads_required_iff`).

`Layout.validate` looks at the width of a member and at its bits. A byte array that is as wide
as an integer passes, and is refused when it is read (`raw_charArray`).
-/

namespace StackPeek

namespace Bytes

theorem littleEndian_zeros (n : Nat) : littleEndian (List.replicate n 0) = 0 := by
  induction n with
  | zero => rfl
  | succ n ih =>
    rw [List.replicate_succ, littleEndian, ih]
    rfl

end Bytes

namespace FieldSpec
variable {spec : FieldSpec} {bytes : List UInt8}

/-- The integer that the first bytes stand for, or the run of its bits that the rule names. -/
def integer (spec : FieldSpec) (bytes : List UInt8) : Nat :=
  let value := Bytes.littleEndian (bytes.take spec.width.toNat)
  if spec.rule = .bitFlags then (value >>> spec.bitOffset.toNat) % (1 <<< spec.bitWidth.toNat)
  else value

theorem integer_zeros (n : Nat) : spec.integer (List.replicate n 0) = 0 := by
  unfold integer
  simp only [List.take_replicate, Bytes.littleEndian_zeros, Nat.zero_shiftRight, Nat.zero_mod,
    ite_self]

theorem integer_le (spec : FieldSpec) (bytes : List UInt8) :
    spec.integer bytes ≤ Bytes.littleEndian (bytes.take spec.width.toNat) := by
  unfold integer
  simp only
  split
  · exact Nat.le_trans (Nat.mod_le _ _) (Nat.shiftRight_le _ _)
  · exact Nat.le_refl _

theorem integer_lt (h : spec.wellShaped = true) : spec.integer bytes < UInt64.size := by
  have h8 : spec.width.toNat ≤ 8 := UInt32.le_iff_toNat_le.mp (width_of_wellShaped h).2
  have hlen : (bytes.take spec.width.toNat).length ≤ 8 := by
    rw [List.length_take]
    omega
  calc spec.integer bytes
      ≤ Bytes.littleEndian (bytes.take spec.width.toNat) := spec.integer_le bytes
    _ < Bytes.capacity (bytes.take spec.width.toNat).length := Bytes.littleEndian_lt _
    _ ≤ Bytes.capacity 8 := Bytes.capacity_mono hlen

theorem decode_wellShaped (h : spec.wellShaped = true) :
    spec.decode bytes = .ok (UInt64.ofNat (spec.integer bytes)) := by
  obtain ⟨hpos, h8⟩ := width_of_wellShaped h
  have hw : ¬ (spec.width = 0 ∨ 8 < spec.width) := by
    rintro (h0 | hwide)
    · exact UInt32.pos_iff_ne_zero.mp hpos h0
    · exact UInt32.not_lt.mpr h8 hwide
  unfold decode integer
  rw [if_neg hw]
  by_cases hb : spec.rule = .bitFlags
  · rw [if_pos hb, if_pos hb, if_neg (range_of_wellShaped h hb)]
  · rw [if_neg hb, if_neg hb]

end FieldSpec

namespace Snapshot
variable {s : Snapshot} {field : Field} {spec : FieldSpec}

/-- The copy has an integer in the member: the one that the bytes there stand for, and so it is
with any other bytes in the place of the copied ones. -/
structure Reads (s : Snapshot) (field : Field) (spec : FieldSpec) : Prop where
  inside : s.Inside spec
  raw_eq : ∀ bytes : List UInt8, bytes.length = s.bytes.length →
    ∃ n, ({ s with bytes } : Snapshot).raw field = .ok n ∧
      n.toNat = spec.integer (bytes.drop (s.position spec))

theorem raw_charArray (hs : s.layout.spec? field = some spec) (hr : spec.rule = .charArray) :
    s.raw field = .error .outOfRange := by
  unfold raw
  simp only [hs, hr]
  split
  · rfl
  · rfl

/-- Inline data is never read from the copy: its address is not zero, as zeros would be. -/
theorem Reads.isInteger (h : s.Reads field spec) (hs : s.layout.spec? field = some spec)
    (hk : field.kind = s.kind) : spec.rule.isInteger = true := by
  obtain ⟨n, hraw, hn⟩ := h.raw_eq _ (List.length_replicate (n := s.bytes.length) (a := 0))
  by_cases hi : spec.rule = .inlineData
  · rw [List.drop_replicate, FieldSpec.integer_zeros] at hn
    unfold raw at hraw
    simp only [hs, if_neg (not_not_intro hk), if_pos hi] at hraw
    have hsum := Address.toNat_of_plus? hraw
    have hzero : (0 : UInt64).toNat = 0 := rfl
    have hnull : s.address = 0 := UInt64.toNat_inj.mp (by omega)
    rw [hnull, Address.plus?_null] at hraw
    cases hraw
  · exact (decodes_of_raw hraw hs hi).integer

theorem Inside.reads (h : s.Inside spec) (hs : s.layout.spec? field = some spec)
    (hk : field.kind = s.kind) (hr : spec.rule.isInteger = true)
    (hshape : spec.wellShaped = true) (hlen : s.bytes.length < UInt64.size) :
    s.Reads field spec := by
  refine ⟨h, fun bytes hbytes => ⟨_, ?_, UInt64.toNat_ofNat_of_lt (FieldSpec.integer_lt hshape)⟩⟩
  have hinside : ({ s with bytes } : Snapshot).Inside spec :=
    ⟨h.1, Nat.le_trans h.2 (Nat.le_of_eq hbytes.symm)⟩
  have hraw : ({ s with bytes } : Snapshot).raw field = _ :=
    hinside.raw_eq hs hk hr (Nat.lt_of_le_of_lt (Nat.le_of_eq hbytes) hlen)
  exact hraw.trans (FieldSpec.decode_wellShaped hshape)

/-- In an accepted layout, a copy has an integer in a required member exactly when the rule of the
member is one of integers and the member lies in the copy. A member that ends at an offset does
lie there. -/
theorem reads_required_iff {w : Walker} {base : Address} {es : List Event}
    (hv : w.layout.validate = .ok ()) (hf : field ∈ w.layout.required)
    (hs : (w.readStruct base field.kind).run.Course es (.ok (.ok s))) :
    ∃ spec, w.layout.spec? field = some spec ∧
      (s.Reads field spec ↔ spec.rule.isInteger = true ∧ s.Inside spec) ∧
      (spec.rule.isInteger = true → spec.offset.toNat + spec.width.toNat < UInt64.size →
        s.Inside spec) := by
  obtain ⟨spec, hspec, hshape⟩ := Layout.described_of_validate hv hf
  obtain ⟨hlayout, hkind, hspan, hlen⟩ := Walker.course_readStruct hs
  have hspec' : s.layout.spec? field = some spec := hlayout ▸ hspec
  have hinline : spec.rule.isInteger = true → spec.rule ≠ .inlineData :=
    fun hr => (DecodeRule.isInteger_iff.mp hr).2
  refine ⟨spec, hspec, ⟨?_, ?_⟩, ?_⟩
  · intro h
    exact ⟨h.isInteger hspec' hkind.symm, h.inside⟩
  · rintro ⟨hr, hi⟩
    refine hi.reads hspec' hkind.symm hr (hshape.resolve_left (hinline hr)) ?_
    rw [hlen]
    exact s.span.size.toNat_lt
  · intro hr hend
    have hplaced : spec ∈ w.layout.placed s.kind :=
      Layout.mem_placed.mpr ⟨field, hkind.symm, hspec, hinline hr⟩
    exact inside_of_placed (hkind ▸ hspan) hlen hplaced hend

theorem reads_required_iff_emptyBytes :
    (Layout.builtin .v311).validate = .ok () ∧ Field.bytesSize ∈ (Layout.builtin .v311).required ∧
      (∃ es, ((⟨.builtin .v311, .standard⟩ : Walker).readStruct 0x1000 .bytes).run.Course es
        (.ok (.ok emptyBytes))) ∧
      ∃ spec, (Layout.builtin .v311).spec? .bytesSize = some spec ∧
        (emptyBytes.Reads .bytesSize spec ↔
          spec.rule.isInteger = true ∧ emptyBytes.Inside spec) ∧
        (spec.rule.isInteger = true → spec.offset.toNat + spec.width.toNat < UInt64.size →
          emptyBytes.Inside spec) := by
  have hv : (Layout.builtin .v311).validate = .ok () := rfl
  have hf : Field.bytesSize ∈ (Layout.builtin .v311).required := by decide
  obtain ⟨es, hs⟩ := Probe.course_of_run StillMemory.zeros.target
    ((⟨.builtin .v311, .standard⟩ : Walker).readStruct 0x1000 .bytes).run ()
  exact ⟨hv, hf, ⟨es, hs⟩,
    reads_required_iff (w := ⟨.builtin .v311, .standard⟩) hv hf hs⟩

/-- A length of a string that is kept as eight single bytes. -/
def letters : FieldSpec := ⟨16, 8, .charArray, 0, 0⟩

def lettered : Walker := ⟨(Layout.builtin .v39).set .stringLength letters, .standard⟩

def letteredString : Snapshot :=
  ⟨lettered.layout, .string, 0x1000, ⟨16, 48⟩, List.replicate 32 0⟩

/-- The layout is accepted and the structure is copied, but the required length cannot be taken
from the copy. -/
theorem reads_not_charArray :
    lettered.layout.validate = .ok () ∧ Field.stringLength ∈ lettered.layout.required ∧
      Field.stringLength ∉ Layout.inlineMembers ∧
      lettered.layout.spec? .stringLength = some letters ∧
      ((lettered.readStruct 0x1000 .string).run.run StillMemory.zeros.target ()).1 =
        .ok (.ok letteredString) ∧
      letteredString.raw .stringLength = .error .outOfRange ∧
      ¬ letteredString.Reads .stringLength letters := by
  refine ⟨rfl, by decide, by decide, rfl, rfl, raw_charArray rfl rfl, ?_⟩
  intro h
  cases h.isInteger rfl rfl

end Snapshot
end StackPeek
