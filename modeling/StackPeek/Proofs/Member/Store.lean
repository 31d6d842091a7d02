import StackPeek.Proofs.Member.Agreement
import StackPeek.Proofs.Memory.Stores

/-!
# Storing numbers in members

A member in which a value has been stored is read as that value, cut to the bits that belong to the
member and, if the member is signed, taken as two's complement. Numbers in other members are read as
before if they share no bit with it (`Walker.readField_store`).

Texts and byte arrays are NOT covered, since other memory than their own bytes matters to them or
their bits are no number.
-/

namespace StackPeek

/-- The member is a number of its own. -/
def DecodeRule.IsNumber (rule : DecodeRule) : Prop :=
  rule = .unsigned ∨ rule = .pointer ∨ rule = .signed ∨ rule = .bitFlags

theorem DecodeRule.IsNumber.not_other {rule : DecodeRule} (h : rule.IsNumber) :
    rule ≠ .string ∧ rule ≠ .charArray ∧ rule ≠ .inlineData := by
  rcases h with rfl | rfl | rfl | rfl <;> exact ⟨nofun, nofun, nofun⟩

theorem Bytes.capacity_eq (width : Nat) : capacity width = 1 <<< (8 * width) := by
  induction width with
  | zero => rfl
  | succ width ih =>
    rw [capacity, ih, Nat.one_shiftLeft, Nat.one_shiftLeft, Nat.mul_succ, Nat.pow_add, Nat.mul_comm]

namespace FieldSpec

def stored (spec : FieldSpec) (v : UInt64) : FieldValue :=
  if spec.rule = .signed then
    .signed (Int64.ofInt (BitVec.ofNat (8 * spec.width.toNat) v.toNat).toInt)
  else .unsigned (UInt64.ofNat (v.toNat % (1 <<< spec.bitCount)))

variable {spec : FieldSpec} {bytes other : List UInt8} {v : UInt64}

theorem decode_congr (h : spec.integer bytes = spec.integer other) :
    spec.decode bytes = spec.decode other := by
  unfold integer at h
  unfold decode
  by_cases hb : spec.rule = .bitFlags
  · simp only [if_pos hb] at h ⊢
    rw [h]
  · simp only [if_neg hb] at h ⊢
    rw [h]

theorem signExtend_low {width : Nat} (h : width ≤ 8) (v : UInt64) :
    signExtend width (UInt64.ofNat (v.toNat % (1 <<< (8 * width)))) =
      Int64.ofInt (BitVec.ofNat (8 * width) v.toNat).toInt := by
  unfold signExtend
  by_cases h8 : 8 ≤ width
  · obtain rfl := Nat.le_antisymm h h8
    have hlow : v.toNat % (1 <<< (8 * 8)) = v.toNat := Nat.mod_eq_of_lt v.toNat_lt
    have hword : BitVec.ofNat (8 * 8) v.toNat = v.toInt64.toBitVec :=
      BitVec.eq_of_toNat_eq (Nat.mod_eq_of_lt v.toNat_lt)
    rw [if_pos h8, hlow, UInt64.ofNat_toNat, hword]
    exact (Int64.ofInt_toInt v.toInt64).symm
  · have hlow : (UInt64.ofNat (v.toNat % Bytes.capacity width)).toNat =
        v.toNat % Bytes.capacity width :=
      Nat.mod_eq_of_lt (Nat.lt_of_le_of_lt (Nat.mod_le _ _) v.toNat_lt)
    rw [if_neg h8, ← Bytes.capacity_eq, hlow, BitVec.toInt_eq_toNat_bmod, BitVec.toNat_ofNat,
      Bytes.capacity_eq, Nat.one_shiftLeft]

example : signExtend 3 (UInt64.ofNat (0xABFFFFFE % (1 <<< (8 * 3)))) = -2 := by decide

theorem number_stored (h : spec.wellShaped = true) (v : UInt64) :
    spec.number (UInt64.ofNat (v.toNat % (1 <<< spec.bitCount))) = spec.stored v := by
  unfold number stored
  by_cases hr : spec.rule = .signed
  · have hcount : spec.bitCount = 8 * spec.width.toNat := by
      unfold bitCount
      rw [hr]
      rfl
    have h8 : spec.width.toNat ≤ 8 := UInt32.le_iff_toNat_le.mp (width_of_wellShaped h).2
    rw [if_pos hr, if_pos hr, hcount, signExtend_low h8]
  · rw [if_neg hr, if_neg hr]

end FieldSpec

/-- Two attempts in two parts agree if the first parts do, up to a change that the second parts
do not notice. -/
theorem Attempt.outcome_bind_congr {α β : Type} {m m' : StillMemory} {x : Attempt α} {g : α → α}
    {f : α → Attempt β} (hx : x.outcome m' = (x.outcome m).map (.map g))
    (hf : ∀ a, (f (g a)).outcome m' = (f a).outcome m) :
    (x >>= f).outcome m' = (x >>= f).outcome m := by
  unfold outcome at *
  rw [run_bind, Probe.outcome_bind, Probe.outcome_bind, hx]
  cases x.run.outcome m with
  | error fault => rfl
  | ok r =>
    cases r with
    | error e => rfl
    | ok a => exact hf a

section Stored
variable {m : StillMemory} {a : Address} {spec : FieldSpec} {v : UInt64}

namespace Walker
variable {w : Walker} {base : Address} {f : Field}

theorem outcome_valueOf_number (hr : spec.rule.IsNumber) (bytes : List UInt8) :
    (w.valueOf spec bytes).outcome m = .ok ((spec.decode bytes).map spec.number) := by
  obtain ⟨hstring, hchars, -⟩ := hr.not_other
  rw [valueOf_eq hchars]
  cases spec.decode bytes with
  | error e => rfl
  | ok raw =>
    rw [Attempt.outcome_ok_bind]
    unfold meaning
    rw [if_neg hstring]
    rfl

theorem outcome_readField_store (hs : w.layout.spec? f = some spec) (hr : spec.rule.IsNumber)
    (hshape : spec.wellShaped = true) (hm : m.Mapped base spec) :
    (w.readField base f).outcome (m.store (base + spec.offset) spec v) =
      .ok (.ok (spec.stored v)) := by
  obtain ⟨-, -, hi⟩ := hr.not_other
  obtain ⟨part, hlen, hpart⟩ := hm.outcome_fetchAll hshape
  have hfetch : (Memory.fetchAll (base + spec.offset) spec.width.toUInt64).outcome
      (m.store (base + spec.offset) spec v) = _ := Memory.outcome_fetchAll_store _ _
  rw [hpart] at hfetch
  unfold readField
  simp only [hs]
  rw [hm.plus?_eq, Attempt.outcome_ok_bind, if_neg hi, Attempt.outcome_bind_ok hfetch,
    outcome_valueOf_number hr, FieldSpec.decode_wellShaped hshape,
    FieldSpec.integer_put hshape (Nat.le_of_eq hlen.symm)]
  exact congrArg (Except.ok ∘ Except.ok) (FieldSpec.number_stored hshape v)

theorem outcome_readField_apart {other : FieldSpec} (hs : w.layout.spec? f = some other)
    (hr : other.rule.IsNumber)
    (hapart : ∀ bit, spec.Owns a.toNat bit → ¬ other.Owns (base.toNat + other.offset.toNat) bit) :
    (w.readField base f).outcome (m.store a spec v) = (w.readField base f).outcome m := by
  obtain ⟨-, -, hi⟩ := hr.not_other
  unfold readField
  simp only [hs]
  cases hplus : base.plus? other.offset with
  | error e => rfl
  | ok address =>
    rw [Attempt.outcome_ok_bind, Attempt.outcome_ok_bind, if_neg hi]
    apply Attempt.outcome_bind_congr (Memory.outcome_fetchAll_store _ _)
    intro bytes
    have hinteger : other.integer (spec.put v a.toNat address.toNat bytes) = other.integer bytes := by
      apply FieldSpec.integer_put_apart
      rw [Address.toNat_of_plus? hplus]
      exact hapart
    rw [outcome_valueOf_number hr, outcome_valueOf_number hr, FieldSpec.decode_congr hinteger]

/-- A number that is stored in a member is read back from it, and the numbers in other members are
the same before and after it is stored if they share no bit with that member. -/
theorem readField_store {σ : Type} {t : Target σ} (hs : w.layout.spec? f = some spec)
    (hr : spec.rule.IsNumber) (hshape : spec.wellShaped = true) (hm : m.Mapped base spec)
    (ht : t.Frozen (m.store (base + spec.offset) spec v)) (s : σ) :
    ((w.readField base f).run.run t s).1 = .ok (.ok (spec.stored v)) ∧
    ∀ (base' : Address) (g : Field) (other : FieldSpec), w.layout.spec? g = some other →
      other.rule.IsNumber →
      (∀ bit, spec.Owns (base.toNat + spec.offset.toNat) bit →
        ¬ other.Owns (base'.toNat + other.offset.toNat) bit) →
      ∀ {τ : Type} (before : Target τ), before.Frozen m → ∀ s₀,
        ((w.readField base' g).run.run t s).1 = ((w.readField base' g).run.run before s₀).1 := by
  have hcost (h : Field) : ∀ spec, w.layout.spec? h = some spec → spec.rule = .string → 3 ≤ 3 :=
    fun _ _ _ => Nat.le_refl 3
  constructor
  · rw [(costs_readField (hcost f) base).run_frozen ht]
    exact outcome_readField_store hs hr hshape hm
  · intro base' g other hs' hr' hapart τ before hbefore s₀
    have haddress := Address.toNat_of_plus? hm.plus?_eq
    rw [(costs_readField (hcost g) base').run_frozen ht,
      (costs_readField (hcost g) base').run_frozen hbefore]
    apply outcome_readField_apart hs' hr'
    rw [haddress]
    exact hapart

/-- The header of a string on its own: one-byte units, compact, ASCII and ready. -/
def header : Region := .of 0x1000 (List.replicate 32 0 ++ [0xE5] ++ List.replicate 15 0)

/-- The units get four bytes each, and the length gets negative. -/
theorem readField_store_header :
    let w : Walker := ⟨.builtin .v39, .standard⟩
    let kind := FieldSpec.bitsAt 32 2 3
    let length := FieldSpec.signedAt 16 8
    let before : Regions := [header]
    let wide := before.write 0x1020 [0xF1]
    let negative := before.write 0x1010 [0xFE, 0xFF, 0xFF, 0xFF, 0xFF, 0xFF, 0xFF, 0xFF]
    w.layout.spec? .stringKind = some kind ∧ kind.rule.IsNumber ∧ kind.wellShaped = true ∧
      before.still.Mapped 0x1000 kind ∧
      wide.still.target.Frozen (before.still.store (0x1000 + kind.offset) kind 12) ∧
      ((w.readField 0x1000 .stringKind).run.run wide.still.target ()).1 =
        .ok (.ok (.unsigned 4)) ∧
      ((w.readField 0x1000 .stringCompact).run.run wide.still.target ()).1 =
        ((w.readField 0x1000 .stringCompact).run.run before.still.target ()).1 ∧
      w.layout.spec? .stringLength = some length ∧ length.rule.IsNumber ∧
      length.wellShaped = true ∧ before.still.Mapped 0x1000 length ∧
      negative.still.target.Frozen
        (before.still.store (0x1000 + length.offset) length 0xFFFFFFFFFFFFFFFE) ∧
      ((w.readField 0x1000 .stringLength).run.run negative.still.target ()).1 =
        .ok (.ok (.signed (-2))) := by
  intro w kind length before wide negative
  have hheader : header ∈ before := List.mem_singleton.mpr rfl
  have hdisjoint : before.Disjoint := List.pairwise_singleton _ header
  have hholds := before.holds hdisjoint hheader (by simp) (by decide +kernel)
  have hbits : kind.rule.IsNumber := .inr (.inr (.inr rfl))
  have hsigned : length.rule.IsNumber := .inr (.inr (.inl rfl))
  have hkind : before.still.Mapped 0x1000 kind :=
    hholds.mapped (show 0 < 1 by omega) (show 32 + 1 ≤ 48 by omega)
  have hlength : before.still.Mapped 0x1000 length :=
    hholds.mapped (show 0 < 8 by omega) (show 16 + 8 ≤ 48 by omega)
  have hwide : wide.still.target.Frozen (before.still.store (0x1000 + kind.offset) kind 12) := by
    have hin : header.Encloses 0x1020 kind := ⟨rfl, by decide +kernel⟩
    have hpatched : header.patched 0x1020 kind 12 = [0xF1] := by decide +kernel
    have hstore := before.still_write hdisjoint hheader rfl hin 12
    rw [hpatched] at hstore
    intro a n _
    exact congrFun (congrFun hstore a) n
  have hnegative : negative.still.target.Frozen
      (before.still.store (0x1000 + length.offset) length 0xFFFFFFFFFFFFFFFE) := by
    have hin : header.Encloses 0x1010 length := ⟨rfl, by decide +kernel⟩
    have hstore := before.still_write_whole hdisjoint hheader rfl hin nofun 0xFFFFFFFFFFFFFFFE
    intro a n _
    exact congrFun (congrFun hstore a) n
  obtain ⟨hread, hothers⟩ := readField_store (w := w) (f := .stringKind) rfl hbits rfl hkind hwide ()
  obtain ⟨hreadLength, -⟩ :=
    readField_store (w := w) (f := .stringLength) rfl hsigned rfl hlength hnegative ()
  refine ⟨rfl, hbits, rfl, hkind, hwide, hread, ?_, rfl, hsigned, rfl, hlength,
    hnegative, hreadLength⟩
  apply hothers 0x1000 .stringCompact (.bitsAt 32 5 1) rfl (.inr (.inr (.inr rfl)))
  · rintro bit ⟨-, hstop⟩ ⟨hstart, -⟩
    exact absurd (Nat.lt_of_lt_of_le hstop hstart) (Nat.lt_irrefl _)
  · exact StillMemory.target_frozen _

end Walker
end Stored
end StackPeek
