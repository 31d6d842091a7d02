import Mathlib.Data.List.Basic
import Mathlib.Data.Nat.Bitwise
import Mathlib.Data.Nat.Digits.Defs
import StackPeek.LineTable.Lookup
import StackPeek.Proofs.LineTable.Grammar

/-!
# Numbers in location tables

The number in front of some bytes goes up to the first byte without bit 64, and stands for the sum
of its groups in base 64. `varint_exact_iff` says which bytes are rejected, and why, and which of
the others are read as they stand.

Six groups have 36 bits, four more than a word. It is checked whether a sixth byte may stand there,
but not how many bits it brings. So a number that has more than two bits in the sixth group is
neither rejected nor read as it stands (`varint_wideNumber`).
-/

namespace StackPeek.LineTable

/-- Some byte does not announce another, so that the number in front ends. -/
def HasEnd (bytes : List UInt8) : Prop := ∃ b ∈ bytes, b &&& 64 = 0

/-- The bytes of the number in front: those up to the first without bit 64, and that one. -/
def numberBytes (bytes : List UInt8) : List UInt8 :=
  bytes.take (bytes.findIdx (· &&& 64 = 0) + 1)

/-- The sum of the groups, each of them 64 times as heavy as the one before it. -/
def groupSum (bytes : List UInt8) : Nat := Nat.ofDigits 64 (bytes.map fun b => (b &&& 63).toNat)

/-- The bytes are rejected, or the number in front is read as it stands and to its end. -/
def ReadOrRejected (bytes : List UInt8) : Prop :=
  (∃ damage, varint bytes = .error damage) ∨
    ∃ v rest, varint bytes = .ok (v, rest) ∧ HasEnd bytes ∧ bytes = numberBytes bytes ++ rest ∧
      v.toNat = groupSum (numberBytes bytes)

/-- The number in front ends with its sixth byte, which has more than the two bits that a word has
left for it. -/
def Overfull (bytes : List UInt8) : Prop :=
  HasEnd bytes ∧ (numberBytes bytes).length = 6 ∧
    ∃ last ∈ (numberBytes bytes).getLast?, 4 ≤ (last &&& 63).toNat

section
variable {b : UInt8} {bytes rest : List UInt8}

theorem toNat_and_63 (b : UInt8) : (b &&& 63).toNat = b.toNat % 64 := by
  rw [UInt8.toNat_and]
  exact Nat.and_two_pow_sub_one_eq_mod b.toNat 6

theorem and_64_eq_zero_iff (b : UInt8) : b &&& 64 = 0 ↔ b.toNat / 64 % 2 = 0 := by
  have hbit : b.toNat &&& 64 = (b.toNat.testBit 6).toNat * 64 := Nat.and_two_pow b.toNat 6
  rw [← UInt8.toNat_inj, UInt8.toNat_and]
  change b.toNat &&& 64 = 0 ↔ _
  rw [hbit, Nat.testBit_eq_decide_div_mod_eq]
  change (decide (b.toNat / 64 % 2 = 1)).toNat * 64 = 0 ↔ _
  by_cases h : b.toNat / 64 % 2 = 1
  · rw [decide_eq_true h, h]
    decide
  · rw [decide_eq_false h]
    exact iff_of_true rfl (by omega)

theorem numberBytes_last (h : b &&& 64 = 0) : numberBytes (b :: rest) = [b] := by
  simp [numberBytes, List.findIdx_cons, h]

theorem numberBytes_more (h : ¬ b &&& 64 = 0) :
    numberBytes (b :: rest) = b :: numberBytes rest := by
  simp [numberBytes, List.findIdx_cons, h]

theorem length_numberBytes_pos (b : UInt8) (rest : List UInt8) :
    0 < (numberBytes (b :: rest)).length := Nat.succ_pos _

theorem hasEnd_cons_iff : HasEnd (b :: rest) ↔ b &&& 64 = 0 ∨ HasEnd rest :=
  List.exists_mem_cons_iff _ b rest

theorem groupSum_cons (b : UInt8) (rest : List UInt8) :
    groupSum (b :: rest) = b.toNat % 64 + 64 * groupSum rest := by
  rw [← toNat_and_63]
  rfl

theorem groupSum_append (bytes rest : List UInt8) :
    groupSum (bytes ++ rest) = groupSum bytes + 64 ^ bytes.length * groupSum rest := by
  unfold groupSum
  rw [List.map_append, Nat.ofDigits_append, List.length_map]

theorem groupSum_lt (bytes : List UInt8) : groupSum bytes < 64 ^ bytes.length := by
  have hgroups : ∀ g ∈ bytes.map fun b => (b &&& 63).toNat, g < 64 := by
    intro g hg
    obtain ⟨b, -, rfl⟩ := List.mem_map.mp hg
    rw [toNat_and_63]
    exact Nat.mod_lt _ (by decide)
  have hlt := Nat.ofDigits_lt_base_pow_length (by decide : 1 < 64) hgroups
  rwa [List.length_map] at hlt

/-- Up to six groups make a word exactly if the sixth of them has two bits at most. -/
theorem groupSum_lt_size_iff (h : bytes.length ≤ 6) :
    groupSum bytes < UInt32.size ↔
      ¬ (bytes.length = 6 ∧ ∃ last ∈ bytes.getLast?, 4 ≤ (last &&& 63).toNat) := by
  have hsize : UInt32.size = 4294967296 := rfl
  have hsum := groupSum_lt bytes
  rcases Nat.lt_or_eq_of_le h with hshort | hsix
  · have hpow : 64 ^ bytes.length ≤ 64 ^ 5 := Nat.pow_le_pow_right (by decide) (by omega)
    exact iff_of_true (by omega) (by omega)
  obtain rfl | ⟨init, last, rfl⟩ := List.eq_nil_or_concat' bytes
  · cases hsix
  have hinit : init.length = 5 := by
    rw [List.length_append] at hsix
    exact Nat.succ.inj hsix
  have hlow : groupSum init < 64 ^ 5 := hinit ▸ groupSum_lt init
  have hlast : groupSum [last] = (last &&& 63).toNat := Nat.ofDigits_singleton
  rw [groupSum_append, hinit, hlast]
  simp only [hsix, true_and, List.getLast?_concat, Option.mem_some_iff, exists_eq_left']
  omega

end

namespace Groups
variable {room n : Nat} {groups : List UInt8}

theorem length_le (h : Groups room n groups) : groups.length ≤ room := by
  induction h with
  | last => exact Nat.succ_le_succ (Nat.zero_le _)
  | more _ _ ih => exact Nat.succ_le_succ ih

theorem groupSum_eq (h : Groups room n groups) : groupSum groups = n := by
  induction h with
  | last => exact groupSum_cons _ []
  | more _ _ ih => rw [groupSum_cons, ih]

theorem hasEnd_append (h : Groups room n groups) (rest : List UInt8) :
    HasEnd (groups ++ rest) := by
  induction h with
  | last hlast => exact hasEnd_cons_iff.mpr (.inl ((and_64_eq_zero_iff _).mpr hlast))
  | more _ _ ih => exact hasEnd_cons_iff.mpr (.inr ih)

theorem numberBytes_append (h : Groups room n groups) (rest : List UInt8) :
    numberBytes (groups ++ rest) = groups := by
  induction h with
  | last hlast => exact numberBytes_last ((and_64_eq_zero_iff _).mpr hlast)
  | @more room n b groups hmore _ ih =>
    have hb : ¬ b &&& 64 = 0 := by
      rw [and_64_eq_zero_iff]
      omega
    rw [List.cons_append, numberBytes_more hb, ih]

end Groups

section
variable {bytes rest : List UInt8} {weight sum : Nat}

theorem groups_numberBytes {room : Nat} (h : HasEnd bytes)
    (hlength : (numberBytes bytes).length ≤ room) :
    Groups room (groupSum (numberBytes bytes)) (numberBytes bytes) := by
  induction bytes generalizing room with
  | nil =>
    obtain ⟨b, hb, -⟩ := h
    cases hb
  | cons b tail ih =>
    obtain ⟨room, rfl⟩ : ∃ left, room = left + 1 :=
      Nat.exists_eq_add_one.mpr (Nat.lt_of_lt_of_le (length_numberBytes_pos b tail) hlength)
    by_cases hb : b &&& 64 = 0
    · rw [numberBytes_last hb, groupSum_cons]
      exact .last ((and_64_eq_zero_iff b).mp hb)
    · rw [numberBytes_more hb] at hlength ⊢
      rw [groupSum_cons]
      have hmore : b.toNat / 64 % 2 = 1 := by
        rw [and_64_eq_zero_iff] at hb
        omega
      have hend : HasEnd tail := (hasEnd_cons_iff.mp h).resolve_left hb
      exact .more hmore (ih hend (Nat.le_of_succ_le_succ hlength))

theorem varint_eq_ok_numberBytes_iff {v : UInt32} :
    varint bytes = .ok (v, rest) ↔
      HasEnd bytes ∧ (numberBytes bytes).length ≤ 6 ∧ bytes = numberBytes bytes ++ rest ∧
        v = UInt32.ofNat (groupSum (numberBytes bytes)) := by
  rw [varint_eq_ok_iff]
  constructor
  · rintro ⟨n, groups, hg, rfl, rfl⟩
    rw [hg.numberBytes_append, hg.groupSum_eq]
    exact ⟨hg.hasEnd_append rest, hg.length_le, rfl, rfl⟩
  · rintro ⟨hend, hlength, hsplit, hv⟩
    exact ⟨_, _, groups_numberBytes hend hlength, hsplit, hv⟩

theorem readOrRejected_iff {v : UInt32} (h : varint bytes = .ok (v, rest)) :
    ReadOrRejected bytes ↔ v.toNat = groupSum (numberBytes bytes) := by
  constructor
  · rintro (⟨damage, h'⟩ | ⟨v', rest', h', -, -, hsum⟩)
    · rw [h] at h'
      cases h'
    · rw [h] at h'
      cases h'
      exact hsum
  · intro hsum
    obtain ⟨hend, -, hsplit, -⟩ := varint_eq_ok_numberBytes_iff.mp h
    exact .inr ⟨v, rest, h, hend, hsplit, hsum⟩

theorem varintFrom_full (h : 6 ≤ weight) (b : UInt8) :
    varintFrom weight sum (b :: rest) = .error .varintTooLong := by
  rw [varintFrom, if_pos (by omega)]

theorem varintFrom_last (h : weight < 6) {b : UInt8} (hb : b &&& 64 = 0) :
    varintFrom weight sum (b :: rest) = .ok (sum + (b.toNat % 64) <<< (6 * weight), rest) := by
  rw [and_64_eq_zero_iff] at hb
  rw [varintFrom, if_neg (by omega)]
  exact if_neg (by omega)

theorem varintFrom_more (h : weight < 6) {b : UInt8} (hb : ¬ b &&& 64 = 0) :
    varintFrom weight sum (b :: rest) =
      varintFrom (weight + 1) (sum + (b.toNat % 64) <<< (6 * weight)) rest := by
  rw [and_64_eq_zero_iff] at hb
  rw [varintFrom, if_neg (by omega)]
  exact if_pos (by omega)

theorem varintFrom_truncated_iff (h : weight ≤ 6) :
    varintFrom weight sum bytes = .error .truncated ↔
      ¬ HasEnd bytes ∧ weight + bytes.length ≤ 6 := by
  induction bytes generalizing weight sum with
  | nil => exact iff_of_true rfl ⟨nofun, h⟩
  | cons b tail ih =>
    rw [hasEnd_cons_iff, List.length_cons]
    rcases Nat.lt_or_eq_of_le h with hroom | hfull
    · by_cases hb : b &&& 64 = 0
      · rw [varintFrom_last hroom hb]
        exact iff_of_false nofun fun hno => hno.1 (.inl hb)
      · rw [varintFrom_more hroom hb, ih hroom, or_iff_right hb, Nat.succ_add_eq_add_succ]
    · rw [varintFrom_full (Nat.le_of_eq hfull.symm)]
      exact iff_of_false nofun fun hfit => by omega

theorem varintFrom_tooLong_iff (h : weight ≤ 6) :
    varintFrom weight sum bytes = .error .varintTooLong ↔
      6 < weight + (numberBytes bytes).length := by
  induction bytes generalizing weight sum with
  | nil => exact iff_of_false nofun (Nat.not_lt.mpr h)
  | cons b tail ih =>
    rcases Nat.lt_or_eq_of_le h with hroom | hfull
    · by_cases hb : b &&& 64 = 0
      · rw [varintFrom_last hroom hb, numberBytes_last hb]
        exact iff_of_false nofun (Nat.not_lt.mpr hroom)
      · rw [varintFrom_more hroom hb, ih hroom, numberBytes_more hb, List.length_cons,
          Nat.succ_add_eq_add_succ]
    · have hpos := length_numberBytes_pos b tail
      rw [varintFrom_full (Nat.le_of_eq hfull.symm)]
      exact iff_of_true rfl (by omega)

theorem varint_eq_error_iff {damage : Malformed} :
    varint bytes = .error damage ↔ varintFrom 0 0 bytes = .error damage := by
  unfold varint
  cases varintFrom 0 0 bytes with
  | error e =>
    change Except.error e = .error damage ↔ Except.error e = .error damage
    rw [Except.error.injEq, Except.error.injEq]
  | ok read => exact iff_of_false nofun nofun

end

/-- Bytes are rejected if they end inside their number and before a seventh byte, or if the number
has more than six bytes, and in no other case. The others are read as they stand, unless the number
is overfull. -/
theorem varint_exact_iff (bytes : List UInt8) :
    (varint bytes = .error .truncated ↔ ¬ HasEnd bytes ∧ bytes.length ≤ 6) ∧
      (varint bytes = .error .varintTooLong ↔ 6 < (numberBytes bytes).length) ∧
      (ReadOrRejected bytes ↔ ¬ Overfull bytes) := by
  refine ⟨?_, ?_, ?_⟩
  · rw [varint_eq_error_iff, varintFrom_truncated_iff (Nat.zero_le 6), Nat.zero_add]
  · rw [varint_eq_error_iff, varintFrom_tooLong_iff (Nat.zero_le 6), Nat.zero_add]
  cases hread : varint bytes with
  | error damage =>
    refine iff_of_true (.inl ⟨damage, hread⟩) ?_
    rintro ⟨hend, hsix, -⟩
    have hok := varint_eq_ok_numberBytes_iff.mpr
      ⟨hend, Nat.le_of_eq hsix, (List.take_append_drop _ bytes).symm, rfl⟩
    rw [hread] at hok
    cases hok
  | ok read =>
    obtain ⟨v, rest⟩ := read
    obtain ⟨hend, hlength, -, hv⟩ := varint_eq_ok_numberBytes_iff.mp hread
    calc ReadOrRejected bytes
      _ ↔ v.toNat = groupSum (numberBytes bytes) := readOrRejected_iff hread
      _ ↔ groupSum (numberBytes bytes) < UInt32.size := by
        rw [hv, UInt32.toNat_ofNat']
        exact Nat.mod_eq_iff_lt (by decide)
      _ ↔ ¬ Overfull bytes := by
        rw [groupSum_lt_size_iff hlength, Overfull, and_iff_right hend]

-- The largest number that a word holds.
example : varint [0x7F, 0x7F, 0x7F, 0x7F, 0x7F, 0x03] = .ok (4294967295, []) := by rfl

/-- Twenty, and a bit above all those of a word. -/
def wideNumber : List UInt8 := [0x54, 0x40, 0x40, 0x40, 0x40, 0x04]

/-- A number that does not fit a word can be read as one that does, and the line is moved by that. -/
theorem varint_wideNumber :
    numberBytes wideNumber = wideNumber ∧ groupSum wideNumber = 4294967316 ∧
      varint wideNumber = .ok (20, []) ∧ ¬ ReadOrRejected wideNumber ∧
      (⟨.locationTable311, 1, 0xE8 :: wideNumber⟩ : LineTable).lookup 1 = (11, none) := by
  have hnumber : numberBytes wideNumber = wideNumber := by decide
  have hsum : groupSum wideNumber = 4294967316 := by decide
  have hread : varint wideNumber = .ok (20, []) := by rfl
  have hlookup : (⟨.locationTable311, 1, 0xE8 :: wideNumber⟩ : LineTable).lookup 1 =
      (11, none) := by cbv
  refine ⟨hnumber, hsum, hread, ?_, hlookup⟩
  rw [readOrRejected_iff hread, hnumber, hsum]
  decide

end StackPeek.LineTable
