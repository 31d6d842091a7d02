import StackPeek.Text.Object

/-!
# Text written down and read back

`Text.ofCharacters` is the UTF-8 of characters, as the standard library writes it. The library's
own encoder agrees with it and puts U+FFFD in the place of what is no character (`ofUnits_eq`).
Reading back is exact for both forms in which a target may keep text: units of one, two or four
bytes (`split_store`), and well-formed UTF-8, which may be cut after four bytes for each
character that is wanted (`repairOnto_take`).
-/

namespace StackPeek

/-- The character that a code unit stands for; U+FFFD unless it is a character. -/
def Utf8.character (unit : Nat) : Char :=
  if h : unit.isValidChar then Char.ofNatAux unit h else Char.ofNat Utf8.replacement

def Text.ofCharacters (chars : List Char) : Text := ⟨chars.flatMap String.utf8EncodeChar⟩

namespace Utf8

theorem isScalar_iff {c : Nat} : isScalar c = true ↔ c.isValidChar := by
  simp only [isScalar, Bool.or_eq_true, Bool.and_eq_true, decide_eq_true_eq, Nat.isValidChar]
  omega

theorem toNat_character (unit : Nat) : (character unit).toNat = scalar unit := by
  unfold character scalar
  by_cases h : unit.isValidChar
  · rw [dif_pos h, if_pos (isScalar_iff.mpr h)]
    exact UInt32.toNat_ofNatLT
  · rw [dif_neg h, if_neg fun hs => h (isScalar_iff.mp hs)]
    rfl

theorem isScalar_toNat (c : Char) : isScalar c.toNat = true := isScalar_iff.mpr c.valid

theorem character_toNat (c : Char) : character c.toNat = c := by
  apply Char.toNat_inj.mp
  rw [toNat_character, scalar, if_pos (isScalar_toNat c)]

theorem toNat_lt (c : Char) : c.toNat < 0x110000 := by
  have h := c.valid
  simp only [UInt32.isValidChar, Nat.isValidChar] at h
  have hn : c.toNat = c.val.toNat := rfl
  omega

/-- The sequence of a character is the one that the standard library writes. -/
theorem sequence_toNat (c : Char) : sequence c.toNat = String.utf8EncodeChar c := by
  have hc := toNat_lt c
  have hn : c.val.toNat = c.toNat := rfl
  unfold sequence String.utf8EncodeChar
  simp only [hn]
  -- Both writers take the shortest of four lengths; only the spelling of the bounds differs.
  by_cases h1 : c.toNat < 0x80
  · rw [if_pos h1, if_pos (show c.toNat ≤ 0x7F by omega)]
  rw [if_neg h1, if_neg (show ¬ c.toNat ≤ 0x7F by omega)]
  by_cases h2 : c.toNat < 0x800
  · rw [if_pos h2, if_pos (show c.toNat ≤ 0x7FF by omega), Nat.mod_eq_of_lt (b := 32) (by omega)]
    simp only [Nat.add_comm]
  rw [if_neg h2, if_neg (show ¬ c.toNat ≤ 0x7FF by omega)]
  by_cases h3 : c.toNat < 0x10000
  · rw [if_pos h3, if_pos (show c.toNat ≤ 0xFFFF by omega), Nat.mod_eq_of_lt (b := 16) (by omega)]
    simp only [Nat.add_comm]
  · rw [if_neg h3, if_neg (show ¬ c.toNat ≤ 0xFFFF by omega), Nat.mod_eq_of_lt (b := 8) (by omega)]
    simp only [Nat.add_comm]

theorem encode_eq (unit : Nat) : encode unit = String.utf8EncodeChar (character unit) := by
  rw [← sequence_toNat, toNat_character]
  rfl

end Utf8

theorem Text.ofUnits_eq (units : List Nat) :
    Text.ofUnits units = .ofCharacters (units.map Utf8.character) := by
  unfold ofUnits ofCharacters Utf8.encodeAll
  rw [List.flatMap_map]
  exact congrArg Text.mk (congrArg (units.flatMap ·) (funext Utf8.encode_eq))

theorem Text.ofUnits_toNat (chars : List Char) :
    Text.ofUnits (chars.map Char.toNat) = .ofCharacters chars := by
  rw [Text.ofUnits_eq, List.map_map]
  exact congrArg Text.ofCharacters (List.map_id'' Utf8.character_toNat chars)

namespace UnitWidth

theorem bytes_pos (width : UnitWidth) : 0 < width.bytes.toNat := by cases width <;> decide

theorem bytes_le (width : UnitWidth) : width.bytes.toNat ≤ 4 := by cases width <;> decide

/-- The size of a buffer does not wrap if there is room for as many units of four bytes. -/
theorem toNat_mul_bytes (width : UnitWidth) {count : UInt64} (h : count.toNat < UInt64.size / 4) :
    (count * width.bytes).toNat = count.toNat * width.bytes.toNat := by
  have hsize : UInt64.size = 2 ^ 64 := rfl
  have hbytes : count.toNat * width.bytes.toNat ≤ count.toNat * 4 :=
    Nat.mul_le_mul_left _ width.bytes_le
  rw [UInt64.toNat_mul, Nat.mod_eq_of_lt (by omega)]

/-- Units in a row, each least significant byte first. -/
def store (width : UnitWidth) (units : List Nat) : List UInt8 :=
  units.flatMap (Bytes.ofNat width.bytes.toNat)

def Holds (width : UnitWidth) (units : List Nat) : Prop :=
  ∀ u ∈ units, u < Bytes.capacity width.bytes.toNat

theorem length_store (width : UnitWidth) (units : List Nat) :
    (width.store units).length = units.length * width.bytes.toNat := by
  unfold store
  rw [List.length_flatMap]
  simp only [Bytes.length_ofNat, List.map_const', List.sum_replicate_nat]

theorem take_store (width : UnitWidth) (units : List Nat) (n : Nat) :
    (width.store units).take (n * width.bytes.toNat) = width.store (units.take n) := by
  induction units generalizing n with
  | nil => simp [store]
  | cons u rest ih =>
    cases n with
    | zero => simp [store]
    | succ n =>
      have hsum : (n + 1) * width.bytes.toNat =
          (Bytes.ofNat width.bytes.toNat u).length + n * width.bytes.toNat := by
        rw [Bytes.length_ofNat, Nat.succ_mul, Nat.add_comm]
      unfold store at ih ⊢
      rw [List.take_succ_cons, List.flatMap_cons, List.flatMap_cons, hsum,
        List.take_length_add_append, ih]

theorem split_append (width : UnitWidth) {first : List UInt8}
    (h : first.length = width.bytes.toNat) (rest : List UInt8) :
    width.split (first ++ rest) = Bytes.littleEndian first :: width.split rest := by
  cases width with
  | one =>
    obtain ⟨a, rfl⟩ := List.length_eq_one_iff.mp h
    rfl
  | two =>
    match first, h with
    | [a, b], _ =>
      change (pairsOnto [Bytes.littleEndian [a, b]] rest).reverse = _
      rw [pairsOnto_eq, List.reverse_append]
      rfl
  | four =>
    match first, h with
    | [a, b, c, d], _ =>
      change (quadsOnto [Bytes.littleEndian [a, b, c, d]] rest).reverse = _
      rw [quadsOnto_eq, List.reverse_append]
      rfl

theorem split_cons (width : UnitWidth) {unit : Nat} (h : unit < Bytes.capacity width.bytes.toNat)
    (rest : List UInt8) :
    width.split (Bytes.ofNat width.bytes.toNat unit ++ rest) = unit :: width.split rest := by
  rw [split_append width (Bytes.length_ofNat _ _), Bytes.littleEndian_ofNat, Nat.mod_eq_of_lt h]

theorem split_eq_map (width : UnitWidth) {count : Nat} {bytes : List UInt8}
    (h : bytes.length = count * width.bytes.toNat) :
    width.split bytes = (List.range count).map fun i =>
      Bytes.littleEndian ((bytes.drop (i * width.bytes.toNat)).take width.bytes.toNat) := by
  induction count generalizing bytes with
  | zero =>
    rw [Nat.zero_mul] at h
    rw [List.length_eq_zero_iff.mp h]
    cases width <;> rfl
  | succ count ih =>
    rw [Nat.succ_mul] at h
    have hfirst : (bytes.take width.bytes.toNat).length = width.bytes.toNat := by
      rw [List.length_take]
      omega
    have hrest : (bytes.drop width.bytes.toNat).length = count * width.bytes.toNat := by
      rw [List.length_drop]
      omega
    have hsplit := split_append width hfirst (bytes.drop width.bytes.toNat)
    rw [List.take_append_drop, ih hrest] at hsplit
    rw [hsplit, List.range_succ_eq_map, List.map_cons, List.map_map, Nat.zero_mul, List.drop_zero]
    refine congrArg (_ :: ·) (List.map_congr_left fun i _ => ?_)
    rw [List.drop_drop, Function.comp_apply, Nat.succ_mul, Nat.add_comm]

theorem split_store {width : UnitWidth} {units : List Nat} (h : width.Holds units) :
    width.split (width.store units) = units := by
  induction units with
  | nil => cases width <;> rfl
  | cons u rest ih =>
    have hrest : width.Holds rest := fun v hv => h v (List.mem_cons_of_mem u hv)
    unfold store at ih ⊢
    rw [List.flatMap_cons, split_cons width (h u List.mem_cons_self), ih hrest]

end UnitWidth

namespace Utf8

theorem length_sequence_le (n : Nat) : (sequence n).length ≤ 4 := by
  unfold sequence
  split
  · simp
  split
  · simp
  split <;> simp

theorem repairOnto_whole {b : UInt8} (count bits : Nat) (tail : List UInt8) {n : Nat}
    (hb : lead? b = some (count, bits)) (ht : tail.length = count) (hn : extend? bits tail = some n)
    (read : List Nat) (limit : Nat) (rest : List UInt8) :
    repairOnto read (limit + 1) (b :: (tail ++ rest)) = repairOnto (n :: read) limit rest := by
  subst ht
  simp only [repairOnto, hb, List.take_left', List.drop_left', hn, Nat.lt_irrefl, if_false]

theorem extend?_cons {bits k : Nat} (h : k < 64) (rest : List UInt8) :
    extend? bits (UInt8.ofNat (0x80 + k) :: rest) = extend? (bits * 64 + k) rest := by
  have hk : (UInt8.ofNat (0x80 + k)).toNat = 0x80 + k := by
    rw [UInt8.toNat_ofNat', Nat.mod_eq_of_lt (by omega)]
  rw [extend?, hk, if_pos (by omega), Nat.add_mod]
  rw [show (0x80 % 64 + k % 64) % 64 = k by omega]

theorem repairOnto_sequence {n : Nat} (h : n < 0x110000) (read : List Nat) (limit : Nat)
    (rest : List UInt8) :
    repairOnto read (limit + 1) (sequence n ++ rest) = repairOnto (n :: read) limit rest := by
  have hbyte : ∀ k, k < 256 → (UInt8.ofNat k).toNat = k := fun k hk => by
    rw [UInt8.toNat_ofNat', Nat.mod_eq_of_lt hk]
  have h6 : ∀ k : Nat, k % 64 < 64 := fun k => Nat.mod_lt k (by decide)
  unfold sequence
  by_cases h1 : n < 0x80
  · rw [if_pos h1]
    refine repairOnto_whole 0 n [] ?_ rfl rfl read limit rest
    simp only [lead?, hbyte n (by omega), if_pos h1]
  rw [if_neg h1]
  by_cases h2 : n < 0x800
  · rw [if_pos h2]
    refine repairOnto_whole 1 (n / 64) [_] ?_ rfl ?_ read limit rest
    · simp only [lead?, hbyte (0xC0 + n / 64) (by omega)]
      rw [if_neg (by omega), if_neg (by omega), if_pos (by omega)]
      congr 2
      omega
    · rw [extend?_cons (h6 n), extend?]
      congr 1
      omega
  rw [if_neg h2]
  by_cases h3 : n < 0x10000
  · rw [if_pos h3]
    refine repairOnto_whole 2 (n / 4096) [_, _] ?_ rfl ?_ read limit rest
    · simp only [lead?, hbyte (0xE0 + n / 4096) (by omega)]
      rw [if_neg (by omega), if_neg (by omega), if_neg (by omega), if_pos (by omega)]
      congr 2
      omega
    · rw [extend?_cons (h6 _), extend?_cons (h6 n), extend?]
      congr 1
      omega
  · rw [if_neg h3]
    refine repairOnto_whole 3 (n / 262144) [_, _, _] ?_ rfl ?_ read limit rest
    · simp only [lead?, hbyte (0xF0 + n / 262144) (by omega)]
      rw [if_neg (by omega), if_neg (by omega), if_neg (by omega), if_neg (by omega),
        if_pos (by omega)]
      congr 2
      omega
    · rw [extend?_cons (h6 _), extend?_cons (h6 _), extend?_cons (h6 n), extend?]
      congr 1
      omega

/-- From the UTF-8 of characters, cut after four octets for each character that is wanted or
later, that many characters are read. -/
theorem repairOnto_take (read : List Nat) (chars : List Char) (limit cut : Nat)
    (h : 4 * limit ≤ cut ∨ (Text.ofCharacters chars).octets.length ≤ cut) :
    repairOnto read limit ((Text.ofCharacters chars).octets.take cut) =
      ((chars.take limit).map Char.toNat).reverse ++ read := by
  induction limit generalizing read chars cut with
  | zero => simp [repairOnto]
  | succ limit ih =>
    cases chars with
    | nil => simp [Text.ofCharacters, repairOnto]
    | cons c rest =>
      have hseq := length_sequence_le c.toNat
      simp only [Text.ofCharacters] at ih
      simp only [Text.ofCharacters, List.flatMap_cons, List.length_append,
        ← sequence_toNat c] at h ⊢
      rw [List.take_append, List.take_of_length_le (by omega), repairOnto_sequence (toNat_lt c),
        ih _ rest _ (by omega)]
      simp

theorem repair_take (chars : List Char) (limit cut : Nat)
    (h : 4 * limit ≤ cut ∨ (Text.ofCharacters chars).octets.length ≤ cut) :
    repair limit ((Text.ofCharacters chars).octets.take cut) =
      (chars.take limit).map Char.toNat := by
  unfold repair
  rw [repairOnto_take [] chars limit cut h, List.append_nil, List.reverse_reverse]

end Utf8
end StackPeek
