import StackPeek.Member.Decode
import StackPeek.Proofs.Member.Accepted

/-!
# The bits of a member

Bit `p` of a row of bytes is bit `p % 8` of byte `p / 8`, and so it is in the little-endian number
that the bytes stand for (`Bytes.testBit_littleEndian`). `FieldSpec.Owns` says which bits of the
address space belong to a member at an address. `FieldSpec.put` writes a value into those bits of a
row of bytes: they are the low bits of the value afterwards, and no other bit is changed
(`FieldSpec.testBit_put`). So the integer in the member becomes the value without its high bits
(`FieldSpec.integer_put`), and the integer in another member stays what it was if no bit belongs to
both (`FieldSpec.integer_put_apart`).
-/

namespace StackPeek

namespace Bytes

theorem testBit_byte (b : UInt8) {p : Nat} (h : 8 ≤ p) : b.toNat.testBit p = false := by
  rw [← UInt8.toNat_toBitVec, BitVec.testBit_toNat]
  exact BitVec.getLsbD_of_ge _ _ h

theorem testBit_littleEndian (bytes : List UInt8) (p : Nat) :
    (littleEndian bytes).testBit p = (bytes.getD (p / 8) 0).toNat.testBit (p % 8) := by
  induction bytes generalizing p with
  | nil => exact (Nat.zero_testBit p).trans (Nat.zero_testBit (p % 8)).symm
  | cons b rest ih =>
    have hsplit := Nat.testBit_two_pow_mul_add (littleEndian rest) b.toNat_lt p
    rw [littleEndian, Nat.add_comm, show 256 = 1 <<< 8 from rfl, Nat.one_shiftLeft, hsplit]
    by_cases hp : p < 8
    · rw [if_pos hp, Nat.div_eq_of_lt hp, Nat.mod_eq_of_lt hp]
      rfl
    · have hdiv : p / 8 = (p - 8) / 8 + 1 := by omega
      have hmod : p % 8 = (p - 8) % 8 := by omega
      rw [if_neg hp, ih, hdiv, hmod]
      rfl

theorem testBit_behind {bytes : List UInt8} {p : Nat} (h : 8 * bytes.length ≤ p) :
    (littleEndian bytes).testBit p = false := by
  have hget : bytes.getD (p / 8) 0 = 0 := by
    rw [List.getD_eq_getElem?_getD, List.getElem?_eq_none (by omega)]
    rfl
  rw [testBit_littleEndian, hget]
  exact Nat.zero_testBit _

theorem testBit_take (bytes : List UInt8) (n p : Nat) :
    (littleEndian (bytes.take n)).testBit p =
      (decide (p < 8 * n) && (littleEndian bytes).testBit p) := by
  by_cases hp : p < 8 * n
  · rw [testBit_littleEndian, testBit_littleEndian, List.getD_eq_getElem?_getD,
      List.getD_eq_getElem?_getD, List.getElem?_take_of_lt (by omega), decide_eq_true hp,
      Bool.true_and]
  · rw [decide_eq_false hp, Bool.false_and]
    apply testBit_behind
    rw [List.length_take]
    omega

theorem getElem?_ofNat (width n i : Nat) :
    (ofNat width n)[i]? = if i < width then some (UInt8.ofNat (n >>> (8 * i))) else none := by
  induction width generalizing n i with
  | zero => rfl
  | succ width ih =>
    cases i with
    | zero => rfl
    | succ i =>
      have hshift : (n / 256) >>> (8 * i) = n >>> (8 * (i + 1)) := by
        rw [Nat.mul_succ, Nat.add_comm, Nat.shiftRight_add, Nat.shiftRight_eq_div_pow n 8]
      rw [ofNat, List.getElem?_cons_succ, ih, hshift]
      simp only [Nat.add_lt_add_iff_right]

end Bytes

namespace FieldSpec

def firstBit (spec : FieldSpec) : Nat :=
  if spec.rule = .bitFlags then spec.bitOffset.toNat else 0

def bitCount (spec : FieldSpec) : Nat :=
  if spec.rule = .bitFlags then spec.bitWidth.toNat else 8 * spec.width.toNat

/-- The bit belongs to the member at the address, bits and bytes being counted from address zero
on. -/
def Owns (spec : FieldSpec) (address bit : Nat) : Prop :=
  8 * address + spec.firstBit ≤ bit ∧ bit < 8 * address + spec.firstBit + spec.bitCount

instance (spec : FieldSpec) (address bit : Nat) : Decidable (spec.Owns address bit) :=
  inferInstanceAs (Decidable (_ ∧ _))

/-- The bits of a byte of the member that belong to the member. -/
def mask (spec : FieldSpec) (i : Nat) : UInt8 :=
  UInt8.ofNat ((((1 <<< spec.bitCount) - 1) <<< spec.firstBit) >>> (8 * i))

/-- A byte of the member after a value has been written into the member. -/
def putByte (spec : FieldSpec) (v : UInt64) (i : Nat) (old : UInt8) : UInt8 :=
  (old &&& ~~~spec.mask i) |||
    (UInt8.ofNat ((v.toNat <<< spec.firstBit) >>> (8 * i)) &&& spec.mask i)

/-- The bytes from address `b` on after a value has been written into the member at address `a`. -/
def put (spec : FieldSpec) (v : UInt64) (a b : Nat) (bytes : List UInt8) : List UInt8 :=
  bytes.mapIdx fun i old => if a ≤ b + i then spec.putByte v (b + i - a) old else old

variable {spec : FieldSpec} {v : UInt64} {a b : Nat} {bytes : List UInt8}

theorem wellShaped_bits (h : spec.wellShaped = true) :
    spec.firstBit + spec.bitCount ≤ 8 * spec.width.toNat := by
  unfold firstBit bitCount
  by_cases hb : spec.rule = .bitFlags
  · simp only [wellShaped, hb, bne_self_eq_false, Bool.false_or, Bool.and_eq_true,
      decide_eq_true_eq] at h
    rw [if_pos hb, if_pos hb]
    omega
  · rw [if_neg hb, if_neg hb]
    exact Nat.le_of_eq (Nat.zero_add _)

theorem testBit_ofNat (n : Nat) {j : Nat} (hj : j < 8) :
    (UInt8.ofNat n).toNat.testBit j = n.testBit j := by
  rw [UInt8.toNat_ofNat', Nat.testBit_mod_two_pow, decide_eq_true hj, Bool.true_and]

theorem testBit_mask (i : Nat) {j : Nat} (hj : j < 8) :
    (spec.mask i).toNat.testBit j = decide (spec.Owns 0 (8 * i + j)) := by
  unfold mask Owns
  rw [testBit_ofNat _ hj, Nat.testBit_shiftRight, Nat.testBit_shiftLeft, Nat.one_shiftLeft,
    Nat.testBit_two_pow_sub_one, ← Bool.decide_and]
  apply decide_eq_decide.mpr
  omega

theorem testBit_putByte (v : UInt64) (i : Nat) (old : UInt8) {j : Nat} (hj : j < 8) :
    (spec.putByte v i old).toNat.testBit j =
      if spec.Owns 0 (8 * i + j) then v.toNat.testBit (8 * i + j - spec.firstBit)
      else old.toNat.testBit j := by
  have hmask := spec.testBit_mask i hj
  have hnot : (~~~spec.mask i).toNat.testBit j = !(spec.mask i).toNat.testBit j := by
    rw [← UInt8.toNat_toBitVec, ← UInt8.toNat_toBitVec, BitVec.testBit_toNat, BitVec.testBit_toNat,
      UInt8.toBitVec_not, BitVec.getLsbD_not, decide_eq_true hj, Bool.true_and]
  unfold putByte
  rw [UInt8.toNat_or, UInt8.toNat_and, UInt8.toNat_and, Nat.testBit_or, Nat.testBit_and,
    Nat.testBit_and, hnot, hmask, testBit_ofNat _ hj, Nat.testBit_shiftRight,
    Nat.testBit_shiftLeft]
  by_cases hown : spec.Owns 0 (8 * i + j)
  · have hfirst : spec.firstBit ≤ 8 * i + j := by
      have hstart := hown.1
      omega
    simp only [if_pos hown, decide_eq_true hown, decide_eq_true hfirst, Bool.not_true,
      Bool.and_false, Bool.false_or, Bool.true_and, Bool.and_true]
  · simp only [if_neg hown, decide_eq_false hown, Bool.not_false, Bool.and_true, Bool.and_false,
      Bool.or_false]

theorem eq_of_testBit {x y : UInt8} (h : ∀ j, j < 8 → x.toNat.testBit j = y.toNat.testBit j) :
    x = y := by
  apply UInt8.toNat_inj.mp
  apply Nat.eq_of_testBit_eq
  intro j
  by_cases hj : j < 8
  · exact h j hj
  · rw [Bytes.testBit_byte x (Nat.not_lt.mp hj), Bytes.testBit_byte y (Nat.not_lt.mp hj)]

theorem putByte_beyond (h : spec.wellShaped = true) {i : Nat} (hi : spec.width.toNat ≤ i)
    (old : UInt8) : spec.putByte v i old = old := by
  have hbits := wellShaped_bits h
  apply eq_of_testBit
  intro j hj
  rw [testBit_putByte v i old hj]
  apply if_neg
  rintro ⟨-, hstop⟩
  omega

theorem putByte_whole (h : spec.rule ≠ .bitFlags) {i : Nat} (hi : i < spec.width.toNat)
    (old : UInt8) : spec.putByte v i old = UInt8.ofNat (v.toNat >>> (8 * i)) := by
  apply eq_of_testBit
  intro j hj
  have hown : spec.Owns 0 (8 * i + j) := by
    unfold Owns firstBit bitCount
    rw [if_neg h, if_neg h]
    omega
  have hfirst : spec.firstBit = 0 := if_neg h
  rw [testBit_putByte v i old hj, if_pos hown, testBit_ofNat _ hj, Nat.testBit_shiftRight, hfirst,
    Nat.sub_zero]

@[simp] theorem length_put : (spec.put v a b bytes).length = bytes.length := List.length_mapIdx

theorem take_put (n : Nat) : (spec.put v a b bytes).take n = spec.put v a b (bytes.take n) := by
  unfold put
  apply List.ext_getElem?
  intro i
  rw [List.getElem?_mapIdx, List.getElem?_take, List.getElem?_take, List.getElem?_mapIdx]
  split <;> rfl

/-- The bits of the member are the low bits of the value, and all others are what they were. -/
theorem testBit_put {p : Nat} (hp : p < 8 * bytes.length) :
    (Bytes.littleEndian (spec.put v a b bytes)).testBit p =
      if spec.Owns a (8 * b + p) then v.toNat.testBit (8 * b + p - (8 * a + spec.firstBit))
      else (Bytes.littleEndian bytes).testBit p := by
  obtain ⟨byte, hget⟩ : ∃ byte, bytes[p / 8]? = some byte :=
    ⟨_, List.getElem?_eq_getElem (by omega)⟩
  rw [Bytes.testBit_littleEndian, Bytes.testBit_littleEndian, List.getD_eq_getElem?_getD,
    List.getD_eq_getElem?_getD, put, List.getElem?_mapIdx, hget, Option.map_some,
    Option.getD_some, Option.getD_some]
  by_cases ha : a ≤ b + p / 8
  · have hplace : 8 * (b + p / 8 - a) + p % 8 = 8 * b + p - 8 * a := by omega
    have howns : spec.Owns 0 (8 * b + p - 8 * a) ↔ spec.Owns a (8 * b + p) := by
      unfold Owns
      omega
    rw [if_pos ha, testBit_putByte v _ _ (by omega), hplace, Nat.sub_sub]
    simp only [howns]
  · rw [if_neg ha, if_neg]
    rintro ⟨hstart, -⟩
    omega

theorem testBit_integer (spec : FieldSpec) (bytes : List UInt8) (q : Nat) :
    (spec.integer bytes).testBit q =
      (decide (q < spec.bitCount ∧ spec.firstBit + q < 8 * spec.width.toNat) &&
        (Bytes.littleEndian bytes).testBit (spec.firstBit + q)) := by
  unfold integer firstBit bitCount
  by_cases hb : spec.rule = .bitFlags
  · simp only [if_pos hb]
    rw [Nat.one_shiftLeft, Nat.testBit_mod_two_pow, Nat.testBit_shiftRight, Bytes.testBit_take,
      Bool.decide_and, Bool.and_assoc]
  · simp only [if_neg hb]
    simp only [Bytes.testBit_take, Nat.zero_add, and_self]

/-- What has been written into a member is read back, without the bits that it has no place for. -/
theorem integer_put (h : spec.wellShaped = true) (hlen : spec.width.toNat ≤ bytes.length) :
    spec.integer (spec.put v a a bytes) = v.toNat % (1 <<< spec.bitCount) := by
  have hbits := wellShaped_bits h
  apply Nat.eq_of_testBit_eq
  intro q
  rw [testBit_integer, Nat.one_shiftLeft, Nat.testBit_mod_two_pow]
  by_cases hq : q < spec.bitCount
  · have hown : spec.Owns a (8 * a + (spec.firstBit + q)) := by
      unfold Owns
      omega
    have hplace : 8 * a + (spec.firstBit + q) - (8 * a + spec.firstBit) = q := by omega
    rw [testBit_put (by omega), if_pos hown, hplace, decide_eq_true hq,
      decide_eq_true ⟨hq, by omega⟩]
  · rw [decide_eq_false hq, decide_eq_false fun hin => hq hin.1]
    rfl

/-- A member that shares no bit with the one that has been written is not disturbed. -/
theorem integer_put_apart {other : FieldSpec}
    (h : ∀ bit, spec.Owns a bit → ¬ other.Owns b bit) :
    other.integer (spec.put v a b bytes) = other.integer bytes := by
  apply Nat.eq_of_testBit_eq
  intro q
  rw [testBit_integer, testBit_integer]
  by_cases hq : q < other.bitCount ∧ other.firstBit + q < 8 * other.width.toNat
  · by_cases hlen : other.firstBit + q < 8 * bytes.length
    · rw [testBit_put hlen, if_neg]
      intro hown
      apply h _ hown
      unfold Owns
      omega
    · have hbehind : 8 * bytes.length ≤ other.firstBit + q := Nat.not_lt.mp hlen
      have hbehindPut : 8 * (spec.put v a b bytes).length ≤ other.firstBit + q := by
        rwa [length_put]
      rw [Bytes.testBit_behind hbehind, Bytes.testBit_behind hbehindPut]
  · rw [decide_eq_false hq]
    rfl

end FieldSpec
end StackPeek
