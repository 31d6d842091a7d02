/-!
# Addresses and little-endian words

Addresses of a target process are 64-bit words, and so are offsets into its structures.
The integers it stores are little-endian. `base.plus? offset` is the only way in which the
library moves from a structure to a member of it: it refuses a null base and a sum that
does not fit a word.
-/

namespace StackPeek

/-- An address in the target process; zero is the null pointer. -/
abbrev Address := UInt64

inductive ReadError where
  | unmapped
  /-- Fewer bytes came back than were asked for, or the value is not plausible. -/
  | outOfRange
  | unsupportedField
  deriving DecidableEq, Repr, Inhabited

namespace ReadError

def all : List ReadError := [.unmapped, .outOfRange, .unsupportedField]

def name : ReadError → String
  | .unmapped => "Unmapped"
  | .outOfRange => "OutOfRange"
  | .unsupportedField => "UnsupportedField"

def nameOfCode (code : Nat) : String :=
  (all[code]?).elim "Unknown" name

end ReadError

namespace Address

def top : Address := 0xFFFFFFFFFFFFFFFF

def plus? (base : Address) (offset : UInt64) : Except ReadError Address :=
  if base = 0 then .error .unmapped
  else if base > top - offset then .error .outOfRange
  else .ok (base + offset)

theorem plus?_null (offset : UInt64) : plus? 0 offset = .error .unmapped := rfl

theorem toNat_of_plus? {base offset a : UInt64} (h : plus? base offset = .ok a) :
    a.toNat = base.toNat + offset.toNat := by
  unfold plus? at h
  split at h
  · simp at h
  · split at h
    · simp at h
    · rename_i hle
      injection h with h
      subst h
      have hb := base.toNat_lt
      have ho := offset.toNat_lt
      have ht : (top - offset).toNat = 2 ^ 64 - 1 - offset.toNat := by
        rw [UInt64.toNat_sub_of_le]
        · rfl
        · rw [UInt64.le_iff_toNat_le]
          have : top.toNat = 2 ^ 64 - 1 := rfl
          omega
      have hle : base.toNat ≤ 2 ^ 64 - 1 - offset.toNat := by
        have := UInt64.not_lt.mp hle
        rw [UInt64.le_iff_toNat_le, ht] at this
        exact this
      rw [UInt64.toNat_add, Nat.mod_eq_of_lt (by omega)]

theorem plus?_of_lt {base offset : UInt64} (h0 : base ≠ 0)
    (h : base.toNat + offset.toNat < UInt64.size) : plus? base offset = .ok (base + offset) := by
  have hsize : UInt64.size = 18446744073709551616 := rfl
  have htop : top.toNat = 18446744073709551615 := rfl
  have ho := offset.toNat_lt
  have hle : ¬ top - offset < base := by
    rw [UInt64.lt_iff_toNat_lt, UInt64.toNat_sub_of_le _ _ (UInt64.le_iff_toNat_le.mpr (by omega))]
    omega
  unfold plus?
  rw [if_neg h0, if_neg hle]

theorem plus?_cases {base : UInt64} (h0 : base ≠ 0) (offset : UInt64) :
    plus? base offset = .error .outOfRange ∨ ∃ a, plus? base offset = .ok a ∧ a ≠ 0 := by
  cases hp : plus? base offset with
  | error e =>
    unfold plus? at hp
    rw [if_neg h0] at hp
    split at hp <;> cases hp
    exact .inl rfl
  | ok a =>
    refine .inr ⟨a, rfl, ?_⟩
    rintro rfl
    have hsum := toNat_of_plus? hp
    have hzero : (0 : UInt64).toNat = 0 := rfl
    have hbase : base.toNat = 0 := by omega
    exact h0 (UInt64.toNat_inj.mp hbase)

end Address

namespace Bytes

def littleEndian : List UInt8 → Nat
  | [] => 0
  | b :: rest => b.toNat + 256 * littleEndian rest

/-- The `width` low bytes of a number, least significant first. -/
def ofNat : (width : Nat) → Nat → List UInt8
  | 0, _ => []
  | width + 1, n => UInt8.ofNat n :: ofNat width (n / 256)

@[simp] theorem length_ofNat (width n : Nat) : (ofNat width n).length = width := by
  induction width generalizing n with
  | zero => rfl
  | succ width ih => simp [ofNat, ih]

def capacity : (width : Nat) → Nat
  | 0 => 1
  | width + 1 => 256 * capacity width

theorem capacity_mono {a b : Nat} (h : a ≤ b) : capacity a ≤ capacity b := by
  induction h with
  | refl => exact Nat.le_refl _
  | @step b _ ih =>
    have hb : capacity b.succ = 256 * capacity b := rfl
    omega

theorem littleEndian_lt (bytes : List UInt8) : littleEndian bytes < capacity bytes.length := by
  induction bytes with
  | nil => exact Nat.one_pos
  | cons b rest ih =>
    have hb := b.toNat_lt
    simp only [littleEndian, List.length_cons, capacity]
    omega

theorem littleEndian_ofNat (width n : Nat) :
    littleEndian (ofNat width n) = n % capacity width := by
  induction width generalizing n with
  | zero => simp [ofNat, littleEndian, capacity, Nat.mod_one]
  | succ width ih =>
    have hb : (UInt8.ofNat n).toNat = n % 256 := UInt8.toNat_ofNat'
    rw [ofNat, littleEndian, ih, hb, capacity, Nat.mod_mul]

end Bytes
end StackPeek
