import StackPeek.Numeral
import StackPeek.Numeral.Scan

/-!
# Numbers written down and read back

`Scan.Spelled base n octets` says that the octets are digits which stand for `n`, with any number of
zeros in front. Numbers are written that way, padded or not (`spelled_paddedHex`,
`spelled_decimal`), and what is spelled that way is read back up to the space, dash or colon behind
it (`word?_spelled`).
-/

namespace StackPeek

def Numeral.octets (chars : List Char) : List UInt8 := chars.map fun c => UInt8.ofNat c.toNat

namespace Scan

/-- Digits that stand for a number, most significant first. -/
inductive Spelled (base : Nat) : Nat → List UInt8 → Prop where
  | digit {b : UInt8} {d : Nat} : digit? base b = some d → Spelled base d [b]
  | snoc {n d : Nat} {octets : List UInt8} {b : UInt8} :
      Spelled base n octets → digit? base b = some d → Spelled base (n * base + d) (octets ++ [b])

/-- There is nothing more, or a space, a dash or a colon. -/
def Ended (rest : List UInt8) : Prop := ∀ b ∈ rest.head?, b = 32 ∨ b = 45 ∨ b = 58

section Digit
variable {base d : Nat} {b : UInt8}

theorem range_of_digit? (h : digit? base b = some d) :
    48 ≤ b.toNat ∧ b.toNat ≤ 57 ∨ 65 ≤ b.toNat ∧ b.toNat ≤ 70 ∨
      97 ≤ b.toNat ∧ b.toNat ≤ 102 := by
  simp only [digit?, Option.filter_eq_some_iff] at h
  obtain ⟨h, -⟩ := h
  split at h
  · omega
  split at h
  · omega
  split at h
  · omega
  · cases h

theorem digit?_ended (h : b = 32 ∨ b = 45 ∨ b = 58) : digit? base b = none := by
  rcases h with rfl | rfl | rfl <;> rfl

theorem digit?_digitChar (hbase : base ≤ 16) (hd : d < base) :
    digit? base (UInt8.ofNat d.digitChar.toNat) = some d := by
  -- Sixteen characters, whatever the base is.
  have hvalue : ∀ e : Fin 16, digit? 16 (UInt8.ofNat (Nat.digitChar e).toNat) = some e.val := by
    decide
  have h16 := hvalue ⟨d, by omega⟩
  simp only [digit?, Option.filter_eq_some_iff, decide_eq_true_eq] at h16 ⊢
  exact ⟨h16.1, hd⟩

end Digit

namespace Spelled
variable {base n : Nat} {octets rest : List UInt8}

theorem isDigit (h : Spelled base n octets) : ∀ b ∈ octets, ∃ d, digit? base b = some d := by
  induction h with
  | digit hd =>
    intro b hb
    obtain rfl := List.mem_singleton.mp hb
    exact ⟨_, hd⟩
  | snoc _ hd ih =>
    intro b hb
    rcases List.mem_append.mp hb with hb | hb
    · exact ih b hb
    · obtain rfl := List.mem_singleton.mp hb
      exact ⟨_, hd⟩

theorem exists_cons (h : Spelled base n octets) : ∃ b more, octets = b :: more := by
  cases h with
  | digit _ => exact ⟨_, [], rfl⟩
  | snoc _ _ => exact List.exists_cons_of_ne_nil (List.append_ne_nil_of_right_ne_nil _ (by simp))

theorem graphic (h : Spelled base n octets) : ∀ b ∈ octets, 32 ≤ b.toNat := by
  intro b hb
  obtain ⟨d, hd⟩ := h.isDigit b hb
  have hrange := range_of_digit? hd
  omega

theorem zeros (h : Spelled base n octets) (hbase : 0 < base) (k : Nat) :
    Spelled base n (List.replicate k 48 ++ octets) := by
  have hzero : digit? base 48 = some 0 := by
    simp only [digit?, Option.filter_eq_some_iff, decide_eq_true_eq]
    exact ⟨rfl, hbase⟩
  induction k with
  | zero => exact h
  | succ k ih =>
    rw [List.replicate_succ, List.cons_append]
    generalize List.replicate k 48 ++ octets = padded at ih
    clear h
    induction ih with
    | digit hd =>
      have hpair := Spelled.snoc (.digit hzero) hd
      rwa [Nat.zero_mul, Nat.zero_add] at hpair
    | snoc _ hd ih => exact .snoc ih hd

theorem digits_eq (h : Spelled base n octets) (rest : List UInt8) :
    digits base 0 (octets ++ rest) = digits base n rest := by
  induction h generalizing rest with
  | digit hd =>
    rw [List.singleton_append, digits, hd]
    simp only [Nat.zero_mul, Nat.zero_add]
  | snoc _ hd ih =>
    rw [List.append_assoc, ih, List.singleton_append, digits, hd]

theorem digits_ended (h : Spelled base n octets) (hrest : Ended rest) :
    digits base 0 (octets ++ rest) = (n, rest) := by
  rw [h.digits_eq]
  cases rest with
  | nil => rfl
  | cons b rest =>
    rw [digits, digit?_ended (hrest b rfl)]

/-- Neither a sign nor a mark of base sixteen stands in front of digits. -/
theorem number?_eq (h : Spelled base n octets) (hrest : Ended rest) :
    number? base (octets ++ rest) = some (⟨false, n⟩, rest) := by
  have hdigits := h.digits_ended hrest
  obtain ⟨b, more, rfl⟩ := h.exists_cons
  obtain ⟨d, hd⟩ := h.isDigit b List.mem_cons_self
  have hb := range_of_digit? hd
  have hblank : isBlank b = false := by
    simp only [isBlank, Bool.or_eq_false_iff, Bool.and_eq_false_iff, beq_eq_false_iff_ne, ne_eq,
      decide_eq_false_iff_not, UInt8.le_iff_toNat_le, ← UInt8.toNat_inj, UInt8.reduceToNat]
    omega
  have hsign : sign (b :: (more ++ rest)) = (false, b :: (more ++ rest)) := by
    unfold sign
    split
    · rename_i heq
      cases heq
      simp at hb
    · rename_i heq
      cases heq
      simp at hb
    · rfl
  have hmark : baseMark? base (b :: (more ++ rest)) = none := by
    unfold baseMark?
    split
    · rename_i x behind heq
      apply if_neg
      rintro ⟨-, hx⟩
      obtain ⟨rfl, hmore⟩ := List.cons.inj heq
      -- The second octet is a digit, too, or it ends the number.
      cases more with
      | nil =>
        rw [List.nil_append] at hmore
        have hend := hrest x (by rw [hmore]; rfl)
        rcases hx with rfl | rfl <;> simp at hend
      | cons c more =>
        obtain ⟨rfl, -⟩ := List.cons.inj hmore
        obtain ⟨e, he⟩ := h.isDigit c (List.mem_cons_of_mem _ List.mem_cons_self)
        have hc := range_of_digit? he
        rcases hx with rfl | rfl <;> simp at hc
    · rfl
  have hskip : skipBlanks (b :: (more ++ rest)) = b :: (more ++ rest) :=
    List.dropWhile_cons_of_neg (by simp [hblank])
  rw [List.cons_append] at hdigits ⊢
  unfold number?
  simp only [hskip, hsign, hmark, hd, Option.isSome_some, if_true, hdigits]

end Spelled

theorem word?_spelled {base n : Nat} {octets rest : List UInt8} (h : Spelled base n octets)
    (hn : n < UInt64.size) (hrest : Ended rest) :
    word? base (octets ++ rest) = some (UInt64.ofNat n, rest) := by
  have hword : (⟨false, n⟩ : Signed).toWord = UInt64.ofNat n := by
    unfold Signed.toWord
    rw [if_neg (Nat.not_le.mpr hn)]
    rfl
  unfold word?
  rw [h.number?_eq hrest, Option.map_some]
  simp only [hword]

theorem word?_space (base : Nat) (input : List UInt8) :
    word? base (32 :: input) = word? base input := rfl

theorem spelled_toDigits {base : Nat} (hone : 1 < base) (hbase : base ≤ 16) (n : Nat) :
    Spelled base n (Numeral.octets (base.toDigits n)) := by
  induction n using Nat.strongRecOn with
  | _ n ih =>
    by_cases hn : n < base
    · rw [Nat.toDigits_of_lt_base hn]
      exact .digit (digit?_digitChar hbase hn)
    · have hdigit := digit?_digitChar hbase (Nat.mod_lt n (show 0 < base by omega))
      have hfront := ih (n / base) (Nat.div_lt_self (by omega) hone)
      have hwhole := Spelled.snoc hfront hdigit
      rw [Nat.div_add_mod'] at hwhole
      rw [Nat.toDigits_of_base_le hone (Nat.le_of_not_lt hn), Numeral.octets, List.map_append]
      exact hwhole

theorem spelled_paddedHex (width n : Nat) :
    Spelled 16 n (Numeral.octets (Numeral.paddedHex width n).toList) := by
  unfold Numeral.paddedHex Numeral.octets
  rw [String.toList_ofList, List.map_append, List.map_replicate]
  exact (spelled_toDigits (by omega) (by omega) n).zeros (by omega) _

theorem spelled_decimal (n : Nat) : Spelled 10 n (Numeral.octets (toString n).toList) := by
  rw [Nat.toString_eq_ofList_toDigits, String.toList_ofList]
  exact spelled_toDigits (by omega) (by omega) n

end Scan
end StackPeek
