import StackPeek.Proofs.Text.WellFormed

/-!
# Values appended to a text

`Utf8.push` writes one more 32-bit value behind octets. However many values are pushed, the octets
in front stay as they were, what is added is well-formed UTF-8, and the decoder of the standard
library, which refuses overlong sequences, surrogates and values above U+10FFFF, reads from it the
values that were pushed, with U+FFFD in the place of those that are no characters (`foldl_push_decodes`).

Nothing is asked of the octets in front; they need not be UTF-8.
-/

namespace StackPeek

namespace Utf8

def push (octets : List UInt8) (value : UInt32) : List UInt8 := octets ++ encode value.toNat

/-- The value itself, or U+FFFD for a surrogate and for a value above U+10FFFF. -/
def orReplacement (value : UInt32) : Nat :=
  if 0xD800 ≤ value ∧ value ≤ 0xDFFF ∨ 0x10FFFF < value then 0xFFFD else value.toNat

theorem foldl_push_eq (front : List UInt8) (values : List UInt32) :
    values.foldl push front = front ++ encodeAll (values.map UInt32.toNat) := by
  induction values generalizing front with
  | nil => exact (List.append_nil front).symm
  | cons value rest ih =>
    rw [List.foldl_cons, ih, push, List.append_assoc]
    rfl

theorem scalar_toNat (value : UInt32) : scalar value.toNat = orReplacement value := by
  have hscalar : isScalar value.toNat = true ↔
      ¬ (0xD800 ≤ value ∧ value ≤ 0xDFFF ∨ 0x10FFFF < value) := by
    simp only [isScalar, Bool.or_eq_true, Bool.and_eq_true, decide_eq_true_eq,
      UInt32.le_iff_toNat_le, UInt32.lt_iff_toNat_lt, UInt32.reduceToNat]
    omega
  unfold scalar orReplacement
  by_cases h : isScalar value.toNat = true
  · rw [if_pos h, if_neg (hscalar.mp h)]
  · rw [if_neg h, if_pos (Decidable.not_not.mp fun hn => h (hscalar.mpr hn))]
    rfl

theorem utf8Decode?_encodeAll (units : List Nat) :
    (encodeAll units).toByteArray.utf8Decode? = some (units.map character).toArray := by
  have hocts : encodeAll units = (units.map character).flatMap String.utf8EncodeChar :=
    congrArg Text.octets (Text.ofUnits_eq units)
  rw [hocts]
  exact List.utf8Decode?_utf8Encode

/-- Values pushed one after the other leave the octets in front alone and add well-formed UTF-8
that decodes to these values, those that are no characters replaced. -/
theorem foldl_push_decodes (front : List UInt8) (values : List UInt32) :
    ∃ added, values.foldl push front = front ++ added ∧ WellFormed values.length added ∧
      ∃ chars : List Char, added.toByteArray.utf8Decode? = some chars.toArray ∧
        chars.map Char.toNat = values.map orReplacement := by
  refine ⟨encodeAll (values.map UInt32.toNat), foldl_push_eq front values, ?_,
    (values.map UInt32.toNat).map character, utf8Decode?_encodeAll _, ?_⟩
  · have hwell := wellFormed_encodeAll (values.map UInt32.toNat)
    rwa [List.length_map] at hwell
  · rw [List.map_map, List.map_map]
    apply List.map_congr_left
    intro value _
    exact (toNat_character value.toNat).trans (scalar_toNat value)

/-- The last value of each length, and the neighbours of the surrogates. -/
example : [0x7F, 0x80, 0x7FF, 0x800, 0xD7FF, 0xD800, 0xDFFF, 0xE000, 0xFFFF, 0x10000, 0x10FFFF,
      0x110000].map orReplacement =
    [0x7F, 0x80, 0x7FF, 0x800, 0xD7FF, 0xFFFD, 0xFFFD, 0xE000, 0xFFFF, 0x10000, 0x10FFFF,
      0xFFFD] := rfl

end Utf8
end StackPeek
