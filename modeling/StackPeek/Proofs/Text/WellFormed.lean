import StackPeek.Proofs.Text.Sources

/-!
# Decoded text is well-formed

`Utf8.WellFormed n octets` is the syntax of UTF-8: the octets are the sequences of `n`
characters, each the shortest one, none for a surrogate and none for a value above U+10FFFF.
Whatever a target answers, a text that is decoded is well-formed and keeps the limit of the walk
(`decodeText_wellFormed`).

This module does NOT say which characters they are.
-/

namespace StackPeek

namespace Utf8

def Tail (b : UInt8) : Prop := 0x80 ≤ b ∧ b ≤ 0xBF

inductive Character : List UInt8 → Prop where
  | one {a : UInt8} : a ≤ 0x7F → Character [a]
  | two {a b : UInt8} : 0xC2 ≤ a → a ≤ 0xDF → Tail b → Character [a, b]
  /-- Behind `E0` a smaller octet would make the sequence too long, behind `ED` a larger one
  would make it a surrogate. -/
  | three {a b c : UInt8} : 0xE0 ≤ a → a ≤ 0xEF → Tail b → Tail c → (a = 0xE0 → 0xA0 ≤ b) →
      (a = 0xED → b ≤ 0x9F) → Character [a, b, c]
  /-- Behind `F0` a smaller octet would make the sequence too long, behind `F4` a larger one
  would pass U+10FFFF. -/
  | four {a b c d : UInt8} : 0xF0 ≤ a → a ≤ 0xF4 → Tail b → Tail c → Tail d →
      (a = 0xF0 → 0x90 ≤ b) → (a = 0xF4 → b ≤ 0x8F) → Character [a, b, c, d]

inductive WellFormed : Nat → List UInt8 → Prop where
  | nil : WellFormed 0 []
  | cons {n : Nat} {first rest : List UInt8} :
      Character first → WellFormed n rest → WellFormed (n + 1) (first ++ rest)

theorem le_octet {b : UInt8} {n : Nat} (hn : n < 256) (h : b.toNat ≤ n) : b ≤ UInt8.ofNat n := by
  apply UInt8.le_iff_toNat_le.mpr
  rwa [UInt8.toNat_ofNat', Nat.mod_eq_of_lt hn]

theorem octet_le {b : UInt8} {n : Nat} (hn : n < 256) (h : n ≤ b.toNat) : UInt8.ofNat n ≤ b := by
  apply UInt8.le_iff_toNat_le.mpr
  rwa [UInt8.toNat_ofNat', Nat.mod_eq_of_lt hn]

theorem toNat_of_octet {b : UInt8} {n : Nat} (hn : n < 256) (h : UInt8.ofNat n = b) :
    n = b.toNat := by
  rw [← h, UInt8.toNat_ofNat', Nat.mod_eq_of_lt hn]

theorem tail_octet (n : Nat) : Tail (UInt8.ofNat (0x80 + n % 64)) := by
  have hn := Nat.mod_lt n (show 0 < 64 by decide)
  constructor
  · exact le_octet (by omega) (Nat.le_add_right _ _)
  · exact octet_le (by omega) (show 0x80 + n % 64 ≤ 0xBF by omega)

theorem character_sequence {c : Nat} (h : isScalar c = true) : Character (sequence c) := by
  have hc : c < 0xD800 ∨ 0xE000 ≤ c ∧ c ≤ 0x10FFFF := by
    simpa only [isScalar, Bool.or_eq_true, Bool.and_eq_true, decide_eq_true_eq] using h
  unfold sequence
  by_cases h1 : c < 0x80
  · rw [if_pos h1]
    exact .one (octet_le (by omega) (Nat.le_of_lt_succ h1))
  rw [if_neg h1]
  by_cases h2 : c < 0x800
  · rw [if_pos h2]
    refine .two (le_octet (by omega) ?_) (octet_le (by omega) ?_) (tail_octet c)
    · show 0xC2 ≤ 0xC0 + c / 64
      omega
    · show 0xC0 + c / 64 ≤ 0xDF
      omega
  rw [if_neg h2]
  by_cases h3 : c < 0x10000
  · rw [if_pos h3]
    refine .three (le_octet (by omega) (Nat.le_add_right _ _)) (octet_le (by omega) ?_)
      (tail_octet _) (tail_octet c) ?_ ?_
    · show 0xE0 + c / 4096 ≤ 0xEF
      omega
    · intro he
      have hlead : 0xE0 + c / 4096 = 0xE0 := toNat_of_octet (by omega) he
      exact le_octet (by omega) (show 0xA0 ≤ 0x80 + c / 64 % 64 by omega)
    · intro he
      have hlead : 0xE0 + c / 4096 = 0xED := toNat_of_octet (by omega) he
      exact octet_le (by omega) (show 0x80 + c / 64 % 64 ≤ 0x9F by omega)
  · rw [if_neg h3]
    refine .four (le_octet (by omega) (Nat.le_add_right _ _)) (octet_le (by omega) ?_)
      (tail_octet _) (tail_octet _) (tail_octet c) ?_ ?_
    · show 0xF0 + c / 262144 ≤ 0xF4
      omega
    · intro he
      have hlead : 0xF0 + c / 262144 = 0xF0 := toNat_of_octet (by omega) he
      exact le_octet (by omega) (show 0x90 ≤ 0x80 + c / 4096 % 64 by omega)
    · intro he
      have hlead : 0xF0 + c / 262144 = 0xF4 := toNat_of_octet (by omega) he
      exact octet_le (by omega) (show 0x80 + c / 4096 % 64 ≤ 0x8F by omega)

theorem wellFormed_encodeAll (units : List Nat) : WellFormed units.length (encodeAll units) := by
  induction units with
  | nil => exact .nil
  | cons u rest ih => exact .cons (character_sequence (isScalar_scalar u)) ih

end Utf8

/-- Well-formed, and no more characters than that. -/
def Text.Fits (limit : Nat) (t : Text) : Prop := ∃ n ≤ limit, Utf8.WellFormed n t.octets

theorem Text.fits_ofUnits {limit : Nat} {units : List Nat} (h : units.length ≤ limit) :
    (Text.ofUnits units).Fits limit := ⟨units.length, h, Utf8.wellFormed_encodeAll units⟩

namespace UnitWidth

theorem length_pairsOnto : (bytes : List UInt8) → (pairsOnto [] bytes).length = bytes.length / 2
  | [] | [_] => by simp [pairsOnto]
  | a :: b :: rest => by
    rw [pairsOnto, pairsOnto_eq, List.length_append, length_pairsOnto rest]
    simp only [List.length_cons, List.length_nil]
    omega

theorem length_quadsOnto : (bytes : List UInt8) → (quadsOnto [] bytes).length = bytes.length / 4
  | [] | [_] | [_, _] | [_, _, _] => by simp [quadsOnto]
  | a :: b :: c :: d :: rest => by
    rw [quadsOnto, quadsOnto_eq, List.length_append, length_quadsOnto rest]
    simp only [List.length_cons, List.length_nil]
    omega

theorem length_split (width : UnitWidth) (bytes : List UInt8) :
    (width.split bytes).length = bytes.length / width.bytes.toNat := by
  cases width with
  | one => exact (List.length_map _).trans (Nat.div_one _).symm
  | two => exact List.length_reverse.trans (length_pairsOnto bytes)
  | four => exact List.length_reverse.trans (length_quadsOnto bytes)

end UnitWidth

open Attempt

theorem Memory.gives_fetchAll (a : Address) (n : UInt64) :
    (fetchAll a n).Gives fun bytes => bytes.length = n.toNat := by
  unfold fetchAll
  split
  · exact (plain_lift (Probe.ensures_report _ _)).faultless.gives.bind fun _ _ => gives_throw _ _
  split
  · exact gives_throw _ _
  split
  · rename_i hn
    exact gives_pure (by rw [hn]; rfl)
  apply (plain_lift (Probe.ensures_fetch a n)).faultless.gives.bind
  intro reply _
  cases reply with
  | failed errno =>
    simp only [accept]
    split
    · exact (plain_lift (Probe.ensures_report _ _)).faultless.gives.bind fun _ _ => gives_throw _ _
    · exact gives_throw _ _
  | copied bytes =>
    simp only [accept]
    split
    · exact gives_throw _ _
    · refine gives_pure ?_
      rw [List.length_take]
      omega

namespace Walker
variable {w : Walker}

theorem gives_decodeUnits {limit : Nat} (data : Address) {count : UInt64} (kind : UInt64)
    (hc : count.toNat ≤ limit) (hmax : limit < UInt64.size / 4) :
    (decodeUnits data count kind).Gives (Text.Fits limit) := by
  unfold decodeUnits
  split
  · exact gives_throw _ _
  rename_i width _
  apply (Memory.gives_fetchAll _ _).bind
  intro bytes hlen
  refine gives_pure (Text.fits_ofUnits ?_)
  rw [UnitWidth.length_split, hlen, width.toNat_mul_bytes (by omega),
    Nat.mul_div_cancel _ width.bytes_pos]
  exact hc

theorem gives_decodeCachedUtf8 (data : Address) (length : Int64) :
    (w.decodeCachedUtf8 data length).Gives (Text.Fits w.options.maxStringLength.toNat) := by
  unfold decodeCachedUtf8
  split
  · exact gives_throw _ _
  apply (Memory.gives_fetchAll _ _).bind
  intro bytes _
  refine gives_pure (Text.fits_ofUnits ?_)
  unfold Utf8.repair
  rw [List.length_reverse]
  exact Nat.le_trans (Utf8.length_repairOnto_le _ _ _) (Nat.le_of_eq (Nat.zero_add _))

theorem gives_decodeText (hmax : w.options.maxStringLength.toNat < UInt64.size / 4)
    (address : Address) :
    (w.decodeText address).Gives (Text.Fits w.options.maxStringLength.toNat) := by
  rw [decodeText_eq]
  apply (gives_textSource address).bind
  intro source hsource
  cases source with
  | units data count kind => exact gives_decodeUnits data kind hsource hmax
  | cached data length => exact gives_decodeCachedUtf8 data length

/-- Whatever the layout and whatever the target answers, a text that is decoded with a limit below
`2 ^ 62` is well-formed UTF-8 of at most as many characters as the limit allows. -/
theorem decodeText_wellFormed (w : Walker) (hmax : w.options.maxStringLength.toNat < UInt64.size / 4)
    {σ : Type} (t : Target σ) (s : σ) (address : Address) {text : Text}
    (h : ((w.decodeText address).run.run t s).1 = .ok (.ok text)) :
    ∃ n ≤ w.options.maxStringLength.toNat, Utf8.WellFormed n text.octets := by
  obtain ⟨r, hr, hfits⟩ := (gives_decodeText hmax address).run t s
  rw [h] at hr
  injection hr with hr
  exact hfits text hr.symm

/-- A string whose cached form has a sequence that is too long, a surrogate and a lone tail. -/
def damagedMemory : Regions :=
  [Region.of 0x1000 ((Layout.builtin .v39).emit 80
      [(.stringReady, 1), (.stringUtf8Length, 7), (.stringUtf8, 0x2000)] []),
    Region.of 0x2000 [0xC0, 0x80, 0xED, 0xA0, 0x80, 0xBF, 0x61]]

def threeCharacters : Walker := ⟨.builtin .v39, { Options.standard with maxStringLength := 3 }⟩

theorem decodeText_wellFormed_damaged :
    threeCharacters.options.maxStringLength.toNat < UInt64.size / 4 ∧
      ((threeCharacters.decodeText 0x1000).run.run damagedMemory.still.target ()).1 =
        .ok (.ok ⟨[0x00, 0xEF, 0xBF, 0xBD, 0xEF, 0xBF, 0xBD]⟩) ∧
      ∃ n ≤ 3, Utf8.WellFormed n [0x00, 0xEF, 0xBF, 0xBD, 0xEF, 0xBF, 0xBD] := by
  have hmax : threeCharacters.options.maxStringLength.toNat < UInt64.size / 4 := by decide
  have hrun : ((threeCharacters.decodeText 0x1000).run.run damagedMemory.still.target ()).1 =
      .ok (.ok ⟨[0x00, 0xEF, 0xBF, 0xBD, 0xEF, 0xBF, 0xBD]⟩) := by rfl
  exact ⟨hmax, hrun, decodeText_wellFormed threeCharacters hmax _ () 0x1000 hrun⟩

end Walker
end StackPeek
