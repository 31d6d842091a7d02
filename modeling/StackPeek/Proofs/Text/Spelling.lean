import StackPeek.Proofs.Text.Repair

/-!
# The characters of a cached form

Every character that is read from a cached UTF-8 form, apart from U+FFFD, is spelled by octets of
its own, from left to right (`Utf8.Taken`). The reading does not ask whether a sequence is the
shortest one for its value. So a character comes from its UTF-8 or from an overlong sequence, and
it always comes from its UTF-8 where the cached form has no overlong sequence
(`decodeCachedUtf8_taken`, `decodeCachedUtf8_overlong`).
-/

namespace StackPeek

namespace Utf8

def Shortest (c : Char) (octets : List UInt8) : Prop := octets = String.utf8EncodeChar c

/-- The octets carry the number of the character, but shorter ones would do. -/
inductive Overlong (c : Char) : List UInt8 → Prop where
  | two : c.toNat < 0x80 →
      Overlong c [UInt8.ofNat (0xC0 + c.toNat / 64), UInt8.ofNat (0x80 + c.toNat % 64)]
  | three : c.toNat < 0x800 →
      Overlong c [0xE0, UInt8.ofNat (0x80 + c.toNat / 64), UInt8.ofNat (0x80 + c.toNat % 64)]
  | four : c.toNat < 0x10000 →
      Overlong c [0xF0, UInt8.ofNat (0x80 + c.toNat / 4096),
        UInt8.ofNat (0x80 + c.toNat / 64 % 64), UInt8.ofNat (0x80 + c.toNat % 64)]

def Spelled (c : Char) (octets : List UInt8) : Prop := Shortest c octets ∨ Overlong c octets

/-- The characters have octets of their own in a row of octets, from left to right. -/
inductive Taken (Spells : Char → List UInt8 → Prop) : List UInt8 → List Char → Prop where
  | nil {octets : List UInt8} : Taken Spells octets []
  | skip {b : UInt8} {octets : List UInt8} {chars : List Char} :
      Taken Spells octets chars → Taken Spells (b :: octets) chars
  | take {c : Char} {first rest : List UInt8} {chars : List Char} :
      Spells c first → Taken Spells rest chars → Taken Spells (first ++ rest) (c :: chars)

namespace Taken
variable {Spells Spells' : Char → List UInt8 → Prop} {octets : List UInt8} {chars : List Char}

theorem behind (h : Taken Spells octets chars) (front : List UInt8) :
    Taken Spells (front ++ octets) chars := by
  induction front with
  | nil => exact h
  | cons b front ih => exact .skip ih

theorem append (h : Taken Spells octets chars) (back : List UInt8) :
    Taken Spells (octets ++ back) chars := by
  induction h with
  | nil => exact .nil
  | skip _ ih => exact .skip ih
  | take hc _ ih =>
    rw [List.append_assoc]
    exact .take hc ih

theorem imp (h : Taken Spells octets chars)
    (hs : ∀ c first, first <:+: octets → Spells c first → Spells' c first) :
    Taken Spells' octets chars := by
  induction h with
  | nil => exact .nil
  | @skip b _ _ _ ih => exact .skip (ih fun c first hi => hs c first (List.infix_cons hi))
  | @take c first rest _ hc _ ih =>
    have hfirst : first <:+: first ++ rest := (List.prefix_append first rest).isInfix
    have hrest : rest <:+: first ++ rest := (List.suffix_append first rest).isInfix
    exact .take (hs c first hfirst hc) (ih fun d piece hi => hs d piece (hi.trans hrest))

theorem exists_infix (h : Taken Spells octets chars) {c : Char} (hc : c ∈ chars) :
    ∃ first, Spells c first ∧ first <:+: octets := by
  induction h with
  | nil => cases hc
  | skip _ ih =>
    obtain ⟨first, hfirst, hi⟩ := ih hc
    exact ⟨first, hfirst, List.infix_cons hi⟩
  | @take d first rest _ hd _ ih =>
    rcases List.mem_cons.mp hc with rfl | hc
    · exact ⟨first, hd, (List.prefix_append first rest).isInfix⟩
    · obtain ⟨piece, hpiece, hi⟩ := ih hc
      exact ⟨piece, hpiece, hi.trans (List.suffix_append first rest).isInfix⟩

end Taken

/-! ### Whole sequences -/

theorem eq_ofNat {b : UInt8} {n : Nat} (h : b.toNat = n) : b = UInt8.ofNat n := by
  rw [← h, UInt8.ofNat_toNat]

theorem extend?_cons_eq_some {bits n : Nat} {b : UInt8} {rest : List UInt8}
    (h : extend? bits (b :: rest) = some n) :
    ∃ k < 64, b = UInt8.ofNat (0x80 + k) ∧ extend? (bits * 64 + k) rest = some n := by
  unfold extend? at h
  split at h
  · exact ⟨b.toNat % 64, Nat.mod_lt _ (by decide), eq_ofNat (by omega), h⟩
  · cases h

theorem octets_of_whole {b : UInt8} {bits n : Nat} {tail : List UInt8}
    (hb : lead? b = some (tail.length, bits)) (hn : extend? bits tail = some n) :
    (n < 0x80 ∧ b :: tail = [UInt8.ofNat n]) ∨
      (n < 0x800 ∧ b :: tail = [UInt8.ofNat (0xC0 + n / 64), UInt8.ofNat (0x80 + n % 64)]) ∨
      (n < 0x10000 ∧ b :: tail = [UInt8.ofNat (0xE0 + n / 4096),
        UInt8.ofNat (0x80 + n / 64 % 64), UInt8.ofNat (0x80 + n % 64)]) ∨
      b :: tail = [UInt8.ofNat (0xF0 + n / 262144), UInt8.ofNat (0x80 + n / 4096 % 64),
        UInt8.ofNat (0x80 + n / 64 % 64), UInt8.ofNat (0x80 + n % 64)] := by
  have hlead := lead?_eq_some hb
  match tail, hlead with
  | [], hlead =>
    simp only [List.length_nil] at hlead
    cases hn
    have hb : b = UInt8.ofNat bits := eq_ofNat (by omega)
    exact .inl ⟨by omega, by rw [hb]⟩
  | [c], hlead =>
    simp only [List.length_cons, List.length_nil] at hlead
    obtain ⟨k, hk, rfl, hend⟩ := extend?_cons_eq_some hn
    obtain rfl : bits * 64 + k = n := Option.some.inj hend
    have hb : b = UInt8.ofNat (0xC0 + (bits * 64 + k) / 64) := eq_ofNat (by omega)
    refine .inr (.inl ⟨by omega, ?_⟩)
    rw [← hb, show (bits * 64 + k) % 64 = k by omega]
  | [c, d], hlead =>
    simp only [List.length_cons, List.length_nil] at hlead
    obtain ⟨k, hk, rfl, hone⟩ := extend?_cons_eq_some hn
    obtain ⟨j, hj, rfl, hend⟩ := extend?_cons_eq_some hone
    obtain rfl : (bits * 64 + k) * 64 + j = n := Option.some.inj hend
    have hb : b = UInt8.ofNat (0xE0 + ((bits * 64 + k) * 64 + j) / 4096) := eq_ofNat (by omega)
    refine .inr (.inr (.inl ⟨by omega, ?_⟩))
    rw [← hb, show ((bits * 64 + k) * 64 + j) / 64 % 64 = k by omega,
      show ((bits * 64 + k) * 64 + j) % 64 = j by omega]
  | [c, d, e], hlead =>
    simp only [List.length_cons, List.length_nil] at hlead
    obtain ⟨k, hk, rfl, hone⟩ := extend?_cons_eq_some hn
    obtain ⟨j, hj, rfl, htwo⟩ := extend?_cons_eq_some hone
    obtain ⟨i, hi, rfl, hend⟩ := extend?_cons_eq_some htwo
    obtain rfl : ((bits * 64 + k) * 64 + j) * 64 + i = n := Option.some.inj hend
    have hb : b = UInt8.ofNat (0xF0 + (((bits * 64 + k) * 64 + j) * 64 + i) / 262144) :=
      eq_ofNat (by omega)
    refine .inr (.inr (.inr ?_))
    rw [← hb,
      show (((bits * 64 + k) * 64 + j) * 64 + i) / 4096 % 64 = k by omega,
      show (((bits * 64 + k) * 64 + j) * 64 + i) / 64 % 64 = j by omega,
      show (((bits * 64 + k) * 64 + j) * 64 + i) % 64 = i by omega]
  | c :: d :: e :: f :: more, hlead =>
    simp only [List.length_cons] at hlead
    omega

/-- A whole sequence is the shortest one for its character or an overlong one. -/
theorem spelled_of_whole {b : UInt8} {bits n : Nat} {tail : List UInt8}
    (hb : lead? b = some (tail.length, bits)) (hn : extend? bits tail = some n)
    (hs : isScalar n = true) : Spelled (character n) (b :: tail) := by
  have hc : (character n).toNat = n := by
    rw [toNat_character, scalar, if_pos hs]
  have hshort : Shortest (character n) (sequence n) := by
    unfold Shortest
    rw [← sequence_toNat, hc]
  have htwo := Overlong.two (c := character n)
  have hthree := Overlong.three (c := character n)
  have hfour := Overlong.four (c := character n)
  rw [hc] at htwo hthree hfour
  unfold sequence at hshort
  rcases octets_of_whole hb hn with ⟨hlt, ho⟩ | ⟨hlt, ho⟩ | ⟨hlt, ho⟩ | ho
  · rw [if_pos hlt] at hshort
    rw [ho]
    exact .inl hshort
  · rw [ho]
    by_cases h1 : n < 0x80
    · exact .inr (htwo h1)
    · rw [if_neg h1, if_pos hlt] at hshort
      exact .inl hshort
  · rw [ho]
    by_cases h2 : n < 0x800
    · rw [show n / 4096 = 0 by omega, Nat.mod_eq_of_lt (a := n / 64) (by omega)]
      exact .inr (hthree h2)
    · rw [if_neg (by omega), if_neg h2, if_pos hlt] at hshort
      exact .inl hshort
  · rw [ho]
    by_cases h3 : n < 0x10000
    · rw [show n / 262144 = 0 by omega, Nat.mod_eq_of_lt (a := n / 4096) (by omega)]
      exact .inr (hfour h3)
    · rw [if_neg (by omega), if_neg (by omega), if_neg h3] at hshort
      exact .inl hshort

def unknown : Char := Char.ofNat replacement

/-- The characters of a text that stand for themselves. -/
def known (chars : List Char) : List Char := chars.filter (· ≠ unknown)

theorem character_replacement : character replacement = unknown := by rfl

theorem known_cons_unknown (chars : List Char) : known (unknown :: chars) = known chars :=
  List.filter_cons_of_neg (by simp)

theorem Repaired.taken {limit : Nat} {octets : List UInt8} {units : List Nat}
    (h : Repaired limit octets units) : Taken Spelled octets (known (units.map character)) := by
  induction h with
  | full => exact .nil
  | nil => exact .nil
  | stray _ _ ih =>
    rw [List.map_cons, character_replacement, known_cons_unknown]
    exact .skip ih
  | broken _ _ _ _ ih =>
    rw [List.map_cons, character_replacement, known_cons_unknown]
    exact .skip ih
  | cutOff =>
    rw [List.map_cons, character_replacement, known_cons_unknown]
    exact .nil
  | @whole _ _ n b tail rest units hb hn _ ih =>
    rw [List.map_cons, ← List.cons_append]
    by_cases hu : character n = unknown
    · rw [hu, known_cons_unknown]
      exact ih.behind _
    have hs : isScalar n = true :=
      isScalar_iff.mpr (Decidable.byContradiction fun hv => hu (dif_neg hv))
    have hknown : known (character n :: units.map character) =
        character n :: known (units.map character) := List.filter_cons_of_pos (by simpa using hu)
    rw [hknown]
    exact .take (spelled_of_whole hb hn hs) ih

end Utf8

namespace Walker
open Utf8

/-- The characters that are decoded from a cached form are spelled by octets of their own, from
left to right, and where the cached form has no overlong sequence these are their UTF-8. -/
theorem decodeCachedUtf8_taken (w : Walker) {σ : Type} (t : Target σ) (s : σ) {data : Address}
    {length : Int64} {buffer : List UInt8} (hlength : length.toInt = buffer.length)
    (hdata : (t.memory s).Holds data buffer) {text : Text}
    (h : ((w.decodeCachedUtf8 data length).run.run t s).1 = .ok (.ok text)) :
    ∃ chars, text = .ofCharacters chars ∧ Taken Spelled buffer (known chars) ∧
      ((∀ c octets, octets <:+: buffer → ¬ Overlong c octets) →
        Taken Shortest buffer (known chars)) := by
  rw [run_decodeCachedUtf8] at h
  have hmax : min length.toUInt64 (w.options.maxStringLength * 4) ≤ Memory.maxRawRead := by
    apply UInt64.not_lt.mp
    intro hlong
    unfold decodeCachedUtf8 Memory.fetchAll at h
    split at h
    · cases h
    · simp only [if_pos hlong] at h
      cases h
  rw [outcome_decodeCachedUtf8_repair hlength hdata hmax, Text.ofUnits_eq] at h
  cases h
  have htaken := (repaired_repair w.options.maxStringLength.toNat (buffer.take
    (min length.toUInt64 (w.options.maxStringLength * 4)).toNat)).taken.append (buffer.drop
    (min length.toUInt64 (w.options.maxStringLength * 4)).toNat)
  rw [List.take_append_drop] at htaken
  refine ⟨_, rfl, htaken, fun hnone => htaken.imp fun c first hi hspelled => ?_⟩
  exact hspelled.resolve_right (hnone c first hi)

/-- The UTF-8 of `é`, an overlong sequence for a slash and a surrogate. -/
def slashOctets : List UInt8 := [0xC3, 0xA9, 0xC0, 0xAF, 0xED, 0xA0, 0x80]

theorem decodeCachedUtf8_taken_slash :
    let m := (cachedOctets slashOctets).still
    let text : Text := .ofCharacters ['é', '/', unknown]
    m.Holds 0x2000 slashOctets ∧
      (((limitedTo 3).decodeCachedUtf8 0x2000 7).run.run m.target ()).1 = .ok (.ok text) ∧
      ∃ chars, text = .ofCharacters chars ∧ Taken Spelled slashOctets (known chars) ∧
        ((∀ c octets, octets <:+: slashOctets → ¬ Overlong c octets) →
          Taken Shortest slashOctets (known chars)) := by
  intro m text
  have hdata : m.Holds 0x2000 slashOctets := cachedOctets_holds (by decide +kernel) (by decide)
  have hlength : (7 : Int64).toInt = slashOctets.length := rfl
  have hrun : (((limitedTo 3).decodeCachedUtf8 0x2000 7).run.run m.target ()).1 =
      .ok (.ok text) :=
    (run_decodeCachedUtf8 m.target () 0x2000 7).trans
      (outcome_decodeCachedUtf8_repair hlength hdata (by decide))
  exact ⟨hdata, hrun, decodeCachedUtf8_taken (limitedTo 3) m.target () hlength hdata hrun⟩

/-- A slash is read from octets that do not hold its UTF-8. -/
theorem decodeCachedUtf8_overlong :
    let w : Walker := ⟨.builtin .v39, .standard⟩
    let m := (cachedOctets [0xC0, 0xAF]).still
    m.Holds 0x2000 [0xC0, 0xAF] ∧
      ((w.decodeText 0x1000).run.run m.target ()).1 = .ok (.ok (.ofCharacters ['/'])) ∧
      ((w.decodeCachedUtf8 0x2000 2).run.run m.target ()).1 =
        .ok (.ok (.ofCharacters ['/'])) ∧
      known ['/'] = ['/'] ∧ ¬ Taken Shortest [0xC0, 0xAF] ['/'] := by
  refine ⟨cachedOctets_holds (by decide +kernel) (by decide), by rfl, by rfl, by decide, ?_⟩
  intro h
  obtain ⟨_, rfl, hi⟩ := h.exists_infix List.mem_cons_self
  revert hi
  decide

end Walker
end StackPeek
