import StackPeek.Proofs.Text.Sizes

/-!
# Reading damaged UTF-8

A cached UTF-8 form is read from left to right, and an octet that starts no whole sequence becomes
U+FFFD. `Utf8.Repaired` has one rule for each way in which the reading may go on, and `Utf8.repair`
follows these rules (`repaired_repair`). Reading goes on right behind an octet that is replaced,
except where a sequence is cut off by the end of the octets: there it ends, and what stands in the
place of the missing octets is lost. These are at most two ASCII octets, and all others are kept
(`decodeCachedUtf8_keeps`, `decodeCachedUtf8_loses`).
-/

namespace StackPeek

namespace Utf8

/-- The units that are read from octets, as many as the limit allows. -/
inductive Repaired : (limit : Nat) → List UInt8 → List Nat → Prop where
  | full {octets : List UInt8} : Repaired 0 octets []
  | nil {limit : Nat} : Repaired limit [] []
  /-- The octet starts no sequence. -/
  | stray {limit : Nat} {b : UInt8} {rest : List UInt8} {units : List Nat} : lead? b = none →
      Repaired limit rest units → Repaired (limit + 1) (b :: rest) (replacement :: units)
  /-- One of the octets that should continue the sequence does not. -/
  | broken {limit count bits : Nat} {b : UInt8} {rest : List UInt8} {units : List Nat} :
      lead? b = some (count, bits) → count ≤ rest.length → extend? bits (rest.take count) = none →
      Repaired limit rest units → Repaired (limit + 1) (b :: rest) (replacement :: units)
  /-- There are not as many octets as the sequence needs. -/
  | cutOff {limit count bits : Nat} {b : UInt8} {rest : List UInt8} :
      lead? b = some (count, bits) → rest.length < count →
      Repaired (limit + 1) (b :: rest) [replacement]
  | whole {limit bits n : Nat} {b : UInt8} {tail rest : List UInt8} {units : List Nat} :
      lead? b = some (tail.length, bits) → extend? bits tail = some n →
      Repaired limit rest units → Repaired (limit + 1) (b :: (tail ++ rest)) (n :: units)

theorem lead?_eq_some {b : UInt8} {count bits : Nat} (h : lead? b = some (count, bits)) :
    (count = 0 ∧ bits < 0x80 ∧ b.toNat = bits) ∨ (count = 1 ∧ bits < 0x20 ∧ b.toNat = 0xC0 + bits) ∨
      (count = 2 ∧ bits < 0x10 ∧ b.toNat = 0xE0 + bits) ∨
      (count = 3 ∧ bits < 0x08 ∧ b.toNat = 0xF0 + bits) := by
  simp only [lead?] at h
  split at h
  · cases h
    omega
  split at h
  · cases h
  split at h
  · cases h
    omega
  split at h
  · cases h
    omega
  split at h
  · cases h
    omega
  · cases h

theorem count_le {b : UInt8} {count bits : Nat} (h : lead? b = some (count, bits)) : count ≤ 3 := by
  rcases lead?_eq_some h with h | h | h | h <;> omega

theorem exists_repaired (limit : Nat) (octets : List UInt8) :
    ∃ units, Repaired limit octets units := by
  induction limit generalizing octets with
  | zero => exact ⟨[], .full⟩
  | succ limit ih =>
    cases octets with
    | nil => exact ⟨[], .nil⟩
    | cons b rest =>
      obtain ⟨units, hrest⟩ := ih rest
      cases hb : lead? b with
      | none => exact ⟨_, .stray hb hrest⟩
      | some form =>
        obtain ⟨count, bits⟩ := form
        by_cases hlen : rest.length < count
        · exact ⟨_, .cutOff hb hlen⟩
        cases hn : extend? bits (rest.take count) with
        | none => exact ⟨_, .broken hb (Nat.not_lt.mp hlen) hn hrest⟩
        | some n =>
          obtain ⟨units, hdrop⟩ := ih (rest.drop count)
          have htake : (rest.take count).length = count := by
            rw [List.length_take]
            omega
          rw [← List.take_append_drop count rest]
          exact ⟨_, .whole (by rw [htake]; exact hb) hn hdrop⟩

theorem Repaired.onto {limit : Nat} {octets : List UInt8} {units : List Nat}
    (h : Repaired limit octets units) (read : List Nat) :
    repairOnto read limit octets = units.reverse ++ read := by
  induction h generalizing read with
  | full => rfl
  | @nil limit => cases limit <;> rfl
  | stray hb _ ih =>
    simp only [repairOnto, hb, ih, List.reverse_cons, List.append_assoc, List.singleton_append]
  | @broken limit count bits b rest units hb hlen hn _ ih =>
    have htake : ¬ (rest.take count).length < count := by
      rw [List.length_take]
      omega
    simp only [repairOnto, hb, if_neg htake, hn, ih, List.reverse_cons, List.append_assoc,
      List.singleton_append]
  | @cutOff limit count bits b rest hb hlen =>
    have htake : (rest.take count).length < count := by
      rw [List.length_take]
      omega
    simp only [repairOnto, hb, if_pos htake]
    rfl
  | whole hb hn _ ih =>
    rw [repairOnto_whole _ _ _ hb rfl hn, ih, List.reverse_cons, List.append_assoc]
    rfl

theorem Repaired.eq {limit : Nat} {octets : List UInt8} {units : List Nat}
    (h : Repaired limit octets units) : repair limit octets = units := by
  unfold repair
  rw [h.onto, List.append_nil, List.reverse_reverse]

theorem repaired_repair (limit : Nat) (octets : List UInt8) :
    Repaired limit octets (repair limit octets) := by
  obtain ⟨units, h⟩ := exists_repaired limit octets
  rw [h.eq]
  exact h

/-! ### What is kept -/

def asciiOf (octets : List UInt8) : List UInt8 := octets.filter (· < 0x80)

/-- The first octet announces more octets than there are. -/
inductive CutOff : List UInt8 → Prop where
  | alone {a : UInt8} : 0xC0 ≤ a → a < 0xF8 → CutOff [a]
  | pair {a b : UInt8} : 0xE0 ≤ a → a < 0xF8 → CutOff [a, b]
  | triple {a b c : UInt8} : 0xF0 ≤ a → a < 0xF8 → CutOff [a, b, c]

theorem cutOff_of_lead? {b : UInt8} {count bits : Nat} {rest : List UInt8}
    (hb : lead? b = some (count, bits)) (hlen : rest.length < count) : CutOff (b :: rest) := by
  have hcount := lead?_eq_some hb
  have hlt : b < 0xF8 := UInt8.lt_iff_toNat_lt.mpr (show b.toNat < 0xF8 by omega)
  match rest with
  | [] =>
    have hle : 0xC0 ≤ b.toNat := by
      simp only [List.length_nil] at hlen
      omega
    exact .alone (UInt8.le_iff_toNat_le.mpr hle) hlt
  | [c] =>
    have hle : 0xE0 ≤ b.toNat := by
      simp only [List.length_cons, List.length_nil] at hlen
      omega
    exact .pair (UInt8.le_iff_toNat_le.mpr hle) hlt
  | [c, d] =>
    have hle : 0xF0 ≤ b.toNat := by
      simp only [List.length_cons, List.length_nil] at hlen
      omega
    exact .triple (UInt8.le_iff_toNat_le.mpr hle) hlt
  | c :: d :: e :: more =>
    simp only [List.length_cons] at hlen
    omega

theorem asciiOf_of_high {octets : List UInt8} (h : ∀ b ∈ octets, 0x80 ≤ b.toNat) :
    asciiOf octets = [] := by
  apply List.filter_eq_nil_iff.mpr
  intro b hb
  rw [decide_eq_true_eq, UInt8.lt_iff_toNat_lt]
  exact Nat.not_lt.mpr (h b hb)

theorem high_of_extend? {bits n : Nat} {tail : List UInt8} (h : extend? bits tail = some n) :
    ∀ b ∈ tail, 0x80 ≤ b.toNat := by
  induction tail generalizing bits with
  | nil => nofun
  | cons b rest ih =>
    unfold extend? at h
    split at h
    · rename_i hb
      intro c hc
      rcases List.mem_cons.mp hc with rfl | hc
      · omega
      · exact ih h c hc
    · cases h

theorem high_of_lead?_none {b : UInt8} (h : lead? b = none) : 0x80 ≤ b.toNat := by
  simp only [lead?] at h
  split at h
  · cases h
  · omega

theorem asciiOf_cons_high {b : UInt8} (h : 0x80 ≤ b.toNat) (rest : List UInt8) :
    asciiOf (b :: rest) = asciiOf rest := by
  apply List.filter_cons_of_neg
  rw [decide_eq_true_eq, UInt8.lt_iff_toNat_lt]
  exact Nat.not_lt.mpr h

theorem asciiOf_whole {b : UInt8} {bits n : Nat} {tail : List UInt8}
    (hb : lead? b = some (tail.length, bits)) (hn : extend? bits tail = some n) :
    (asciiOf (b :: tail)).Sublist (encode n) := by
  rcases lead?_eq_some hb with ⟨hlen, hlt, rfl⟩ | hcount
  · obtain rfl := List.length_eq_zero_iff.mp hlen
    cases hn
    have hb : encode b.toNat = [b] := by
      have hscalar : isScalar b.toNat = true := by
        simp only [isScalar, Bool.or_eq_true, decide_eq_true_eq]
        omega
      unfold encode scalar sequence
      rw [if_pos hscalar, if_pos hlt, UInt8.ofNat_toNat]
    rw [hb]
    exact List.filter_sublist
  · rw [asciiOf_of_high]
    · exact List.nil_sublist _
    · intro c hc
      rcases List.mem_cons.mp hc with rfl | hc
      · omega
      · exact high_of_extend? hn c hc

/-- Of octets that are no more than the limit, all ASCII octets are kept up to a sequence that is
cut off. -/
theorem Repaired.keeps {limit : Nat} {octets : List UInt8} {units : List Nat}
    (h : Repaired limit octets units) (hlimit : octets.length ≤ limit) :
    ∃ kept lost, octets = kept ++ lost ∧ (asciiOf kept).Sublist (encodeAll units) ∧
      (lost = [] ∨ CutOff lost) := by
  induction h with
  | full =>
    obtain rfl := List.length_eq_zero_iff.mp (Nat.le_zero.mp hlimit)
    exact ⟨[], [], rfl, .slnil, .inl rfl⟩
  | nil => exact ⟨[], [], rfl, .slnil, .inl rfl⟩
  | @stray _ b _ _ hb _ ih =>
    obtain ⟨kept, lost, rfl, hkept, hlost⟩ := ih (Nat.le_of_succ_le_succ hlimit)
    refine ⟨b :: kept, lost, rfl, ?_, hlost⟩
    rw [asciiOf_cons_high (high_of_lead?_none hb)]
    exact List.sublist_append_of_sublist_right hkept
  | @broken _ _ _ b _ _ hb hlen hn _ ih =>
    obtain ⟨kept, lost, rfl, hkept, hlost⟩ := ih (Nat.le_of_succ_le_succ hlimit)
    refine ⟨b :: kept, lost, rfl, ?_, hlost⟩
    have hhigh : 0x80 ≤ b.toNat := by
      -- A sequence of one octet cannot be broken.
      rcases lead?_eq_some hb with ⟨rfl, -⟩ | hcount
      · cases hn
      · omega
    rw [asciiOf_cons_high hhigh]
    exact List.sublist_append_of_sublist_right hkept
  | cutOff hb hlen => exact ⟨[], _, rfl, List.nil_sublist _, .inr (cutOff_of_lead? hb hlen)⟩
  | @whole _ _ n b tail _ _ hb hn _ ih =>
    simp only [List.length_cons, List.length_append] at hlimit
    obtain ⟨kept, lost, rfl, hkept, hlost⟩ := ih (by omega)
    refine ⟨b :: tail ++ kept, lost, by simp, ?_, hlost⟩
    unfold asciiOf
    rw [List.filter_append]
    exact (asciiOf_whole hb hn).append hkept

end Utf8

namespace Walker
variable {w : Walker}

/-- A cached form of no more octets than the limit keeps its ASCII octets, whatever stands between
them, except behind an octet at the end that announces more octets than there are. -/
theorem decodeCachedUtf8_keeps (w : Walker)
    (hmax : w.options.maxStringLength.toNat < UInt64.size / 4) {σ : Type} (t : Target σ) (s : σ)
    {data : Address} {length : Int64} {buffer : List UInt8}
    (hlength : length.toInt = buffer.length) (hdata : (t.memory s).Holds data buffer)
    (hlimit : buffer.length ≤ w.options.maxStringLength.toNat)
    (hread : buffer.length ≤ Memory.maxRawRead.toNat) :
    ∃ text, ((w.decodeCachedUtf8 data length).run.run t s).1 = .ok (.ok text) ∧
      ∃ kept lost, buffer = kept ++ lost ∧ (Utf8.asciiOf kept).Sublist text.octets ∧
        (lost = [] ∨ Utf8.CutOff lost) := by
  have hsize : Sizes length.toUInt64 buffer.length := hlength
  have hcut := toNat_min length.toUInt64 (w.options.maxStringLength * 4)
  rw [hsize.toNat_eq, (toNat_mul_four_iff _).mpr hmax, Nat.min_eq_left (by omega)] at hcut
  have hout := outcome_decodeCachedUtf8_repair (w := w) hlength hdata
    (UInt64.le_iff_toNat_le.mpr (by omega))
  rw [hcut, List.take_length] at hout
  refine ⟨_, (run_decodeCachedUtf8 t s data length).trans hout, ?_⟩
  exact (Utf8.repaired_repair _ buffer).keeps hlimit

/-- A string object whose cached form is these octets. -/
def cachedOctets (octets : List UInt8) : Regions :=
  [Region.of 0x1000 ((Layout.builtin .v39).emit 80
      [(.stringReady, 1), (.stringUtf8Length, .ofNat octets.length), (.stringUtf8, 0x2000)] []),
    Region.of 0x2000 octets]

instance (octets : List UInt8) : Decidable (cachedOctets octets).Disjoint :=
  inferInstanceAs (Decidable (List.Pairwise _ _))

theorem cachedOctets_holds {octets : List UInt8} (h : (cachedOctets octets).Disjoint)
    (hfits : 0x2000 + octets.length ≤ UInt64.size) :
    (cachedOctets octets).still.Holds 0x2000 octets :=
  Regions.holds _ h (.tail _ (.head _)) (by decide) hfits

/-- Three letters behind a stray octet, a broken sequence and a cut-off one. The last letter is the
one that is lost. -/
def threeLetters : List UInt8 := [0xFF, 0x61, 0xE2, 0x62, 0xF0, 0x63]

theorem decodeCachedUtf8_keeps_two :
    let w := limitedTo 6
    let m := (cachedOctets threeLetters).still
    let text : Text := ⟨[0xEF, 0xBF, 0xBD, 0x61, 0xEF, 0xBF, 0xBD, 0x62, 0xEF, 0xBF, 0xBD]⟩
    w.options.maxStringLength.toNat < UInt64.size / 4 ∧ m.Holds 0x2000 threeLetters ∧
      threeLetters.length ≤ w.options.maxStringLength.toNat ∧
      threeLetters.length ≤ Memory.maxRawRead.toNat ∧
      ((w.decodeCachedUtf8 0x2000 6).run.run m.target ()).1 = .ok (.ok text) ∧
      ∃ kept lost, threeLetters = kept ++ lost ∧ (Utf8.asciiOf kept).Sublist text.octets ∧
        (lost = [] ∨ Utf8.CutOff lost) := by
  intro w m text
  have hmax : w.options.maxStringLength.toNat < UInt64.size / 4 := by decide
  have hdata : m.Holds 0x2000 threeLetters := cachedOctets_holds (by decide +kernel) (by decide)
  have hlimit : threeLetters.length ≤ w.options.maxStringLength.toNat := by decide
  have hread : threeLetters.length ≤ Memory.maxRawRead.toNat := by decide
  have hlength : (6 : Int64).toInt = threeLetters.length := rfl
  have hrun : ((w.decodeCachedUtf8 0x2000 6).run.run m.target ()).1 = .ok (.ok text) :=
    (run_decodeCachedUtf8 m.target () 0x2000 6).trans
      (outcome_decodeCachedUtf8_repair hlength hdata (by decide))
  obtain ⟨_, htext, hkept⟩ :=
    decodeCachedUtf8_keeps w hmax m.target () hlength hdata hlimit hread
  rw [hrun] at htext
  cases htext
  exact ⟨hmax, hdata, hlimit, hread, hrun, hkept⟩

/-- A letter behind an octet that announces two more is lost if the cached form ends there. -/
theorem decodeCachedUtf8_loses :
    let w : Walker := ⟨.builtin .v39, .standard⟩
    let m := (cachedOctets [0xE2, 0x61]).still
    m.Holds 0x2000 [0xE2, 0x61] ∧ 2 ≤ w.options.maxStringLength.toNat ∧
      2 ≤ Memory.maxRawRead.toNat ∧
      ((w.decodeText 0x1000).run.run m.target ()).1 = .ok (.ok ⟨[0xEF, 0xBF, 0xBD]⟩) ∧
      ((w.decodeCachedUtf8 0x2000 2).run.run m.target ()).1 =
        .ok (.ok ⟨[0xEF, 0xBF, 0xBD]⟩) ∧
      ¬ (Utf8.asciiOf [0xE2, 0x61]).Sublist [0xEF, 0xBF, 0xBD] := by
  refine ⟨cachedOctets_holds (by decide +kernel) (by decide), by decide, by decide, by rfl,
    by rfl, by decide⟩

end Walker
end StackPeek
