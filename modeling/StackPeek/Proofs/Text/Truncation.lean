import StackPeek.Proofs.Text.Repair

/-!
# A smaller limit

Two walkers that differ in their limits find the characters of a string object in the same place.
With the smaller limit fewer octets are read, but those that are left out lie behind the last
character that is wanted, even where the octets are damaged. So a text that is decoded with one
limit is decoded with every smaller one, and cut to it (`decodeText_truncated`).
-/

namespace StackPeek

namespace Utf8

/-- Four octets for each unit that is wanted are enough, whatever the octets are. -/
theorem Repaired.cut {limit : Nat} {octets : List UInt8} {units : List Nat}
    (h : Repaired limit octets units) {wanted size : Nat} (hw : wanted ≤ limit)
    (hs : 4 * wanted ≤ size) : Repaired wanted (octets.take size) (units.take wanted) := by
  induction h generalizing wanted size with
  | full =>
    obtain rfl := Nat.le_zero.mp hw
    exact .full
  | nil =>
    rw [List.take_nil, List.take_nil]
    exact .nil
  | stray hb _ ih =>
    cases wanted with
    | zero => exact .full
    | succ wanted =>
      obtain ⟨size, rfl⟩ : ∃ n, size = n + 1 := ⟨size - 1, by omega⟩
      exact .stray hb (ih (by omega) (by omega))
  | @broken _ count _ _ rest _ hb hlen hn _ ih =>
    cases wanted with
    | zero => exact .full
    | succ wanted =>
      have hcount := count_le hb
      obtain ⟨size, rfl⟩ : ∃ n, size = n + 1 := ⟨size - 1, by omega⟩
      refine .broken hb ?_ ?_ (ih (by omega) (by omega))
      · rw [List.length_take]
        omega
      · rwa [List.take_take, Nat.min_eq_left (by omega)]
  | @cutOff _ _ _ _ rest hb hlen =>
    cases wanted with
    | zero => exact .full
    | succ wanted =>
      obtain ⟨size, rfl⟩ : ∃ n, size = n + 1 := ⟨size - 1, by omega⟩
      rw [List.take_succ_cons, List.take_succ_cons, List.take_nil]
      refine .cutOff hb ?_
      rw [List.length_take]
      omega
  | @whole _ _ n b tail rest units hb hn _ ih =>
    cases wanted with
    | zero => exact .full
    | succ wanted =>
      have hcount := count_le hb
      obtain ⟨size, rfl⟩ : ∃ k, size = tail.length + k + 1 := ⟨size - 1 - tail.length, by omega⟩
      rw [List.take_succ_cons, List.take_length_add_append]
      exact .whole hb hn (ih (by omega) (by omega))

theorem repair_cut {wanted limit size : Nat} {octets : List UInt8} (hw : wanted ≤ limit)
    (hs : 4 * wanted ≤ size ∨ octets.length ≤ size) :
    repair wanted (octets.take size) = (repair limit octets).take wanted := by
  have htake : octets.take size = octets.take (max size (4 * wanted)) := by
    rcases hs with hs | hs
    · rw [Nat.max_eq_left hs]
    · rw [List.take_of_length_le hs, List.take_of_length_le (by omega)]
  rw [htake]
  exact ((repaired_repair limit octets).cut hw (Nat.le_max_right _ _)).eq

end Utf8

theorem UnitWidth.split_take (width : UnitWidth) {count k : Nat} {bytes : List UInt8}
    (h : bytes.length = count * width.bytes.toNat) (hk : k ≤ count) :
    width.split (bytes.take (k * width.bytes.toNat)) = (width.split bytes).take k := by
  have hmul : k * width.bytes.toNat ≤ count * width.bytes.toNat := Nat.mul_le_mul_right _ hk
  have hlen : (bytes.take (k * width.bytes.toNat)).length = k * width.bytes.toNat := by
    rw [List.length_take]
    omega
  rw [width.split_eq_map h, width.split_eq_map hlen, ← List.map_take, List.take_range,
    Nat.min_eq_left hk]
  refine List.map_congr_left fun i hi => congrArg Bytes.littleEndian ?_
  have hunit : (i + 1) * width.bytes.toNat ≤ k * width.bytes.toNat :=
    Nat.mul_le_mul_right _ (List.mem_range.mp hi)
  rw [Nat.succ_mul] at hunit
  rw [List.drop_take, List.take_take, Nat.min_eq_left (by omega)]

namespace Memory
variable {m : StillMemory} {a : Address} {n k : UInt64} {bytes : List UInt8}

theorem outcome_fetchAll_prefix (hm : m.Prefixes)
    (h : (fetchAll a n).outcome m = .ok (.ok bytes)) (hk : k ≤ n) :
    bytes.length = n.toNat ∧ (fetchAll a k).outcome m = .ok (.ok (bytes.take k.toNat)) := by
  by_cases hn : n = 0
  · subst hn
    obtain rfl : k = 0 := UInt64.toNat_inj.mp (Nat.le_zero.mp (UInt64.le_iff_toNat_le.mp hk))
    have hnil : bytes = [] := by
      unfold fetchAll at h
      split at h
      · cases h
      split at h
      · cases h
      · cases h
        rfl
    subst hnil
    exact ⟨rfl, h⟩
  obtain ⟨hmax, h0, copied, hreply, hlen, rfl⟩ := reply_of_fetchAll h hn
  refine ⟨by rw [List.length_take, Nat.min_eq_left hlen], ?_⟩
  have hkmax : k ≤ maxRawRead := UInt64.le_trans hk hmax
  by_cases hk0 : k = 0
  · subst hk0
    exact outcome_fetchAll_zero h0
  · obtain ⟨shorter, hshort, hle, htake⟩ := hm a n k copied hk0 hk hreply hlen
    rw [outcome_fetchAll_copied hkmax h0 hk0 hshort hle, htake, List.take_take,
      Nat.min_eq_left (UInt64.le_iff_toNat_le.mp hk)]

end Memory

/-- The same place with at most so many units. -/
def TextSource.cut (limit : UInt64) : TextSource → TextSource
  | .units data count kind => .units data (min count limit) kind
  | .cached data length => .cached data length

namespace Walker
variable {m : StillMemory} {l : Layout} {o o' : Options}

section
variable (hle : o.maxStringLength ≤ o'.maxStringLength)
include hle

theorem min_limits (n : UInt64) :
    min n o.maxStringLength = min (min n o'.maxStringLength) o.maxStringLength := by
  have hnat := UInt64.le_iff_toNat_le.mp hle
  apply UInt64.toNat_inj.mp
  simp only [toNat_min]
  omega

theorem wideCount_cut (extra : Snapshot) (n : UInt64) :
    (Walker.mk l o).wideCount extra (min n o.maxStringLength) =
      min ((Walker.mk l o').wideCount extra (min n o'.maxStringLength)) o.maxStringLength := by
  unfold wideCount
  cases extra.signed .stringWideLength with
  | error e => exact min_limits hle n
  | ok length =>
    simp only
    split
    · exact min_limits hle n
    · exact min_limits hle _

theorem outcome_sourceNotReady_cut (header : Snapshot) (n : UInt64) :
    ((Walker.mk l o).sourceNotReady header (min n o.maxStringLength)).outcome m =
      (((Walker.mk l o').sourceNotReady header (min n o'.maxStringLength)).outcome m).map
        (.map (.cut o.maxStringLength)) := by
  apply Attempt.outcome_bind_map
  intro extra
  cases cachedUtf8? extra with
  | some cached => rfl
  | none =>
    simp only
    split
    · rw [wideCount_cut hle]
      rfl
    · rw [min_limits hle]
      exact Attempt.outcome_bind_map fun data => rfl

theorem outcome_sourceSeparate_cut (address : Address) (n kind : UInt64) :
    ((Walker.mk l o).sourceSeparate address (min n o.maxStringLength) kind).outcome m =
      (((Walker.mk l o').sourceSeparate address (min n o'.maxStringLength) kind).outcome m).map
        (.map (.cut o.maxStringLength)) := by
  rw [min_limits hle]
  apply Attempt.outcome_bind_map
  intro extra
  apply Attempt.outcome_bind_map
  intro data
  split
  · rfl
  · cases cachedUtf8? extra with
    | some cached => rfl
    | none => rfl

theorem outcome_textSource_cut (address : Address) :
    ((Walker.mk l o).textSource address).outcome m =
      (((Walker.mk l o').textSource address).outcome m).map
        (.map (.cut o.maxStringLength)) := by
  unfold textSource
  split
  · rfl
  apply Attempt.outcome_bind_map
  intro header
  apply Attempt.outcome_bind_map
  intro kind
  apply Attempt.outcome_bind_map
  intro compact
  apply Attempt.outcome_bind_map
  intro ascii
  apply Attempt.outcome_bind_map
  intro ready
  apply Attempt.outcome_bind_map
  intro length
  split
  · rfl
  rw [Attempt.outcome_bind_ok (outcome_cutLength_min length.toUInt64),
    Attempt.outcome_bind_ok (outcome_cutLength_min length.toUInt64)]
  split
  · exact outcome_sourceNotReady_cut hle header _
  split
  · exact outcome_sourceSeparate_cut hle address _ kind
  simp only [min_limits hle length.toUInt64]
  split
  · exact Attempt.outcome_bind_map fun data => rfl
  · exact Attempt.outcome_bind_map fun data => rfl

end

theorem outcome_decodeUnits_cut (hm : m.Prefixes) {data : Address} {count count' kind : UInt64}
    (hc : count ≤ count') (hmax : count'.toNat < UInt64.size / 4) {text : Text}
    (h : (decodeUnits data count' kind).outcome m = .ok (.ok text)) :
    ∃ units, units.length = count'.toNat ∧ text = .ofUnits units ∧
      (decodeUnits data count kind).outcome m = .ok (.ok (.ofUnits (units.take count.toNat))) := by
  have hnat := UInt64.le_iff_toNat_le.mp hc
  unfold decodeUnits at *
  cases hk : UnitWidth.ofCode? kind with
  | none =>
    rw [hk] at h
    cases h
  | some width =>
    rw [hk] at h
    simp only at h ⊢
    obtain ⟨bytes, hbytes, h⟩ := Attempt.outcome_of_bind h
    cases h
    have hlong : (count' * width.bytes).toNat = count'.toNat * width.bytes.toNat :=
      width.toNat_mul_bytes hmax
    have hshort : (count * width.bytes).toNat = count.toNat * width.bytes.toNat :=
      width.toNat_mul_bytes (by omega)
    have hle : count * width.bytes ≤ count' * width.bytes := by
      rw [UInt64.le_iff_toNat_le, hlong, hshort]
      exact Nat.mul_le_mul_right _ hnat
    obtain ⟨hlen, hfetch⟩ := Memory.outcome_fetchAll_prefix hm hbytes hle
    rw [hlong] at hlen
    refine ⟨width.split bytes, ?_, rfl, ?_⟩
    · rw [width.length_split, hlen, Nat.mul_div_cancel _ width.bytes_pos]
    · rw [Attempt.outcome_bind_ok hfetch, hshort, width.split_take hlen hnat]
      rfl

section
variable (hm : m.Prefixes) (hle : o.maxStringLength ≤ o'.maxStringLength)
  (hmax : o'.maxStringLength.toNat < UInt64.size / 4)
include hm hle hmax

theorem outcome_decodeCachedUtf8_cut {data : Address} {length : Int64} {text : Text}
    (h : ((Walker.mk l o').decodeCachedUtf8 data length).outcome m = .ok (.ok text)) :
    ∃ units, text = .ofUnits units ∧
      ((Walker.mk l o).decodeCachedUtf8 data length).outcome m =
        .ok (.ok (.ofUnits (units.take o.maxStringLength.toNat))) := by
  have hnat := UInt64.le_iff_toNat_le.mp hle
  unfold decodeCachedUtf8 at *
  split at h
  · cases h
  rename_i hneg
  rw [if_neg hneg]
  simp only at h ⊢
  obtain ⟨bytes, hbytes, h⟩ := Attempt.outcome_of_bind h
  cases h
  have hlong := toNat_min length.toUInt64 (o'.maxStringLength * 4)
  have hshort := toNat_min length.toUInt64 (o.maxStringLength * 4)
  rw [(toNat_mul_four_iff _).mpr hmax] at hlong
  rw [(toNat_mul_four_iff _).mpr (by omega)] at hshort
  obtain ⟨hlen, hfetch⟩ := Memory.outcome_fetchAll_prefix hm hbytes
    (k := min length.toUInt64 (o.maxStringLength * 4)) (UInt64.le_iff_toNat_le.mpr (by omega))
  refine ⟨_, rfl, ?_⟩
  rw [Attempt.outcome_bind_ok hfetch, Utf8.repair_cut hnat (by omega)]
  rfl

theorem outcome_decodeSource_cut {source : TextSource} {text : Text}
    (hwithin : source.Within o'.maxStringLength)
    (h : ((Walker.mk l o').decodeSource source).outcome m = .ok (.ok text)) :
    ∃ units, text = .ofUnits units ∧
      ((Walker.mk l o).decodeSource (source.cut o.maxStringLength)).outcome m =
        .ok (.ok (.ofUnits (units.take o.maxStringLength.toNat))) := by
  cases source with
  | units data count kind =>
    have hcount : count.toNat ≤ o'.maxStringLength.toNat := hwithin
    have hmin := toNat_min count o.maxStringLength
    have hfewer : min count o.maxStringLength ≤ count := UInt64.le_iff_toNat_le.mpr (by omega)
    obtain ⟨units, hlen, htext, hcut⟩ := outcome_decodeUnits_cut hm hfewer (by omega) h
    rw [hmin, ← hlen, Nat.min_comm, ← List.take_eq_take_min] at hcut
    exact ⟨units, htext, hcut⟩
  | cached data length => exact outcome_decodeCachedUtf8_cut hm hle hmax h

end

/-- A text that is decoded with one limit is decoded with every smaller one, and then it is cut to
the smaller limit. Nothing is asked of the layout or of the string object. -/
theorem decodeText_truncated (hm : m.Prefixes) {w w' : Walker} (hl : w.layout = w'.layout)
    (hle : w.options.maxStringLength ≤ w'.options.maxStringLength)
    (hmax : w'.options.maxStringLength.toNat < UInt64.size / 4) {σ : Type} {t : Target σ}
    (ht : t.Frozen m) {s : σ} {address : Address} {text : Text}
    (h : ((w'.decodeText address).run.run t s).1 = .ok (.ok text)) (s₁ : σ) :
    ∃ chars, text = .ofCharacters chars ∧
      ((w.decodeText address).run.run t s₁).1 =
        .ok (.ok (.ofCharacters (chars.take w.options.maxStringLength.toNat))) := by
  obtain ⟨l, o⟩ := w
  obtain ⟨l', o'⟩ := w'
  obtain rfl : l = l' := hl
  rw [(costs_decodeText address).run_frozen ht] at h ⊢
  have hdecode : ((Walker.mk l o').decodeText address).outcome m = .ok (.ok text) := h
  rw [decodeText_eq] at hdecode
  obtain ⟨source, hsource, htext⟩ := Attempt.outcome_of_bind hdecode
  obtain ⟨r, hr, hwithin⟩ := (gives_textSource (w := ⟨l, o'⟩) address).run m.target ()
  rw [Probe.run_atRest m.target_atRest] at hr
  obtain rfl : Except.ok source = r := Except.ok.inj (hsource.symm.trans hr)
  obtain ⟨units, rfl, hcut⟩ := outcome_decodeSource_cut hm hle hmax (hwithin source rfl) htext
  have hplace := outcome_textSource_cut (m := m) (l := l) hle address
  rw [hsource] at hplace
  refine ⟨units.map Utf8.character, Text.ofUnits_eq units, ?_⟩
  change ((Walker.mk l o).decodeText address).outcome m = _
  rw [decodeText_eq, Attempt.outcome_bind_ok hplace, hcut, Text.ofUnits_eq, List.map_take]

/-- A string of three two-byte units behind its header, a surrogate in the middle. -/
def unitMemory : Regions :=
  [Region.of 0x1000 ((Layout.builtin .v39).emit 72
    [(.stringLength, 3), (.stringKind, 2), (.stringCompact, 1), (.stringReady, 1)]
    [0x61, 0, 0, 0xD8, 0xE9, 0])]

/-- The smaller limit cuts the cached form inside the sequence of a surrogate, and the units behind
one. -/
theorem decodeText_truncated_cached_units :
    (damagedMemory.still.Prefixes ∧ (limitedTo 1).layout = threeCharacters.layout ∧
      (limitedTo 1).options.maxStringLength ≤ threeCharacters.options.maxStringLength ∧
      threeCharacters.options.maxStringLength.toNat < UInt64.size / 4 ∧
      ((threeCharacters.decodeText 0x1000).run.run damagedMemory.still.target ()).1 =
        .ok (.ok ⟨[0x00, 0xEF, 0xBF, 0xBD, 0xEF, 0xBF, 0xBD]⟩) ∧
      ∃ chars, (⟨[0x00, 0xEF, 0xBF, 0xBD, 0xEF, 0xBF, 0xBD]⟩ : Text) = .ofCharacters chars ∧
        (((limitedTo 1).decodeText 0x1000).run.run damagedMemory.still.target ()).1 =
          .ok (.ok (.ofCharacters (chars.take 1)))) ∧
    unitMemory.still.Prefixes ∧
      ((threeCharacters.decodeText 0x1000).run.run unitMemory.still.target ()).1 =
        .ok (.ok ⟨[0x61, 0xEF, 0xBF, 0xBD, 0xC3, 0xA9]⟩) ∧
      ∃ chars, (⟨[0x61, 0xEF, 0xBF, 0xBD, 0xC3, 0xA9]⟩ : Text) = .ofCharacters chars ∧
        (((limitedTo 2).decodeText 0x1000).run.run unitMemory.still.target ()).1 =
          .ok (.ok (.ofCharacters (chars.take 2))) := by
  have hl : ∀ limit, (limitedTo limit).layout = threeCharacters.layout := fun _ => rfl
  have hone : (limitedTo 1).options.maxStringLength ≤ threeCharacters.options.maxStringLength := by
    decide
  have htwo : (limitedTo 2).options.maxStringLength ≤ threeCharacters.options.maxStringLength := by
    decide
  have hmax : threeCharacters.options.maxStringLength.toNat < UInt64.size / 4 := by decide
  constructor
  · have hm : damagedMemory.still.Prefixes := Regions.prefixes damagedMemory
    have hrun : ((threeCharacters.decodeText 0x1000).run.run damagedMemory.still.target ()).1 =
        .ok (.ok ⟨[0x00, 0xEF, 0xBF, 0xBD, 0xEF, 0xBF, 0xBD]⟩) := by rfl
    have hcut := decodeText_truncated hm (hl 1) hone hmax damagedMemory.still.target_frozen hrun ()
    exact ⟨hm, hl 1, hone, hmax, hrun, hcut⟩
  · have hm : unitMemory.still.Prefixes := Regions.prefixes unitMemory
    have hrun : ((threeCharacters.decodeText 0x1000).run.run unitMemory.still.target ()).1 =
        .ok (.ok ⟨[0x61, 0xEF, 0xBF, 0xBD, 0xC3, 0xA9]⟩) := by rfl
    have hcut := decodeText_truncated hm (hl 2) htwo hmax unitMemory.still.target_frozen hrun ()
    exact ⟨hm, hrun, hcut⟩

end Walker
end StackPeek
