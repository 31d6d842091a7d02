import StackPeek.Proofs.Memory.Regions
import StackPeek.Proofs.Text.Cost
import StackPeek.Proofs.Text.Encoding

/-!
# Every way to keep a string

A string object keeps its code units behind its header, in a buffer of their own, in a buffer of
four-byte units while it is not ready, or as a cached UTF-8 form. `StillMemory.Represents` says
that memory holds some units in one of these ways. Decoding such an object gives its first
characters, up to the limit of the walk, whichever way it is (`decodeText_represents`).

This module does NOT speak of damaged objects.
-/

namespace StackPeek

structure StringHeader where
  length : UInt64
  kind : UInt64
  compact : UInt64
  ascii : UInt64
  ready : UInt64
  wide : UInt64

/-- The members behind the header of a string that is not compact. -/
structure StringExtra where
  utf8Length : UInt64
  utf8 : UInt64
  wideLength : UInt64
  data : UInt64

def StringHeader.members (h : StringHeader) : List (Field × UInt64) :=
  [(.stringLength, h.length), (.stringKind, h.kind), (.stringCompact, h.compact),
    (.stringAscii, h.ascii), (.stringReady, h.ready), (.stringWide, h.wide)]

def StringExtra.members (e : StringExtra) : List (Field × UInt64) :=
  [(.stringUtf8Length, e.utf8Length), (.stringUtf8, e.utf8), (.stringWideLength, e.wideLength),
    (.stringData, e.data)]

/-- The word stores a size as a signed number. -/
def Sizes (word : UInt64) (n : Nat) : Prop := word.toInt64.toInt = n

namespace StillMemory

def HeaderAt (m : StillMemory) (l : Layout) (a : Address) (h : StringHeader) : Prop :=
  ∃ bytes, m.Object l .string a h.members bytes

def ExtraAt (m : StillMemory) (l : Layout) (a : Address) (e : StringExtra) : Prop :=
  ∃ bytes, m.Object l .compactString a e.members bytes

/-- Data of variable length is stored inside the structure at `a`. -/
def InlineAt (m : StillMemory) (l : Layout) (a : Address) (f : Field) (data : List UInt8) : Prop :=
  ∃ spec, l.spec? f = some spec ∧ a.toNat + spec.offset.toNat < UInt64.size ∧
    m.Holds (a + spec.offset) data

/-- A cached UTF-8 form of these characters. -/
def CacheAt (m : StillMemory) (e : StringExtra) (chars : List Char) : Prop :=
  Sizes e.utf8Length (Text.ofCharacters chars).octets.length ∧
    m.Holds e.utf8 (Text.ofCharacters chars).octets

/-- The string object at `a` has these code units. -/
inductive Represents (m : StillMemory) (l : Layout) (a : Address) : List Nat → Prop where
  | ascii {h : StringHeader} {units : List Nat} : m.HeaderAt l a h → h.ready = 1 →
      h.compact = 1 → h.ascii = 1 → Sizes h.length units.length → (∀ u ∈ units, u < 0x80) →
      m.InlineAt l a .stringAsciiData (UnitWidth.one.store units) → Represents m l a units
  | compact {h : StringHeader} {units : List Nat} (width : UnitWidth) : m.HeaderAt l a h →
      h.ready = 1 → h.compact = 1 → h.ascii = 0 → h.kind = width.bytes →
      Sizes h.length units.length → width.Holds units →
      m.InlineAt l a .stringCompactData (width.store units) → Represents m l a units
  /-- The units have a buffer of their own, which is not null. -/
  | separate {h : StringHeader} {e : StringExtra} {units : List Nat} (width : UnitWidth) :
      m.HeaderAt l a h → m.ExtraAt l a e → h.ready = 1 → h.compact = 0 → h.kind = width.bytes →
      Sizes h.length units.length → width.Holds units → m.Holds e.data (width.store units) →
      Represents m l a units
  /-- Not ready, without a cached form. -/
  | wide {h : StringHeader} {e : StringExtra} {units : List Nat} : m.HeaderAt l a h →
      m.ExtraAt l a e → h.ready = 0 → ¬ h.length.toInt64 < 0 → e.utf8 = 0 →
      Sizes e.wideLength units.length → UnitWidth.four.Holds units →
      m.Holds h.wide (UnitWidth.four.store units) → Represents m l a units
  | cached {h : StringHeader} {e : StringExtra} {chars : List Char} : m.HeaderAt l a h →
      m.ExtraAt l a e → ¬ h.length.toInt64 < 0 →
      (h.ready = 0 ∨ h.ready = 1 ∧ h.compact = 0 ∧ e.data = 0) → m.CacheAt e chars →
      Represents m l a (chars.map Char.toNat)

end StillMemory

theorem Sizes.nonneg {word : UInt64} {n : Nat} (h : Sizes word n) : ¬ word.toInt64 < 0 := by
  rw [Int64.lt_iff_toInt_lt, h, Int64.toInt_zero]
  omega

theorem Sizes.toNat_eq {word : UInt64} {n : Nat} (h : Sizes word n) : word.toNat = n := by
  have hi : word.toInt64.toInt = word.toBitVec.toInt := rfl
  have hn : word.toBitVec.toNat = word.toNat := rfl
  have hlt := word.toNat_lt
  unfold Sizes at h
  rw [hi, BitVec.toInt_eq_toNat_cond, hn] at h
  split at h <;> omega

theorem toNat_min (a b : UInt64) : (min a b).toNat = min a.toNat b.toNat := by
  change (if a ≤ b then a else b).toNat = min a.toNat b.toNat
  split
  · rename_i h
    rw [Nat.min_eq_left (UInt64.le_iff_toNat_le.mp h)]
  · rename_i h
    have hlt := UInt64.lt_iff_toNat_lt.mp (UInt64.not_le.mp h)
    rw [Nat.min_eq_right (by omega)]

/-- Four times a word is exact up to a quarter of the words, and no further. -/
theorem toNat_mul_four_iff (n : UInt64) :
    (n * 4).toNat = n.toNat * 4 ↔ n.toNat < UInt64.size / 4 := by
  have hsize : UInt64.size = 18446744073709551616 := rfl
  have hfour : (4 : UInt64).toNat = 4 := rfl
  rw [UInt64.toNat_mul, hfour]
  omega

namespace Walker
variable {w : Walker} {m : StillMemory} {a : Address}

theorem outcome_cutLength_min (length : UInt64) :
    (w.cutLength a length).outcome m = .ok (.ok (min length w.options.maxStringLength)) := by
  have hmin : min length w.options.maxStringLength =
      if w.options.maxStringLength < length then w.options.maxStringLength else length := by
    apply UInt64.toNat_inj.mp
    rw [toNat_min]
    split
    · rename_i h
      have h := UInt64.lt_iff_toNat_lt.mp h
      omega
    · rename_i h
      have h := UInt64.le_iff_toNat_le.mp (UInt64.not_lt.mp h)
      omega
  unfold cutLength
  rw [hmin]
  simp only
  split <;> rfl

theorem fieldAddress_inline {f : Field} {data : List UInt8} (h0 : a ≠ 0)
    (h : m.InlineAt w.layout a f data) :
    ∃ start, w.fieldAddress a f = .ok start ∧ m.Holds start data := by
  obtain ⟨spec, hs, hlt, hdata⟩ := h
  refine ⟨a + spec.offset, ?_, hdata⟩
  unfold fieldAddress
  rw [hs]
  exact Address.plus?_of_lt h0 hlt

theorem outcome_decodeUnits_store {start : Address} {width : UnitWidth} {units : List Nat}
    (h : m.Holds start (width.store units)) (hu : width.Holds units) {count : UInt64}
    (hc : count.toNat ≤ units.length) (hmax : 4 * count.toNat ≤ Memory.maxRawRead.toNat) :
    (decodeUnits start count width.bytes).outcome m =
      .ok (.ok (.ofCharacters ((units.take count.toNat).map Utf8.character))) := by
  have hcode : UnitWidth.ofCode? width.bytes = some width := by cases width <;> rfl
  have hm : Memory.maxRawRead.toNat = 4194304 := rfl
  have hword : UInt64.size = 18446744073709551616 := rfl
  have hbytes : count.toNat * width.bytes.toNat ≤ count.toNat * 4 :=
    Nat.mul_le_mul_left _ width.bytes_le
  have hn : (count * width.bytes).toNat = count.toNat * width.bytes.toNat :=
    width.toNat_mul_bytes (by omega)
  have hlen : count.toNat * width.bytes.toNat ≤ (width.store units).length := by
    rw [UnitWidth.length_store]
    exact Nat.mul_le_mul_right _ hc
  have hfetch := h.outcome_prefix (n := count * width.bytes) (by omega)
    (UInt64.le_iff_toNat_le.mpr (by omega))
  rw [hn, UnitWidth.take_store] at hfetch
  have hsplit : width.split (width.store (units.take count.toNat)) = units.take count.toNat :=
    UnitWidth.split_store fun u hm => hu u (List.mem_of_mem_take hm)
  unfold decodeUnits
  rw [hcode]
  simp only
  rw [Attempt.outcome_bind_ok hfetch, hsplit, Text.ofUnits_eq]
  rfl

theorem outcome_decodeCachedUtf8_repair {data : Address} {length : Int64} {buffer : List UInt8}
    (hlength : length.toInt = buffer.length) (hdata : m.Holds data buffer)
    (hmax : min length.toUInt64 (w.options.maxStringLength * 4) ≤ Memory.maxRawRead) :
    (w.decodeCachedUtf8 data length).outcome m =
      .ok (.ok (.ofUnits (Utf8.repair w.options.maxStringLength.toNat
        (buffer.take (min length.toUInt64 (w.options.maxStringLength * 4)).toNat)))) := by
  have hsize : Sizes length.toUInt64 buffer.length := hlength
  have hcut := toNat_min length.toUInt64 (w.options.maxStringLength * 4)
  rw [hsize.toNat_eq] at hcut
  have hfetch := hdata.outcome_prefix (by omega) hmax
  have hneg : ¬ length < 0 := hsize.nonneg
  unfold decodeCachedUtf8
  rw [if_neg hneg]
  simp only
  rw [Attempt.outcome_bind_ok hfetch]
  rfl

theorem outcome_decodeCachedUtf8 {data : Address} {length : Int64} {chars : List Char}
    (hlength : length.toInt = (Text.ofCharacters chars).octets.length)
    (hdata : m.Holds data (Text.ofCharacters chars).octets)
    (hlimit : w.options.maxStringLength.toNat < UInt64.size / 4)
    (hmax : min (Text.ofCharacters chars).octets.length (4 * w.options.maxStringLength.toNat) ≤
      Memory.maxRawRead.toNat) :
    (w.decodeCachedUtf8 data length).outcome m =
      .ok (.ok (.ofCharacters (chars.take w.options.maxStringLength.toNat))) := by
  have hsize : Sizes length.toUInt64 (Text.ofCharacters chars).octets.length := hlength
  have hcut := toNat_min length.toUInt64 (w.options.maxStringLength * 4)
  rw [(toNat_mul_four_iff _).mpr hlimit, hsize.toNat_eq] at hcut
  -- What is cut off lies behind the last character that is wanted.
  have hrepair := Utf8.repair_take chars w.options.maxStringLength.toNat
    (min length.toUInt64 (w.options.maxStringLength * 4)).toNat (by omega)
  rw [outcome_decodeCachedUtf8_repair hlength hdata (UInt64.le_iff_toNat_le.mpr (by omega)),
    hrepair, Text.ofUnits_toNat]

theorem outcome_cache {e : StringExtra} {chars : List Char} (h : m.CacheAt e chars)
    (hmax : 4 * w.options.maxStringLength.toNat ≤ Memory.maxRawRead.toNat) :
    (w.decodeCachedUtf8 e.utf8 e.utf8Length.toInt64).outcome m =
      .ok (.ok (.ofCharacters (chars.take w.options.maxStringLength.toNat))) := by
  have hm : Memory.maxRawRead.toNat = 4194304 := rfl
  have hword : UInt64.size = 18446744073709551616 := rfl
  exact outcome_decodeCachedUtf8 h.1 h.2 (by omega) (by omega)

section
variable (hl : w.layout.Usual)
  (hmax : 4 * w.options.maxStringLength.toNat ≤ Memory.maxRawRead.toNat)

include hmax in
theorem outcome_decodeUnits_limit {start : Address} {width : UnitWidth} {units : List Nat}
    (h : m.Holds start (width.store units)) (hu : width.Holds units) {length : UInt64}
    (hs : Sizes length units.length) :
    (decodeUnits start (min length w.options.maxStringLength) width.bytes).outcome m =
      .ok (.ok (.ofCharacters
        ((units.take w.options.maxStringLength.toNat).map Utf8.character))) := by
  have hcount := toNat_min length w.options.maxStringLength
  rw [hs.toNat_eq, Nat.min_comm] at hcount
  rw [outcome_decodeUnits_store h hu (by omega) (by omega), hcount, ← List.take_eq_take_min]

include hl

theorem outcome_header {h : StringHeader} {bytes : List UInt8}
    (ho : m.Object w.layout .string a h.members bytes) (hpos : ¬ h.length.toInt64 < 0) :
    (w.decodeText a).outcome m =
      (if h.ready = 0 then
          w.decodeNotReady (w.layout.copy .string a bytes) (min h.length w.options.maxStringLength)
        else if h.compact = 0 then
          w.decodeSeparate a (min h.length w.options.maxStringLength) h.kind
        else if h.ascii ≠ 0 then do
          let data ← w.fieldAddress a .stringAsciiData
          decodeUnits data (min h.length w.options.maxStringLength) 1
        else do
          let data ← w.fieldAddress a .stringCompactData
          decodeUnits data (min h.length w.options.maxStringLength) h.kind).outcome m := by
  rw [outcome_decodeText_header hl ho h.length h.kind h.compact h.ascii h.ready
      (by simp [StringHeader.members]) (by simp [StringHeader.members])
      (by simp [StringHeader.members]) (by simp [StringHeader.members])
      (by simp [StringHeader.members]) hpos,
    Attempt.outcome_bind_ok (outcome_cutLength_min h.length)]

theorem outcome_extra {e : StringExtra} {bytes : List UInt8}
    (ho : m.Object w.layout .compactString a e.members bytes) :
    (w.readStruct a .compactString).outcome m =
      .ok (.ok (w.layout.copy .compactString a bytes)) :=
  ho.outcome_readStruct hl (f := .stringData) (v := e.data) (by simp [StringExtra.members]) nofun

theorem cachedUtf8?_copy {e : StringExtra} {bytes : List UInt8}
    (ho : m.Object w.layout .compactString a e.members bytes) :
    cachedUtf8? (w.layout.copy .compactString a bytes) =
      if e.utf8 = 0 then none else some (e.utf8, e.utf8Length.toInt64) := by
  have hdata : (w.layout.copy .compactString a bytes).pointer .stringUtf8 = .ok e.utf8 :=
    ho.unsigned hl (by simp [StringExtra.members]) (.inl rfl)
  have hlength := ho.signed_int64 hl (f := .stringUtf8Length) (v := e.utf8Length)
    (by simp [StringExtra.members]) rfl
  unfold cachedUtf8?
  rw [hdata, hlength]

include hmax

theorem outcome_separate {e : StringExtra} {length : UInt64} {width : UnitWidth}
    {units : List Nat} (he : m.ExtraAt w.layout a e) (hs : Sizes length units.length)
    (hu : width.Holds units) (hdata : m.Holds e.data (width.store units)) :
    (w.decodeSeparate a (min length w.options.maxStringLength) width.bytes).outcome m =
      .ok (.ok (.ofCharacters
        ((units.take w.options.maxStringLength.toNat).map Utf8.character))) := by
  obtain ⟨bytes, ho⟩ := he
  have hpointer : (w.layout.copy .compactString a bytes).pointer .stringData = .ok e.data :=
    ho.unsigned hl (by simp [StringExtra.members]) (.inl rfl)
  unfold decodeSeparate
  rw [Attempt.outcome_bind_ok (outcome_extra hl ho), hpointer, Attempt.outcome_ok_bind,
    if_pos hdata.nonnull, outcome_decodeUnits_limit hmax hdata hu hs]

theorem outcome_separate_cached {e : StringExtra} {chars : List Char}
    (he : m.ExtraAt w.layout a e) (h0 : e.data = 0) (hc : m.CacheAt e chars)
    (count kind : UInt64) :
    (w.decodeSeparate a count kind).outcome m =
      .ok (.ok (.ofCharacters (chars.take w.options.maxStringLength.toNat))) := by
  obtain ⟨bytes, ho⟩ := he
  have hpointer : (w.layout.copy .compactString a bytes).pointer .stringData = .ok e.data :=
    ho.unsigned hl (by simp [StringExtra.members]) (.inl rfl)
  unfold decodeSeparate
  rw [Attempt.outcome_bind_ok (outcome_extra hl ho), hpointer, Attempt.outcome_ok_bind,
    if_neg (not_not_intro h0), cachedUtf8?_copy hl ho, if_neg hc.2.nonnull]
  exact outcome_cache hc hmax

theorem outcome_notReady_cached {e : StringExtra} {chars : List Char} {header : Snapshot}
    (ha : header.address = a) (he : m.ExtraAt w.layout a e) (hc : m.CacheAt e chars)
    (count : UInt64) :
    (w.decodeNotReady header count).outcome m =
      .ok (.ok (.ofCharacters (chars.take w.options.maxStringLength.toNat))) := by
  obtain ⟨bytes, ho⟩ := he
  unfold decodeNotReady
  rw [ha, Attempt.outcome_bind_ok (outcome_extra hl ho), cachedUtf8?_copy hl ho,
    if_neg hc.2.nonnull]
  exact outcome_cache hc hmax

theorem outcome_notReady_wide {e : StringExtra} {wide : Address} {units : List Nat}
    {header : Snapshot} (ha : header.address = a) (hw : header.pointer .stringWide = .ok wide)
    (he : m.ExtraAt w.layout a e) (h0 : e.utf8 = 0) (hs : Sizes e.wideLength units.length)
    (hu : UnitWidth.four.Holds units) (hdata : m.Holds wide (UnitWidth.four.store units))
    (count : UInt64) :
    (w.decodeNotReady header count).outcome m =
      .ok (.ok (.ofCharacters
        ((units.take w.options.maxStringLength.toNat).map Utf8.character))) := by
  obtain ⟨bytes, ho⟩ := he
  have hlength := ho.signed_int64 hl (f := .stringWideLength) (v := e.wideLength)
    (by simp [StringExtra.members]) rfl
  have hcount : w.wideCount (w.layout.copy .compactString a bytes) count =
      min e.wideLength w.options.maxStringLength := by
    unfold wideCount
    rw [hlength]
    exact if_neg hs.nonneg
  have hwide : (header.pointer .stringWide).toOption.getD 0 = wide := by
    rw [hw]
    rfl
  unfold decodeNotReady
  rw [ha, Attempt.outcome_bind_ok (outcome_extra hl ho), cachedUtf8?_copy hl ho, if_pos h0]
  simp only [hwide]
  rw [if_pos hdata.nonnull, hcount]
  exact outcome_decodeUnits_limit hmax hdata hu hs

theorem outcome_represented {units : List Nat} (h : m.Represents w.layout a units) :
    (w.decodeText a).outcome m =
      .ok (.ok (.ofCharacters
        ((units.take w.options.maxStringLength.toNat).map Utf8.character))) := by
  have hone : (1 : UInt64) ≠ 0 := by decide
  cases h with
  | ascii hh hready hcompact hascii hs hu hdata =>
    obtain ⟨bytes, ho⟩ := hh
    obtain ⟨start, hstart, hheld⟩ := fieldAddress_inline ho.holds.nonnull hdata
    have hwidth : UnitWidth.one.Holds units := fun u hm => by
      have hlt := hu u hm
      have hcap : Bytes.capacity UnitWidth.one.bytes.toNat = 256 := rfl
      omega
    rw [outcome_header hl ho hs.nonneg, if_neg (hready ▸ hone), if_neg (hcompact ▸ hone),
      if_pos (hascii ▸ hone), hstart, Attempt.outcome_ok_bind]
    exact outcome_decodeUnits_limit hmax hheld hwidth hs
  | compact width hh hready hcompact hascii hkind hs hu hdata =>
    obtain ⟨bytes, ho⟩ := hh
    obtain ⟨start, hstart, hheld⟩ := fieldAddress_inline ho.holds.nonnull hdata
    rw [outcome_header hl ho hs.nonneg, if_neg (hready ▸ hone), if_neg (hcompact ▸ hone),
      if_neg (not_not_intro hascii), hstart, Attempt.outcome_ok_bind, hkind]
    exact outcome_decodeUnits_limit hmax hheld hu hs
  | separate width hh he hready hcompact hkind hs hu hdata =>
    obtain ⟨bytes, ho⟩ := hh
    rw [outcome_header hl ho hs.nonneg, if_neg (hready ▸ hone), if_pos hcompact, hkind]
    exact outcome_separate hl hmax he hs hu hdata
  | @wide h e _ hh he hready hpos h0 hs hu hdata =>
    obtain ⟨bytes, ho⟩ := hh
    have hwide : (w.layout.copy .string a bytes).pointer .stringWide = .ok h.wide :=
      ho.unsigned hl (by simp [StringHeader.members]) (.inl rfl)
    rw [outcome_header hl ho hpos, if_pos hready]
    exact outcome_notReady_wide hl hmax rfl hwide he h0 hs hu hdata _
  | @cached h e chars hh he hpos hform hc =>
    obtain ⟨bytes, ho⟩ := hh
    have hchars : ((chars.map Char.toNat).take w.options.maxStringLength.toNat).map
        Utf8.character = chars.take w.options.maxStringLength.toNat := by
      rw [← List.map_take, List.map_map]
      exact List.map_id'' Utf8.character_toNat _
    rw [outcome_header hl ho hpos, hchars]
    rcases hform with hready | ⟨hready, hcompact, h0⟩
    · rw [if_pos hready]
      exact outcome_notReady_cached hl hmax rfl he hc _
    · rw [if_neg (hready ▸ hone), if_pos hcompact]
      exact outcome_separate_cached hl hmax he h0 hc _ _

end

/-- Decoding gives the first characters of a string object, as many as the limit allows, in
whichever way the object keeps them. A unit that is no character becomes U+FFFD. -/
theorem decodeText_represents {σ : Type} {t : Target σ} (ht : t.Frozen m) (w : Walker)
    (id : LayoutId) (hid : w.layout = .builtin id)
    (hmax : 4 * w.options.maxStringLength.toNat ≤ Memory.maxRawRead.toNat) {units : List Nat}
    (h : m.Represents (.builtin id) a units) (s : σ) :
    ((w.decodeText a).run.run t s).1 =
      .ok (.ok (.ofCharacters
        ((units.take w.options.maxStringLength.toNat).map Utf8.character))) := by
  rw [← hid] at h
  have hl : w.layout.Usual := by
    rw [hid]
    exact Layout.builtin_usual id
  rw [(costs_decodeText a).run_frozen ht]
  exact outcome_represented hl hmax h

/-- A string without data, whose cached form is that of `aé€`. -/
def cachedMemory (id : LayoutId) : Regions :=
  [Region.of 0x1000 ((Layout.builtin id).emit 80
      [(.stringReady, 1), (.stringUtf8Length, 6), (.stringUtf8, 0x2000)] []),
    Region.of 0x2000 (Text.ofCharacters ['a', 'é', '€']).octets]

theorem cachedMemory_represents (id : LayoutId) :
    (cachedMemory id).still.Represents (.builtin id) 0x1000 [0x61, 0xE9, 0x20AC] := by
  have hdisjoint : (cachedMemory id).Disjoint := by
    unfold Regions.Disjoint
    cases id <;> decide +kernel
  change (cachedMemory id).still.Represents _ _ (['a', 'é', '€'].map Char.toNat)
  refine .cached (h := ⟨0, 0, 0, 0, 1, 0⟩) (e := ⟨6, 0x2000, 0, 0⟩)
    ⟨_, Regions.object hdisjoint (.head _) (by decide) ?_ ?_ ?_⟩
    ⟨_, Regions.object hdisjoint (.head _) (by decide) ?_ ?_ ?_⟩ (by decide)
    (.inr ⟨rfl, rfl, rfl⟩) ⟨rfl, Regions.holds _ hdisjoint (.tail _ (.head _)) (by decide) ?_⟩
  all_goals cases id <;> decide +kernel

/-- The limit of one character cuts the cached form inside its third one. -/
theorem decodeText_represents_cached :
    (∀ id, (cachedMemory id).still.Represents (.builtin id) 0x1000 [0x61, 0xE9, 0x20AC]) ∧
    ∀ id, (((⟨.builtin id, { Options.standard with maxStringLength := 1 }⟩ : Walker).decodeText
      0x1000).run.run (cachedMemory id).still.target ()).1 = .ok (.ok ⟨[0x61]⟩) := by
  refine ⟨cachedMemory_represents, fun id => ?_⟩
  rw [decodeText_represents (cachedMemory id).still.target_frozen
    ⟨.builtin id, { Options.standard with maxStringLength := 1 }⟩ id rfl (by cases id <;> decide)
    (cachedMemory_represents id) ()]
  rfl

end Walker
end StackPeek
