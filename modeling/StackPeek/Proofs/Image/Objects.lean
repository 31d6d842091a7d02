import StackPeek.LineTable.Lookup
import StackPeek.Proofs.Image.Stored
import StackPeek.Text.Object

/-!
# Strings and bytes objects in memory

The objects that a program of some build keeps in memory, and what decoding them gives. A
`StringAt` is a compact ASCII string, the representation of names in programs; a `BytesAt` is
a bytes object.
-/

namespace StackPeek

/-- A structure at `a` with these bytes, whose members hold the given values. -/
structure StillMemory.Object (m : StillMemory) (l : Layout) (kind : StructKind) (a : Address)
    (members : List (Field × UInt64)) (bytes : List UInt8) : Prop where
  holds : m.Holds a bytes
  size : (l.span kind).stop.toNat ≤ bytes.length
  kinds : ∀ p ∈ members, p.1.kind = kind
  stores : ∀ p ∈ members, l.Stores bytes p.1 p.2

structure StillMemory.StringAt (m : StillMemory) (l : Layout) (a : Address) (text : Text) :
    Prop where
  ascii : ∀ b ∈ text.octets, b < 0x80
  stored : ∃ bytes,
    m.Object l .string a
      [(.stringLength, UInt64.ofNat text.octets.length), (.stringKind, 1), (.stringCompact, 1),
        (.stringAscii, 1), (.stringReady, 1)] bytes ∧
    l.StoresInline bytes .stringAsciiData text.octets

def StillMemory.BytesAt (m : StillMemory) (l : Layout) (a : Address) (data : List UInt8) : Prop :=
  ∃ bytes, m.Object l .bytes a [(.bytesSize, UInt64.ofNat data.length)] bytes ∧
    l.StoresInline bytes .bytesData data

namespace StillMemory.Object
variable {m : StillMemory} {w : Walker} {kind : StructKind} {a : Address}
  {members : List (Field × UInt64)} {bytes : List UInt8} {f : Field} {v : UInt64}

theorem outcome_readStruct (h : m.Object w.layout kind a members bytes) (hl : w.layout.Usual)
    (hm : (f, v) ∈ members) (hf : f.shape ≠ .inlined) :
    (w.readStruct a kind).outcome m = .ok (.ok (w.layout.copy kind a bytes)) := by
  have hk : f.kind = kind := h.kinds _ hm
  subst hk
  exact Walker.outcome_readStruct hl h.holds (h.stores _ hm) hf h.size

theorem unsigned (h : m.Object w.layout kind a members bytes) (hl : w.layout.Usual)
    (hm : (f, v) ∈ members) (hf : f.shape = .word ∨ f.shape = .text ∨ f.shape = .flags) :
    (w.layout.copy kind a bytes).unsigned f = .ok v := by
  have hk : f.kind = kind := h.kinds _ hm
  subst hk
  exact hl.unsigned_copy (h.stores _ hm) h.size a hf

theorem signed_int64 (h : m.Object w.layout kind a members bytes) (hl : w.layout.Usual)
    (hm : (f, v) ∈ members) (hf : f.shape = .int64) :
    (w.layout.copy kind a bytes).signed f = .ok v.toInt64 := by
  have hk : f.kind = kind := h.kinds _ hm
  subst hk
  exact hl.signed_copy_int64 (h.stores _ hm) h.size a hf

theorem signed_int32 (h : m.Object w.layout kind a members bytes) (hl : w.layout.Usual) {i : Int32}
    (hm : (f, i.toUInt32.toUInt64) ∈ members) (hf : f.shape = .int32) :
    (w.layout.copy kind a bytes).signed f = .ok i.toInt64 := by
  have hk : f.kind = kind := h.kinds _ hm
  subst hk
  exact hl.signed_copy_int32 (h.stores _ hm) h.size a hf rfl

theorem outcome_inline (h : m.Object w.layout kind a members bytes) {data : List UInt8}
    (hd : w.layout.StoresInline bytes f data) (hm : data.length ≤ Memory.maxRawRead.toNat) :
    ∃ start, w.fieldAddress a f = .ok start ∧
      (Memory.fetchAll start (UInt64.ofNat data.length)).outcome m = .ok (.ok data) := by
  obtain ⟨spec, hs, hlt, hdata⟩ := hd
  have hmax : Memory.maxRawRead.toNat = 4194304 := rfl
  have hn : (UInt64.ofNat data.length).toNat = data.length := by
    rw [UInt64.toNat_ofNat']
    omega
  refine ⟨a + spec.offset, ?_, ?_⟩
  · unfold Walker.fieldAddress
    rw [hs]
    exact h.holds.plus? (by omega)
  · have hle : UInt64.ofNat data.length ≤ Memory.maxRawRead := by
      rw [UInt64.le_iff_toNat_le]
      omega
    rw [h.holds.outcome_fetchAll (by omega) (by omega) hle, hn, hdata]

end StillMemory.Object

theorem Text.ofUnits_ascii {octets : List UInt8} (h : ∀ b ∈ octets, b < 0x80) :
    Text.ofUnits (octets.map UInt8.toNat) = ⟨octets⟩ := by
  refine congrArg Text.mk ?_
  induction octets with
  | nil => rfl
  | cons b rest ih =>
    have hb : b.toNat < 0x80 := UInt8.lt_iff_toNat_lt.mp (h b List.mem_cons_self)
    have he : Utf8.encode b.toNat = [b] := by
      have hscalar : Utf8.scalar b.toNat = b.toNat := by
        unfold Utf8.scalar Utf8.isScalar
        rw [if_pos]
        rw [decide_eq_true (by omega), Bool.true_or]
      unfold Utf8.encode Utf8.sequence
      rw [hscalar, if_pos hb, UInt8.ofNat_toNat]
    have hr := ih fun c hc => h c (List.mem_cons_of_mem b hc)
    unfold Utf8.encodeAll at hr ⊢
    rw [List.map_cons, List.flatMap_cons, he, hr]
    rfl

namespace Walker
variable {w : Walker} {m : StillMemory} {a : Address}

theorem size_word {n : Nat} (h : n ≤ Memory.maxRawRead.toNat) :
    ¬ (UInt64.ofNat n).toInt64 < 0 ∧ (UInt64.ofNat n).toInt64.toUInt64 = UInt64.ofNat n := by
  have hmax : Memory.maxRawRead.toNat = 4194304 := rfl
  refine ⟨?_, rfl⟩
  rw [UInt64.toInt64_ofNat', Int64.lt_iff_toInt_lt, Int64.toInt_ofNat_of_lt (by omega),
    Int64.toInt_zero]
  omega

theorem outcome_cutLength {length : UInt64} (h : length ≤ w.options.maxStringLength) :
    (w.cutLength a length).outcome m = .ok (.ok length) := by
  unfold cutLength
  simp only [if_neg (UInt64.not_lt.mpr h)]
  rfl

theorem outcome_decodeUnits {start : Address} {octets : List UInt8} (h : ∀ b ∈ octets, b < 0x80)
    (hf : (Memory.fetchAll start (UInt64.ofNat octets.length)).outcome m = .ok (.ok octets)) :
    (decodeUnits start (UInt64.ofNat octets.length) 1).outcome m = .ok (.ok ⟨octets⟩) := by
  have hcode : UnitWidth.ofCode? 1 = some .one := rfl
  unfold decodeUnits
  rw [hcode]
  simp only [UnitWidth.bytes, UInt64.mul_one]
  rw [Attempt.outcome_bind_ok hf]
  simp only [UnitWidth.split, Text.ofUnits_ascii h]
  rfl

/-- What the members of its header make of a string object. -/
theorem outcome_decodeText_header (hl : w.layout.Usual) {members : List (Field × UInt64)}
    {bytes : List UInt8} (ho : m.Object w.layout .string a members bytes)
    (length kind compact ascii ready : UInt64) (hlength : (.stringLength, length) ∈ members)
    (hkind : (.stringKind, kind) ∈ members) (hcompact : (.stringCompact, compact) ∈ members)
    (hascii : (.stringAscii, ascii) ∈ members) (hready : (.stringReady, ready) ∈ members)
    (hpos : ¬ length.toInt64 < 0) :
    (w.decodeText a).outcome m =
      (w.cutLength a length >>= fun count =>
        if ready = 0 then w.decodeNotReady (w.layout.copy .string a bytes) count
        else if compact = 0 then w.decodeSeparate a count kind
        else if ascii ≠ 0 then do
          let data ← w.fieldAddress a .stringAsciiData
          decodeUnits data count 1
        else do
          let data ← w.fieldAddress a .stringCompactData
          decodeUnits data count kind).outcome m := by
  have flag : ∀ {f : Field} {v : UInt64}, (f, v) ∈ members → f.shape = .flags →
      (w.layout.copy .string a bytes).unsigned f = .ok v :=
    fun hm hf => ho.unsigned hl hm (.inr (.inr hf))
  unfold decodeText
  rw [if_neg ho.holds.nonnull, Attempt.outcome_bind_ok (ho.outcome_readStruct hl hkind nofun),
    flag hkind rfl, Attempt.outcome_ok_bind, flag hcompact rfl, Attempt.outcome_ok_bind,
    flag hascii rfl, Attempt.outcome_ok_bind, flag hready rfl, Attempt.outcome_ok_bind,
    ho.signed_int64 hl hlength rfl, Attempt.outcome_ok_bind, if_neg hpos]
  rfl

theorem outcome_decodeText (hl : w.layout.Usual) {text : Text} (h : m.StringAt w.layout a text)
    (hlimit : text.octets.length ≤ w.options.maxStringLength.toNat)
    (hmax : text.octets.length ≤ Memory.maxRawRead.toNat) :
    (w.decodeText a).outcome m = .ok (.ok text) := by
  obtain ⟨bytes, ho, hdata⟩ := h.stored
  obtain ⟨hpos, -⟩ := size_word hmax
  obtain ⟨start, hstart, hfetch⟩ := ho.outcome_inline hdata hmax
  have hle : UInt64.ofNat text.octets.length ≤ w.options.maxStringLength := by
    rw [UInt64.le_iff_toNat_le, UInt64.toNat_ofNat']
    exact Nat.le_trans (Nat.mod_le _ _) hlimit
  rw [outcome_decodeText_header hl ho (UInt64.ofNat text.octets.length) 1 1 1 1 (by simp) (by simp)
      (by simp) (by simp) (by simp) hpos,
    Attempt.outcome_bind_ok (outcome_cutLength hle)]
  -- The string is ready, compact and ASCII.
  rw [if_neg (by decide), if_neg (by decide), if_pos (by decide), hstart, Attempt.outcome_ok_bind,
    outcome_decodeUnits h.ascii hfetch]

theorem outcome_decodeBytes (hl : w.layout.Usual) {data : List UInt8} {limit : UInt64}
    (h : m.BytesAt w.layout a data) (hlimit : data.length ≤ limit.toNat)
    (hmax : data.length ≤ Memory.maxRawRead.toNat) :
    (w.decodeBytes a limit).outcome m = .ok (.ok data) := by
  obtain ⟨bytes, ho, hdata⟩ := h
  have hread := ho.outcome_readStruct hl (f := .bytesSize)
    (v := UInt64.ofNat data.length) (by simp) nofun
  have hsize := ho.signed_int64 hl (f := .bytesSize)
    (v := UInt64.ofNat data.length) (by simp) rfl
  obtain ⟨hpos, hword⟩ := size_word hmax
  obtain ⟨start, hstart, hfetch⟩ := ho.outcome_inline hdata hmax
  have hle : ¬ limit < UInt64.ofNat data.length := by
    rw [UInt64.not_lt, UInt64.le_iff_toNat_le, UInt64.toNat_ofNat']
    exact Nat.le_trans (Nat.mod_le _ _) hlimit
  unfold decodeBytes
  rw [if_neg ho.holds.nonnull, Attempt.outcome_bind_ok hread, hsize, Attempt.outcome_ok_bind,
    if_neg hpos, hword, if_neg hle, hstart, Attempt.outcome_ok_bind, hfetch]

end Walker
end StackPeek
