import Mathlib.Data.List.Pairwise
import StackPeek.Proofs.Member.Bits
import StackPeek.Proofs.Memory.Regions

/-!
# Memory after a store

`StillMemory.store` is memory in which a value has been stored in a member: where the bits of the
member are copied, the low bits of the value are copied, and everything else is answered as before.
Reading sees just that (`Memory.outcome_fetchAll_store`). In memory that consists of regions it is
what a write of the bytes of the member does, each with the bits of the value in it
(`Regions.still_write`), or of the low bytes of the value if all bits belong to the member
(`Regions.still_write_whole`).
-/

namespace StackPeek

namespace StillMemory

/-- The memory after a value has been stored in the member at an address. -/
def store (m : StillMemory) (a : Address) (spec : FieldSpec) (v : UInt64) : StillMemory :=
  fun b n =>
    match m b n with
    | .failed errno => .failed errno
    | .copied bytes => .copied (spec.put v a.toNat b.toNat bytes)

/-- All bytes of the member of the structure at `base` are mapped. -/
structure Mapped (m : StillMemory) (base : Address) (spec : FieldSpec) : Prop where
  nonnull : base ≠ 0
  address : base.toNat + spec.offset.toNat < UInt64.size
  copied : ∃ bytes, m (base + spec.offset) spec.width.toUInt64 = .copied bytes ∧
    spec.width.toNat ≤ bytes.length

theorem Holds.mapped {m : StillMemory} {base : Address} {spec : FieldSpec} {bytes : List UInt8}
    (h : m.Holds base bytes) (hpos : 0 < spec.width.toNat)
    (hin : spec.offset.toNat + spec.width.toNat ≤ bytes.length) : m.Mapped base spec := by
  have hfits := h.fits
  have hwidth : spec.width.toUInt64.toNat = spec.width.toNat := UInt32.toNat_toUInt64 _
  refine ⟨h.nonnull, by omega, _, h.copied spec.offset spec.width.toUInt64 (by omega) (by omega), ?_⟩
  rw [List.length_take, List.length_drop]
  omega

namespace Mapped
variable {m : StillMemory} {base : Address} {spec : FieldSpec} (h : m.Mapped base spec)
include h

theorem plus?_eq : base.plus? spec.offset = .ok (base + spec.offset) :=
  Address.plus?_of_lt h.nonnull h.address

theorem add_ne_zero : base + spec.offset ≠ 0 := by
  have hplus := h.plus?_eq
  rcases Address.plus?_cases h.nonnull spec.offset with he | ⟨a, ha, hne⟩
  · rw [hplus] at he
    cases he
  · rw [hplus] at ha
    cases ha
    exact hne

theorem outcome_fetchAll (hshape : spec.wellShaped = true) :
    ∃ part, part.length = spec.width.toNat ∧
      (Memory.fetchAll (base + spec.offset) spec.width.toUInt64).outcome m = .ok (.ok part) := by
  obtain ⟨bytes, hreply, hlen⟩ := h.copied
  obtain ⟨hpos, h8⟩ := FieldSpec.width_of_wellShaped hshape
  have hwidth : spec.width.toUInt64.toNat = spec.width.toNat := UInt32.toNat_toUInt64 _
  have hn : spec.width.toUInt64 ≠ 0 := by
    intro hzero
    have hnat := UInt32.lt_iff_toNat_lt.mp hpos
    rw [← hwidth, hzero] at hnat
    exact Nat.lt_irrefl 0 hnat
  have hmax : spec.width.toUInt64 ≤ Memory.maxRawRead := by
    have hnat := UInt32.le_iff_toNat_le.mp h8
    rw [UInt64.le_iff_toNat_le, hwidth]
    exact Nat.le_trans hnat (show 8 ≤ 4194304 by omega)
  refine ⟨bytes.take spec.width.toNat, ?_, ?_⟩
  · rw [List.length_take]
    omega
  · rw [Memory.outcome_fetchAll_copied hmax h.add_ne_zero hn hreply (by omega), hwidth]

end Mapped
end StillMemory

/-- Reading bytes gives the bytes from before with the value written over them. -/
theorem Memory.outcome_fetchAll_store {m : StillMemory} {a : Address} {spec : FieldSpec}
    {v : UInt64} (b : Address) (n : UInt64) :
    (fetchAll b n).outcome (m.store a spec v) =
      ((fetchAll b n).outcome m).map (.map (spec.put v a.toNat b.toNat)) := by
  by_cases hmax : maxRawRead < n
  · unfold fetchAll
    rw [if_pos hmax]
    rfl
  by_cases h0 : b = 0
  · unfold fetchAll
    rw [if_neg hmax, if_pos h0]
    rfl
  by_cases hn : n = 0
  · rw [hn, outcome_fetchAll_zero h0, outcome_fetchAll_zero h0]
    rfl
  rw [outcome_fetchAll_reply (UInt64.not_lt.mp hmax) h0 hn,
    outcome_fetchAll_reply (UInt64.not_lt.mp hmax) h0 hn]
  unfold StillMemory.store
  cases m b n with
  | failed errno =>
    simp only [accept]
    split <;> rfl
  | copied bytes =>
    simp only [accept, FieldSpec.length_put]
    split
    · rfl
    · rw [FieldSpec.take_put]
      rfl

namespace Region

instance : Std.Symm Apart := ⟨fun _ _ h => h.symm⟩

theorem overwrite_cons (contents : ByteArray) (offset : Nat) (b : UInt8) (rest : List UInt8) :
    ∃ next : ByteArray, next.data.toList = contents.data.toList.set offset b ∧
      overwrite contents offset (b :: rest) = overwrite next (offset + 1) rest := by
  refine ⟨if h : offset < contents.size then contents.set offset b h else contents, ?_, rfl⟩
  split
  · rw [ByteArray.data_set, Array.toList_set]
  · rename_i hout
    exact (List.set_eq_of_length_le (Nat.not_lt.mp hout)).symm

theorem toList_overwrite (contents : ByteArray) (offset : Nat) (bytes : List UInt8) :
    (overwrite contents offset bytes).data.toList =
      contents.data.toList.mapIdx fun i old =>
        if offset ≤ i then bytes.getD (i - offset) old else old := by
  induction bytes generalizing contents offset with
  | nil =>
    apply List.ext_getElem?
    intro i
    rw [List.getElem?_mapIdx]
    simp only [List.getD_nil, ite_self, Option.map_id']
    rfl
  | cons b rest ih =>
    obtain ⟨next, hnext, hstep⟩ := overwrite_cons contents offset b rest
    rw [hstep, ih, hnext]
    apply List.ext_getElem?
    intro i
    rw [List.getElem?_mapIdx, List.getElem?_mapIdx, List.getElem?_set]
    rcases Nat.lt_trichotomy offset i with hlt | rfl | hgt
    · obtain ⟨k, rfl⟩ := Nat.exists_eq_add_of_lt hlt
      have hk : offset + k + 1 - offset = k + 1 := by omega
      have hk' : offset + k + 1 - (offset + 1) = k := by omega
      rw [if_neg (by omega)]
      simp only [if_pos (show offset + 1 ≤ offset + k + 1 by omega),
        if_pos (show offset ≤ offset + k + 1 by omega), hk, hk', List.getD_cons_succ]
    · rw [if_pos rfl]
      simp only [if_neg (show ¬ offset + 1 ≤ offset by omega), Nat.le_refl, if_true, Nat.sub_self,
        List.getD_cons_zero, Option.map_id']
      split
      · rename_i hin
        rw [List.getElem?_eq_getElem hin]
        rfl
      · rename_i hout
        rw [List.getElem?_eq_none (Nat.not_lt.mp hout)]
        rfl
    · rw [if_neg (by omega)]
      simp only [if_neg (show ¬ offset + 1 ≤ i by omega), if_neg (show ¬ offset ≤ i by omega)]

theorem size_overwrite (contents : ByteArray) (offset : Nat) (bytes : List UInt8) :
    (overwrite contents offset bytes).size = contents.size := by
  have hlength := congrArg List.length (toList_overwrite contents offset bytes)
  rwa [List.length_mapIdx] at hlength

def written (a : Address) (bytes : List UInt8) (r : Region) : Region :=
  if r.contains a then
    { r with contents := overwrite r.contents (a.toNat - r.start.toNat) bytes }
  else r

theorem contains_iff {r : Region} {a : Address} :
    r.contains a = true ↔
      r.start.toNat ≤ a.toNat ∧ a.toNat < r.start.toNat + r.contents.size := by
  unfold contains
  rw [Bool.and_eq_true, decide_eq_true_eq, decide_eq_true_eq, UInt64.le_iff_toNat_le]

theorem contains_written (r : Region) (a b : Address) (bytes : List UInt8) :
    (r.written a bytes).contains b = r.contains b := by
  unfold written
  split
  · unfold contains
    rw [size_overwrite]
  · rfl

section Member
variable {r s : Region} {a b : Address} {spec : FieldSpec} {v : UInt64}

/-- The bytes of the member in the region that holds it, with the bits of the value in them. -/
def patched (r : Region) (a : Address) (spec : FieldSpec) (v : UInt64) : List UInt8 :=
  (r.slice (a.toNat - r.start.toNat) spec.width.toNat).mapIdx fun i old => spec.putByte v i old

def Encloses (r : Region) (a : Address) (spec : FieldSpec) : Prop :=
  r.contains a = true ∧ a.toNat + spec.width.toNat ≤ r.start.toNat + r.contents.size

/-- If all bits belong to the member, the low bytes of the value are written, whatever was there
before. -/
theorem patched_whole (h : r.Encloses a spec) (hr : spec.rule ≠ .bitFlags) :
    r.patched a spec v = Bytes.ofNat spec.width.toNat v.toNat := by
  obtain ⟨hstart, -⟩ := contains_iff.mp h.1
  have hstop := h.2
  have hsize : r.contents.data.toList.length = r.contents.size := rfl
  unfold patched
  rw [slice_eq]
  apply List.ext_getElem?
  intro i
  rw [List.getElem?_mapIdx, List.getElem?_take, List.getElem?_drop, Bytes.getElem?_ofNat]
  by_cases hi : i < spec.width.toNat
  · rw [if_pos hi, if_pos hi, List.getElem?_eq_getElem (by omega), Option.map_some,
      FieldSpec.putByte_whole hr hi]
  · rw [if_neg hi, if_neg hi]
    rfl

theorem put_piece {old new : List UInt8} {offset : Nat} (n : Nat)
    (h : ∀ i, new[offset + i]? = old[offset + i]?.map fun byte =>
      if a.toNat ≤ b.toNat + i then spec.putByte v (b.toNat + i - a.toNat) byte else byte) :
    (new.drop offset).take n = spec.put v a.toNat b.toNat ((old.drop offset).take n) := by
  unfold FieldSpec.put
  apply List.ext_getElem?
  intro i
  rw [List.getElem?_mapIdx, List.getElem?_take, List.getElem?_take, List.getElem?_drop,
    List.getElem?_drop, h]
  by_cases hi : i < n
  · rw [if_pos hi, if_pos hi]
  · rw [if_neg hi, if_neg hi]
    rfl

theorem slice_written (hshape : spec.wellShaped = true) (ha : r.contains a = true)
    (hb : r.contains b = true) (n : Nat) :
    (r.written a (r.patched a spec v)).slice (b.toNat - r.start.toNat) n =
      spec.put v a.toNat b.toNat (r.slice (b.toNat - r.start.toNat) n) := by
  obtain ⟨hstart, -⟩ := contains_iff.mp ha
  obtain ⟨hstart', -⟩ := contains_iff.mp hb
  unfold written
  rw [if_pos ha, slice_eq, slice_eq]
  apply put_piece
  intro i
  rw [toList_overwrite, List.getElem?_mapIdx]
  cases hget : r.contents.data.toList[b.toNat - r.start.toNat + i]? with
  | none => rfl
  | some old =>
    rw [Option.map_some, Option.map_some]
    by_cases hle : a.toNat ≤ b.toNat + i
    · have hplace : b.toNat - r.start.toNat + i - (a.toNat - r.start.toNat) =
          b.toNat + i - a.toNat := by omega
      have hback : a.toNat - r.start.toNat + (b.toNat + i - a.toNat) =
          b.toNat - r.start.toNat + i := by omega
      rw [if_pos (by omega), if_pos hle, hplace, patched, slice_eq, List.getD_eq_getElem?_getD,
        List.getElem?_mapIdx, List.getElem?_take, List.getElem?_drop, hback, hget]
      by_cases hin : b.toNat + i - a.toNat < spec.width.toNat
      · rw [if_pos hin]
        rfl
      · rw [if_neg hin, FieldSpec.putByte_beyond hshape (Nat.not_lt.mp hin)]
        rfl
    · rw [if_neg (by omega), if_neg hle]

theorem put_slice_apart (hshape : spec.wellShaped = true) (ha : r.Encloses a spec)
    (hs : r.Apart s) (hb : s.contains b = true) (n : Nat) :
    s.slice (b.toNat - s.start.toNat) n =
      spec.put v a.toNat b.toNat (s.slice (b.toNat - s.start.toNat) n) := by
  obtain ⟨ha, hstop⟩ := ha
  obtain ⟨hstart, -⟩ := contains_iff.mp ha
  obtain ⟨hstart', -⟩ := contains_iff.mp hb
  have hsize : s.contents.data.toList.length = s.contents.size := rfl
  rw [slice_eq]
  apply put_piece
  intro i
  cases hget : s.contents.data.toList[b.toNat - s.start.toNat + i]? with
  | none => rfl
  | some old =>
    obtain ⟨hin, -⟩ := List.getElem?_eq_some_iff.mp hget
    rw [Option.map_some]
    split
    · rename_i hle
      rw [FieldSpec.putByte_beyond hshape]
      rcases hs with hs | hs <;> omega
    · rfl

/-- How much is copied, and whether it is, does not depend on the bytes. -/
theorem read_of_slice (f : List UInt8 → List UInt8) (contents : ByteArray)
    (h : ∀ n, { s with contents : Region }.slice (b.toNat - s.start.toNat) n =
      f (s.slice (b.toNat - s.start.toNat) n)) (n : Nat) :
    { s with contents : Region }.read b n = match s.read b n with
      | .failed errno => .failed errno
      | .copied bytes => .copied (f bytes) := by
  unfold read
  simp only [h]
  split <;> rfl

theorem read_written {m : Regions} (hm : m.Disjoint) (hr : r ∈ m) (hs : s ∈ m)
    (hshape : spec.wellShaped = true) (ha : r.Encloses a spec) (hb : s.contains b = true)
    (n : Nat) :
    (s.written a (r.patched a spec v)).read b n = match s.read b n with
      | .failed errno => .failed errno
      | .copied bytes => .copied (spec.put v a.toNat b.toNat bytes) := by
  by_cases heq : r = s
  · obtain rfl := heq
    have hslice := slice_written (v := v) hshape ha.1 hb
    unfold written at *
    rw [if_pos ha.1] at *
    exact read_of_slice _ _ hslice n
  · have hapart := hm.forall hr hs heq
    have hout := not_contains_of_apart hapart ha.1
    unfold written
    rw [if_neg (by rw [hout]; exact Bool.false_ne_true)]
    exact read_of_slice _ s.contents (put_slice_apart hshape ha hapart hb) n

end Member
end Region

/-- Writing the bytes of a member with the bits of a value in them stores the value. -/
theorem Regions.still_write {m : Regions} (h : m.Disjoint) {r : Region} (hr : r ∈ m) {a : Address}
    {spec : FieldSpec} (hshape : spec.wellShaped = true) (ha : r.Encloses a spec) (v : UInt64) :
    (m.write a (r.patched a spec v)).still = m.still.store a spec v := by
  funext b n
  have hfind : (m.write a (r.patched a spec v)).find? b =
      (m.find? b).map (Region.written a (r.patched a spec v)) := by
    have hmap := List.find?_map (p := fun s : Region => s.contains b)
      (f := Region.written a (r.patched a spec v)) (l := m)
    have hsame : (fun s : Region => s.contains b) ∘ Region.written a (r.patched a spec v) =
        fun s => s.contains b := funext fun s => s.contains_written a b _
    rwa [hsame] at hmap
  unfold still read StillMemory.store
  simp only [hfind]
  cases hs : m.find? b with
  | none => rfl
  | some s =>
    have hb : s.contains b = true := List.find?_some (p := fun s : Region => s.contains b) hs
    exact Region.read_written h hr (List.mem_of_find?_eq_some hs) hshape ha hb n.toNat

/-- Writing the low bytes of a value over a member that is no run of bits stores the value. -/
theorem Regions.still_write_whole {m : Regions} (h : m.Disjoint) {r : Region} (hr : r ∈ m)
    {a : Address} {spec : FieldSpec} (hshape : spec.wellShaped = true) (ha : r.Encloses a spec)
    (hrule : spec.rule ≠ .bitFlags) (v : UInt64) :
    (m.write a (Bytes.ofNat spec.width.toNat v.toNat)).still = m.still.store a spec v := by
  rw [← Region.patched_whole ha hrule]
  exact still_write h hr hshape ha v

end StackPeek
