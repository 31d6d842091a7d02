import StackPeek.Memory.Region
import StackPeek.Proofs.Image.Objects

/-!
# Memory that consists of regions

A list of regions that do not overlap is memory at rest. Whatever piece of a region is asked
for, it is copied from that region, and what is copied in full is a piece of one region
(`regional`).
-/

namespace StackPeek

/-- A range that reads in full does not wrap, and all its pieces read in full with the same
bytes. -/
def StillMemory.Regional (m : StillMemory) : Prop :=
  ∀ a n bytes, a ≠ 0 → m a n = .copied bytes → n.toNat ≤ bytes.length →
    m.Holds a (bytes.take n.toNat)

/-- Where a range reads in full, its beginnings read in full with the same bytes. -/
def StillMemory.Prefixes (m : StillMemory) : Prop :=
  ∀ a n k bytes, k ≠ 0 → k ≤ n → m a n = .copied bytes → n.toNat ≤ bytes.length →
    ∃ shorter, m a k = .copied shorter ∧ k.toNat ≤ shorter.length ∧
      shorter.take k.toNat = bytes.take k.toNat

def Regions.still (m : Regions) : StillMemory := fun a n => m.read a n.toNat

namespace Region

/-- A region with these bytes that can be read freely. -/
def of (start : Address) (bytes : List UInt8) : Region := ⟨start, ⟨bytes.toArray⟩, 0, none⟩

/-- One of the regions ends where the other one starts, or before. -/
def Apart (r s : Region) : Prop :=
  r.start.toNat + r.contents.size ≤ s.start.toNat ∨ s.start.toNat + s.contents.size ≤ r.start.toNat

instance (r s : Region) : Decidable (r.Apart s) := inferInstanceAs (Decidable (_ ∨ _))

theorem not_contains_of_apart {r s : Region} {a : Address} (h : r.Apart s)
    (ha : r.contains a = true) : s.contains a = false := by
  unfold contains at *
  rw [Bool.and_eq_true, decide_eq_true_eq, decide_eq_true_eq, UInt64.le_iff_toNat_le] at ha
  rw [Bool.and_eq_false_iff, decide_eq_false_iff_not, decide_eq_false_iff_not,
    UInt64.le_iff_toNat_le]
  rcases h with h | h <;> omega

theorem slice_eq (r : Region) (offset count : Nat) :
    r.slice offset count = (r.contents.data.toList.drop offset).take count := by
  unfold slice
  rw [ByteArray.data_extract, Array.toList_extract, List.extract_eq_take_drop,
    Nat.add_sub_cancel_left]

theorem read_of (start : Address) (bytes : List UInt8) (a : Address) (n : Nat) :
    (of start bytes).read a n = .copied ((bytes.drop (a.toNat - start.toNat)).take n) := by
  have hslice : (of start bytes).slice (a.toNat - start.toNat) (min n n) =
      (bytes.drop (a.toNat - start.toNat)).take n := by
    rw [Nat.min_self]
    exact slice_eq _ _ _
  exact congrArg Reply.copied hslice

theorem read_prefix {r : Region} {a : Address} {n k : Nat} {bytes : List UInt8} (hk : k ≤ n)
    (h : r.read a n = .copied bytes) (hlen : n ≤ bytes.length) :
    r.read a k = .copied (bytes.take k) := by
  unfold read at *
  split at h
  · cases h
  rename_i he
  simp only [slice_eq] at h ⊢
  cases h
  rw [List.length_take] at hlen
  -- The region does not cut the longer read short, so it does not cut the shorter one.
  have hlimit : min k (r.limit.getD k) = k := by
    cases hl : r.limit with
    | none => exact Nat.min_self k
    | some limit =>
      simp only [hl, Option.getD_some] at hlen ⊢
      omega
  rw [if_neg he, hlimit, List.take_take, Nat.min_eq_left (by omega)]

end Region

namespace Regions

/-- Objects with their addresses, all of which can be read freely. -/
def ofObjects (objects : List (Address × List UInt8)) : Regions :=
  objects.map fun p => Region.of p.1 p.2

def Disjoint (m : Regions) : Prop := m.Pairwise Region.Apart

theorem find?_of_mem {m : Regions} (h : m.Disjoint) {r : Region} (hr : r ∈ m) {a : Address}
    (ha : r.contains a = true) : m.find? a = some r := by
  induction m with
  | nil => cases hr
  | cons s rest ih =>
    obtain ⟨hs, hrest⟩ := List.pairwise_cons.mp h
    unfold find?
    rcases List.mem_cons.mp hr with rfl | hr
    · rw [List.find?_cons, ha]
    · have hns : s.contains a = false := by
        cases hc : s.contains a with
        | false => rfl
        | true =>
          rw [Region.not_contains_of_apart (hs r hr) hc] at ha
          cases ha
      rw [List.find?_cons, hns]
      exact ih hrest hr

theorem still_ofObjects (objects : List (Address × List UInt8)) :
    (ofObjects objects).still = fun a n =>
      match objects.find? fun p => p.1 ≤ a && a.toNat < p.1.toNat + p.2.length with
      | none => .failed Errno.fault
      | some (start, bytes) => .copied ((bytes.drop (a.toNat - start.toNat)).take n.toNat) := by
  funext a n
  have hfind : (ofObjects objects).find? a =
      (objects.find? fun p => p.1 ≤ a && a.toNat < p.1.toNat + p.2.length).map
        fun p => Region.of p.1 p.2 := List.find?_map ..
  unfold still read
  rw [hfind]
  cases objects.find? fun p => p.1 ≤ a && a.toNat < p.1.toNat + p.2.length with
  | none => rfl
  | some p => exact Region.read_of p.1 p.2 a n.toNat

theorem holds (m : Regions) (h : m.Disjoint) {start : Address} {bytes : List UInt8}
    (hr : Region.of start bytes ∈ m) (h0 : start ≠ 0)
    (hf : start.toNat + bytes.length ≤ UInt64.size) : m.still.Holds start bytes where
  nonnull := h0
  fits := hf
  copied offset n hn hle := by
    have hf : start.toNat + bytes.length ≤ 18446744073709551616 := hf
    have hadd : (start + offset).toNat = start.toNat + offset.toNat := by
      rw [UInt64.toNat_add, Nat.mod_eq_of_lt (by omega)]
    have ha : (Region.of start bytes).contains (start + offset) = true := by
      unfold Region.contains
      rw [Bool.and_eq_true, decide_eq_true_eq, decide_eq_true_eq, UInt64.le_iff_toNat_le, hadd]
      have hsize : (Region.of start bytes).contents.size = bytes.length := rfl
      have hstart : (Region.of start bytes).start = start := rfl
      rw [hsize, hstart]
      omega
    unfold still read
    rw [find?_of_mem h hr ha]
    simp only [Region.read_of, hadd, Nat.add_sub_cancel_left]

/-- Whatever the regions are, and however little some of them hand over at a time. -/
theorem prefixes (m : Regions) : m.still.Prefixes := by
  intro a n k bytes _ hk hread hlen
  have hkn := UInt64.le_iff_toNat_le.mp hk
  unfold still read at hread
  split at hread
  · cases hread
  rename_i r hfind
  refine ⟨bytes.take k.toNat, ?_, ?_, ?_⟩
  · unfold still read
    rw [hfind]
    exact Region.read_prefix hkn hread hlen
  · rw [List.length_take]
    omega
  · rw [List.take_take, Nat.min_self]

theorem regional {m : Regions} (h : m.Disjoint)
    (hm : ∀ r ∈ m, ∃ start bytes, r = Region.of start bytes ∧ start ≠ 0 ∧
      start.toNat + bytes.length ≤ UInt64.size) : m.still.Regional := by
  intro a n copied _ hread hlen
  unfold still read at hread
  split at hread
  · cases hread
  rename_i r hfind
  unfold find? at hfind
  have hr : r ∈ m := List.mem_of_find?_eq_some hfind
  obtain ⟨start, bytes, rfl, h0, hfits⟩ := hm r hr
  have ha : (Region.of start bytes).contains a = true :=
    List.find?_some (p := fun r : Region => r.contains a) hfind
  unfold Region.contains at ha
  rw [Bool.and_eq_true, decide_eq_true_eq, decide_eq_true_eq] at ha
  obtain ⟨hle, hlt⟩ := ha
  have hsize : (Region.of start bytes).contents.size = bytes.length := rfl
  have hstart : (Region.of start bytes).start = start := rfl
  rw [hstart] at hle hlt
  have hsub : (a - start).toNat = a.toNat - start.toNat := UInt64.toNat_sub_of_le _ _ hle
  have hback : start + (a - start) = a := by
    rw [UInt64.add_comm, UInt64.sub_add_cancel]
  have hnat := UInt64.le_iff_toNat_le.mp hle
  rw [Region.read_of, ← hsub] at hread
  cases hread
  rw [List.length_take, List.length_drop] at hlen
  have hpiece : m.still.Holds (start + (a - start))
      ((bytes.drop (a - start).toNat).take n.toNat) :=
    (m.holds h hr h0 hfits).piece (by omega) (by omega)
  rwa [hback, ← Nat.min_self n.toNat, ← List.take_take] at hpiece

theorem object {m : Regions} (h : m.Disjoint) {l : Layout} {kind : StructKind} {start : Address}
    {members : List (Field × UInt64)} {bytes : List UInt8} (hr : Region.of start bytes ∈ m)
    (h0 : start ≠ 0) (hf : start.toNat + bytes.length ≤ UInt64.size)
    (hs : (l.span kind).stop.toNat ≤ bytes.length)
    (hm : ∀ p ∈ members, p.1.kind = kind ∧ l.Stores bytes p.1 p.2) :
    m.still.Object l kind start members bytes where
  holds := m.holds h hr h0 hf
  size := hs
  kinds p hp := (hm p hp).1
  stores p hp := (hm p hp).2

end Regions
end StackPeek
