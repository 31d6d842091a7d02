import StackPeek.LineTable.Lookup
import StackPeek.Proofs.LineTable.Ranges

/-!
# The ranges that pairs produce

The published reading of a table of ranges goes through all pairs first (`produced`), and only then
looks for a position among the ranges that came out. A lookup does both in one pass, remembers one
line and stops at the first range behind the position. Both give the same line for any bytes
(`lookup_produced`), since the ranges come out in order (`start_le_of_mem_produced`).
-/

namespace StackPeek.LineTable

/-- The ranges that pairs produce, the first of which starts at `start`, where the line so far is
`line`. A pair without a line step only moves on, and the step `-128` produces nothing. Any other
step moves the line, and a range comes out if it is not empty. -/
def produced (start : Nat) (line : Int) : List UInt8 → List Range
  | move :: delta :: rest =>
    let stop := start + move.toNat
    if signedStep delta = 0 then produced stop line rest
    else if signedStep delta = -128 then produced stop line rest
    else if start < stop then
      ⟨start, stop, line + signedStep delta⟩ :: produced stop (line + signedStep delta) rest
    else produced stop (line + signedStep delta) rest
  | _ => []

/-- What ranges say about `offset`: the line of the one that holds it, else of the last one that
starts at or before it, else the line `first` in front of all ranges. -/
structure Tells (offset : Nat) (first : Int) (rs : List Range) (line : Int) : Prop where
  inside : ∀ r ∈ rs, r.start ≤ offset → offset < r.stop → line = r.line
  behind : (∀ r ∈ rs, r.start ≤ offset → r.stop ≤ offset) →
    ∀ r, (rs.filter (·.start ≤ offset)).getLast? = some r → line = r.line
  before : (∀ r ∈ rs, offset < r.start) → line = first

section
variable {offset start : Nat} {first line : Int} {r : Range} {rs : List Range}

theorem start_le_of_mem_produced {bytes : List UInt8} (h : r ∈ produced start line bytes) :
    start ≤ r.start := by
  fun_induction produced start line bytes with
  | case1 start line move delta rest stop hzero ih =>
    exact Nat.le_trans (Nat.le_add_right _ _) (ih h)
  | case2 start line move delta rest stop hzero hnone ih =>
    exact Nat.le_trans (Nat.le_add_right _ _) (ih h)
  | case3 start line move delta rest stop hzero hnone hlong ih =>
    rcases List.mem_cons.mp h with rfl | h
    · exact Nat.le_refl _
    · exact Nat.le_trans (Nat.le_add_right _ _) (ih h)
  | case4 start line move delta rest stop hzero hnone hempty ih =>
    exact Nat.le_trans (Nat.le_add_right _ _) (ih h)
  | case5 => cases h

theorem filter_eq_nil_iff_before :
    rs.filter (·.start ≤ offset) = [] ↔ ∀ r ∈ rs, offset < r.start := by
  simp only [List.filter_eq_nil_iff, decide_eq_true_eq, Nat.not_le]

theorem tells_of_before (h : ∀ r ∈ rs, offset < r.start) : Tells offset first rs first where
  inside r hr hstart := absurd hstart (Nat.not_le.mpr (h r hr))
  behind _ r hr := by
    rw [filter_eq_nil_iff_before.mpr h] at hr
    cases hr
  before _ := rfl

theorem tells_of_holds (hstart : r.start ≤ offset) (hstop : offset < r.stop)
    (h : ∀ r' ∈ rs, offset < r'.start) : Tells offset first (r :: rs) r.line where
  inside r' hr' hfrom _ := by
    rcases List.mem_cons.mp hr' with rfl | hr'
    · rfl
    · exact absurd hfrom (Nat.not_le.mpr (h r' hr'))
  behind hover := absurd hstop (Nat.not_lt.mpr (hover r List.mem_cons_self hstart))
  before hfar := absurd hstart (Nat.not_le.mpr (hfar r List.mem_cons_self))

/-- Behind a range that ends at or before the position, its line takes the place of the first. -/
theorem Tells.cons (h : Tells offset r.line rs line) (hstart : r.start ≤ offset)
    (hstop : r.stop ≤ offset) : Tells offset first (r :: rs) line where
  inside r' hr' hfrom hto := by
    rcases List.mem_cons.mp hr' with rfl | hr'
    · exact absurd hto (Nat.not_lt.mpr hstop)
    · exact h.inside r' hr' hfrom hto
  behind hover r' hr' := by
    rw [List.filter_cons_of_pos (by simpa using hstart), List.getLast?_cons] at hr'
    injection hr' with hr'
    cases hlast : (rs.filter (·.start ≤ offset)).getLast? with
    | none =>
      rw [hlast, Option.getD_none] at hr'
      rw [List.getLast?_eq_none_iff, filter_eq_nil_iff_before] at hlast
      rw [← hr']
      exact h.before hlast
    | some last =>
      rw [hlast, Option.getD_some] at hr'
      rw [← hr']
      exact h.behind (fun r hr => hover r (List.mem_cons_of_mem _ hr)) last hlast
  before hfar := absurd hstart (Nat.not_le.mpr (hfar r List.mem_cons_self))

theorem Tells.eq_or_mem (h : Tells offset first rs line) :
    line = first ∨ ∃ r ∈ rs, line = r.line := by
  by_cases hin : ∃ r ∈ rs, r.start ≤ offset ∧ offset < r.stop
  · obtain ⟨r, hr, hstart, hstop⟩ := hin
    exact .inr ⟨r, hr, h.inside r hr hstart hstop⟩
  · have hover : ∀ r ∈ rs, r.start ≤ offset → r.stop ≤ offset :=
      fun r hr hstart => Nat.not_lt.mp fun hstop => hin ⟨r, hr, hstart, hstop⟩
    cases hlast : (rs.filter (·.start ≤ offset)).getLast? with
    | none =>
      rw [List.getLast?_eq_none_iff, filter_eq_nil_iff_before] at hlast
      exact .inl (h.before hlast)
    | some last =>
      have hmem := List.mem_of_getLast? hlast
      exact .inr ⟨last, (List.mem_filter.mp hmem).1, h.behind hover last hlast⟩

end

/-- The search in one pass, `best` being what the ranges in front of `stop` say. -/
theorem tells_rangeLine (offset stop : Nat) (line best : Int) (bytes : List UInt8) :
    Tells offset best (produced stop line bytes) (rangeLine offset stop line best bytes) := by
  fun_induction rangeLine offset stop line best bytes with
  | case1 stop line best move delta rest next hzero ih =>
    rw [produced, if_pos hzero]
    exact ih
  | case2 stop line best move delta rest hzero hpast =>
    exact tells_of_before fun r hr => Nat.lt_of_lt_of_le hpast (start_le_of_mem_produced hr)
  | case3 stop line best move delta rest next hzero hpast hnone ih =>
    rw [produced, if_neg hzero, if_pos hnone]
    exact ih
  | case4 stop line best delta rest hzero hpast hnone next ih =>
    have hempty : ¬ stop < stop + (0 : UInt8).toNat := Nat.lt_irrefl stop
    rw [produced, if_neg hzero, if_neg hnone, if_neg hempty]
    exact ih
  | case5 stop line best move delta rest next hzero hpast hnone hmove hin =>
    have hstop : stop ≤ offset := Nat.not_lt.mp hpast
    rw [produced, if_neg hzero, if_neg hnone, if_pos (Nat.lt_of_le_of_lt hstop hin)]
    exact tells_of_holds hstop hin fun r hr => Nat.lt_of_lt_of_le hin (start_le_of_mem_produced hr)
  | case6 stop line best move delta rest next hzero hpast hnone hmove hin ih =>
    have hlong : stop < stop + move.toNat := by
      have hpos := UInt8.pos_iff_ne_zero.mpr hmove
      rw [UInt8.lt_iff_toNat_lt] at hpos
      exact Nat.lt_add_of_pos_right hpos
    rw [produced, if_neg hzero, if_neg hnone, if_pos hlong]
    exact ih.cons (Nat.not_lt.mp hpast) (Nat.not_lt.mp hin)
  | case7 stop line best bytes hshort =>
    rw [produced]
    · apply tells_of_before
      intro r hr
      cases hr
    · exact hshort

/-- Whatever the bytes of a table of ranges are, a lookup gives what the ranges that they produce
say about the position. -/
theorem lookup_produced (first : Int32) (bytes : List UInt8)
    (hlines : ∀ r ∈ produced 0 first.toInt bytes, Storable r.line) (offset : Int64)
    (hpos : 0 < offset) :
    ∃ line : Int32, (⟨.linetable310, first, bytes⟩ : LineTable).lookup offset = (line, none) ∧
      Tells offset.toInt.toNat first.toInt (produced 0 first.toInt bytes) line.toInt := by
  have htells := tells_rangeLine offset.toInt.toNat 0 first.toInt first.toInt bytes
  have hline : Storable (rangeLine offset.toInt.toNat 0 first.toInt first.toInt bytes) := by
    rcases htells.eq_or_mem with h | ⟨r, hr, h⟩
    · rw [h]
      exact storable_toInt first
    · rw [h]
      exact hlines r hr
  refine ⟨Int32.ofInt (rangeLine offset.toInt.toNat 0 first.toInt first.toInt bytes), ?_, ?_⟩
  · rw [lookup, if_neg (Int64.not_le.mpr hpos), exactLine]
  · rw [hline.toInt_ofInt]
    exact htells

/-- Two ranges. Between them there are a pair that goes on with the first one, bytecode without a
line and a pair that covers nothing. -/
def gaps : List UInt8 := [4, 1, 2, 0, 6, 0x80, 0, 5, 8, 2]

theorem lookup_produced_gaps :
    (∀ r ∈ produced 0 10 gaps, Storable r.line) ∧
      produced 0 10 gaps = [⟨0, 4, 11⟩, ⟨12, 20, 18⟩] ∧
      (∃ line : Int32, (⟨.linetable310, 10, gaps⟩ : LineTable).lookup 7 = (line, none) ∧
        line.toInt = 11) ∧
      ∃ line : Int32, (⟨.linetable310, 10, gaps⟩ : LineTable).lookup 13 = (line, none) ∧
        line.toInt = 18 := by
  have hlines : ∀ r ∈ produced 0 (10 : Int32).toInt gaps, Storable r.line := by decide
  refine ⟨hlines, by decide, ?_, ?_⟩
  · obtain ⟨line, hline, htells⟩ := lookup_produced 10 gaps hlines 7 (by decide)
    exact ⟨line, hline, htells.behind (by decide) ⟨0, 4, 11⟩ (by decide)⟩
  · obtain ⟨line, hline, htells⟩ := lookup_produced 10 gaps hlines 13 (by decide)
    exact ⟨line, hline, htells.inside ⟨12, 20, 18⟩ (by decide) (by decide) (by decide)⟩

end StackPeek.LineTable
