import StackPeek.Proofs.LineTable.Steps

/-!
# Tables of ranges

Here a pair stands in front of the bytecode it covers. A run longer than 254 bytes goes on in
pairs without a line step, and a line step that does not fit a byte starts with pairs that
cover nothing. The step left for the run itself is then never zero, so that its pairs are not
taken for a continuation of the run before (`Climb.rest_eq_zero`).
-/

namespace StackPeek.LineTable

/-- Pairs that take most of a step of the line and leave `rem` of it for the run. -/
inductive Climb : (delta : Int) → List UInt8 → (rem : Int) → Prop where
  | near {delta : Int} : -127 ≤ delta → delta ≤ 127 → Climb delta [] delta
  | up {delta rem : Int} {bytes : List UInt8} :
      127 < delta → Climb (delta - 127) bytes rem → Climb delta (0 :: 127 :: bytes) rem
  | down {delta rem : Int} {bytes : List UInt8} :
      delta < -127 → Climb (delta + 127) bytes rem → Climb delta (0 :: 129 :: bytes) rem

/-- Pairs that cover `length` bytes of bytecode and step by `b` at the first of them. -/
inductive Cover : (length : Nat) → (b : UInt8) → List UInt8 → Prop where
  | last {length : Nat} {b : UInt8} : 0 < length → length ≤ 254 → Cover length b [.ofNat length, b]
  | long {length : Nat} {b : UInt8} {bytes : List UInt8} :
      254 < length → Cover (length - 254) 0 bytes → Cover length b (254 :: b :: bytes)

inductive RangeTable : Int32 → List Run → List UInt8 → Prop where
  | nil (line : Int32) : RangeTable line [] []
  | cons {line : Int32} {r : Run} {rest : List Run} {b : UInt8} {climb cover bytes : List UInt8} :
      Climb (lineStepTo line r) climb (signedStep b) → Cover r.length b cover →
      RangeTable r.line rest bytes → RangeTable line (r :: rest) (climb ++ (cover ++ bytes))

section
variable {offset stop : Nat} {line best : Int}

theorem rangeLine_of_lt (bytes : List UInt8) (h : offset < stop) :
    rangeLine offset stop line best bytes = best := by
  fun_induction rangeLine offset stop line best bytes with
  | case1 stop line best move delta rest next hzero ih =>
    exact ih (Nat.lt_of_lt_of_le h (Nat.le_add_right _ _))
  | case2 => rfl
  | case3 | case4 | case5 | case6 => exact absurd h (by assumption)
  | case7 => rfl

theorem Climb.range {delta rem : Int} {bytes : List UInt8} (h : Climb delta bytes rem) :
    -127 ≤ rem ∧ rem ≤ 127 := by
  induction h with
  | near hlow hhigh => exact ⟨hlow, hhigh⟩
  | up _ _ ih => exact ih
  | down _ _ ih => exact ih

theorem Climb.rest_eq_zero {delta : Int} {bytes : List UInt8} (h : Climb delta bytes 0) :
    delta = 0 := by
  generalize hrem : (0 : Int) = rem at h
  induction h with
  | near => rfl
  | up hfar _ ih =>
    have := ih hrem
    omega
  | down hfar _ ih =>
    have := ih hrem
    omega

theorem rangeLine_climb {delta rem : Int} {bytes : List UInt8} (h : Climb delta bytes rem)
    (hstop : stop ≤ offset) (rest : List UInt8) :
    rangeLine offset stop line best (bytes ++ rest) =
      rangeLine offset stop (line + (delta - rem)) best rest := by
  have hle : ¬ offset < stop := Nat.not_lt.mpr hstop
  have hup : signedStep 127 = 127 := by decide
  have hdown : signedStep 129 = -127 := by decide
  induction h generalizing line with
  | near => rw [Int.sub_self, Int.add_zero, List.nil_append]
  | @up delta rem bytes _ _ ih =>
    rw [List.cons_append, List.cons_append, rangeLine]
    simp only [hup, hle, if_false, if_true, reduceCtorEq]
    refine Eq.trans ih ?_
    congr 1
    omega
  | @down delta rem bytes _ _ ih =>
    rw [List.cons_append, List.cons_append, rangeLine]
    simp only [hdown, hle, if_false, if_true, reduceCtorEq]
    refine Eq.trans ih ?_
    congr 1
    omega

theorem rangeLine_pair {b : UInt8} (hb : signedStep b ≠ -128) {length : Nat} (hpos : 0 < length)
    (hlen : length ≤ 254) (hstop : stop ≤ offset) (hbest : signedStep b = 0 → best = line)
    (rest : List UInt8) :
    rangeLine offset stop line best (.ofNat length :: b :: rest) =
      rangeLine offset (stop + length) (line + signedStep b) (line + signedStep b) rest := by
  have hmove : (UInt8.ofNat length).toNat = length := by
    rw [UInt8.toNat_ofNat', Nat.mod_eq_of_lt (by omega)]
  have hmove0 : UInt8.ofNat length ≠ 0 := by
    intro h
    rw [h] at hmove
    exact absurd hmove (Nat.ne_of_lt hpos)
  rw [rangeLine, hmove]
  by_cases hzero : signedStep b = 0
  · rw [if_pos hzero, hzero, hbest hzero, Int.add_zero]
  rw [if_neg hzero, if_neg (Nat.not_lt.mpr hstop), if_neg hb, if_neg hmove0]
  by_cases hin : offset < stop + length
  · rw [if_pos hin, rangeLine_of_lt _ hin]
  · rw [if_neg hin]

theorem rangeLine_cover {length : Nat} {b : UInt8} {bytes : List UInt8} (h : Cover length b bytes)
    (hb : signedStep b ≠ -128) (hstop : stop ≤ offset) (hbest : signedStep b = 0 → best = line)
    (rest : List UInt8) :
    rangeLine offset stop line best (bytes ++ rest) =
      rangeLine offset (stop + length) (line + signedStep b) (line + signedStep b) rest := by
  induction h generalizing stop line best with
  | last hpos hlen => exact rangeLine_pair hb hpos hlen hstop hbest rest
  | @long length b bytes hlong _ ih =>
    refine (rangeLine_pair hb (show 0 < 254 by decide) (Nat.le_refl _) hstop hbest _).trans ?_
    by_cases hin : offset < stop + 254
    · rw [rangeLine_of_lt _ hin, rangeLine_of_lt _ (by omega)]
    have h0 : signedStep 0 = 0 := rfl
    have hlength : stop + 254 + (length - 254) = stop + length := by omega
    have hrest := ih (by decide) (Nat.not_lt.mp hin) fun _ => Eq.refl (line + signedStep b)
    rwa [h0, Int.add_zero, hlength] at hrest

end

theorem rangeLine_table {offset : Nat} {line : Int32} {runs : List Run} {bytes : List UInt8}
    (h : RangeTable line runs bytes) (stop : Nat) (hstop : stop ≤ offset) :
    rangeLine offset stop line.toInt line.toInt bytes =
      (lineOf line runs (offset - stop)).toInt := by
  induction h generalizing stop with
  | nil line =>
    rw [rangeLine, lineOf]
    intro _ _ _ h
    cases h
  | @cons line r rest b climb cover bytes hclimb hcover _ ih =>
    have hb := hclimb.range
    have hline : line.toInt + (lineStepTo line r - signedStep b) + signedStep b = r.line.toInt := by
      unfold lineStepTo
      omega
    have hbest (hzero : signedStep b = 0) :
        line.toInt = line.toInt + (lineStepTo line r - signedStep b) := by
      rw [hzero] at hclimb
      rw [hzero, hclimb.rest_eq_zero]
      omega
    rw [rangeLine_climb hclimb hstop, rangeLine_cover hcover (by omega) hstop hbest, hline, lineOf]
    by_cases hin : offset < stop + r.length
    · rw [rangeLine_of_lt _ hin, if_pos (by omega)]
    · rw [ih _ (Nat.not_lt.mp hin), if_neg (by omega), Nat.sub_sub]

theorem exists_signedStep {x : Int} (hlow : -128 ≤ x) (hhigh : x ≤ 127) :
    ∃ b, signedStep b = x :=
  ⟨(Int8.ofInt x).toUInt8, Int8.toInt_ofInt_of_le hlow (by omega)⟩

theorem exists_climb (delta : Int) :
    ∃ bytes b, Climb delta bytes (signedStep b) := by
  by_cases hhigh : 127 < delta
  · obtain ⟨bytes, b, h⟩ := exists_climb (delta - 127)
    exact ⟨_, b, .up hhigh h⟩
  by_cases hlow : delta < -127
  · obtain ⟨bytes, b, h⟩ := exists_climb (delta + 127)
    exact ⟨_, b, .down hlow h⟩
  · obtain ⟨b, rfl⟩ := exists_signedStep (x := delta) (by omega) (by omega)
    exact ⟨[], b, .near (by omega) (by omega)⟩
termination_by delta.natAbs
decreasing_by all_goals omega

theorem exists_cover {length : Nat} (hpos : 0 < length) (b : UInt8) :
    ∃ bytes, Cover length b bytes := by
  induction length using Nat.strongRecOn generalizing b with
  | ind length ih =>
    by_cases hlong : 254 < length
    · obtain ⟨bytes, h⟩ := ih (length - 254) (by omega) (by omega) 0
      exact ⟨_, .long hlong h⟩
    · exact ⟨_, .last hpos (by omega)⟩

theorem exists_rangeTable (line : Int32) (runs : List Run) :
    ∃ bytes, RangeTable line runs bytes := by
  induction runs generalizing line with
  | nil => exact ⟨_, .nil line⟩
  | cons r rest ih =>
    obtain ⟨climb, b, hclimb⟩ := exists_climb (lineStepTo line r)
    obtain ⟨cover, hcover⟩ := exists_cover r.pos b
    obtain ⟨bytes, hbytes⟩ := ih r.line
    exact ⟨_, .cons hclimb hcover hbytes⟩

end StackPeek.LineTable
