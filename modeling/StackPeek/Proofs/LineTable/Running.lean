import Mathlib.Data.List.Chain
import StackPeek.LineTable.Lookup
import StackPeek.Proofs.LineTable.Grammar
import StackPeek.Proofs.LineTable.Ranges

/-!
# The line while a table is read

A lookup adds up steps of the line. `runningLines` are the lines it goes through, and the one it
answers is among them. A table of pairs is too short to leave the lines that can be stored, if it
starts in the lower half of them. In a location table a single entry can: its steps have up to 31
bits (`runningLines_overflow`). Steps of less than 4096 cannot, since larger ones alone take fewer
bytes than their size (`runningLines_storable`).
-/

namespace StackPeek.LineTable

/-- The lines that `stepLine` goes through. -/
def stepLines (step : UInt8 → Int) (offset : Nat) : (position : Nat) → (line : Int) →
    List UInt8 → List Int
  | position, line, move :: delta :: rest =>
    let position := position + move.toNat
    if offset < position then [line]
    else line :: stepLines step offset position (line + step delta) rest
  | _, line, _ => [line]

def rangeLines (offset : Nat) : (stop : Nat) → (line : Int) → List UInt8 → List Int
  | stop, line, move :: delta :: rest =>
    let next := stop + move.toNat
    if signedStep delta = 0 then rangeLines offset next line rest
    else if offset < stop then [line]
    else if signedStep delta = -128 then rangeLines offset next line rest
    else if move = 0 then line :: rangeLines offset next (line + signedStep delta) rest
    else if offset < next then [line, line + signedStep delta]
    else line :: rangeLines offset next (line + signedStep delta) rest
  | _, line, _ => [line]

/-- A search that takes down the line of every entry it sees. -/
def recording (offset : Nat) : Int × List Int → Range → ForInStep (Int × List Int)
  | (best, seen), r =>
    match search offset best r with
    | .done best => .done (best, seen ++ [r.line])
    | .yield best => .yield (best, seen ++ [r.line])

def entryLines (offset start : Nat) (line : Int) (bytes : List UInt8) : List Int :=
  match visit (recording offset) (line, []) start line bytes with
  | ((_, seen), _) => line :: seen

/-- The lines that a lookup goes through, the first line included. -/
def runningLines (t : LineTable) (offset : Int64) : List Int :=
  let first := t.firstLine.toInt
  if offset ≤ 0 then [first]
  else match t.format with
    | .lnotab => stepLines unsignedStep offset.toInt.toNat 0 first t.data
    | .lnotabSigned => stepLines signedStep offset.toInt.toNat 0 first t.data
    | .linetable310 => rangeLines offset.toInt.toNat 0 first t.data
    | .locationTable311 => entryLines offset.toInt.toNat 0 first t.data

theorem natAbs_unsignedStep (b : UInt8) : (unsignedStep b).natAbs ≤ 255 := by
  have := b.toNat_lt
  unfold unsignedStep
  omega

theorem natAbs_signedStep (b : UInt8) : (signedStep b).natAbs ≤ 255 := by
  have hlow := Int8.minValue_le_toInt b.toInt8
  have hhigh := Int8.toInt_le b.toInt8
  have hmin : Int8.minValue.toInt = -128 := rfl
  have hmax : Int8.maxValue.toInt = 127 := rfl
  unfold signedStep
  omega

section
variable {offset : Nat}

theorem stepLine_mem (step : UInt8 → Int) (position : Nat) (line : Int) (bytes : List UInt8) :
    stepLine step offset position line bytes ∈ stepLines step offset position line bytes := by
  fun_induction stepLine step offset position line bytes with
  | case1 position line move delta rest next hpast =>
    rw [stepLines, if_pos hpast]
    exact List.mem_singleton_self line
  | case2 position line move delta rest next hpast ih =>
    rw [stepLines, if_neg hpast]
    exact List.mem_cons_of_mem line ih
  | case3 bytes position line hshort =>
    rw [stepLines]
    · exact List.mem_singleton_self line
    · exact hshort

theorem stepLines_near {step : UInt8 → Int} (hstep : ∀ b, (step b).natAbs ≤ 255) (position : Nat)
    (line : Int) (bytes : List UInt8) :
    ∀ l ∈ stepLines step offset position line bytes,
      2 * (l - line).natAbs ≤ 255 * bytes.length := by
  fun_induction stepLines step offset position line bytes with
  | case1 position line move delta rest next hpast =>
    intro l hl
    rw [List.mem_singleton.mp hl]
    omega
  | case2 position line move delta rest next hpast ih =>
    intro l hl
    rcases List.mem_cons.mp hl with rfl | hl
    · omega
    · have hrest := ih l hl
      have hdelta := hstep delta
      simp only [List.length_cons]
      omega
  | case3 =>
    intro l hl
    rw [List.mem_singleton.mp hl]
    omega

theorem mem_rangeLines_self (stop : Nat) (line : Int) (bytes : List UInt8) :
    line ∈ rangeLines offset stop line bytes := by
  fun_induction rangeLines offset stop line bytes with
  | case1 stop line move delta rest next hzero ih => exact ih
  | case3 stop line move delta rest next hzero hbefore hnone ih => exact ih
  | case2 | case4 | case5 | case6 | case7 => exact List.mem_cons_self

theorem rangeLine_mem (stop : Nat) (line best : Int) (bytes : List UInt8) :
    rangeLine offset stop line best bytes ∈ best :: rangeLines offset stop line bytes := by
  fun_induction rangeLine offset stop line best bytes with
  | case1 stop line best move delta rest next hzero ih =>
    rw [rangeLines, if_pos hzero]
    exact ih
  | case2 => exact List.mem_cons_self
  | case3 stop line best move delta rest next hzero hbefore hnone ih =>
    rw [rangeLines, if_neg hzero, if_neg hbefore, if_pos hnone]
    exact ih
  | case4 stop line best delta rest hzero hbefore hnone next ih =>
    rw [rangeLines, if_neg hzero, if_neg hbefore, if_neg hnone, if_pos rfl]
    rcases List.mem_cons.mp ih with h | h
    · exact List.mem_cons.mpr (.inl h)
    · exact List.mem_cons_of_mem best (List.mem_cons_of_mem line h)
  | case5 stop line best move delta rest next hzero hbefore hnone hmove hin =>
    rw [rangeLines, if_neg hzero, if_neg hbefore, if_neg hnone, if_neg hmove, if_pos hin]
    exact List.mem_cons_of_mem best (List.mem_cons_of_mem line (List.mem_singleton_self _))
  | case6 stop line best move delta rest next hzero hbefore hnone hmove hin ih =>
    rw [rangeLines, if_neg hzero, if_neg hbefore, if_neg hnone, if_neg hmove, if_neg hin]
    -- The line of the new range is the best one from here on.
    have hself : line + signedStep delta ∈ rangeLines offset next (line + signedStep delta) rest :=
      mem_rangeLines_self next _ rest
    apply List.mem_cons_of_mem best
    apply List.mem_cons_of_mem line
    rcases List.mem_cons.mp ih with h | h
    · rw [h]
      exact hself
    · exact h
  | case7 => exact List.mem_cons_self

theorem rangeLines_near (stop : Nat) (line : Int) (bytes : List UInt8) :
    ∀ l ∈ rangeLines offset stop line bytes, 2 * (l - line).natAbs ≤ 255 * bytes.length := by
  fun_induction rangeLines offset stop line bytes with
  | case1 stop line move delta rest next hzero ih =>
    intro l hl
    have hrest := ih l hl
    simp only [List.length_cons]
    omega
  | case3 stop line move delta rest next hzero hbefore hnone ih =>
    intro l hl
    have hrest := ih l hl
    simp only [List.length_cons]
    omega
  | case4 stop line delta rest hzero hbefore hnone next ih =>
    intro l hl
    have hdelta := natAbs_signedStep delta
    rcases List.mem_cons.mp hl with rfl | hl
    · omega
    · have hrest := ih l hl
      simp only [List.length_cons]
      omega
  | case5 stop line move delta rest next hzero hbefore hnone hmove hin =>
    intro l hl
    have hdelta := natAbs_signedStep delta
    simp only [List.mem_cons, List.not_mem_nil, or_false] at hl
    simp only [List.length_cons]
    omega
  | case6 stop line move delta rest next hzero hbefore hnone hmove hin ih =>
    intro l hl
    have hdelta := natAbs_signedStep delta
    rcases List.mem_cons.mp hl with rfl | hl
    · omega
    · have hrest := ih l hl
      simp only [List.length_cons]
      omega
  | case2 | case7 =>
    intro l hl
    rw [List.mem_singleton.mp hl]
    omega

theorem visit_recording (best : Int) (seen : List Int) (start : Nat) (line : Int)
    (bytes : List UInt8) :
    visit (recording offset) (best, seen) start line bytes =
      let found := visit (recording offset) (best, []) start line bytes
      ((found.1.1, seen ++ found.1.2), found.2) := by
  induction bytes using entries_induction generalizing best seen start line with
  | nil =>
    rw [visit.eq_1, visit.eq_1]
    simp only [List.append_nil]
  | cut first rest e hstep =>
    rw [visit_cut hstep, visit_cut hstep]
    simp only [List.append_nil]
  | cons first delta body behind hshape ih =>
    rw [visit_cons (hshape.lineStep_append behind), visit_cons (hshape.lineStep_append behind)]
    simp only [recording]
    cases search offset best ⟨start, start + 2 * unitsOf first, line + delta⟩ with
    | done best => rfl
    | yield best =>
      simp only
      rw [ih best (seen ++ [line + delta]), ih best ([] ++ [line + delta])]
      simp only [List.nil_append, List.append_assoc]

section
variable {start : Nat} {line : Int}

theorem entryLines_nil : entryLines offset start line [] = [line] := by
  rw [entryLines, visit.eq_1]

theorem entryLines_cut {first : UInt8} {rest : List UInt8} {e : Malformed}
    (h : lineStep (formOf first) rest = .error e) :
    entryLines offset start line (first :: rest) = [line] := by
  rw [entryLines, visit_cut h]

theorem entryLines_cons {first : UInt8} {delta : Int} {body : List UInt8}
    (h : Shape (formOf first) delta body) (hstart : start ≤ offset) (behind : List UInt8) :
    entryLines offset start line (first :: (body ++ behind)) =
      if offset < start + 2 * unitsOf first then [line, line + delta]
      else line :: entryLines offset (start + 2 * unitsOf first) (line + delta) behind := by
  rw [entryLines, visit_cons (h.lineStep_append behind)]
  simp only [recording, search]
  rw [if_neg (Nat.not_lt.mpr hstart)]
  by_cases hin : offset < start + 2 * unitsOf first
  · rw [if_pos hin, if_pos hin]
    rfl
  · rw [if_neg hin, if_neg hin]
    simp only
    rw [visit_recording]
    rfl

theorem entryLine_mem (hstart : start ≤ offset) (bytes : List UInt8) :
    (visit (search offset) line start line bytes).1 ∈ entryLines offset start line bytes := by
  induction bytes using entries_induction generalizing start line with
  | nil =>
    rw [visit.eq_1, entryLines_nil]
    exact List.mem_singleton_self line
  | cut first rest e hstep =>
    rw [visit_cut hstep, entryLines_cut hstep]
    exact List.mem_singleton_self line
  | cons first delta body behind hshape ih =>
    rw [visit_cons (hshape.lineStep_append behind), entryLines_cons hshape hstart, search,
      if_neg (Nat.not_lt.mpr hstart)]
    by_cases hin : offset < start + 2 * unitsOf first
    · rw [if_pos hin, if_pos hin]
      exact List.mem_cons_of_mem line (List.mem_singleton_self _)
    · rw [if_neg hin, if_neg hin]
      exact List.mem_cons_of_mem line (ih (Nat.not_lt.mp hin))

end

end

theorem Groups.lt {room n : Nat} {bytes : List UInt8} (h : Groups room n bytes) :
    n < 1 <<< (6 * bytes.length) := by
  induction h with
  | last => exact Nat.mod_lt _ (by decide)
  | @more room n b bytes _ _ ih =>
    have hgroup : b.toNat % 64 < 64 := Nat.mod_lt _ (by decide)
    rw [List.length_cons, Nat.mul_succ, Nat.shiftLeft_add, Nat.shiftLeft_eq _ 6]
    omega

theorem natAbs_stepOf (n : Nat) : 2 * (stepOf n).natAbs ≤ n := by
  have hcut : n % UInt32.size ≤ n := Nat.mod_le _ _
  unfold stepOf
  simp only
  split <;> omega

/-- A small step takes a quarter of its size in bytes, or more. -/
theorem Groups.stepOf_le {room n : Nat} {bytes : List UInt8} (h : Groups room n bytes)
    (hn : (stepOf n).natAbs < 4096) : 4 * (stepOf n).natAbs ≤ 4095 * (bytes.length + 1) := by
  have hlt := h.lt
  have hstep := natAbs_stepOf n
  match hbytes : bytes with
  | [] => cases h
  | [_] =>
    have hone : n < 64 := hlt
    omega
  | [_, _] =>
    have htwo : n < 4096 := hlt
    simp only [List.length_cons, List.length_nil]
    omega
  | _ :: _ :: _ :: _ =>
    simp only [List.length_cons]
    omega

theorem Shape.delta_le {form : Nat} {delta : Int} {body : List UInt8} (h : Shape form delta body)
    (hdelta : delta.natAbs < 4096) : 4 * delta.natAbs ≤ 4095 * (body.length + 1) := by
  cases h with
  | short => omega
  | oneLine column endColumn hstep =>
    simp only [List.length_cons, List.length_nil]
    omega
  | noColumns hg => exact hg.stepOf_le hdelta
  | long hg =>
    have hfirst := hg.stepOf_le hdelta
    rw [List.length_append]
    omega
  | noLocation => omega

/-- Each line is less than 4096 lines away from the one before it. -/
def Gentle (lines : List Int) : Prop := lines.IsChain fun a b => (b - a).natAbs < 4096

theorem entryLines_near {offset start : Nat} {line : Int} (hstart : start ≤ offset)
    (bytes : List UInt8) (hgentle : Gentle (entryLines offset start line bytes)) :
    ∀ l ∈ entryLines offset start line bytes, 4 * (l - line).natAbs ≤ 4095 * bytes.length := by
  induction bytes using entries_induction generalizing start line with
  | nil =>
    intro l hl
    rw [entryLines_nil] at hl
    rw [List.mem_singleton.mp hl]
    omega
  | cut first rest e hstep =>
    intro l hl
    rw [entryLines_cut hstep] at hl
    rw [List.mem_singleton.mp hl]
    omega
  | cons first delta body behind hshape ih =>
    rw [entryLines_cons hshape hstart] at hgentle ⊢
    intro l hl
    simp only [List.length_cons, List.length_append]
    by_cases hin : offset < start + 2 * unitsOf first
    · rw [if_pos hin] at hgentle hl
      have hnear := (List.isChain_cons_cons.mp hgentle).1
      have hdelta := hshape.delta_le (by omega)
      simp only [List.mem_cons, List.not_mem_nil, or_false] at hl
      omega
    · rw [if_neg hin] at hgentle hl
      rcases List.mem_cons.mp hl with rfl | hl
      · omega
      have hchain := List.isChain_cons_cons.mp hgentle
      have hdelta := hshape.delta_le (by have := hchain.1; omega)
      have hrest := ih (Nat.not_lt.mp hin) hchain.2 l hl
      omega

/-- What a lookup answers is one of the lines it goes through. -/
theorem exactLine_mem (t : LineTable) {offset : Int64} (hpos : ¬ offset ≤ 0) :
    (t.exactLine offset.toInt.toNat).1 ∈ t.runningLines offset := by
  obtain ⟨format, first, data⟩ := t
  unfold runningLines
  simp only [if_neg hpos]
  cases format with
  | lnotab => exact stepLine_mem _ _ _ _
  | lnotabSigned => exact stepLine_mem _ _ _ _
  | linetable310 =>
    have hmem : rangeLine offset.toInt.toNat 0 first.toInt first.toInt data ∈
        first.toInt :: rangeLines offset.toInt.toNat 0 first.toInt data :=
      rangeLine_mem 0 _ _ data
    rcases List.mem_cons.mp hmem with h | h
    · refine h ▸ mem_rangeLines_self 0 _ data
    · exact h
  | locationTable311 => exact entryLine_mem (Nat.zero_le _) data

theorem runningLines_near (t : LineTable) (offset : Int64)
    (hgentle : t.format = .locationTable311 → Gentle (t.runningLines offset)) :
    ∀ line ∈ t.runningLines offset,
      4 * (line - t.firstLine.toInt).natAbs ≤ 4095 * t.data.length := by
  obtain ⟨format, first, data⟩ := t
  unfold runningLines at hgentle ⊢
  intro line hline
  by_cases hpos : offset ≤ 0
  · simp only [if_pos hpos, List.mem_singleton] at hline
    rw [hline, Int.sub_self]
    exact Nat.zero_le _
  simp only [if_neg hpos] at hgentle hline
  cases format with
  | lnotab =>
    have hnear := stepLines_near natAbs_unsignedStep 0 first.toInt data line hline
    simp only
    omega
  | lnotabSigned =>
    have hnear := stepLines_near natAbs_signedStep 0 first.toInt data line hline
    simp only
    omega
  | linetable310 =>
    have hnear := rangeLines_near 0 first.toInt data line hline
    simp only
    omega
  | locationTable311 => exact entryLines_near (Nat.zero_le _) data (hgentle rfl) line hline

/-- A table that may be read and starts in the lower half of all lines never leads to a line that
cannot be stored, if it is one of pairs or, being one of entries, has only steps of less than 4096.
The line that is answered is then the exact one. -/
theorem runningLines_storable (t : LineTable) (hsize : t.data.length ≤ maxSize.toNat)
    (hfirst : 0 ≤ t.firstLine.toInt ∧ t.firstLine.toInt ≤ 1073741824) (offset : Int64)
    (hgentle : t.format = .locationTable311 → Gentle (t.runningLines offset)) :
    (∀ line ∈ t.runningLines offset, Storable line) ∧
      (t.lookup offset).1.toInt ∈ t.runningLines offset := by
  have hmax : maxSize.toNat = 1048576 := rfl
  have hlow : Int32.minValue.toInt = -2147483648 := rfl
  have hhigh : Int32.maxValue.toInt = 2147483647 := rfl
  have hstorable : ∀ line ∈ t.runningLines offset, Storable line := by
    intro line hline
    have hnear := runningLines_near t offset hgentle line hline
    unfold Storable
    omega
  refine ⟨hstorable, ?_⟩
  by_cases hpos : offset ≤ 0
  · rw [lookup_of_le_zero t hpos, runningLines, if_pos hpos]
    exact List.mem_singleton_self _
  · have hmem := exactLine_mem t hpos
    unfold lookup
    rw [if_neg hpos]
    simp only
    rwa [(hstorable _ hmem).toInt_ofInt]

/-- A step of a line, a step far back, and one up again. -/
def backAndForth : LineTable :=
  ⟨.locationTable311, 1000000000, [0xD8, 0, 3, 0xF0, 0x7F, 0x7F, 0x01, 0, 0, 0, 0xE8, 0x7C, 0x01]⟩

theorem runningLines_storable_backAndForth :
    backAndForth.data.length ≤ maxSize.toNat ∧
      backAndForth.runningLines 5 = [1000000000, 1000000001, 999995906, 999995968] ∧
      Gentle (backAndForth.runningLines 5) ∧
      (∀ line ∈ backAndForth.runningLines 5, Storable line) ∧
      (backAndForth.lookup 5).1.toInt ∈ backAndForth.runningLines 5 := by
  have hsize : backAndForth.data.length ≤ maxSize.toNat := by decide
  have hlines : backAndForth.runningLines 5 =
      [1000000000, 1000000001, 999995906, 999995968] := by cbv
  have hgentle : Gentle (backAndForth.runningLines 5) := by
    rw [hlines, Gentle]
    decide
  exact ⟨hsize, hlines, hgentle,
    runningLines_storable backAndForth hsize (by decide) 5 fun _ => hgentle⟩

/-- One entry, which takes the line from the first to beyond the last. -/
def steepTable : LineTable := ⟨.locationTable311, 1, [0xE8, 0x7E, 0x7F, 0x7F, 0x7F, 0x7F, 0x03]⟩

/-- A location table can lead to a line that cannot be stored, and another one is answered. -/
theorem runningLines_overflow :
    steepTable.data.length ≤ maxSize.toNat ∧ steepTable.runningLines 1 = [1, 2147483648] ∧
      ¬ Storable 2147483648 ∧ steepTable.lookup 1 = (-2147483648, none) := by
  have hlines : steepTable.runningLines 1 = [1, 2147483648] := by cbv
  have hlookup : steepTable.lookup 1 = (-2147483648, none) := by cbv
  exact ⟨by decide, hlines, by decide, hlookup⟩

end StackPeek.LineTable
