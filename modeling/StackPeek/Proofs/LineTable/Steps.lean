import StackPeek.LineTable.Pairs

/-!
# Runs of lines and tables of steps

A code object gives every stretch of its bytecode a line: a row of `Run`s, read by `lineOf`.
`StepTable` says when pairs that move the position and then the line write down such a row. A
pair is written where the line changes, and a move or a step that does not fit one pair is split
into several. However it is split, the table gives the line of the run (`stepLine_table`).
-/

namespace StackPeek.LineTable

/-- Bytecode that belongs to one line. An instruction takes two bytes. -/
structure Run where
  length : Nat
  line : Int32
  pos : 0 < length
  even : length % 2 = 0

/-- The line of the run that holds `offset`, or of the last run if `offset` lies behind all of
them. The line in force before the first run is `line`. -/
def lineOf (line : Int32) : List Run → (offset : Nat) → Int32
  | [], _ => line
  | r :: rest, offset => if offset < r.length then r.line else lineOf r.line rest (offset - r.length)

def lineStepTo (line : Int32) (r : Run) : Int := r.line.toInt - line.toInt

/-- Every step from `line` on is one of these. -/
def EachStep (P : Int → Prop) : Int32 → List Run → Prop
  | _, [] => True
  | line, r :: rest => P (lineStepTo line r) ∧ EachStep P r.line rest

instance EachStep.decidable (P : Int → Prop) [DecidablePred P] :
    (line : Int32) → (runs : List Run) → Decidable (EachStep P line runs)
  | _, [] => .isTrue trivial
  | line, r :: rest =>
    have := EachStep.decidable P r.line rest
    inferInstanceAs (Decidable (P (lineStepTo line r) ∧ EachStep P r.line rest))

def Storable (line : Int) : Prop := Int32.minValue.toInt ≤ line ∧ line ≤ Int32.maxValue.toInt

instance (line : Int) : Decidable (Storable line) := inferInstanceAs (Decidable (_ ∧ _))

theorem storable_toInt (line : Int32) : Storable line.toInt :=
  ⟨Int32.minValue_le_toInt line, Int32.toInt_le line⟩

theorem Storable.toInt_ofInt {line : Int} (h : Storable line) :
    (Int32.ofInt line).toInt = line :=
  Int32.toInt_ofInt_of_le h.1 (Int.lt_of_le_of_lt h.2 (by decide))

/-- Both go the same way, so that a step in parts stays between the lines it leads from and to. -/
def Aligned (a b : Int) : Prop := (0 ≤ a ∧ 0 ≤ b) ∨ (a ≤ 0 ∧ b ≤ 0)

/-- Pairs that move the position by `gap` and then the line by `delta`. A wide gap starts with
pairs that leave the line alone, a steep step goes on in pairs that leave the position alone. -/
inductive Moves (step : UInt8 → Int) : (gap : Nat) → (delta : Int) → List UInt8 → Prop where
  | last {gap : Nat} {b : UInt8} : gap ≤ 255 → Moves step gap (step b) [.ofNat gap, b]
  | wide {gap : Nat} {delta : Int} {rest : List UInt8} :
      Moves step gap delta rest → Moves step (gap + 255) delta (255 :: 0 :: rest)
  | steep {gap : Nat} {delta : Int} {b : UInt8} {rest : List UInt8} : gap ≤ 255 →
      Aligned (step b) delta → Moves step 0 delta rest →
      Moves step gap (step b + delta) (.ofNat gap :: b :: rest)

/-- Pairs for runs, the first of which starts `gap` bytes behind the last pair. -/
inductive StepTable (step : UInt8 → Int) : (gap : Nat) → Int32 → List Run → List UInt8 → Prop where
  | nil (gap : Nat) (line : Int32) : StepTable step gap line [] []
  | same {gap : Nat} {r : Run} {rest : List Run} {bytes : List UInt8} :
      StepTable step (gap + r.length) r.line rest bytes → StepTable step gap r.line (r :: rest) bytes
  | change {gap : Nat} {line : Int32} {r : Run} {rest : List Run} {pairs bytes : List UInt8} :
      r.line ≠ line → Moves step gap (lineStepTo line r) pairs →
      StepTable step r.length r.line rest bytes → StepTable step gap line (r :: rest) (pairs ++ bytes)

section
variable {step : UInt8 → Int} {offset : Nat}

theorem stepLine_pair {gap : Nat} (h : gap ≤ 255) (position : Nat) (line : Int) (b : UInt8)
    (rest : List UInt8) :
    stepLine step offset position line (.ofNat gap :: b :: rest) =
      if offset < position + gap then line
      else stepLine step offset (position + gap) (line + step b) rest := by
  have hgap : (UInt8.ofNat gap).toNat = gap := by
    rw [UInt8.toNat_ofNat', Nat.mod_eq_of_lt (by omega)]
  rw [stepLine, hgap]

theorem stepLine_moves (h0 : step 0 = 0) {gap : Nat} {delta : Int} {pairs : List UInt8}
    (h : Moves step gap delta pairs) (position : Nat) (line : Int) (rest : List UInt8) :
    stepLine step offset position line (pairs ++ rest) =
      if offset < position + gap then line
      else stepLine step offset (position + gap) (line + delta) rest := by
  induction h generalizing position line with
  | last hgap => exact stepLine_pair hgap position line _ rest
  | @wide gap delta pairs _ ih =>
    have hpair : stepLine step offset position line (255 :: 0 :: (pairs ++ rest)) = _ :=
      stepLine_pair (Nat.le_refl 255) position line 0 (pairs ++ rest)
    rw [List.cons_append, List.cons_append, hpair, ih, h0, Int.add_zero]
    by_cases hfar : offset < position + 255
    · have hwide : offset < position + (gap + 255) :=
        Nat.lt_of_lt_of_le hfar (Nat.add_le_add_left (Nat.le_add_left 255 gap) position)
      rw [if_pos hfar, if_pos hwide]
    · rw [if_neg hfar, Nat.add_assoc, Nat.add_comm 255 gap]
  | @steep gap delta b pairs hgap _ _ ih =>
    refine (stepLine_pair hgap position line b (pairs ++ rest)).trans ?_
    by_cases hfar : offset < position + gap
    · rw [if_pos hfar, if_pos hfar]
    · rw [if_neg hfar, if_neg hfar, ih, Nat.add_zero, if_neg hfar, Int.add_assoc]

theorem stepLine_table (h0 : step 0 = 0) {gap : Nat} {line : Int32} {runs : List Run}
    {bytes : List UInt8} (h : StepTable step gap line runs bytes) (position : Nat) :
    stepLine step offset position line.toInt bytes =
      if offset < position + gap then line.toInt
      else (lineOf line runs (offset - (position + gap))).toInt := by
  induction h generalizing position with
  | nil gap line =>
    rw [stepLine, lineOf, ite_self]
    nofun
  | @same gap r rest bytes _ ih =>
    rw [ih]
    -- The pair in front of the run stays the last one.
    by_cases hgap : offset < position + gap
    · rw [if_pos hgap, if_pos (by omega)]
    rw [if_neg hgap, lineOf]
    by_cases hrun : offset < position + (gap + r.length)
    · rw [if_pos hrun, if_pos (by omega)]
    · rw [if_neg hrun, if_neg (by omega), Nat.sub_sub, Nat.add_assoc]
  | @change gap line r rest pairs bytes _ hm _ ih =>
    have hline : line.toInt + lineStepTo line r = r.line.toInt := by unfold lineStepTo; omega
    rw [stepLine_moves h0 hm, hline, ih]
    by_cases hgap : offset < position + gap
    · rw [if_pos hgap, if_pos hgap]
    rw [if_neg hgap, if_neg hgap, lineOf]
    by_cases hrun : offset < position + gap + r.length
    · rw [if_pos hrun, if_pos (by omega)]
    · rw [if_neg hrun, if_neg (by omega), Nat.sub_sub]

end

section
variable {step : UInt8 → Int}

theorem exists_moves_wide {delta : Int} (h : ∀ gap ≤ 255, ∃ pairs, Moves step gap delta pairs)
    (gap : Nat) : ∃ pairs, Moves step gap delta pairs := by
  induction gap using Nat.strongRecOn with
  | ind gap ih =>
    by_cases hgap : gap ≤ 255
    · exact h gap hgap
    obtain ⟨pairs, hp⟩ := ih (gap - 255) (by omega)
    obtain ⟨rest, rfl⟩ := Nat.exists_eq_add_of_le' (show 255 ≤ gap by omega)
    rw [Nat.add_sub_cancel] at hp
    exact ⟨_, .wide hp⟩

theorem exists_moves {sign : Int} (hsign : sign = 1 ∨ sign = -1) {size : Nat} (hsize : 0 < size)
    (h : ∀ n ≤ size, ∃ b, step b = sign * n) (n gap : Nat) :
    ∃ pairs, Moves step gap (sign * n) pairs := by
  induction n using Nat.strongRecOn generalizing gap with
  | ind n ih =>
    apply exists_moves_wide
    intro gap hgap
    by_cases hn : n ≤ size
    · obtain ⟨b, hb⟩ := h n hn
      rw [← hb]
      exact ⟨_, .last hgap⟩
    obtain ⟨b, hb⟩ := h size (Nat.le_refl _)
    obtain ⟨pairs, hp⟩ := ih (n - size) (by omega) 0
    have hsum : sign * n = step b + sign * (n - size : Nat) := by
      rw [hb, ← Int.mul_add]
      congr 1
      omega
    rw [hsum]
    refine ⟨_, .steep hgap ?_ hp⟩
    rw [hb]
    rcases hsign with rfl | rfl
    · exact .inl ⟨by omega, by omega⟩
    · exact .inr ⟨by omega, by omega⟩

theorem exists_stepTable {P : Int → Prop}
    (h : ∀ delta, P delta → ∀ gap, ∃ pairs, Moves step gap delta pairs) {runs : List Run}
    {line : Int32} (hruns : EachStep P line runs) (gap : Nat) :
    ∃ bytes, StepTable step gap line runs bytes := by
  induction runs generalizing line gap with
  | nil => exact ⟨_, .nil gap line⟩
  | cons r rest ih =>
    obtain ⟨hr, hrest⟩ := hruns
    by_cases hline : r.line = line
    · subst hline
      obtain ⟨bytes, hb⟩ := ih hrest (gap + r.length)
      exact ⟨_, .same hb⟩
    · obtain ⟨pairs, hp⟩ := h _ hr gap
      obtain ⟨bytes, hb⟩ := ih hrest r.length
      exact ⟨_, .change hline hp hb⟩

end

end StackPeek.LineTable
