import StackPeek.LineTable.Locations

/-!
# The grammar of location tables

`Groups` is a number as a row of six-bit groups, and `Shape` is what may follow the first byte of
an entry of each form. Both also say what the bytes stand for. Reading succeeds exactly on bytes
of this grammar, and leaves those behind them alone (`varint_eq_ok_iff`, and for entries
`Shape.lineStep_append` and `shape_of_lineStep`).

A number may have more than the 32 bits that are kept of it. Nothing is said here about who writes
such numbers.
-/

namespace StackPeek.LineTable

theorem bind_eq_ok_iff {ε α β : Type} {x : Except ε α} {f : α → Except ε β} {b : β} :
    x >>= f = .ok b ↔ ∃ a, x = .ok a ∧ f a = .ok b := by
  cases x with
  | error e => exact ⟨nofun, fun ⟨_, h, _⟩ => nomatch h⟩
  | ok a => exact ⟨fun h => ⟨a, rfl, h⟩, fun ⟨_, h, hf⟩ => by cases h; exact hf⟩

/-- The number `n` in at most `room` groups, the lowest first. All but the last announce another. -/
inductive Groups : (room n : Nat) → List UInt8 → Prop where
  | last {room : Nat} {b : UInt8} : b.toNat / 64 % 2 = 0 → Groups (room + 1) (b.toNat % 64) [b]
  | more {room n : Nat} {b : UInt8} {bytes : List UInt8} :
      b.toNat / 64 % 2 = 1 → Groups room n bytes →
      Groups (room + 1) (b.toNat % 64 + 64 * n) (b :: bytes)

/-- The step of the line that a number stands for: the sign is its lowest bit, and bits from the
32nd on are dropped. -/
def stepOf (n : Nat) : Int :=
  let value := n % UInt32.size
  if value % 2 = 1 then -(value / 2 : Nat) else (value / 2 : Nat)

/-- The rest of an entry of a form, which moves the line by `delta`. -/
inductive Shape : (form : Nat) → (delta : Int) → List UInt8 → Prop where
  | short {form : Nat} (column : UInt8) : form < 10 → Shape form 0 [column]
  | oneLine {step : Nat} (column endColumn : UInt8) :
      step < 3 → Shape (10 + step) step [column, endColumn]
  | noColumns {n : Nat} {bytes : List UInt8} : Groups 6 n bytes → Shape 13 (stepOf n) bytes
  | long {n lines column endColumn : Nat} {b₁ b₂ b₃ b₄ : List UInt8} :
      Groups 6 n b₁ → Groups 6 lines b₂ → Groups 6 column b₃ → Groups 6 endColumn b₄ →
      Shape 14 (stepOf n) (b₁ ++ (b₂ ++ (b₃ ++ b₄)))
  | noLocation : Shape 15 0 []

theorem add_shiftLeft_group (sum n m weight : Nat) :
    sum + n <<< (6 * weight) + m <<< (6 * (weight + 1)) = sum + (n + 64 * m) <<< (6 * weight) := by
  rw [Nat.mul_succ, Nat.add_comm (6 * weight) 6, Nat.shiftLeft_add, Nat.shiftLeft_eq m 6,
    Nat.mul_comm m, Nat.add_assoc, Nat.shiftLeft_eq n, Nat.shiftLeft_eq (_ * m),
    Nat.shiftLeft_eq (n + _), ← Nat.add_mul]

theorem varintFrom_groups {room n : Nat} {bytes : List UInt8} (h : Groups room n bytes)
    {weight : Nat} (hroom : weight + room ≤ 6) (sum : Nat) (rest : List UInt8) :
    varintFrom weight sum (bytes ++ rest) = .ok (sum + n <<< (6 * weight), rest) := by
  induction h generalizing weight sum with
  | @last room b hlast =>
    have hlow : ¬ 32 ≤ 6 * weight := by omega
    have hstop : ¬ b.toNat / 64 % 2 = 1 := by omega
    rw [List.singleton_append, varintFrom, if_neg hlow]
    simp only [if_neg hstop]
  | @more room n b bytes hmore _ ih =>
    have hlow : ¬ 32 ≤ 6 * weight := by omega
    rw [List.cons_append, varintFrom, if_neg hlow]
    simp only [if_pos hmore]
    rw [ih (by omega), add_shiftLeft_group]

theorem groups_of_varintFrom {weight sum v : Nat} {bytes rest : List UInt8}
    (h : varintFrom weight sum bytes = .ok (v, rest)) :
    ∃ n groups, Groups (6 - weight) n groups ∧ bytes = groups ++ rest ∧
      v = sum + n <<< (6 * weight) := by
  induction bytes generalizing weight sum with
  | nil => cases h
  | cons b tail ih =>
    unfold varintFrom at h
    split at h
    · cases h
    rename_i hlow
    obtain ⟨room, hroom⟩ : ∃ room, 6 - weight = room + 1 := ⟨5 - weight, by omega⟩
    rw [hroom]
    simp only at h
    split at h
    · rename_i hmore
      obtain ⟨n, groups, hg, rfl, rfl⟩ := ih h
      have hrest : 6 - (weight + 1) = room := by omega
      rw [hrest] at hg
      exact ⟨_, _, .more hmore hg, rfl, add_shiftLeft_group _ _ _ _⟩
    · rename_i hlast
      cases h
      exact ⟨_, _, .last (by omega), rfl, rfl⟩

section
variable {bytes rest : List UInt8}

theorem varint_eq_ok_iff {v : UInt32} :
    varint bytes = .ok (v, rest) ↔
      ∃ n groups, Groups 6 n groups ∧ bytes = groups ++ rest ∧ v = UInt32.ofNat n := by
  unfold varint
  constructor
  · intro h
    obtain ⟨⟨sum, behind⟩, hsum, hv⟩ := bind_eq_ok_iff.mp h
    cases hv
    obtain ⟨n, groups, hg, rfl, rfl⟩ := groups_of_varintFrom hsum
    exact ⟨n, groups, hg, rfl, by rw [Nat.zero_add, Nat.mul_zero, Nat.shiftLeft_zero]⟩
  · rintro ⟨n, groups, hg, rfl, rfl⟩
    rw [varintFrom_groups hg (Nat.le_refl 6), Nat.zero_add, Nat.mul_zero, Nat.shiftLeft_zero]
    rfl

theorem signedVarint_eq_ok_iff {delta : Int} :
    signedVarint bytes = .ok (delta, rest) ↔
      ∃ n groups, Groups 6 n groups ∧ bytes = groups ++ rest ∧ delta = stepOf n := by
  have hword (n : Nat) : (UInt32.ofNat n).toNat = n % UInt32.size := UInt32.toNat_ofNat'
  unfold signedVarint
  constructor
  · intro h
    obtain ⟨⟨v, behind⟩, hv, hd⟩ := bind_eq_ok_iff.mp h
    obtain ⟨n, groups, hg, rfl, rfl⟩ := varint_eq_ok_iff.mp hv
    simp only [hword] at hd
    cases hd
    exact ⟨n, groups, hg, rfl, rfl⟩
  · rintro ⟨n, groups, hg, rfl, rfl⟩
    refine bind_eq_ok_iff.mpr ⟨_, varint_eq_ok_iff.mpr ⟨n, groups, hg, rfl, rfl⟩, ?_⟩
    simp only [hword]
    rfl

theorem skip_eq_ok_iff {count : Nat} :
    skip count bytes = .ok rest ↔ ∃ skipped, skipped.length = count ∧ bytes = skipped ++ rest := by
  induction count generalizing bytes with
  | zero =>
    constructor
    · intro h
      cases h
      exact ⟨[], rfl, rfl⟩
    · rintro ⟨skipped, hlength, rfl⟩
      rw [List.length_eq_zero_iff.mp hlength]
      rfl
  | succ count ih =>
    cases bytes with
    | nil =>
      constructor
      · nofun
      · rintro ⟨skipped, hlength, hnil⟩
        rw [(List.nil_eq_append_iff.mp hnil).1] at hlength
        cases hlength
    | cons b tail =>
      refine ih.trans ⟨?_, ?_⟩
      · rintro ⟨skipped, hlength, rfl⟩
        exact ⟨b :: skipped, congrArg Nat.succ hlength, rfl⟩
      · rintro ⟨skipped, hlength, heq⟩
        cases skipped with
        | nil => cases hlength
        | cons c skipped =>
          cases heq
          exact ⟨skipped, Nat.succ.inj hlength, rfl⟩

end

theorem formOf_lt (first : UInt8) : formOf first < 16 := Nat.mod_lt _ (by decide)

theorem Shape.form_lt {form : Nat} {delta : Int} {body : List UInt8} (h : Shape form delta body) :
    form < 16 := by
  cases h <;> omega

theorem Shape.lineStep_append {form : Nat} {delta : Int} {body : List UInt8}
    (h : Shape form delta body) (rest : List UInt8) :
    lineStep form (body ++ rest) = .ok (delta, rest) := by
  cases h with
  | short column hform =>
    rw [lineStep, if_neg (by omega), if_neg (by omega), if_neg (by omega), if_neg (by omega)]
    rfl
  | @oneLine step column endColumn hstep =>
    have hback : ((10 + step : Nat) : Int) - 10 = step := by omega
    rw [lineStep, if_neg (by omega), if_neg (by omega), if_neg (by omega), if_pos (by omega), hback]
    rfl
  | noColumns hg => exact signedVarint_eq_ok_iff.mpr ⟨_, _, hg, rfl, rfl⟩
  | @long n lines column endColumn b₁ b₂ b₃ b₄ h₁ h₂ h₃ h₄ =>
    simp only [List.append_assoc]
    rw [lineStep, if_neg (by decide), if_pos rfl]
    refine bind_eq_ok_iff.mpr ⟨_, signedVarint_eq_ok_iff.mpr ⟨_, _, h₁, rfl, rfl⟩, ?_⟩
    refine bind_eq_ok_iff.mpr ⟨_, varint_eq_ok_iff.mpr ⟨_, _, h₂, rfl, rfl⟩, ?_⟩
    refine bind_eq_ok_iff.mpr ⟨_, varint_eq_ok_iff.mpr ⟨_, _, h₃, rfl, rfl⟩, ?_⟩
    exact bind_eq_ok_iff.mpr ⟨_, varint_eq_ok_iff.mpr ⟨_, _, h₄, rfl, rfl⟩, rfl⟩
  | noLocation => rw [lineStep, if_pos rfl, List.nil_append]

theorem shape_of_lineStep {form : Nat} (hform : form < 16) {delta : Int} {bytes rest : List UInt8}
    (h : lineStep form bytes = .ok (delta, rest)) :
    ∃ body, Shape form delta body ∧ bytes = body ++ rest := by
  unfold lineStep at h
  split at h
  · rename_i hnone
    cases h
    subst hnone
    exact ⟨[], .noLocation, rfl⟩
  split at h
  · rename_i hlong
    subst hlong
    obtain ⟨⟨_, _⟩, h₁, h⟩ := bind_eq_ok_iff.mp h
    obtain ⟨⟨_, _⟩, h₂, h⟩ := bind_eq_ok_iff.mp h
    obtain ⟨⟨_, _⟩, h₃, h⟩ := bind_eq_ok_iff.mp h
    obtain ⟨⟨_, _⟩, h₄, h⟩ := bind_eq_ok_iff.mp h
    cases h
    obtain ⟨_, _, hg₁, rfl, rfl⟩ := signedVarint_eq_ok_iff.mp h₁
    obtain ⟨_, _, hg₂, rfl, -⟩ := varint_eq_ok_iff.mp h₂
    obtain ⟨_, _, hg₃, rfl, -⟩ := varint_eq_ok_iff.mp h₃
    obtain ⟨_, _, hg₄, rfl, -⟩ := varint_eq_ok_iff.mp h₄
    exact ⟨_, .long hg₁ hg₂ hg₃ hg₄, by simp only [List.append_assoc]⟩
  split at h
  · rename_i hcolumns
    subst hcolumns
    obtain ⟨_, groups, hg, rfl, rfl⟩ := signedVarint_eq_ok_iff.mp h
    exact ⟨groups, .noColumns hg, rfl⟩
  split at h
  · obtain ⟨step, rfl⟩ : ∃ step, form = 10 + step := ⟨form - 10, by omega⟩
    obtain ⟨behind, hskip, h⟩ := bind_eq_ok_iff.mp h
    have hback : ((10 + step : Nat) : Int) - 10 = step := by omega
    rw [hback] at h
    cases h
    obtain ⟨skipped, hlength, rfl⟩ := skip_eq_ok_iff.mp hskip
    match skipped, hlength with
    | [column, endColumn], _ => exact ⟨_, .oneLine column endColumn (by omega), rfl⟩
  · obtain ⟨behind, hskip, h⟩ := bind_eq_ok_iff.mp h
    cases h
    obtain ⟨skipped, hlength, rfl⟩ := skip_eq_ok_iff.mp hskip
    obtain ⟨column, rfl⟩ := List.length_eq_one_iff.mp hlength
    exact ⟨_, .short column (by omega), rfl⟩

/-- A table is at its end, or cut off in its next entry, or starts with an entry. -/
@[elab_as_elim] theorem entries_induction {P : List UInt8 → Prop} (nil : P [])
    (cut : ∀ first rest e, lineStep (formOf first) rest = .error e → P (first :: rest))
    (cons : ∀ first delta body behind, Shape (formOf first) delta body → P behind →
      P (first :: (body ++ behind)))
    (bytes : List UInt8) : P bytes := by
  induction hlength : bytes.length using Nat.strongRecOn generalizing bytes with
  | ind length ih =>
    cases bytes with
    | nil => exact nil
    | cons first rest =>
      cases hstep : lineStep (formOf first) rest with
      | error e => exact cut first rest e hstep
      | ok read =>
        obtain ⟨body, hshape, rfl⟩ := shape_of_lineStep (formOf_lt first) hstep
        refine cons first read.1 body read.2 hshape (ih read.2.length ?_ read.2 rfl)
        rw [List.length_cons, List.length_append] at hlength
        omega

section
variable {σ : Type} {f : σ → Range → ForInStep σ} {acc : σ} {start : Nat} {line : Int}
  {first : UInt8} {rest : List UInt8}

theorem visit_cons {delta : Int} {behind : List UInt8}
    (h : lineStep (formOf first) rest = .ok (delta, behind)) :
    visit f acc start line (first :: rest) =
      match f acc ⟨start, start + 2 * unitsOf first, line + delta⟩ with
      | .done acc => (acc, none)
      | .yield acc => visit f acc (start + 2 * unitsOf first) (line + delta) behind := by
  rw [visit]
  split
  · next hbad =>
    rw [h] at hbad
    cases hbad
  · next hgood =>
    rw [h] at hgood
    cases hgood
    rfl

theorem visit_cut {e : Malformed} (h : lineStep (formOf first) rest = .error e) :
    visit f acc start line (first :: rest) = (acc, some e) := by
  rw [visit]
  split
  · next hbad =>
    rw [h] at hbad
    cases hbad
    rfl
  · next hgood =>
    rw [h] at hgood
    cases hgood

end

end StackPeek.LineTable
