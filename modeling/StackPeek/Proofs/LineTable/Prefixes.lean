import StackPeek.LineTable.Lookup
import StackPeek.Proofs.LineTable.Grammar
import StackPeek.Proofs.LineTable.Ranges

/-!
# Whole entries of a table

A table may be cut off or damaged anywhere. `Whole` says that bytes are complete entries in a row,
pairs or entries of the grammar, and how much bytecode they cover. The longest such row at the
start of a table gives the same lines as the table, and a position that some first entries cover
already has its line from these (`lookup_whole`). So nothing that comes later changes a lookup.

Whether damage is reported does depend on what comes later.
-/

namespace StackPeek.LineTable

/-- A complete entry, and how much bytecode it covers. -/
inductive Piece : (format : LineTableFormat) → (covers : Nat) → List UInt8 → Prop where
  | pair {format : LineTableFormat} (move delta : UInt8) :
      format ≠ .locationTable311 → Piece format move.toNat [move, delta]
  | entry {first : UInt8} {delta : Int} {body : List UInt8} : Shape (formOf first) delta body →
      Piece .locationTable311 (2 * unitsOf first) (first :: body)

/-- Complete entries in a row. -/
inductive Whole (format : LineTableFormat) : (covers : Nat) → List UInt8 → Prop where
  | nil : Whole format 0 []
  | cons {n m : Nat} {piece bytes : List UInt8} :
      Piece format n piece → Whole format m bytes → Whole format (n + m) (piece ++ bytes)

/-- No complete entry comes next. -/
def Stuck (format : LineTableFormat) (tail : List UInt8) : Prop :=
  ∀ n piece, Piece format n piece → ¬ piece <+: tail

theorem Shape.unique {form : Nat} {delta delta' : Int} {body body' rest rest' : List UInt8}
    (h : Shape form delta body) (h' : Shape form delta' body') (he : body ++ rest = body' ++ rest') :
    body = body' := by
  have hstep := h.lineStep_append rest
  rw [he, h'.lineStep_append rest'] at hstep
  cases hstep
  exact List.append_cancel_right he

section
variable {format : LineTableFormat}

theorem Piece.unique {n m : Nat} {piece piece' rest rest' : List UInt8}
    (h : Piece format n piece) (h' : Piece format m piece') (he : piece ++ rest = piece' ++ rest') :
    piece = piece' := by
  cases h with
  | pair move delta hf =>
    cases h' with
    | pair move' delta' => cases he; rfl
    | entry => exact absurd rfl hf
  | entry hshape =>
    cases h' with
    | pair _ _ hf => exact absurd rfl hf
    | entry hshape' =>
      obtain ⟨rfl, hbody⟩ := List.cons.inj he
      rw [hshape.unique hshape' hbody]

theorem Piece.length_pos {n : Nat} {piece : List UInt8} (h : Piece format n piece) :
    0 < piece.length := by
  cases h <;> exact Nat.succ_pos _

theorem exists_whole (format : LineTableFormat) (t : List UInt8) :
    ∃ n c tail, t = c ++ tail ∧ Whole format n c ∧ Stuck format tail := by
  induction hlength : t.length using Nat.strongRecOn generalizing t with
  | ind length ih =>
    by_cases hnext : ∃ n piece, Piece format n piece ∧ piece <+: t
    · obtain ⟨n, piece, hpiece, rest, rfl⟩ := hnext
      have hshort : rest.length < length := by
        have := hpiece.length_pos
        rw [List.length_append] at hlength
        omega
      obtain ⟨m, c, tail, rfl, hc, htail⟩ := ih rest.length hshort rest rfl
      exact ⟨_, _, tail, (List.append_assoc _ _ _).symm, .cons hpiece hc, htail⟩
    · exact ⟨0, [], t, rfl, .nil, fun n piece hpiece hp => hnext ⟨n, piece, hpiece, hp⟩⟩

theorem Whole.prefix_of_stuck {n m : Nat} {p c rest tail : List UInt8} (hp : Whole format m p)
    (hc : Whole format n c) (htail : Stuck format tail) (he : p ++ rest = c ++ tail) : p <+: c := by
  induction hp generalizing n c with
  | nil => exact List.nil_prefix
  | @cons k l piece bytes hpiece _ ih =>
    rw [List.append_assoc] at he
    cases hc with
    | nil => exact absurd ⟨_, he⟩ (htail k piece hpiece)
    | @cons k' l' piece' bytes' hpiece' hbytes' =>
      rw [List.append_assoc] at he
      obtain rfl := hpiece.unique hpiece' he
      exact (List.prefix_append_right_inj piece).mpr (ih hbytes' (List.append_cancel_left he))

theorem Stuck.short {tail : List UInt8} (h : Stuck format tail) (hf : format ≠ .locationTable311) :
    tail = [] ∨ ∃ b, tail = [b] := by
  match tail with
  | [] => exact .inl rfl
  | [b] => exact .inr ⟨b, rfl⟩
  | move :: delta :: rest => exact absurd ⟨rest, rfl⟩ (h _ _ (.pair move delta hf))

end

section
variable {format : LineTableFormat} {offset n : Nat} {c tail : List UInt8}

theorem stepLine_append {step : UInt8 → Int} (h : Whole format n c)
    (hf : format ≠ .locationTable311) {position : Nat} (line : Int) (hstart : position ≤ offset)
    (htail : position + n ≤ offset →
      ∀ line, stepLine step offset (position + n) line tail = line) :
    stepLine step offset position line (c ++ tail) = stepLine step offset position line c := by
  induction h generalizing position line with
  | nil => exact (htail hstart line).trans (Eq.refl line)
  | @cons k m piece bytes hpiece _ ih =>
    cases hpiece with
    | entry => exact absurd rfl hf
    | pair move delta =>
      have hsum : position + (move.toNat + m) = position + move.toNat + m :=
        (Nat.add_assoc _ _ _).symm
      rw [hsum] at htail
      simp only [List.cons_append, List.nil_append, stepLine]
      by_cases hpast : offset < position + move.toNat
      · rw [if_pos hpast, if_pos hpast]
      · rw [if_neg hpast, if_neg hpast]
        exact ih _ (Nat.not_lt.mp hpast) htail

theorem rangeLine_append (h : Whole format n c) (hf : format ≠ .locationTable311) {stop : Nat}
    (line best : Int) (htail : ∀ line best, rangeLine offset (stop + n) line best tail = best) :
    rangeLine offset stop line best (c ++ tail) = rangeLine offset stop line best c := by
  induction h generalizing stop line best with
  | nil => exact (htail line best).trans (Eq.refl best)
  | @cons k m piece bytes hpiece _ ih =>
    cases hpiece with
    | entry => exact absurd rfl hf
    | pair move delta =>
      have hsum : stop + (move.toNat + m) = stop + move.toNat + m := (Nat.add_assoc _ _ _).symm
      rw [hsum] at htail
      simp only [List.cons_append, List.nil_append, rangeLine, ih _ _ htail]

/-- `g` is what is kept of a search: the line, or with it whether the table is damaged. -/
theorem visit_append {α : Type} (g : Int × Option Malformed → α)
    (h : Whole .locationTable311 n c) {start : Nat} (line : Int) (hstart : start ≤ offset)
    (htail : start + n ≤ offset →
      ∀ line, g (visit (search offset) line (start + n) line tail) = g (line, none)) :
    g (visit (search offset) line start line (c ++ tail)) =
      g (visit (search offset) line start line c) := by
  induction h generalizing start line with
  | nil => exact (htail hstart line).trans (congrArg g (visit.eq_1 _ _ _ _).symm)
  | @cons k m piece bytes hpiece _ ih =>
    cases hpiece with
    | pair _ _ hf => exact absurd rfl hf
    | @entry first delta body hshape =>
      have hsum : start + (2 * unitsOf first + m) = start + 2 * unitsOf first + m :=
        (Nat.add_assoc _ _ _).symm
      rw [hsum] at htail
      rw [List.append_assoc, List.cons_append, List.cons_append,
        visit_cons (hshape.lineStep_append _), visit_cons (hshape.lineStep_append _), search,
        if_neg (Nat.not_lt.mpr hstart)]
      by_cases hin : offset < start + 2 * unitsOf first
      · rw [if_pos hin]
      · rw [if_neg hin]
        exact ih _ (Nat.not_lt.mp hin) htail

theorem stepLine_stuck {step : UInt8 → Int} (h : Stuck format tail)
    (hf : format ≠ .locationTable311) (position : Nat) (line : Int) :
    stepLine step offset position line tail = line := by
  rcases h.short hf with rfl | ⟨b, rfl⟩ <;> rfl

theorem rangeLine_stuck (h : Stuck format tail) (hf : format ≠ .locationTable311) (stop : Nat)
    (line best : Int) : rangeLine offset stop line best tail = best := by
  rcases h.short hf with rfl | ⟨b, rfl⟩ <;> rfl

theorem visit_stuck (h : Stuck .locationTable311 tail) (start : Nat) (line : Int) :
    (visit (search offset) line start line tail).1 = line := by
  cases tail with
  | nil => exact congrArg Prod.fst (visit.eq_1 _ _ _ _)
  | cons first rest =>
    cases hstep : lineStep (formOf first) rest with
    | error e => rw [visit_cut hstep]
    | ok read =>
      obtain ⟨body, hshape, rfl⟩ := shape_of_lineStep (formOf_lt first) hstep
      exact absurd ⟨read.2, rfl⟩ (h _ _ (.entry hshape))

end

section
variable {format : LineTableFormat} {n : Nat} {c tail : List UInt8}

/-- What starts no complete entry does not matter. -/
theorem exactLine_stuck (h : Whole format n c) (htail : Stuck format tail) (first : Int32)
    (offset : Nat) :
    ((⟨format, first, c ++ tail⟩ : LineTable).exactLine offset).1 =
      ((⟨format, first, c⟩ : LineTable).exactLine offset).1 := by
  have hstart : 0 ≤ offset := Nat.zero_le offset
  cases format with
  | lnotab => exact stepLine_append h nofun _ hstart fun _ => stepLine_stuck htail nofun _
  | lnotabSigned => exact stepLine_append h nofun _ hstart fun _ => stepLine_stuck htail nofun _
  | linetable310 => exact rangeLine_append h nofun _ _ (rangeLine_stuck htail nofun _)
  | locationTable311 =>
    exact visit_append Prod.fst h _ hstart fun _ => visit_stuck htail _

theorem exactLine_covered (h : Whole format n c) (first : Int32) {offset : Nat} (ho : offset < n) :
    (⟨format, first, c ++ tail⟩ : LineTable).exactLine offset =
      (⟨format, first, c⟩ : LineTable).exactLine offset := by
  have hstart : 0 ≤ offset := Nat.zero_le offset
  have hlt : offset < 0 + n := by rwa [Nat.zero_add]
  cases format with
  | lnotab =>
    exact congrArg (·, none)
      (stepLine_append h nofun _ hstart fun hle => absurd hlt (Nat.not_lt.mpr hle))
  | lnotabSigned =>
    exact congrArg (·, none)
      (stepLine_append h nofun _ hstart fun hle => absurd hlt (Nat.not_lt.mpr hle))
  | linetable310 =>
    exact congrArg (·, none) (rangeLine_append h nofun _ _ fun _ _ => rangeLine_of_lt tail hlt)
  | locationTable311 =>
    exact visit_append id h _ hstart fun hle => absurd hlt (Nat.not_lt.mpr hle)

end

/-- Of every table the longest row of complete entries at its start tells the same lines, and the
line at a position is that of any complete entries at the start that cover the position. -/
theorem lookup_whole (format : LineTableFormat) (first : Int32) (t : List UInt8) :
    ∃ n c, c <+: t ∧ Whole format n c ∧
      (∀ m p, p <+: t → Whole format m p → p.length ≤ c.length) ∧
      ∀ offset : Int64,
        ((⟨format, first, t⟩ : LineTable).lookup offset).1 =
          ((⟨format, first, c⟩ : LineTable).lookup offset).1 ∧
        ∀ m p, p <+: c → Whole format m p → offset.toInt < m →
          (⟨format, first, t⟩ : LineTable).lookup offset =
            (⟨format, first, p⟩ : LineTable).lookup offset := by
  obtain ⟨n, c, tail, rfl, hc, htail⟩ := exists_whole format t
  refine ⟨n, c, List.prefix_append c tail, hc, ?_, ?_⟩
  · rintro m p ⟨rest, he⟩ hp
    exact (hp.prefix_of_stuck hc htail he).length_le
  intro offset
  unfold lookup
  by_cases hpos : offset ≤ 0
  · simp only [if_pos hpos]
    exact ⟨trivial, fun _ _ _ _ _ => trivial⟩
  simp only [if_neg hpos]
  refine ⟨?_, ?_⟩
  · rw [exactLine_stuck hc htail]
  · rintro m p ⟨rest, rfl⟩ hp ho
    have hnat : offset.toInt.toNat < m := by
      have hlt := Int64.lt_iff_toInt_lt.mp (Int64.not_le.mp hpos)
      rw [Int64.toInt_zero] at hlt
      omega
    rw [List.append_assoc, exactLine_covered hp first hnat]

/-- Two complete pairs and half a third one, in two formats, and two complete entries and the head
of a third one. -/
theorem lookup_whole_cutShort :
    (Whole .lnotab 10 [4, 1, 6, 2] ∧
      ∃ c, c <+: [4, 1, 6, 2, 3] ∧ [4, 1, 6, 2] <+: c ∧
        ((⟨.lnotab, 10, c⟩ : LineTable).lookup 12).1 = 13 ∧
        (⟨.lnotab, 10, [4, 1, 6, 2, 3]⟩ : LineTable).lookup 8 = (11, none)) ∧
    (Whole .linetable310 10 [4, 1, 6, 0] ∧
      ∃ c, c <+: [4, 1, 6, 0, 2] ∧ [4, 1, 6, 0] <+: c ∧
        ((⟨.linetable310, 10, c⟩ : LineTable).lookup 12).1 = 11 ∧
        (⟨.linetable310, 10, [4, 1, 6, 0, 2]⟩ : LineTable).lookup 8 = (11, none)) ∧
    Whole .locationTable311 8 [0xE9, 2, 0xE9, 4] ∧
      ∃ c, c <+: [0xE9, 2, 0xE9, 4, 0xE9] ∧ [0xE9, 2, 0xE9, 4] <+: c ∧
        ((⟨.locationTable311, 10, c⟩ : LineTable).lookup 12).1 = 13 ∧
        (⟨.locationTable311, 10, [0xE9, 2, 0xE9, 4, 0xE9]⟩ : LineTable).lookup 6 = (13, none) := by
  have hcut {format : LineTableFormat} {m : Nat} {t p : List UInt8} {far near : Int64} {line : Int32}
      {answer : Int32 × Option Malformed} (hp : Whole format m p) (hbegins : p <+: t)
      (hnear : near.toInt < m) (hline : ((⟨format, 10, t⟩ : LineTable).lookup far).1 = line)
      (hanswer : (⟨format, 10, p⟩ : LineTable).lookup near = answer) :
      ∃ c, c <+: t ∧ p <+: c ∧ ((⟨format, 10, c⟩ : LineTable).lookup far).1 = line ∧
        (⟨format, 10, t⟩ : LineTable).lookup near = answer := by
    obtain ⟨n, c, hc, -, hlongest, hlookup⟩ := lookup_whole format 10 t
    have hpc : p <+: c := List.prefix_of_prefix_length_le hbegins hc (hlongest m p hbegins hp)
    exact ⟨c, hc, hpc, (hlookup far).1.symm.trans hline,
      ((hlookup near).2 m p hpc hp hnear).trans hanswer⟩
  have hpairs (format : LineTableFormat) (hf : format ≠ .locationTable311) (delta : UInt8) :
      Whole format 10 [4, 1, 6, delta] := .cons (.pair 4 1 hf) (.cons (.pair 6 delta hf) .nil)
  have hentry (b : UInt8) (h : b.toNat / 64 % 2 = 0) : Piece .locationTable311 4 [0xE9, b] :=
    @Piece.entry 0xE9 _ _ (.noColumns (.last h))
  have hentries : Whole .locationTable311 8 [0xE9, 2, 0xE9, 4] :=
    .cons (hentry 2 rfl) (.cons (hentry 4 rfl) .nil)
  have hold := hpairs .lnotab nofun 2
  have hnew := hpairs .linetable310 nofun 0
  refine ⟨⟨hold, ?_⟩, ⟨hnew, ?_⟩, hentries, ?_⟩
  · exact hcut hold ⟨[3], rfl⟩ (by decide) (by decide) (by decide)
  · exact hcut hnew ⟨[2], rfl⟩ (by decide) (by decide) (by decide)
  · exact hcut hentries ⟨[0xE9], rfl⟩ (by decide) (by decide +kernel) (by decide +kernel)

end StackPeek.LineTable
