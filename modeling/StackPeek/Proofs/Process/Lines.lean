import StackPeek.Process.Procfs

/-!
# Text as lines

`ProcEntry.Lines text ls` says that a text consists of these lines: a line feed stands behind each
of them, where the one behind the last line may be missing unless that line is empty. Every text
consists of exactly one list of lines, and it is the one that is read (`lines_iff`).
-/

namespace StackPeek.ProcEntry

inductive Lines : List UInt8 → List (List UInt8) → Prop where
  | nil : Lines [] []
  /-- The last line, with nothing behind it. -/
  | last {line : List UInt8} : line ≠ [] → 10 ∉ line → Lines line [line]
  | cons {line rest : List UInt8} {more : List (List UInt8)} :
      10 ∉ line → Lines rest more → Lines (line ++ 10 :: rest) (line :: more)

theorem linesOnto_break (done : List (List UInt8)) (front : List UInt8) {line : List UInt8}
    (h : 10 ∉ line) (rest : List UInt8) :
    linesOnto done front (line ++ 10 :: rest) =
      linesOnto ((front.reverse ++ line) :: done) [] rest := by
  induction line generalizing front with
  | nil => rw [List.nil_append, linesOnto, if_pos rfl, List.append_nil]
  | cons b line ih =>
    have hb : b ≠ 10 := (List.ne_of_not_mem_cons h).symm
    rw [List.cons_append, linesOnto, if_neg hb, ih _ (List.not_mem_of_not_mem_cons h),
      List.reverse_cons, List.append_assoc, List.singleton_append]

theorem linesOnto_last (done : List (List UInt8)) (front : List UInt8) {line : List UInt8}
    (hline : 10 ∉ line) (hne : front.reverse ++ line ≠ []) :
    linesOnto done front line = ((front.reverse ++ line) :: done).reverse := by
  induction line generalizing front with
  | nil =>
    rw [List.append_nil] at hne ⊢
    have hfront : front.isEmpty = false :=
      List.isEmpty_eq_false_iff.mpr fun h => hne (List.reverse_eq_nil_iff.mpr h)
    rw [linesOnto, hfront]
    rfl
  | cons b line ih =>
    have hb : b ≠ 10 := (List.ne_of_not_mem_cons hline).symm
    have hcons : (b :: front).reverse ++ line = front.reverse ++ b :: line := by
      rw [List.reverse_cons, List.append_assoc, List.singleton_append]
    rw [linesOnto, if_neg hb, ih _ (List.not_mem_of_not_mem_cons hline) (hcons ▸ hne), hcons]

theorem Lines.linesOnto_eq {text : List UInt8} {ls : List (List UInt8)} (h : Lines text ls)
    (done : List (List UInt8)) : linesOnto done [] text = done.reverse ++ ls := by
  induction h generalizing done with
  | nil => rw [List.append_nil]; rfl
  | last hne hline => rw [linesOnto_last done [] hline hne, List.reverse_cons]; rfl
  | cons hline _ ih =>
    rw [linesOnto_break done [] hline, ih, List.reverse_cons, List.append_assoc]
    rfl

theorem exists_lines (text : List UInt8) : ∃ ls, Lines text ls := by
  induction hn : text.length using Nat.strongRecOn generalizing text with
  | _ n ih =>
    by_cases h : 10 ∈ text
    · obtain ⟨line, rest, rfl, hline⟩ := List.eq_append_cons_of_mem h
      rw [List.length_append, List.length_cons] at hn
      obtain ⟨more, hmore⟩ := ih rest.length (by omega) rest rfl
      exact ⟨line :: more, .cons hline hmore⟩
    · cases text with
      | nil => exact ⟨[], .nil⟩
      | cons b rest => exact ⟨[b :: rest], .last (List.cons_ne_nil b rest) h⟩

theorem lines_iff {text : List UInt8} {ls : List (List UInt8)} : lines text = ls ↔ Lines text ls := by
  constructor
  · rintro rfl
    obtain ⟨ls, hls⟩ := exists_lines text
    have hlines : lines text = ls := hls.linesOnto_eq []
    rwa [hlines]
  · intro h
    exact h.linesOnto_eq []

/-- Lines that all end in a line feed. -/
theorem lines_of_ended {ls : List (List UInt8)} (h : ∀ l ∈ ls, 10 ∉ l) :
    Lines (ls.flatMap (· ++ [10])) ls := by
  induction ls with
  | nil => exact .nil
  | cons l rest ih =>
    rw [List.flatMap_cons, List.append_assoc, List.singleton_append]
    exact .cons (h l List.mem_cons_self) (ih fun l hl => h l (List.mem_cons_of_mem _ hl))

end StackPeek.ProcEntry
