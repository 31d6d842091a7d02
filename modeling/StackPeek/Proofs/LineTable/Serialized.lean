import StackPeek.LineTable.Lookup
import StackPeek.Proofs.LineTable.Entries

/-!
# Location tables entry by entry

An `Entry` has all that one entry of a location table tells, columns and ends of lines included,
and `serialize` writes a row of them. Walking over the bytes shows a visitor one range for each
entry, and a lookup gives the line of the entry that holds the position
(`lookup_serialize`).
-/

namespace StackPeek.LineTable

/-- A number in six-bit groups, `more` of which may follow the first. -/
def writeGroups : (more : Nat) → (n : Nat) → List UInt8
  | 0, n => [.ofNat n]
  | more + 1, n => if n < 64 then [.ofNat n] else .ofNat (64 + n % 64) :: writeGroups more (n / 64)

/-- A step of the line as an entry has it. The sign stands apart, so zero can be written twice. -/
structure SignedStep where
  backward : Bool
  size : Nat
  small : size < UInt32.size / 2

namespace SignedStep

def delta (s : SignedStep) : Int := if s.backward then -(s.size : Int) else s.size

def word (s : SignedStep) : Nat := 2 * s.size + s.backward.toNat

end SignedStep

/-- What an entry tells besides its length. -/
inductive Content where
  | short (code : Fin 10) (columns : UInt8)
  | oneLine (step : Fin 3) (column endColumn : UInt8)
  | noColumns (step : SignedStep)
  | long (step : SignedStep) (lines column endColumn : UInt32)
  | noLocation

namespace Content

def form : Content → Nat
  | .short code _ => code
  | .oneLine step _ _ => 10 + step
  | .noColumns _ => 13
  | .long _ _ _ _ => 14
  | .noLocation => 15

def delta : Content → Int
  | .short _ _ | .noLocation => 0
  | .oneLine step _ _ => (step : Nat)
  | .noColumns step | .long step _ _ _ => step.delta

def bytes : Content → List UInt8
  | .short _ columns => [columns]
  | .oneLine _ column endColumn => [column, endColumn]
  | .noColumns step => writeGroups 5 step.word
  | .long step lines column endColumn =>
    writeGroups 5 step.word ++ (writeGroups 5 lines.toNat ++
      (writeGroups 5 column.toNat ++ writeGroups 5 endColumn.toNat))
  | .noLocation => []

end Content

structure Entry where
  units : Nat
  content : Content
  pos : 1 ≤ units
  le : units ≤ 8

def Entry.bytes (e : Entry) : List UInt8 := head e.content.form e.units :: e.content.bytes

def serialize (entries : List Entry) : List UInt8 := entries.flatMap Entry.bytes

/-- The ranges of entries in a row, the first of which starts at `start`, where the line so far
is `line`. -/
def ranges (start : Nat) (line : Int) : List Entry → List Range
  | [] => []
  | e :: rest =>
    ⟨start, start + 2 * e.units, line + e.content.delta⟩ ::
      ranges (start + 2 * e.units) (line + e.content.delta) rest

/-- What a visitor makes of ranges that it is shown one after the other. -/
def shown {σ : Type} (f : σ → Range → ForInStep σ) (acc : σ) (rs : List Range) : σ :=
  Id.run (forIn rs acc fun r acc => pure (f acc r))

theorem varint_writeGroups {more n : Nat} (h : n < 1 <<< (6 * (more + 1))) :
    Varint n (writeGroups more n) := by
  induction more generalizing n with
  | zero => exact .last h
  | succ more ih =>
    rw [writeGroups]
    split
    · rename_i hsmall
      exact .last hsmall
    · rename_i hbig
      refine .more (Nat.not_lt.mp hbig) (ih ?_)
      rw [Nat.mul_succ, Nat.shiftLeft_add, Nat.shiftLeft_eq _ 6] at h
      omega

theorem groups_writeGroups {n : Nat} (h : n < UInt32.size) : Groups 6 n (writeGroups 5 n) :=
  (varint_writeGroups (Nat.lt_trans h (by decide))).groups_of_lt h

namespace SignedStep
variable (s : SignedStep)

theorem word_lt : s.word < UInt32.size := by
  have hsmall := s.small
  have hsize : UInt32.size = 4294967296 := rfl
  have hsign : s.backward.toNat ≤ 1 := Bool.toNat_le _
  unfold word
  omega

theorem stepOf_word : stepOf s.word = s.delta := by
  unfold stepOf
  rw [Nat.mod_eq_of_lt s.word_lt]
  unfold word delta
  cases s.backward with
  | false =>
    simp only [Bool.toNat_false, Bool.false_eq_true, if_false]
    rw [if_neg (by omega)]
    omega
  | true =>
    simp only [Bool.toNat_true, if_true]
    rw [if_pos (by omega)]
    omega

end SignedStep

theorem Content.shape (c : Content) : Shape c.form c.delta c.bytes := by
  cases c with
  | short code columns => exact .short columns code.isLt
  | oneLine step column endColumn => exact .oneLine column endColumn step.isLt
  | noColumns step =>
    rw [delta, ← step.stepOf_word]
    exact .noColumns (groups_writeGroups step.word_lt)
  | long step lines column endColumn =>
    rw [delta, ← step.stepOf_word]
    exact .long (groups_writeGroups step.word_lt) (groups_writeGroups lines.toNat_lt)
      (groups_writeGroups column.toNat_lt) (groups_writeGroups endColumn.toNat_lt)
  | noLocation => exact .noLocation

section
variable {σ : Type} (f : σ → Range → ForInStep σ) (acc : σ)

theorem shown_cons (r : Range) (rest : List Range) :
    shown f acc (r :: rest) =
      match f acc r with
      | .done acc => acc
      | .yield acc => shown f acc rest := by
  unfold shown
  rw [List.forIn_cons]
  cases f acc r <;> rfl

theorem visit_entry (start : Nat) (line : Int) (e : Entry) (rest : List UInt8) :
    visit f acc start line (e.bytes ++ rest) =
      match f acc ⟨start, start + 2 * e.units, line + e.content.delta⟩ with
      | .done acc => (acc, none)
      | .yield acc => visit f acc (start + 2 * e.units) (line + e.content.delta) rest := by
  have hform := e.content.shape.form_lt
  have hstep : lineStep (formOf (head e.content.form e.units)) (e.content.bytes ++ rest) =
      .ok (e.content.delta, rest) := by
    rw [formOf_head hform e.le, e.content.shape.lineStep_append]
  have hvisit := @visit_cons σ f acc start line _ _ _ _ hstep
  rw [unitsOf_head hform e.pos e.le] at hvisit
  rw [Entry.bytes, List.cons_append]
  exact hvisit

theorem visit_serialize (start : Nat) (line : Int) (entries : List Entry) :
    visit f acc start line (serialize entries) =
      (shown f acc (ranges start line entries), none) := by
  induction entries generalizing acc start line with
  | nil => exact visit.eq_1 f acc start line
  | cons e rest ih =>
    have hbytes : serialize (e :: rest) = e.bytes ++ serialize rest := List.flatMap_cons
    rw [hbytes, visit_entry, ranges, shown_cons]
    split
    · rfl
    · exact ih _ _ _

end

theorem le_of_mem_ranges {start : Nat} {line : Int} {entries : List Entry} {r : Range}
    (h : r ∈ ranges start line entries) : start ≤ r.start ∧ r.start < r.stop := by
  induction entries generalizing start line with
  | nil => cases h
  | cons e rest ih =>
    have hpos := e.pos
    rcases List.mem_cons.mp h with rfl | h
    · exact ⟨Nat.le_refl _, Nat.lt_add_of_pos_right (Nat.mul_pos Nat.two_pos hpos)⟩
    · obtain ⟨hstart, hstop⟩ := ih h
      exact ⟨Nat.le_trans (Nat.le_add_right _ _) hstart, hstop⟩

/-- `line` is in force at `offset`, given ranges behind the line `first`. -/
structure InForce (offset : Nat) (first : Int) (rs : List Range) (line : Int) : Prop where
  inside : ∀ r ∈ rs, r.start ≤ offset → offset < r.stop → line = r.line
  behind : ∀ r, rs.getLast? = some r → r.stop ≤ offset → line = r.line
  empty : rs = [] → line = first

theorem shown_search_cons (offset : Nat) (line : Int) (r : Range) (rest : List Range) :
    shown (search offset) line (r :: rest) =
      if offset < r.start then line
      else if offset < r.stop then r.line
      else shown (search offset) r.line rest := by
  rw [shown_cons, search]
  by_cases hbefore : offset < r.start
  · rw [if_pos hbefore, if_pos hbefore]
  rw [if_neg hbefore, if_neg hbefore]
  by_cases hin : offset < r.stop
  · rw [if_pos hin, if_pos hin]
  · rw [if_neg hin, if_neg hin]

theorem inForce_shown {offset start : Nat} (hstart : start ≤ offset) (line : Int)
    (entries : List Entry) :
    InForce offset line (ranges start line entries)
      (shown (search offset) line (ranges start line entries)) := by
  induction entries generalizing start line with
  | nil => exact ⟨nofun, nofun, fun _ => rfl⟩
  | cons e rest ih =>
    rw [ranges, shown_search_cons, if_neg (Nat.not_lt.mpr hstart)]
    by_cases hin : offset < start + 2 * e.units
    · rw [if_pos hin]
      have hlater (r : Range) (h : r ∈ ranges (start + 2 * e.units) (line + e.content.delta) rest) :
          offset < r.start ∧ r.start < r.stop := by
        obtain ⟨hfrom, hstop⟩ := le_of_mem_ranges h
        exact ⟨Nat.lt_of_lt_of_le hin hfrom, hstop⟩
      refine ⟨?_, ?_, nofun⟩
      · intro r hr hfrom _
        rcases List.mem_cons.mp hr with rfl | hr
        · rfl
        · exact absurd hfrom (Nat.not_le.mpr (hlater r hr).1)
      · intro r hr hstop
        rcases List.mem_cons.mp (List.mem_of_getLast? hr) with rfl | hr
        · rfl
        · obtain ⟨hfrom, hlong⟩ := hlater r hr
          omega
    · rw [if_neg hin]
      have hrest := ih (Nat.not_lt.mp hin) (line + e.content.delta)
      refine ⟨?_, ?_, nofun⟩
      · intro r hr hfrom hstop
        rcases List.mem_cons.mp hr with rfl | hr
        · exact absurd hstop hin
        · exact hrest.inside r hr hfrom hstop
      · intro r hr hstop
        cases hlist : ranges (start + 2 * e.units) (line + e.content.delta) rest with
        | nil =>
          rw [hlist, List.getLast?_singleton] at hr
          injection hr with hr
          rw [hlist] at hrest
          rw [← hr]
          exact hrest.empty rfl
        | cons next others =>
          rw [hlist, List.getLast?_cons_cons, ← hlist] at hr
          rw [← hlist]
          exact hrest.behind r hr hstop

theorem shown_search_mem (offset : Nat) (line : Int) (rs : List Range) :
    shown (search offset) line rs = line ∨
      ∃ r ∈ rs, shown (search offset) line rs = r.line := by
  induction rs generalizing line with
  | nil => exact .inl rfl
  | cons r rest ih =>
    rw [shown_search_cons]
    split
    · exact .inl rfl
    · split
      · exact .inr ⟨r, List.mem_cons_self, rfl⟩
      · rcases ih r.line with h | ⟨r', hr, h⟩
        · exact .inr ⟨r, List.mem_cons_self, h⟩
        · exact .inr ⟨r', List.mem_cons_of_mem r hr, h⟩

/-- Of a table that is written entry by entry, every visitor sees one range for each entry, with
the sums of the lengths and of the steps before it. A lookup gives the line of the range that
holds the position, or of the last one behind the end, or the first line if there are no
entries. -/
theorem lookup_serialize (first : Int32) (entries : List Entry)
    (hlines : ∀ r ∈ ranges 0 first.toInt entries, Storable r.line) :
    (∀ {σ : Type} (f : σ → Range → ForInStep σ) (acc : σ),
      visit f acc 0 first.toInt (serialize entries) =
        (shown f acc (ranges 0 first.toInt entries), none)) ∧
    ∀ offset : Int64, 0 < offset → ∃ line : Int32,
      (⟨.locationTable311, first, serialize entries⟩ : LineTable).lookup offset = (line, none) ∧
        InForce offset.toInt.toNat first.toInt (ranges 0 first.toInt entries) line.toInt := by
  refine ⟨fun f acc => visit_serialize f acc 0 first.toInt entries, ?_⟩
  intro offset hpos
  have hneg : ¬ offset ≤ 0 := Int64.not_le.mpr hpos
  have hline : Storable
      (shown (search offset.toInt.toNat) first.toInt (ranges 0 first.toInt entries)) := by
    rcases shown_search_mem offset.toInt.toNat first.toInt (ranges 0 first.toInt entries) with
      h | ⟨r, hr, h⟩
    · rw [h]
      exact storable_toInt first
    · rw [h]
      exact hlines r hr
  refine ⟨Int32.ofInt
    (shown (search offset.toInt.toNat) first.toInt (ranges 0 first.toInt entries)), ?_, ?_⟩
  · rw [lookup, if_neg hneg, exactLine, entryLine, visit_serialize]
  · rw [hline.toInt_ofInt]
    exact inForce_shown (Nat.zero_le _) first.toInt entries

/-- An entry of each form. Of the steps, one is a zero that goes backward. -/
def everyForm : List Entry :=
  [⟨2, .noColumns ⟨false, 300, by decide⟩, by decide, by decide⟩,
    ⟨8, .short 3 0xFF, by decide, by decide⟩,
    ⟨1, .long ⟨true, 305, by decide⟩ 4294967295 80 64, by decide, by decide⟩,
    ⟨3, .noLocation, by decide, by decide⟩,
    ⟨1, .oneLine 2 0x40 0x80, by decide, by decide⟩,
    ⟨4, .noColumns ⟨true, 0, by decide⟩, by decide, by decide⟩]

theorem lookup_serialize_everyForm :
    (∀ r ∈ ranges 0 7 everyForm, Storable r.line) ∧
      (visit (fun seen r => .yield (seen ++ [r])) [] 0 7 (serialize everyForm) =
        ([⟨0, 4, 307⟩, ⟨4, 20, 307⟩, ⟨20, 22, 2⟩, ⟨22, 28, 2⟩, ⟨28, 30, 4⟩, ⟨30, 38, 4⟩], none)) ∧
      ∃ line : Int32,
        (⟨.locationTable311, 7, serialize everyForm⟩ : LineTable).lookup 21 = (line, none) ∧
          line.toInt = 2 := by
  have hlines : ∀ r ∈ ranges 0 (7 : Int32).toInt everyForm, Storable r.line := by decide
  obtain ⟨hvisit, hlookup⟩ := lookup_serialize 7 everyForm hlines
  obtain ⟨line, hline, hforce⟩ := hlookup 21 (by decide)
  exact ⟨hlines, (hvisit _ []).trans (by decide), line, hline,
    hforce.inside ⟨20, 22, 2⟩ (by decide) (by decide) (by decide)⟩

end StackPeek.LineTable
