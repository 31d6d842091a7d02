import StackPeek.LineTable.Lookup
import StackPeek.Proofs.LineTable.Entries
import StackPeek.Proofs.LineTable.Ranges

/-!
# The four formats tell the same lines

`Written` gathers the rules by which each format writes down a row of runs. Whatever the format,
looking up a position in the table gives the line of the run that holds it
(`LineTable.lookup_written`).
-/

namespace StackPeek.LineTable

/-- The table of a format that starts at line `first` and stands for the runs. -/
def Written (first : Int32) (runs : List Run) (data : List UInt8) : LineTableFormat → Prop
  | .lnotab => StepTable unsignedStep 0 first runs data
  | .lnotabSigned => StepTable signedStep 0 first runs data
  | .linetable310 => RangeTable first runs data
  | .locationTable311 => EntryTable first runs data

/-- The format has the steps from one run to the next: the oldest never goes back, and the
newest has 31 bits and a sign for each. -/
def Fits (first : Int32) (runs : List Run) : LineTableFormat → Prop
  | .lnotab => EachStep (0 ≤ ·) first runs
  | .locationTable311 => EachStep (fun delta => delta.natAbs < UInt32.size / 2) first runs
  | .lnotabSigned | .linetable310 => True

theorem lineStepTo_self (r : Run) : lineStepTo r.line r = 0 := Int.sub_self _

theorem Moves.nonneg {gap : Nat} {delta : Int} {pairs : List UInt8}
    (h : Moves unsignedStep gap delta pairs) : 0 ≤ delta := by
  induction h with
  | @last _ b _ => exact Int.natCast_nonneg b.toNat
  | wide _ ih => exact ih
  | @steep _ _ b _ _ _ _ ih => exact Int.add_nonneg (Int.natCast_nonneg b.toNat) ih

theorem StepTable.eachStep {gap : Nat} {line : Int32} {runs : List Run} {bytes : List UInt8}
    (h : StepTable unsignedStep gap line runs bytes) : EachStep (0 ≤ ·) line runs := by
  induction h with
  | nil => trivial
  | @same _ r _ _ _ ih => exact ⟨Int.le_of_eq (lineStepTo_self r).symm, ih⟩
  | change _ hmoves _ ih => exact ⟨hmoves.nonneg, ih⟩

theorem natAbs_lt_of_zigzag {delta : Int} (h : zigzag delta < UInt32.size) :
    delta.natAbs < UInt32.size / 2 := by
  have hsize : UInt32.size = 4294967296 := rfl
  unfold zigzag at h
  split at h <;> omega

theorem Body.natAbs_lt {form : Nat} {delta : Int} {body : List UInt8} (h : Body form delta body) :
    delta.natAbs < UInt32.size / 2 := by
  have hsize : UInt32.size = 4294967296 := rfl
  cases h with
  | short => decide
  | oneLine => omega
  | noColumns hlt => exact natAbs_lt_of_zigzag hlt
  | long hlt => exact natAbs_lt_of_zigzag hlt

theorem Stretch.natAbs_lt {units : Nat} {delta : Int} {bytes : List UInt8}
    (h : Stretch units delta bytes) : delta.natAbs < UInt32.size / 2 := by
  cases h with
  | last _ _ hbody => exact hbody.natAbs_lt
  | more _ _ hbody => exact hbody.natAbs_lt

theorem EntryTable.eachStep {line : Int32} {runs : List Run} {bytes : List UInt8}
    (h : EntryTable line runs bytes) :
    EachStep (fun delta => delta.natAbs < UInt32.size / 2) line runs := by
  induction h with
  | nil => trivial
  | cons hstretch _ ih => exact ⟨hstretch.natAbs_lt, ih⟩

theorem exists_unsigned_moves {delta : Int} (h : 0 ≤ delta) (gap : Nat) :
    ∃ pairs, Moves unsignedStep gap delta pairs := by
  obtain ⟨n, rfl⟩ := Int.eq_ofNat_of_zero_le h
  have hbyte (k : Nat) (hk : k ≤ 255) : ∃ b, unsignedStep b = 1 * k := by
    refine ⟨.ofNat k, ?_⟩
    rw [unsignedStep, UInt8.toNat_ofNat', Nat.mod_eq_of_lt (by omega), Int.one_mul]
  obtain ⟨pairs, hp⟩ := exists_moves (.inl rfl) (by decide) hbyte n gap
  rw [Int.one_mul] at hp
  exact ⟨pairs, hp⟩

theorem exists_signed_moves (delta : Int) (gap : Nat) :
    ∃ pairs, Moves signedStep gap delta pairs := by
  by_cases hsign : 0 ≤ delta
  · have hbyte (k : Nat) (hk : k ≤ 127) : ∃ b, signedStep b = 1 * k :=
      exists_signedStep (by omega) (by omega)
    have hdelta : delta = 1 * (delta.natAbs : Int) := by omega
    rw [hdelta]
    exact exists_moves (.inl rfl) (by decide) hbyte delta.natAbs gap
  · have hbyte (k : Nat) (hk : k ≤ 128) : ∃ b, signedStep b = -1 * k :=
      exists_signedStep (by omega) (by omega)
    have hdelta : delta = -1 * (delta.natAbs : Int) := by omega
    rw [hdelta]
    exact exists_moves (.inr rfl) (by decide) hbyte delta.natAbs gap

theorem exists_written_iff (first : Int32) (runs : List Run) (format : LineTableFormat) :
    (∃ data, Written first runs data format) ↔ Fits first runs format := by
  constructor
  · rintro ⟨data, h⟩
    cases format with
    | lnotab => exact StepTable.eachStep h
    | lnotabSigned => trivial
    | linetable310 => trivial
    | locationTable311 => exact EntryTable.eachStep h
  · intro h
    cases format with
    | lnotab => exact exists_stepTable (fun _ => exists_unsigned_moves) h 0
    | lnotabSigned =>
      have hall (line : Int32) (runs : List Run) : EachStep (fun _ => True) line runs := by
        induction runs generalizing line with
        | nil => trivial
        | cons r rest ih => exact ⟨trivial, ih r.line⟩
      exact exists_stepTable (fun delta _ => exists_signed_moves delta) (hall first runs) 0
    | linetable310 => exact exists_rangeTable first runs
    | locationTable311 => exact exists_entryTable h

theorem exactLine_written {first : Int32} {runs : List Run} {data : List UInt8}
    {format : LineTableFormat} (h : Written first runs data format) (offset : Nat) :
    (⟨format, first, data⟩ : LineTable).exactLine offset =
      ((lineOf first runs offset).toInt, none) := by
  cases format with
  | lnotab =>
    have hline : stepLine unsignedStep offset 0 first.toInt data = _ := stepLine_table rfl h 0
    rw [if_neg (Nat.not_lt_zero offset)] at hline
    exact congrArg (·, none) hline
  | lnotabSigned =>
    have hline : stepLine signedStep offset 0 first.toInt data = _ := stepLine_table rfl h 0
    rw [if_neg (Nat.not_lt_zero offset)] at hline
    exact congrArg (·, none) hline
  | linetable310 => exact congrArg (·, none) (rangeLine_table h 0 (Nat.zero_le offset))
  | locationTable311 => exact search_table h 0 (Nat.zero_le offset)

/-- A format can write down all runs whose steps it has, and every table that stands for some
runs gives the line of the run that holds a position, or of the last run behind the end. -/
theorem lookup_written (first : Int32) (runs : List Run) (format : LineTableFormat) :
    ((∃ data, Written first runs data format) ↔ Fits first runs format) ∧
    ∀ data, Written first runs data format → ∀ offset : Int64, 0 < offset →
      (⟨format, first, data⟩ : LineTable).lookup offset =
        (lineOf first runs offset.toInt.toNat, none) := by
  refine ⟨exists_written_iff first runs format, ?_⟩
  intro data h offset hpos
  have hneg : ¬ offset ≤ 0 := Int64.not_le.mpr hpos
  rw [lookup, if_neg hneg, exactLine_written h]
  exact congrArg (·, none) (Int32.ofInt_toInt _)

/-- A gap, a step and an end that none of the formats has room for in one place. -/
def longRuns : List Run :=
  [⟨300, 1, by decide, rfl⟩, ⟨4, 301, by decide, rfl⟩, ⟨20, 302, by decide, rfl⟩]

theorem lookup_written_longRuns :
    (∃ data, Written 1 longRuns data .lnotab ∧
      (⟨.lnotab, 1, data⟩ : LineTable).lookup 303 = (301, none)) ∧
    (∃ data, Written 1 longRuns data .lnotabSigned ∧
      (⟨.lnotabSigned, 1, data⟩ : LineTable).lookup 299 = (1, none)) ∧
    (∃ data, Written 1 longRuns data .linetable310 ∧
      (⟨.linetable310, 1, data⟩ : LineTable).lookup 304 = (302, none)) ∧
    ∃ data, Written 1 longRuns data .locationTable311 ∧
      (⟨.locationTable311, 1, data⟩ : LineTable).lookup 1000 = (302, none) := by
  have hup : EachStep (0 ≤ ·) 1 longRuns := by decide
  have hnear : EachStep (fun delta => delta.natAbs < UInt32.size / 2) 1 longRuns := by decide
  obtain ⟨d₁, h₁⟩ := (lookup_written 1 longRuns .lnotab).1.mpr hup
  obtain ⟨d₂, h₂⟩ := (lookup_written 1 longRuns .lnotabSigned).1.mpr trivial
  obtain ⟨d₃, h₃⟩ := (lookup_written 1 longRuns .linetable310).1.mpr trivial
  obtain ⟨d₄, h₄⟩ := (lookup_written 1 longRuns .locationTable311).1.mpr hnear
  exact ⟨⟨d₁, h₁, ((lookup_written 1 longRuns .lnotab).2 d₁ h₁ 303 (by decide)).trans (by decide)⟩,
    ⟨d₂, h₂, ((lookup_written 1 longRuns .lnotabSigned).2 d₂ h₂ 299 (by decide)).trans (by decide)⟩,
    ⟨d₃, h₃, ((lookup_written 1 longRuns .linetable310).2 d₃ h₃ 304 (by decide)).trans (by decide)⟩,
    ⟨d₄, h₄, ((lookup_written 1 longRuns .locationTable311).2 d₄ h₄ 1000 (by decide)).trans (by decide)⟩⟩

end StackPeek.LineTable
