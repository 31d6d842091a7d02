import StackPeek.Proofs.LineTable.Grammar
import StackPeek.Proofs.LineTable.Steps

/-!
# Tables of entries

An entry covers up to eight code units, and a longer run goes on in entries without a line
step. `Body` is what follows the first byte of an entry of each form that has a line. The
columns may be anything: they are read over. All numbers of an entry have 32 bits, which is
what six groups of six bits can hold (`Varint.groups`), so a written entry is one of the grammar
(`Body.shape`).
-/

namespace StackPeek.LineTable

/-- The bytes of a number, six bits each from the lowest. All but the last announce another. -/
inductive Varint : (n : Nat) → List UInt8 → Prop where
  | last {n : Nat} : n < 64 → Varint n [.ofNat n]
  | more {n : Nat} {bytes : List UInt8} :
      64 ≤ n → Varint (n / 64) bytes → Varint n (.ofNat (64 + n % 64) :: bytes)

/-- A step of the line as a number, with the sign in its lowest bit. -/
def zigzag (delta : Int) : Nat := if delta < 0 then 2 * delta.natAbs + 1 else 2 * delta.natAbs

def head (form units : Nat) : UInt8 := .ofNat (128 + 8 * form + (units - 1))

/-- The rest of an entry that steps by `delta`. -/
inductive Body : (form : Nat) → (delta : Int) → List UInt8 → Prop where
  | short {form : Nat} (columns : UInt8) : form < 10 → Body form 0 [columns]
  | oneLine {step : Nat} (column endColumn : UInt8) :
      step < 3 → Body (10 + step) step [column, endColumn]
  | noColumns {delta : Int} {bytes : List UInt8} :
      zigzag delta < UInt32.size → Varint (zigzag delta) bytes → Body 13 delta bytes
  | long {delta : Int} {lines column endColumn : Nat} {b₁ b₂ b₃ b₄ : List UInt8} :
      zigzag delta < UInt32.size → lines < UInt32.size →
      column < UInt32.size → endColumn < UInt32.size →
      Varint (zigzag delta) b₁ → Varint lines b₂ → Varint column b₃ → Varint endColumn b₄ →
      Body 14 delta (b₁ ++ (b₂ ++ (b₃ ++ b₄)))

/-- Entries for a run of code units, the first of which steps by `delta`. -/
inductive Stretch : (units : Nat) → (delta : Int) → List UInt8 → Prop where
  | last {units form : Nat} {delta : Int} {body : List UInt8} :
      1 ≤ units → units ≤ 8 → Body form delta body → Stretch units delta (head form units :: body)
  | more {units form others : Nat} {delta : Int} {body bytes : List UInt8} :
      1 ≤ units → units ≤ 8 → Body form delta body → Stretch others 0 bytes →
      Stretch (units + others) delta (head form units :: (body ++ bytes))

inductive EntryTable : Int32 → List Run → List UInt8 → Prop where
  | nil (line : Int32) : EntryTable line [] []
  | cons {line : Int32} {r : Run} {rest : List Run} {stretch bytes : List UInt8} :
      Stretch (r.length / 2) (lineStepTo line r) stretch → EntryTable r.line rest bytes →
      EntryTable line (r :: rest) (stretch ++ bytes)

theorem zigzag_lt {delta : Int} (h : delta.natAbs < UInt32.size / 2) : zigzag delta < UInt32.size := by
  have hsize : UInt32.size = 4294967296 := rfl
  unfold zigzag
  split <;> omega

section
variable {form units : Nat}

theorem head_toNat (hform : form < 16) (hunits : units ≤ 8) :
    (head form units).toNat = 128 + 8 * form + (units - 1) := by
  rw [head, UInt8.toNat_ofNat', Nat.mod_eq_of_lt (by omega)]

theorem unitsOf_head (hform : form < 16) (hpos : 1 ≤ units) (hunits : units ≤ 8) :
    unitsOf (head form units) = units := by
  rw [unitsOf, head_toNat hform hunits]
  omega

theorem formOf_head (hform : form < 16) (hunits : units ≤ 8) :
    formOf (head form units) = form := by
  rw [formOf, head_toNat hform hunits]
  omega

end

theorem Varint.groups {n : Nat} {bytes : List UInt8} (h : Varint n bytes) {room : Nat}
    (hn : n < 1 <<< (6 * (room + 1))) : Groups (room + 1) n bytes := by
  induction h generalizing room with
  | @last n hsmall =>
    have hb : (UInt8.ofNat n).toNat = n := by
      rw [UInt8.toNat_ofNat', Nat.mod_eq_of_lt (by omega)]
    have hg : Groups (room + 1) ((UInt8.ofNat n).toNat % 64) [.ofNat n] := .last (by omega)
    rwa [hb, Nat.mod_eq_of_lt hsmall] at hg
  | @more n bytes hbig _ ih =>
    have hb : (UInt8.ofNat (64 + n % 64)).toNat = 64 + n % 64 := by
      rw [UInt8.toNat_ofNat', Nat.mod_eq_of_lt (by omega)]
    cases room with
    | zero => exact absurd hn (Nat.not_lt.mpr hbig)
    | succ room =>
      have hrest : n / 64 < 1 <<< (6 * (room + 1)) := by
        rw [Nat.mul_succ, Nat.shiftLeft_add, Nat.shiftLeft_eq _ 6] at hn
        omega
      have hg : Groups (room + 1 + 1) _ (.ofNat (64 + n % 64) :: bytes) :=
        .more (by omega) (ih hrest)
      have hsum : (64 + n % 64) % 64 + 64 * (n / 64) = n := by omega
      rwa [hb, hsum] at hg

theorem Varint.groups_of_lt {n : Nat} {bytes : List UInt8} (h : Varint n bytes)
    (hn : n < UInt32.size) : Groups 6 n bytes :=
  h.groups (Nat.lt_trans hn (by decide))

theorem stepOf_zigzag {delta : Int} (h : zigzag delta < UInt32.size) :
    stepOf (zigzag delta) = delta := by
  unfold stepOf
  rw [Nat.mod_eq_of_lt h]
  unfold zigzag
  simp only
  split <;> split <;> omega

namespace Body
variable {form : Nat} {delta : Int} {body : List UInt8}

theorem shape (h : Body form delta body) : Shape form delta body := by
  cases h with
  | short columns hform => exact .short columns hform
  | oneLine column endColumn hstep => exact .oneLine column endColumn hstep
  | noColumns hlt hv =>
    rw [← stepOf_zigzag hlt]
    exact .noColumns (hv.groups_of_lt hlt)
  | long hlt₁ hlt₂ hlt₃ hlt₄ hv₁ hv₂ hv₃ hv₄ =>
    rw [← stepOf_zigzag hlt₁]
    exact .long (hv₁.groups_of_lt hlt₁) (hv₂.groups_of_lt hlt₂) (hv₃.groups_of_lt hlt₃)
      (hv₄.groups_of_lt hlt₄)

end Body

section
variable {offset start : Nat} {line best : Int}

theorem search_entry {form units : Nat} {delta : Int} {body : List UInt8}
    (h : Body form delta body) (hpos : 1 ≤ units) (hunits : units ≤ 8) (hstart : start ≤ offset)
    (rest : List UInt8) :
    visit (search offset) best start line (head form units :: (body ++ rest)) =
      if offset < start + 2 * units then (line + delta, none)
      else visit (search offset) (line + delta) (start + 2 * units) (line + delta) rest := by
  have hstep : lineStep (formOf (head form units)) (body ++ rest) = .ok (delta, rest) := by
    rw [formOf_head h.shape.form_lt hunits, h.shape.lineStep_append]
  rw [visit_cons hstep, unitsOf_head h.shape.form_lt hpos hunits, search,
    if_neg (Nat.not_lt.mpr hstart)]
  by_cases hin : offset < start + 2 * units
  · rw [if_pos hin, if_pos hin]
  · rw [if_neg hin, if_neg hin]

theorem search_stretch {units : Nat} {delta : Int} {bytes : List UInt8}
    (h : Stretch units delta bytes) (hstart : start ≤ offset) (rest : List UInt8) :
    visit (search offset) best start line (bytes ++ rest) =
      if offset < start + 2 * units then (line + delta, none)
      else visit (search offset) (line + delta) (start + 2 * units) (line + delta) rest := by
  induction h generalizing start line best with
  | last hpos hunits hbody => exact search_entry hbody hpos hunits hstart rest
  | @more units form others delta body bytes hpos hunits hbody _ ih =>
    rw [List.cons_append, List.append_assoc, search_entry hbody hpos hunits hstart]
    by_cases hin : offset < start + 2 * units
    · rw [if_pos hin, if_pos (by omega)]
    rw [if_neg hin, ih (Nat.not_lt.mp hin), Int.add_zero, Nat.mul_add, Nat.add_assoc]

end

theorem search_table {offset : Nat} {line : Int32} {runs : List Run} {bytes : List UInt8}
    (h : EntryTable line runs bytes) (start : Nat) (hstart : start ≤ offset) :
    visit (search offset) line.toInt start line.toInt bytes =
      ((lineOf line runs (offset - start)).toInt, none) := by
  induction h generalizing start with
  | nil line => rw [visit, lineOf]
  | @cons line r rest stretch bytes hstretch _ ih =>
    have hlength : 2 * (r.length / 2) = r.length := by
      have := r.even
      omega
    have hline : line.toInt + lineStepTo line r = r.line.toInt := by unfold lineStepTo; omega
    rw [search_stretch hstretch hstart, hlength, hline, lineOf]
    by_cases hin : offset < start + r.length
    · rw [if_pos hin, if_pos (by omega)]
    · rw [if_neg hin, ih _ (Nat.not_lt.mp hin), if_neg (by omega), Nat.sub_sub]

theorem exists_varint (n : Nat) : ∃ bytes, Varint n bytes := by
  induction n using Nat.strongRecOn with
  | ind n ih =>
    by_cases hsmall : n < 64
    · exact ⟨_, .last hsmall⟩
    · obtain ⟨bytes, h⟩ := ih (n / 64) (by omega)
      exact ⟨_, .more (by omega) h⟩

theorem exists_stretch {units : Nat} (hpos : 1 ≤ units) {delta : Int}
    (hdelta : delta.natAbs < UInt32.size / 2) : ∃ bytes, Stretch units delta bytes := by
  induction units using Nat.strongRecOn generalizing delta with
  | ind units ih =>
    obtain ⟨body, hbody⟩ := exists_varint (zigzag delta)
    by_cases hsmall : units ≤ 8
    · exact ⟨_, .last hpos hsmall (.noColumns (zigzag_lt hdelta) hbody)⟩
    · obtain ⟨bytes, h⟩ := ih (units - 8) (by omega) (by omega) (show Int.natAbs 0 < UInt32.size / 2 by decide)
      have hunits : units = 8 + (units - 8) := by omega
      rw [hunits]
      exact ⟨_, .more (by decide) (by decide) (.noColumns (zigzag_lt hdelta) hbody) h⟩

theorem exists_entryTable {runs : List Run} {line : Int32}
    (h : EachStep (fun delta => delta.natAbs < UInt32.size / 2) line runs) :
    ∃ bytes, EntryTable line runs bytes := by
  induction runs generalizing line with
  | nil => exact ⟨_, .nil line⟩
  | cons r rest ih =>
    obtain ⟨hstep, hrest⟩ := h
    have hunits : 1 ≤ r.length / 2 := by
      have := r.pos
      have := r.even
      omega
    obtain ⟨stretch, hstretch⟩ := exists_stretch hunits hstep
    obtain ⟨bytes, hbytes⟩ := ih hrest
    exact ⟨_, .cons hstretch hbytes⟩

end StackPeek.LineTable
