import StackPeek.Process.Mapping
import StackPeek.Proofs.Image.Objects
import StackPeek.Proofs.Numeral.Spelled

/-!
# Mappings written as lines

`Mapping.Written` says what a line looks like that shows a mapping: numbers in lower-case
hexadecimal with enough zeros in front, and spaces between the inode and the name. The system writes
such a line (`Mapping.written_render`), and each such line is read as the mapping it shows
(`Mapping.render_read_back`). A name may hold anything but a NUL, spaces and dashes included, as
long as it does not start with white space.
-/

namespace StackPeek

open Numeral Scan

/-- The octets of a name start with no white space and hold no NUL. -/
structure Text.IsName (name : Text) : Prop where
  visible : ∀ b ∈ name.octets.head?, isBlank b = false
  noNul : ∀ b ∈ name.octets, b ≠ 0

theorem Text.isName_iff {name : Text} :
    name.IsName ↔ name.octets.head?.all (!isBlank ·) = true ∧ name.octets.all (· != 0) = true := by
  simp only [Option.all_eq_true, List.all_eq_true, Bool.not_eq_true', bne_iff_ne]
  constructor
  · rintro ⟨hvisible, hnoNul⟩
    exact ⟨hvisible, hnoNul⟩
  · rintro ⟨hvisible, hnoNul⟩
    exact ⟨hvisible, hnoNul⟩

instance (name : Text) : Decidable name.IsName := decidable_of_iff _ Text.isName_iff.symm

namespace Numeral

def IsLowerHex (code : Nat) : Prop := 48 ≤ code ∧ code ≤ 57 ∨ 97 ≤ code ∧ code ≤ 102

instance (code : Nat) : Decidable (IsLowerHex code) := inferInstanceAs (Decidable (_ ∨ _))

theorem IsLowerHex.ascii {code : Nat} (h : IsLowerHex code) : code < 0x80 := by
  rcases h with h | h <;> omega

theorem lower_digitChar {d : Nat} (h : d < 16) : IsLowerHex d.digitChar.toNat := by
  have hsixteen : ∀ e : Fin 16, IsLowerHex (Nat.digitChar e).toNat := by decide
  exact hsixteen ⟨d, h⟩

theorem lower_toDigits {base : Nat} (hone : 1 < base) (hbase : base ≤ 16) (n : Nat) :
    ∀ c ∈ base.toDigits n, IsLowerHex c.toNat := by
  induction n using Nat.strongRecOn with
  | _ n ih =>
    intro c hc
    rw [Nat.toDigits_eq_if hone] at hc
    split at hc
    · obtain rfl := List.mem_singleton.mp hc
      exact lower_digitChar (by omega)
    · rcases List.mem_append.mp hc with hc | hc
      · exact ih (n / base) (Nat.div_lt_self (by omega) hone) c hc
      · obtain rfl := List.mem_singleton.mp hc
        have hlt := Nat.mod_lt n (show 0 < base by omega)
        exact lower_digitChar (by omega)

theorem lower_paddedHex (width n : Nat) :
    ∀ c ∈ (paddedHex width n).toList, IsLowerHex c.toNat := by
  intro c hc
  unfold paddedHex at hc
  rw [String.toList_ofList] at hc
  rcases List.mem_append.mp hc with hc | hc
  · obtain rfl := List.eq_of_mem_replicate hc
    exact lower_digitChar (d := 0) (by omega)
  · exact lower_toDigits (by omega) (by omega) n c hc

theorem lower_decimal (n : Nat) : ∀ c ∈ (toString n).toList, IsLowerHex c.toNat := by
  rw [Nat.toString_eq_ofList_toDigits, String.toList_ofList]
  exact lower_toDigits (by omega) (by omega) n

theorem lower_octets {chars : List Char} (h : ∀ c ∈ chars, IsLowerHex c.toNat) :
    ∀ b ∈ octets chars, IsLowerHex b.toNat := by
  intro b hb
  obtain ⟨c, hc, rfl⟩ := List.mem_map.mp hb
  have hascii := (h c hc).ascii
  rw [UInt8.toNat_ofNat', Nat.mod_eq_of_lt (by omega)]
  exact h c hc

theorem length_paddedHex (width n : Nat) : width ≤ (octets (paddedHex width n).toList).length := by
  unfold octets paddedHex
  rw [List.length_map, String.toList_ofList, List.length_append, List.length_replicate]
  omega

end Numeral

/-- Lower-case hexadecimal digits that stand for a number, at least so many of them. -/
structure Scan.HexField (width n : Nat) (octets : List UInt8) : Prop where
  spelled : Spelled 16 n octets
  lower : ∀ b ∈ octets, IsLowerHex b.toNat
  wide : width ≤ octets.length

theorem Scan.hexField_paddedHex (width n : Nat) :
    HexField width n (octets (paddedHex width n).toList) where
  spelled := spelled_paddedHex width n
  lower := lower_octets (lower_paddedHex width n)
  wide := length_paddedHex width n

theorem Text.octets_append (s t : String) :
    (Text.ofString (s ++ t)).octets = (Text.ofString s).octets ++ (Text.ofString t).octets := by
  unfold ofString ofUnits
  rw [String.toList_append, List.map_append]
  exact Utf8.encodeAll_append _ _

theorem Text.octets_ascii {s : String} (h : ∀ c ∈ s.toList, c.toNat < 0x80) :
    (Text.ofString s).octets = Numeral.octets s.toList := by
  have hunits : (Numeral.octets s.toList).map UInt8.toNat = s.toList.map Char.toNat := by
    unfold Numeral.octets
    rw [List.map_map]
    apply List.map_congr_left
    intro c hc
    have hlt := h c hc
    exact UInt8.toNat_ofNat'.trans (Nat.mod_eq_of_lt (by omega))
  have hascii : ∀ b ∈ Numeral.octets s.toList, b < 0x80 := by
    intro b hb
    obtain ⟨c, hc, rfl⟩ := List.mem_map.mp hb
    have hlt := h c hc
    rw [UInt8.lt_iff_toNat_lt, UInt8.toNat_ofNat', Nat.mod_eq_of_lt (by omega)]
    exact hlt
  unfold ofString
  rw [← hunits, Text.ofUnits_ascii hascii]

namespace Mapping

def rights (m : Mapping) : List UInt8 :=
  [if m.readable then 114 else 45, if m.writable then 119 else 45,
   if m.executable then 120 else 45, if m.shared then 115 else 112]

theorem octets_access (m : Mapping) :
    (Text.ofString (String.ofList m.access)).octets = m.rights := by
  unfold rights access
  cases m.readable <;> cases m.writable <;> cases m.executable <;> cases m.shared <;> rfl

/-- The line shows the mapping: its range, its access rights, the offset, the device, the inode, so
many spaces, and the name. -/
inductive Written (gap : Nat) (m : Mapping) : List UInt8 → Prop where
  | parts {start stop offset major minor inode : List UInt8} :
      HexField 8 m.start.toNat start → HexField 8 m.stop.toNat stop →
      HexField 8 m.offset.toNat offset → HexField 2 m.devMajor.toNat major →
      HexField 2 m.devMinor.toNat minor → Spelled 10 m.inode.toNat inode →
      Written gap m (start ++ 45 :: (stop ++ 32 :: (m.rights ++ 32 :: (offset ++ 32 ::
        (major ++ 58 :: (minor ++ 32 :: (inode ++ (List.replicate gap 32 ++ m.name.octets))))))))

theorem written_render (gap : Nat) (m : Mapping) : Written gap m (m.render gap) := by
  have hhex (width n : Nat) :
      (Text.ofString (paddedHex width n)).octets = octets (paddedHex width n).toList :=
    Text.octets_ascii fun c hc => (lower_paddedHex width n c hc).ascii
  have hinode : (Text.ofString (toString m.inode)).octets = octets (toString m.inode.toNat).toList :=
    Text.octets_ascii fun c hc => (lower_decimal m.inode.toNat c hc).ascii
  have hdash : (Text.ofString "-").octets = [45] := rfl
  have hspace : (Text.ofString " ").octets = [32] := rfl
  have hcolon : (Text.ofString ":").octets = [58] := rfl
  have hstring (s : String) : toString s = s := rfl
  unfold render
  simp only [hstring, Text.octets_append, hhex, hinode, hdash, hspace, hcolon, octets_access,
    List.append_assoc, List.cons_append, List.nil_append]
  apply Written.parts
  iterate 5 apply hexField_paddedHex
  exact spelled_decimal m.inode.toNat

theorem withAccess_rights (m n : Mapping) :
    n.withAccess m.rights = some { n with
      readable := m.readable, writable := m.writable,
      executable := m.executable, shared := m.shared } := by
  unfold rights
  cases m.readable <;> cases m.writable <;> cases m.executable <;> cases m.shared <;> rfl

theorem run?_rights (m : Mapping) (rest : List UInt8) :
    run? 4 (32 :: (m.rights ++ rest)) = some (m.rights, rest) := by
  unfold rights
  cases m.readable <;> cases m.writable <;> cases m.executable <;> cases m.shared <;> rfl

theorem rights_graphic (m : Mapping) : ∀ b ∈ m.rights, 32 ≤ b.toNat := by
  unfold rights
  cases m.readable <;> cases m.writable <;> cases m.executable <;> cases m.shared <;> simp

section Line
variable {m : Mapping} {gap : Nat} {line : List UInt8} (hline : Written gap m line)
include hline

theorem Written.mem_name {b : UInt8} (h : b ∈ line) (hb : b.toNat < 32) : b ∈ m.name.octets := by
  have hgraphic {part : List UInt8} (hp : ∀ c ∈ part, 32 ≤ c.toNat) : b ∉ part :=
    fun hmem => absurd (hp b hmem) (Nat.not_le.mpr hb)
  have hmark (c : UInt8) (hc : 32 ≤ c.toNat) : b ≠ c := by
    rintro rfl
    exact absurd hc (Nat.not_le.mpr hb)
  rcases hline with ⟨hstart, hstop, hoffset, hmajor, hminor, hinode⟩
  simpa only [List.mem_append, List.mem_cons, List.mem_replicate,
    hgraphic hstart.spelled.graphic, hgraphic hstop.spelled.graphic,
    hgraphic hoffset.spelled.graphic, hgraphic hmajor.spelled.graphic,
    hgraphic hminor.spelled.graphic, hgraphic hinode.graphic, hgraphic m.rights_graphic,
    hmark 32 (by simp), hmark 45 (by simp), hmark 58 (by simp), and_false, false_or] using h

/-- No part of a line is a NUL, so all of it is scanned. -/
theorem Written.takeWhile_eq (h : m.name.IsName) : line.takeWhile (· ≠ 0) = line := by
  have hpos : ∀ b ∈ line, decide (b ≠ 0) = true := by
    intro b hb
    apply decide_eq_true
    rintro rfl
    exact h.noNul 0 (hline.mem_name hb (by simp)) rfl
  have hwhole : (line ++ []).takeWhile (· ≠ 0) = _ := List.takeWhile_append_of_pos hpos
  rwa [List.append_nil, List.takeWhile_nil, List.append_nil] at hwhole

theorem Written.name_suffix : m.name.octets <:+ line := by
  cases hline
  simp only [← List.cons_append, ← List.append_assoc]
  exact List.suffix_append _ _

end Line

theorem skipBlanks_name {name : Text} (h : name.IsName) (gap : Nat) :
    skipBlanks (List.replicate gap 32 ++ name.octets) = name.octets := by
  have hvisible := h.visible
  induction gap with
  | zero =>
    rw [List.replicate_zero, List.nil_append]
    cases hname : name.octets with
    | nil => rfl
    | cons b rest =>
      rw [hname] at hvisible
      exact List.dropWhile_cons_of_neg (by simp [hvisible b rfl])
  | succ gap ih =>
    rw [List.replicate_succ, List.cons_append]
    exact ih

theorem ended_name {name : Text} {gap : Nat} (h : name.octets = [] ∨ 0 < gap) :
    Ended (List.replicate gap 32 ++ name.octets) := by
  intro b hb
  cases gap with
  | zero =>
    rcases h with h | h
    · rw [h] at hb
      cases hb
    · cases h
  | succ gap =>
    rw [List.replicate_succ, List.cons_append] at hb
    cases hb
    exact .inl rfl

theorem Written.parse?_eq {m : Mapping} {gap : Nat} {line : List UInt8} (h : Written gap m line)
    (hname : m.name.IsName) (hgap : m.name.octets = [] ∨ 0 < gap) : parse? line = some m := by
  have hall := h.takeWhile_eq hname
  have hsuffix := List.suffix_iff_eq_drop.mp h.name_suffix
  have hhex {width n : Nat} {digits : List UInt8} (hd : HexField width n digits)
      (hn : n < UInt64.size) {b : UInt8} (hb : b = 32 ∨ b = 45 ∨ b = 58) (rest : List UInt8) :
      word? 16 (digits ++ b :: rest) = some (UInt64.ofNat n, b :: rest) := by
    have hended : Ended (b :: rest) := by
      intro c hc
      cases hc
      exact hb
    exact word?_spelled hd.spelled hn hended
  have hmajorLt := Nat.lt_trans m.devMajor.toNat_lt (show UInt32.size < UInt64.size by decide)
  have hminorLt := Nat.lt_trans m.devMinor.toNat_lt (show UInt32.size < UInt64.size by decide)
  rcases h with ⟨hstart, hstop, hoffset, hmajor, hminor, hinode⟩
  have hinodeWord := word?_spelled hinode m.inode.toNat_lt (ended_name hgap)
  unfold parse?
  simp only [hall, literal?, Option.bind_eq_bind, Option.bind_some, if_true,
    hhex hstart m.start.toNat_lt, hhex hstop m.stop.toNat_lt, run?_rights, word?_space,
    hhex hoffset m.offset.toNat_lt, hhex hmajor hmajorLt, hhex hminor hminorLt, hinodeWord,
    skipBlanks_name hname, ← hsuffix, true_or, or_true, withAccess_rights, UInt64.ofNat_toNat,
    UInt64.toUInt32_ofNat', UInt32.ofNat_toNat]

/-- The system writes a line that shows the mapping, and whichever line shows it is read back as
that mapping, whatever its name looks like and however far the name stands from the inode. -/
theorem render_read_back (m : Mapping) (gap : Nat) (hname : m.name.IsName)
    (hgap : m.name.octets = [] ∨ 0 < gap) :
    Written gap m (m.render gap) ∧ ∀ line, Written gap m line → parse? line = some m :=
  ⟨written_render gap m, fun _ h => h.parse?_eq hname hgap⟩

/-- A removed file whose name has a space, a dash and what looks like a device. -/
def removedFile : Mapping :=
  ⟨0x7f1c2a000000, 0xffffffffffffffff, 0x2000, true, false, true, false, 0xfd, 0xffffffff, 1234567,
    Text.ofString "/tmp/a b-c 00:00 0 (deleted)"⟩

theorem render_read_back_removedFile :
    removedFile.name.IsName ∧ (removedFile.name.octets = [] ∨ 0 < 20) ∧
      parse? (removedFile.render 20) = some removedFile := by
  have hname : removedFile.name.IsName := by decide
  have hgap : removedFile.name.octets = [] ∨ 0 < 20 := .inr (by omega)
  obtain ⟨hshown, hread⟩ := render_read_back removedFile 20 hname hgap
  exact ⟨hname, hgap, hread _ hshown⟩

end Mapping
end StackPeek
