import Mathlib.Data.Nat.Digits.Defs
import StackPeek.Layout.Version

/-!
# Which layout a version selects

A text names a version in one of two ways: as a cache tag, or with two numerals around its first
dot (`Version.Names`). Then the build with just these numbers is selected, and a version that no
build has is refused (`Layout.select_exact`). So is a text that is no tag and has no dot between two
digits. A numeral takes all digits that stand together, zeros in front included, so that `3.11` is
never taken for `3.1`.
-/

namespace StackPeek

namespace Version

def IsNumeral (cs : List Char) : Prop := cs ≠ [] ∧ cs.all Char.isDigit = true

instance (cs : List Char) : Decidable (IsNumeral cs) := inferInstanceAs (Decidable (_ ∧ _))

def startsInDigit (cs : List Char) : Bool := cs.head?.any Char.isDigit

def endsInDigit (cs : List Char) : Bool := cs.getLast?.any Char.isDigit

def decimal (cs : List Char) : Nat :=
  Nat.ofDigits 10 (cs.reverse.map fun c => c.toNat - '0'.toNat)

/-- The text names a version: by two numerals around its first dot, which take all digits there, or
as a cache tag. -/
inductive Names (text : String) : Nat → Nat → Prop where
  | dotted {before major minor behind : List Char} :
      text.toList = before ++ (major ++ '.' :: (minor ++ behind)) → '.' ∉ before →
      endsInDigit before = false → IsNumeral major → IsNumeral minor →
      startsInDigit behind = false → Names text (decimal major) (decimal minor)
  | tag {major : Char} {minor : List Char} : text.toList = "cpython-".toList ++ major :: minor →
      major.isDigit = true → IsNumeral minor → Names text (decimal [major]) (decimal minor)

def Untagged (text : List Char) : Prop :=
  ∀ major minor, text = "cpython-".toList ++ major :: minor → major.isDigit = true →
    ¬ IsNumeral minor

/-- No dot of the text is between two digits. -/
def Undotted (text : List Char) : Prop :=
  ∀ before major minor behind, text = before ++ major :: '.' :: minor :: behind →
    major.isDigit = true → minor.isDigit = false

theorem IsNumeral.isDigit {cs : List Char} (h : IsNumeral cs) : ∀ c ∈ cs, c.isDigit = true :=
  List.all_eq_true.mp h.2

theorem value_eq_decimal (cs : List Char) : value cs = decimal cs := by
  unfold value decimal
  rw [Nat.ofDigits_eq_foldr, List.foldr_map, List.foldr_reverse]
  congr 1
  funext n c
  exact Nat.add_comm _ _

theorem numbers?_eq (major minor : List Char) :
    numbers? major minor =
      if decimal major ≤ limit ∧ decimal minor ≤ limit then some (decimal major, decimal minor)
      else none := by
  rw [← value_eq_decimal, ← value_eq_decimal]
  rfl

section Tag
variable {text minor : List Char} {major : Char}

theorem afterTag?_eq_some_iff {rest : List Char} :
    afterTag? text = some rest ↔ text = "cpython-".toList ++ rest := by
  unfold afterTag?
  simp only [Option.ite_none_right_eq_some, Option.some.injEq, List.isPrefixOf_iff_prefix]
  constructor
  · rintro ⟨⟨rest', rfl⟩, h⟩
    rw [List.drop_left] at h
    rw [h]
  · rintro rfl
    exact ⟨List.prefix_append _ _, List.drop_left⟩

theorem ofCacheTag?_tag (hmajor : major.isDigit = true) (hminor : IsNumeral minor) :
    ofCacheTag? ("cpython-".toList ++ major :: minor) = numbers? [major] minor := by
  obtain ⟨hne, hall⟩ := hminor
  unfold ofCacheTag?
  rw [afterTag?_eq_some_iff.mpr rfl]
  simp only [hmajor, Bool.true_and]
  rw [if_pos]
  rw [Bool.and_eq_true, Bool.not_eq_true', List.isEmpty_eq_false_iff]
  exact ⟨hne, hall⟩

theorem ofCacheTag?_untagged (h : Untagged text) : ofCacheTag? text = none := by
  unfold ofCacheTag?
  split
  · rename_i major minor hafter
    split
    · rename_i hdigits
      rw [Bool.and_eq_true, Bool.and_eq_true, Bool.not_eq_true', List.isEmpty_eq_false_iff]
        at hdigits
      obtain ⟨⟨hmajor, hne⟩, hall⟩ := hdigits
      exact absurd ⟨hne, hall⟩ (h major minor (afterTag?_eq_some_iff.mp hafter) hmajor)
    · rfl
  · rfl

theorem dot_not_mem_tag (hmajor : major.isDigit = true) (hminor : IsNumeral minor) :
    '.' ∉ "cpython-".toList ++ major :: minor := by
  have hdot : '.'.isDigit ≠ true := by decide
  rw [List.mem_append, List.mem_cons]
  rintro (h | rfl | h)
  · exact absurd h (by decide)
  · exact hdot hmajor
  · exact hdot (hminor.isDigit _ h)

end Tag

section Dotted
variable {text major minor : List Char}

/-- The text starts with two numerals around a dot, which take all digits there. -/
def Leads (text major minor : List Char) : Prop :=
  IsNumeral major ∧ IsNumeral minor ∧ ∃ behind, text = major ++ '.' :: (minor ++ behind) ∧
    startsInDigit behind = false

theorem IsNumeral.span {digits : List Char} (h : IsNumeral digits) (rest : List Char)
    (hrest : startsInDigit rest = false) :
    (digits ++ rest).takeWhile Char.isDigit = digits ∧
      (digits ++ rest).dropWhile Char.isDigit = rest := by
  rw [List.takeWhile_append_of_pos h.isDigit, List.dropWhile_append_of_pos h.isDigit]
  cases rest with
  | nil => exact ⟨List.append_nil _, rfl⟩
  | cons c rest =>
    have hc : c.isDigit = false := hrest
    simp [hc]

theorem isNumeral_takeWhile (h : text.takeWhile Char.isDigit ≠ []) :
    IsNumeral (text.takeWhile Char.isDigit) :=
  ⟨h, List.all_takeWhile⟩

theorem dotted?_of_leads (h : Leads text major minor) : dotted? text = some (major, minor) := by
  obtain ⟨hmajor, hminor, behind, rfl, hbehind⟩ := h
  obtain ⟨htake, hdrop⟩ := hmajor.span ('.' :: (minor ++ behind)) rfl
  obtain ⟨htake', -⟩ := hminor.span behind hbehind
  obtain ⟨c, rest, rfl⟩ := List.exists_cons_of_ne_nil hmajor.1
  have hne := hminor.1
  unfold dotted?
  simp only [List.cons_append] at htake hdrop ⊢
  simp [htake, hdrop, htake', hne]

theorem dotted?_cons {c : Char} (h : ∀ major minor, ¬ Leads (c :: text) major minor) :
    dotted? (c :: text) = dotted? text := by
  rw [dotted?]
  split
  · rename_i tail htail
    refine if_neg fun hnumerals => ?_
    rw [Bool.and_eq_true, Bool.not_eq_true', Bool.not_eq_true', List.isEmpty_eq_false_iff,
      List.isEmpty_eq_false_iff] at hnumerals
    obtain ⟨hmajor, hminor⟩ := hnumerals
    refine h _ _ ⟨isNumeral_takeWhile hmajor, isNumeral_takeWhile hminor,
      tail.dropWhile Char.isDigit, ?_, ?_⟩
    · rw [List.takeWhile_append_dropWhile, ← htail, List.takeWhile_append_dropWhile]
    · have hstop := List.head?_dropWhile_not Char.isDigit tail
      unfold startsInDigit
      cases hd : (tail.dropWhile Char.isDigit).head? with
      | none => rfl
      | some d => rwa [hd] at hstop
  · rfl

/-- What stands in front of the first dot is no start of a version if it does not end in a digit. -/
theorem not_leads_append {before : List Char} (hne : before ≠ []) (hdot : '.' ∉ before)
    (hlast : endsInDigit before = false) :
    ¬ Leads (before ++ text) major minor := by
  rintro ⟨hmajor, -, behind, heq, -⟩
  unfold endsInDigit at hlast
  rw [List.getLast?_eq_some_getLast hne, Option.any_some] at hlast
  -- The dot is behind `before`, so the numeral would take the last character of `before`.
  have htaken : before.getLast hne ∈ major := by
    rcases List.append_eq_append_iff.mp heq with ⟨_, rfl, -⟩ | ⟨rest, hsplit, hrest⟩
    · exact List.mem_append_left _ (List.getLast_mem hne)
    · cases rest with
      | nil =>
        rw [List.append_nil] at hsplit
        exact hsplit ▸ List.getLast_mem hne
      | cons d rest =>
        obtain ⟨rfl, -⟩ := List.cons.inj hrest
        exact absurd (hsplit ▸ List.mem_append_right _ List.mem_cons_self) hdot
  rw [hmajor.isDigit _ htaken] at hlast
  cases hlast

theorem dotted?_append {before : List Char} (hdot : '.' ∉ before)
    (hlast : endsInDigit before = false) :
    dotted? (before ++ text) = dotted? text := by
  induction before with
  | nil => rfl
  | cons c before ih =>
    have hhere : ∀ major minor, ¬ Leads (c :: (before ++ text)) major minor := fun _ _ =>
      not_leads_append (List.cons_ne_nil c before) hdot hlast
    rw [List.cons_append, dotted?_cons hhere]
    apply ih
    · exact fun h => hdot (List.mem_cons_of_mem c h)
    · cases before with
      | nil => rfl
      | cons d before => exact hlast

theorem Leads.not_undotted (h : Leads text major minor) : ¬ Undotted text := by
  obtain ⟨hmajor, hminor, behind, rfl, -⟩ := h
  obtain ⟨b, rest, rfl⟩ := List.exists_cons_of_ne_nil hminor.1
  have hne := hmajor.1
  have hlast := hmajor.isDigit _ (List.getLast_mem hne)
  intro hundotted
  have hb := hundotted major.dropLast (major.getLast hne) b (rest ++ behind) ?_ hlast
  · rw [hminor.isDigit b List.mem_cons_self] at hb
    cases hb
  · rw [List.append_cons major.dropLast, List.dropLast_concat_getLast]
    rfl

theorem dotted?_undotted (h : Undotted text) : dotted? text = none := by
  induction text with
  | nil => rfl
  | cons c text ih =>
    rw [dotted?_cons fun _ _ hleads => hleads.not_undotted h]
    refine ih fun before major minor behind heq => h (c :: before) major minor behind ?_
    rw [heq, List.cons_append]

end Dotted

theorem untagged_of_dot {text : List Char} (h : '.' ∈ text) : Untagged text := by
  rintro major minor rfl hmajor hminor
  exact dot_not_mem_tag hmajor hminor h

theorem undotted_of_dot_not_mem {text : List Char} (h : '.' ∉ text) : Undotted text := by
  rintro before major minor behind rfl -
  refine absurd ?_ h
  simp

/-- A text that names a version is read as it, unless a number is too large. -/
theorem parse?_of_names {text : String} {major minor : Nat} (h : Names text major minor) :
    parse? text = if major ≤ limit ∧ minor ≤ limit then some (major, minor) else none := by
  unfold parse?
  cases h with
  | dotted heq hdot hlast hmajor hminor hbehind =>
    have hleads := dotted?_of_leads ⟨hmajor, hminor, _, rfl, hbehind⟩
    rw [heq, ofCacheTag?_untagged (untagged_of_dot (by simp)), dotted?_append hdot hlast, hleads]
    exact numbers?_eq _ _
  | @tag major minor heq hmajor hminor =>
    have hundotted := undotted_of_dot_not_mem (dot_not_mem_tag hmajor hminor)
    rw [heq, ofCacheTag?_tag hmajor hminor, dotted?_undotted hundotted, numbers?_eq]
    by_cases hsmall : decimal [major] ≤ limit ∧ decimal minor ≤ limit
    · rw [if_pos hsmall]
    · rw [if_neg hsmall]
      rfl

theorem parse?_nameless {text : String} (ht : Untagged text.toList) (hd : Undotted text.toList) :
    parse? text = none := by
  unfold parse?
  rw [ofCacheTag?_untagged ht, dotted?_undotted hd]
  rfl

end Version

namespace Layout
variable {σ : Type}

theorem ofVersion?_builtin (id : LayoutId) :
    ofVersion? (builtin id).major (builtin id).minor = some (builtin id) := by
  cases id <;> rfl

theorem ofVersion?_eq_none {major minor : Nat}
    (h : ∀ id, ¬ ((builtin id).major = major ∧ (builtin id).minor = minor)) :
    ofVersion? major minor = none := by
  unfold ofVersion?
  rw [List.find?_eq_none]
  intro l hl
  obtain ⟨id, -, rfl⟩ := List.mem_map.mp hl
  rw [Bool.and_eq_true, beq_iff_eq, beq_iff_eq]
  exact h id

theorem run_select (t : Target σ) (s : σ) (text : String) :
    ((select text).run t s).1 =
      match Version.parse? text with
      | none => .error (.unreadableVersion text)
      | some (major, minor) =>
        match ofVersion? major minor with
        | some l => .ok l
        | none => .error (.unsupportedVersion major minor) := by
  unfold select
  cases Version.parse? text with
  | none => rfl
  | some v =>
    obtain ⟨major, minor⟩ := v
    simp only
    cases ofVersion? major minor with
    | none => rfl
    | some l => rfl

/-- A text that names the version of a build selects this build, and a text that names another
version is refused, as is one that names none. Refusing a version takes one of two faults: a number
above 2147483647 cannot be read, and a smaller one is not supported. -/
theorem select_exact (t : Target σ) (s : σ) (text : String) :
    (∀ major minor, Version.Names text major minor →
      (∀ id, (builtin id).major = major → (builtin id).minor = minor →
        ((select text).run t s).1 = .ok (builtin id)) ∧
      ((∀ id, ¬ ((builtin id).major = major ∧ (builtin id).minor = minor)) →
        ((select text).run t s).1 =
          .error (if major ≤ 2147483647 ∧ minor ≤ 2147483647 then .unsupportedVersion major minor
            else .unreadableVersion text))) ∧
    (Version.Untagged text.toList → Version.Undotted text.toList →
      ((select text).run t s).1 = .error (.unreadableVersion text)) := by
  rw [run_select]
  refine ⟨fun major minor hnames => ⟨?_, ?_⟩, ?_⟩
  · rintro id rfl rfl
    have hsmall : (builtin id).major ≤ Version.limit ∧ (builtin id).minor ≤ Version.limit := by
      cases id <;> decide
    rw [Version.parse?_of_names hnames, if_pos hsmall]
    simp only [ofVersion?_builtin]
  · intro hnone
    have hlimit : Version.limit = 2147483647 := rfl
    rw [Version.parse?_of_names hnames, hlimit]
    by_cases hsmall : major ≤ 2147483647 ∧ minor ≤ 2147483647
    · rw [if_pos hsmall, if_pos hsmall]
      simp only [ofVersion?_eq_none hnone]
    · rw [if_neg hsmall, if_neg hsmall]
  · intro ht hd
    rw [Version.parse?_nameless ht hd]

theorem select_exact_spellings :
    (Version.Names "Python 3.9.18" 3 9 ∧ Version.Names "cpython-311" 3 11 ∧
      Version.Names "2.7.18" 2 7 ∧ Version.Names "cpython-39999999999" 3 9999999999 ∧
      Version.Untagged "pypy3".toList ∧ Version.Undotted "pypy3".toList) ∧
    ∀ t : Target Unit, ((select "Python 3.9.18").run t ()).1 = .ok (builtin .v39) ∧
      ((select "cpython-311").run t ()).1 = .ok (builtin .v311) ∧
      ((select "2.7.18").run t ()).1 = .error (.unsupportedVersion 2 7) ∧
      ((select "cpython-39999999999").run t ()).1 =
        .error (.unreadableVersion "cpython-39999999999") ∧
      ((select "pypy3").run t ()).1 = .error (.unreadableVersion "pypy3") := by
  have hpython : Version.Names "Python 3.9.18" 3 9 :=
    @Version.Names.dotted _ "Python ".toList ['3'] ['9'] ".18".toList rfl (by decide) rfl
      (by decide) (by decide) rfl
  have htag : Version.Names "cpython-311" 3 11 :=
    @Version.Names.tag _ '3' ['1', '1'] rfl rfl (by decide)
  have hold : Version.Names "2.7.18" 2 7 :=
    @Version.Names.dotted _ [] ['2'] ['7'] ".18".toList rfl (by decide) rfl (by decide) (by decide)
      rfl
  have hlarge : Version.Names "cpython-39999999999" 3 9999999999 :=
    @Version.Names.tag _ '3' "9999999999".toList rfl rfl (by decide)
  have huntagged : Version.Untagged "pypy3".toList := by
    intro major minor h
    cases congrArg List.head? h
  have hundotted : Version.Undotted "pypy3".toList :=
    Version.undotted_of_dot_not_mem (by decide)
  refine ⟨⟨hpython, htag, hold, hlarge, huntagged, hundotted⟩, fun t => ⟨?_, ?_, ?_, ?_, ?_⟩⟩
  · exact ((select_exact t () _).1 3 9 hpython).1 .v39 rfl rfl
  · exact ((select_exact t () _).1 3 11 htag).1 .v311 rfl rfl
  · exact ((select_exact t () _).1 2 7 hold).2 fun id => by cases id <;> decide
  · exact ((select_exact t () _).1 3 9999999999 hlarge).2 fun id => by cases id <;> decide
  · exact (select_exact t () _).2 huntagged hundotted

end Layout
end StackPeek
