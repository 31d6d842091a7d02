import StackPeek.Proofs.Process.Lines
import StackPeek.Proofs.Process.Rendered

/-!
# Looking up an address

An address is found in the mapping of the first line whose range holds it, as long as all lines
before that one are mappings (`ProcEntry.FoundIn`), and it is readable just if that mapping is. In a
list of disjoint mappings it is readable just if some readable mapping holds it, and a line that is
no mapping can only make the address unreadable, unless a line before it holds the address
(`ProcEntry.addresses_exact`).
-/

namespace StackPeek

def Mapping.Holds (m : Mapping) (a : Address) : Prop := m.start ≤ a ∧ a < m.stop

theorem Mapping.contains_iff {m : Mapping} {a : Address} : m.contains a = true ↔ m.Holds a := by
  simp only [contains, Holds, Bool.and_eq_true, decide_eq_true_eq]

namespace ProcEntry

open Mapping

/-- The mapping is that of the first line that holds the address, and the lines before it are
mappings. -/
def FoundIn (ls : List (List UInt8)) (a : Address) (m : Mapping) : Prop :=
  ∃ before line after, ls = before ++ line :: after ∧ parse? line = some m ∧ m.Holds a ∧
    ∀ l ∈ before, ∃ n, parse? l = some n ∧ ¬ n.Holds a

def Covers (ls : List (List UInt8)) (a : Address) : Prop :=
  ∃ l ∈ ls, ∃ m, parse? l = some m ∧ m.Holds a

def firstAt? (a : Address) : List (List UInt8) → Option Mapping
  | [] => none
  | line :: rest => (parse? line).bind fun m => if m.contains a then some m else firstAt? a rest

section Search
variable {a : Address} {line : List UInt8} {rest : List (List UInt8)} {m : Mapping}

theorem firstAt?_stuck (h : parse? line = none) : firstAt? a (line :: rest) = none := by
  rw [firstAt?, h]
  rfl

theorem firstAt?_hit (h : parse? line = some m) (ha : m.Holds a) :
    firstAt? a (line :: rest) = some m := by
  rw [firstAt?, h, Option.bind_some, if_pos (contains_iff.mpr ha)]

theorem firstAt?_miss (h : parse? line = some m) (ha : ¬ m.Holds a) :
    firstAt? a (line :: rest) = firstAt? a rest := by
  rw [firstAt?, h, Option.bind_some, if_neg fun hc => ha (contains_iff.mp hc)]

/-- The three ways in which the first line decides. -/
theorem firstAt?_cases (a : Address) (line : List UInt8) :
    parse? line = none ∨ (∃ m, parse? line = some m ∧ m.Holds a) ∨
      ∃ m, parse? line = some m ∧ ¬ m.Holds a := by
  cases h : parse? line with
  | none => exact .inl rfl
  | some m =>
    by_cases ha : m.Holds a
    · exact .inr (.inl ⟨m, rfl, ha⟩)
    · exact .inr (.inr ⟨m, rfl, ha⟩)

end Search

theorem FoundIn.cons {line : List UInt8} {ls : List (List UInt8)} {a : Address} {m n : Mapping}
    (h : FoundIn ls a m) (hn : parse? line = some n) (ha : ¬ n.Holds a) :
    FoundIn (line :: ls) a m := by
  obtain ⟨before, hit, after, rfl, hm, hhit, hbefore⟩ := h
  refine ⟨line :: before, hit, after, rfl, hm, hhit, ?_⟩
  intro l hl
  rcases List.mem_cons.mp hl with rfl | hl
  · exact ⟨n, hn, ha⟩
  · exact hbefore l hl

theorem firstAt?_eq_some_iff {a : Address} {ls : List (List UInt8)} {m : Mapping} :
    firstAt? a ls = some m ↔ FoundIn ls a m := by
  constructor
  · intro h
    induction ls with
    | nil => cases h
    | cons line rest ih =>
      rcases firstAt?_cases a line with hl | ⟨n, hl, ha⟩ | ⟨n, hl, ha⟩
      · rw [firstAt?_stuck hl] at h
        cases h
      · rw [firstAt?_hit hl ha] at h
        cases h
        exact ⟨[], line, rest, rfl, hl, ha, fun l h => by cases h⟩
      · rw [firstAt?_miss hl ha] at h
        exact (ih h).cons hl ha
  · rintro ⟨before, line, after, rfl, hm, ha, hbefore⟩
    induction before with
    | nil => exact firstAt?_hit hm ha
    | cons l before ih =>
      obtain ⟨n, hn, hna⟩ := hbefore l List.mem_cons_self
      rw [List.cons_append, firstAt?_miss hn hna]
      exact ih fun l hl => hbefore l (List.mem_cons_of_mem _ hl)

theorem firstAt?_covered {a : Address} {before : List (List UInt8)} (h : Covers before a)
    (rest other : List (List UInt8)) :
    firstAt? a (before ++ rest) = firstAt? a (before ++ other) := by
  induction before with
  | nil =>
    obtain ⟨l, hl, -⟩ := h
    cases hl
  | cons line before ih =>
    rw [List.cons_append, List.cons_append]
    rcases firstAt?_cases a line with hl | ⟨m, hl, ha⟩ | ⟨m, hl, ha⟩
    · rw [firstAt?_stuck hl, firstAt?_stuck hl]
    · rw [firstAt?_hit hl ha, firstAt?_hit hl ha]
    · rw [firstAt?_miss hl ha, firstAt?_miss hl ha]
      apply ih
      obtain ⟨l, hmem, n, hn, hna⟩ := h
      rcases List.mem_cons.mp hmem with rfl | hmem
      · rw [hl] at hn
        cases hn
        exact absurd hna ha
      · exact ⟨l, hmem, n, hn, hna⟩

theorem firstAt?_malformed {a : Address} {before : List (List UInt8)} (h : ¬ Covers before a)
    {bad : List UInt8} (hbad : parse? bad = none) (after : List (List UInt8)) :
    firstAt? a (before ++ bad :: after) = none := by
  induction before with
  | nil => exact firstAt?_stuck hbad
  | cons line before ih =>
    have hrest : ¬ Covers before a := fun ⟨l, hl, hm⟩ => h ⟨l, List.mem_cons_of_mem _ hl, hm⟩
    rw [List.cons_append]
    rcases firstAt?_cases a line with hl | ⟨m, hl, ha⟩ | ⟨m, hl, ha⟩
    · exact firstAt?_stuck hl
    · exact absurd ⟨line, List.mem_cons_self, m, hl, ha⟩ h
    · rw [firstAt?_miss hl ha]
      exact ih hrest

section Runs
variable {σ : Type} (t : Target σ) (s : σ) (e : ProcEntry) (a : Address)

theorem run_visitLines (ls : List (List UInt8)) :
    ∃ whole s', (e.visitLines (fun found m => if m.contains a then .done (some m) else .yield found)
      ls none).run t s = (.ok (firstAt? a ls, whole), s') := by
  induction ls with
  | nil => exact ⟨true, s, rfl⟩
  | cons line rest ih =>
    unfold visitLines
    rcases firstAt?_cases a line with hl | ⟨m, hl, ha⟩ | ⟨m, hl, ha⟩
    · rw [firstAt?_stuck hl, hl]
      exact ⟨false, _, rfl⟩
    · rw [firstAt?_hit hl ha, hl]
      simp only [if_pos (contains_iff.mpr ha)]
      exact ⟨true, s, rfl⟩
    · rw [firstAt?_miss hl ha, hl]
      simp only [if_neg fun hc => ha (contains_iff.mp hc)]
      exact ih

variable {e} {text : List UInt8} (hmaps : e.maps = some text)
include hmaps

theorem run_findMapping :
    ∃ s', (e.findMapping a).run t s = (.ok (firstAt? a (lines text)), s') := by
  obtain ⟨whole, s', h⟩ := run_visitLines t s e a (lines text)
  refine ⟨s', ?_⟩
  unfold findMapping visit
  rw [hmaps, Probe.bind_eq, Probe.run_bind]
  simp only [h]
  rfl

theorem run_isReadable :
    ((e.isReadable a).run t s).1 = .ok ((firstAt? a (lines text)).any (·.readable)) := by
  obtain ⟨s', h⟩ := run_findMapping t s a hmaps
  unfold isReadable
  rw [Probe.bind_eq, Probe.run_bind, h]
  cases firstAt? a (lines text) with
  | none => rfl
  | some m =>
    rw [Option.any_some]
    simp only
    cases m.readable <;> rfl

end Runs

/-- Mappings in the way the system lists them: one a line, each with spaces behind its inode. -/
def listing (shown : List (Nat × Mapping)) : List UInt8 :=
  shown.flatMap fun p => p.2.render p.1 ++ [10]

/-- The mapping fits on a line, with so many spaces behind its inode. -/
structure Shows (gap : Nat) (m : Mapping) : Prop where
  name : m.name.IsName
  oneLine : 10 ∉ m.name.octets
  spaced : m.name.octets = [] ∨ 0 < gap

def Apart (p q : Nat × Mapping) : Prop := ∀ a, p.2.Holds a → ¬ q.2.Holds a

theorem lines_listing {shown : List (Nat × Mapping)} (h : ∀ p ∈ shown, Shows p.1 p.2) :
    Lines (listing shown) (shown.map fun p => p.2.render p.1) := by
  have hended : ∀ l ∈ shown.map fun p => p.2.render p.1, 10 ∉ l := by
    intro l hl hbreak
    obtain ⟨p, hp, rfl⟩ := List.mem_map.mp hl
    exact (h p hp).oneLine ((written_render _ _).mem_name hbreak (by simp))
  have hlines := lines_of_ended hended
  rwa [List.flatMap_map] at hlines

/-- Of disjoint mappings there is only one that can hold the address. -/
theorem readable_listed {shown : List (Nat × Mapping)} (h : ∀ p ∈ shown, Shows p.1 p.2)
    (hapart : shown.Pairwise Apart) (a : Address) :
    (firstAt? a (shown.map fun p => p.2.render p.1)).any (·.readable) = true ↔
      ∃ p ∈ shown, p.2.readable = true ∧ p.2.Holds a := by
  induction shown with
  | nil =>
    constructor
    · intro hnone
      cases hnone
    · rintro ⟨p, hp, -⟩
      cases hp
  | cons p rest ih =>
    obtain ⟨hp, hrest⟩ := List.pairwise_cons.mp hapart
    have hshows := h p List.mem_cons_self
    have hparse := (written_render p.1 p.2).parse?_eq hshows.name hshows.spaced
    rw [List.map_cons]
    by_cases ha : p.2.Holds a
    · rw [firstAt?_hit hparse ha, Option.any_some]
      constructor
      · intro hr
        exact ⟨p, List.mem_cons_self, hr, ha⟩
      · rintro ⟨q, hq, hr, hqa⟩
        rcases List.mem_cons.mp hq with rfl | hq
        · exact hr
        · exact absurd hqa (hp q hq a ha)
    · rw [firstAt?_miss hparse ha, ih (fun q hq => h q (List.mem_cons_of_mem p hq)) hrest]
      constructor
      · rintro ⟨q, hq, hr, hqa⟩
        exact ⟨q, List.mem_cons_of_mem p hq, hr, hqa⟩
      · rintro ⟨q, hq, hr, hqa⟩
        rcases List.mem_cons.mp hq with rfl | hq
        · exact absurd hqa ha
        · exact ⟨q, hq, hr, hqa⟩

/-- An address is found in the first line that holds it, the lines before it being mappings, and is
readable if that mapping is. For disjoint mappings the order does not matter. Behind a line that is
no mapping nothing is found, and what is found before it does not depend on it. -/
theorem addresses_exact {σ : Type} (t : Target σ) (s : σ) (e : ProcEntry) {text : List UInt8}
    (hmaps : e.maps = some text) (a : Address) :
    ∃ found readable, ((e.findMapping a).run t s).1 = .ok found ∧
      ((e.isReadable a).run t s).1 = .ok readable ∧
      (∀ ls, Lines text ls → (∀ m, found = some m ↔ FoundIn ls a m) ∧
        (readable = true ↔ ∃ m, FoundIn ls a m ∧ m.readable = true)) ∧
      (∀ shown, text = listing shown → (∀ p ∈ shown, Shows p.1 p.2) → shown.Pairwise Apart →
        (readable = true ↔ ∃ p ∈ shown, p.2.readable = true ∧ p.2.Holds a)) ∧
      (∀ before bad after, Lines text (before ++ bad :: after) → parse? bad = none →
        (¬ Covers before a → readable = false) ∧
        (Covers before a → ∀ (e' : ProcEntry) (text' : List UInt8) (other : List (List UInt8)),
          e'.maps = some text' → Lines text' (before ++ other) →
            ((e'.isReadable a).run t s).1 = .ok readable)) := by
  obtain ⟨s', hfind⟩ := run_findMapping t s a hmaps
  refine ⟨_, _, congrArg Prod.fst hfind, run_isReadable t s a hmaps, ?_, ?_, ?_⟩
  · intro ls hls
    rw [lines_iff.mpr hls]
    refine ⟨fun m => firstAt?_eq_some_iff, ?_⟩
    rw [Option.any_eq_true]
    exact exists_congr fun m => and_congr_left' firstAt?_eq_some_iff
  · rintro shown rfl hshows hapart
    rw [lines_iff.mpr (lines_listing hshows)]
    exact readable_listed hshows hapart a
  · intro before bad after hls hbad
    rw [lines_iff.mpr hls]
    constructor
    · intro hcovers
      rw [firstAt?_malformed hcovers hbad]
      rfl
    · intro hcovers e' text' other hmaps' hls'
      rw [run_isReadable t s a hmaps', lines_iff.mpr hls', firstAt?_covered hcovers]

/-- A mapping that can be read and has a name, and one behind it that cannot and has none. -/
def readablePage : Nat × Mapping :=
  (20, ⟨0x400000, 0x401000, 0, true, false, true, false, 8, 1, 100, Text.ofString "/bin/p y"⟩)

def guardPage : Nat × Mapping :=
  (0, ⟨0x401000, 0x402000, 0, false, false, false, false, 0, 0, 0, ⟨[]⟩⟩)

theorem shows_pages : ∀ p ∈ [readablePage, guardPage], Shows p.1 p.2 := by
  intro p hp
  simp only [List.mem_cons, List.not_mem_nil, or_false] at hp
  rcases hp with rfl | rfl
  · exact ⟨by decide, by decide, .inr (by decide)⟩
  · exact ⟨by decide, by decide, .inl rfl⟩

theorem apart_pages : [readablePage, guardPage].Pairwise Apart := by
  refine List.pairwise_pair.mpr ?_
  rintro a ⟨-, hstop⟩ ⟨hstart, -⟩
  exact UInt64.not_le.mpr hstop hstart

/-- The lines of the two mappings with a letter on a line of its own between them. -/
def brokenLines : List (List UInt8) :=
  [readablePage.2.render 20] ++ [120] :: [guardPage.2.render 0]

theorem lines_broken : Lines (brokenLines.flatMap (· ++ [10])) brokenLines := by
  apply lines_of_ended
  intro l hl hbreak
  rcases List.mem_cons.mp hl with rfl | hl
  · exact (shows_pages _ List.mem_cons_self).oneLine ((written_render _ _).mem_name hbreak (by simp))
  rcases List.mem_cons.mp hl with rfl | hl
  · simp at hbreak
  · obtain rfl := List.mem_singleton.mp hl
    cases (written_render _ _).mem_name hbreak (by simp)

theorem addresses_exact_pages :
    let e : ProcEntry := ⟨4242, true, some (listing [readablePage, guardPage])⟩
    let broken : ProcEntry := ⟨4242, true, some (brokenLines.flatMap (· ++ [10]))⟩
    let t := StillMemory.target fun _ _ => .copied []
    e.maps = some (listing [readablePage, guardPage]) ∧
      broken.maps = some (brokenLines.flatMap (· ++ [10])) ∧
      ((e.isReadable 0x400fff).run t ()).1 = .ok true ∧
      ((e.isReadable 0x401000).run t ()).1 = .ok false ∧
      ((broken.isReadable 0x400fff).run t ()).1 = .ok true ∧
      ((broken.isReadable 0x401000).run t ()).1 = .ok false := by
  intro e broken t
  have hshows := shows_pages readablePage List.mem_cons_self
  have hparse := (written_render 20 readablePage.2).parse?_eq hshows.name hshows.spaced
  have hin : readablePage.2.Holds 0x400fff := ⟨by decide, by decide⟩
  have hout : ¬ readablePage.2.Holds 0x401000 := fun h => absurd h.2 (by decide)
  have hbad : parse? [120] = none := rfl
  obtain ⟨_, inside, -, hinside, -, hlisted, -⟩ := addresses_exact t () e rfl 0x400fff
  obtain ⟨_, outside, -, houtside, -, hunlisted, -⟩ := addresses_exact t () e rfl 0x401000
  obtain ⟨_, early, -, hearly, -, -, hkept⟩ := addresses_exact t () broken rfl 0x400fff
  obtain ⟨_, late, -, hlate, -, -, hlost⟩ := addresses_exact t () broken rfl 0x401000
  have hinsideTrue : inside = true :=
    (hlisted _ rfl shows_pages apart_pages).mpr ⟨readablePage, List.mem_cons_self, rfl, hin⟩
  have houtsideFalse : outside = false := by
    apply Bool.eq_false_iff.mpr
    intro htrue
    obtain ⟨p, hp, hr, ha⟩ := (hunlisted _ rfl shows_pages apart_pages).mp htrue
    rcases List.mem_cons.mp hp with rfl | hp
    · exact hout ha
    · obtain rfl := List.mem_singleton.mp hp
      cases hr
  have hcovers : Covers [readablePage.2.render 20] 0x400fff :=
    ⟨_, List.mem_cons_self, _, hparse, hin⟩
  have huncovered : ¬ Covers [readablePage.2.render 20] 0x401000 := by
    rintro ⟨l, hl, m, hm, ha⟩
    obtain rfl := List.mem_singleton.mp hl
    rw [hparse] at hm
    cases hm
    exact hout ha
  have hsame := (hkept _ _ _ lines_broken hbad).2 hcovers e _ [guardPage.2.render 0] rfl
    (lines_listing shows_pages)
  rw [hinside, hinsideTrue] at hsame
  rw [hinside, houtside, hearly, hlate, hinsideTrue, houtsideFalse, ← hsame,
    (hlost _ _ _ lines_broken hbad).1 huncovered]
  exact ⟨rfl, rfl, rfl, rfl, rfl, rfl⟩

end ProcEntry
end StackPeek
