import StackPeek.Proofs.Probe.Course
import StackPeek.Thread.List

/-!
# Rounds of a walk over a linked list

An `Item` is an element that a walk has handed to its visitor, with the pointer to the next one
as far as it was read. `Row` puts items in a row along these pointers. `ListWalk.Rounds` lists
everything that one round of a walk can do, for threads and interpreters alike. Both kinds of
rounds begin the same way, which is taken apart once (`ListWalk.guarded_cases`). The lemmas after
it say what a walk made of such rounds can end with.

This module does NOT say where the pointers come from.
-/

namespace StackPeek
variable {σ ε : Type}

structure Item (ε : Type) where
  element : ε
  address : Address
  next : Option Address
  events : List Event

/-- Items in a row from one pointer to another; a pointer that was not read leads nowhere. -/
inductive Row : Option Address → List (Item ε) → Option Address → Prop where
  | nil (p : Option Address) : Row p [] p
  | cons {i : Item ε} {items : List (Item ε)} {z : Option Address} :
      Row i.next items z → Row (some i.address) (i :: items) z

theorem Row.begins {p : Option Address} {items : List (Item ε)} {z : Address}
    (h : Row p items (some z)) : ∃ a, p = some a := by
  cases h with
  | nil => exact ⟨z, rfl⟩
  | cons => exact ⟨_, rfl⟩

/-- The visitor was called for exactly these elements, in this order, and this came of it. -/
inductive Handed (visit : σ → ε → ForInStep σ) : σ → List ε → ForInStep σ → Prop where
  | nil (s : σ) : Handed visit s [] (.yield s)
  | stop {s s' : σ} {e : ε} : visit s e = .done s' → Handed visit s [e] (.done s')
  | cons {s s' : σ} {e : ε} {rest : List ε} {o : ForInStep σ} :
      visit s e = .yield s' → Handed visit s' rest o → Handed visit s (e :: rest) o

namespace ListWalk

def verdict (r : ListWalk σ) : ForInStep σ := if r.stopped then .done r.state else .yield r.state

/-- The walk stands at an address and has one more element to its account. -/
def report (r : ListWalk σ) (address : Address) (doubtful : Bool) (state : σ) : ListWalk σ :=
  { r with
    final := address
    incomplete := r.incomplete || doubtful
    count := r.count + 1
    state := state }

/-- Nothing has ended the walk yet. -/
structure Underway (r : ListWalk σ) : Prop where
  cycle : r.cycleDetected = false
  stopped : r.stopped = false
  error : r.error = none

/-- The rounds of a walk from a pointer on, with some room, some addresses already seen and
what came before in `r`: its items, the last pointer it has read, and what came of it. -/
inductive Rounds (visit : σ → ε → ForInStep σ) (doubtful : ε → Bool) :
    Nat → Option Address → List Address → ListWalk σ →
      List (Item ε) → Option Address → ListWalk σ → Prop where
  | finish {room : Nat} {visited : List Address} {r : ListWalk σ} :
      Rounds visit doubtful room (some 0) visited r [] (some 0) { r with final := 0 }
  /-- Cancelled, or out of room. -/
  | cut {room : Nat} {a : Address} {visited : List Address} {r : ListWalk σ} :
      Rounds visit doubtful room (some a) visited r [] (some a)
        { r with final := a, incomplete := true }
  | cycle {room : Nat} {a : Address} {visited : List Address} {r : ListWalk σ} : a ∈ visited →
      Rounds visit doubtful room (some a) visited r [] (some a)
        { r with final := a, cycleDetected := true }
  /-- The element, or the pointer to it, cannot be read. -/
  | fail {room : Nat} {p : Option Address} {a : Address} {visited : List Address}
      {r : ListWalk σ} {e : ReadError} :
      Rounds visit doubtful room p visited r [] p
        { r with final := a, incomplete := true, error := some e }
  | stop {room : Nat} {visited : List Address} {r : ListWalk σ} {i : Item ε} {s : σ} :
      i.address ≠ 0 → i.address ∉ visited → visit r.state i.element = .done s →
      Rounds visit doubtful (room + 1) (some i.address) visited r [i] i.next
        { r.report i.address (doubtful i.element) s with stopped := true }
  | step {room : Nat} {visited : List Address} {r r' : ListWalk σ} {i : Item ε} {s : σ}
      {items : List (Item ε)} {z : Option Address} :
      i.address ≠ 0 → i.address ∉ visited → visit r.state i.element = .yield s →
      Rounds visit doubtful room i.next (i.address :: visited)
        (r.report i.address (doubtful i.element) s) items z r' →
      Rounds visit doubtful (room + 1) (some i.address) visited r (i :: items) z r'

theorem Underway.report {r : ListWalk σ} (h : r.Underway) (a : Address) (d : Bool) (s : σ) :
    (r.report a d s).Underway := ⟨h.cycle, h.stopped, h.error⟩

theorem underway_start (s : σ) : (start s).Underway := ⟨rfl, rfl, rfl⟩

/-- How a round of either walk begins: the end of the list, the flag, the limit and an address
that comes up again end it, in this order, and `go` is the rest. -/
def guarded (r : ListWalk σ) (room : Nat) (address : Address)
    (visited : List Address) (full seen : Probe (ListWalk σ)) (go : Nat → Probe (ListWalk σ)) :
    Probe (ListWalk σ) :=
  if address = 0 then return { r with final := address }
  else do
    if ← Probe.cancelled then return { r with final := address, incomplete := true }
    else match room with
      | 0 => full
      | room + 1 => if address ∈ visited then seen else go room

/-- A round that gets past its beginning has looked at the flag and has room for an address that
is neither null nor known. -/
theorem guarded_cases {visit : σ → ε → ForInStep σ} {doubtful : ε → Bool}
    {address : Address} {room : Nat} {visited : List Address} {r r' : ListWalk σ}
    {full seen : Probe (ListWalk σ)} {go : Nat → Probe (ListWalk σ)} {es : List Event}
    (h : (r.guarded room address visited full seen go).Course es (.ok r'))
    (hfull : ∀ es, full.Course es (.ok r') → r' = { r with final := address, incomplete := true })
    (hseen : ∀ es, seen.Course es (.ok r') →
      r' = { r with final := address, cycleDetected := true }) :
    Rounds visit doubtful room (some address) visited r [] (some address) r' ∨
    ∃ room' rest, address ≠ 0 ∧ address ∉ visited ∧ room = room' + 1 ∧
      es = .poll false :: rest ∧ (go room').Course rest (.ok r') := by
  unfold guarded at h
  by_cases ha : address = 0
  · rw [if_pos ha] at h
    obtain ⟨-, rfl⟩ := h.of_done
    rw [ha]
    exact .inl .finish
  rw [if_neg ha] at h
  obtain ⟨flag, es₀, rfl, h₀⟩ := Probe.Course.of_cancelled h
  cases flag with
  | true =>
    obtain ⟨-, rfl⟩ := h₀.of_done
    exact .inl .cut
  | false =>
    rw [if_neg Bool.false_ne_true] at h₀
    cases room with
    | zero =>
      obtain rfl := hfull _ h₀
      exact .inl .cut
    | succ room =>
      by_cases hm : address ∈ visited
      · simp only [if_pos hm] at h₀
        obtain rfl := hseen _ h₀
        exact .inl (.cycle hm)
      · simp only [if_neg hm] at h₀
        exact .inr ⟨room, es₀, ha, hm, rfl, rfl, h₀⟩

namespace Rounds
variable {visit : σ → ε → ForInStep σ} {doubtful : ε → Bool} {room : Nat} {p z : Option Address}
  {visited : List Address} {r r' : ListWalk σ} {items : List (Item ε)}

theorem row (h : Rounds visit doubtful room p visited r items z r') : Row p items z := by
  induction h with
  | finish | cut | cycle | fail => exact .nil _
  | stop => exact .cons (.nil _)
  | step _ _ _ _ ih => exact .cons ih

theorem nonnull (h : Rounds visit doubtful room p visited r items z r') :
    ∀ i ∈ items, i.address ≠ 0 := by
  induction h with
  | finish | cut | cycle | fail =>
    intro i hi
    cases hi
  | stop ha =>
    intro i hi
    rw [List.mem_singleton.mp hi]
    exact ha
  | step ha _ _ _ ih =>
    intro i hi
    rcases List.mem_cons.mp hi with rfl | hi
    · exact ha
    · exact ih i hi

theorem fresh (h : Rounds visit doubtful room p visited r items z r') :
    ∀ i ∈ items, i.address ∉ visited := by
  induction h with
  | finish | cut | cycle | fail =>
    intro i hi
    cases hi
  | stop _ hv =>
    intro i hi
    rw [List.mem_singleton.mp hi]
    exact hv
  | step _ hv _ _ ih =>
    intro i hi
    rcases List.mem_cons.mp hi with rfl | hi
    · exact hv
    · exact fun hm => ih i hi (List.mem_cons_of_mem _ hm)

theorem distinct (h : Rounds visit doubtful room p visited r items z r') :
    (items.map Item.address).Nodup := by
  induction h with
  | finish | cut | cycle | fail => exact List.nodup_nil
  | stop => exact List.nodup_cons.mpr ⟨List.not_mem_nil, List.nodup_nil⟩
  | step _ _ _ h ih =>
    rw [List.map_cons, List.nodup_cons]
    refine ⟨?_, ih⟩
    intro hm
    obtain ⟨j, hj, he⟩ := List.mem_map.mp hm
    exact h.fresh j hj (he ▸ List.mem_cons_self)

theorem within (h : Rounds visit doubtful room p visited r items z r') :
    items.length ≤ room := by
  induction h with
  | finish | cut | cycle | fail => exact Nat.zero_le _
  | stop => exact Nat.succ_le_succ (Nat.zero_le _)
  | step _ _ _ _ ih => exact Nat.succ_le_succ ih

theorem count (h : Rounds visit doubtful room p visited r items z r') :
    r'.count = r.count + items.length := by
  induction h with
  | finish | cut | cycle | fail | stop => rfl
  | step _ _ _ _ ih =>
    rw [ih, List.length_cons]
    simp only [ListWalk.report]
    omega

theorem handed (h : Rounds visit doubtful room p visited r items z r') (hr : r.Underway) :
    Handed visit r.state (items.map Item.element) r'.verdict := by
  induction h with
  | finish | cut | cycle | fail =>
    unfold verdict
    simp only [hr.stopped]
    exact .nil _
  | stop _ _ hs => exact .stop hs
  | step _ _ hs _ ih => exact .cons hs (ih (hr.report _ _ _))

theorem sure (h : Rounds visit doubtful room p visited r items z r')
    (hi : r'.incomplete = false) :
    r.incomplete = false ∧ ∀ i ∈ items, doubtful i.element = false := by
  induction h with
  | finish | cycle =>
    refine ⟨hi, ?_⟩
    intro i hm
    cases hm
  | cut | fail => cases hi
  | stop =>
    obtain ⟨hr, hd⟩ := Bool.or_eq_false_iff.mp hi
    refine ⟨hr, ?_⟩
    intro i hm
    rw [List.mem_singleton.mp hm]
    exact hd
  | step _ _ _ _ ih =>
    -- The mark of this round is among those that the rest starts from.
    obtain ⟨hr, hrest⟩ := ih hi
    obtain ⟨hr, hd⟩ := Bool.or_eq_false_iff.mp hr
    refine ⟨hr, ?_⟩
    intro i hm
    rcases List.mem_cons.mp hm with rfl | hm
    · exact hd
    · exact hrest i hm

theorem incomplete_of_error (h : Rounds visit doubtful room p visited r items z r')
    (hr : r.Underway) (he : r'.error.isSome = true) : r'.incomplete = true := by
  induction h with
  | finish | cut | cycle | stop =>
    simp only [ListWalk.report, hr.error] at he
    cases he
  | fail => rfl
  | step _ _ _ _ ih => exact ih (hr.report _ _ _) he

theorem one_reason (h : Rounds visit doubtful room p visited r items z r') (hr : r.Underway) :
    [r'.stopped, r'.cycleDetected, r'.error.isSome].count true ≤ 1 := by
  induction h with
  | finish | cut | cycle | fail | stop =>
    simp [ListWalk.report, hr.stopped, hr.cycle, hr.error]
  | step _ _ _ _ ih => exact ih (hr.report _ _ _)

theorem of_cycle (h : Rounds visit doubtful room p visited r items z r') (hr : r.Underway)
    (hc : r'.cycleDetected = true) :
    ∃ a, z = some a ∧ (a ∈ visited ∨ a ∈ items.map Item.address) := by
  induction h with
  | finish | cut | fail | stop =>
    simp only [ListWalk.report, hr.cycle] at hc
    cases hc
  | cycle hm => exact ⟨_, rfl, .inl hm⟩
  | step _ _ _ _ ih =>
    obtain ⟨a, rfl, ha⟩ := ih (hr.report _ _ _) hc
    refine ⟨a, rfl, ?_⟩
    -- An address seen since this round is this round's own or that of a later item.
    rcases ha with ha | ha
    · rcases List.mem_cons.mp ha with rfl | ha
      · exact .inr List.mem_cons_self
      · exact .inl ha
    · exact .inr (List.mem_cons_of_mem _ ha)

theorem of_end (h : Rounds visit doubtful room p visited r items z r')
    (hi : r'.incomplete = false) (hc : r'.cycleDetected = false) (hs : r'.stopped = false) :
    z = some 0 := by
  induction h with
  | finish => rfl
  | cut | fail => cases hi
  | cycle => cases hc
  | stop => cases hs
  | step _ _ _ _ ih => exact ih hi hc hs

end Rounds

/-- What a walk over a linked list promises: of the elements it has reported, of the calls of
its visitor, and of how it ended. -/
structure Faithful (limit : Nat) (visit : σ → ε → ForInStep σ) (state : σ)
    (head : Option Address) (items : List (Item ε)) (last : Option Address) (r : ListWalk σ) :
    Prop where
  row : Row head items last
  nonnull : ∀ i ∈ items, i.address ≠ 0
  distinct : (items.map Item.address).Nodup
  handed : Handed visit state (items.map Item.element) r.verdict
  count : r.count = items.length
  within : r.count ≤ limit
  of_error : r.error.isSome = true → r.incomplete = true
  one_reason : [r.stopped, r.cycleDetected, r.error.isSome].count true ≤ 1
  of_cycle : r.cycleDetected = true → ∃ a, last = some a ∧ a ∈ items.map Item.address
  of_end : r.incomplete = false → r.cycleDetected = false → r.stopped = false → last = some 0

theorem Rounds.faithful {visit : σ → ε → ForInStep σ} {doubtful : ε → Bool} {room : Nat}
    {p z : Option Address} {s : σ} {items : List (Item ε)} {r : ListWalk σ}
    (h : Rounds visit doubtful room p [] (.start s) items z r) :
    r.Faithful room visit s p items z where
  row := h.row
  nonnull := h.nonnull
  distinct := h.distinct
  handed := h.handed (underway_start s)
  count := h.count.trans (Nat.zero_add _)
  within := by
    rw [h.count]
    exact Nat.le_trans (Nat.le_of_eq (Nat.zero_add _)) h.within
  of_error := h.incomplete_of_error (underway_start s)
  one_reason := h.one_reason (underway_start s)
  of_cycle := by
    intro hc
    obtain ⟨a, rfl, ha⟩ := h.of_cycle (underway_start s) hc
    rcases ha with ha | ha
    · cases ha
    · exact ⟨a, rfl, ha⟩
  of_end := h.of_end

end ListWalk
end StackPeek
