import StackPeek.Proofs.Probe.Still

/-!
# Interleavings of a pool

`Stepped` lists what one step of a worker can do to a pool, and `Steps` is a run of the pool
along a schedule, together with what the workers did to which index. The invariant `Orderly`
follows every index through its life: one worker fetches it, the same worker carries out its
task, and the same worker stores the result. The tasks are probes of memory at rest that have
results; nothing else is assumed about them, and nothing about the schedule.
-/

namespace StackPeek

inductive Act where
  | fetch
  | start
  | store
  deriving DecidableEq

structure Deed where
  worker : Nat
  act : Act
  index : Nat
  deriving DecidableEq

/-- What was done to one index, in order. -/
def story (k : Nat) (deeds : List Deed) : List Deed := deeds.filter (·.index = k)

theorem story_append (k : Nat) (ds es : List Deed) :
    story k (ds ++ es) = story k ds ++ story k es := List.filter_append ds es

theorem story_append_self (ds : List Deed) (d : Deed) :
    story d.index (ds ++ [d]) = story d.index ds ++ [d] := by
  rw [story_append]
  simp [story]

theorem story_append_other {k : Nat} {d : Deed} (h : d.index ≠ k) (ds : List Deed) :
    story k (ds ++ [d]) = story k ds := by
  rw [story_append]
  simp [story, h]

namespace Pool
variable {α : Type} {m : StillMemory} {tasks : List (Probe α)} {p q : Pool α} {i : Nat}

/-- What the `i`-th worker did to an index, seen from the pool before and after a step. -/
def deed? (before after : Pool α) (i : Nat) : Option Deed :=
  match before.workers[i]?, after.workers[i]? with
  | some .fetching, some (.holding index) => some ⟨i, .fetch, index⟩
  | some (.holding _), some (.working index _) => some ⟨i, .start, index⟩
  | some (.working index _), some .fetching => some ⟨i, .store, index⟩
  | _, _ => none

/-- What one step of the `i`-th worker can do to the pool. -/
inductive Stepped (m : StillMemory) (tasks : List (Probe α)) (p : Pool α) (i : Nat) :
    Pool α → Prop where
  | idle (h : p.workers[i]? = none ∨ p.workers[i]? = some .finished) : Stepped m tasks p i p
  | fetch (h : p.workers[i]? = some .fetching) (hn : p.next < tasks.length) :
      Stepped m tasks p i ({ p with next := p.next + 1 }.setWorker i (.holding p.next))
  | leave (h : p.workers[i]? = some .fetching) (hn : tasks.length ≤ p.next) :
      Stepped m tasks p i ({ p with next := p.next + 1 }.setWorker i .finished)
  | quit {k : Nat} (h : p.workers[i]? = some (.holding k))
      (hq : tasks[k]? = none ∨ p.fault.isSome = true) :
      Stepped m tasks p i (p.setWorker i .finished)
  | start {k : Nat} {task : Probe α} (h : p.workers[i]? = some (.holding k))
      (ht : tasks[k]? = some task) : Stepped m tasks p i (p.setWorker i (.working k task))
  | store {k : Nat} {a : α} (h : p.workers[i]? = some (.working k (.done a))) :
      Stepped m tasks p i ((p.store k a).setWorker i .fetching)
  | fail {k : Nat} {f : Fault} (h : p.workers[i]? = some (.working k (.fault f))) :
      Stepped m tasks p i ((p.fail f).setWorker i .finished)
  | work {k : Nat} {rest rest' : Probe α} (h : p.workers[i]? = some (.working k rest))
      (hr : rest'.outcome m = rest.outcome m) :
      Stepped m tasks p i (p.setWorker i (.working k rest'))

theorem step_stepped (m : StillMemory) (tasks : List (Probe α)) (p : Pool α) (i : Nat) :
    ∃ q, (p.step tasks i).outcome m = .ok q ∧ Stepped m tasks p i q := by
  unfold step
  cases hw : p.workers[i]? with
  | none => exact ⟨p, rfl, .idle (.inl hw)⟩
  | some worker =>
    cases worker with
    | finished => exact ⟨p, rfl, .idle (.inr hw)⟩
    | fetching =>
      by_cases hn : p.next < tasks.length
      · refine ⟨_, rfl, ?_⟩
        rw [if_pos hn]
        exact .fetch hw hn
      · refine ⟨_, rfl, ?_⟩
        rw [if_neg hn]
        exact .leave hw (by omega)
    | holding k =>
      simp only [Probe.bind_eq, Probe.outcome_bind_ok Probe.outcome_cancelled]
      cases ht : tasks[k]? with
      | none => exact ⟨_, rfl, .quit hw (.inl ht)⟩
      | some task =>
        cases hf : p.fault with
        | some f => exact ⟨_, rfl, .quit hw (.inr (by rw [hf]; rfl))⟩
        | none => exact ⟨_, rfl, .start hw ht⟩
    | working k rest =>
      cases rest with
      | done a => exact ⟨_, rfl, .store hw⟩
      | fault f => exact ⟨_, rfl, .fail hw⟩
      | read a n c => exact ⟨_, rfl, .work hw rfl⟩
      | poll c => exact ⟨_, rfl, .work hw rfl⟩
      | log e c => exact ⟨_, rfl, .work hw rfl⟩

/-- A run along a schedule, with everything that was done to an index. -/
inductive Steps (m : StillMemory) (tasks : List (Probe α)) :
    Pool α → Schedule → List Deed → Pool α → Prop where
  | nil (p : Pool α) : Steps m tasks p [] [] p
  | cons {p q r : Pool α} {i : Nat} {rest : Schedule} {deeds : List Deed} :
      (p.step tasks i).outcome m = .ok q → Steps m tasks q rest deeds r →
      Steps m tasks p (i :: rest) ((deed? p q i).toList ++ deeds) r

theorem setWorker_self {v : Worker α} (h : p.workers[i]? = some v) (w : Worker α) :
    (p.setWorker i w).workers[i]? = some w := by
  obtain ⟨hi, -⟩ := List.getElem?_eq_some_iff.mp h
  exact List.getElem?_set_self hi

theorem setWorker_ne {j : Nat} (h : j ≠ i) (w : Worker α) :
    (p.setWorker i w).workers[j]? = p.workers[j]? := List.getElem?_set_ne (Ne.symm h)

theorem setWorker_kept {v u w : Worker α} {j : Nat} (h : p.workers[i]? = some v)
    (hj : p.workers[j]? = some u) (hu : u ≠ v) : (p.setWorker i w).workers[j]? = some u := by
  have hji : j ≠ i := by
    rintro rfl
    exact hu (Option.some.inj (hj.symm.trans h))
  rw [setWorker_ne hji, hj]

theorem of_setWorker {v w u : Worker α} {j : Nat} (h : p.workers[i]? = some v)
    (hu : (p.setWorker i w).workers[j]? = some u) :
    (j = i ∧ w = u) ∨ (j ≠ i ∧ p.workers[j]? = some u) := by
  by_cases hj : j = i
  · subst hj
    rw [setWorker_self h] at hu
    exact .inl ⟨rfl, Option.some.inj hu⟩
  · rw [setWorker_ne hj] at hu
    exact .inr ⟨hj, hu⟩

/-- The deeds of a worker that holds an index. -/
def fetchedBy (i k : Nat) : List Deed := [⟨i, .fetch, k⟩]

/-- The deeds of a worker that carries out the task of an index. -/
def startedBy (i k : Nat) : List Deed := [⟨i, .fetch, k⟩, ⟨i, .start, k⟩]

/-- The whole life of an index. -/
def storedBy (i k : Nat) : List Deed := [⟨i, .fetch, k⟩, ⟨i, .start, k⟩, ⟨i, .store, k⟩]

/-- The result of the task of an index is in its slot, and one worker has seen to it alone. -/
def Settled (results : List α) (ds : List Deed) (p : Pool α) (k : Nat) : Prop :=
  ∃ i a, story k ds = storedBy i k ∧ results[k]? = some a ∧ p.slots[k]? = some (some a)

/-- After the deeds `ds` every index below the counter has exactly one worker behind it, and
the slots hold the results of the tasks. -/
structure Orderly (m : StillMemory) (tasks : List (Probe α)) (results : List α) (ds : List Deed)
    (p : Pool α) : Prop where
  no_fault : p.fault = none
  size : p.slots.length = tasks.length
  unfetched : ∀ k : Nat, p.next ≤ k → story k ds = []
  holding : ∀ i k : Nat, p.workers[i]? = some (.holding k) →
    k < tasks.length ∧ k < p.next ∧ story k ds = fetchedBy i k
  working : ∀ (i k : Nat) (rest : Probe α), p.workers[i]? = some (.working k rest) →
    k < tasks.length ∧ k < p.next ∧ story k ds = startedBy i k ∧
      ∃ a, results[k]? = some a ∧ rest.outcome m = .ok a
  accounted : ∀ k : Nat, k < tasks.length → k < p.next →
    (∃ i : Nat, p.workers[i]? = some (.holding k)) ∨
      (∃ (i : Nat) (rest : Probe α), p.workers[i]? = some (.working k rest)) ∨
      Settled results ds p k
  left : ∀ i : Nat, p.workers[i]? = some .finished → tasks.length ≤ p.next

namespace Orderly
variable {results : List α} {ds : List Deed} {k : Nat}

theorem init (count : Nat) : Orderly m tasks results [] (.start count tasks.length) where
  no_fault := rfl
  size := List.length_replicate
  unfetched _ _ := rfl
  holding i k h := by simp [Pool.start, List.getElem?_replicate] at h
  working i k rest h := by simp [Pool.start, List.getElem?_replicate] at h
  accounted k _ h := by simp [Pool.start] at h
  left i h := by simp [Pool.start, List.getElem?_replicate] at h

theorem left_of_setWorker (ho : Orderly m tasks results ds p) {v w : Worker α} {j : Nat}
    (h : p.workers[i]? = some v) (hj : (p.setWorker i w).workers[j]? = some .finished)
    (hw : w ≠ .finished) : tasks.length ≤ p.next := by
  rcases of_setWorker h hj with ⟨-, he⟩ | ⟨-, hj⟩
  · exact absurd he hw
  · exact ho.left j hj

theorem fetch (ho : Orderly m tasks results ds p) (h : p.workers[i]? = some .fetching)
    (hn : p.next < tasks.length) :
    Orderly m tasks results (ds ++ [⟨i, .fetch, p.next⟩])
      ({ p with next := p.next + 1 }.setWorker i (.holding p.next)) := by
  have hother : ∀ k : Nat, k ≠ p.next →
      story k (ds ++ [⟨i, .fetch, p.next⟩]) = story k ds :=
    fun k hk => story_append_other (Ne.symm hk) ds
  have hi : ({ p with next := p.next + 1 } : Pool α).workers[i]? = some .fetching := h
  constructor
  · exact ho.no_fault
  · exact ho.size
  · intro k hk
    have hk : p.next + 1 ≤ k := hk
    rw [hother k (by omega)]
    exact ho.unfetched k (by omega)
  · intro j k hj
    rcases of_setWorker hi hj with ⟨rfl, hw⟩ | ⟨-, hj⟩
    · cases hw
      refine ⟨hn, Nat.lt_succ_self _, ?_⟩
      rw [story_append_self (d := ⟨j, .fetch, p.next⟩), ho.unfetched _ (Nat.le_refl _)]
      rfl
    · obtain ⟨hl, hk, hs⟩ := ho.holding j k hj
      exact ⟨hl, Nat.lt_succ_of_lt hk, by rw [hother k (by omega), hs]⟩
  · intro j k rest hj
    rcases of_setWorker hi hj with ⟨-, hw⟩ | ⟨-, hj⟩
    · cases hw
    · obtain ⟨hl, hk, hs, ha⟩ := ho.working j k rest hj
      exact ⟨hl, Nat.lt_succ_of_lt hk, by rw [hother k (by omega), hs], ha⟩
  · intro k hl hk
    have hk : k < p.next + 1 := hk
    by_cases he : k = p.next
    · subst he
      exact .inl ⟨i, setWorker_self hi _⟩
    · rcases ho.accounted k hl (by omega) with ⟨j, hj⟩ | ⟨j, rest, hj⟩ | ⟨j, a, hs, ha⟩
      · exact .inl ⟨j, setWorker_kept hi hj nofun⟩
      · exact .inr (.inl ⟨j, rest, setWorker_kept hi hj nofun⟩)
      · exact .inr (.inr ⟨j, a, by rw [hother k he, hs], ha⟩)
  · intro j hj
    exact Nat.le_succ_of_le (ho.left_of_setWorker h hj nofun)

theorem leave (ho : Orderly m tasks results ds p) (h : p.workers[i]? = some .fetching)
    (hn : tasks.length ≤ p.next) :
    Orderly m tasks results ds ({ p with next := p.next + 1 }.setWorker i .finished) := by
  have hi : ({ p with next := p.next + 1 } : Pool α).workers[i]? = some .fetching := h
  constructor
  · exact ho.no_fault
  · exact ho.size
  · exact fun k hk => ho.unfetched k (Nat.le_of_succ_le hk)
  · intro j k hj
    rcases of_setWorker hi hj with ⟨-, hw⟩ | ⟨-, hj⟩
    · cases hw
    · obtain ⟨hl, hk, hs⟩ := ho.holding j k hj
      exact ⟨hl, Nat.lt_succ_of_lt hk, hs⟩
  · intro j k rest hj
    rcases of_setWorker hi hj with ⟨-, hw⟩ | ⟨-, hj⟩
    · cases hw
    · obtain ⟨hl, hk, hs⟩ := ho.working j k rest hj
      exact ⟨hl, Nat.lt_succ_of_lt hk, hs⟩
  · intro k hl hk
    rcases ho.accounted k hl (by omega) with ⟨j, hj⟩ | ⟨j, rest, hj⟩ | hs
    · exact .inl ⟨j, setWorker_kept hi hj nofun⟩
    · exact .inr (.inl ⟨j, rest, setWorker_kept hi hj nofun⟩)
    · exact .inr (.inr hs)
  · exact fun _ _ => Nat.le_succ_of_le hn

theorem worker_unique (ho : Orderly m tasks results ds p) {j : Nat}
    (hi : p.workers[i]? = some (.holding k) ∨ ∃ rest, p.workers[i]? = some (.working k rest))
    (hj : p.workers[j]? = some (.holding k) ∨ ∃ rest, p.workers[j]? = some (.working k rest)) :
    i = j := by
  have first : ∀ {i : Nat}, (p.workers[i]? = some (.holding k) ∨
      ∃ rest, p.workers[i]? = some (.working k rest)) →
      (story k ds).head? = some ⟨i, .fetch, k⟩ := by
    rintro i (h | ⟨rest, h⟩)
    · rw [(ho.holding i k h).2.2]
      rfl
    · rw [(ho.working i k rest h).2.2.1]
      rfl
  have he := (first hi).symm.trans (first hj)
  injection he with he
  injection he

theorem index_ne (ho : Orderly m tasks results ds p) {j l : Nat}
    (hi : p.workers[i]? = some (.holding k) ∨ ∃ rest, p.workers[i]? = some (.working k rest))
    (hj : p.workers[j]? = some (.holding l) ∨ ∃ rest, p.workers[j]? = some (.working l rest))
    (hji : j ≠ i) : l ≠ k := by
  rintro rfl
  exact hji (ho.worker_unique hj hi)

theorem start (ho : Orderly m tasks results ds p) {task : Probe α} {a : α}
    (h : p.workers[i]? = some (.holding k)) (ha : results[k]? = some a)
    (ht : task.outcome m = .ok a) :
    Orderly m tasks results (ds ++ [⟨i, .start, k⟩]) (p.setWorker i (.working k task)) := by
  obtain ⟨hkl, hkn, hks⟩ := ho.holding i k h
  have hother : ∀ l : Nat, l ≠ k → story l (ds ++ [⟨i, .start, k⟩]) = story l ds :=
    fun l hl => story_append_other (Ne.symm hl) ds
  have hself : story k (ds ++ [⟨i, .start, k⟩]) = startedBy i k := by
    rw [story_append_self (d := ⟨i, .start, k⟩), hks]
    rfl
  constructor
  · exact ho.no_fault
  · exact ho.size
  · intro l hl
    have hl : p.next ≤ l := hl
    rw [hother l (by omega)]
    exact ho.unfetched l hl
  · intro j l hj
    rcases of_setWorker h hj with ⟨-, hw⟩ | ⟨hji, hj⟩
    · cases hw
    · have hlk := ho.index_ne (.inl h) (.inl hj) hji
      rw [hother l hlk]
      exact ho.holding j l hj
  · intro j l rest hj
    rcases of_setWorker h hj with ⟨rfl, hw⟩ | ⟨hji, hj⟩
    · cases hw
      exact ⟨hkl, hkn, hself, a, ha, ht⟩
    · have hlk := ho.index_ne (.inl h) (.inr ⟨rest, hj⟩) hji
      rw [hother l hlk]
      exact ho.working j l rest hj
  · intro l hl hn
    by_cases hlk : l = k
    · subst hlk
      exact .inr (.inl ⟨i, task, setWorker_self h _⟩)
    · rcases ho.accounted l hl hn with ⟨j, hj⟩ | ⟨j, rest, hj⟩ | ⟨j, b, hs, hb⟩
      · exact .inl ⟨j, setWorker_kept h hj fun he => hlk (by injection he)⟩
      · exact .inr (.inl ⟨j, rest, setWorker_kept h hj nofun⟩)
      · exact .inr (.inr ⟨j, b, by rw [hother l hlk, hs], hb⟩)
  · intro j hj
    exact ho.left_of_setWorker h hj nofun

theorem work (ho : Orderly m tasks results ds p) {rest rest' : Probe α}
    (h : p.workers[i]? = some (.working k rest)) (hr : rest'.outcome m = rest.outcome m) :
    Orderly m tasks results ds (p.setWorker i (.working k rest')) := by
  obtain ⟨hkl, hkn, hks, a, ha, ht⟩ := ho.working i k rest h
  constructor
  · exact ho.no_fault
  · exact ho.size
  · exact ho.unfetched
  · intro j l hj
    rcases of_setWorker h hj with ⟨-, hw⟩ | ⟨-, hj⟩
    · cases hw
    · exact ho.holding j l hj
  · intro j l rest'' hj
    rcases of_setWorker h hj with ⟨rfl, hw⟩ | ⟨-, hj⟩
    · cases hw
      exact ⟨hkl, hkn, hks, a, ha, hr.trans ht⟩
    · exact ho.working j l rest'' hj
  · intro l hl hn
    rcases ho.accounted l hl hn with ⟨j, hj⟩ | ⟨j, rest'', hj⟩ | hs
    · exact .inl ⟨j, setWorker_kept h hj nofun⟩
    · by_cases hji : j = i
      · subst hji
        obtain ⟨rfl, -⟩ : k = l ∧ _ := Worker.working.inj (Option.some.inj (h.symm.trans hj))
        exact .inr (.inl ⟨j, rest', setWorker_self h _⟩)
      · exact .inr (.inl ⟨j, rest'', by rw [setWorker_ne hji, hj]⟩)
    · exact .inr (.inr hs)
  · intro j hj
    exact ho.left_of_setWorker h hj nofun

theorem store (ho : Orderly m tasks results ds p) {a : α}
    (h : p.workers[i]? = some (.working k (.done a))) :
    Orderly m tasks results (ds ++ [⟨i, .store, k⟩]) ((p.store k a).setWorker i .fetching) := by
  obtain ⟨hkl, hkn, hks, b, hb, hab⟩ := ho.working i k _ h
  cases hab
  have hi : (p.store k a).workers[i]? = some (.working k (.done a)) := h
  have hother : ∀ l : Nat, l ≠ k → story l (ds ++ [⟨i, .store, k⟩]) = story l ds :=
    fun l hl => story_append_other (Ne.symm hl) ds
  constructor
  · exact ho.no_fault
  · exact List.length_set.trans ho.size
  · intro l hl
    have hl : p.next ≤ l := hl
    rw [hother l (by omega)]
    exact ho.unfetched l hl
  · intro j l hj
    rcases of_setWorker hi hj with ⟨-, hw⟩ | ⟨hji, hj⟩
    · cases hw
    · have hlk := ho.index_ne (.inr ⟨_, h⟩) (.inl hj) hji
      rw [hother l hlk]
      exact ho.holding j l hj
  · intro j l rest hj
    rcases of_setWorker hi hj with ⟨-, hw⟩ | ⟨hji, hj⟩
    · cases hw
    · have hlk := ho.index_ne (.inr ⟨_, h⟩) (.inr ⟨rest, hj⟩) hji
      rw [hother l hlk]
      exact ho.working j l rest hj
  · intro l hl hn
    by_cases hlk : l = k
    · subst hlk
      refine .inr (.inr ⟨i, a, ?_, hb, ?_⟩)
      · rw [story_append_self (d := ⟨i, .store, l⟩), hks]
        rfl
      · exact List.getElem?_set_self (by rw [ho.size]; exact hl)
    · rcases ho.accounted l hl hn with ⟨j, hj⟩ | ⟨j, rest, hj⟩ | ⟨j, c, hs, hc, hsl⟩
      · exact .inl ⟨j, setWorker_kept hi hj nofun⟩
      · exact .inr (.inl ⟨j, rest, setWorker_kept hi hj fun he => hlk (by injection he)⟩)
      · refine .inr (.inr ⟨j, c, by rw [hother l hlk, hs], hc, ?_⟩)
        exact (List.getElem?_set_ne (Ne.symm hlk)).trans hsl
  · intro j hj
    exact ho.left_of_setWorker h hj nofun

theorem step (hok : tasks.map (Probe.outcome m) = results.map .ok)
    (ho : Orderly m tasks results ds p) (hs : Stepped m tasks p i q) :
    Orderly m tasks results (ds ++ (deed? p q i).toList) q := by
  cases hs with
  | idle h =>
    have hd : deed? p p i = none := by
      rcases h with h | h <;> simp [deed?, h]
    rw [hd, Option.toList_none, List.append_nil]
    exact ho
  | fetch h hn =>
    have hi : ({ p with next := p.next + 1 } : Pool α).workers[i]? = some .fetching := h
    simp only [deed?, h, setWorker_self hi]
    exact ho.fetch h hn
  | leave h hn =>
    have hi : ({ p with next := p.next + 1 } : Pool α).workers[i]? = some .fetching := h
    simp only [deed?, h, setWorker_self hi, Option.toList_none, List.append_nil]
    exact ho.leave h hn
  | quit h hq =>
    obtain ⟨hl, -⟩ := ho.holding i _ h
    rcases hq with hq | hq
    · rw [List.getElem?_eq_none_iff] at hq
      omega
    · rw [ho.no_fault] at hq
      cases hq
  | @start k task h ht =>
    have ha := congrArg (fun l : List (Except Fault α) => l[k]?) hok
    simp only [List.getElem?_map, ht, Option.map_some] at ha
    obtain ⟨a, ha, hr⟩ := Option.map_eq_some_iff.mp ha.symm
    simp only [deed?, h, setWorker_self h]
    exact ho.start h ha hr.symm
  | @store k a h =>
    have hi : (p.store k a).workers[i]? = some (.working k (.done a)) := h
    simp only [deed?, h, setWorker_self hi]
    exact ho.store h
  | fail h =>
    obtain ⟨-, -, -, a, -, ha⟩ := ho.working i _ _ h
    cases ha
  | work h hr =>
    simp only [deed?, h, setWorker_self h, Option.toList_none, List.append_nil]
    exact ho.work h hr

theorem steps {es : List Deed} {schedule : Schedule}
    (hok : tasks.map (Probe.outcome m) = results.map .ok)
    (ho : Orderly m tasks results ds p) (hs : Steps m tasks p schedule es q) :
    Orderly m tasks results (ds ++ es) q := by
  induction hs generalizing ds with
  | nil p => rwa [List.append_nil]
  | @cons p q r i rest deeds h _ ih =>
    obtain ⟨q', h', hq⟩ := step_stepped m tasks p i
    cases h'.symm.trans h
    rw [← List.append_assoc]
    exact ih (ho.step hok hq)

/-- At any moment the deeds on an index are those of one worker, in their order. -/
theorem story_prefix (ho : Orderly m tasks results ds p) (hk : k < tasks.length) :
    ∃ i, List.IsPrefix (story k ds) (storedBy i k) := by
  by_cases hn : p.next ≤ k
  · rw [ho.unfetched k hn]
    exact ⟨0, List.nil_prefix⟩
  rcases ho.accounted k hk (by omega) with ⟨i, h⟩ | ⟨i, rest, h⟩ | ⟨i, a, hs, -⟩
  · rw [(ho.holding i k h).2.2]
    exact ⟨i, [⟨i, .start, k⟩, ⟨i, .store, k⟩], rfl⟩
  · rw [(ho.working i k rest h).2.2.1]
    exact ⟨i, [⟨i, .store, k⟩], rfl⟩
  · rw [hs]
    exact ⟨i, List.prefix_refl _⟩

theorem fetched_of_slot_ne (ho : Orderly m tasks results ds p) (hs : Stepped m tasks p i q)
    (hk : q.slots[k]? ≠ p.slots[k]?) : (⟨i, .fetch, k⟩ : Deed) ∈ ds := by
  cases hs with
  | @store l a h =>
    by_cases hl : l = k
    · subst hl
      have hm : (⟨i, .fetch, l⟩ : Deed) ∈ story l ds := by
        rw [(ho.working i l _ h).2.2.1]
        exact List.mem_cons_self
      exact (List.mem_filter.mp hm).1
    · exact absurd (List.getElem?_set_ne hl) hk
  | _ => exact absurd rfl hk

end Orderly

def Complete (p : Pool α) : Prop :=
  ∀ (i : Nat) (w : Worker α), p.workers[i]? = some w → w = .finished

theorem Stepped.length_workers (hs : Stepped m tasks p i q) :
    q.workers.length = p.workers.length := by
  cases hs with
  | idle => rfl
  | _ => exact List.length_set

theorem Steps.length_workers {ds : List Deed} {schedule : Schedule}
    (hs : Steps m tasks p schedule ds q) : q.workers.length = p.workers.length := by
  induction hs with
  | nil => rfl
  | @cons p q r i rest deeds h _ ih =>
    obtain ⟨q', h', hq⟩ := step_stepped m tasks p i
    cases h'.symm.trans h
    exact ih.trans hq.length_workers

namespace Orderly
variable {results : List α} {ds : List Deed} {k : Nat}

theorem settled_of_complete (ho : Orderly m tasks results ds p) (hc : p.Complete)
    (hw : 0 < p.workers.length) (hk : k < tasks.length) : Settled results ds p k := by
  have h0 : p.workers[0]? = some .finished := by
    rw [List.getElem?_eq_getElem hw]
    exact congrArg some (hc 0 _ (List.getElem?_eq_getElem hw))
  have hn := ho.left 0 h0
  rcases ho.accounted k hk (by omega) with ⟨i, h⟩ | ⟨i, rest, h⟩ | hs
  · cases hc i _ h
  · cases hc i _ h
  · exact hs

theorem slots_of_complete (hok : tasks.map (Probe.outcome m) = results.map .ok)
    (ho : Orderly m tasks results ds p) (hc : p.Complete)
    (hw : 0 < p.workers.length ∨ tasks = []) : p.slots = results.map some := by
  have hlen : tasks.length = results.length := by
    simpa using congrArg List.length hok
  apply List.ext_getElem?
  intro k
  by_cases hk : k < tasks.length
  · have hw : 0 < p.workers.length := by
      rcases hw with hw | rfl
      · exact hw
      · simp at hk
    obtain ⟨i, a, -, ha, hs⟩ := ho.settled_of_complete hc hw hk
    rw [hs, List.getElem?_map, ha]
    rfl
  · rw [List.getElem?_eq_none (by rw [ho.size]; omega),
      List.getElem?_eq_none (by rw [List.length_map]; omega)]

end Orderly

end Pool
end StackPeek
