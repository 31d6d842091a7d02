import StackPeek.Proofs.Sampling.Interleaving

/-!
# A pool that is let finish

When the schedule of a pool is used up, its workers finish one after the other (`finishAll`).
That is one more interleaving: `Leads` says that some schedule goes from a pool to another, and
every part of finishing is matched by such a schedule, from one task (`leads_carryOut`) to all
workers (`finishAll_leads`). So whatever schedule a pool is given, it runs along a longer one
at whose end nobody has anything left to do, and returns the results in order (`run_results`).
-/

namespace StackPeek.Pool
variable {α : Type} {m : StillMemory} {tasks : List (Probe α)} {results : List α}
  {p q r : Pool α} {i k : Nat}

theorem Steps.append {s s' : Schedule} {ds es : List Deed} (h : Steps m tasks p s ds q)
    (h' : Steps m tasks q s' es r) : Steps m tasks p (s ++ s') (ds ++ es) r := by
  induction h with
  | nil p => exact h'
  | cons hs _ ih =>
    rw [List.append_assoc]
    exact .cons hs (ih h')

theorem follow_steps (m : StillMemory) (tasks : List (Probe α)) (schedule : Schedule)
    (p : Pool α) :
    ∃ ds q, Steps m tasks p schedule ds q ∧ (follow tasks schedule p).outcome m = .ok q := by
  induction schedule generalizing p with
  | nil => exact ⟨[], p, .nil p, rfl⟩
  | cons i rest ih =>
    obtain ⟨p', h', -⟩ := step_stepped m tasks p i
    obtain ⟨ds, q, hs, hq⟩ := ih p'
    exact ⟨_, q, .cons h' hs, (Probe.outcome_bind_ok h' _).trans hq⟩

/-- Some schedule leads from one pool to another. -/
def Leads (m : StillMemory) (tasks : List (Probe α)) (p q : Pool α) : Prop :=
  ∃ schedule ds, Steps m tasks p schedule ds q

theorem Leads.refl (p : Pool α) : Leads m tasks p p := ⟨[], [], .nil p⟩

theorem Leads.trans (h : Leads m tasks p q) (h' : Leads m tasks q r) : Leads m tasks p r := by
  obtain ⟨s, ds, h⟩ := h
  obtain ⟨s', es, h'⟩ := h'
  exact ⟨s ++ s', ds ++ es, h.append h'⟩

theorem Leads.of_step (h : (p.step tasks i).outcome m = .ok q) : Leads m tasks p q :=
  ⟨[i], _, .cons h (.nil q)⟩

theorem Leads.orderly {ds : List Deed} (hok : tasks.map (Probe.outcome m) = results.map .ok)
    (ho : Orderly m tasks results ds p) (h : Leads m tasks p q) :
    ∃ es, Orderly m tasks results es q := by
  obtain ⟨s, es, h⟩ := h
  exact ⟨ds ++ es, ho.steps hok h⟩

theorem leads_fetch (h : p.workers[i]? = some .fetching) (hn : p.next < tasks.length) :
    Leads m tasks p ({ p with next := p.next + 1 }.setWorker i (.holding p.next)) := by
  apply Leads.of_step (i := i)
  unfold step
  rw [h]
  simp only [if_pos hn]
  rfl

theorem leads_leave (h : p.workers[i]? = some .fetching) (hn : tasks.length ≤ p.next) :
    Leads m tasks p ({ p with next := p.next + 1 }.setWorker i .finished) := by
  apply Leads.of_step (i := i)
  unfold step
  rw [h]
  simp only [if_neg (Nat.not_lt.mpr hn)]
  rfl

theorem leads_start {task : Probe α} (h : p.workers[i]? = some (.holding k))
    (ht : tasks[k]? = some task) (hf : p.fault = none) :
    Leads m tasks p (p.setWorker i (.working k task)) := by
  apply Leads.of_step (i := i)
  unfold step
  rw [h]
  simp only [Probe.bind_eq, Probe.outcome_bind_ok Probe.outcome_cancelled, ht, hf]
  rfl

theorem leads_carryOut {rest : Probe α} {a : α} (h : p.workers[i]? = some (.working k rest))
    (ha : rest.outcome m = .ok a) :
    Leads m tasks p ((p.store k a).setWorker i .fetching) := by
  -- An effect changes nothing but what is left to do.
  have effect : ∀ {p : Pool α} {rest' : Probe α},
      (p.step tasks i).outcome m = .ok (p.setWorker i (.working k rest')) →
      Leads m tasks (p.setWorker i (.working k rest'))
        (((p.setWorker i (.working k rest')).store k a).setWorker i .fetching) →
      Leads m tasks p ((p.store k a).setWorker i .fetching) := by
    intro p rest' hs hl
    simp only [setWorker, store, List.set_set] at hl
    exact (Leads.of_step hs).trans hl
  induction rest generalizing p with
  | done b =>
    cases ha
    apply Leads.of_step (i := i)
    unfold step
    rw [h]
    rfl
  | fault f => cases ha
  | read b n c ih =>
    refine effect ?_ (ih (m b n) (setWorker_self h _) ha)
    unfold step
    rw [h]
    rfl
  | poll c ih =>
    refine effect ?_ (ih false (setWorker_self h _) ha)
    unfold step
    rw [h]
    rfl
  | log e c ih =>
    refine effect ?_ (ih (setWorker_self h _) ha)
    unfold step
    rw [h]
    rfl

theorem outcome_carryOut {task : Probe α} {a : α} (h : task.outcome m = .ok a) :
    (p.carryOut k task).outcome m = .ok (p.store k a, true) := by
  unfold carryOut
  rw [Probe.bind_eq, Probe.outcome_bind_ok (Probe.outcome_settle task), h]
  rfl

def withWorkers (p : Pool α) (ws : List (Worker α)) : Pool α := { p with workers := ws }

section Finish
variable {ws : List (Worker α)}

/-- Carrying out an unfetched task matches one turn of a worker: fetch, look, work, store. -/
theorem turn_leads {task : Probe α} {a : α} (ht : tasks[p.next]? = some task)
    (ha : task.outcome m = .ok a) (hf : p.fault = none) (hi : ws[i]? = some .fetching) :
    Leads m tasks (p.withWorkers ws)
      (({ p with next := p.next + 1 }.store p.next a).withWorkers (ws.set i .fetching)) := by
  have hset : ∀ w : Worker α, (ws.set i w)[i]? = some w := fun w =>
    List.getElem?_set_self (List.getElem?_eq_some_iff.mp hi).1
  have hn : p.next < tasks.length := (List.getElem?_eq_some_iff.mp ht).1
  have h₁ := leads_fetch (m := m) (p := p.withWorkers ws) hi hn
  have h₂ := leads_start (m := m) (p := { p with next := p.next + 1 }.withWorkers (ws.set i _))
    (hset (.holding p.next)) ht hf
  have h₃ : Leads m tasks _ _ := leads_carryOut
    (p := { p with next := p.next + 1 }.withWorkers (ws.set i _))
    (hset (.working p.next task)) ha
  simp only [setWorker, withWorkers, store, List.set_set] at h₁ h₂ h₃ ⊢
  exact (h₁.trans h₂).trans h₃

theorem takeRest_leads {rest : List (Probe α)} (hr : tasks.drop p.next = rest)
    (hok : ∀ task ∈ tasks, ∃ a, task.outcome m = .ok a) (hf : p.fault = none)
    (hi : ws[i]? = some .fetching) :
    ∃ q, (takeRest rest p).outcome m = .ok q ∧
      Leads m tasks (p.withWorkers ws) (q.withWorkers (ws.set i .finished)) := by
  induction rest generalizing p ws with
  | nil =>
    exact ⟨_, rfl, leads_leave (p := p.withWorkers ws) hi (List.drop_eq_nil_iff.mp hr)⟩
  | cons task rest ih =>
    have hn : p.next < tasks.length := by
      by_cases hn : p.next < tasks.length
      · exact hn
      · rw [List.drop_eq_nil_of_le (Nat.not_lt.mp hn)] at hr
        cases hr
    rw [List.drop_eq_getElem_cons hn] at hr
    injection hr with ht hr
    obtain ⟨a, ha⟩ := hok task (ht ▸ List.getElem_mem hn)
    have ht : tasks[p.next]? = some task := ht ▸ List.getElem?_eq_getElem hn
    have hset : (ws.set i .fetching)[i]? = some .fetching :=
      List.getElem?_set_self (List.getElem?_eq_some_iff.mp hi).1
    obtain ⟨q, hq, hl⟩ := ih (p := { p with next := p.next + 1 }.store p.next a) hr hf hset
    rw [List.set_set] at hl
    refine ⟨q, ?_, (turn_leads ht ha hf hi).trans hl⟩
    rw [← hq, takeRest, Probe.bind_eq, Probe.outcome_bind_ok Probe.outcome_cancelled, hf]
    simp only [Option.isSome_none, Bool.or_self, Bool.false_eq_true, if_false, Probe.bind_eq]
    rw [Probe.outcome_bind_ok (outcome_carryOut ha)]
    rfl

theorem carryOn_leads {task : Probe α} {a : α} (ha : task.outcome m = .ok a)
    (hok : ∀ task ∈ tasks, ∃ a, task.outcome m = .ok a) (hf : p.fault = none)
    (hi : ws[i]? = some (.working k task)) :
    ∃ q, ((p.carryOut k task).bind fun r =>
        if r.2 then takeRest (tasks.drop r.1.next) r.1 else .done r.1).outcome m = .ok q ∧
      Leads m tasks (p.withWorkers ws) (q.withWorkers (ws.set i .finished)) := by
  have hset : (ws.set i .fetching)[i]? = some .fetching :=
    List.getElem?_set_self (List.getElem?_eq_some_iff.mp hi).1
  obtain ⟨q, hq, hl⟩ := takeRest_leads (p := p.store k a) rfl hok hf hset
  rw [List.set_set] at hl
  refine ⟨q, ?_, (leads_carryOut (p := p.withWorkers ws) hi ha).trans hl⟩
  rw [Probe.outcome_bind_ok (outcome_carryOut ha)]
  exact hq

theorem finish_leads {w : Worker α} {ds : List Deed}
    (hok : tasks.map (Probe.outcome m) = results.map .ok)
    (ho : Orderly m tasks results ds (p.withWorkers ws)) (hi : ws[i]? = some w) :
    ∃ q, (finish tasks w p).outcome m = .ok q ∧
      Leads m tasks (p.withWorkers ws) (q.withWorkers (ws.set i .finished)) := by
  have hall : ∀ task ∈ tasks, ∃ a, task.outcome m = .ok a := by
    intro task ht
    have hm := List.mem_map_of_mem (f := Probe.outcome m) ht
    rw [hok] at hm
    obtain ⟨a, -, ha⟩ := List.mem_map.mp hm
    exact ⟨a, ha.symm⟩
  have hf : p.fault = none := ho.no_fault
  cases w with
  | finished =>
    obtain ⟨hl, hw⟩ := List.getElem?_eq_some_iff.mp hi
    refine ⟨p, rfl, ?_⟩
    rw [← hw, List.set_getElem_self]
    exact .refl _
  | fetching => exact takeRest_leads rfl hall hf hi
  | holding k =>
    obtain ⟨hk, -⟩ := ho.holding i k hi
    have ht := List.getElem?_eq_getElem hk
    obtain ⟨a, ha⟩ := hall _ (List.getElem_mem hk)
    have hset : (ws.set i (.working k tasks[k]))[i]? = some (.working k tasks[k]) :=
      List.getElem?_set_self (List.getElem?_eq_some_iff.mp hi).1
    obtain ⟨q, hq, hl⟩ := carryOn_leads ha hall hf hset
    rw [List.set_set] at hl
    refine ⟨q, ?_, (leads_start (p := p.withWorkers ws) hi ht hf).trans hl⟩
    rw [← hq, finish, Probe.bind_eq, Probe.outcome_bind_ok Probe.outcome_cancelled, hf, ht]
    rfl
  | working k rest =>
    obtain ⟨-, -, -, a, -, ha⟩ := ho.working i k rest hi
    exact carryOn_leads ha hall hf hi

theorem finishAll_leads {ds : List Deed} (done : Nat) (ws : List (Worker α))
    (hok : tasks.map (Probe.outcome m) = results.map .ok)
    (ho : Orderly m tasks results ds (p.withWorkers (List.replicate done .finished ++ ws))) :
    ∃ q, (finishAll tasks ws p).outcome m = .ok q ∧
      Leads m tasks (p.withWorkers (List.replicate done .finished ++ ws))
        (q.withWorkers (List.replicate (done + ws.length) .finished)) := by
  -- The induction is on the workers still to finish; those before them are finished.
  induction ws generalizing p done ds with
  | nil =>
    refine ⟨p, rfl, ?_⟩
    rw [List.append_nil]
    exact .refl _
  | cons w rest ih =>
    have hi : (List.replicate done .finished ++ w :: rest)[done]? = some w := by
      rw [List.getElem?_append_right (by simp)]
      simp
    obtain ⟨q₁, hq₁, hl₁⟩ := finish_leads hok ho hi
    have hset : (List.replicate done Worker.finished ++ w :: rest).set done Worker.finished =
        List.replicate (done + 1) Worker.finished ++ rest := by
      rw [List.set_append_right _ _ (by simp), List.replicate_succ', List.append_assoc]
      simp
    rw [hset] at hl₁
    obtain ⟨es, ho₁⟩ := hl₁.orderly hok ho
    obtain ⟨q, hq, hl⟩ := ih _ ho₁
    rw [List.length_cons, Nat.add_comm rest.length 1, ← Nat.add_assoc]
    refine ⟨q, ?_, hl₁.trans hl⟩
    rw [finishAll, Probe.bind_eq, Probe.outcome_bind_ok hq₁]
    exact hq

end Finish

/-- Whatever the schedule, a pool that is let run goes along a schedule at whose end nobody has
anything left to do, and gives the results in the order of the tasks. -/
theorem run_results {count : Nat} (hok : tasks.map (Probe.outcome m) = results.map .ok)
    (hc : 0 < count ∨ tasks = []) (schedule : Schedule) :
    ∃ rest ds p, Steps m tasks (start count tasks.length) (schedule ++ rest) ds p ∧
      p.Complete ∧ (run count schedule tasks).outcome m = .ok results := by
  obtain ⟨ds, p₁, hs, hp₁⟩ := follow_steps m tasks schedule
    (start count tasks.length)
  have ho₁ : Orderly m tasks results ds p₁ := by
    simpa using (Orderly.init count).steps hok hs
  obtain ⟨p, hp, rest, es, hl⟩ := finishAll_leads (p := p₁) 0 p₁.workers hok ho₁
  have hsteps := hs.append hl
  have hcomplete : (p.withWorkers (List.replicate (0 + p₁.workers.length) .finished)).Complete :=
    fun j w hw => (List.mem_replicate.mp (List.mem_of_getElem? hw)).2
  have ho := (Orderly.init count).steps hok hsteps
  have hworkers : 0 < (p.withWorkers (List.replicate (0 + p₁.workers.length)
      Worker.finished)).workers.length ∨ tasks = [] := by
    rw [hsteps.length_workers]
    simpa [start] using hc
  have hslots := ho.slots_of_complete hok hcomplete hworkers
  have hfault := ho.no_fault
  simp only [withWorkers] at hslots hfault
  refine ⟨rest, _, _, hsteps, hcomplete, ?_⟩
  unfold run
  rw [Probe.bind_eq, Probe.outcome_bind_ok hp₁, Probe.bind_eq, Probe.outcome_bind_ok hp, hfault]
  simp [hslots]

end StackPeek.Pool
