import StackPeek.Proofs.Probe.Spends
import StackPeek.Sampling.Pool

/-!
# Workers that pay out of one purse

If every task of a pool asks at most `c` times, the pool asks at most `c` times for each task,
whichever worker makes each step (`Pool.spends_run`). The potential of a pool is what its workers
may still ask, and `c` for every task that nobody has fetched. A step never raises it above what
is left of the bound.
-/

namespace StackPeek
variable {α : Type} {c n : Nat}

namespace Probe.Spends
variable {P : Nat → α → Prop} {p : Probe α} {polls : Bool}

theorem settle (h : p.Spends polls P n) : p.settle.Spends polls (fun _ _ => True) n := by
  induction h with
  | done _ => exact .done trivial
  | fault => exact .done trivial
  | read ha _ ih => exact .read ha ih
  | poll hp _ ih => exact .poll hp ih
  | log _ ih => exact .log ih

theorem advance (h : p.Spends polls P n) :
    p.advance.Spends polls (fun left rest => rest.Spends polls P left) n := by
  cases h with
  | done ha => exact .done (.done ha)
  | fault => exact .done .fault
  | read ha hk => exact .read ha fun r => .done (hk r)
  | poll hp hk => exact .poll hp fun b => .done (hk b)
  | log hk => exact .log (.done hk)

end Probe.Spends

/-- The worker may still ask `b` times for the task it has. -/
def Worker.Owes (c : Nat) : Worker α → Nat → Prop
  | .holding _, b => c ≤ b
  | .working _ rest, b => rest.Spends true (fun _ _ => True) b
  | _, _ => True

/-- The workers together may still ask so many times. -/
inductive Worker.Owe (c : Nat) : List (Worker α) → Nat → Prop where
  | nil : Owe c [] 0
  | cons {worker : Worker α} {rest : List (Worker α)} {b n : Nat} : worker.Owes c b →
      Owe c rest n → Owe c (worker :: rest) (b + n)

theorem Worker.Owe.set {workers : List (Worker α)} (h : Owe c workers n) {i : Nat}
    {worker : Worker α} (hw : workers[i]? = some worker) :
    ∃ b k, worker.Owes c b ∧ n = b + k ∧
      ∀ other b', other.Owes c b' → Owe c (workers.set i other) (b' + k) := by
  induction h generalizing i with
  | nil => cases hw
  | @cons first rest b n hb hrest ih =>
    cases i with
    | zero =>
      cases hw
      exact ⟨b, n, hb, rfl, fun other b' ho => .cons ho hrest⟩
    | succ i =>
      obtain ⟨b₁, k, hb₁, rfl, hset⟩ := ih hw
      refine ⟨b₁, b + k, hb₁, by omega, fun other b' ho => ?_⟩
      rw [Nat.add_left_comm]
      exact .cons hb (hset other b' ho)

namespace Pool
variable {tasks : List (Probe α)} {p : Pool α}

/-- With this many requests left, the workers can finish their tasks and all others. -/
def Affords (c : Nat) (tasks : List (Probe α)) (n : Nat) (p : Pool α) : Prop :=
  ∃ owed, Worker.Owe c p.workers owed ∧ owed + c * (tasks.length - p.next) ≤ n

theorem affords_start (c count : Nat) (tasks : List (Probe α)) :
    (start count tasks.length).Affords c tasks (c * tasks.length) := by
  have howe : Worker.Owe c (List.replicate count (.fetching : Worker α)) 0 := by
    induction count with
    | zero => exact .nil
    | succ count ih =>
      have hfirst : (Worker.fetching : Worker α).Owes c 0 := trivial
      exact .cons hfirst ih
  exact ⟨0, howe, Nat.le_of_eq (Nat.zero_add _)⟩

theorem mul_size_succ (c : Nat) {size next : Nat} (h : next < size) :
    c * (size - next) = c + c * (size - (next + 1)) := by
  have hs : size - next = size - (next + 1) + 1 := by omega
  rw [hs, Nat.mul_succ, Nat.add_comm]

theorem mul_size_le (c size next : Nat) : c * (size - (next + 1)) ≤ c * (size - next) :=
  Nat.mul_le_mul_left c (by omega)

section
variable (ht : ∀ task ∈ tasks, task.Spends true (fun _ _ => True) c)

section
include ht

theorem spends_step (h : p.Affords c tasks n) (i : Nat) :
    (p.step tasks i).Spends true (fun left q => q.Affords c tasks left) n := by
  have hsame := h
  obtain ⟨owed, howe, hle⟩ := h
  unfold step
  cases hw : p.workers[i]? with
  | none => exact .done hsame
  | some worker =>
    obtain ⟨b, k, hb, rfl, hset⟩ := howe.set hw
    cases worker with
    | finished => exact .done hsame
    | fetching =>
      refine .done ?_
      split
      · rename_i hlt
        have hone := mul_size_succ c hlt
        exact ⟨c + k, hset _ c (Nat.le_refl c), by change _ + c * (_ - (p.next + 1)) ≤ n; omega⟩
      · have hone := mul_size_le c tasks.length p.next
        exact ⟨0 + k, hset _ 0 trivial, by change _ + c * (_ - (p.next + 1)) ≤ n; omega⟩
    | holding index =>
      refine Probe.spends_cancelled.bind_free fun flag _ => ?_
      have hdrop : (p.setWorker i .finished).Affords c tasks n :=
        ⟨0 + k, hset _ 0 trivial, by change _ + c * (_ - p.next) ≤ n; omega⟩
      cases hk : tasks[index]? with
      | none => exact .done hdrop
      | some task =>
        simp only
        split
        · exact .done hdrop
        · refine .done ⟨c + k, hset _ c (ht task (List.mem_of_getElem? hk)), ?_⟩
          have hc : c ≤ b := hb
          change _ + c * (_ - p.next) ≤ n
          omega
    | working index rest =>
      -- What the worker owes pays for the effect that is played, and the rest owes what is left.
      have hgo : (rest.advance.bind fun rest => .done (p.setWorker i (.working index rest))).Spends
          true (fun left q => q.Affords c tasks left) n := by
        obtain ⟨j, rfl⟩ := Nat.exists_eq_add_of_le (show b ≤ n by omega)
        refine ((Probe.Spends.advance hb).frame j).seq ?_
        rintro _ rest' ⟨l, rfl, hl⟩
        exact .done ⟨l + k, hset _ l hl, by change _ + c * (_ - p.next) ≤ l + j; omega⟩
      cases rest with
      | done a => exact .done ⟨0 + k, hset _ 0 trivial, by change _ + c * (_ - p.next) ≤ n; omega⟩
      | fault f => exact .done ⟨0 + k, hset _ 0 trivial, by change _ + c * (_ - p.next) ≤ n; omega⟩
      | read => exact hgo
      | poll => exact hgo
      | log => exact hgo

theorem spends_follow (h : p.Affords c tasks n) (schedule : Schedule) :
    (follow tasks schedule p).Spends true (fun left q => q.Affords c tasks left) n := by
  induction schedule generalizing p n with
  | nil => exact .done h
  | cons i rest ih => exact (spends_step ht h i).seq fun left q hq => ih hq

end

theorem spends_carryOut {task : Probe α} (h : task.Spends true (fun _ _ => True) n) (p : Pool α)
    (index : Nat) :
    (p.carryOut index task).Spends true (fun _ r => r.1.next = p.next) n := by
  refine h.settle.bind (k := 0) fun r _ => ?_
  cases r <;> exact .done rfl

/-- Who takes up the tasks that nobody has fetched leaves `k` requests, and `c` for each task that
is still not fetched. -/
theorem spends_takeRest {rest : List (Probe α)} {size k : Nat}
    (ht : ∀ task ∈ rest, task.Spends true (fun _ _ => True) c)
    (hsize : size - p.next = rest.length) (hle : k + c * rest.length ≤ n) :
    (takeRest rest p).Spends true (fun left q => k + c * (size - q.next) ≤ left) n := by
  induction rest generalizing p n with
  | nil =>
    refine .done ?_
    have hone := mul_size_le c size p.next
    change k + c * (size - (p.next + 1)) ≤ n
    rw [hsize] at hone
    omega
  | cons task rest ih =>
    rw [List.length_cons] at hsize hle
    rw [Nat.mul_succ] at hle
    have hnext : size - (p.next + 1) = rest.length := by omega
    have hleft : k + c * (size - (p.next + 1)) ≤ n := by
      rw [hnext]
      omega
    unfold takeRest
    refine Probe.spends_cancelled.bind_free fun flag _ => ?_
    split
    · exact .done hleft
    obtain ⟨j, rfl⟩ := Nat.exists_eq_add_of_le (show c ≤ n by omega)
    refine ((spends_carryOut (ht task List.mem_cons_self) _ _).frame j).seq ?_
    rintro _ ⟨q, goOn⟩ ⟨l, rfl, hq⟩
    have hq : q.next = p.next + 1 := hq
    simp only
    split
    · exact ih (fun t hm => ht t (List.mem_cons_of_mem _ hm)) (by rw [hq]; exact hnext) (by omega)
    · refine .done ?_
      rw [hq, hnext]
      omega

include ht

theorem spends_finish {worker : Worker α} {b k : Nat} (hw : worker.Owes c b)
    (hle : b + (k + c * (tasks.length - p.next)) ≤ n) :
    (finish tasks worker p).Spends true
      (fun left q => k + c * (tasks.length - q.next) ≤ left) n := by
  have hrest : ∀ {left : Nat} {q : Pool α}, k + c * (tasks.length - q.next) ≤ left →
      (takeRest (tasks.drop q.next) q).Spends true
        (fun left q => k + c * (tasks.length - q.next) ≤ left) left := by
    intro left q hq
    refine spends_takeRest (fun task hm => ht task (List.mem_of_mem_drop hm)) ?_ ?_
    all_goals rw [List.length_drop]
    exact hq
  have hgo : ∀ index task, task.Spends true (fun _ _ => True) b →
      ((p.carryOut index task).bind fun r =>
        if r.2 then takeRest (tasks.drop r.1.next) r.1 else .done r.1).Spends true
          (fun left q => k + c * (tasks.length - q.next) ≤ left) n := by
    intro index task htask
    obtain ⟨j, rfl⟩ := Nat.exists_eq_add_of_le (show b ≤ n by omega)
    refine ((spends_carryOut htask _ _).frame j).seq ?_
    rintro _ ⟨q, goOn⟩ ⟨l, rfl, hq⟩
    have hq : q.next = p.next := hq
    have hleft : k + c * (tasks.length - q.next) ≤ l + j := by
      rw [hq]
      omega
    simp only
    split
    · exact hrest hleft
    · exact .done hleft
  have hstop : k + c * (tasks.length - p.next) ≤ n := by omega
  unfold finish
  cases worker with
  | finished => exact .done hstop
  | fetching => exact hrest hstop
  | holding index =>
    refine Probe.spends_cancelled.bind_free fun flag _ => ?_
    split
    · exact .done hstop
    cases hk : tasks[index]? with
    | none => exact .done hstop
    | some task => exact hgo index task ((ht task (List.mem_of_getElem? hk)).mono hw)
  | working index rest => exact hgo index rest hw

theorem spends_finishAll {workers : List (Worker α)} {owed : Nat} (hw : Worker.Owe c workers owed)
    (hle : owed + c * (tasks.length - p.next) ≤ n) :
    (finishAll tasks workers p).Spends true (fun _ _ => True) n := by
  induction hw generalizing p n with
  | nil => exact .done trivial
  | cons hb _ ih =>
    rw [Nat.add_assoc] at hle
    exact (spends_finish ht hb hle).seq fun left q hq => ih hq

theorem spends_run (count : Nat) (schedule : Schedule) :
    (run count schedule tasks).Spends true (fun _ _ => True) (c * tasks.length) := by
  refine (spends_follow ht (affords_start c count tasks) schedule).seq ?_
  rintro left p ⟨owed, howe, hle⟩
  refine (spends_finishAll ht howe hle).seq fun _ q _ => ?_
  cases q.fault with
  | none => exact .done trivial
  | some f => exact .fault

end
end Pool
end StackPeek
