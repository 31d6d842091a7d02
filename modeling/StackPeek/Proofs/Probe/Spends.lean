import StackPeek.Proofs.Probe.Still

/-!
# What a probe asks for

`Probe.requests` lists what a run asks its target for. `Probe.Spends` bounds the number of
requests on all branches of a probe, with every request one that `Memory.Askable` allows, and
says whether the probe may look at the cancellation flag. What is left of the bound at the end
of a branch is known there, so that probes in a row can pay out of one purse (`Spends.seq`). A
bound for all branches is a bound for the runs of every target (`Spends.requests`). A probe that
does not look at the flag has, in memory that does not change, the one outcome
(`Spends.run_frozen`).

Faults end a probe, so they are NOT excluded here.
-/

namespace StackPeek
variable {α β σ : Type}

/-- A piece of memory that may be asked for: it is not at null, not empty and not too large. -/
structure Memory.Askable (a : Address) (n : UInt64) : Prop where
  nonnull : a ≠ 0
  pos : 1 ≤ n
  small : n ≤ Memory.maxRawRead

/-- The target has this memory, which does not change. -/
def Target.Frozen (t : Target σ) (m : StillMemory) : Prop := ∀ a n s, (t.read a n s).1 = m a n

theorem StillMemory.target_frozen (m : StillMemory) : m.target.Frozen m := fun _ _ _ => rfl

namespace Probe

def requests (t : Target σ) : Probe α → σ → List (Address × UInt64)
  | .done _, _ => []
  | .fault _, _ => []
  | .read a n k, s => let (r, s') := t.read a n s; (a, n) :: (k r).requests t s'
  | .poll k, s => (k (t.cancelled s)).requests t s
  | .log e k, s => k.requests t (t.hear e s)

/-- On every branch at most so many requests, all of them askable, and `P` holds of what is left
of the bound and of the value at the end of the branch. The flag is looked at only if `polls`
allows it. -/
inductive Spends (polls : Bool) (P : Nat → α → Prop) : Nat → Probe α → Prop where
  | done {n : Nat} {a : α} : P n a → Spends polls P n (.done a)
  | fault {n : Nat} {f : Fault} : Spends polls P n (.fault f)
  | read {n : Nat} {a : Address} {length : UInt64} {k : Reply → Probe α} :
      Memory.Askable a length → (∀ r, Spends polls P n (k r)) →
      Spends polls P (n + 1) (.read a length k)
  | poll {n : Nat} {k : Bool → Probe α} : polls = true → (∀ b, Spends polls P n (k b)) →
      Spends polls P n (.poll k)
  | log {n : Nat} {e : Log.Entry} {k : Probe α} : Spends polls P n k →
      Spends polls P n (.log e k)

namespace Spends
variable {polls : Bool} {p : Probe α} {f : α → Probe β} {n k : Nat}

section
variable {P : Nat → α → Prop} {Q : Nat → β → Prop}

theorem seq (h : p.Spends polls P n) (hf : ∀ left a, P left a → (f a).Spends polls Q left) :
    (p.bind f).Spends polls Q n := by
  induction h with
  | done ha => exact hf _ _ ha
  | fault => exact .fault
  | read ha _ ih => exact .read ha ih
  | poll hp _ ih => exact .poll hp ih
  | log _ ih => exact .log ih

theorem weaken {P' : Nat → α → Prop} (h : p.Spends polls P n)
    (hp : ∀ left a, P left a → P' left a) : p.Spends polls P' n := by
  induction h with
  | done ha => exact .done (hp _ _ ha)
  | fault => exact .fault
  | read ha _ ih => exact .read ha ih
  | poll hb _ ih => exact .poll hb ih
  | log _ ih => exact .log ih

end

section
variable {P : Nat → α → Prop}

theorem frame (h : p.Spends polls P n) (k : Nat) :
    p.Spends polls (fun left a => ∃ l, left = l + k ∧ P l a) (n + k) := by
  induction h with
  | done ha => exact .done ⟨_, rfl, ha⟩
  | fault => exact .fault
  | read ha _ ih =>
    rw [Nat.add_right_comm]
    exact .read ha ih
  | poll hp _ ih => exact .poll hp ih
  | log _ ih => exact .log ih

end

section
variable {P : α → Prop} {Q : β → Prop}

theorem mono (h : p.Spends polls (fun _ => P) n) (hn : n ≤ k) :
    p.Spends polls (fun _ => P) k := by
  obtain ⟨j, rfl⟩ := Nat.exists_eq_add_of_le hn
  exact (h.frame j).weaken fun _ _ ⟨_, _, ha⟩ => ha

theorem bind (h : p.Spends polls (fun _ => P) n)
    (hf : ∀ a, P a → (f a).Spends polls (fun _ => Q) k) :
    (p.bind f).Spends polls (fun _ => Q) (n + k) := by
  refine (h.frame k).seq ?_
  rintro _ a ⟨l, rfl, ha⟩
  exact (hf a ha).mono (Nat.le_add_left k l)

theorem bind_free {R : Nat → β → Prop} (h : p.Spends polls (fun _ => P) 0)
    (hf : ∀ a, P a → (f a).Spends polls R k) : (p.bind f).Spends polls R k := by
  generalize hn : 0 = n at h
  induction h with
  | done ha => exact hf _ ha
  | fault => exact .fault
  | read => cases hn
  | poll hp _ ih => exact .poll hp fun b => ih b hn
  | log _ ih => exact .log (ih hn)

end

variable {P : Nat → α → Prop}

theorem requests (h : p.Spends polls P n) (t : Target σ) (s : σ) :
    (p.requests t s).length ≤ n ∧ ∀ q ∈ p.requests t s, Memory.Askable q.1 q.2 := by
  induction h generalizing s with
  | done _ => exact ⟨Nat.zero_le _, nofun⟩
  | fault => exact ⟨Nat.zero_le _, nofun⟩
  | @read _ a length _ ha _ ih =>
    obtain ⟨hlen, hall⟩ := ih (t.read a length s).1 (t.read a length s).2
    refine ⟨Nat.succ_le_succ hlen, ?_⟩
    intro q hq
    rcases List.mem_cons.mp hq with rfl | hq
    · exact ha
    · exact hall q hq
  | poll _ _ ih => exact ih _ _
  | log _ ih => exact ih _

/-- Without a look at the flag, memory that does not change decides how a run ends. -/
theorem run_frozen {m : StillMemory} {t : Target σ} (h : p.Spends false P n) (ht : t.Frozen m)
    (s : σ) : (p.run t s).1 = p.outcome m := by
  induction h generalizing s with
  | done _ => rfl
  | fault => rfl
  | read _ _ ih =>
    simp only [run, outcome, ht _ _ s]
    exact ih _ _
  | poll hp => cases hp
  | log _ ih => exact ih _

end Spends

theorem spends_report {polls : Bool} (level : Log.Level) (text : String) :
    (report level text).Spends polls (fun _ _ => True) 0 := .log (.done trivial)

theorem spends_cancelled : cancelled.Spends true (fun _ _ => True) 0 :=
  .poll rfl fun _ => .done trivial

end Probe

namespace Attempt

def Costs (polls : Bool) (n : Nat) (x : Attempt α) : Prop := x.run.Spends polls (fun _ _ => True) n

variable {polls : Bool} {x : Attempt α} {f : α → Attempt β} {n k : Nat}

theorem Costs.mono (h : x.Costs polls n) (hn : n ≤ k) : x.Costs polls k := Probe.Spends.mono h hn

theorem Costs.bind (h : x.Costs polls n) (hf : ∀ a, (f a).Costs polls k) :
    (x >>= f).Costs polls (n + k) := by
  unfold Costs
  rw [run_bind]
  refine Probe.Spends.bind h fun r _ => ?_
  cases r with
  | error e => exact .done trivial
  | ok a => exact hf a

theorem Costs.bind_free (h : x.Costs polls 0) (hf : ∀ a, (f a).Costs polls k) :
    (x >>= f).Costs polls k := (h.bind hf).mono (Nat.le_of_eq (Nat.zero_add k))

theorem costs_pure (a : α) : (pure a : Attempt α).Costs polls n := .done trivial

theorem costs_throw (e : ReadError) : (throw e : Attempt α).Costs polls n := .done trivial

theorem costs_ofExcept (r : Except ReadError α) : (liftM r : Attempt α).Costs polls n := by
  unfold Costs
  rw [run_ofExcept]
  exact .done trivial

theorem costs_lift {p : Probe α} {P : α → Prop} (h : p.Spends polls (fun _ => P) n) :
    (liftM p : Attempt α).Costs polls n := by
  unfold Costs
  rw [run_lift]
  exact Probe.Spends.bind (k := 0) h fun _ _ => .done trivial

end Attempt
end StackPeek
