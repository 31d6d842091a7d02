import StackPeek.Probe

/-!
# Targets for one caller at a time

Some targets cannot answer two reads at once. `Target.guarded` takes a lock before every read
and gives it back afterwards, so that several walkers can share the target. The lock is free
between any two steps of a probe, and the answers are those of the target itself
(`run_guarded`).
-/

namespace StackPeek

structure Guarded (σ : Type) where
  inner : σ
  locked : Bool

namespace Guarded
variable {σ : Type}

def free (s : σ) : Guarded σ := ⟨s, false⟩

def lock (g : Guarded σ) : Guarded σ := { g with locked := true }

def unlock (g : Guarded σ) : Guarded σ := { g with locked := false }

end Guarded

def Target.guarded {σ : Type} (t : Target σ) : Target (Guarded σ) where
  read a n g :=
    let held := g.lock
    let (r, s) := t.read a n held.inner
    (r, { held with inner := s }.unlock)
  cancelled g := t.cancelled g.inner
  hear e g := { g with inner := t.hear e g.inner }

/-- A probe cannot tell a guarded target from the target itself. -/
theorem Probe.run_guarded {σ α : Type} (t : Target σ) (p : Probe α) (s : σ) :
    p.run t.guarded (.free s) = ((p.run t s).1, .free (p.run t s).2) := by
  induction p generalizing s with
  | done a => rfl
  | fault f => rfl
  | read a n k ih => exact ih _ _
  | poll k ih => exact ih _ _
  | log e k ih => exact ih _

end StackPeek
