import StackPeek.Proofs.Probe.Course
import StackPeek.Sampling.Pool

/-!
# Probes of a target at rest

A target at rest answers the same request always the same way and is never cancelled. A probe
of it has one outcome, whatever the target's state, and the outcome of a probe in two parts is
that of the parts (`outcome_bind`). Nothing is assumed about the answers themselves.
-/

namespace StackPeek

/-- What every request for bytes gets in memory that does not change. -/
abbrev StillMemory := Address → UInt64 → Reply

/-- The target has this memory, which does not change, and nobody cancels. -/
structure Target.AtRest {σ : Type} (t : Target σ) (m : StillMemory) : Prop where
  read_eq : ∀ a n s, (t.read a n s).1 = m a n
  not_cancelled : ∀ s, t.cancelled s = false

def StillMemory.target (m : StillMemory) : Target Unit where
  read a n s := (m a n, s)
  cancelled _ := false
  hear _ s := s

theorem StillMemory.target_atRest (m : StillMemory) : m.target.AtRest m :=
  ⟨fun _ _ _ => rfl, fun _ => rfl⟩

/-- What requests for bytes get in a state, as long as it lasts. -/
def Target.memory {σ : Type} (t : Target σ) (s : σ) : StillMemory := fun a n => (t.read a n s).1

namespace Probe
variable {α β σ : Type} {m : StillMemory}

def outcome (m : StillMemory) : Probe α → Except Fault α
  | .done a => .ok a
  | .fault f => .error f
  | .read a n k => (k (m a n)).outcome m
  | .poll k => (k false).outcome m
  | .log _ k => k.outcome m

theorem run_atRest {t : Target σ} (h : t.AtRest m) (p : Probe α) (s : σ) :
    (p.run t s).1 = p.outcome m := by
  induction p generalizing s with
  | done a => rfl
  | fault f => rfl
  | read a n k ih =>
    simp only [run, outcome, h.read_eq]
    exact ih _ _
  | poll k ih =>
    simp only [run, outcome, h.not_cancelled]
    exact ih _ _
  | log e k ih => exact ih _

@[simp] theorem outcome_done (a : α) : (done a).outcome m = .ok a := rfl
@[simp] theorem outcome_cancelled : cancelled.outcome m = .ok false := rfl

theorem outcome_bind (p : Probe α) (f : α → Probe β) :
    (p.bind f).outcome m = (p.outcome m).bind fun a => (f a).outcome m := by
  induction p with
  | done a => rfl
  | fault x => rfl
  | read a n k ih => exact ih _
  | poll k ih => exact ih _
  | log e k ih => exact ih

theorem outcome_bind_ok {p : Probe α} {a : α} (h : p.outcome m = .ok a) (f : α → Probe β) :
    (p.bind f).outcome m = (f a).outcome m := by
  rw [outcome_bind, h]
  rfl

theorem outcome_of_bind {p : Probe α} {f : α → Probe β} {b : β}
    (h : (p.bind f).outcome m = .ok b) :
    ∃ a, p.outcome m = .ok a ∧ (f a).outcome m = .ok b := by
  rw [outcome_bind] at h
  cases hp : p.outcome m with
  | error x => rw [hp] at h; cases h
  | ok a => rw [hp] at h; exact ⟨a, rfl, h⟩

theorem outcome_settle (p : Probe α) : p.settle.outcome m = .ok (p.outcome m) := by
  induction p with
  | done a => rfl
  | fault f => rfl
  | read a n k ih => exact ih _
  | poll k ih => exact ih _
  | log e k ih => exact ih

end Probe

namespace Attempt
variable {α β : Type} {m : StillMemory}

def outcome (m : StillMemory) (x : Attempt α) : Except Fault (Except ReadError α) :=
  x.run.outcome m

theorem outcome_bind_ok {x : Attempt α} {a : α} (h : x.outcome m = .ok (.ok a))
    (f : α → Attempt β) : (x >>= f).outcome m = (f a).outcome m := by
  unfold outcome at *
  rw [run_bind, Probe.outcome_bind_ok h]

theorem outcome_bind_error {x : Attempt α} {e : ReadError} (h : x.outcome m = .ok (.error e))
    (f : α → Attempt β) : (x >>= f).outcome m = .ok (.error e) := by
  unfold outcome at *
  rw [run_bind, Probe.outcome_bind_ok h]
  rfl

theorem outcome_bind_fault {x : Attempt α} {fault : Fault} (h : x.outcome m = .error fault)
    (f : α → Attempt β) : (x >>= f).outcome m = .error fault := by
  unfold outcome at *
  rw [run_bind, Probe.outcome_bind, h]
  rfl

theorem outcome_of_bind {x : Attempt α} {f : α → Attempt β} {b : β}
    (h : (x >>= f).outcome m = .ok (.ok b)) :
    ∃ a, x.outcome m = .ok (.ok a) ∧ (f a).outcome m = .ok (.ok b) := by
  unfold outcome at *
  rw [run_bind] at h
  obtain ⟨r, hr, h⟩ := Probe.outcome_of_bind h
  cases r with
  | error e => cases h
  | ok a => exact ⟨a, hr, h⟩

theorem outcome_lift (p : Probe α) :
    (liftM p : Attempt α).outcome m = (p.outcome m).map .ok := by
  unfold outcome
  rw [run_lift, Probe.outcome_bind]
  cases p.outcome m <;> rfl

@[simp] theorem outcome_ofExcept (x : Except ReadError α) :
    (liftM x : Attempt α).outcome m = .ok x := by
  unfold outcome
  rw [run_ofExcept]
  rfl

theorem outcome_bind_ofExcept {x : Attempt α} {r : Except ReadError α}
    (h : x.outcome m = .ok r) (f : α → Except ReadError β) :
    (x >>= fun a => liftM (f a)).outcome m = .ok (r >>= f) := by
  cases r with
  | error e => exact outcome_bind_error h _
  | ok a => rw [outcome_bind_ok h, outcome_ofExcept]; rfl

theorem outcome_bind_pure (x : Attempt α) (g : α → β) :
    (x >>= fun a => pure (g a)).outcome m = (x.outcome m).map (.map g) := by
  unfold outcome
  rw [run_bind, Probe.outcome_bind]
  cases x.run.outcome m with
  | error f => rfl
  | ok r => cases r <;> rfl

theorem outcome_bind_map {γ : Type} {x : Attempt α} {f : α → Attempt β} {g : α → Attempt γ}
    {c : β → γ} (h : ∀ a, (g a).outcome m = ((f a).outcome m).map (.map c)) :
    (x >>= g).outcome m = ((x >>= f).outcome m).map (.map c) := by
  unfold outcome at *
  rw [run_bind, run_bind, Probe.outcome_bind, Probe.outcome_bind]
  cases x.run.outcome m with
  | error fault => rfl
  | ok r =>
    cases r with
    | error e => rfl
    | ok a => exact h a

theorem outcome_ok_bind (a : α) (f : α → Attempt β) :
    ((liftM (.ok a : Except ReadError α) : Attempt α) >>= f).outcome m = (f a).outcome m :=
  outcome_bind_ok (outcome_ofExcept _) f

theorem run_bind_pure {σ : Type} (t : Target σ) (s : σ) (x : Attempt α) (g : α → β) :
    ((x >>= fun a => pure (g a)).run.run t s).1 = (x.run.run t s).1.map (.map g) := by
  rw [run_bind, Probe.run_bind]
  rcases x.run.run t s with ⟨r, s'⟩
  cases r with
  | error f => rfl
  | ok r => cases r <;> rfl

end Attempt

namespace Memory
variable {m : StillMemory} {a : Address} {n : UInt64} {bytes copied : List UInt8}

theorem outcome_fetchAll_zero (h0 : a ≠ 0) : (fetchAll a 0).outcome m = .ok (.ok []) := by
  have hmax : ¬ maxRawRead < 0 := UInt64.not_lt.mpr UInt64.zero_le
  unfold fetchAll
  rw [if_neg hmax, if_neg h0, if_pos rfl]
  rfl

theorem outcome_fetchAll_reply (hmax : n ≤ maxRawRead) (h0 : a ≠ 0) (hn : n ≠ 0) :
    (fetchAll a n).outcome m = (accept a n (m a n)).outcome m := by
  have hf : (liftM (Probe.fetch a n) : Attempt Reply).outcome m = .ok (.ok (m a n)) := by
    rw [Attempt.outcome_lift]
    rfl
  unfold fetchAll
  rw [if_neg (UInt64.not_lt.mpr hmax), if_neg h0, if_neg hn, Attempt.outcome_bind_ok hf]

theorem outcome_fetchAll_copied (hmax : n ≤ maxRawRead) (h0 : a ≠ 0) (hn : n ≠ 0)
    (hr : m a n = .copied copied) (hlen : n.toNat ≤ copied.length) :
    (fetchAll a n).outcome m = .ok (.ok (copied.take n.toNat)) := by
  rw [outcome_fetchAll_reply hmax h0 hn, hr]
  simp only [accept, if_neg (Nat.not_lt.mpr hlen)]
  rfl

theorem reply_of_fetchAll (h : (fetchAll a n).outcome m = .ok (.ok bytes)) (hn : n ≠ 0) :
    n ≤ maxRawRead ∧ a ≠ 0 ∧
      ∃ copied, m a n = .copied copied ∧ n.toNat ≤ copied.length ∧ bytes = copied.take n.toNat := by
  have hread := h
  unfold fetchAll at hread
  split at hread
  · cases hread
  rename_i hmax
  split at hread
  · cases hread
  rename_i h0
  rw [outcome_fetchAll_reply (UInt64.not_lt.mp hmax) h0 hn] at h
  refine ⟨UInt64.not_lt.mp hmax, h0, ?_⟩
  cases hr : m a n with
  | failed errno =>
    rw [hr] at h
    simp only [accept] at h
    split at h <;> cases h
  | copied copied =>
    rw [hr] at h
    simp only [accept] at h
    split at h
    · cases h
    rename_i hlen
    cases h
    exact ⟨copied, rfl, Nat.not_lt.mp hlen, rfl⟩

end Memory

/-- Reading needs only what the target says at once, so it may change afterwards. -/
theorem Memory.run_fetchAll {σ : Type} (t : Target σ) (s : σ) (a : Address) (n : UInt64) :
    ((fetchAll a n).run.run t s).1 = (fetchAll a n).outcome (t.memory s) := by
  unfold fetchAll
  split
  · rfl
  split
  · rfl
  split
  · rfl
  change ((accept a n (t.read a n s).1).run.run t (t.read a n s).2).1 =
    (accept a n (t.read a n s).1).run.outcome (t.memory s)
  cases (t.read a n s).1 with
  | failed errno =>
    simp only [accept]
    split <;> rfl
  | copied bytes =>
    simp only [accept]
    split <;> rfl

end StackPeek
