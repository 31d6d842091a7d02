import StackPeek.Proofs.Probe.Ensures
import StackPeek.Proofs.Probe.Spends

/-!
# What the answers of a target decide

`Probe.replies` lists the answers that a run gets. Of a probe that does not look at the cancellation
flag, two runs with the same answers end alike (`Spends.run_eq`), and what they ask for next depends
on the answers before it only (`Spends.requests_take`). `Probe.Settles` says that a part of the
outcome is decided already by the first few answers, whatever the later ones are (`Settles.run`).

The two runs may be those of different targets, or of one target at different moments.
-/

namespace StackPeek
variable {α β σ τ : Type}

namespace Probe

def replies (t : Target σ) : Probe α → σ → List Reply
  | .done _, _ => []
  | .fault _, _ => []
  | .read a n k, s => let (r, s') := t.read a n s; r :: (k r).replies t s'
  | .poll k, s => (k (t.cancelled s)).replies t s
  | .log e k, s => k.replies t (t.hear e s)

/-- After the first `n` answers, `g` of the outcome is the same on all branches. The flag is not
looked at before. -/
inductive Settles (g : α → β) : Nat → Probe α → Prop where
  | now {n : Nat} {p : Probe α} {r : Except Fault β} :
      (∀ {σ : Type} (t : Target σ) (s : σ), (p.run t s).1.map g = r) → Settles g n p
  | read {n : Nat} {a : Address} {length : UInt64} {k : Reply → Probe α} :
      (∀ r, Settles g n (k r)) → Settles g (n + 1) (.read a length k)
  | log {n : Nat} {e : Log.Entry} {k : Probe α} : Settles g n k → Settles g n (.log e k)

variable {p : Probe α} {f : α → Probe β} {n : Nat} {t : Target σ} {s : σ} {u : Target τ} {v : τ}

namespace Spends
variable {P : Nat → α → Prop}

theorem run_eq (h : p.Spends false P n) (hr : p.replies t s = p.replies u v) :
    (p.run t s).1 = (p.run u v).1 := by
  induction h generalizing s v with
  | done _ => rfl
  | fault => rfl
  | read _ _ ih =>
    simp only [replies] at hr
    obtain ⟨hhead, htail⟩ := List.cons.inj hr
    simp only [run]
    rw [hhead] at htail ⊢
    exact ih _ htail
  | poll hp => cases hp
  | log _ ih => exact ih hr

/-- The first `k` answers decide the first `k + 1` requests. -/
theorem requests_take (h : p.Spends false P n) {k : Nat}
    (hr : (p.replies t s).take k = (p.replies u v).take k) :
    (p.requests t s).take (k + 1) = (p.requests u v).take (k + 1) := by
  induction h generalizing s v k with
  | done _ => rfl
  | fault => rfl
  | read _ _ ih =>
    simp only [Probe.requests, List.take_succ_cons]
    cases k with
    | zero => rfl
    | succ k =>
      simp only [replies, List.take_succ_cons] at hr
      obtain ⟨hhead, htail⟩ := List.cons.inj hr
      rw [hhead] at htail ⊢
      exact congrArg _ (ih _ htail)
  | poll hp => cases hp
  | log _ ih => exact ih hr

/-- What a bound on the requests leaves undecided is decided by so many answers. -/
theorem requests_eq {k : Nat} (h : p.Spends false P (k + 1))
    (hr : (p.replies t s).take k = (p.replies u v).take k) :
    p.requests t s = p.requests u v := by
  have htake := h.requests_take hr
  rwa [List.take_of_length_le (h.requests t s).1, List.take_of_length_le (h.requests u v).1]
    at htake

end Spends

namespace Settles
variable {g : α → β}

theorem run (h : p.Settles g n)
    (hr : (p.replies t s).take n = (p.replies u v).take n) :
    (p.run t s).1.map g = (p.run u v).1.map g := by
  induction h generalizing s v with
  | now h => rw [h t s, h u v]
  | read _ ih =>
    simp only [replies, List.take_succ_cons] at hr
    obtain ⟨hhead, htail⟩ := List.cons.inj hr
    simp only [Probe.run]
    rw [hhead] at htail ⊢
    exact ih _ htail
  | log _ ih => exact ih hr

theorem of_ensures {b : β} (h : p.Ensures fun a => g a = b) : p.Settles g n := by
  refine .now (r := .ok b) fun t s => ?_
  obtain ⟨a, ha, hb⟩ := h.run t s
  rw [ha]
  exact congrArg Except.ok hb

theorem of_bind {γ : Type} {g : β → γ} {P : Nat → α → Prop} (h : p.Spends false P n)
    (hf : ∀ left a, (f a).Settles g left) : (p.bind f).Settles g n := by
  induction h with
  | done _ => exact hf _ _
  | fault => exact .now fun _ _ => rfl
  | read _ _ ih => exact .read ih
  | poll hp => cases hp
  | log _ ih => exact .log ih

end Settles

/-- The probe asks at most once, for the same piece of memory in every target, and nothing but the
answer decides how it ends. -/
structure Untorn (p : Probe α) : Prop where
  once : ∀ {σ : Type} (t : Target σ) (s : σ), (p.requests t s).length ≤ 1
  same : ∀ {σ τ : Type} (t : Target σ) (s : σ) (u : Target τ) (v : τ),
    p.requests t s = p.requests u v
  decided : ∀ {σ τ : Type} (t : Target σ) (s : σ) (u : Target τ) (v : τ),
    p.replies t s = p.replies u v → (p.run t s).1 = (p.run u v).1

/-- The probe asks at most twice. Its first request is the same in every target, the first answer
alone decides the second request and `g` of the outcome, and both answers decide how it ends. -/
structure FirstDecides (g : α → β) (p : Probe α) : Prop where
  twice : ∀ {σ : Type} (t : Target σ) (s : σ), (p.requests t s).length ≤ 2
  first : ∀ {σ τ : Type} (t : Target σ) (s : σ) (u : Target τ) (v : τ),
    (p.requests t s).head? = (p.requests u v).head?
  second : ∀ {σ τ : Type} (t : Target σ) (s : σ) (u : Target τ) (v : τ),
    (p.replies t s).head? = (p.replies u v).head? → p.requests t s = p.requests u v
  part : ∀ {σ τ : Type} (t : Target σ) (s : σ) (u : Target τ) (v : τ),
    (p.replies t s).head? = (p.replies u v).head? →
      (p.run t s).1.map g = (p.run u v).1.map g
  decided : ∀ {σ τ : Type} (t : Target σ) (s : σ) (u : Target τ) (v : τ),
    p.replies t s = p.replies u v → (p.run t s).1 = (p.run u v).1

theorem untorn_of_spends {P : Nat → α → Prop} (h : p.Spends false P 1) : p.Untorn where
  once t s := (h.requests t s).1
  same _ _ _ _ := h.requests_eq rfl
  decided _ _ _ _ := h.run_eq

theorem firstDecides_of_settles {P : Nat → α → Prop} {g : α → β} (h : p.Spends false P 2)
    (hg : p.Settles g 1) : p.FirstDecides g := by
  have htake : ∀ {σ τ : Type} (t : Target σ) (s : σ) (u : Target τ) (v : τ),
      (p.replies t s).head? = (p.replies u v).head? →
        (p.replies t s).take 1 = (p.replies u v).take 1 := by
    intro σ τ t s u v hr
    rw [List.take_one, List.take_one, hr]
  refine ⟨fun t s => (h.requests t s).1, ?_, ?_, ?_, fun t s u v => h.run_eq⟩
  · intro σ τ t s u v
    have hfirst : (p.requests t s).take 1 = (p.requests u v).take 1 := h.requests_take rfl
    have hhead := congrArg List.head? hfirst
    rwa [List.head?_take, List.head?_take] at hhead
  · intro σ τ t s u v hr
    exact h.requests_eq (htake t s u v hr)
  · intro σ τ t s u v hr
    exact hg.run (htake t s u v hr)

end Probe
end StackPeek
