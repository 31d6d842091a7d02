import StackPeek.Proofs.Probe.Course

/-!
# A flag that is never taken back

Whoever cancels a session sets the flag once. In the events of such a session no look at the
flag finds it unset after one that found it set (`Latched`), so if the last look finds it
unset, all of them did (`Latched.calm`).
-/

namespace StackPeek
variable {σ α : Type} {es es₁ es₂ : List Event}

def Latched (es : List Event) : Prop :=
  es.Pairwise fun e e' => e = .poll true → e' ≠ .poll false

/-- No look at the flag has found it set. -/
def Calm (es : List Event) : Prop := .poll true ∉ es

theorem calm_append : Calm (es₁ ++ es₂) ↔ Calm es₁ ∧ Calm es₂ := by
  unfold Calm
  rw [List.mem_append, not_or]

theorem calm_poll {flag : Bool} : Calm (.poll flag :: es) ↔ flag = false ∧ Calm es := by
  unfold Calm
  rw [List.mem_cons, not_or]
  cases flag <;> simp

theorem Latched.calm (h : Latched (es ++ [.poll false])) : Calm es := by
  intro hm
  exact (List.pairwise_append.mp h).2.2 _ hm _ List.mem_cons_self rfl rfl

/-- Neither reads nor diagnostics unset the flag. -/
structure Target.Latching (t : Target σ) : Prop where
  read : ∀ a n s, t.cancelled s = true → t.cancelled (t.read a n s).2 = true
  hear : ∀ e s, t.cancelled s = true → t.cancelled (t.hear e s) = true

theorem Probe.latched_course_of_run {t : Target σ} (ht : t.Latching) (p : Probe α) (s : σ) :
    ∃ es, p.Course es (p.run t s).1 ∧ Latched es ∧ (t.cancelled s = true → .poll false ∉ es) := by
  induction p generalizing s with
  | done a => exact ⟨[], .done a, .nil, fun _ => List.not_mem_nil⟩
  | fault f => exact ⟨[], .fault f, .nil, fun _ => List.not_mem_nil⟩
  | read a n k ih =>
    obtain ⟨es, h, hl, hs⟩ := ih (t.read a n s).1 (t.read a n s).2
    refine ⟨_, .read _ h, .cons nofun hl, ?_⟩
    intro hc hm
    rcases List.mem_cons.mp hm with he | hm
    · cases he
    · exact hs (ht.read a n s hc) hm
  | poll k ih =>
    obtain ⟨es, h, hl, hs⟩ := ih (t.cancelled s) s
    refine ⟨_, .poll _ h, .cons ?_ hl, ?_⟩
    · rintro e hm hc rfl
      injection hc with hc
      exact hs hc hm
    · intro hc hm
      rcases List.mem_cons.mp hm with he | hm
      · rw [hc] at he
        cases he
      · exact hs hc hm
  | log e k ih =>
    obtain ⟨es, h, hl, hs⟩ := ih (t.hear e s)
    refine ⟨_, .log h, .cons nofun hl, ?_⟩
    intro hc hm
    rcases List.mem_cons.mp hm with he | hm
    · cases he
    · exact hs (ht.hear e s hc) hm

end StackPeek
