import StackPeek.Memory.Attempt

/-!
# Courses of a probe

A course is one possible way for a probe to go: every answer it got, every look at the
cancellation flag and every diagnostic, in order, and how it ended. No two answers of a course
have anything to do with each other, so a fact about all courses holds for every target,
whatever happens to its memory or to the flag in the meantime. The runs of any target are
courses (`course_of_run`).

This module does NOT say which answers a sensible target gives.
-/

namespace StackPeek

inductive Event where
  | read (address : Address) (length : UInt64) (reply : Reply)
  | poll (cancelled : Bool)
  | log (entry : Log.Entry)

namespace Probe
variable {α β σ : Type}

/-- `p.Course es r`: given the answers in `es`, the probe does `es` and ends with `r`. -/
inductive Course {α : Type} : Probe α → List Event → Except Fault α → Prop where
  | done (a : α) : Course (.done a) [] (.ok a)
  | fault (f : Fault) : Course (.fault f) [] (.error f)
  | read {a : Address} {n : UInt64} {k : Reply → Probe α} (reply : Reply) {es : List Event}
      {r : Except Fault α} : Course (k reply) es r → Course (.read a n k) (.read a n reply :: es) r
  | poll {k : Bool → Probe α} (flag : Bool) {es : List Event} {r : Except Fault α} :
      Course (k flag) es r → Course (.poll k) (.poll flag :: es) r
  | log {e : Log.Entry} {k : Probe α} {es : List Event} {r : Except Fault α} :
      Course k es r → Course (.log e k) (.log e :: es) r

theorem course_of_run (t : Target σ) (p : Probe α) (s : σ) :
    ∃ es, p.Course es (p.run t s).1 := by
  induction p generalizing s with
  | done a => exact ⟨[], .done a⟩
  | fault f => exact ⟨[], .fault f⟩
  | read a n k ih =>
    obtain ⟨es, h⟩ := ih (t.read a n s).1 (t.read a n s).2
    exact ⟨_, .read _ h⟩
  | poll k ih =>
    obtain ⟨es, h⟩ := ih (t.cancelled s) s
    exact ⟨_, .poll _ h⟩
  | log e k ih =>
    obtain ⟨es, h⟩ := ih (t.hear e s)
    exact ⟨_, .log h⟩

namespace Course
variable {p : Probe α} {f : α → Probe β} {es : List Event}

theorem bind {es₁ es₂ : List Event} {a : α} {r : Except Fault β} (hp : p.Course es₁ (.ok a))
    (hf : (f a).Course es₂ r) : (p.bind f).Course (es₁ ++ es₂) r := by
  generalize hr : Except.ok a = r₁ at hp
  induction hp with
  | done b => injection hr with hr; subst hr; exact hf
  | fault x => cases hr
  | read reply _ ih => exact .read reply (ih hr)
  | poll flag _ ih => exact .poll flag (ih hr)
  | log _ ih => exact .log (ih hr)

theorem of_bind {b : β} (h : (p.bind f).Course es (.ok b)) :
    ∃ a es₁ es₂, es = es₁ ++ es₂ ∧ p.Course es₁ (.ok a) ∧ (f a).Course es₂ (.ok b) := by
  induction p generalizing es with
  | done a => exact ⟨a, [], es, rfl, .done a, h⟩
  | fault x => cases h
  | read a n k ih =>
    cases h with
    | read reply h =>
      obtain ⟨a, es₁, es₂, rfl, h₁, h₂⟩ := ih _ h
      exact ⟨a, _, es₂, rfl, .read reply h₁, h₂⟩
  | poll k ih =>
    cases h with
    | poll flag h =>
      obtain ⟨a, es₁, es₂, rfl, h₁, h₂⟩ := ih _ h
      exact ⟨a, _, es₂, rfl, .poll flag h₁, h₂⟩
  | log e k ih =>
    cases h with
    | log h =>
      obtain ⟨a, es₁, es₂, rfl, h₁, h₂⟩ := ih h
      exact ⟨a, _, es₂, rfl, .log h₁, h₂⟩

/-- The answers decide when a probe ends and how. -/
theorem unique_of_prefix {es' : List Event} {r r' : Except Fault α} (h : p.Course es r)
    (h' : p.Course es' r') (hp : List.IsPrefix es es') : es' = es ∧ r' = r := by
  induction h generalizing es' with
  | done a => cases h'; exact ⟨rfl, rfl⟩
  | fault f => cases h'; exact ⟨rfl, rfl⟩
  | read reply _ ih =>
    cases h' with
    | read reply' h' =>
      obtain ⟨he, ht⟩ := List.cons_prefix_cons.mp hp
      cases he
      obtain ⟨rfl, rfl⟩ := ih h' ht
      exact ⟨rfl, rfl⟩
  | poll flag _ ih =>
    cases h' with
    | poll flag' h' =>
      obtain ⟨he, ht⟩ := List.cons_prefix_cons.mp hp
      cases he
      obtain ⟨rfl, rfl⟩ := ih h' ht
      exact ⟨rfl, rfl⟩
  | log _ ih =>
    cases h' with
    | log h' =>
      obtain ⟨-, ht⟩ := List.cons_prefix_cons.mp hp
      obtain ⟨rfl, rfl⟩ := ih h' ht
      exact ⟨rfl, rfl⟩

theorem of_done {a b : α} (h : (Probe.done a).Course es (.ok b)) : es = [] ∧ a = b := by
  cases h
  exact ⟨rfl, rfl⟩

/-- A diagnostic is one event and does not change the outcome. -/
theorem of_report {level : Log.Level} {text : String} {f : Unit → Probe β} {r : Except Fault β}
    (h : ((report level text).bind f).Course es r) :
    ∃ es', es = .log (.of level text) :: es' ∧ (f ()).Course es' r := by
  cases h with
  | log h => exact ⟨_, rfl, h⟩

theorem of_reported {level : Log.Level} {text : String} {a b : α}
    (h : ((report level text).bind fun _ => .done a).Course es (.ok b)) : b = a := by
  obtain ⟨es', -, h⟩ := h.of_report
  exact h.of_done.2.symm

/-- A look at the flag is one event, and any answer is possible. -/
theorem of_cancelled {f : Bool → Probe β} {r : Except Fault β}
    (h : (Probe.cancelled.bind f).Course es r) :
    ∃ flag es', es = .poll flag :: es' ∧ (f flag).Course es' r := by
  cases h with
  | poll flag h => exact ⟨flag, _, rfl, h⟩

end Course

instance : LawfulMonad Probe := LawfulMonad.mk' Probe bind_done (fun _ _ => rfl) bind_assoc

end Probe

namespace Attempt
variable {α β : Type}

theorem run_bind (x : Attempt α) (f : α → Attempt β) :
    (x >>= f).run = x.run.bind fun
      | .ok a => (f a).run
      | .error e => .done (.error e) := by
  refine congrArg x.run.bind (funext fun y => ?_)
  cases y <;> rfl

theorem run_lift (p : Probe α) :
    (liftM p : Attempt α).run = p.bind fun a => .done (.ok a) := rfl

theorem run_ofExcept (x : Except ReadError α) : (liftM x : Attempt α).run = .done x := by
  cases x <;> rfl

/-- A course of two attempts in a row: the first one fails, or both go on. -/
theorem course_bind {x : Attempt α} {f : α → Attempt β} {es : List Event}
    {r : Except ReadError β} (h : (x >>= f).run.Course es (.ok r)) :
    (∃ e, x.run.Course es (.ok (.error e)) ∧ r = .error e) ∨
      ∃ a es₁ es₂, es = es₁ ++ es₂ ∧ x.run.Course es₁ (.ok (.ok a)) ∧
        (f a).run.Course es₂ (.ok r) := by
  rw [run_bind] at h
  obtain ⟨y, es₁, es₂, rfl, h₁, h₂⟩ := h.of_bind
  cases y with
  | error e =>
    obtain ⟨rfl, rfl⟩ := h₂.of_done
    exact .inl ⟨e, by rwa [List.append_nil], rfl⟩
  | ok a => exact .inr ⟨a, es₁, es₂, rfl, h₁, h₂⟩

theorem course_lift {p : Probe α} {f : α → Attempt β} {es : List Event} {r : Except ReadError β}
    (h : ((liftM p : Attempt α) >>= f).run.Course es (.ok r)) :
    ∃ a es₁ es₂, es = es₁ ++ es₂ ∧ p.Course es₁ (.ok a) ∧ (f a).run.Course es₂ (.ok r) := by
  rw [run_bind, run_lift, Probe.bind_assoc] at h
  exact h.of_bind

theorem course_ofExcept {x : Except ReadError α} {f : α → Attempt β} {es : List Event}
    {r : Except ReadError β} (h : ((liftM x : Attempt α) >>= f).run.Course es (.ok r)) :
    (∃ e, x = .error e ∧ r = .error e) ∨ ∃ a, x = .ok a ∧ (f a).run.Course es (.ok r) := by
  rw [run_bind, run_ofExcept] at h
  cases x with
  | error e => exact .inl ⟨e, rfl, h.of_done.2.symm⟩
  | ok a => exact .inr ⟨a, rfl, h⟩

end Attempt
end StackPeek
