import StackPeek.Proofs.Probe.Course

/-!
# Probes without faults

`Probe.Ensures P p` says that `p` never ends in a fault, and that every value it can end with
satisfies `P`. It is about all branches of the probe, so it holds for every target. An attempt
is `Plain` when it ensures that the layout describes all that was to be read.
-/

namespace StackPeek
variable {α β σ : Type}

/-- No branch ends in a fault, and all values satisfy `P`. -/
inductive Probe.Ensures (P : α → Prop) : Probe α → Prop where
  | done {a : α} : P a → Ensures P (.done a)
  | read {a : Address} {n : UInt64} {k : Reply → Probe α} :
      (∀ r, Ensures P (k r)) → Ensures P (.read a n k)
  | poll {k : Bool → Probe α} : (∀ b, Ensures P (k b)) → Ensures P (.poll k)
  | log {e : Log.Entry} {k : Probe α} : Ensures P k → Ensures P (.log e k)

namespace Probe
variable {P : α → Prop} {Q : β → Prop} {p : Probe α}

theorem Ensures.bind {f : α → Probe β} (h : p.Ensures P) (hf : ∀ a, P a → (f a).Ensures Q) :
    (p.bind f).Ensures Q := by
  induction h with
  | done ha => exact hf _ ha
  | read _ ih => exact .read ih
  | poll _ ih => exact .poll ih
  | log _ ih => exact .log ih

theorem Ensures.mono {P' : α → Prop} (h : p.Ensures P) (hp : ∀ a, P a → P' a) : p.Ensures P' := by
  induction h with
  | done ha => exact .done (hp _ ha)
  | read _ ih => exact .read ih
  | poll _ ih => exact .poll ih
  | log _ ih => exact .log ih

theorem Ensures.bind_congr {f g : α → Probe β} (h : p.Ensures P) (hfg : ∀ a, P a → f a = g a) :
    p.bind f = p.bind g := by
  induction h with
  | done ha => exact hfg _ ha
  | read _ ih => exact congrArg (Probe.read _ _) (funext ih)
  | poll _ ih => exact congrArg Probe.poll (funext ih)
  | log _ ih => exact congrArg (Probe.log _) ih

theorem Ensures.run (h : p.Ensures P) (t : Target σ) (s : σ) :
    ∃ a, (p.run t s).1 = .ok a ∧ P a := by
  induction h generalizing s with
  | done ha => exact ⟨_, rfl, ha⟩
  | read _ ih => exact ih _ _
  | poll _ ih => exact ih _ _
  | log _ ih => exact ih _

theorem ensures_fetch (a : Address) (n : UInt64) : (fetch a n).Ensures fun _ => True :=
  .read fun _ => .done trivial

theorem ensures_cancelled : cancelled.Ensures fun _ => True := .poll fun _ => .done trivial

theorem ensures_report (level : Log.Level) (text : String) :
    (report level text).Ensures fun _ => True := .log (.done trivial)

end Probe

def Described (r : Except ReadError α) : Prop := r ≠ .error .unsupportedField

namespace Attempt

def Faultless (x : Attempt α) : Prop := x.run.Ensures fun _ => True

/-- Never a fault, and never without a member in the layout. -/
def Plain (x : Attempt α) : Prop := x.run.Ensures Described

theorem Plain.faultless {x : Attempt α} (h : x.Plain) : x.Faultless := h.mono fun _ _ => trivial

/-- Never a fault, and every value that is read satisfies `P`. -/
def Gives (P : α → Prop) (x : Attempt α) : Prop := x.run.Ensures fun r => ∀ a, r = .ok a → P a

section
variable {x : Attempt α} {f : α → Attempt β}

theorem ensures_bind {P : Except ReadError α → Prop} {Q : Except ReadError β → Prop}
    (h : x.run.Ensures P) (he : ∀ e, P (.error e) → Q (.error e))
    (hf : ∀ a, P (.ok a) → (f a).run.Ensures Q) : (x >>= f).run.Ensures Q := by
  rw [run_bind]
  apply h.bind
  intro r hr
  cases r with
  | error e => exact .done (he e hr)
  | ok a => exact hf a hr

theorem bind_congr {P : Except ReadError α → Prop} {f g : α → Attempt β}
    (h : x.run.Ensures P) (hfg : ∀ a, P (.ok a) → f a = g a) : x >>= f = x >>= g := by
  apply ExceptT.ext
  rw [run_bind, run_bind]
  apply h.bind_congr
  intro r hr
  cases r with
  | error e => rfl
  | ok a => exact congrArg ExceptT.run (hfg a hr)

theorem Faultless.bind (h : x.Faultless) (hf : ∀ a, (f a).Faultless) : (x >>= f).Faultless :=
  ensures_bind h (fun _ _ => trivial) fun a _ => hf a

theorem Plain.bind (h : x.Plain) (hf : ∀ a, (f a).Plain) : (x >>= f).Plain :=
  ensures_bind h (fun _ he hu => he (by cases hu; rfl)) fun a _ => hf a

theorem Gives.bind {P : α → Prop} {Q : β → Prop} (h : x.Gives P) (hf : ∀ a, P a → (f a).Gives Q) :
    (x >>= f).Gives Q :=
  ensures_bind h (fun _ _ => nofun) fun a ha => hf a (ha a rfl)

theorem Faultless.gives (h : x.Faultless) : x.Gives fun _ => True := h.mono fun _ _ _ _ => trivial

end

theorem gives_pure {P : α → Prop} {a : α} (h : P a) : (pure a : Attempt α).Gives P := by
  refine .done ?_
  rintro b ⟨⟩
  exact h

theorem gives_throw (P : α → Prop) (e : ReadError) : (throw e : Attempt α).Gives P := .done nofun

theorem plain_pure (a : α) : (pure a : Attempt α).Plain := .done nofun

theorem plain_throw {e : ReadError} (h : e ≠ .unsupportedField) :
    (throw e : Attempt α).Plain := .done fun he => h (by cases he; rfl)

theorem plain_ofExcept {x : Except ReadError α} (h : Described x) :
    (liftM x : Attempt α).Plain := by
  unfold Plain
  rw [run_ofExcept]
  exact .done h

theorem plain_lift {p : Probe α} (h : p.Ensures fun _ => True) : (liftM p : Attempt α).Plain := by
  unfold Plain
  rw [run_lift]
  exact h.bind fun a _ => .done nofun

theorem faultless_pure (a : α) : (pure a : Attempt α).Faultless := .done trivial

theorem faultless_throw (e : ReadError) : (throw e : Attempt α).Faultless := .done trivial

theorem faultless_ofExcept (x : Except ReadError α) : (liftM x : Attempt α).Faultless := by
  unfold Faultless
  rw [run_ofExcept]
  exact .done trivial

end Attempt
end StackPeek
