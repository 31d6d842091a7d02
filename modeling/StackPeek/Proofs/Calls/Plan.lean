import StackPeek.Proofs.Stack.Supported

/-!
# Plans of calls

A `Plan` is what an operation does, down to the calls it makes: copies of structures, looks at a
member of a copy, single members, texts and bytes. What a call does in turn is left to
`Call.perform`, and `Plan.carryOut` makes a probe of the plan. `Plan.answers` lists how the calls
of a run were answered.

A plan `Insists` when it faults as soon as a call outside the decoder is answered with
`unsupportedField`, and never else. Such a plan ends in a fault exactly when there was such an
answer (`Insists.run`).
-/

namespace StackPeek
variable {α β σ : Type}

inductive Call : Type → Type where
  | copy (base : Address) (kind : StructKind) : Call Snapshot
  | unsigned (s : Snapshot) (field : Field) : Call UInt64
  | signed (s : Snapshot) (field : Field) : Call Int64
  | member (base : Address) (field : Field) : Call UInt64
  /-- A look at the layout itself. -/
  | place (field : Field) : Call FieldSpec
  | text (address : Address) : Call Text
  | bytes (address : Address) (limit : UInt64) : Call (List UInt8)

namespace Call

def perform (w : Walker) : Call β → Attempt β
  | .copy base kind => w.readStruct base kind
  | .unsigned s field => liftM (s.unsigned field)
  | .signed s field => liftM (s.signed field)
  | .member base field => w.readUnsigned base field
  | .place field => liftM ((w.layout.spec? field).elim (.error .unsupportedField) .ok :
      Except ReadError FieldSpec)
  | .text address => w.decodeText address
  | .bytes address limit => w.decodeBytes address limit

theorem perform_place (w : Walker) (field : Field) : (place field).perform w =
    liftM ((w.layout.spec? field).elim (.error .unsupportedField) .ok :
      Except ReadError FieldSpec) := rfl

def decodes : Call β → Bool
  | .text _ | .bytes .. => true
  | _ => false

/-- What the call asks the layout for includes the member: it is the one the call is about, or one
of the structure that is copied. -/
def Concerns : Call β → Field → Prop
  | .copy _ kind, field => field.kind = kind
  | .unsigned _ f, field | .signed _ f, field | .member _ f, field | .place f, field => field = f
  | .text _, _ | .bytes .., _ => False

theorem Concerns.not_decodes {c : Call β} {field : Field} (h : c.Concerns field) :
    c.decodes = false := by
  cases c with
  | text | bytes => exact h.elim
  | _ => rfl

end Call

inductive Plan (α : Type) : Type 1 where
  | done (a : α)
  | fault (f : Fault)
  | poll (next : Bool → Plan α)
  | log (entry : Log.Entry) (next : Plan α)
  | call {β : Type} (c : Call β) (next : Except ReadError β → Plan α)

structure Answer where
  {β : Type}
  call : Call β
  result : Except ReadError β

namespace Plan

def bind : Plan α → (α → Plan β) → Plan β
  | .done a, f => f a
  | .fault x, _ => .fault x
  | .poll k, f => .poll fun b => (k b).bind f
  | .log e k, f => .log e (k.bind f)
  | .call c k, f => .call c fun r => (k r).bind f

instance : Monad Plan where
  pure := .done
  bind := bind

@[simp] theorem pure_eq (a : α) : (pure a : Plan α) = .done a := rfl
@[simp] theorem bind_eq (p : Plan α) (f : α → Plan β) : p >>= f = p.bind f := rfl

def cancelled : Plan Bool := .poll .done

def report (level : Log.Level) (text : String) : Plan Unit := .log (.of level text) (.done ())

def carryOut (w : Walker) : Plan α → Probe α
  | .done a => .done a
  | .fault f => .fault f
  | .poll k => .poll fun b => (k b).carryOut w
  | .log e k => .log e (k.carryOut w)
  | .call c k => (c.perform w).run.bind fun r => (k r).carryOut w

def answers (w : Walker) (t : Target σ) : Plan α → σ → List Answer
  | .done _, _ => []
  | .fault _, _ => []
  | .poll k, s => (k (t.cancelled s)).answers w t s
  | .log e k, s => k.answers w t (t.hear e s)
  | .call c k, s =>
    match (c.perform w).run.run t s with
    | (.ok r, s') => ⟨c, r⟩ :: (k r).answers w t s'
    | (.error _, _) => []

/-- Makes a call, and faults if the layout lacks what it needs. -/
def insist (w : Walker) (field : Field) (c : Call β) : Plan (Except ReadError β) :=
  .call c fun
    | .error .unsupportedField => .fault (.missingField w.layout.id field)
    | r => .done r

def ask (c : Call β) : Plan (Except ReadError β) := .call c .done

section
variable {w : Walker}

theorem carryOut_bind (p : Plan α) (f : α → Plan β) :
    (p.bind f).carryOut w = (p.carryOut w).bind fun a => (f a).carryOut w := by
  induction p with
  | done a => rfl
  | fault x => rfl
  | poll k ih => exact congrArg Probe.poll (funext ih)
  | log e k ih => exact congrArg (Probe.log e) ih
  | call c k ih =>
    simp only [bind, carryOut, Probe.bind_assoc]
    exact congrArg _ (funext ih)

theorem carryOut_seq {p : Plan α} {q : Probe α} {f : α → Plan β} {g : α → Probe β}
    (hp : p.carryOut w = q) (hf : ∀ a, (f a).carryOut w = g a) :
    (p.bind f).carryOut w = q.bind g := by
  rw [carryOut_bind, hp]
  exact congrArg _ (funext hf)

theorem carryOut_insist (field : Field) (c : Call β) :
    (insist w field c).carryOut w = (w.demandRead field (c.perform w)).run := by
  refine congrArg (Probe.bind _) (funext fun r => ?_)
  cases r with
  | error e => cases e <;> rfl
  | ok a => rfl

theorem carryOut_ask (c : Call β) : (ask c).carryOut w = (c.perform w).run :=
  Probe.bind_done _

end

/-- The plan faults exactly where a call outside the decoder is answered with `unsupportedField`,
and names a member that the call concerns. -/
inductive Insists (w : Walker) {α : Type} : Plan α → Prop where
  | done (a : α) : Insists w (.done a)
  | poll {k : Bool → Plan α} : (∀ b, Insists w (k b)) → Insists w (.poll k)
  | log {e : Log.Entry} {k : Plan α} : Insists w k → Insists w (.log e k)
  | decoded {β : Type} {c : Call β} {k : Except ReadError β → Plan α} : c.decodes = true →
      (∀ r, Insists w (k r)) → Insists w (.call c k)
  | demanded {β : Type} {c : Call β} {k : Except ReadError β → Plan α} {field : Field} :
      c.Concerns field → k (.error .unsupportedField) = .fault (.missingField w.layout.id field) →
      (∀ r, r ≠ .error .unsupportedField → Insists w (k r)) → Insists w (.call c k)

section
variable {w : Walker} {p : Plan α}

theorem Insists.bind {f : α → Plan β} (h : p.Insists w) (hf : ∀ a, (f a).Insists w) :
    (p.bind f).Insists w := by
  induction h with
  | done a => exact hf a
  | poll _ ih => exact .poll ih
  | log _ ih => exact .log ih
  | decoded hc _ ih => exact .decoded hc ih
  | @demanded _ _ k field hc hk _ ih =>
    have hstop : (k (.error .unsupportedField)).bind f =
        .fault (.missingField w.layout.id field) := by
      rw [hk]
      rfl
    exact .demanded hc hstop ih

theorem insists_insist {c : Call β} {field : Field} (hc : c.Concerns field) :
    (insist w field c).Insists w := by
  refine .demanded hc rfl fun r hr => ?_
  cases r with
  | ok a => exact .done _
  | error e =>
    cases e with
    | unsupportedField => exact absurd rfl hr
    | _ => exact .done _

theorem insists_ask {c : Call β} (hc : c.decodes = true) : (ask c).Insists w :=
  .decoded hc fun r => .done r

theorem insists_cancelled : cancelled.Insists w := .poll fun b => .done b

theorem insists_report (level : Log.Level) (text : String) : (report level text).Insists w :=
  .log (.done ())

end
end Plan

theorem Call.faultless_perform (w : Walker) (c : Call β) : (c.perform w).Faultless := by
  cases c with
  | copy base kind => exact Walker.faultless_readStruct base kind
  | unsigned | signed | place => exact Attempt.faultless_ofExcept _
  | member base field => exact Walker.faultless_readUnsigned base field
  | text address => exact Walker.faultless_decodeText address
  | bytes address limit => exact Walker.faultless_decodeBytes address limit

/-- The call is none of the decoder's, and the layout lacks what it needs. -/
def Answer.Refused (a : Answer) : Prop :=
  a.call.decodes = false ∧ a.result = .error .unsupportedField

namespace Plan
variable {w : Walker} {p : Plan α}

theorem call_answered (w : Walker) (c : Call β) (k : Except ReadError β → Plan α) (t : Target σ)
    (s : σ) : ∃ r s', (Plan.call c k).answers w t s = ⟨c, r⟩ :: (k r).answers w t s' ∧
      ((Plan.call c k).carryOut w).run t s = ((k r).carryOut w).run t s' := by
  obtain ⟨r, hr, -⟩ := Probe.Ensures.run (c.faultless_perform w) t s
  have hpair : (c.perform w).run.run t s = (.ok r, ((c.perform w).run.run t s).2) :=
    Prod.ext hr rfl
  refine ⟨r, ((c.perform w).run.run t s).2, ?_, ?_⟩
  · simp only [answers]
    rw [hpair]
  · simp only [carryOut]
    rw [Probe.run_bind, hpair]

/-- A refusal is the last of the answers and the end is the fault that names what was missing, and
without a refusal the end is a value. -/
structure Heeded (w : Walker) (answers : List Answer) (r : Except Fault α) : Prop where
  fault : ∀ a ∈ answers, a.Refused → ∃ before field, answers = before ++ [a] ∧
    a.call.Concerns field ∧ r = .error (.missingField w.layout.id field)
  value : (∀ a ∈ answers, ¬ a.Refused) → ∃ v, r = .ok v

theorem heeded_nil (v : α) : Heeded w [] (.ok v) where
  fault _ hm := absurd hm List.not_mem_nil
  value _ := ⟨v, rfl⟩

theorem heeded_refused {a : Answer} {field : Field} (ha : a.Refused) (hc : a.call.Concerns field) :
    Heeded w [a] (.error (.missingField w.layout.id field) : Except Fault α) where
  fault b hb _ := by
    obtain rfl := List.mem_singleton.mp hb
    exact ⟨[], field, rfl, hc, rfl⟩
  value hall := absurd ha (hall a (List.mem_singleton.mpr rfl))

theorem Heeded.cons {answers : List Answer} {r : Except Fault α} (h : Heeded w answers r)
    {a : Answer} (ha : ¬ a.Refused) : Heeded w (a :: answers) r where
  fault b hm hb := by
    have hne : b ≠ a := fun heq => ha (heq ▸ hb)
    obtain ⟨before, field, hlist, hend⟩ := h.fault b (List.mem_of_ne_of_mem hne hm) hb
    exact ⟨a :: before, field, congrArg (a :: ·) hlist, hend⟩
  value hall := h.value fun b hm => hall b (.tail _ hm)

theorem Insists.run (h : p.Insists w) (t : Target σ) (s : σ) :
    Heeded w (p.answers w t s) ((p.carryOut w).run t s).1 := by
  induction h generalizing s with
  | done v => exact heeded_nil v
  | poll _ ih => exact ih _ _
  | log _ ih => exact ih _
  | @decoded _ c k hc _ ih =>
    obtain ⟨r, s', hanswers, hrun⟩ := call_answered w c k t s
    rw [hanswers, hrun]
    -- What the decoder answers counts for nothing, so the rest of the plan decides.
    refine (ih r s').cons fun hrefused => ?_
    have hdemanded : c.decodes = false := hrefused.1
    rw [hc] at hdemanded
    cases hdemanded
  | @demanded _ c k field hc hk _ ih =>
    obtain ⟨r, s', hanswers, hrun⟩ := call_answered w c k t s
    rw [hanswers, hrun]
    by_cases hr : r = .error .unsupportedField
    · subst hr
      rw [hk]
      exact heeded_refused ⟨hc.not_decodes, rfl⟩ hc
    -- Any other answer is no refusal, and the plan goes on with it.
    · exact (ih r hr s').cons fun hrefused => hr hrefused.2

end Plan

abbrev Trial := ExceptT ReadError Plan

namespace Trial
open Plan
variable {w : Walker}

def carryOut (w : Walker) (x : Trial α) : Attempt α := ExceptT.mk (x.run.carryOut w)

theorem carryOut_run {x : Trial α} {y : Attempt α} (h : x.carryOut w = y) :
    x.run.carryOut w = y.run := congrArg ExceptT.run h

theorem run_bind (x : Trial α) (f : α → Trial β) :
    (x >>= f).run = x.run.bind fun
      | .ok a => (f a).run
      | .error e => .done (.error e) := by
  refine congrArg x.run.bind (funext fun y => ?_)
  cases y <;> rfl

theorem carryOut_bind (x : Trial α) (f : α → Trial β) :
    (x >>= f).carryOut w = x.carryOut w >>= fun a => (f a).carryOut w := by
  apply ExceptT.ext
  rw [Attempt.run_bind]
  change ((x >>= f).run).carryOut w = _
  rw [run_bind, Plan.carryOut_bind]
  refine congrArg _ (funext fun y => ?_)
  cases y <;> rfl

theorem carryOut_seq {x : Trial α} {y : Attempt α} {f : α → Trial β} {g : α → Attempt β}
    (hx : x.carryOut w = y) (hf : ∀ a, (f a).carryOut w = g a) :
    (x >>= f).carryOut w = y >>= g := by
  rw [carryOut_bind, hx]
  exact congrArg _ (funext hf)

theorem run_lift (p : Plan α) :
    (liftM p : Trial α).run = p.bind fun a => .done (.ok a) := rfl

theorem carryOut_lift (p : Plan α) :
    (liftM p : Trial α).carryOut w = liftM (p.carryOut w) := by
  apply ExceptT.ext
  rw [Attempt.run_lift]
  change ((liftM p : Trial α).run).carryOut w = _
  rw [run_lift, Plan.carryOut_bind]
  rfl

theorem carryOut_ofExcept (x : Except ReadError α) :
    (liftM x : Trial α).carryOut w = liftM x := by
  cases x <;> rfl

/-- Makes a call that the operation cannot do without. -/
def need (w : Walker) (field : Field) (c : Call β) : Trial β := ExceptT.mk (insist w field c)

/-- The same, but leaves the answer to be looked at later. -/
def check (w : Walker) (field : Field) (c : Call β) : Trial (Except ReadError β) :=
  liftM (insist w field c)

theorem carryOut_need (field : Field) (c : Call β) :
    (need w field c).carryOut w = w.demandRead field (c.perform w) :=
  ExceptT.ext (carryOut_insist field c)

theorem carryOut_check {c : Call β} {x : Except ReadError β} (hc : c.perform w = liftM x)
    {field : Field} {f : Except ReadError β → Trial α} {y : Attempt α}
    (hf : (f x).carryOut w = y) :
    (check w field c >>= f).carryOut w =
      (liftM (w.demand field x) : Attempt Unit) >>= fun _ => y := by
  have hcheck : (check w field c).carryOut w =
      liftM ((w.demand field x).bind fun _ => .done x) := by
    unfold check
    rw [carryOut_lift, carryOut_insist, hc]
    cases x <;> rfl
  apply ExceptT.ext
  rw [carryOut_bind, hcheck, ← hf]
  simp only [Attempt.run_bind, Attempt.run_lift, Probe.bind_assoc, Probe.done_bind]

def Insists (w : Walker) (x : Trial α) : Prop := x.run.Insists w

theorem Insists.bind {x : Trial α} {f : α → Trial β} (h : x.Insists w)
    (hf : ∀ a, (f a).Insists w) : (x >>= f).Insists w := by
  unfold Insists
  rw [run_bind]
  refine Plan.Insists.bind h fun r => ?_
  cases r with
  | error e => exact .done _
  | ok a => exact hf a

theorem insists_lift {p : Plan α} (h : p.Insists w) : (liftM p : Trial α).Insists w := by
  unfold Insists
  rw [run_lift]
  exact h.bind fun _ => .done _

theorem insists_ofExcept (x : Except ReadError α) : (liftM x : Trial α).Insists w := by
  cases x <;> exact .done _

theorem insists_need {c : Call β} {field : Field} (hc : c.Concerns field) :
    (need w field c).Insists w := insists_insist hc

theorem insists_check {c : Call β} {field : Field} (hc : c.Concerns field) :
    (check w field c).Insists w := insists_lift (insists_insist hc)

theorem insists_pure (a : α) : (pure a : Trial α).Insists w := .done _

theorem insists_throw (e : ReadError) : (throw e : Trial α).Insists w := .done _

end Trial
end StackPeek
