import StackPeek.Fault

/-!
# Probes

A `Probe` is a program that inspects a target: it asks for bytes, looks at a cancellation
flag, reports diagnostics, and ends with a value or a fault. It is a tree with one branch for
every answer, so nothing is assumed about the target: memory may change between two reads and
the flag may be set at any moment.

`Probe.run` plays a probe against a `Target`, which is any way of answering. Facts about all
targets are facts about all branches of the tree.
-/

namespace StackPeek

inductive Reply where
  /-- The bytes that could be copied, at most as many as asked for. -/
  | copied (bytes : List UInt8)
  | failed (errno : Nat)
  deriving Inhabited

/-- A program over a target. -/
inductive Probe (α : Type) where
  | done (a : α)
  | fault (f : Fault)
  | read (address : Address) (length : UInt64) (next : Reply → Probe α)
  | poll (next : Bool → Probe α)
  | log (entry : Log.Entry) (next : Probe α)

namespace Probe
variable {α β γ σ : Type}

def bind : Probe α → (α → Probe β) → Probe β
  | .done a, f => f a
  | .fault x, _ => .fault x
  | .read a n k, f => .read a n fun r => (k r).bind f
  | .poll k, f => .poll fun b => (k b).bind f
  | .log e k, f => .log e (k.bind f)

instance : Monad Probe where
  pure := .done
  bind := bind

@[simp] theorem pure_eq (a : α) : (pure a : Probe α) = .done a := rfl
@[simp] theorem bind_eq (p : Probe α) (f : α → Probe β) : p >>= f = p.bind f := rfl
@[simp] theorem done_bind (a : α) (f : α → Probe β) : (done a).bind f = f a := rfl
@[simp] theorem fault_bind (x : Fault) (f : α → Probe β) : (fault x).bind f = .fault x := rfl

theorem bind_done (p : Probe α) : p.bind .done = p := by
  induction p with
  | done a => rfl
  | fault x => rfl
  | read a n k ih => exact congrArg (Probe.read a n) (funext ih)
  | poll k ih => exact congrArg Probe.poll (funext ih)
  | log e k ih => exact congrArg (Probe.log e) ih

theorem bind_assoc (p : Probe α) (f : α → Probe β) (g : β → Probe γ) :
    (p.bind f).bind g = p.bind fun a => (f a).bind g := by
  induction p with
  | done a => rfl
  | fault x => rfl
  | read a n k ih => exact congrArg (Probe.read a n) (funext ih)
  | poll k ih => exact congrArg Probe.poll (funext ih)
  | log e k ih => exact congrArg (Probe.log e) ih

def fetch (address : Address) (length : UInt64) : Probe Reply := .read address length .done

def cancelled : Probe Bool := .poll .done

def report (level : Log.Level) (text : String) : Probe Unit := .log (.of level text) (.done ())

end Probe

/-- A way of answering probes, with a state that every answer may change. -/
structure Target (σ : Type) where
  read : Address → UInt64 → σ → Reply × σ
  cancelled : σ → Bool
  hear : Log.Entry → σ → σ

namespace Probe
variable {α β σ : Type}

def run (t : Target σ) : Probe α → σ → Except Fault α × σ
  | .done a, s => (.ok a, s)
  | .fault x, s => (.error x, s)
  | .read a n k, s => let (r, s') := t.read a n s; (k r).run t s'
  | .poll k, s => (k (t.cancelled s)).run t s
  | .log e k, s => k.run t (t.hear e s)

theorem run_bind (t : Target σ) (p : Probe α) (f : α → Probe β) (s : σ) :
    (p.bind f).run t s =
      match p.run t s with
      | (.ok a, s') => (f a).run t s'
      | (.error x, s') => (.error x, s') := by
  induction p generalizing s with
  | done a => rfl
  | fault x => rfl
  | read a n k ih => exact ih _ _
  | poll k ih => exact ih _ _
  | log e k ih => exact ih _

end Probe
end StackPeek
