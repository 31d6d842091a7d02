/-!
# Diagnostics

Every component reports what it could not do as a `Log.Entry`. Entries go to at most one
listener, registered in a `Log.Channel`. A text is handed over up to its first NUL character,
and a listener never disturbs the error number of the code that logs: `Channel.print` gives
it back as it was found (`Channel.print_errno`).
-/

namespace StackPeek.Log

/-- How important an entry is, most important first. -/
inductive Level where
  | warn
  | info
  | debug
  deriving DecidableEq, Inhabited

namespace Level

def name : Level → String
  | .warn => "WARN"
  | .info => "INFO"
  | .debug => "DEBUG"

end Level

/-- The part of a text that a listener or an error message can carry. -/
def beforeNul (text : String) : String :=
  String.ofList (text.toList.takeWhile (· != '\x00'))

structure Entry where
  level : Level
  text : String
  deriving DecidableEq, Inhabited

def Entry.of (level : Level) (text : String) : Entry := ⟨level, beforeNul text⟩

/-- What a listener may touch: the error number of the calling thread and a state of its own. -/
structure Scene (σ : Type) where
  errno : Int
  state : σ

structure Listener (σ : Type) where
  name : String
  hear : Int → String → Scene σ → Scene σ

structure Channel (σ : Type) where
  listener : Option (Listener σ)

namespace Channel
variable {σ : Type}

def silent : Channel σ := ⟨none⟩

def exchange (c : Channel σ) (listener : Option (Listener σ)) :
    Option (Listener σ) × Channel σ :=
  (c.listener, ⟨listener⟩)

/-- Hands a text to the listener, if there is one, and restores the error number. -/
def print (c : Channel σ) (level : Int) (text : String) (scene : Scene σ) : Scene σ :=
  match c.listener with
  | none => scene
  | some l => { l.hear level (beforeNul text) scene with errno := scene.errno }

@[simp] theorem print_errno (c : Channel σ) (level : Int) (text : String) (scene : Scene σ) :
    (c.print level text scene).errno = scene.errno := by
  unfold print
  split <;> rfl

@[simp] theorem print_silent (level : Int) (text : String) (scene : Scene σ) :
    silent.print level text scene = scene := rfl

end Channel
end StackPeek.Log
