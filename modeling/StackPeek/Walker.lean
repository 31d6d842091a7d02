import StackPeek.Layout.Basic
import StackPeek.Memory.Attempt
import StackPeek.Options

/-!
# The walker

A `Walker` knows the layout of a target and the limits to keep. Everything that reads
structures of the target is one of its operations. An operation that cannot do without a
member of the layout ends in a fault when the layout lacks it (`Walker.demand`).
-/

namespace StackPeek

/-- What is needed to make sense of the memory of a target. -/
structure Walker where
  layout : Layout
  options : Options

namespace Walker

/-- Ends the session if a member that was read is not in the layout. -/
def demand {α : Type} (w : Walker) (field : Field) (result : Except ReadError α) : Probe Unit :=
  match result with
  | .error .unsupportedField => .fault (.missingField w.layout.id field)
  | _ => .done ()

/-- Reads, and ends the session if the layout lacks what was to be read. -/
def demandRead {α : Type} (w : Walker) (field : Field) (attempt : Attempt α) : Attempt α :=
  ExceptT.mk <| attempt.run.bind fun result => (w.demand field result).bind fun _ => .done result

def fieldAddress (w : Walker) (base : Address) (field : Field) : Except ReadError Address :=
  match w.layout.spec? field with
  | none => .error .unsupportedField
  | some spec => base.plus? spec.offset

end Walker
end StackPeek
