import StackPeek.Text.Utf8

/-!
# Limits of a walk
-/

namespace StackPeek

/-- How far a walk goes. Frames beyond `maxStackDepth`, threads beyond `maxThreads` and
characters beyond `maxStringLength` are dropped. -/
structure Options where
  maxStackDepth : UInt64
  maxThreads : UInt64
  maxStringLength : UInt64
  /-- How many workers walk stacks; up to one, the caller walks them itself. -/
  walkThreads : UInt64
  unresolvedName : Text
  deriving DecidableEq

def Options.standard : Options where
  maxStackDepth := 256
  maxThreads := 4096
  maxStringLength := 65536
  walkThreads := 1
  unresolvedName := .ofString "<unresolved>"

instance : Inhabited Options := ⟨.standard⟩

end StackPeek
