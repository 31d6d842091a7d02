import StackPeek.Layout.Basic
import StackPeek.Log

/-!
# Faults

A `Fault` ends a sampling session: the layout does not fit the target, or there is nothing
to read from. It differs from a `ReadError`, which is an ordinary result of one read.
-/

namespace StackPeek

inductive Fault where
  | missingField (layout : LayoutId) (field : Field)
  /-- A required member has a shape that no integer can have. -/
  | badField (layout : LayoutId) (field : Field) (spec : FieldSpec)
  | unknownLayout (code : Nat)
  | unreadableVersion (text : String)
  | unsupportedVersion (major minor : Nat)
  | noReader

namespace Fault

private def wording : Fault → String
  | .missingField layout field =>
    s!"Layout {layout.name} has no offset for {field.kind.name}.{field.name}"
  | .badField layout field spec =>
    s!"Layout {layout.name} describes {field.name} with width {spec.width} bits " ++
      s!"[{spec.bitOffset}, +{spec.bitWidth})"
  | .unknownLayout code => s!"Unknown layout id {code}"
  | .unreadableVersion text => s!"Cannot parse Python version from '{text}'"
  | .unsupportedVersion major minor =>
    s!"Python {major}.{minor} is not supported, known layouts are 3.3, 3.6, 3.9, 3.10 " ++
      "and 3.11"
  | .noReader => "PyStackSampler requires a remote reader"

def message (f : Fault) : String := Log.beforeNul f.wording

end Fault
end StackPeek
