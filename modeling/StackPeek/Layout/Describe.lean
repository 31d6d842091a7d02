import StackPeek.Layout.Basic

/-!
# Printing a layout

One line a member, in the order of `Field.all`: its offset and its width or bit range.
-/

namespace StackPeek

def FieldSpec.describe (spec : FieldSpec) : String :=
  match spec.rule with
  | .bitFlags => s!"{spec.offset} bits [{spec.bitOffset}, +{spec.bitWidth})"
  | .inlineData => s!"{spec.offset}"
  | _ => s!"{spec.offset} ({spec.width} bytes)"

namespace Layout

private def fieldLine (l : Layout) (field : Field) : String :=
  s!"\n\t LayoutDescriptor.{field.name} : " ++
    ((l.spec? field).elim "unsupported" FieldSpec.describe)

def describe (l : Layout) : String :=
  s!"LayoutDescriptor {l.id.name}:" ++ String.join (Field.all.map l.fieldLine) ++ "\n"

end Layout
end StackPeek
