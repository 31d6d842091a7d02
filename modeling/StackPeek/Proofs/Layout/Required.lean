import StackPeek.Proofs.Layout.Span
import StackPeek.Proofs.Stack.Supported

/-!
# Layouts that were accepted

A layout that `Layout.validate` accepts describes every required member. If those that are not
stored inline also end at an offset (`Layout.Placed`), each structure that sampling copies has
something to copy (`Layout.provides_of_placed`).
-/

namespace StackPeek.Layout
variable {l : Layout} {f : Field} {spec : FieldSpec} {kind : StructKind}

theorem ok_of_forM {check : Field → Except Fault Unit} {fields : List Field}
    (h : fields.forM check = .ok ()) : ∀ f ∈ fields, check f = .ok () := by
  induction fields with
  | nil => nofun
  | cons f rest ih =>
    change (check f >>= fun _ => rest.forM check) = .ok () at h
    cases hf : check f with
    | error e =>
      rw [hf] at h
      cases h
    | ok u =>
      rw [hf] at h
      intro g hg
      rcases List.mem_cons.mp hg with rfl | hg
      · exact hf
      · exact ih h g hg

/-- An accepted layout describes what it must, as inline data or as a well-shaped integer. -/
theorem described_of_validate (h : l.validate = .ok ()) (hf : f ∈ l.required) :
    ∃ spec, l.spec? f = some spec ∧ (spec.rule = .inlineData ∨ spec.wellShaped = true) := by
  have hr := ok_of_forM h f hf
  unfold require at hr
  cases hs : l.spec? f with
  | none =>
    rw [hs] at hr
    cases hr
  | some spec =>
    simp only [hs] at hr
    split at hr
    · rename_i hshape
      exact ⟨spec, rfl, hshape⟩
    · cases hr

theorem size_span_ne_zero (hs : spec ∈ l.placed kind) (hw : 0 < spec.width)
    (hend : spec.offset.toNat + spec.width.toNat < UInt64.size) : (l.span kind).size ≠ 0 := by
  have hpos : 0 < spec.width.toNat := UInt32.lt_iff_toNat_lt.mp hw
  have hstart := UInt64.le_iff_toNat_le.mp (span_start_le hs)
  have hstop := UInt64.le_iff_toNat_le.mp (stop_le_span_stop hs)
  have hspec : spec.stop.toNat = spec.offset.toNat + spec.width.toNat := by
    unfold FieldSpec.stop
    rw [UInt64.toNat_add, UInt32.toNat_toUInt64]
    exact Nat.mod_eq_of_lt hend
  -- An empty span would put the end of the member at or before its offset.
  intro h0
  have heq : (l.span kind).stop = (l.span kind).start := by
    rw [← UInt64.zero_add (l.span kind).start]
    exact UInt64.sub_eq_iff_eq_add.mp h0
  rw [heq] at hstop
  omega

def inlineMembers : List Field := [.bytesData, .stringAsciiData, .stringCompactData, .codeBytecode]

/-- No required member but `inlineMembers` is stored inline, and each of the others ends at an
offset. -/
def Placed (l : Layout) : Prop :=
  ∀ f ∈ l.required, f ∉ inlineMembers → ∀ spec ∈ l.spec? f,
    spec.rule ≠ .inlineData ∧ spec.offset.toNat + spec.width.toNat < UInt64.size

instance (l : Layout) : Decidable l.Placed :=
  inferInstanceAs (Decidable (∀ f ∈ l.required, f ∉ inlineMembers → ∀ spec ∈ l.spec? f,
    spec.rule ≠ .inlineData ∧ spec.offset.toNat + spec.width.toNat < UInt64.size))

/-- Every structure that sampling copies has something to copy. -/
structure Provides (l : Layout) : Prop extends l.Supports where
  thread : (l.span .threadState).size ≠ 0
  bytes : (l.span .bytes).size ≠ 0
  string : (l.span .string).size ≠ 0
  compactString : (l.span .compactString).size ≠ 0

/-- Interpreter states and the records behind thread states are never copied whole. -/
theorem Provides.size_ne_zero (h : l.Provides) (hi : kind ≠ .interpreterState)
    (hc : kind ≠ .cframe) : (l.span kind).size ≠ 0 := by
  cases kind with
  | interpreterState => exact absurd rfl hi
  | threadState => exact h.thread
  | cframe => exact absurd rfl hc
  | frame => exact h.frame
  | code => exact h.code
  | bytes => exact h.bytes
  | string => exact h.string
  | compactString => exact h.compactString

theorem Placed.size_ne_zero (h : l.Placed) (hv : l.validate = .ok ()) (hf : f ∈ alwaysRequired)
    (hi : f ∉ inlineMembers) : (l.span f.kind).size ≠ 0 := by
  have hr : f ∈ l.required := List.mem_append_left _ (List.mem_append_left _ hf)
  obtain ⟨spec, hs, hshape⟩ := described_of_validate hv hr
  obtain ⟨hinline, hend⟩ := h f hr hi spec hs
  have hw : 0 < spec.width := (FieldSpec.width_of_wellShaped (hshape.resolve_left hinline)).1
  exact size_span_ne_zero (mem_placed.mpr ⟨f, rfl, hs, hinline⟩) hw hend

theorem provides_of_placed (hv : l.validate = .ok ()) (h : l.Placed) : l.Provides where
  member f hf := by
    obtain ⟨spec, hs, -⟩ := described_of_validate hv hf
    rw [hs]
    rfl
  frame := h.size_ne_zero hv (f := .frameBack) (by decide) (by decide)
  code := h.size_ne_zero hv (f := .codeName) (by decide) (by decide)
  thread := h.size_ne_zero hv (f := .threadNext) (by decide) (by decide)
  bytes := h.size_ne_zero hv (f := .bytesSize) (by decide) (by decide)
  string := h.size_ne_zero hv (f := .stringLength) (by decide) (by decide)
  compactString := h.size_ne_zero hv (f := .stringUtf8) (by decide) (by decide)

theorem builtin_provides (id : LayoutId) : (builtin id).Provides :=
  provides_of_placed (by cases id <;> rfl) (by cases id <;> decide)

end StackPeek.Layout
