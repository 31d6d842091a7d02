import StackPeek.Layout.Builtin

/-!
# Spans cover their members

A structure is copied from the first to the last offset of its span. Every placed member of the
structure lies in that range, as long as its own end does not wrap.
-/

namespace StackPeek.Layout
variable {l : Layout} {kind : StructKind} {spec : FieldSpec}

theorem left_le_max (a b : UInt64) : a ≤ max a b := by
  change a ≤ if a ≤ b then b else a
  split
  · assumption
  · exact UInt64.le_refl a

theorem right_le_max (a b : UInt64) : b ≤ max a b := by
  change b ≤ if a ≤ b then b else a
  split
  · exact UInt64.le_refl b
  · rename_i h
    exact (UInt64.le_total b a).resolve_right h

theorem le_foldl_max (specs : List FieldSpec) (e : UInt64) :
    e ≤ specs.foldl (fun e s => max e s.stop) e := by
  induction specs generalizing e with
  | nil => exact UInt64.le_refl e
  | cons s rest ih => exact UInt64.le_trans (left_le_max _ _) (ih _)

theorem stop_le_foldl_max {specs : List FieldSpec} (h : spec ∈ specs) (e : UInt64) :
    spec.stop ≤ specs.foldl (fun e s => max e s.stop) e := by
  induction specs generalizing e with
  | nil => cases h
  | cons s rest ih =>
    rcases List.mem_cons.mp h with rfl | h
    · exact UInt64.le_trans (right_le_max _ _) (le_foldl_max rest _)
    · exact ih h _

theorem foldl_min_le (specs : List FieldSpec) (b : UInt64) :
    specs.foldl (fun b s => min b s.offset) b ≤ b := by
  induction specs generalizing b with
  | nil => exact UInt64.le_refl b
  | cons s rest ih => exact UInt64.le_trans (ih _) Std.min_le_left

theorem foldl_min_le_offset {specs : List FieldSpec} (h : spec ∈ specs) (b : UInt64) :
    specs.foldl (fun b s => min b s.offset) b ≤ spec.offset := by
  induction specs generalizing b with
  | nil => cases h
  | cons s rest ih =>
    rcases List.mem_cons.mp h with rfl | h
    · exact UInt64.le_trans (foldl_min_le rest _) Std.min_le_right
    · exact ih h _

theorem span_start_le (h : spec ∈ l.placed kind) : (l.span kind).start ≤ spec.offset := by
  unfold span
  simp only
  split
  · exact UInt64.zero_le
  · exact foldl_min_le_offset h _

theorem stop_le_span_stop (h : spec ∈ l.placed kind) : spec.stop ≤ (l.span kind).stop := by
  have hs := stop_le_foldl_max h 0
  unfold span
  simp only
  split
  · rename_i h0
    rwa [h0] at hs
  · exact hs

/-- A placed member lies inside the span of its structure. -/
theorem within_span (h : spec ∈ l.placed kind)
    (hw : spec.offset.toNat + spec.width.toNat < UInt64.size) :
    (l.span kind).start.toNat ≤ spec.offset.toNat ∧
      spec.offset.toNat + spec.width.toNat ≤ (l.span kind).stop.toNat := by
  have hstop := UInt64.le_iff_toNat_le.mp (stop_le_span_stop h)
  have hsum : spec.stop.toNat = spec.offset.toNat + spec.width.toNat := by
    unfold FieldSpec.stop
    rw [UInt64.toNat_add, UInt32.toNat_toUInt64, Nat.mod_eq_of_lt hw]
  exact ⟨UInt64.le_iff_toNat_le.mp (span_start_le h), by omega⟩

end StackPeek.Layout
