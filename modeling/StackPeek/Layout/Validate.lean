import StackPeek.Fault

/-!
# Layouts the walker can use

`Layout.validate` goes through the members that sampling may need, in a fixed order, and
refuses the layout at the first one that is missing or that has a shape no integer can have.
-/

namespace StackPeek

/-- An integer of one to eight bytes, with a bit range inside it where the rule takes bits. -/
def FieldSpec.wellShaped (spec : FieldSpec) : Bool :=
  0 < spec.width && spec.width ≤ 8 &&
    (spec.rule != .bitFlags ||
      (0 < spec.bitWidth &&
        spec.bitOffset.toNat + spec.bitWidth.toNat ≤ spec.width.toNat * 8))

theorem FieldSpec.width_of_wellShaped {spec : FieldSpec} (h : spec.wellShaped = true) :
    0 < spec.width ∧ spec.width ≤ 8 := by
  unfold wellShaped at h
  simp only [Bool.and_eq_true, decide_eq_true_eq] at h
  exact h.1

theorem FieldSpec.range_of_wellShaped {spec : FieldSpec} (h : spec.wellShaped = true)
    (hb : spec.rule = .bitFlags) :
    ¬ (spec.bitWidth = 0 ∨ 64 < spec.bitOffset.toNat + spec.bitWidth.toNat) := by
  have h8 : spec.width.toNat ≤ 8 := UInt32.le_iff_toNat_le.mp (width_of_wellShaped h).2
  simp only [wellShaped, hb, bne_self_eq_false, Bool.false_or, Bool.and_eq_true,
    decide_eq_true_eq] at h
  obtain ⟨-, hbw, hbits⟩ := h
  rintro (h0 | h64)
  · rw [h0] at hbw
    exact absurd hbw (by decide)
  · omega

namespace Layout

def alwaysRequired : List Field :=
  [.interpreterNext, .interpreterThreads, .threadNext, .threadId,
   .frameBack, .frameCode, .codeFirstLine, .codeFilename, .codeName, .codeLineTable,
   .bytesSize, .bytesData,
   .stringLength, .stringKind, .stringCompact, .stringAscii, .stringReady, .stringWide,
   .stringAsciiData, .stringUtf8Length, .stringUtf8, .stringWideLength, .stringCompactData,
   .stringData]

/-- All members that the layout must describe, in the order in which they are checked. -/
def required (l : Layout) : List Field :=
  alwaysRequired ++
  (match l.frameLink with
    | .direct => [.threadFrame]
    | .viaCFrame => [.threadCFrame, .cframeCurrent]) ++
  (match l.instruction with
    | .lastiBytes | .lastiCodeUnits => [.frameLasti]
    | .prevInstrPointer => [.framePrevInstr, .codeBytecode])

/-- Refuses a missing or badly shaped member; inline data has no shape of its own. -/
def require (l : Layout) (field : Field) : Except Fault Unit :=
  match l.spec? field with
  | none => .error (.missingField l.id field)
  | some spec =>
    if spec.rule = .inlineData ∨ spec.wellShaped then .ok ()
    else .error (.badField l.id field spec)

def validate (l : Layout) : Except Fault Unit := l.required.forM l.require

end Layout
end StackPeek
