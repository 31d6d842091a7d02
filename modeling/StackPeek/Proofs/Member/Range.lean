import StackPeek.Layout.Builtin
import StackPeek.Layout.Validate
import StackPeek.Member.Snapshot
import StackPeek.Proofs.Layout.Span
import StackPeek.Proofs.Probe.Still

/-!
# The bytes a member is decoded from

`Snapshot.raw` takes the integer in a member from the bytes of the copy, after it has compared
the end of the member with the end of the copy. `Snapshot.Decodes` says that nothing speaks
against that, and `Snapshot.Inside` that the member lies in the copied bytes, both counted
without a bound. The comparison is one of words: it keeps a member inside the copy exactly when
the end of the member is a word (`inside_iff`). A member that wraps around the end of all
offsets passes it as well, from outside the copy (`decodes_outside`).
-/

namespace StackPeek

namespace Snapshot

/-- Where a member starts in the bytes of the copy, counted without a bound. -/
def position (s : Snapshot) (spec : FieldSpec) : Nat := spec.offset.toNat - s.span.start.toNat

/-- Nothing speaks against taking the integer in the member from the copied bytes. -/
structure Decodes (s : Snapshot) (field : Field) (spec : FieldSpec) : Prop where
  described : s.layout.spec? field = some spec
  kind : field.kind = s.kind
  integer : spec.rule.isInteger = true
  start : s.span.start ≤ spec.offset
  stop : spec.offset - s.span.start + spec.width.toUInt64 ≤ UInt64.ofNat s.bytes.length
  width : 0 < spec.width ∧ spec.width ≤ 8

def Inside (s : Snapshot) (spec : FieldSpec) : Prop :=
  s.span.start.toNat ≤ spec.offset.toNat ∧ s.position spec + spec.width.toNat ≤ s.bytes.length

instance (s : Snapshot) (spec : FieldSpec) : Decidable (s.Inside spec) :=
  inferInstanceAs (Decidable (_ ∧ _))

variable {s : Snapshot} {field : Field} {spec : FieldSpec}

theorem position_eq (h : s.span.start ≤ spec.offset) :
    (spec.offset - s.span.start).toNat = s.position spec :=
  UInt64.toNat_sub_of_le _ _ h

theorem Inside.stop_le (h : s.Inside spec) (hlen : s.bytes.length < UInt64.size) :
    spec.offset - s.span.start + spec.width.toUInt64 ≤ UInt64.ofNat s.bytes.length := by
  obtain ⟨hstart, hstop⟩ := h
  have hbytes : (UInt64.ofNat s.bytes.length).toNat = s.bytes.length := Nat.mod_eq_of_lt hlen
  have hsum : s.position spec + spec.width.toNat < UInt64.size := Nat.lt_of_le_of_lt hstop hlen
  rw [UInt64.le_iff_toNat_le, hbytes, UInt64.toNat_add,
    position_eq (UInt64.le_iff_toNat_le.mpr hstart), UInt32.toNat_toUInt64, Nat.mod_eq_of_lt hsum]
  exact hstop

/-- A copy of the span has all bytes of its placed members that end at an offset. -/
theorem inside_of_placed {l : Layout} (hspan : s.span = l.span s.kind)
    (hlen : s.bytes.length = s.span.size.toNat) (hp : spec ∈ l.placed s.kind)
    (hend : spec.offset.toNat + spec.width.toNat < UInt64.size) : s.Inside spec := by
  obtain ⟨hstart, hstop⟩ := Layout.within_span hp hend
  rw [← hspan] at hstart hstop
  refine ⟨hstart, ?_⟩
  have hsize : s.span.size.toNat = s.span.stop.toNat - s.span.start.toNat :=
    UInt64.toNat_sub_of_le _ _ (UInt64.le_iff_toNat_le.mpr (by omega))
  unfold position
  rw [hlen, hsize]
  omega

theorem raw_eq_decode (hs : s.layout.spec? field = some spec) (hk : field.kind = s.kind)
    (hr : spec.rule.isInteger = true) (hstart : s.span.start ≤ spec.offset)
    (hstop : spec.offset - s.span.start + spec.width.toUInt64 ≤ UInt64.ofNat s.bytes.length) :
    s.raw field = spec.decode (s.bytes.drop (s.position spec)) := by
  obtain ⟨hc, hi⟩ := DecodeRule.isInteger_iff.mp hr
  have hpass : ¬ (spec.rule = .charArray ∨ spec.offset < s.span.start ∨
      UInt64.ofNat s.bytes.length < spec.offset - s.span.start + spec.width.toUInt64) := by
    rintro (he | he | he)
    · exact hc he
    · exact UInt64.not_lt.mpr hstart he
    · exact UInt64.not_lt.mpr hstop he
  unfold raw
  simp only [hs]
  rw [if_neg (not_not_intro hk), if_neg hi, if_neg hpass, position_eq hstart]

theorem Inside.raw_eq (h : s.Inside spec) (hs : s.layout.spec? field = some spec)
    (hk : field.kind = s.kind) (hr : spec.rule.isInteger = true)
    (hlen : s.bytes.length < UInt64.size) :
    s.raw field = spec.decode (s.bytes.drop (s.position spec)) :=
  raw_eq_decode hs hk hr (UInt64.le_iff_toNat_le.mpr h.1) (h.stop_le hlen)

theorem Decodes.raw_eq (h : s.Decodes field spec) :
    s.raw field = spec.decode (s.bytes.drop (s.position spec)) :=
  raw_eq_decode h.described h.kind h.integer h.start h.stop

theorem decodes_of_raw {n : UInt64} (h : s.raw field = .ok n)
    (hs : s.layout.spec? field = some spec) (hi : spec.rule ≠ .inlineData) :
    s.Decodes field spec := by
  unfold raw at h
  simp only [hs, if_neg hi] at h
  split at h
  · cases h
  rename_i hk
  split at h
  · cases h
  rename_i hpass
  simp only [not_or, UInt64.not_lt] at hpass
  obtain ⟨hc, hstart, hstop⟩ := hpass
  unfold FieldSpec.decode at h
  split at h
  · cases h
  rename_i hw
  simp only [not_or, UInt32.not_lt] at hw
  exact ⟨hs, Decidable.not_not.mp hk, DecodeRule.isInteger_iff.mpr ⟨hc, hi⟩, hstart, hstop,
    UInt32.pos_iff_ne_zero.mpr hw.1, hw.2⟩

end Snapshot

theorem Memory.length_of_fetchAll {a : Address} {n : UInt64} {es : List Event}
    {bytes : List UInt8} (h : (fetchAll a n).run.Course es (.ok (.ok bytes))) :
    bytes.length = n.toNat := by
  unfold fetchAll at h
  split at h
  · obtain ⟨-, es₁, es₂, -, -, h⟩ := Attempt.course_lift h
    cases h.of_done.2
  split at h
  · cases h.of_done.2
  split at h
  · rename_i hn
    cases h.of_done.2
    rw [hn]
    rfl
  obtain ⟨reply, es₁, es₂, -, -, h⟩ := Attempt.course_lift h
  cases reply with
  | failed errno =>
    simp only [accept] at h
    split at h
    · obtain ⟨-, es₃, es₄, -, -, h⟩ := Attempt.course_lift h
      cases h.of_done.2
    · cases h.of_done.2
  | copied read =>
    simp only [accept] at h
    split at h
    · cases h.of_done.2
    · rename_i hlen
      cases h.of_done.2
      rw [List.length_take]
      omega

theorem Walker.course_readStruct {w : Walker} {base : Address} {kind : StructKind}
    {es : List Event} {s : Snapshot} (h : (w.readStruct base kind).run.Course es (.ok (.ok s))) :
    s.layout = w.layout ∧ s.kind = kind ∧ s.span = w.layout.span kind ∧
      s.bytes.length = s.span.size.toNat := by
  unfold readStruct at h
  simp only at h
  split at h
  · cases h.of_done.2
  rcases Attempt.course_ofExcept h with ⟨e, -, he⟩ | ⟨address, -, h⟩
  · cases he
  rcases Attempt.course_bind h with ⟨e, -, he⟩ | ⟨bytes, es₁, es₂, -, hb, h⟩
  · cases he
  cases h.of_done.2
  exact ⟨rfl, rfl, rfl, Memory.length_of_fetchAll hb⟩

def StillMemory.zeros : StillMemory := fun _ n => .copied (List.replicate n.toNat 0)

namespace Snapshot

/-- In a copy that was read, a member that is decoded lies in the copied bytes exactly when the
sum of its position and its width is a word. -/
theorem inside_iff {w : Walker} {base : Address} {kind : StructKind} {es : List Event}
    {s : Snapshot} {field : Field} {spec : FieldSpec}
    (hs : (w.readStruct base kind).run.Course es (.ok (.ok s))) (hd : s.Decodes field spec) :
    s.Inside spec ↔ s.position spec + spec.width.toNat < UInt64.size := by
  obtain ⟨-, -, -, hlen⟩ := Walker.course_readStruct hs
  have hsize : s.span.size.toNat < UInt64.size := s.span.size.toNat_lt
  have hword : UInt64.size = 18446744073709551616 := rfl
  -- The copy is shorter than a word can say, so its length is compared as it is.
  have hbytes : (UInt64.ofNat s.bytes.length).toNat = s.bytes.length :=
    Nat.mod_eq_of_lt (by omega)
  have hsum : (spec.offset - s.span.start + spec.width.toUInt64).toNat =
      (s.position spec + spec.width.toNat) % UInt64.size := by
    rw [UInt64.toNat_add, position_eq hd.start, UInt32.toNat_toUInt64]
  have hstop := UInt64.le_iff_toNat_le.mp hd.stop
  rw [hbytes, hsum] at hstop
  constructor
  · intro hi
    have hle := hi.2
    omega
  · intro hw
    rw [Nat.mod_eq_of_lt hw] at hstop
    exact ⟨UInt64.le_iff_toNat_le.mp hd.start, hstop⟩

def emptyBytes : Snapshot :=
  ⟨.builtin .v311, .bytes, 0x1000, ⟨16, 24⟩, List.replicate 8 0⟩

theorem inside_iff_emptyBytes :
    (∃ es, ((⟨.builtin .v311, .standard⟩ : Walker).readStruct 0x1000 .bytes).run.Course es
      (.ok (.ok emptyBytes))) ∧
      emptyBytes.Decodes .bytesSize (.signedAt 16 8) ∧
      (emptyBytes.Inside (.signedAt 16 8) ↔ 0 + 8 < UInt64.size) := by
  have hd : emptyBytes.Decodes .bytesSize (.signedAt 16 8) :=
    ⟨rfl, rfl, rfl, by decide, by decide, by decide⟩
  obtain ⟨es, hs⟩ := Probe.course_of_run StillMemory.zeros.target
    ((⟨.builtin .v311, .standard⟩ : Walker).readStruct 0x1000 .bytes).run ()
  exact ⟨⟨es, hs⟩, hd, inside_iff hs hd⟩

/-- A thread id of two bytes, the first of which is the last one that an offset can name. -/
def lastOffset : FieldSpec := .unsignedAt 0xFFFFFFFFFFFFFFFF 2

def wrapped : Walker := ⟨(Layout.builtin .v33).set .threadId lastOffset, .standard⟩

def wrappedThread : Snapshot :=
  ⟨wrapped.layout, .threadState, 0x1000, ⟨0, 24⟩, List.replicate 24 0⟩

/-- The layout is accepted and the thread id is decoded, but none of its bytes is in the copy. -/
theorem decodes_outside :
    wrapped.layout.validate = .ok () ∧
      ((wrapped.readStruct 0x1000 .threadState).run.run StillMemory.zeros.target ()).1 =
        .ok (.ok wrappedThread) ∧
      wrappedThread.Decodes .threadId lastOffset ∧ wrappedThread.raw .threadId = .ok 0 ∧
      ¬ wrappedThread.Inside lastOffset := by
  refine ⟨rfl, rfl, ?_, rfl, by decide⟩
  exact ⟨rfl, rfl, rfl, by decide, by decide, by decide⟩

end Snapshot
end StackPeek
