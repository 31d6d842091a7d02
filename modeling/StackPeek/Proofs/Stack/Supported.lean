import StackPeek.Layout.Builtin
import StackPeek.Layout.Validate
import StackPeek.Member.Read
import StackPeek.Proofs.Probe.Ensures
import StackPeek.Stack.Walk

/-!
# Walks with a layout that has what they need

A walk can end in a fault only where the layout lacks a member or a whole structure. With a
layout that has the members sampling needs, and something to copy for frames and code objects,
no walk does, whatever the target answers (`walk_ensures`).
-/

namespace StackPeek

/-- The layout has all members that sampling needs, and they are copied from somewhere. -/
structure Layout.Supports (l : Layout) : Prop where
  member : ∀ f ∈ l.required, (l.spec? f).isSome
  frame : (l.span .frame).size ≠ 0
  code : (l.span .code).size ≠ 0

theorem Layout.builtin_supports (id : LayoutId) : (Layout.builtin id).Supports := by
  cases id <;> exact ⟨by decide, by decide, by decide⟩

theorem Layout.Supports.always {l : Layout} (hl : l.Supports) {f : Field}
    (h : f ∈ Layout.alwaysRequired) : (l.spec? f).isSome :=
  hl.member f (List.mem_append_left _ (List.mem_append_left _ h))

theorem Address.described_plus? (base offset : UInt64) : Described (Address.plus? base offset) := by
  unfold Address.plus?
  split
  · nofun
  · split <;> nofun

namespace Snapshot
variable {s : Snapshot} {f : Field}

theorem described_raw (h : (s.layout.spec? f).isSome) : Described (s.raw f) := by
  obtain ⟨spec, hs⟩ := Option.isSome_iff_exists.mp h
  unfold raw
  simp only [hs]
  split
  · nofun
  split
  · exact Address.described_plus? _ _
  split
  · nofun
  unfold FieldSpec.decode
  split
  · nofun
  split
  · split <;> nofun
  · nofun

theorem described_pointer (h : (s.layout.spec? f).isSome) : Described (s.pointer f) := by
  have hr := described_raw h
  obtain ⟨spec, hs⟩ := Option.isSome_iff_exists.mp h
  unfold pointer unsigned
  cases hraw : s.raw f with
  | error e =>
    rw [hraw] at hr
    exact fun he => hr (by cases he; rfl)
  | ok raw =>
    rw [hs]
    change Described (spec.toUnsigned raw)
    unfold FieldSpec.toUnsigned
    split <;> nofun

theorem described_signed (h : (s.layout.spec? f).isSome) : Described (s.signed f) := by
  have hr := described_raw h
  obtain ⟨spec, hs⟩ := Option.isSome_iff_exists.mp h
  unfold signed
  cases hraw : s.raw f with
  | error e =>
    rw [hraw] at hr
    exact fun he => hr (by cases he; rfl)
  | ok raw =>
    rw [hs]
    change Described (spec.toSigned raw)
    unfold FieldSpec.toSigned
    split
    · nofun
    · split <;> nofun

end Snapshot

theorem Memory.plain_fetchAll (a : Address) (n : UInt64) : (Memory.fetchAll a n).Plain := by
  unfold fetchAll
  split
  · exact (Attempt.plain_lift (Probe.ensures_report _ _)).bind fun _ => Attempt.plain_throw nofun
  split
  · exact Attempt.plain_throw nofun
  split
  · exact Attempt.plain_pure _
  apply (Attempt.plain_lift (Probe.ensures_fetch a n)).bind
  intro reply
  cases reply with
  | failed errno =>
    simp only [accept]
    split
    · exact (Attempt.plain_lift (Probe.ensures_report _ _)).bind fun _ =>
        Attempt.plain_throw nofun
    · exact Attempt.plain_throw nofun
  | copied bytes =>
    simp only [accept]
    split
    · exact Attempt.plain_throw nofun
    · exact Attempt.plain_pure _

namespace Walker
variable {w : Walker}

theorem demand_described {α : Type} {r : Except ReadError α} (h : Described r) (field : Field) :
    w.demand field r = .done () := by
  unfold demand
  split
  · exact absurd rfl h
  · rfl

theorem ensures_demand {α : Type} {r : Except ReadError α} (h : Described r) (field : Field) :
    (w.demand field r).Ensures fun _ => True := by
  rw [demand_described h]
  exact .done trivial

theorem ensures_readStruct {kind : StructKind} (h : (w.layout.span kind).size ≠ 0)
    (base : Address) :
    (w.readStruct base kind).run.Ensures fun r =>
      Described r ∧ ∀ s, r = .ok s → s.layout = w.layout := by
  have failed : ∀ {α : Type} {e : ReadError}, Described (.error e : Except ReadError α) →
      Described (.error e : Except ReadError Snapshot) ∧
        ∀ s : Snapshot, (.error e : Except ReadError Snapshot) = .ok s → s.layout = w.layout :=
    fun he => ⟨fun hu => he (by cases hu; rfl), fun s hs => by cases hs⟩
  unfold readStruct
  simp only [if_neg h]
  refine Attempt.ensures_bind (Attempt.plain_ofExcept (Address.described_plus? _ _))
    (fun _ he => failed he) fun address _ => ?_
  apply Attempt.ensures_bind (Memory.plain_fetchAll _ _) (fun _ he => failed he)
  intro bytes _
  refine .done ⟨nofun, ?_⟩
  rintro s ⟨⟩
  rfl

theorem demandRead_eq {α : Type} {x : Attempt α} (h : x.Plain) (field : Field) :
    w.demandRead field x = x := by
  apply ExceptT.ext
  have hd : x.run.bind (fun r => (w.demand field r).bind fun _ => .done r) = x.run.bind .done :=
    Probe.Ensures.bind_congr h fun r hr => by rw [demand_described hr, Probe.done_bind]
  exact hd.trans (Probe.bind_done _)

theorem plain_readStruct {kind : StructKind} (h : (w.layout.span kind).size ≠ 0)
    (base : Address) : (w.readStruct base kind).Plain :=
  (ensures_readStruct h base).mono fun _ hr => hr.1

theorem plain_readStruct_bind {α : Type} {kind : StructKind} (h : (w.layout.span kind).size ≠ 0)
    (base : Address) {f : Snapshot → Attempt α} (hf : ∀ s, s.layout = w.layout → (f s).Plain) :
    (w.readStruct base kind >>= f).Plain := by
  refine Attempt.ensures_bind (ensures_readStruct h base) ?_ fun s hs => hf s (hs.2 s rfl)
  exact fun e he hu => he.1 (by cases hu; rfl)

theorem plain_demandRead {α : Type} {kind : StructKind} (h : (w.layout.span kind).size ≠ 0)
    (base : Address) (field : Field) {f : Snapshot → Attempt α}
    (hf : ∀ s, s.layout = w.layout → (f s).Plain) :
    (w.demandRead field (w.readStruct base kind) >>= f).Plain := by
  rw [demandRead_eq (plain_readStruct h base)]
  exact plain_readStruct_bind h base hf

theorem plain_demand {α β : Type} {r : Except ReadError α} (h : Described r) (field : Field)
    {f : Unit → Attempt β} (hf : (f ()).Plain) :
    ((liftM (w.demand field r) : Attempt Unit) >>= f).Plain :=
  (Attempt.plain_lift (ensures_demand h field)).bind fun _ => hf

theorem plain_instructionOffset (hl : w.layout.Supports) {s : Snapshot} (hs : s.layout = w.layout)
    (code : Address) : (w.instructionOffset s code).Plain := by
  have hm := hl.member
  unfold Layout.required at hm
  unfold instructionOffset
  cases hi : w.layout.instruction with
  | lastiBytes =>
    have hd : Described (s.signed .frameLasti) :=
      Snapshot.described_signed (by rw [hs]; exact hm _ (by simp [hi]))
    exact plain_demand hd _ (Attempt.plain_ofExcept hd)
  | lastiCodeUnits =>
    have hd : Described (s.signed .frameLasti) :=
      Snapshot.described_signed (by rw [hs]; exact hm _ (by simp [hi]))
    exact plain_demand hd _ ((Attempt.plain_ofExcept hd).bind fun _ => Attempt.plain_pure _)
  | prevInstrPointer =>
    have hd : Described (s.pointer .framePrevInstr) :=
      Snapshot.described_pointer (by rw [hs]; exact hm _ (by simp [hi]))
    obtain ⟨spec, hspec⟩ := Option.isSome_iff_exists.mp (hm .codeBytecode (by simp [hi]))
    refine plain_demand hd _ ((Attempt.plain_ofExcept hd).bind fun _ => ?_)
    simp only [hspec]
    exact Attempt.plain_pure _

theorem plain_readFrame (hl : w.layout.Supports) (frame : Address) : (w.readFrame frame).Plain := by
  apply plain_demandRead hl.frame frame _
  intro s hs
  have hb : Described (s.pointer .frameBack) :=
    Snapshot.described_pointer (by rw [hs]; exact hl.always (by decide))
  have hc : Described (s.pointer .frameCode) :=
    Snapshot.described_pointer (by rw [hs]; exact hl.always (by decide))
  refine plain_demand hb _ (plain_demand hc _ ?_)
  apply (Attempt.plain_ofExcept hb).bind
  intro back
  apply (Attempt.plain_ofExcept hc).bind
  intro code
  exact (plain_instructionOffset hl hs code).bind fun offset => Attempt.plain_pure _

theorem plain_readCode (hl : w.layout.Supports) (code : Address) : (w.readCode code).Plain := by
  apply plain_demandRead hl.code code _
  intro s hs
  have hn : Described (s.pointer .codeName) :=
    Snapshot.described_pointer (by rw [hs]; exact hl.always (by decide))
  have hf : Described (s.pointer .codeFilename) :=
    Snapshot.described_pointer (by rw [hs]; exact hl.always (by decide))
  have hi : Described (s.signed .codeFirstLine) :=
    Snapshot.described_signed (by rw [hs]; exact hl.always (by decide))
  have ht : Described (s.pointer .codeLineTable) :=
    Snapshot.described_pointer (by rw [hs]; exact hl.always (by decide))
  refine plain_demand hn _ (plain_demand hf _ (plain_demand hi _ (plain_demand ht _ ?_)))
  split
  · split
    · exact Attempt.plain_pure _
    · rename_i e he
      refine Attempt.plain_throw ?_
      rintro rfl
      exact hi he
  · exact Attempt.plain_throw nofun

theorem faultless_readStruct (base : Address) (kind : StructKind) :
    (w.readStruct base kind).Faultless := by
  unfold readStruct
  simp only
  split
  · exact Attempt.faultless_throw _
  apply (Attempt.faultless_ofExcept _).bind
  intro address
  exact (Memory.plain_fetchAll _ _).faultless.bind fun bytes => Attempt.faultless_pure _

theorem plain_decodeUnits (data : Address) (count kind : UInt64) :
    (decodeUnits data count kind).Plain := by
  unfold decodeUnits
  split
  · exact Attempt.plain_throw nofun
  · exact (Memory.plain_fetchAll _ _).bind fun bytes => Attempt.plain_pure _

theorem plain_decodeCachedUtf8 (data : Address) (length : Int64) :
    (w.decodeCachedUtf8 data length).Plain := by
  unfold decodeCachedUtf8
  split
  · exact Attempt.plain_throw nofun
  · exact (Memory.plain_fetchAll _ _).bind fun bytes => Attempt.plain_pure _

theorem plain_cutLength (address : Address) (length : UInt64) :
    (w.cutLength address length).Plain := by
  unfold cutLength
  simp only
  split
  · exact (Attempt.plain_lift (Probe.ensures_report _ _)).bind fun _ => Attempt.plain_pure _
  · exact Attempt.plain_pure _

theorem faultless_decodeNotReady (header : Snapshot) (count : UInt64) :
    (w.decodeNotReady header count).Faultless := by
  apply (faultless_readStruct _ _).bind
  intro extra
  split
  · exact (plain_decodeCachedUtf8 _ _).faultless
  · simp only
    split
    · exact (plain_decodeUnits _ _ _).faultless
    · exact (Attempt.faultless_ofExcept _).bind fun data => (plain_decodeUnits _ _ _).faultless

theorem faultless_decodeSeparate (address : Address) (count kind : UInt64) :
    (w.decodeSeparate address count kind).Faultless := by
  apply (faultless_readStruct _ _).bind
  intro extra
  apply (Attempt.faultless_ofExcept _).bind
  intro data
  split
  · exact (plain_decodeUnits _ _ _).faultless
  · split
    · exact (plain_decodeCachedUtf8 _ _).faultless
    · exact Attempt.faultless_throw _

theorem faultless_decodeText (address : Address) : (w.decodeText address).Faultless := by
  unfold decodeText
  split
  · exact Attempt.faultless_throw _
  apply (faultless_readStruct _ _).bind
  intro header
  apply (Attempt.faultless_ofExcept _).bind
  intro kind
  apply (Attempt.faultless_ofExcept _).bind
  intro compact
  apply (Attempt.faultless_ofExcept _).bind
  intro ascii
  apply (Attempt.faultless_ofExcept _).bind
  intro ready
  apply (Attempt.faultless_ofExcept _).bind
  intro length
  split
  · exact Attempt.faultless_throw _
  apply (plain_cutLength _ _).faultless.bind
  intro count
  split
  · exact faultless_decodeNotReady _ _
  split
  · exact faultless_decodeSeparate _ _ _
  split
  · exact (Attempt.faultless_ofExcept _).bind fun data => (plain_decodeUnits _ _ _).faultless
  · exact (Attempt.faultless_ofExcept _).bind fun data => (plain_decodeUnits _ _ _).faultless

theorem faultless_decodeBytes (address : Address) (limit : UInt64) :
    (w.decodeBytes address limit).Faultless := by
  unfold decodeBytes
  split
  · exact Attempt.faultless_throw _
  apply (faultless_readStruct _ _).bind
  intro header
  apply (Attempt.faultless_ofExcept _).bind
  intro size
  split
  · exact Attempt.faultless_throw _
  split
  · exact (Attempt.plain_lift (Probe.ensures_report _ _)).faultless.bind fun _ =>
      Attempt.faultless_throw _
  · exact (Attempt.faultless_ofExcept _).bind fun data => (Memory.plain_fetchAll _ _).faultless

theorem faultless_readField (base : Address) (field : Field) :
    (w.readField base field).Faultless := by
  unfold readField
  split
  · exact Attempt.faultless_throw _
  apply (Attempt.faultless_ofExcept _).bind
  intro address
  split
  · exact Attempt.faultless_pure _
  apply (Memory.plain_fetchAll _ _).faultless.bind
  intro bytes
  unfold valueOf
  split
  · exact Attempt.faultless_pure _
  apply (Attempt.faultless_ofExcept _).bind
  intro raw
  split
  · exact Attempt.faultless_pure _
  · exact (faultless_decodeText raw).bind fun text => Attempt.faultless_pure _
  · exact Attempt.faultless_pure _

theorem faultless_readUnsigned (base : Address) (field : Field) :
    (w.readUnsigned base field).Faultless :=
  (faultless_readField base field).bind fun _ => Attempt.faultless_ofExcept _

theorem ensures_resolveName (address : Address) :
    (w.resolveName address).Ensures fun _ => True := by
  apply Probe.Ensures.bind (faultless_decodeText address)
  intro r _
  cases r <;> exact .done trivial

theorem ensures_lineAt (t : LineTable) (offset : Int64) :
    (t.lineAt offset).Ensures fun _ => True := by
  unfold LineTable.lineAt
  split
  · exact .done trivial
  · exact (Probe.ensures_report _ _).bind fun _ _ => .done trivial

theorem ensures_resolveLine (code : CodeHandle) (offset : Int64) :
    (w.resolveLine code offset).Ensures fun _ => True := by
  unfold resolveLine
  split
  · exact .done trivial
  apply Probe.Ensures.bind (faultless_decodeBytes _ _)
  intro r _
  cases r with
  | error e => exact (Probe.ensures_report _ _).bind fun _ _ => .done trivial
  | ok data => exact (ensures_lineAt _ _).bind fun _ _ => .done trivial

theorem ensures_locate (code : CodeHandle) (offset : Int64) :
    (w.locate code offset).Ensures fun _ => True := by
  apply (ensures_resolveName _).bind
  intro function _
  apply (ensures_resolveName _).bind
  intro file _
  exact (ensures_resolveLine _ _).bind fun line _ => .done trivial

theorem ensures_resolveFrame (hl : w.layout.Supports) (frame : FrameHandle) (depth : Nat) :
    (w.resolveFrame frame depth).Ensures fun _ => True := by
  have hr : (w.resolve frame.code frame.instructionOffset).Faultless :=
    (plain_readCode hl _).faultless.bind fun code =>
      (Attempt.plain_lift (ensures_locate code _)).faultless
  refine Probe.Ensures.bind hr fun r _ => ?_
  cases r <;> exact .done trivial

theorem ensures_walkFrom (hl : w.layout.Supports) (threadId : UInt64) (room : Nat)
    (address : Address) (t : Trail) :
    (w.walkFrom threadId room address t).Ensures fun _ => True := by
  induction room generalizing address t with
  | zero =>
    unfold walkFrom
    split
    · exact .done trivial
    apply Probe.ensures_cancelled.bind
    intro flag _
    split
    · exact .done trivial
    · exact (Probe.ensures_report _ _).bind fun _ _ => .done trivial
  | succ room ih =>
    unfold walkFrom
    split
    · exact .done trivial
    apply Probe.ensures_cancelled.bind
    intro flag _
    split
    · exact .done trivial
    simp only
    split
    · exact (Probe.ensures_report _ _).bind fun _ _ => .done trivial
    apply Probe.Ensures.bind (plain_readFrame hl address).faultless
    intro r _
    cases r with
    | error e => exact (Probe.ensures_report _ _).bind fun _ _ => .done trivial
    | ok frame => exact (ensures_resolveFrame hl frame _).bind fun _ _ => ih _ _

/-- With a layout that has what it needs, no walk ends in a fault. -/
theorem walk_ensures (hl : w.layout.Supports) (thread : ThreadHandle) :
    (w.walk thread).Ensures fun _ => True :=
  (ensures_walkFrom hl _ _ _ _).bind fun _ _ => .done trivial

end Walker
end StackPeek
