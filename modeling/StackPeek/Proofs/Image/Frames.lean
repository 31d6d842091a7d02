import StackPeek.Proofs.Image.Objects
import StackPeek.Stack.Walk

/-!
# Code objects and frames in memory

A `CodeImage` is what a code object says about itself, and a `FrameImage` is a frame that runs
one, at a position in its bytecode. `StillMemory.FrameAt` says that memory holds the frame as
the build lays it out. Reading such a frame and resolving its code object gives the image back:
function and file as they are, and the line that the line table has for the position.
-/

namespace StackPeek

structure CodeImage where
  function : Text
  file : Text
  firstLine : Int32
  table : List UInt8

structure FrameImage where
  address : Address
  codeAddress : Address
  code : CodeImage
  offset : Int64

namespace CodeImage

structure Within (c : CodeImage) (o : Options) : Prop where
  function_limit : c.function.octets.length ≤ o.maxStringLength.toNat
  function_max : c.function.octets.length ≤ Memory.maxRawRead.toNat
  file_limit : c.file.octets.length ≤ o.maxStringLength.toNat
  file_max : c.file.octets.length ≤ Memory.maxRawRead.toNat
  table_max : c.table.length ≤ LineTable.maxSize.toNat

def line (c : CodeImage) (format : LineTableFormat) (offset : Int64) : Int32 :=
  ((⟨format, c.firstLine, c.table⟩ : LineTable).lookup offset).1

end CodeImage

namespace Layout

def bytecode (l : Layout) (code : Address) : Address :=
  code + ((l.spec? .codeBytecode).map FieldSpec.offset).getD 0

def storedIndex (index : Int) : UInt64 := (Int32.ofInt index).toUInt32.toUInt64

/-- What a frame stores for a position in the bytecode of `code`, and in which member. A
position below zero means that no instruction has run. -/
def storedPosition (l : Layout) (code : Address) (offset : Int64) : Field × UInt64 :=
  match l.instruction with
  | .lastiBytes => (.frameLasti, storedIndex offset.toInt)
  | .lastiCodeUnits =>
    (.frameLasti, storedIndex (if offset < 0 then -1 else offset.toInt / 2))
  | .prevInstrPointer =>
    (.framePrevInstr,
      if offset < 0 then l.bytecode code - 2 else l.bytecode code + offset.toUInt64)

/-- The build can store the position without loss. -/
def Representable (l : Layout) (code : Address) (offset : Int64) : Prop :=
  match l.instruction with
  | .lastiBytes =>
    Int32.minValue.toInt ≤ offset.toInt ∧ offset.toInt ≤ Int32.maxValue.toInt
  | .lastiCodeUnits =>
    offset = -1 ∨ (0 ≤ offset.toInt ∧ offset.toInt % 2 = 0 ∧
      offset.toInt / 2 ≤ Int32.maxValue.toInt)
  | .prevInstrPointer =>
    (l.bytecode code ≠ 0 ∧ 0 ≤ offset.toInt ∧
      (l.bytecode code).toNat + offset.toInt < UInt64.size) ∨
    (l.bytecode code ≠ 2 ∧ offset = -2)

instance (l : Layout) (code : Address) (offset : Int64) :
    Decidable (l.Representable code offset) := by
  unfold Representable
  cases l.instruction <;> infer_instance

end Layout

namespace StillMemory

structure CodeAt (m : StillMemory) (l : Layout) (a : Address) (c : CodeImage) : Prop where
  stored : ∃ name filename table bytes,
    m.Object l .code a
      [(.codeName, name), (.codeFilename, filename),
        (.codeFirstLine, c.firstLine.toUInt32.toUInt64), (.codeLineTable, table)] bytes ∧
    m.StringAt l name c.function ∧ m.StringAt l filename c.file ∧ m.BytesAt l table c.table

/-- Memory holds the frame and its code object, and `back` is the address of its caller. -/
structure FrameAt (m : StillMemory) (l : Layout) (f : FrameImage) (back : Address) : Prop where
  stored : ∃ bytes, m.Object l .frame f.address
    [(.frameBack, back), (.frameCode, f.codeAddress), l.storedPosition f.codeAddress f.offset] bytes
  code : m.CodeAt l f.codeAddress f.code
  position : l.Representable f.codeAddress f.offset

end StillMemory

namespace Walker
variable {w : Walker} {m : StillMemory} {a : Address}

theorem outcome_demand_bind {α β : Type} {field : Field} (x : α) (f : Unit → Attempt β) :
    ((liftM (w.demand field (.ok x)) : Attempt Unit) >>= f).outcome m = (f ()).outcome m := by
  apply Attempt.outcome_bind_ok
  rw [Attempt.outcome_lift]
  rfl

theorem outcome_demandRead {α : Type} {field : Field} {x : Attempt α} {v : α}
    (h : x.outcome m = .ok (.ok v)) : (w.demandRead field x).outcome m = .ok (.ok v) := by
  refine (Probe.outcome_bind_ok h _).trans ?_
  rfl

theorem outcome_readCode (hl : w.layout.Usual) {c : CodeImage} {name filename table : Address}
    {bytes : List UInt8}
    (h : m.Object w.layout .code a
      [(.codeName, name), (.codeFilename, filename),
        (.codeFirstLine, c.firstLine.toUInt32.toUInt64), (.codeLineTable, table)] bytes) :
    (w.readCode a).outcome m = .ok (.ok ⟨a, name, filename, c.firstLine, table⟩) := by
  have hread := h.outcome_readStruct hl (f := .codeName) (v := name) (by simp) nofun
  have hname := h.unsigned hl (f := .codeName) (v := name) (by simp) (.inr (.inl rfl))
  have hfile := h.unsigned hl (f := .codeFilename) (v := filename) (by simp) (.inr (.inl rfl))
  have hline := h.signed_int32 hl (f := .codeFirstLine) (i := c.firstLine) (by simp) rfl
  have htable := h.unsigned hl (f := .codeLineTable) (v := table) (by simp) (.inl rfl)
  unfold readCode
  rw [Attempt.outcome_bind_ok (outcome_demandRead hread)]
  unfold codeHandle Snapshot.pointer
  simp only [hname, hfile, hline, htable]
  rw [outcome_demand_bind, outcome_demand_bind, outcome_demand_bind, outcome_demand_bind,
    Int32.toInt32_toInt64]
  rfl

theorem signed_storedIndex {index : Int}
    (h : Int32.minValue.toInt ≤ index ∧ index ≤ Int32.maxValue.toInt) :
    (Int32.ofInt index).toInt64 = Int64.ofInt index := Int32.toInt64_ofInt h.1 h.2

theorem unitsToBytes_half {offset : Int64} (h : offset = -1 ∨
      (0 ≤ offset.toInt ∧ offset.toInt % 2 = 0 ∧ offset.toInt / 2 ≤ Int32.maxValue.toInt)) :
    unitsToBytes (Int32.ofInt (if offset < 0 then -1 else offset.toInt / 2)).toInt64 = offset := by
  rcases h with rfl | ⟨hpos, heven, hlt⟩
  · rfl
  · have hneg : ¬ offset < 0 := by
      rw [Int64.lt_iff_toInt_lt, Int64.toInt_zero]
      omega
    have hmin : Int32.minValue.toInt = -2147483648 := rfl
    have hmax : Int32.maxValue.toInt = 2147483647 := rfl
    rw [if_neg hneg, signed_storedIndex ⟨by omega, hlt⟩]
    have hback : Int64.ofInt (offset.toInt / 2) * 2 = offset := by
      have h2 : (2 : Int64) = Int64.ofInt 2 := rfl
      rw [h2, ← Int64.ofInt_mul, Int.ediv_mul_cancel (Int.dvd_of_emod_eq_zero heven),
        Int64.ofInt_toInt]
    unfold unitsToBytes
    split
    · exact hback
    · rename_i hle
      rw [Int64.lt_iff_toInt_lt, Int64.toInt_zero, Int64.toInt_ofInt_of_le (by omega) (by omega)]
        at hle
      have hzero : offset.toInt / 2 = 0 := by omega
      rw [hzero] at hback ⊢
      exact hback

theorem pointerToBytes_add {code start : Address} {offset : Int64} (hc : code ≠ 0)
    {shift : UInt64} (hs : start = code + shift) (h0 : start + offset.toUInt64 ≠ 0) :
    pointerToBytes code shift (start + offset.toUInt64) = offset := by
  unfold pointerToBytes
  rw [if_neg (not_or.mpr ⟨h0, hc⟩), ← hs, UInt64.add_comm, UInt64.add_sub_cancel,
    Int64.toInt64_toUInt64]

theorem pointerToBytes_stored {code start : Address} {offset : Int64} (hc : code ≠ 0)
    {shift : UInt64} (hs : start = code + shift)
    (h : (start ≠ 0 ∧ 0 ≤ offset.toInt ∧ start.toNat + offset.toInt < UInt64.size) ∨
      (start ≠ 2 ∧ offset = -2)) :
    pointerToBytes code shift (if offset < 0 then start - 2 else start + offset.toUInt64) =
      offset := by
  rcases h with ⟨hn, hpos, hlt⟩ | ⟨hn, rfl⟩
  · have hneg : ¬ offset < 0 := by
      rw [Int64.lt_iff_toInt_lt, Int64.toInt_zero]
      omega
    rw [if_neg hneg]
    refine pointerToBytes_add hc hs fun h0 => hn ?_
    have hle : (0 : Int64) ≤ offset := Int64.le_iff_toInt_le.mpr hpos
    have hoffset : offset.toUInt64.toNat = offset.toInt.toNat := Int64.toNat_toUInt64_of_le hle
    have hlt : start.toNat + offset.toInt < 18446744073709551616 := hlt
    have hsum := congrArg UInt64.toNat h0
    rw [UInt64.toNat_add, hoffset, Nat.mod_eq_of_lt (by omega), UInt64.toNat_zero] at hsum
    exact UInt64.toNat_inj.mp (by rw [UInt64.toNat_zero]; omega)
  · have hsub : start - 2 = start + (-2 : Int64).toUInt64 := by
      rw [UInt64.sub_eq_add_neg]
      rfl
    rw [if_pos (by decide), hsub]
    refine pointerToBytes_add hc hs fun h0 => hn ?_
    rw [← hsub, UInt64.sub_eq_iff_eq_add, UInt64.zero_add] at h0
    exact h0

theorem outcome_instructionOffset (hl : w.layout.Usual) {members : List (Field × UInt64)}
    {bytes : List UInt8} {code : Address} {offset : Int64} (hc : code ≠ 0)
    (h : m.Object w.layout .frame a members bytes)
    (hm : w.layout.storedPosition code offset ∈ members)
    (hr : w.layout.Representable code offset) :
    (w.instructionOffset (w.layout.copy .frame a bytes) code).outcome m = .ok (.ok offset) := by
  unfold Layout.storedPosition at hm
  unfold Layout.Representable at hr
  unfold instructionOffset
  cases he : w.layout.instruction with
  | lastiBytes =>
    simp only [he] at hm hr ⊢
    rw [h.signed_int32 hl hm rfl, signed_storedIndex hr, Int64.ofInt_toInt, outcome_demand_bind]
    rfl
  | lastiCodeUnits =>
    simp only [he] at hm hr ⊢
    rw [h.signed_int32 hl hm rfl, outcome_demand_bind, Attempt.outcome_ok_bind,
      unitsToBytes_half hr]
    rfl
  | prevInstrPointer =>
    simp only [he] at hm hr ⊢
    have hb : Field.codeBytecode ∈ w.layout.required := by
      unfold Layout.required
      rw [he]
      simp
    obtain ⟨spec, hspec⟩ := Option.isSome_iff_exists.mp (hl.member _ hb)
    have hstart : w.layout.bytecode code = code + spec.offset := by
      unfold Layout.bytecode
      rw [hspec]
      rfl
    unfold Snapshot.pointer
    rw [h.unsigned hl hm (.inl rfl), outcome_demand_bind, Attempt.outcome_ok_bind, hspec]
    simp only
    rw [pointerToBytes_stored hc hstart hr]
    rfl

theorem outcome_readFrame_object (hl : w.layout.Usual) {members : List (Field × UInt64)}
    {bytes : List UInt8} {back code : Address} {offset : Int64}
    (h : m.Object w.layout .frame a members bytes) (hback : (.frameBack, back) ∈ members)
    (hcode : (.frameCode, code) ∈ members)
    (hoffset : (w.instructionOffset (w.layout.copy .frame a bytes) code).outcome m =
      .ok (.ok offset)) :
    (w.readFrame a).outcome m = .ok (.ok ⟨a, back, code, offset⟩) := by
  have hread := h.outcome_readStruct hl hback nofun
  have hb := h.unsigned hl hback (.inl rfl)
  have hc := h.unsigned hl hcode (.inl rfl)
  unfold readFrame
  rw [Attempt.outcome_bind_ok (outcome_demandRead hread)]
  unfold frameHandle Snapshot.pointer
  simp only [hb, hc]
  rw [outcome_demand_bind, outcome_demand_bind, Attempt.outcome_ok_bind,
    Attempt.outcome_ok_bind, Attempt.outcome_bind_ok hoffset]
  rfl

theorem outcome_readFrame (hl : w.layout.Usual) {f : FrameImage} {back : Address}
    (h : m.FrameAt w.layout f back) :
    (w.readFrame f.address).outcome m = .ok (.ok ⟨f.address, back, f.codeAddress, f.offset⟩) := by
  obtain ⟨bytes, ho⟩ := h.stored
  obtain ⟨_, _, _, _, hcode, -⟩ := h.code.stored
  have hoffset := outcome_instructionOffset hl hcode.holds.nonnull ho (by simp) h.position
  exact outcome_readFrame_object hl ho (by simp) (by simp) hoffset

section Code
variable {c : CodeImage} {name filename table : Address} {offset : Int64}

theorem outcome_resolveName (hl : w.layout.Usual) {text : Text} (h : m.StringAt w.layout name text)
    (hlimit : text.octets.length ≤ w.options.maxStringLength.toNat)
    (hmax : text.octets.length ≤ Memory.maxRawRead.toNat) :
    (w.resolveName name).outcome m = .ok (text, true) :=
  (Probe.outcome_bind_ok (outcome_decodeText hl h hlimit hmax) _).trans rfl

theorem outcome_lineAt (t : LineTable) :
    (t.lineAt offset).outcome m = .ok (t.lookup offset).1 := by
  unfold LineTable.lineAt
  split
  · rename_i line hl
    rw [hl]
    rfl
  · rename_i line damage hl
    rw [hl]
    rfl

theorem outcome_resolveLine (hl : w.layout.Usual) (h : m.BytesAt w.layout table c.table)
    (hmax : c.table.length ≤ LineTable.maxSize.toNat) :
    (w.resolveLine ⟨a, name, filename, c.firstLine, table⟩ offset).outcome m =
      .ok (c.line w.layout.lineTable offset, true) := by
  unfold resolveLine CodeImage.line
  split
  · rename_i ho
    rw [LineTable.lookup_of_le_zero _ ho]
    rfl
  · have hraw : c.table.length ≤ Memory.maxRawRead.toNat := Nat.le_trans hmax (by decide)
    rw [Probe.bind_eq, Probe.outcome_bind_ok (outcome_decodeBytes hl h hmax hraw)]
    simp only [Probe.bind_eq]
    rw [Probe.outcome_bind_ok (outcome_lineAt _)]
    rfl

theorem outcome_resolve (hl : w.layout.Usual) (h : m.CodeAt w.layout a c)
    (hw : c.Within w.options) :
    (w.resolve a offset).outcome m =
      .ok (.ok ⟨c.function, c.file, c.line w.layout.lineTable offset, true⟩) := by
  obtain ⟨name, filename, table, bytes, ho, hname, hfile, htable⟩ := h.stored
  have hlocate : (w.locate ⟨a, name, filename, c.firstLine, table⟩ offset).outcome m =
      .ok ⟨c.function, c.file, c.line w.layout.lineTable offset, true⟩ := by
    unfold locate
    rw [Probe.bind_eq,
      Probe.outcome_bind_ok (outcome_resolveName hl hname hw.function_limit hw.function_max)]
    simp only [Probe.bind_eq]
    rw [Probe.outcome_bind_ok (outcome_resolveName hl hfile hw.file_limit hw.file_max),
      Probe.outcome_bind_ok (outcome_resolveLine hl htable hw.table_max)]
    rfl
  unfold resolve
  rw [Attempt.outcome_bind_ok (outcome_readCode hl ho), Attempt.outcome_lift, hlocate]
  rfl

end Code

end Walker
end StackPeek
