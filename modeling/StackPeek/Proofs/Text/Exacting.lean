import StackPeek.Proofs.Layout.Required

/-!
# Decoding text with a layout that describes it

The decoder of strings and bytes objects does not mind a member that the layout lacks: where it
can, it goes on without it. An exacting decoder ends the session instead, at the first call that
is answered with `unsupportedField`. With a layout that provides what sampling needs, the two
are the same (`exactingText_eq`, `exactingBytes_eq`), so no call of the decoder is answered that
way, not even one whose error it would have passed over.
-/

namespace StackPeek
variable {α β : Type}

namespace Walker
variable {w : Walker}

theorem demand_bind_eq {r : Except ReadError α} (h : Described r) (field : Field)
    (f : Unit → Attempt β) : ((liftM (w.demand field r) : Attempt Unit) >>= f) = f () := by
  rw [demand_described h]
  rfl

theorem lift_done_bind (a : α) (f : α → Attempt β) :
    ((liftM (Probe.done a) : Attempt α) >>= f) = f a := rfl

theorem described_fieldAddress {field : Field} (h : (w.layout.spec? field).isSome)
    (base : Address) : Described (w.fieldAddress base field) := by
  obtain ⟨spec, hs⟩ := Option.isSome_iff_exists.mp h
  unfold fieldAddress
  rw [hs]
  exact Address.described_plus? _ _

section
variable (hl : w.layout.Provides)
include hl

theorem described_inline {field : Field} (h : field ∈ Layout.alwaysRequired) (base : Address) :
    Described (w.fieldAddress base field) := described_fieldAddress (hl.always h) base

theorem described_copied {s : Snapshot} (hs : s.layout = w.layout) (field : Field)
    (h : field ∈ Layout.alwaysRequired) :
    Described (s.unsigned field) ∧ Described (s.signed field) := by
  have hsome : (s.layout.spec? field).isSome := by
    rw [hs]
    exact hl.always h
  exact ⟨Snapshot.described_pointer hsome, Snapshot.described_signed hsome⟩

theorem plain_decodeNotReady (header : Snapshot) (count : UInt64) :
    (w.decodeNotReady header count).Plain := by
  apply plain_readStruct_bind hl.compactString
  intro extra _
  split
  · exact plain_decodeCachedUtf8 _ _
  · simp only
    split
    · exact plain_decodeUnits _ _ _
    · exact (Attempt.plain_ofExcept (described_inline hl (by decide) _)).bind fun data =>
        plain_decodeUnits _ _ _

theorem plain_decodeSeparate (address : Address) (count kind : UInt64) :
    (w.decodeSeparate address count kind).Plain := by
  apply plain_readStruct_bind hl.compactString
  intro extra hs
  apply (Attempt.plain_ofExcept (described_copied hl hs _ (by decide)).1).bind
  intro data
  split
  · exact plain_decodeUnits _ _ _
  · split
    · exact plain_decodeCachedUtf8 _ _
    · exact Attempt.plain_throw nofun

theorem plain_decodeText (address : Address) : (w.decodeText address).Plain := by
  unfold decodeText
  split
  · exact Attempt.plain_throw nofun
  apply plain_readStruct_bind hl.string
  intro header hs
  have flag : ∀ {field : Field}, field ∈ Layout.alwaysRequired →
      (liftM (header.unsigned field) : Attempt UInt64).Plain := fun h =>
    Attempt.plain_ofExcept (described_copied hl hs _ h).1
  apply (flag (by decide)).bind
  intro kind
  apply (flag (by decide)).bind
  intro compact
  apply (flag (by decide)).bind
  intro ascii
  apply (flag (by decide)).bind
  intro ready
  apply (Attempt.plain_ofExcept (described_copied hl hs _ (by decide)).2).bind
  intro length
  split
  · exact Attempt.plain_throw nofun
  apply (plain_cutLength _ _).bind
  intro count
  split
  · exact plain_decodeNotReady hl _ _
  split
  · exact plain_decodeSeparate hl _ _ _
  split
  · exact (Attempt.plain_ofExcept (described_inline hl (by decide) _)).bind fun data =>
      plain_decodeUnits _ _ _
  · exact (Attempt.plain_ofExcept (described_inline hl (by decide) _)).bind fun data =>
      plain_decodeUnits _ _ _

theorem plain_decodeBytes (address : Address) (limit : UInt64) :
    (w.decodeBytes address limit).Plain := by
  unfold decodeBytes
  split
  · exact Attempt.plain_throw nofun
  apply plain_readStruct_bind hl.bytes
  intro header hs
  apply (Attempt.plain_ofExcept (described_copied hl hs _ (by decide)).2).bind
  intro size
  split
  · exact Attempt.plain_throw nofun
  split
  · exact (Attempt.plain_lift (Probe.ensures_report _ _)).bind fun _ => Attempt.plain_throw nofun
  · exact (Attempt.plain_ofExcept (described_inline hl (by decide) _)).bind fun data =>
      Memory.plain_fetchAll _ _

end

/-! ### The exacting decoder

The same steps, with a demand after every call. Where the decoder takes several members before
it looks at the first, all of them are demanded first. -/

def exactingCached (w : Walker) (extra : Snapshot) : Probe (Option (Address × Int64)) := do
  w.demand .stringUtf8 (extra.pointer .stringUtf8)
  w.demand .stringUtf8Length (extra.signed .stringUtf8Length)
  return cachedUtf8? extra

def exactingNotReady (w : Walker) (header : Snapshot) (count : UInt64) : Attempt Text := do
  let extra ← w.demandRead .stringUtf8 (w.readStruct header.address .compactString)
  match ← w.exactingCached extra with
  | some (data, length) => w.demandRead .stringUtf8 (w.decodeCachedUtf8 data length)
  | none =>
    w.demand .stringWide (header.pointer .stringWide)
    let wide := (header.pointer .stringWide).toOption.getD 0
    if wide ≠ 0 then
      w.demand .stringWideLength (extra.signed .stringWideLength)
      w.demandRead .stringWide (decodeUnits wide (w.wideCount extra count) 4)
    else
      w.demand .stringAsciiData (w.fieldAddress header.address .stringAsciiData)
      let data ← w.fieldAddress header.address .stringAsciiData
      w.demandRead .stringAsciiData (decodeUnits data count 1)

def exactingSeparate (w : Walker) (address : Address) (count kind : UInt64) : Attempt Text := do
  let extra ← w.demandRead .stringData (w.readStruct address .compactString)
  w.demand .stringData (extra.pointer .stringData)
  let data ← extra.pointer .stringData
  if data ≠ 0 then w.demandRead .stringData (decodeUnits data count kind)
  else match ← w.exactingCached extra with
    | some (data, length) => w.demandRead .stringUtf8 (w.decodeCachedUtf8 data length)
    | none => throw .unmapped

def exactingText (w : Walker) (address : Address) : Attempt Text :=
  if address = 0 then throw .unmapped
  else do
    let header ← w.demandRead .stringLength (w.readStruct address .string)
    w.demand .stringLength (header.signed .stringLength)
    w.demand .stringKind (header.unsigned .stringKind)
    w.demand .stringCompact (header.unsigned .stringCompact)
    w.demand .stringAscii (header.unsigned .stringAscii)
    w.demand .stringReady (header.unsigned .stringReady)
    let kind ← header.unsigned .stringKind
    let compact ← header.unsigned .stringCompact
    let ascii ← header.unsigned .stringAscii
    let ready ← header.unsigned .stringReady
    let length ← header.signed .stringLength
    if length < 0 then throw .outOfRange
    else do
      let count ← w.cutLength address length.toUInt64
      if ready = 0 then w.demandRead .stringReady (w.exactingNotReady header count)
      else if compact = 0 then w.exactingSeparate address count kind
      else if ascii ≠ 0 then do
        w.demand .stringAsciiData (w.fieldAddress address .stringAsciiData)
        let data ← w.fieldAddress address .stringAsciiData
        w.demandRead .stringAsciiData (decodeUnits data count 1)
      else do
        w.demand .stringCompactData (w.fieldAddress address .stringCompactData)
        let data ← w.fieldAddress address .stringCompactData
        w.demandRead .stringCompactData (decodeUnits data count kind)

def exactingBytes (w : Walker) (address : Address) (limit : UInt64) : Attempt (List UInt8) :=
  if address = 0 then throw .unmapped
  else do
    let header ← w.demandRead .bytesSize (w.readStruct address .bytes)
    w.demand .bytesSize (header.signed .bytesSize)
    let size ← header.signed .bytesSize
    if size < 0 then throw .outOfRange
    else if limit < size.toUInt64 then do
      Probe.report .info
        s!"Bytes object at {Numeral.address address} is {size} bytes, limit is {limit}"
      throw .outOfRange
    else do
      w.demand .bytesData (w.fieldAddress address .bytesData)
      let data ← w.fieldAddress address .bytesData
      w.demandRead .bytesData (Memory.fetchAll data size.toUInt64)

section
variable (hl : w.layout.Provides)
include hl

theorem exactingCached_eq {extra : Snapshot} (hs : extra.layout = w.layout) :
    w.exactingCached extra = .done (cachedUtf8? extra) := by
  have hdata : Described (extra.pointer .stringUtf8) := (described_copied hl hs _ (by decide)).1
  have hlength := (described_copied hl hs .stringUtf8Length (by decide)).2
  unfold exactingCached
  rw [demand_described hdata, demand_described hlength]
  rfl

theorem exactingNotReady_eq {header : Snapshot} (hh : header.layout = w.layout)
    (count : UInt64) : w.exactingNotReady header count = w.decodeNotReady header count := by
  unfold exactingNotReady decodeNotReady
  rw [demandRead_eq (plain_readStruct hl.compactString _)]
  apply Attempt.bind_congr (ensures_readStruct hl.compactString _)
  intro extra he
  have hs : extra.layout = w.layout := he.2 extra rfl
  have hwide : Described (header.pointer .stringWide) :=
    (described_copied hl hh _ (by decide)).1
  rw [exactingCached_eq hl hs, lift_done_bind]
  -- What comes next depends on the cached form, and only without one on the other buffers.
  cases cachedUtf8? extra with
  | some cached => exact demandRead_eq (plain_decodeCachedUtf8 _ _) _
  | none =>
    simp only [demand_bind_eq hwide]
    split
    · rw [demand_bind_eq (described_copied hl hs _ (by decide)).2]
      exact demandRead_eq (plain_decodeUnits _ _ _) _
    · rw [demand_bind_eq (described_inline hl (by decide) _)]
      simp only [demandRead_eq (plain_decodeUnits _ _ _)]

theorem exactingSeparate_eq (address : Address) (count kind : UInt64) :
    w.exactingSeparate address count kind = w.decodeSeparate address count kind := by
  unfold exactingSeparate decodeSeparate
  rw [demandRead_eq (plain_readStruct hl.compactString _)]
  apply Attempt.bind_congr (ensures_readStruct hl.compactString _)
  intro extra he
  have hs : extra.layout = w.layout := he.2 extra rfl
  have hdata : Described (extra.pointer .stringData) := (described_copied hl hs _ (by decide)).1
  rw [demand_bind_eq hdata, exactingCached_eq hl hs]
  refine congrArg (liftM (extra.pointer .stringData) >>= ·) (funext fun data => ?_)
  rw [demandRead_eq (plain_decodeUnits _ _ _), lift_done_bind]
  split
  · rfl
  · cases cachedUtf8? extra with
    | some cached => exact demandRead_eq (plain_decodeCachedUtf8 _ _) _
    | none => rfl

theorem exactingText_eq (address : Address) : w.exactingText address = w.decodeText address := by
  unfold exactingText decodeText
  split
  · rfl
  rw [demandRead_eq (plain_readStruct hl.string _)]
  apply Attempt.bind_congr (ensures_readStruct hl.string _)
  intro header he
  have hs : header.layout = w.layout := he.2 header rfl
  have hascii : Described (w.fieldAddress address .stringAsciiData) :=
    described_inline hl (by decide) _
  have hcompact : Described (w.fieldAddress address .stringCompactData) :=
    described_inline hl (by decide) _
  -- The five members of the header are demanded in the order in which they are taken.
  rw [demand_bind_eq (described_copied hl hs _ (by decide)).2,
    demand_bind_eq (described_copied hl hs _ (by decide)).1,
    demand_bind_eq (described_copied hl hs _ (by decide)).1,
    demand_bind_eq (described_copied hl hs _ (by decide)).1,
    demand_bind_eq (described_copied hl hs _ (by decide)).1]
  simp only [demandRead_eq (plain_decodeUnits _ _ _), exactingNotReady_eq hl hs,
    demandRead_eq (plain_decodeNotReady hl _ _), exactingSeparate_eq hl,
    demand_bind_eq hascii, demand_bind_eq hcompact]

theorem exactingBytes_eq (address : Address) (limit : UInt64) :
    w.exactingBytes address limit = w.decodeBytes address limit := by
  unfold exactingBytes decodeBytes
  split
  · rfl
  rw [demandRead_eq (plain_readStruct hl.bytes _)]
  apply Attempt.bind_congr (ensures_readStruct hl.bytes _)
  intro header he
  have hdata : Described (w.fieldAddress address .bytesData) := described_inline hl (by decide) _
  rw [demand_bind_eq (described_copied hl (he.2 header rfl) _ (by decide)).2]
  simp only [demandRead_eq (Memory.plain_fetchAll _ _), demand_bind_eq hdata]

end

end Walker
end StackPeek
