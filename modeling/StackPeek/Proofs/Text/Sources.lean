import StackPeek.Proofs.Stack.Supported
import StackPeek.Proofs.Text.Representation

/-!
# Where the characters are

A string object is decoded in two steps: first a `TextSource` is found, which is units of a buffer
or a cached UTF-8 form, and then its characters are read (`decodeText_eq`). Whatever the target
answers, no more units are taken than the limit of the walk allows (`gives_textSource`).

This module does NOT say where the characters of a string object should be found.
-/

namespace StackPeek

/-- Where the characters of a string object are. -/
inductive TextSource where
  | units (data : Address) (count kind : UInt64)
  | cached (data : Address) (length : Int64)

def TextSource.Within (limit : UInt64) : TextSource → Prop
  | .units _ count _ => count.toNat ≤ limit.toNat
  | .cached _ _ => True

namespace Walker
variable {w : Walker}

/-! ### Finding the source

The steps of the decoder up to the point where it knows what to read. -/

def sourceNotReady (w : Walker) (header : Snapshot) (count : UInt64) : Attempt TextSource := do
  let extra ← w.readStruct header.address .compactString
  match cachedUtf8? extra with
  | some (data, length) => return .cached data length
  | none =>
    let wide := (header.pointer .stringWide).toOption.getD 0
    if wide ≠ 0 then return .units wide (w.wideCount extra count) 4
    else do
      let data ← w.fieldAddress header.address .stringAsciiData
      return .units data count 1

def sourceSeparate (w : Walker) (address : Address) (count kind : UInt64) :
    Attempt TextSource := do
  let extra ← w.readStruct address .compactString
  let data ← extra.pointer .stringData
  if data ≠ 0 then return .units data count kind
  else match cachedUtf8? extra with
    | some (data, length) => return .cached data length
    | none => throw .unmapped

def textSource (w : Walker) (address : Address) : Attempt TextSource :=
  if address = 0 then throw .unmapped
  else do
    let header ← w.readStruct address .string
    let kind ← header.unsigned .stringKind
    let compact ← header.unsigned .stringCompact
    let ascii ← header.unsigned .stringAscii
    let ready ← header.unsigned .stringReady
    let length ← header.signed .stringLength
    if length < 0 then throw .outOfRange
    else do
      let count ← w.cutLength address length.toUInt64
      if ready = 0 then w.sourceNotReady header count
      else if compact = 0 then w.sourceSeparate address count kind
      else if ascii ≠ 0 then do
        let data ← w.fieldAddress address .stringAsciiData
        return .units data count 1
      else do
        let data ← w.fieldAddress address .stringCompactData
        return .units data count kind

def decodeSource (w : Walker) : TextSource → Attempt Text
  | .units data count kind => decodeUnits data count kind
  | .cached data length => w.decodeCachedUtf8 data length

theorem decodeNotReady_eq (header : Snapshot) (count : UInt64) :
    w.decodeNotReady header count = w.sourceNotReady header count >>= w.decodeSource := by
  unfold decodeNotReady sourceNotReady
  rw [bind_assoc]
  apply bind_congr
  intro extra
  cases cachedUtf8? extra with
  | some cached => rfl
  | none =>
    simp only
    split
    · rfl
    · rw [bind_assoc]
      rfl

theorem decodeSeparate_eq (address : Address) (count kind : UInt64) :
    w.decodeSeparate address count kind =
      w.sourceSeparate address count kind >>= w.decodeSource := by
  unfold decodeSeparate sourceSeparate
  simp only [bind_assoc]
  apply bind_congr
  intro extra
  apply bind_congr
  intro data
  split
  · rfl
  · cases cachedUtf8? extra with
    | some cached => rfl
    | none => rfl

theorem decodeText_eq (address : Address) :
    w.decodeText address = w.textSource address >>= w.decodeSource := by
  unfold decodeText textSource
  split
  · rfl
  simp only [bind_assoc]
  apply bind_congr
  intro header
  apply bind_congr
  intro kind
  apply bind_congr
  intro compact
  apply bind_congr
  intro ascii
  apply bind_congr
  intro ready
  apply bind_congr
  intro length
  split
  · rfl
  rw [bind_assoc]
  apply bind_congr
  intro count
  split
  · exact decodeNotReady_eq _ _
  split
  · exact decodeSeparate_eq _ _ _
  split
  · rw [bind_assoc]
    rfl
  · rw [bind_assoc]
    rfl

/-! ### No source has more units than the limit -/

open Attempt

theorem gives_cutLength (address : Address) (length : UInt64) :
    (w.cutLength address length).Gives fun count =>
      count.toNat ≤ w.options.maxStringLength.toNat := by
  unfold cutLength
  simp only
  split
  · apply (plain_lift (Probe.ensures_report _ _)).faultless.gives.bind
    intro _ _
    exact gives_pure (Nat.le_refl _)
  · rename_i h
    exact gives_pure (UInt64.le_iff_toNat_le.mp (UInt64.not_lt.mp h))

theorem wideCount_le (extra : Snapshot) {count : UInt64}
    (hc : count.toNat ≤ w.options.maxStringLength.toNat) :
    (w.wideCount extra count).toNat ≤ w.options.maxStringLength.toNat := by
  unfold wideCount
  split
  · split
    · exact hc
    · rw [toNat_min]
      exact Nat.min_le_right _ _
  · exact hc

theorem gives_inlineSource (address : Address) (field : Field) {limit count : UInt64}
    (kind : UInt64) (hc : count.toNat ≤ limit.toNat) :
    ((liftM (w.fieldAddress address field) : Attempt Address) >>= fun data =>
      return TextSource.units data count kind).Gives (TextSource.Within limit) :=
  (faultless_ofExcept _).gives.bind fun _ _ => gives_pure hc

theorem gives_sourceNotReady (header : Snapshot) {count : UInt64}
    (hc : count.toNat ≤ w.options.maxStringLength.toNat) :
    (w.sourceNotReady header count).Gives (TextSource.Within w.options.maxStringLength) := by
  apply (faultless_readStruct _ _).gives.bind
  intro extra _
  split
  · exact gives_pure trivial
  simp only
  split
  · exact gives_pure (wideCount_le extra hc)
  · exact gives_inlineSource _ _ _ hc

theorem gives_sourceSeparate (address : Address) {count : UInt64} (kind : UInt64)
    (hc : count.toNat ≤ w.options.maxStringLength.toNat) :
    (w.sourceSeparate address count kind).Gives
      (TextSource.Within w.options.maxStringLength) := by
  apply (faultless_readStruct _ _).gives.bind
  intro extra _
  apply (faultless_ofExcept _).gives.bind
  intro data _
  split
  · exact gives_pure hc
  split
  · exact gives_pure trivial
  · exact gives_throw _ _

theorem gives_textSource (address : Address) :
    (w.textSource address).Gives (TextSource.Within w.options.maxStringLength) := by
  unfold textSource
  split
  · exact gives_throw _ _
  apply (faultless_readStruct _ _).gives.bind
  intro header _
  apply (faultless_ofExcept _).gives.bind
  intro kind _
  apply (faultless_ofExcept _).gives.bind
  intro compact _
  apply (faultless_ofExcept _).gives.bind
  intro ascii _
  apply (faultless_ofExcept _).gives.bind
  intro ready _
  apply (faultless_ofExcept _).gives.bind
  intro length _
  split
  · exact gives_throw _ _
  apply (gives_cutLength _ _).bind
  intro count hc
  split
  · exact gives_sourceNotReady _ hc
  split
  · exact gives_sourceSeparate _ _ hc
  split
  · exact gives_inlineSource _ _ _ hc
  · exact gives_inlineSource _ _ _ hc

end Walker
end StackPeek
