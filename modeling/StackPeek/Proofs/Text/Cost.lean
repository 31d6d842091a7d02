import StackPeek.Member.Read
import StackPeek.Proofs.Probe.Spends

/-!
# What reading costs

A copy of a structure is one request, and so is a run of bytes. The contents of a bytes object
take two, and the text of a string object three: its header, what is behind the header of a
string that is not compact, and its units. Nothing here looks at the cancellation flag.
-/

namespace StackPeek
open Attempt
variable {polls : Bool}

/-- All reading goes through here, so here is where requests are seen to be askable. -/
theorem Memory.costs_fetchAll (a : Address) (n : UInt64) : (fetchAll a n).Costs polls 1 := by
  unfold fetchAll
  split
  · exact (costs_lift (Probe.spends_report _ _)).bind_free fun _ => costs_throw _
  rename_i hmax
  split
  · exact costs_throw _
  rename_i h0
  split
  · exact costs_pure _
  rename_i hn
  have hask : Askable a n := by
    refine ⟨h0, ?_, UInt64.not_lt.mp hmax⟩
    have hpos := UInt64.lt_iff_toNat_lt.mp (UInt64.pos_iff_ne_zero.mpr hn)
    exact UInt64.le_iff_toNat_le.mpr hpos
  have hfetch : (Probe.fetch a n).Spends polls (fun _ _ => True) 1 :=
    .read hask fun _ => .done trivial
  refine (costs_lift hfetch).bind (k := 0) fun reply => ?_
  cases reply with
  | failed errno =>
    simp only [accept]
    split
    · exact (costs_lift (Probe.spends_report _ _)).bind_free fun _ => costs_throw _
    · exact costs_throw _
  | copied bytes =>
    simp only [accept]
    split
    · exact costs_throw _
    · exact costs_pure _

namespace Walker
variable {w : Walker}

theorem spends_demand {α : Type} (field : Field) (r : Except ReadError α) :
    (w.demand field r).Spends polls (fun _ _ => True) 0 := by
  unfold demand
  split
  · exact .fault
  · exact .done trivial

theorem costs_demandRead {α : Type} {x : Attempt α} {n : Nat} (h : x.Costs polls n)
    (field : Field) : (w.demandRead field x).Costs polls n :=
  Probe.Spends.bind (k := 0) h fun r _ =>
    (spends_demand field r).bind_free fun _ _ => .done trivial

theorem costs_readStruct (base : Address) (kind : StructKind) :
    (w.readStruct base kind).Costs polls 1 := by
  unfold readStruct
  simp only
  split
  · exact costs_throw _
  refine (costs_ofExcept _).bind_free fun address => ?_
  exact (Memory.costs_fetchAll _ _).bind (k := 0) fun _ => costs_pure _

theorem costs_decodeUnits (data : Address) (count kind : UInt64) :
    (decodeUnits data count kind).Costs polls 1 := by
  unfold decodeUnits
  split
  · exact costs_throw _
  · exact (Memory.costs_fetchAll _ _).bind (k := 0) fun _ => costs_pure _

theorem costs_decodeCachedUtf8 (data : Address) (length : Int64) :
    (w.decodeCachedUtf8 data length).Costs polls 1 := by
  unfold decodeCachedUtf8
  split
  · exact costs_throw _
  · exact (Memory.costs_fetchAll _ _).bind (k := 0) fun _ => costs_pure _

theorem costs_cutLength (address : Address) (length : UInt64) :
    (w.cutLength address length).Costs polls 0 := by
  unfold cutLength
  simp only
  split
  · exact (costs_lift (Probe.spends_report _ _)).bind_free fun _ => costs_pure _
  · exact costs_pure _

theorem costs_inline (address : Address) (field : Field) (count kind : UInt64) :
    ((liftM (w.fieldAddress address field) : Attempt Address) >>= fun data =>
      decodeUnits data count kind).Costs polls 1 :=
  (costs_ofExcept _).bind_free fun _ => costs_decodeUnits _ _ _

theorem costs_decodeNotReady (header : Snapshot) (count : UInt64) :
    (w.decodeNotReady header count).Costs polls 2 := by
  refine (costs_readStruct _ _).bind (k := 1) fun extra => ?_
  split
  · exact costs_decodeCachedUtf8 _ _
  simp only
  split
  · exact costs_decodeUnits _ _ _
  · exact costs_inline _ _ _ _

theorem costs_decodeSeparate (address : Address) (count kind : UInt64) :
    (w.decodeSeparate address count kind).Costs polls 2 := by
  refine (costs_readStruct _ _).bind (k := 1) fun extra => ?_
  refine (costs_ofExcept _).bind_free fun data => ?_
  split
  · exact costs_decodeUnits _ _ _
  split
  · exact costs_decodeCachedUtf8 _ _
  · exact costs_throw _

theorem costs_decodeText (address : Address) : (w.decodeText address).Costs polls 3 := by
  unfold decodeText
  split
  · exact costs_throw _
  refine (costs_readStruct _ _).bind (k := 2) fun header => ?_
  refine (costs_ofExcept _).bind_free fun kind => ?_
  refine (costs_ofExcept _).bind_free fun compact => ?_
  refine (costs_ofExcept _).bind_free fun ascii => ?_
  refine (costs_ofExcept _).bind_free fun ready => ?_
  refine (costs_ofExcept _).bind_free fun length => ?_
  split
  · exact costs_throw _
  refine (costs_cutLength _ _).bind_free fun count => ?_
  split
  · exact costs_decodeNotReady _ _
  split
  · exact costs_decodeSeparate _ _ _
  split
  · exact (costs_inline _ _ _ _).mono (by decide)
  · exact (costs_inline _ _ _ _).mono (by decide)

theorem costs_decodeBytes (address : Address) (limit : UInt64) :
    (w.decodeBytes address limit).Costs polls 2 := by
  unfold decodeBytes
  split
  · exact costs_throw _
  refine (costs_readStruct _ _).bind (k := 1) fun header => ?_
  refine (costs_ofExcept _).bind_free fun size => ?_
  split
  · exact costs_throw _
  split
  · exact (costs_lift (Probe.spends_report _ _)).bind_free fun _ => costs_throw _
  · exact (costs_ofExcept _).bind_free fun data => Memory.costs_fetchAll _ _

section
variable {n : Nat} {field : Field} {spec : FieldSpec}

theorem costs_valueOf (hn : spec.rule = .string → 3 ≤ n) (bytes : List UInt8) :
    (w.valueOf spec bytes).Costs polls n := by
  unfold valueOf
  split
  · exact costs_pure _
  refine (costs_ofExcept _).bind_free fun raw => ?_
  split
  · exact costs_pure _
  · rename_i hr
    exact ((costs_decodeText _).bind (k := 0) fun _ => costs_pure _).mono (hn hr)
  · exact costs_pure _

/-- A member is one request, and a string member needs those of its text besides. -/
theorem costs_readField
    (hn : ∀ spec, w.layout.spec? field = some spec → spec.rule = .string → 3 ≤ n)
    (base : Address) : (w.readField base field).Costs polls (1 + n) := by
  unfold readField
  split
  · exact costs_throw _
  rename_i spec hs
  refine (costs_ofExcept _).bind_free fun address => ?_
  split
  · exact costs_pure _
  · exact (Memory.costs_fetchAll _ _).bind fun bytes => costs_valueOf (hn spec hs) bytes

theorem costs_readUnsigned
    (hn : ∀ spec, w.layout.spec? field = some spec → spec.rule = .string → 3 ≤ n)
    (base : Address) : (w.readUnsigned base field).Costs polls (1 + n) :=
  (costs_readField hn base).bind (k := 0) fun _ => costs_ofExcept _

theorem costs_readSigned
    (hn : ∀ spec, w.layout.spec? field = some spec → spec.rule = .string → 3 ≤ n)
    (base : Address) : (w.readSigned base field).Costs polls (1 + n) :=
  (costs_readField hn base).bind (k := 0) fun _ => costs_ofExcept _

end

end Walker
end StackPeek
