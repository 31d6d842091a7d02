import StackPeek.Proofs.Text.WellFormed

/-!
# The sizes of texts

How many bytes to read for a text is a product of two words. With a limit below `2 ^ 62` neither
product wraps, whatever the target claims about its strings: each unit lies inside the bytes that
were read, and a cached form loses no character that the limit allows (`decodeText_exact`). The
bound is sharp. At `2 ^ 62` four times the limit is zero, and every cached form reads as the empty
text (`decodeText_emptied`).
-/

namespace StackPeek
open Attempt

/-- The sizes are those of the natural numbers. So every unit of a text lies inside the bytes that
were read, and well-formed UTF-8 that can be read at once keeps all characters up to the limit. -/
def TextSource.Exact (w : Walker) : TextSource → Prop
  | .units data count kind => ∀ width, UnitWidth.ofCode? kind = some width →
      (count * width.bytes).toNat = count.toNat * width.bytes.toNat ∧
      ∀ {σ : Type} (t : Target σ) (s : σ) {text : Text},
        ((Walker.decodeUnits data count kind).run.run t s).1 = .ok (.ok text) →
        ∃ bytes : List UInt8, bytes.length = count.toNat * width.bytes.toNat ∧
          ((Memory.fetchAll data (count * width.bytes)).run.run t s).1 = .ok (.ok bytes) ∧
          text = .ofUnits ((List.range count.toNat).map fun i =>
            Bytes.littleEndian ((bytes.drop (i * width.bytes.toNat)).take width.bytes.toNat))
  | .cached data length =>
      (w.options.maxStringLength * 4).toNat = w.options.maxStringLength.toNat * 4 ∧
      ∀ {σ : Type} (t : Target σ) (s : σ) {chars : List Char},
        length.toInt = (Text.ofCharacters chars).octets.length →
        (t.memory s).Holds data (Text.ofCharacters chars).octets →
        (Text.ofCharacters chars).octets.length ≤ Memory.maxRawRead.toNat →
        ((w.decodeCachedUtf8 data length).run.run t s).1 =
          .ok (.ok (.ofCharacters (chars.take w.options.maxStringLength.toNat)))

namespace Walker
variable {w : Walker}

theorem run_decodeCachedUtf8 {σ : Type} (t : Target σ) (s : σ) (data : Address)
    (length : Int64) : ((w.decodeCachedUtf8 data length).run.run t s).1 =
      (w.decodeCachedUtf8 data length).outcome (t.memory s) := by
  unfold decodeCachedUtf8
  split
  · rfl
  · simp only
    rw [run_bind_pure, outcome_bind_pure, Memory.run_fetchAll]

section
variable (hmax : w.options.maxStringLength.toNat < UInt64.size / 4)
include hmax

theorem exact_units (data : Address) {count : UInt64} (kind : UInt64)
    (hc : count.toNat ≤ w.options.maxStringLength.toNat) :
    (TextSource.units data count kind).Exact w := by
  intro width hcode
  have hsize : (count * width.bytes).toNat = count.toNat * width.bytes.toNat :=
    width.toNat_mul_bytes (by omega)
  refine ⟨hsize, fun t s text hrun => ?_⟩
  unfold decodeUnits at hrun
  rw [hcode] at hrun
  simp only at hrun
  rw [run_bind_pure] at hrun
  obtain ⟨r, hr, hlen⟩ := (Memory.gives_fetchAll data (count * width.bytes)).run t s
  rw [hr] at hrun
  cases r with
  | error e => cases hrun
  | ok bytes =>
    have hbytes : bytes.length = count.toNat * width.bytes.toNat := (hlen bytes rfl).trans hsize
    refine ⟨bytes, hbytes, hr, ?_⟩
    rw [← width.split_eq_map hbytes]
    cases hrun
    rfl

theorem exact_cached (data : Address) (length : Int64) :
    (TextSource.cached data length).Exact w := by
  refine ⟨(toNat_mul_four_iff _).mpr hmax, fun t s chars hlength hdata hread => ?_⟩
  rw [run_decodeCachedUtf8]
  exact outcome_decodeCachedUtf8 hlength hdata hmax (by omega)

theorem exact_of_within {source : TextSource}
    (h : source.Within w.options.maxStringLength) : source.Exact w := by
  cases source with
  | units data count kind => exact exact_units hmax data kind h
  | cached data length => exact exact_cached hmax data length

end

/-- With a limit below `2 ^ 62` no size wraps in the decoding of any string object, whatever the
layout and whatever the target answers at any moment. -/
theorem decodeText_exact (w : Walker) (hmax : w.options.maxStringLength.toNat < UInt64.size / 4)
    (address : Address) :
    w.decodeText address = w.textSource address >>= w.decodeSource ∧
    ∀ {σ : Type} (t : Target σ) (s : σ) {source : TextSource},
      ((w.textSource address).run.run t s).1 = .ok (.ok source) → source.Exact w := by
  refine ⟨decodeText_eq address, fun t s source h => ?_⟩
  obtain ⟨r, hr, hwithin⟩ := (gives_textSource address).run t s
  rw [h] at hr
  cases hr
  exact exact_of_within hmax (hwithin source rfl)

/-- A string that is not ready, whose cached form is that of `abc`. -/
def shortMemory : Regions :=
  [Region.of 0x1000 ((Layout.builtin .v39).emit 80
      [(.stringLength, 3), (.stringKind, 4), (.stringUtf8Length, 3), (.stringUtf8, 0x2000)] []),
    Region.of 0x2000 (Text.ofCharacters ['a', 'b', 'c']).octets]

theorem shortMemory_holds :
    shortMemory.still.Holds 0x2000 (Text.ofCharacters ['a', 'b', 'c']).octets := by
  have hdisjoint : shortMemory.Disjoint := by
    unfold Regions.Disjoint
    decide +kernel
  exact Regions.holds _ hdisjoint (.tail _ (.head _)) (by decide) (by decide)

def limitedTo (limit : UInt64) : Walker :=
  ⟨.builtin .v39, { Options.standard with maxStringLength := limit }⟩

/-- The largest limit of which four times fit a word. -/
theorem decodeText_exact_largest :
    (limitedTo 0x3FFFFFFFFFFFFFFF).options.maxStringLength.toNat < UInt64.size / 4 ∧
      (((limitedTo 0x3FFFFFFFFFFFFFFF).textSource 0x1000).run.run shortMemory.still.target ()).1 =
        .ok (.ok (.cached 0x2000 3)) ∧
      (((limitedTo 0x3FFFFFFFFFFFFFFF).decodeCachedUtf8 0x2000 3).run.run
        shortMemory.still.target ()).1 = .ok (.ok (.ofCharacters ['a', 'b', 'c'])) := by
  have hmax : (limitedTo 0x3FFFFFFFFFFFFFFF).options.maxStringLength.toNat < UInt64.size / 4 := by
    decide
  have hrun : (((limitedTo 0x3FFFFFFFFFFFFFFF).textSource 0x1000).run.run
      shortMemory.still.target ()).1 = .ok (.ok (.cached 0x2000 3)) := by rfl
  have hexact := (decodeText_exact (limitedTo 0x3FFFFFFFFFFFFFFF) hmax 0x1000).2 _ () hrun
  have hlength : (3 : Int64).toInt = (Text.ofCharacters ['a', 'b', 'c']).octets.length := rfl
  refine ⟨hmax, hrun, ?_⟩
  rw [hexact.2 shortMemory.still.target () hlength shortMemory_holds (by decide)]
  rfl

/-- One character more, and the text is empty. -/
theorem decodeText_emptied :
    (((limitedTo 0x4000000000000000).textSource 0x1000).run.run shortMemory.still.target ()).1 =
        .ok (.ok (.cached 0x2000 3)) ∧
      shortMemory.still.Holds 0x2000 (Text.ofCharacters ['a', 'b', 'c']).octets ∧
      (((limitedTo 0x4000000000000000).decodeText 0x1000).run.run shortMemory.still.target ()).1 =
        .ok (.ok (.ofCharacters [])) ∧
      ¬ (TextSource.cached 0x2000 3).Exact (limitedTo 0x4000000000000000) := by
  refine ⟨by rfl, shortMemory_holds, by rfl, fun h => ?_⟩
  have hlt := (toNat_mul_four_iff _).mp h.1
  revert hlt
  decide

end Walker
end StackPeek
