import CspLinksim.Lib.WordMix
import CspLinksim.Ge

/-!
# The mixer loses no information

`ci_splitmix64` is a bijection of the 64-bit words, so that under every seed the indices meet
every draw once: the drop rate over all indices is exact, and distinct seeds give distinct
chains.
-/

namespace CspLinksim.Prng

open WordMix Rule Ge

theorem ciSplitmix64_injective : Function.Injective ciSplitmix64 := by
  have first := xorShift_injective 30 (by decide)
  have second := xorShift_injective 27 (by decide)
  have third := xorShift_injective 31 (by decide)
  have times₁ := mul_injective (c := 0xBF58476D1CE4E5B9) (d := 0x96DE1B173F119089) (by decide)
  have times₂ := mul_injective (c := 0x94D049BB133111EB) (d := 0x319642B2D24D8EC3) (by decide)
  exact third.comp (times₂.comp (second.comp (times₁.comp (first.comp (add_injective _)))))

theorem ciSplitmix64_bijective : Function.Bijective ciSplitmix64 :=
  Finite.injective_iff_bijective.mp ciSplitmix64_injective

theorem ciDraw_injective (seed : UInt64) : Function.Injective (ciDraw seed) :=
  ciSplitmix64_injective.comp (xor_injective seed)

theorem ciDraw_bijective (seed : UInt64) : Function.Bijective (ciDraw seed) :=
  Finite.injective_iff_bijective.mp (ciDraw_injective seed)

/-- Each draw is met once, each threshold is met as often as it says, and the chains of
distinct seeds are seeded distinctly. -/
theorem mixer_bijective :
    Function.Bijective ciSplitmix64 ∧
    (∀ seed, Function.Injective (ciDraw seed)) ∧
    (∀ seed v, ∃! index, ciDraw seed index = v) ∧
    (∀ seed threshold : UInt64, {index | ciDraw seed index < threshold}.ncard = threshold.toNat) ∧
    ∃ chainSeed : UInt64 → UInt64, Function.Injective chainSeed ∧
      (∀ seed pG2b pB2g, (ciGeStateInit seed pG2b pB2g).seed = chainSeed seed) ∧
      ∀ seed pG2b pB2g n, ciGeFill seed pG2b pB2g n =
        fillLoop (chainSeed seed) (ciGeThreshold pG2b) (ciGeThreshold pB2g) 0 false n := by
  refine ⟨ciSplitmix64_bijective, ciDraw_injective, fun seed v => ?_, fun seed threshold => ?_, ?_⟩
  · exact (ciDraw_bijective seed).existsUnique v
  · exact ncard_below (ciDraw_injective seed) threshold
  · exact ⟨ciSplitmix64, ciSplitmix64_injective, fun _ _ _ => rfl, fun _ _ _ _ => rfl⟩

theorem scaledThreshold_toNat {p : ℚ} (low : 0 ≤ p) (high : p < 1) :
    (scaledThreshold p).toNat = ⌊p * 18446744073709551616⌋₊ := by
  have below : p * 18446744073709551616 < 18446744073709551616 := by linarith
  have small : ⌊p * 18446744073709551616⌋₊ < 18446744073709551616 := by
    rw [Nat.floor_lt (by positivity)]
    exact_mod_cast below
  have floor : (p * 18446744073709551616).floor.toNat = ⌊p * 18446744073709551616⌋₊ := rfl
  rw [scaledThreshold, floor, UInt64.toNat_ofNat_of_lt' (by rw [UInt64.size]; omega)]

/-- Over all indices a rule drops the share it was given, to the resolution of the draws. -/
theorem dropped_share (r : CiDropRule) (identity : r.replayVector = none)
    (low : 0 ≤ r.dropProbability) (high : r.dropProbability ≤ 1) :
    {index | ciRuleDecide r index = true}.ncard = ⌊r.dropProbability * 18446744073709551616⌋₊ := by
  rcases low.eq_or_lt with zero | pos
  · have none : {index | ciRuleDecide r index = true} = ∅ := by
      ext index
      simp [ciRuleDecide, identity, ← zero]
    rw [none, ← zero, Set.ncard_empty]
    simp
  · rcases high.eq_or_lt with one | below
    · have all : {index | ciRuleDecide r index = true} = Set.univ := by
        ext index
        simp [ciRuleDecide, identity, one]
      have card : Nat.card UInt64 = 18446744073709551616 := by
        rw [Nat.card_eq_fintype_card, ← FinEnum.card_eq_fintypeCard]
        rfl
      rw [all, Set.ncard_univ, card, one, one_mul]
      norm_num
    · have drawn : {index | ciRuleDecide r index = true} =
          {index | ciDraw r.seed index < scaledThreshold r.dropProbability} := by
        ext index
        simp [ciRuleDecide, identity, not_le.mpr pos, not_le.mpr below]
      rw [drawn, ncard_below (ciDraw_injective _), scaledThreshold_toNat low below]

end CspLinksim.Prng
