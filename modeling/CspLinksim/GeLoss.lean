import Mathlib.Analysis.Normed.Field.Lemmas
import CspLinksim.Lib.TwoState
import CspLinksim.PrngMix

/-!
# Burst parameters and the loss they give (`ci_ge_params`)

In exact arithmetic the parameters hit the target in the interior, until the probability of
entering BAD would pass one: then it is cut to one and the channel loses less than it was asked
for.
-/

namespace CspLinksim.Ge

open Filter Topology
open TwoState Runs Prng Rule

/-- The chain of the two probabilities loses `loss` in the long run, in bursts of the mean
length. -/
structure OnTarget (loss meanBurst pG2b pB2g : ℚ) : Prop where
  enters : 0 ≤ pG2b ∧ pG2b ≤ 1
  leaves : 0 ≤ pB2g ∧ pB2g ≤ 1
  burst : pB2g = 1 / meanBurst
  marginal : stationary pG2b pB2g = loss
  longRun : Tendsto (fun n : ℕ => (∑ i ∈ Finset.range n, occupancy pG2b pB2g i) / n) atTop (𝓝 loss)

/-- What is asked of the parameters at a pair of arguments. -/
structure HitsTarget (loss meanBurst : ℚ) : Prop where
  inside : 0 < loss → loss < 1 →
    OnTarget loss meanBurst (ciGeParams id loss meanBurst).1 (ciGeParams id loss meanBurst).2
  never : loss ≤ 0 → ∀ seed n, ∀ drop ∈ (transmit (ciGeStateInit seed
    (ciGeParams id loss meanBurst).1 (ciGeParams id loss meanBurst).2) n).2, drop = false
  stays : 1 ≤ loss → ∀ seed n k,
    (transmit (ciGeStateInit seed (ciGeParams id loss meanBurst).1
      (ciGeParams id loss meanBurst).2) n).1.bad = true →
    (transmit (ciGeStateInit seed (ciGeParams id loss meanBurst).1
      (ciGeParams id loss meanBurst).2) (n + k)).1.bad = true

theorem step_keeps (st : CiGeState) :
    (ciGeStateStep st).1.seed = st.seed ∧ (ciGeStateStep st).1.tG2b = st.tG2b ∧
      (ciGeStateStep st).1.tB2g = st.tB2g := by
  simp only [ciGeStateStep]
  split_ifs <;> exact ⟨rfl, rfl, rfl⟩

theorem transmit_keeps (st : CiGeState) (n : ℕ) :
    (transmit st n).1.seed = st.seed ∧ (transmit st n).1.tG2b = st.tG2b ∧
      (transmit st n).1.tB2g = st.tB2g := by
  induction n with
  | zero => exact ⟨rfl, rfl, rfl⟩
  | succ n ih =>
    obtain ⟨hseed, hG2b, hB2g⟩ := step_keeps (transmit st n).1
    rw [transmit_snoc]
    exact ⟨hseed.trans ih.1, hG2b.trans ih.2.1, hB2g.trans ih.2.2⟩

theorem step_good {st : CiGeState} (good : st.bad = false) :
    (ciGeStateStep st).2 = false ∧
      ((ciGeStateStep st).1.bad = true ↔ ciDraw st.seed st.step < st.tG2b) := by
  simp only [ciGeStateStep, good]
  split_ifs <;> simp_all

theorem step_bad {st : CiGeState} (bad : st.bad = true) :
    (ciGeStateStep st).2 = true ∧
      ((ciGeStateStep st).1.bad = false ↔ ciDraw st.seed st.step < st.tB2g) := by
  simp only [ciGeStateStep, bad]
  split_ifs <;> simp_all

/-- Over all steps the chain leaves a state as often as its threshold says. -/
theorem enters_share {st : CiGeState} (good : st.bad = false) :
    {step | (ciGeStateStep { st with step }).1.bad = true}.ncard = st.tG2b.toNat := by
  have drawn : {step | (ciGeStateStep { st with step }).1.bad = true} =
      {step | ciDraw st.seed step < st.tG2b} := by
    ext step
    exact (@step_good { st with step } good).2
  rw [drawn]
  exact WordMix.ncard_below (ciDraw_injective _) _

theorem leaves_share {st : CiGeState} (bad : st.bad = true) :
    {step | (ciGeStateStep { st with step }).1.bad = false}.ncard = st.tB2g.toNat := by
  have drawn : {step | (ciGeStateStep { st with step }).1.bad = false} =
      {step | ciDraw st.seed step < st.tB2g} := by
    ext step
    exact (@step_bad { st with step } bad).2
  rw [drawn]
  exact WordMix.ncard_below (ciDraw_injective _) _

theorem never_drops {st : CiGeState} (good : st.bad = false) (shut : st.tG2b = 0) (n : ℕ) :
    (transmit st n).1.bad = false ∧ ∀ drop ∈ (transmit st n).2, drop = false := by
  induction n with
  | zero => exact ⟨good, by simp [transmit]⟩
  | succ n ih =>
    obtain ⟨emits, enters⟩ := step_good ih.1
    rw [transmit_snoc]
    refine ⟨?_, ?_⟩
    · rw [(transmit_keeps st n).2.1, shut] at enters
      simpa using enters
    · intro drop mem
      rcases List.mem_append.mp mem with before | last
      · exact ih.2 drop before
      · exact (List.mem_singleton.mp last).trans emits

theorem stays_bad {st : CiGeState} (shut : st.tB2g = 0) {n : ℕ}
    (bad : (transmit st n).1.bad = true) (k : ℕ) : (transmit st (n + k)).1.bad = true := by
  induction k with
  | zero => exact bad
  | succ k ih =>
    obtain ⟨_, leaves⟩ := step_bad ih
    rw [← Nat.add_assoc, transmit_snoc]
    rw [(transmit_keeps st (n + k)).2.2, shut] at leaves
    simpa using leaves

theorem params_inside {loss meanBurst : ℚ} (burst : 1 ≤ meanBurst) (low : 0 < loss)
    (high : loss < 1) :
    ciGeParams id loss meanBurst =
      (min 1 (1 / meanBurst * loss / (1 - loss)), 1 / meanBurst) := by
  rw [ciGeParams, if_neg (not_lt.mpr burst), if_neg (not_le.mpr low), if_neg (not_le.mpr high)]
  simp only [id]
  split_ifs with more
  · rw [min_eq_left more.le]
  · rw [min_eq_right (not_lt.mp more)]

/-- Whether the probability of entering BAD is cut. -/
theorem uncut_iff {loss meanBurst : ℚ} (burst : 1 ≤ meanBurst) (high : loss < 1) :
    1 / meanBurst * loss / (1 - loss) ≤ 1 ↔ loss * (meanBurst + 1) ≤ meanBurst := by
  have pos : 0 < meanBurst := by linarith
  rw [div_le_one (by linarith), div_mul_eq_mul_div, one_mul, div_le_iff₀ pos]
  constructor <;> intro h <;> linarith

theorem stationary_uncut {loss meanBurst : ℚ} (burst : 1 ≤ meanBurst) (high : loss < 1) :
    stationary (1 / meanBurst * loss / (1 - loss)) (1 / meanBurst) = loss := by
  have pos : meanBurst ≠ 0 := by linarith
  have room : 1 - loss ≠ 0 := by linarith
  rw [stationary]
  field_simp
  ring

theorem stationary_cut {meanBurst : ℚ} (burst : 1 ≤ meanBurst) :
    stationary 1 (1 / meanBurst) * (meanBurst + 1) = meanBurst := by
  have pos : meanBurst ≠ 0 := by linarith
  have more : meanBurst + 1 ≠ 0 := by linarith
  rw [stationary]
  field_simp

theorem on_target_iff {loss meanBurst : ℚ} (burst : 1 ≤ meanBurst) (low : 0 < loss)
    (high : loss < 1) :
    OnTarget loss meanBurst (ciGeParams id loss meanBurst).1 (ciGeParams id loss meanBurst).2 ↔
      loss * (meanBurst + 1) ≤ meanBurst := by
  rw [params_inside burst low high]
  have pos : 0 < meanBurst := by linarith
  constructor
  · intro target
    rcases le_or_gt (1 / meanBurst * loss / (1 - loss)) 1 with uncut | cut
    · exact (uncut_iff burst high).mp uncut
    · have share := target.marginal
      simp only [min_eq_left cut.le] at share
      have reached := stationary_cut burst
      rw [share] at reached
      exact reached.le
  · intro fits
    have uncut := (uncut_iff burst high).mpr fits
    have marginal := stationary_uncut burst high
    have leaves : 0 < 1 / meanBurst ∧ 1 / meanBurst ≤ 1 :=
      ⟨by positivity, (div_le_one pos).mpr burst⟩
    have enters : 0 ≤ 1 / meanBurst * loss / (1 - loss) :=
      div_nonneg (mul_nonneg leaves.1.le low.le) (by linarith)
    simp only [min_eq_right uncut]
    refine ⟨⟨enters, uncut⟩, ⟨leaves.1.le, leaves.2⟩, rfl, marginal, ?_⟩
    have limit := mean_occupancy_tendsto enters uncut leaves.1.le leaves.2 (by linarith)
    rwa [marginal] at limit

/-- The target is hit unless the bursts are too short for it. -/
theorem hits_target_iff (loss meanBurst : ℚ) (burst : 1 ≤ meanBurst) :
    HitsTarget loss meanBurst ↔ loss ≤ 0 ∨ 1 ≤ loss ∨ loss * (meanBurst + 1) ≤ meanBurst := by
  constructor
  · intro hits
    rcases le_or_gt loss 0 with none | low
    · exact Or.inl none
    · rcases le_or_gt 1 loss with all | high
      · exact Or.inr (Or.inl all)
      · exact Or.inr (Or.inr ((on_target_iff burst low high).mp (hits.inside low high)))
  · intro fits
    refine ⟨fun low high => ?_, fun none seed n => ?_, fun all seed n k bad => ?_⟩
    · rcases fits with none | all | fits
      · exact absurd low (not_lt.mpr none)
      · exact absurd high (not_lt.mpr all)
      · exact (on_target_iff burst low high).mpr fits
    · have shut : ciGeThreshold (ciGeParams id loss meanBurst).1 = 0 := by
        simp [ciGeParams, none, ciGeThreshold]
      exact (never_drops rfl shut n).2
    · have pos : ¬ loss ≤ 0 := by linarith
      have shut : ciGeThreshold (ciGeParams id loss meanBurst).2 = 0 := by
        simp [ciGeParams, pos, all, ciGeThreshold]
      exact stays_bad shut bad k

/-- Half the packets in bursts of two. -/
theorem hits_target_half : HitsTarget (1 / 2) 2 :=
  (hits_target_iff (1 / 2) 2 (by norm_num)).mpr (by norm_num)

/-- Nine tenths in bursts of two cannot be had, and become two thirds. -/
theorem short_bursts_miss :
    ¬ HitsTarget (9 / 10) 2 ∧ ciGeParams id (9 / 10) 2 = (1, 1 / 2) ∧
      stationary (1 : ℚ) (1 / 2) = 2 / 3 := by
  refine ⟨fun hits => ?_, by norm_num [ciGeParams], by norm_num [stationary]⟩
  have share := (hits.inside (by norm_num) (by norm_num)).marginal
  norm_num [ciGeParams, stationary] at share

end CspLinksim.Ge
