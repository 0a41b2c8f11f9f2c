import Mathlib.Algebra.Order.BigOperators.Group.Finset
import Mathlib.Order.Filter.AtTopBot.Archimedean
import Mathlib.Topology.Algebra.Order.Field
import Mathlib.Tactic.FieldSimp
import Mathlib.Tactic.Linarith
import Mathlib.Tactic.LinearCombination

/-!
# Chains with two states

A chain enters its second state with probability `p` and leaves it with probability `r`. From
the first state on, the expected share of time in the second tends to `p / (p + r)`.
-/

namespace CspLinksim.TwoState

open Filter Topology Finset

variable {K : Type*} [Field K]

/-- The probability of the second state after `n` steps. -/
def occupancy (p r : K) : ℕ → K
  | 0 => 0
  | n + 1 => occupancy p r n * (1 - r) + (1 - occupancy p r n) * p

def stationary (p r : K) : K := p / (p + r)

theorem stationary_fixed {p r : K} (moves : p + r ≠ 0) :
    stationary p r * (1 - r) + (1 - stationary p r) * p = stationary p r := by
  rw [stationary]
  field_simp
  ring

theorem occupancy_eq {p r : K} (moves : p + r ≠ 0) (n : ℕ) :
    occupancy p r n = stationary p r * (1 - (1 - p - r) ^ n) := by
  induction n with
  | zero => simp [occupancy]
  | succ n ih =>
    have fixed := stationary_fixed moves
    rw [occupancy, ih, pow_succ]
    linear_combination fixed

/-- What the first `n` steps are short of the stationary share. -/
theorem sum_occupancy {p r : K} (moves : p + r ≠ 0) (n : ℕ) :
    ∑ i ∈ range n, occupancy p r i =
      n * stationary p r - stationary p r * (1 - (1 - p - r) ^ n) / (p + r) := by
  induction n with
  | zero => simp
  | succ n ih =>
    rw [sum_range_succ, ih, occupancy_eq moves, pow_succ]
    push_cast
    field_simp
    ring

variable [LinearOrder K] [IsStrictOrderedRing K]

theorem mean_occupancy_near {p r : K} (hp : 0 ≤ p) (hp₁ : p ≤ 1) (hr : 0 ≤ r) (hr₁ : r ≤ 1)
    (moves : 0 < p + r) {n : ℕ} (pos : 0 < n) :
    |(∑ i ∈ range n, occupancy p r i) / n - stationary p r| ≤ 2 / (p + r) / n := by
  have count : (0 : K) < n := by exact_mod_cast pos
  have share : 0 ≤ stationary p r ∧ stationary p r ≤ 1 := by
    constructor
    · exact div_nonneg hp moves.le
    · exact (div_le_one moves).mpr (by linarith)
  have decay : |1 - (1 - p - r) ^ n| ≤ 2 := by
    have power : |(1 - p - r) ^ n| ≤ 1 := by
      rw [abs_pow]
      exact pow_le_one₀ (abs_nonneg _) (abs_le.mpr ⟨by linarith, by linarith⟩)
    have bounds := abs_le.mp power
    exact abs_le.mpr ⟨by linarith [bounds.2], by linarith [bounds.1]⟩
  have off : (∑ i ∈ range n, occupancy p r i) / n - stationary p r =
      -(stationary p r * (1 - (1 - p - r) ^ n) / (p + r) / n) := by
    rw [sum_occupancy moves.ne']
    field_simp
    ring
  rw [off, abs_neg, abs_div, abs_div, abs_mul, abs_of_pos count, abs_of_pos moves,
    abs_of_nonneg share.1]
  gcongr
  calc stationary p r * |1 - (1 - p - r) ^ n| ≤ 1 * 2 := by
        gcongr
        exact share.2
    _ = 2 := one_mul 2

theorem mean_occupancy_tendsto [Archimedean K] [TopologicalSpace K] [OrderTopology K] {p r : K}
    (hp : 0 ≤ p) (hp₁ : p ≤ 1) (hr : 0 ≤ r) (hr₁ : r ≤ 1) (moves : 0 < p + r) :
    Tendsto (fun n : ℕ => (∑ i ∈ range n, occupancy p r i) / n) atTop (𝓝 (stationary p r)) := by
  have vanishes : Tendsto (fun n : ℕ => 2 / (p + r) / (n : K)) atTop (𝓝 0) :=
    tendsto_natCast_atTop_atTop.const_div_atTop _
  have lower : Tendsto (fun n : ℕ => stationary p r - 2 / (p + r) / (n : K)) atTop
      (𝓝 (stationary p r)) := by
    simpa using vanishes.const_sub (stationary p r)
  have upper : Tendsto (fun n : ℕ => stationary p r + 2 / (p + r) / (n : K)) atTop
      (𝓝 (stationary p r)) := by
    simpa using vanishes.const_add (stationary p r)
  refine tendsto_of_tendsto_of_tendsto_of_le_of_le' lower upper ?_ ?_
  all_goals
    filter_upwards [eventually_gt_atTop 0] with n pos
    have near := abs_le.mp (mean_occupancy_near hp hp₁ hr hr₁ moves pos)
    linarith [near.1, near.2]

end CspLinksim.TwoState
