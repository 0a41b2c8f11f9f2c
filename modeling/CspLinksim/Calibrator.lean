import CspLinksim.PrngMix

/-!
# The offline calibrator (`calibrate-injector.py`)

Python's integers are unbounded and masked where the script masks them. It predicts the drop
rule exactly, and what it says of seeds and power-of-two blocks holds of every such block.
-/

namespace CspLinksim.Calibrator

open WordMix Prng Rule

/-- `M`. -/
def mask : ℕ := (1 <<< 64) - 1

/-- `splitmix64`. -/
def splitmix64 (x : ℕ) : ℕ :=
  let x := (x + 0x9E3779B97F4A7C15) &&& mask
  let x := ((x ^^^ (x >>> 30)) * 0xBF58476D1CE4E5B9) &&& mask
  let x := ((x ^^^ (x >>> 27)) * 0x94D049BB133111EB) &&& mask
  (x ^^^ (x >>> 31)) &&& mask

/-- `int` of a float: towards zero. -/
def int (q : ℚ) : ℤ := if 0 ≤ q then ⌊q⌋ else ⌈q⌉

/-- `drops`; scaling a float by a power of two is exact. -/
def drops (p : ℚ) (seed n : ℕ) : List ℕ :=
  let thr := int (p * (1 <<< 64 : ℕ))
  (List.range n).filter fun i => (splitmix64 ((seed ^^^ i) &&& mask) : ℤ) < thr

theorem and_mask (x : ℕ) : x &&& mask = x % 2 ^ 64 := Nat.and_two_pow_sub_one_eq_mod x 64

theorem and_mask_word (w : UInt64) : w.toNat &&& mask = w.toNat := by
  rw [and_mask]
  exact Nat.mod_eq_of_lt w.toNat_lt

/-- Masked integers go through the mixer as the words do. -/
theorem splitmix64_word (w : UInt64) : splitmix64 w.toNat = (ciSplitmix64 w).toNat := by
  have sum : (w.toNat + 0x9E3779B97F4A7C15) &&& mask = (w + 0x9E3779B97F4A7C15).toNat := by
    rw [and_mask, UInt64.toNat_add]
    rfl
  have step (v : UInt64) (k c : UInt64) :
      ((v.toNat ^^^ (v.toNat >>> (k.toNat % 64))) * c.toNat) &&& mask =
        ((v ^^^ (v >>> k)) * c).toNat := by
    rw [and_mask, UInt64.toNat_mul, UInt64.toNat_xor, UInt64.toNat_shiftRight]
  have last (v : UInt64) :
      (v.toNat ^^^ (v.toNat >>> 31)) &&& mask = (v ^^^ (v >>> 31)).toNat := by
    have shift : v.toNat >>> 31 = (v >>> 31).toNat := by
      rw [UInt64.toNat_shiftRight]
      rfl
    rw [shift, ← UInt64.toNat_xor, and_mask_word]
  have first : ∀ v : UInt64, ((v.toNat ^^^ (v.toNat >>> 30)) * 0xBF58476D1CE4E5B9) &&& mask =
      ((v ^^^ (v >>> 30)) * 0xBF58476D1CE4E5B9).toNat := fun v => step v 30 0xBF58476D1CE4E5B9
  have second : ∀ v : UInt64, ((v.toNat ^^^ (v.toNat >>> 27)) * 0x94D049BB133111EB) &&& mask =
      ((v ^^^ (v >>> 27)) * 0x94D049BB133111EB).toNat := fun v => step v 27 0x94D049BB133111EB
  rw [ciSplitmix64, ← last, ← second, ← first, ← sum]
  rfl

/-- The draw of an index, which the rule takes modulo 2^64. -/
theorem draw_word (seed : UInt64) (i : ℕ) :
    splitmix64 ((seed.toNat ^^^ i) &&& mask) = (ciDraw seed (UInt64.ofNat i)).toNat := by
  have key : (seed.toNat ^^^ i) &&& mask = (seed ^^^ UInt64.ofNat i).toNat := by
    rw [UInt64.toNat_xor, UInt64.toNat_ofNat', and_mask, Nat.xor_mod_two_pow,
      Nat.mod_eq_of_lt seed.toNat_lt]
  rw [key, splitmix64_word, ciDraw]

/-- The unguarded threshold decides as the guarded one does. -/
theorem drop_decided (r : CiDropRule) (identity : r.replayVector = none)
    (low : 0 ≤ r.dropProbability) (high : r.dropProbability ≤ 1) (index : UInt64) :
    ((ciDraw r.seed index).toNat : ℤ) < int (r.dropProbability * (1 <<< 64 : ℕ)) ↔
      ciRuleDecide r index = true := by
  have size : ((1 <<< 64 : ℕ) : ℚ) = 18446744073709551616 := by norm_num [Nat.shiftLeft_eq]
  have drawn := (ciDraw r.seed index).toNat_lt
  have scaled : 0 ≤ r.dropProbability * 18446744073709551616 := by positivity
  rw [size, int, if_pos scaled]
  simp only [ciRuleDecide, identity]
  rcases low.eq_or_lt with zero | pos
  · rw [← zero]
    simp
  · rcases high.eq_or_lt with one | below
    · rw [one, one_mul]
      have sure : ⌊(18446744073709551616 : ℚ)⌋ = 18446744073709551616 := by norm_num
      rw [sure, if_neg (by norm_num), if_pos le_rfl, iff_true_right rfl]
      omega
    · rw [if_neg (not_le.mpr pos), if_neg (not_le.mpr below), decide_eq_true_eq,
        UInt64.lt_iff_toNat_lt, scaledThreshold_toNat low below,
        ← Int.natCast_floor_eq_floor scaled, Int.ofNat_lt]

/-- The prediction is exact. -/
theorem calibrator_exact (r : CiDropRule) (identity : r.replayVector = none)
    (low : 0 ≤ r.dropProbability) (high : r.dropProbability ≤ 1) (n : ℕ) :
    drops r.dropProbability r.seed.toNat n =
      (List.range n).filter fun i => ciRuleDecide r (UInt64.ofNat i) := by
  apply List.filter_congr
  intro i _
  rw [draw_word, Bool.eq_iff_iff, decide_eq_true_eq]
  exact drop_decided r identity low high _

/-- At one half the first of four indices is dropped. -/
theorem calibrator_exact_half : drops (1 / 2) 3 4 = [0] ∧
    drops (1 / 2) 3 4 = (List.range 4).filter fun i =>
      ciRuleDecide ⟨3, -1, false, 1 / 2, none⟩ (UInt64.ofNat i) :=
  ⟨by decide +kernel,
    calibrator_exact ⟨3, -1, false, 1 / 2, none⟩ rfl (by norm_num) (by norm_num) 4⟩

/-- The indices from `lo` to `hi` that the rule drops under a seed. -/
def dropSet (r : CiDropRule) (seed : UInt64) (lo hi : ℕ) : Finset ℕ :=
  (Finset.Ico lo hi).filter fun i => ciRuleDecide { r with seed } (UInt64.ofNat i)

/-- The rule depends on the seed and the index through their exclusive or alone. -/
theorem decide_carried (r : CiDropRule) (identity : r.replayVector = none) (s s' : UInt64) (i : ℕ) :
    ciRuleDecide { r with seed := s' } (UInt64.ofNat (i ^^^ (s ^^^ s').toNat)) =
      ciRuleDecide { r with seed := s } (UInt64.ofNat i) := by
  have key : s' ^^^ UInt64.ofNat (i ^^^ (s ^^^ s').toNat) = s ^^^ UInt64.ofNat i := by
    calc s' ^^^ UInt64.ofNat (i ^^^ (s ^^^ s').toNat)
        = s' ^^^ (UInt64.ofNat i ^^^ (s ^^^ s')) := by rw [UInt64.ofNat_xor, UInt64.ofNat_toNat]
      _ = s' ^^^ (s' ^^^ s ^^^ UInt64.ofNat i) := by
          rw [UInt64.xor_comm (UInt64.ofNat i), UInt64.xor_comm s]
      _ = s ^^^ UInt64.ofNat i := by
          rw [← UInt64.xor_assoc, ← UInt64.xor_assoc, UInt64.xor_self, UInt64.zero_xor]
  simp only [ciRuleDecide, identity, ciDraw, key]
  rfl

/-- Seeds that differ in their low `k` bits permute the drops of an aligned block of `2 ^ k`. -/
theorem seeds_permute (r : CiDropRule) (identity : r.replayVector = none) (k : ℕ)
    (s s' : UInt64) (near : s.toNat / 2 ^ k = s'.toNat / 2 ^ k) (m : ℕ) :
    dropSet r s' (m * 2 ^ k) ((m + 1) * 2 ^ k) =
      (dropSet r s (m * 2 ^ k) ((m + 1) * 2 ^ k)).image (· ^^^ (s ^^^ s').toNat) ∧
    (dropSet r s' (m * 2 ^ k) ((m + 1) * 2 ^ k)).card =
      (dropSet r s (m * 2 ^ k) ((m + 1) * 2 ^ k)).card := by
  have low : (s ^^^ s').toNat < 2 ^ k := by
    have high : (s ^^^ s').toNat / 2 ^ k = 0 := by
      rw [UInt64.toNat_xor, Nat.xor_div_two_pow, near, Nat.xor_self]
    exact (Nat.div_eq_zero_iff_lt (Nat.two_pow_pos k)).mp high
  have image : dropSet r s' (m * 2 ^ k) ((m + 1) * 2 ^ k) =
      (dropSet r s (m * 2 ^ k) ((m + 1) * 2 ^ k)).image (· ^^^ (s ^^^ s').toNat) :=
    filter_block_xor low (fun i => ciRuleDecide { r with seed := s } (UInt64.ofNat i))
      (fun i => ciRuleDecide { r with seed := s' } (UInt64.ofNat i))
      (decide_carried r identity s s')
  refine ⟨image, ?_⟩
  rw [image]
  exact Finset.card_image_of_injective _ Nat.xor_left_injective

/-- Seeds 1 and 2 on the second block of four indices. -/
theorem seeds_permute_small :
    dropSet ⟨0, -1, false, 1 / 2, none⟩ 2 4 8 =
      (dropSet ⟨0, -1, false, 1 / 2, none⟩ 1 4 8).image (· ^^^ 3) ∧
    (dropSet ⟨0, -1, false, 1 / 2, none⟩ 2 4 8).card =
      (dropSet ⟨0, -1, false, 1 / 2, none⟩ 1 4 8).card :=
  seeds_permute ⟨0, -1, false, 1 / 2, none⟩ rfl 2 1 2 (by decide) 1

end CspLinksim.Calibrator
