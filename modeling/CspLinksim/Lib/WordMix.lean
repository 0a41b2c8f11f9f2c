import Mathlib.Data.Nat.Bitwise
import Mathlib.Data.FinEnum
import Mathlib.Order.Interval.Set.Nat

/-!
# Word operations that lose nothing

Xor-shifts and products with an invertible factor as injections of 64-bit words, and
exclusive or as a permutation of aligned blocks of indices.
-/

namespace CspLinksim.WordMix

theorem xor_shiftRight_injective {k : ℕ} (hk : 0 < k) :
    Function.Injective fun x : ℕ => x ^^^ (x >>> k) := by
  intro x
  induction x using Nat.strong_induction_on with
  | _ x ih =>
    intro y same
    have same : x ^^^ (x >>> k) = y ^^^ (y >>> k) := same
    have high : x >>> k = y >>> k := by
      rcases Nat.eq_zero_or_pos x with zero | pos
      · -- without bits in `x` the topmost bit of `y` has nothing to cancel it
        subst zero
        have even : y = y >>> k := by
          have h : y ^^^ (y >>> k) = 0 := by rw [← same]; simp
          exact Nat.xor_eq_zero_iff.mp h
        rw [← even, Nat.zero_shiftRight]
        by_contra ne
        have lt : y >>> k < y := by
          rw [Nat.shiftRight_eq_div_pow]
          exact Nat.div_lt_self (by omega) (Nat.one_lt_two_pow (by omega))
        omega
      · refine ih (x >>> k) ?_ ?_
        · rw [Nat.shiftRight_eq_div_pow]
          exact Nat.div_lt_self pos (Nat.one_lt_two_pow (by omega))
        · have shifted := congrArg (· >>> k) same
          simpa only [Nat.shiftRight_xor_distrib] using shifted
    rw [high] at same
    exact Nat.xor_left_injective same

theorem xorShift_injective (k : UInt64) (hk : 0 < k.toNat % 64) :
    Function.Injective fun x : UInt64 => x ^^^ (x >>> k) := by
  intro x y same
  have numbers := congrArg UInt64.toNat same
  simp only [UInt64.toNat_xor, UInt64.toNat_shiftRight] at numbers
  exact UInt64.toNat_inj.mp (xor_shiftRight_injective hk numbers)

theorem mul_injective {c d : UInt64} (inverse : c * d = 1) :
    Function.Injective fun x : UInt64 => x * c := by
  apply Function.LeftInverse.injective (g := fun x => x * d)
  intro x
  change x * c * d = x
  rw [UInt64.mul_assoc, inverse, UInt64.mul_one]

theorem add_injective (c : UInt64) : Function.Injective fun x : UInt64 => x + c := by
  apply Function.LeftInverse.injective (g := fun x => x - c)
  intro x
  exact UInt64.add_sub_cancel x c

theorem xor_injective (c : UInt64) : Function.Injective fun x : UInt64 => c ^^^ x := by
  apply Function.LeftInverse.injective (g := fun x => c ^^^ x)
  intro x
  change c ^^^ (c ^^^ x) = x
  rw [← UInt64.xor_assoc, UInt64.xor_self, UInt64.zero_xor]

/-- An injection of the words takes values below `t` as often as there are any. -/
theorem ncard_below {f : UInt64 → UInt64} (inj : Function.Injective f) (t : UInt64) :
    {x | f x < t}.ncard = t.toNat := by
  have onto : Function.Surjective f := Finite.surjective_of_injective inj
  have image : f '' {x | f x < t} = UInt64.ofNat '' (Set.Iio t.toNat) := by
    ext v
    constructor
    · rintro ⟨x, below, rfl⟩
      exact ⟨(f x).toNat, UInt64.lt_iff_toNat_lt.mp below, UInt64.ofNat_toNat⟩
    · rintro ⟨n, below, rfl⟩
      obtain ⟨x, hx⟩ := onto (UInt64.ofNat n)
      have bound := t.toNat_lt
      have below : n < t.toNat := below
      refine ⟨x, ?_, hx⟩
      change f x < t
      rw [hx, UInt64.lt_iff_toNat_lt, UInt64.toNat_ofNat_of_lt' (by rw [UInt64.size]; omega)]
      exact below
  have distinct : Set.InjOn UInt64.ofNat (Set.Iio t.toNat) := by
    intro a ha b hb same
    have bound := t.toNat_lt
    have ha : a < t.toNat := ha
    have hb : b < t.toNat := hb
    have numbers := congrArg UInt64.toNat same
    rwa [UInt64.toNat_ofNat_of_lt' (by rw [UInt64.size]; omega),
      UInt64.toNat_ofNat_of_lt' (by rw [UInt64.size]; omega)] at numbers
  rw [← Set.ncard_image_of_injective _ inj, image, distinct.ncard_image, Set.ncard_Iio_nat]

section blocks

variable {k m i d : ℕ}

theorem mem_block : i ∈ Finset.Ico (m * 2 ^ k) ((m + 1) * 2 ^ k) ↔ i / 2 ^ k = m := by
  rw [Finset.mem_Ico, Nat.div_eq_iff (Nat.two_pow_pos k)]
  have pos := Nat.two_pow_pos k
  rw [Nat.add_mul, Nat.one_mul]
  omega

theorem xor_mem_block (hd : d < 2 ^ k) (hi : i ∈ Finset.Ico (m * 2 ^ k) ((m + 1) * 2 ^ k)) :
    i ^^^ d ∈ Finset.Ico (m * 2 ^ k) ((m + 1) * 2 ^ k) := by
  rw [mem_block] at hi ⊢
  rw [Nat.xor_div_two_pow, hi, Nat.div_eq_of_lt hd, Nat.xor_zero]

/-- Two predicates that `d` carries into each other select, in an aligned block, sets that `d`
carries into each other. -/
theorem filter_block_xor (hd : d < 2 ^ k) (p q : ℕ → Bool) (carried : ∀ i, q (i ^^^ d) = p i) :
    (Finset.Ico (m * 2 ^ k) ((m + 1) * 2 ^ k)).filter (fun i => q i) =
      ((Finset.Ico (m * 2 ^ k) ((m + 1) * 2 ^ k)).filter fun i => p i).image (· ^^^ d) := by
  ext j
  simp only [Finset.mem_filter, Finset.mem_image]
  constructor
  · rintro ⟨inside, chosen⟩
    have back : j ^^^ d ^^^ d = j := Nat.xor_xor_cancel_right j d
    refine ⟨j ^^^ d, ⟨xor_mem_block hd inside, ?_⟩, back⟩
    rw [← carried, back]
    exact chosen
  · rintro ⟨i, ⟨inside, chosen⟩, rfl⟩
    refine ⟨xor_mem_block hd inside, ?_⟩
    rw [carried]
    exact chosen

end blocks

end CspLinksim.WordMix
