import Mathlib.Data.UInt
import Mathlib.Data.List.GetD

/-!
# Words and their bytes

What shifts and disjunctions of machine words are as numbers, and the bytes at an index.
-/

namespace CspLinksim.MachineWords

/-- A word placed above `k` bits of another one adds up. -/
theorem or_shiftLeft_toNat (x y : UInt32) (k : Nat) (hk : k < 32) (hx : x.toNat < 2 ^ k)
    (hy : y.toNat * 2 ^ k < 4294967296) :
    (x ||| (y <<< UInt32.ofNat k)).toNat = x.toNat + y.toNat * 2 ^ k := by
  have hkk : (UInt32.ofNat k).toNat % 32 = k := by
    rw [UInt32.toNat_ofNat_of_lt' (by rw [UInt32.size]; omega)]
    omega
  have hshift : (y <<< UInt32.ofNat k).toNat = y.toNat <<< k := by
    rw [UInt32.toNat_shiftLeft, hkk, Nat.shiftLeft_eq]
    exact Nat.mod_eq_of_lt hy
  rw [UInt32.toNat_or, hshift, Nat.or_comm, ← Nat.shiftLeft_add_eq_or_of_lt hx,
    Nat.shiftLeft_eq, Nat.add_comm]

theorem shiftRight_toNat (v : UInt32) (k : Nat) (hk : k < 32) :
    (v >>> UInt32.ofNat k).toNat = v.toNat / 2 ^ k := by
  have hkk : (UInt32.ofNat k).toNat % 32 = k := by
    rw [UInt32.toNat_ofNat_of_lt' (by rw [UInt32.size]; omega)]
    omega
  rw [UInt32.toNat_shiftRight, hkk, Nat.shiftRight_eq_div_pow]

theorem shiftRight_toNat64 (v : UInt64) (k : Nat) (hk : k < 64) :
    (v >>> UInt64.ofNat k).toNat = v.toNat / 2 ^ k := by
  have hkk : (UInt64.ofNat k).toNat % 64 = k := by
    rw [UInt64.toNat_ofNat_of_lt' (by rw [UInt64.size]; omega)]
    omega
  rw [UInt64.toNat_shiftRight, hkk, Nat.shiftRight_eq_div_pow]

/-- A number from its upper part and the byte below it. -/
theorem upper_byte (n k : Nat) : 256 * (n / 2 ^ (k + 8)) + n / 2 ^ k % 256 = n / 2 ^ k := by
  rw [Nat.pow_add, ← Nat.div_div_eq_div_mul]
  exact Nat.div_add_mod _ 256

/-- A slice read byte by byte. -/
theorem slice_eq_map (p : List UInt8) (i n : Nat) (h : i + n ≤ p.length) :
    (p.drop i).take n = (List.range n).map fun j => p.getD (i + j) 0 := by
  apply List.ext_getElem
  · simp only [List.length_take, List.length_drop, List.length_map, List.length_range]
    omega
  · intro j hj hj'
    have inside : j < n := by simpa using hj'
    simp only [List.getElem_take, List.getElem_drop, List.getElem_map, List.getElem_range]
    rw [List.getD_eq_getElem _ _ (by omega)]

end CspLinksim.MachineWords
