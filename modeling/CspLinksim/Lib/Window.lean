import Mathlib.Data.Set.Insert
import Mathlib.Logic.Function.Basic

/-!
# Sliding windows kept in circular slots

A set of integer positions is remembered for the `W` positions up to a moving head.
Position `p` lives in slot `p mod W`, so a slot is reused every `W` positions and
must be cleared when the head moves over it. The last section is the wire side: a
position is read back from its residue as long as it is near the head.
-/

namespace CspLinksim.Window

def slotOf (W : Nat) (p : Int) : Nat := (p % W).toNat

/-- Overwrite one slot. -/
def put (slot : Nat → Bool) (i : Nat) (v : Bool) : Nat → Bool := Function.update slot i v

/-- Clear the slots of the `n` positions from `lo` on, in order. -/
def clear (W : Nat) (slot : Nat → Bool) : Int → Nat → Nat → Bool
  | _, 0 => slot
  | lo, n + 1 => clear W (put slot (slotOf W lo) false) (lo + 1) n

/-- On the window below the head the slots say exactly what the set says. -/
def Tracks (W : Nat) (slot : Nat → Bool) (S : Set Int) (head : Int) : Prop :=
  ∀ p, head - W < p → p ≤ head → (slot (slotOf W p) = true ↔ p ∈ S)

/-- Two positions less than `W` apart never share a slot. -/
theorem eq_of_slotOf_eq {W : Nat} {p q : Int} (same : slotOf W p = slotOf W q)
    (lo : q - W < p) (hi : p < q + W) : p = q := by
  have hW : (W : Int) ≠ 0 := by omega
  have hp := Int.emod_nonneg p hW
  have hq := Int.emod_nonneg q hW
  have hmod : p % W = q % W := by
    unfold slotOf at same
    omega
  have hdvd : (W : Int) ∣ p - q :=
    Int.dvd_of_emod_eq_zero (Int.emod_eq_emod_iff_emod_sub_eq_zero.mp hmod)
  have hzero := Int.eq_zero_of_dvd_of_natAbs_lt_natAbs hdvd (by omega)
  omega

theorem clear_slot (W : Nat) (slot : Nat → Bool) (lo : Int) (n i : Nat) :
    clear W slot lo n i = true ↔
      slot i = true ∧ ∀ p, lo ≤ p → p < lo + n → slotOf W p ≠ i := by
  induction n generalizing slot lo with
  | zero =>
    constructor
    · intro h
      exact ⟨h, fun p hlo hhi => by omega⟩
    · rintro ⟨h, _⟩
      exact h
  | succ n ih =>
    rw [clear, ih]
    constructor
    · rintro ⟨h, later⟩
      by_cases hi : slotOf W lo = i
      · simp [put, hi] at h
      · refine ⟨by simpa [put, Function.update_of_ne (Ne.symm hi)] using h, ?_⟩
        intro p hlo hhi
        by_cases hp : p = lo
        · rw [hp]
          exact hi
        · exact later p (by omega) (by omega)
    · rintro ⟨h, none⟩
      have hi := none lo le_rfl (by omega)
      refine ⟨by simpa [put, Function.update_of_ne (Ne.symm hi)] using h, ?_⟩
      intro p hlo hhi
      exact none p (by omega) (by omega)

/-- Marking a position of the window adds it to the set and nothing else. -/
theorem tracks_mark {W : Nat} {slot : Nat → Bool} {S : Set Int} {head u : Int}
    (h : Tracks W slot S head) (lo : head - W < u) (hi : u ≤ head) :
    Tracks W (put slot (slotOf W u) true) (insert u S) head := by
  intro p hlo hhi
  by_cases hp : p = u
  · simp [put, hp]
  · have hne : slotOf W p ≠ slotOf W u := fun same =>
      hp (eq_of_slotOf_eq same (by omega) (by omega))
    rw [put, Function.update_of_ne hne, h p hlo hhi]
    simp [hp]

/-- Moving the head forward clears what it passes over (at most one turn of the
circle) and marks the new head. -/
theorem tracks_advance {W : Nat} {slot : Nat → Bool} {S : Set Int} {head u lo : Int}
    (h : Tracks W slot S head) (below : ∀ p ∈ S, p ≤ head) (ahead : head < u)
    (hlo : lo = if u - head > W then u - W else head + 1) :
    Tracks W (put (clear W slot lo (u - lo).toNat) (slotOf W u) true) (insert u S) u := by
  intro p hp hu
  by_cases heq : p = u
  · simp [put, heq]
  · have hne : slotOf W p ≠ slotOf W u := fun same =>
      heq (eq_of_slotOf_eq same (by omega) (by omega))
    rw [put, Function.update_of_ne hne, clear_slot, Set.mem_insert_iff]
    by_cases passed : lo ≤ p
    · have hpS : p ∉ S := fun hS => by
        have := below p hS
        split at hlo <;> omega
      constructor
      · rintro ⟨_, cleared⟩
        exact absurd rfl (cleared p passed (by omega))
      · rintro (rfl | hS)
        · exact absurd rfl heq
        · exact absurd hS hpS
    · have hlo' : lo = head + 1 := by split at hlo <;> omega
      have old := h p (by omega) (by omega)
      constructor
      · rintro ⟨hs, _⟩
        exact Or.inr (old.mp hs)
      · rintro (rfl | hS)
        · exact absurd rfl heq
        · refine ⟨old.mpr hS, ?_⟩
          intro q hql hqu same
          have := eq_of_slotOf_eq same (by omega) (by omega)
          omega

/-- The signed distance read off two residues is the real one within half a turn. -/
theorem bmod_residues {N : Nat} {u head : Int} (lo : -(N : Int) ≤ 2 * (u - head))
    (hi : 2 * (u - head) < N) : (u % N - head % N).bmod N = u - head := by
  rw [Int.emod_sub_bmod, Int.sub_emod_bmod]
  exact Int.bmod_eq_of_le_mul_two (by omega) (by omega)

end CspLinksim.Window
