import Mathlib.Algebra.Order.Floor.Div
import Mathlib.Data.List.Basic
import Mathlib.Tactic.Common

/-!
# Ranges cut into pieces

The range from `off` to `stop` is cut every `step` positions, so only the last piece
is shorter. Slices of a list along the pieces put its range together again, and the
spans of the pieces tile it.
-/

namespace CspLinksim.Pieces

universe u
variable {α : Type u}

/-- The first `n` pieces: where each begins and how long it is. -/
def pieces (step stop : Nat) : Nat → Nat → List (Nat × Nat)
  | 0, _ => []
  | n + 1, off =>
    if off < stop then (off, min step (stop - off)) :: pieces step stop n (off + step) else []

/-- The part of a list a piece names. -/
def slice (l : List α) (p : Nat × Nat) : List α := (l.drop p.1).take p.2

theorem pieces_bounds {step stop n off : Nat} (hstep : 0 < step) {p : Nat × Nat}
    (hp : p ∈ pieces step stop n off) :
    off ≤ p.1 ∧ p.1 + p.2 ≤ stop ∧ 0 < p.2 ∧ p.2 ≤ step := by
  induction n generalizing off with
  | zero => cases hp
  | succ n ih =>
    rw [pieces] at hp
    split at hp
    · rcases List.mem_cons.mp hp with rfl | htail
      · simp only
        omega
      · have := ih htail
        omega
    · cases hp

/-- Every position of the range lies in a piece. -/
theorem pieces_cover {step stop n off i : Nat} (hstep : 0 < step) (enough : stop ≤ off + n)
    (lo : off ≤ i) (hi : i < stop) :
    ∃ p ∈ pieces step stop n off, p.1 ≤ i ∧ i < p.1 + p.2 := by
  induction n generalizing off with
  | zero => omega
  | succ n ih =>
    rw [pieces, if_pos (by omega)]
    by_cases here : i < off + step
    · exact ⟨_, List.mem_cons_self, lo, by simp only; omega⟩
    · obtain ⟨p, hp, h⟩ := @ih (off + step) (by omega) (by omega)
      exact ⟨p, List.mem_cons_of_mem _ hp, h⟩

theorem pieces_drop (step stop n off j : Nat) :
    (pieces step stop n off).drop j = pieces step stop (n - j) (off + j * step) := by
  induction j generalizing n off with
  | zero => simp
  | succ j ih =>
    cases n with
    | zero => simp [pieces]
    | succ n =>
      rw [pieces]
      split
      · rw [List.drop_succ_cons, ih, Nat.succ_sub_succ, Nat.succ_mul]
        congr 1
        omega
      · rw [List.drop_nil, Nat.succ_sub_succ]
        have hle : stop ≤ off + (j + 1) * step := by omega
        cases n - j with
        | zero => rfl
        | succ m => rw [pieces, if_neg (by omega)]

/-- Piece number `j`. -/
theorem pieces_getElem? {step stop n off : Nat} (hstep : 0 < step) (enough : stop ≤ off + n)
    (j : Nat) :
    (pieces step stop n off)[j]? =
      if off + j * step < stop then
        some (off + j * step, min step (stop - (off + j * step))) else none := by
  have head : (pieces step stop n off)[j]? = ((pieces step stop n off).drop j).head? := by
    rw [List.head?_drop]
  have hj : j ≤ j * step := Nat.le_mul_of_pos_right j hstep
  rw [head, pieces_drop]
  cases left : n - j with
  | zero =>
    rw [if_neg (by omega)]
    rfl
  | succ m =>
    rw [pieces]
    split <;> rfl

/-- Cut from the start on, a range has as many pieces as the quotient rounded up. -/
theorem pieces_eq_range {step stop n : Nat} (hstep : 0 < step) (enough : stop ≤ n) :
    pieces step stop n 0 =
      (List.range (stop ⌈/⌉ step)).map fun j => (j * step, min step (stop - j * step)) := by
  apply List.ext_getElem?
  intro j
  have within : j < stop ⌈/⌉ step ↔ j * step < stop := by
    rw [← Nat.not_le, ceilDiv_le_iff_le_mul hstep, Nat.not_le, Nat.mul_comm]
  rw [pieces_getElem? hstep (by omega), List.getElem?_map, Nat.zero_add]
  by_cases inside : j * step < stop
  · rw [if_pos inside, List.getElem?_range (within.mpr inside)]
    rfl
  · have past : (List.range (stop ⌈/⌉ step)).length ≤ j := by
      rw [List.length_range]
      exact Nat.le_of_not_lt fun h => inside (within.mp h)
    rw [if_neg inside, List.getElem?_eq_none past]
    rfl

/-- Pieces of a range that begins and ends where pieces of `[0, n)` do are pieces of that. -/
theorem pieces_aligned {step stop m off n : Nat} (hstart : step ∣ off)
    (hend : step ∣ stop ∨ stop = n) (le : stop ≤ n) {p : Nat × Nat}
    (hp : p ∈ pieces step stop m off) :
    ∃ k, p = (k * step, min step (n - k * step)) := by
  induction m generalizing off with
  | zero => cases hp
  | succ m ih =>
    rw [pieces] at hp
    split at hp
    · rename_i more
      rcases List.mem_cons.mp hp with rfl | tail
      · obtain ⟨k, rfl⟩ := hstart
        refine ⟨k, ?_⟩
        rw [Nat.mul_comm k]
        rcases hend with ⟨j, rfl⟩ | rfl
        · have fits : step * k + step ≤ step * j := by
            have := Nat.mul_le_mul_left step (Nat.lt_of_mul_lt_mul_left more)
            rwa [Nat.succ_eq_add_one, Nat.mul_add, Nat.mul_one] at this
          rw [Nat.min_eq_left (by omega), Nat.min_eq_left (by omega)]
        · rfl
      · exact ih (Nat.dvd_add hstart (Nat.dvd_refl step)) tail
    · cases hp

/-- The slices along the pieces, joined, are the slice of the range. -/
theorem slices_flatten (l : List α) {step stop n off : Nat} (hstep : 0 < step)
    (enough : stop ≤ off + n) :
    ((pieces step stop n off).map (slice l)).flatten = slice l (off, stop - off) := by
  induction n generalizing off with
  | zero =>
    have : stop - off = 0 := by omega
    simp [pieces, slice, this]
  | succ n ih =>
    rw [pieces]
    split
    · rw [List.map_cons, List.flatten_cons, ih (by omega)]
      simp only [slice]
      by_cases last : stop - off ≤ step
      · have : stop - (off + step) = 0 := by omega
        rw [Nat.min_eq_right last, this, List.take_zero, List.append_nil]
      · rw [Nat.min_eq_left (by omega), ← List.drop_drop, ← List.take_add]
        congr 1
        omega
    · have : stop - off = 0 := by omega
      simp [slice, this]

/-- The two ends of a piece. -/
def span (p : Nat × Nat) : Nat × Nat := (p.1, p.1 + p.2)

/-- Non-empty spans in order, none overlapping another, whose union is `[lo, hi)`. -/
structure Tiling (lo hi : Nat) (spans : List (Nat × Nat)) : Prop where
  nonempty : ∀ r ∈ spans, r.1 < r.2
  inOrder : spans.Pairwise fun r q => r.2 ≤ q.1
  union : ∀ i, (∃ r ∈ spans, r.1 ≤ i ∧ i < r.2) ↔ lo ≤ i ∧ i < hi

theorem tiling_pieces {step stop n off : Nat} (hstep : 0 < step) (enough : stop ≤ off + n) :
    Tiling off stop ((pieces step stop n off).map span) where
  nonempty := by
    intro r hr
    obtain ⟨p, hp, rfl⟩ := List.mem_map.mp hr
    have := pieces_bounds hstep hp
    simp only [span]
    omega
  inOrder := by
    clear enough
    induction n generalizing off with
    | zero => exact List.Pairwise.nil
    | succ n ih =>
      rw [pieces]
      split
      · refine List.pairwise_cons.mpr ⟨?_, ih⟩
        intro q hq
        obtain ⟨p, hp, rfl⟩ := List.mem_map.mp hq
        have := pieces_bounds hstep hp
        simp only [span]
        omega
      · exact List.Pairwise.nil
  union := by
    intro i
    constructor
    · rintro ⟨r, hr, lo, hi⟩
      obtain ⟨p, hp, rfl⟩ := List.mem_map.mp hr
      have := pieces_bounds hstep hp
      simp only [span] at lo hi
      omega
    · rintro ⟨lo, hi⟩
      obtain ⟨p, hp, here⟩ := pieces_cover hstep enough lo hi
      exact ⟨span p, List.mem_map_of_mem hp, here⟩

end CspLinksim.Pieces
