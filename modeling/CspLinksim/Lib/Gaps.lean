import Mathlib.Data.List.Basic
import Mathlib.Tactic.Common

/-!
# Sets of positions as separated runs

A finite set of natural numbers is in one way the union of runs that neither
overlap nor touch, in increasing order. Filling the first runs of that list leaves
the rest of it.
-/

namespace CspLinksim.Gaps

/-- Half-open runs in increasing order, no two of them adjacent, from `lo` on. -/
def Separated : Nat → List (Nat × Nat) → Prop
  | _, [] => True
  | lo, r :: rs => lo ≤ r.1 ∧ r.1 < r.2 ∧ Separated (r.2 + 1) rs

/-- Position `i` lies in one of the runs. -/
def InRuns (rs : List (Nat × Nat)) (i : Nat) : Prop := ∃ r ∈ rs, r.1 ≤ i ∧ i < r.2

theorem inRuns_cons (r : Nat × Nat) (rs : List (Nat × Nat)) (i : Nat) :
    InRuns (r :: rs) i ↔ (r.1 ≤ i ∧ i < r.2) ∨ InRuns rs i := by
  simp [InRuns]

theorem Separated.le {lo : Nat} {rs : List (Nat × Nat)} (h : Separated lo rs) {i : Nat}
    (hi : InRuns rs i) : lo ≤ i := by
  induction rs generalizing lo with
  | nil =>
    obtain ⟨r, hr, _⟩ := hi
    cases hr
  | cons r rs ih =>
    obtain ⟨hlo, hlt, tail⟩ := h
    rcases (inRuns_cons r rs i).mp hi with here | there
    · omega
    · have := ih tail there
      omega

theorem Separated.mono {lo lo' : Nat} {rs : List (Nat × Nat)} (h : Separated lo rs)
    (hle : lo' ≤ lo) : Separated lo' rs := by
  cases rs with
  | nil => trivial
  | cons r rs => exact ⟨Nat.le_trans hle h.1, h.2⟩

theorem Separated.lt {lo : Nat} {rs : List (Nat × Nat)} (h : Separated lo rs) {r : Nat × Nat}
    (hr : r ∈ rs) : r.1 < r.2 := by
  induction rs generalizing lo with
  | nil => cases hr
  | cons q rs ih =>
    obtain ⟨_, hlt, tail⟩ := h
    rcases List.mem_cons.mp hr with rfl | there
    · exact hlt
    · exact ih tail there

/-- The first run ends where membership first stops. -/
theorem separated_head_end {lo : Nat} {r : Nat × Nat} {rs : List (Nat × Nat)}
    (h : Separated lo (r :: rs)) : ¬ InRuns (r :: rs) r.2 := by
  obtain ⟨_, _, tail⟩ := h
  rw [inRuns_cons]
  rintro (here | there)
  · omega
  · have := tail.le there
    omega

/-- A run of members of `P` that cannot be made longer at either end. -/
structure MaximalRun (P : Nat → Prop) (r : Nat × Nat) : Prop where
  nonempty : r.1 < r.2
  inside : ∀ i, r.1 ≤ i → i < r.2 → P i
  before : 0 < r.1 → ¬ P (r.1 - 1)
  after : ¬ P r.2

/-- In a set of positions below `n` that has all or nothing of each cell of `step`
positions, runs begin and end where cells do. -/
theorem MaximalRun.cells {P : Nat → Prop} {step n : Nat} (bound : ∀ i, P i → i < n)
    (whole : ∀ i j, i < n → j < n → i / step = j / step → P i → P j) {r : Nat × Nat}
    (h : MaximalRun P r) : step ∣ r.1 ∧ (step ∣ r.2 ∨ r.2 = n) ∧ r.2 ≤ n := by
  obtain ⟨nonempty, inside, before, after⟩ := h
  have first := inside r.1 (Nat.le_refl _) nonempty
  have last := inside (r.2 - 1) (by omega) (by omega)
  have hfirst := bound _ first
  have hlast := bound _ last
  refine ⟨?_, ?_, by omega⟩
  · by_contra apart
    have pos : 0 < r.1 := Nat.pos_of_ne_zero fun zero => apart (zero ▸ Nat.dvd_zero step)
    have same : (r.1 - 1 + 1) / step = (r.1 - 1) / step :=
      Nat.succ_div_of_not_dvd (by rwa [Nat.sub_add_cancel pos])
    rw [Nat.sub_add_cancel pos] at same
    exact before pos (whole _ _ hfirst (by omega) same first)
  · by_contra ends
    obtain ⟨apart, short⟩ := not_or.mp ends
    have same : (r.2 - 1 + 1) / step = (r.2 - 1) / step :=
      Nat.succ_div_of_not_dvd (by rwa [Nat.sub_add_cancel (by omega)])
    rw [Nat.sub_add_cancel (by omega)] at same
    exact after (whole _ _ hlast (by omega) same.symm last)

/-- Two runs of the list are one, or there is a position between them. -/
theorem separated_apart {lo : Nat} {rs : List (Nat × Nat)} (h : Separated lo rs)
    {r q : Nat × Nat} (hr : r ∈ rs) (hq : q ∈ rs) : r = q ∨ r.2 < q.1 ∨ q.2 < r.1 := by
  induction rs generalizing lo with
  | nil => cases hr
  | cons p rs ih =>
    obtain ⟨_, _, tail⟩ := h
    have later : ∀ {t : Nat × Nat}, t ∈ rs → p.2 < t.1 := by
      intro t ht
      have hlt := tail.lt ht
      exact tail.le ⟨t, ht, Nat.le_refl _, hlt⟩
    rcases List.mem_cons.mp hr with hrp | hr'
    · rcases List.mem_cons.mp hq with hqp | hq'
      · exact Or.inl (hrp.trans hqp.symm)
      · exact Or.inr (Or.inl (hrp ▸ later hq'))
    · rcases List.mem_cons.mp hq with hqp | hq'
      · exact Or.inr (Or.inr (hqp ▸ later hr'))
      · exact ih tail hr' hq'

/-- The runs of the list are the maximal runs of the set it stands for. -/
theorem separated_mem_iff {lo : Nat} {rs : List (Nat × Nat)} (h : Separated lo rs)
    (r : Nat × Nat) : r ∈ rs ↔ MaximalRun (InRuns rs) r := by
  have maximal : ∀ {t : Nat × Nat}, t ∈ rs → MaximalRun (InRuns rs) t := by
    intro t ht
    have hlt := h.lt ht
    refine ⟨hlt, fun i lo hi => ⟨t, ht, lo, hi⟩, ?_, ?_⟩
    · rintro pos ⟨q, hq, lo, hi⟩
      rcases separated_apart h ht hq with rfl | apart | apart <;> omega
    · rintro ⟨q, hq, lo, hi⟩
      rcases separated_apart h ht hq with rfl | apart | apart <;> omega
  constructor
  · exact maximal
  · intro hr
    obtain ⟨q, hq, lo, hi⟩ := hr.inside r.1 (Nat.le_refl _) hr.nonempty
    have hstart : r.1 = q.1 := by
      by_contra hne
      exact hr.before (by omega) ⟨q, hq, by omega, by omega⟩
    have hend : r.2 = q.2 := by
      rcases Nat.lt_trichotomy r.2 q.2 with hlt | heq | hgt
      · exact absurd ⟨q, hq, by have := hr.nonempty; omega, hlt⟩ hr.after
      · exact heq
      · exact absurd (hr.inside q.2 (by omega) hgt) (maximal hq).after
    rwa [Prod.ext hstart hend]

/-- The decomposition of a set into separated runs is unique. -/
theorem separated_unique {lo lo' : Nat} {rs qs : List (Nat × Nat)} (hr : Separated lo rs)
    (hq : Separated lo' qs) (same : ∀ i, InRuns rs i ↔ InRuns qs i) : rs = qs := by
  induction rs generalizing lo lo' qs with
  | nil =>
    cases qs with
    | nil => rfl
    | cons q qs =>
      have hmem : InRuns (q :: qs) q.1 :=
        (inRuns_cons q qs q.1).mpr (Or.inl ⟨Nat.le_refl _, hq.2.1⟩)
      obtain ⟨r, hr, _⟩ := (same q.1).mpr hmem
      cases hr
  | cons r rs ih =>
    cases qs with
    | nil =>
      have hmem : InRuns (r :: rs) r.1 :=
        (inRuns_cons r rs r.1).mpr (Or.inl ⟨Nat.le_refl _, hr.2.1⟩)
      obtain ⟨q, hq, _⟩ := (same r.1).mp hmem
      cases hq
    | cons q qs =>
      have low : Separated r.1 (r :: rs) := ⟨Nat.le_refl _, hr.2⟩
      have low' : Separated q.1 (q :: qs) := ⟨Nat.le_refl _, hq.2⟩
      have inr : ∀ i, r.1 ≤ i → i < r.2 → InRuns (q :: qs) i := fun i h1 h2 =>
        (same i).mp ((inRuns_cons r rs i).mpr (Or.inl ⟨h1, h2⟩))
      have inq : ∀ i, q.1 ≤ i → i < q.2 → InRuns (r :: rs) i := fun i h1 h2 =>
        (same i).mpr ((inRuns_cons q qs i).mpr (Or.inl ⟨h1, h2⟩))
      -- both lists start at the least position and end their first run at the first gap
      have hstart : r.1 = q.1 := by
        have h1 := low'.le (inr r.1 (Nat.le_refl _) hr.2.1)
        have h2 := low.le (inq q.1 (Nat.le_refl _) hq.2.1)
        omega
      have hend : r.2 = q.2 := by
        by_contra hne
        rcases Nat.lt_or_gt_of_ne hne with hlt | hgt
        · exact separated_head_end hr (inq r.2 (by have := hr.2.1; omega) hlt)
        · exact separated_head_end hq (inr q.2 (by have := hq.2.1; omega) hgt)
      have hhead : r = q := Prod.ext hstart hend
      subst q
      congr 1
      apply ih hr.2.2 hq.2.2
      intro i
      have hi := same i
      rw [inRuns_cons, inRuns_cons] at hi
      constructor
      · intro h
        have := hr.2.2.le h
        rcases hi.mp (Or.inr h) with here | there
        · omega
        · exact there
      · intro h
        have := hq.2.2.le h
        rcases hi.mpr (Or.inr h) with here | there
        · omega
        · exact there

/-- Filling the first `k` runs leaves the others, still separated. -/
theorem separated_drop {lo : Nat} {rs : List (Nat × Nat)} (h : Separated lo rs) (k : Nat) :
    Separated lo (rs.drop k) ∧
    ∀ i, InRuns (rs.drop k) i ↔ InRuns rs i ∧ ¬ InRuns (rs.take k) i := by
  induction k generalizing lo rs with
  | zero => exact ⟨h, fun i => by simp [InRuns]⟩
  | succ k ih =>
    cases rs with
    | nil => exact ⟨trivial, fun i => by simp [InRuns]⟩
    | cons r rs =>
      obtain ⟨hlo, hlt, tail⟩ := h
      obtain ⟨sep, mem⟩ := ih tail
      refine ⟨sep.mono (by omega), ?_⟩
      intro i
      rw [List.drop_succ_cons, List.take_succ_cons, mem, inRuns_cons, inRuns_cons]
      constructor
      · rintro ⟨hin, hout⟩
        have := tail.le hin
        refine ⟨Or.inr hin, ?_⟩
        rintro (here | there)
        · omega
        · exact hout there
      · rintro ⟨here | there, hout⟩
        · exact absurd (Or.inl here) hout
        · exact ⟨there, fun h => hout (Or.inr h)⟩

/-- Runs of positions below `n` number at most `n`. -/
theorem separated_length {lo n : Nat} {rs : List (Nat × Nat)} (h : Separated lo rs)
    (bound : ∀ i, InRuns rs i → i < n) (hlo : lo ≤ n) : lo + rs.length ≤ n := by
  induction rs generalizing lo with
  | nil => simpa using hlo
  | cons r rs ih =>
    obtain ⟨hle, hlt, tail⟩ := h
    have here : InRuns (r :: rs) (r.2 - 1) := (inRuns_cons r rs _).mpr (Or.inl (by omega))
    have hend := bound _ here
    cases rs with
    | nil => simp; omega
    | cons q qs =>
      have next : InRuns (r :: q :: qs) q.1 :=
        (inRuns_cons r _ _).mpr
          (Or.inr ((inRuns_cons q qs _).mpr (Or.inl ⟨Nat.le_refl _, tail.2.1⟩)))
      have hq := bound _ next
      have := ih tail (fun i hi => bound i ((inRuns_cons r _ i).mpr (Or.inr hi)))
        (by have := tail.1; omega)
      simp only [List.length_cons] at this ⊢
      omega

end CspLinksim.Gaps
