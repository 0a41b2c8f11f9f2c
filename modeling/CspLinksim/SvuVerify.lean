import CspLinksim.Svu

/-!
# What the verdict reports

The two loops of `ci_svu_verify` fill a bounded array and count past its end. Here
the array is the beginning of one list: the runs of missing bytes, or, when nothing is
missing, the blocks whose digest differs.
-/

namespace CspLinksim.Svu

open Gaps

/-- The array and the count after the intervals `l` were pushed. -/
def gathered (max : UInt32) (l : List CiSvuInterval) : IntervalOut :=
  { written := l.take max.toNat, nout := UInt32.ofNat l.length }

theorem push_gathered (max : UInt32) (l : List CiSvuInterval) (iv : CiSvuInterval)
    (small : l.length < 4294967296) :
    pushInterval max (gathered max l) iv = gathered max (l ++ [iv]) := by
  have hnout : (UInt32.ofNat l.length).toNat = l.length := UInt32.toNat_ofNat_of_lt' small
  have hlen : UInt32.ofNat l.length + 1 = UInt32.ofNat (l ++ [iv]).length := by
    rw [List.length_append, UInt32.ofNat_add]
    rfl
  simp only [pushInterval, gathered, hlen, UInt32.lt_iff_toNat_lt, hnout]
  by_cases room : l.length < max.toNat
  · rw [if_pos room, List.take_of_length_le (by omega),
      List.take_of_length_le (by simp; omega)]
  · rw [if_neg room, List.take_append_of_le_length (by omega)]

/-- The holes the loop finds from byte `i` on. -/
def missing (covered : List Bool) : Nat → Nat → List (Nat × Nat)
  | 0, _ => []
  | n + 1, i =>
    if i < covered.length then
      if covered[i]? = some false then
        (i, runEnd covered covered.length i) ::
          missing covered n (runEnd covered covered.length i)
      else missing covered n (i + 1)
    else []

def toInterval (r : Nat × Nat) : CiSvuInterval := ⟨UInt32.ofNat r.1, UInt32.ofNat r.2⟩

theorem runEnd_le (covered : List Bool) (n run : Nat) : run ≤ runEnd covered n run := by
  induction n generalizing run with
  | zero => exact Nat.le_refl run
  | succ n ih =>
    rw [runEnd]
    split
    · exact Nat.le_trans (Nat.le_succ run) (ih (run + 1))
    · exact Nat.le_refl run

theorem runEnd_hole (covered : List Bool) (n run j : Nat) (lo : run ≤ j)
    (hi : j < runEnd covered n run) : covered[j]? = some false := by
  induction n generalizing run with
  | zero =>
    rw [runEnd] at hi
    omega
  | succ n ih =>
    rw [runEnd] at hi
    split at hi
    · rename_i hole
      by_cases here : j = run
      · rw [here]
        exact hole
      · exact ih (run + 1) (by omega) hi
    · omega

theorem runEnd_stop (covered : List Bool) (n run : Nat) (enough : covered.length ≤ run + n) :
    covered[runEnd covered n run]? ≠ some false := by
  induction n generalizing run with
  | zero =>
    rw [runEnd, List.getElem?_eq_none (by omega)]
    intro h
    cases h
  | succ n ih =>
    rw [runEnd]
    split
    · exact ih (run + 1) (by omega)
    · assumption

theorem lt_runEnd (covered : List Bool) {i : Nat} (hole : covered[i]? = some false) :
    i < runEnd covered covered.length i := by
  have hi := (List.getElem?_eq_some_iff.mp hole).1
  have hle := runEnd_le covered covered.length i
  have hstop := runEnd_stop covered covered.length i (by omega)
  have hne : runEnd covered covered.length i ≠ i := fun h => hstop (by rw [h, hole])
  omega

theorem missing_separated (covered : List Bool) (n i : Nat) :
    Separated i (missing covered n i) ∧
    (covered[i]? ≠ some false → Separated (i + 1) (missing covered n i)) := by
  induction n generalizing i with
  | zero => exact ⟨trivial, fun _ => trivial⟩
  | succ n ih =>
    rw [missing]
    by_cases hi : i < covered.length
    · rw [if_pos hi]
      by_cases hole : covered[i]? = some false
      · rw [if_pos hole]
        have stop := runEnd_stop covered covered.length i (by omega)
        exact ⟨⟨Nat.le_refl i, lt_runEnd covered hole, (ih _).2 stop⟩, fun h => absurd hole h⟩
      · rw [if_neg hole]
        exact ⟨(ih (i + 1)).1.mono (Nat.le_succ i), fun _ => (ih (i + 1)).1⟩
    · rw [if_neg hi]
      exact ⟨trivial, fun _ => trivial⟩

theorem inRuns_missing (covered : List Bool) (n i j : Nat) (enough : covered.length ≤ i + n) :
    InRuns (missing covered n i) j ↔ i ≤ j ∧ covered[j]? = some false := by
  have inside : covered[j]? = some false → j < covered.length := fun h =>
    (List.getElem?_eq_some_iff.mp h).1
  induction n generalizing i with
  | zero =>
    constructor
    · rintro ⟨r, hr, _⟩
      cases hr
    · rintro ⟨hij, hole⟩
      have := inside hole
      omega
  | succ n ih =>
    rw [missing]
    by_cases hi : i < covered.length
    · rw [if_pos hi]
      by_cases hole : covered[i]? = some false
      · have hlt := lt_runEnd covered hole
        have tail := ih (runEnd covered covered.length i) (by omega)
        rw [if_pos hole, inRuns_cons]
        constructor
        · rintro (⟨lo, hi'⟩ | there)
          · exact ⟨lo, runEnd_hole covered _ i j lo hi'⟩
          · obtain ⟨lo, h⟩ := tail.mp there
            exact ⟨by omega, h⟩
        · rintro ⟨lo, h⟩
          by_cases hj : j < runEnd covered covered.length i
          · exact Or.inl ⟨lo, hj⟩
          · exact Or.inr (tail.mpr ⟨by omega, h⟩)
      · have tail := ih (i + 1) (by omega)
        rw [if_neg hole]
        constructor
        · intro there
          obtain ⟨lo, h⟩ := tail.mp there
          exact ⟨by omega, h⟩
        · rintro ⟨lo, h⟩
          have hne : i ≠ j := fun heq => hole (heq ▸ h)
          exact tail.mpr ⟨by omega, h⟩
    · rw [if_neg hi]
      constructor
      · rintro ⟨r, hr, _⟩
        cases hr
      · rintro ⟨lo, h⟩
        have := inside h
        omega

theorem scanHoles_gathered (max : UInt32) (covered : List Bool) (n i : Nat)
    (l : List CiSvuInterval) (small : l.length + (missing covered n i).length < 4294967296) :
    scanHoles max covered n i (gathered max l) =
      gathered max (l ++ (missing covered n i).map toInterval) := by
  induction n generalizing i l with
  | zero => simp [scanHoles, missing]
  | succ n ih =>
    rw [scanHoles]
    rw [missing] at small ⊢
    by_cases hi : i < covered.length
    · rw [if_pos hi] at small ⊢
      by_cases hole : covered[i]? = some false
      · rw [if_pos hole, List.length_cons] at small
        have push := push_gathered max l (toInterval (i, runEnd covered covered.length i))
          (by omega)
        have tail := ih (runEnd covered covered.length i)
          (l ++ [toInterval (i, runEnd covered covered.length i)]) (by simp; omega)
        simp only [toInterval] at push tail
        simp only [hi, hole, if_true, push, tail]
        simp [toInterval]
      · rw [if_neg hole] at small
        rw [if_pos hi, if_neg hole, if_neg hole]
        exact ih _ _ small
    · rw [if_neg hi, if_neg hi]
      simp

/-- The missing runs of a tracker. -/
def holes (s : CiSvu) : List (Nat × Nat) := missing s.covered s.total.toNat 0

theorem holes_separated (s : CiSvu) : Separated 0 (holes s) :=
  (missing_separated s.covered s.total.toNat 0).1

theorem inRuns_holes (s : CiSvu) (i : Nat) : InRuns (holes s) i ↔ s.covered[i]? = some false := by
  rw [holes, inRuns_missing _ _ _ _ (by rw [s.covered_size]; omega)]
  simp

theorem hole_lt (s : CiSvu) {i : Nat} (h : InRuns (holes s) i) : i < s.total.toNat := by
  rw [inRuns_holes] at h
  rw [← s.covered_size]
  exact (List.getElem?_eq_some_iff.mp h).1

theorem holes_length_le (s : CiSvu) : (holes s).length ≤ s.total.toNat := by
  have := separated_length (holes_separated s) (fun _ h => hole_lt s h) (Nat.zero_le _)
  omega

/-- Block `b` does not have the digest the manifest gives for it. -/
def isBad (s : CiSvu) (b : Nat) : Bool :=
  hashBlock s.data s.total s.block b ≠ digest s.expected b

def blockRange (s : CiSvu) (b : Nat) : Nat × Nat :=
  (b * s.block.toNat, min (b * s.block.toNat + s.block.toNat) s.total.toNat)

def badBlocks (s : CiSvu) : List Nat := (List.range s.nblocks.toNat).filter (isBad s)

theorem badBlocks_length_le (s : CiSvu) : (badBlocks s).length ≤ s.nblocks.toNat := by
  have := List.length_filter_le (isBad s) (List.range s.nblocks.toNat)
  rwa [List.length_range] at this

theorem checkBlocks_gathered (max : UInt32) (s : CiSvu) (st : CiSvuStatus)
    (l : List CiSvuInterval) (bs : List Nat)
    (small : l.length + (bs.filter (isBad s)).length < 4294967296) :
    bs.foldl (checkBlock max s) (st, gathered max l) =
      (if bs.filter (isBad s) = [] then st else .corrupt,
        gathered max (l ++ (bs.filter (isBad s)).map fun b => toInterval (blockRange s b))) := by
  induction bs generalizing st l with
  | nil => simp
  | cons b bs ih =>
    rw [List.foldl_cons, checkBlock]
    by_cases bad : isBad s b = true
    · have hash : hashBlock s.data s.total s.block b ≠ digest s.expected b := by
        simpa [isBad] using bad
      rw [List.filter_cons_of_pos bad, List.length_cons] at small
      have push := push_gathered max l (toInterval (blockRange s b)) (by omega)
      have tail := ih .corrupt (l ++ [toInterval (blockRange s b)]) (by simp; omega)
      simp only [toInterval, blockRange] at push tail
      simp only [if_pos hash, push, tail, List.filter_cons_of_pos bad]
      simp [toInterval, blockRange]
    · have hash : ¬ hashBlock s.data s.total s.block b ≠ digest s.expected b := by
        simpa [isBad] using bad
      rw [List.filter_cons_of_neg bad] at small ⊢
      rw [if_neg hash]
      exact ih _ _ small

def allCovered (s : CiSvu) : Prop := ∀ i < s.total.toNat, s.covered[i]? = some true

theorem covered_of_not_hole (s : CiSvu) {i : Nat} (hi : i < s.total.toNat)
    (h : s.covered[i]? ≠ some false) : s.covered[i]? = some true := by
  rw [← s.covered_size] at hi
  rw [List.getElem?_eq_getElem hi] at h ⊢
  cases hv : s.covered[i] with
  | true => rfl
  | false => exact absurd (congrArg some hv) h

theorem allCovered_iff_holes (s : CiSvu) : allCovered s ↔ holes s = [] := by
  constructor
  · intro all
    cases h : holes s with
    | nil => rfl
    | cons r rs =>
      have hr : InRuns (holes s) r.1 := by
        have sep := holes_separated s
        rw [h] at sep ⊢
        exact (inRuns_cons r rs r.1).mpr (Or.inl ⟨Nat.le_refl _, sep.2.1⟩)
      have := (inRuns_holes s r.1).mp hr
      rw [all r.1 (hole_lt s hr)] at this
      cases this
  · intro none i hi
    apply covered_of_not_hole s hi
    intro hole
    obtain ⟨r, hr, _⟩ := (inRuns_holes s i).mpr hole
    rw [none] at hr
    cases hr

/-- The byte counter reaches the total exactly when no byte is missing. -/
theorem count_lt_iff (s : CiSvu) : s.coveredCount < s.total ↔ holes s ≠ [] := by
  rw [UInt32.lt_iff_toNat_lt, s.count_eq, ← s.covered_size]
  have hle : s.covered.count true ≤ s.covered.length := List.count_le_length
  rw [ne_eq, ← allCovered_iff_holes]
  constructor
  · intro hlt all
    have full : s.covered.count true = s.covered.length := by
      rw [List.count_eq_length]
      intro v hv
      obtain ⟨i, hi, rfl⟩ := List.mem_iff_getElem.mp hv
      have := all i (by rwa [← s.covered_size])
      rw [List.getElem?_eq_getElem hi] at this
      exact (Option.some.inj this).symm
    omega
  · intro notAll
    by_contra hge
    apply notAll
    intro i hi
    rw [← s.covered_size] at hi
    have full := List.count_eq_length.mp (by omega : s.covered.count true = s.covered.length)
    rw [List.getElem?_eq_getElem hi, ← full _ (List.getElem_mem hi)]

/-- The verdict: incomplete, corrupt or verified. -/
def status (s : CiSvu) : CiSvuStatus :=
  if holes s ≠ [] then .incomplete else if badBlocks s ≠ [] then .corrupt else .completeVerified

/-- All the ranges a verdict is about. -/
def reportedRuns (s : CiSvu) : List (Nat × Nat) :=
  if holes s ≠ [] then holes s else (badBlocks s).map (blockRange s)

def reported (s : CiSvu) : List CiSvuInterval := (reportedRuns s).map toInterval

theorem reported_length_lt (s : CiSvu) : (reported s).length < 4294967296 := by
  have h1 := holes_length_le s
  have h2 := badBlocks_length_le s
  have h3 := s.total.toNat_lt
  have h4 := s.nblocks.toNat_lt
  unfold reported reportedRuns
  split <;> simp <;> omega

/-- The spec of `ci_svu_verify`: the verdict, the first `max` ranges, and how many there are. -/
theorem ciSvuVerify_eq (s : CiSvu) (max : UInt32) :
    ciSvuVerify s max = (status s, gathered max (reported s)) := by
  have hstart : (⟨[], 0⟩ : IntervalOut) = gathered max [] := by simp [gathered]
  rw [ciSvuVerify, hstart, status, reported, reportedRuns]
  by_cases hole : holes s ≠ []
  · have small := holes_length_le s
    have htotal := s.total.toNat_lt
    have hscan := scanHoles_gathered max s.covered s.total.toNat 0 []
      (by simp only [List.length_nil]; unfold holes at small; omega)
    rw [if_pos ((count_lt_iff s).mpr hole), if_pos hole, if_pos hole, hscan]
    rfl
  · have small := badBlocks_length_le s
    have hblocks := s.nblocks.toNat_lt
    have hcheck := checkBlocks_gathered max s .completeVerified [] (List.range s.nblocks.toNat)
      (by simp only [List.length_nil]; unfold badBlocks at small; omega)
    rw [if_neg (mt (count_lt_iff s).mp hole), if_neg hole, if_neg hole, hcheck]
    unfold badBlocks
    by_cases bad : (List.range s.nblocks.toNat).filter (isBad s) = []
    · simp [bad]
    · simp [bad, Function.comp_def]

theorem status_incomplete_iff (s : CiSvu) : status s = .incomplete ↔ ¬ allCovered s := by
  rw [allCovered_iff_holes, status]
  split
  · simp_all
  · split <;> simp_all

theorem status_complete_iff (s : CiSvu) :
    status s = .completeVerified ↔ allCovered s ∧ badBlocks s = [] := by
  rw [allCovered_iff_holes, status]
  split
  · simp_all
  · split <;> simp_all

theorem status_corrupt_iff (s : CiSvu) :
    status s = .corrupt ↔ allCovered s ∧ badBlocks s ≠ [] := by
  rw [allCovered_iff_holes, status]
  split
  · simp_all
  · split <;> simp_all

end CspLinksim.Svu
