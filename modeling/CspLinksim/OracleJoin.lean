import Mathlib.Data.Finset.Lattice.Basic
import Mathlib.Data.Finset.Disjoint
import Mathlib.Data.Finset.Range
import Mathlib.Data.Finset.Card

/-!
# The join of the two oracles (`oracle_join.awk`)

The script reads the index files record by record and tells the first file from the second by
the record numbers alone. An index is written as a decimal without leading zeros, so that the
keys of the associative arrays are the indices.
-/

namespace CspLinksim.OracleJoin

/-- A record with its `NR` and `FNR`, and `$1`. -/
structure Record where
  nr : ℕ
  fnr : ℕ
  index : ℕ
  deriving DecidableEq

/-- The records of one file, behind `nr` records of the files before it. -/
def fileRecords (nr : ℕ) : ℕ → List ℕ → List Record
  | _, [] => []
  | fnr, index :: rest => ⟨nr + fnr + 1, fnr + 1, index⟩ :: fileRecords nr (fnr + 1) rest

/-- The records of all files in order. -/
def records : ℕ → List (List ℕ) → List Record
  | _, [] => []
  | nr, file :: files => fileRecords nr 0 file ++ records (nr + file.length) files

structure Vars where
  dropped : Finset ℕ
  nd : ℕ
  observed : Finset ℕ
  no : ℕ
  deriving DecidableEq

/-- The two rules before `END`. -/
def step (v : Vars) (r : Record) : Vars :=
  if r.nr = r.fnr then { v with dropped := insert r.index v.dropped, nd := v.nd + 1 }
  else { v with observed := insert r.index v.observed, no := v.no + 1 }

structure Counts where
  both : ℕ
  covered : ℕ
  missing : ℕ
  deriving DecidableEq

/-- The loop over the indices up to `total`. -/
def count (v : Vars) : ℕ → Counts
  | 0 => ⟨0, 0, 0⟩
  | i + 1 =>
    let c := count v i
    if i ∈ v.dropped ∧ i ∈ v.observed then { c with both := c.both + 1 }
    else if i ∈ v.dropped ∨ i ∈ v.observed then { c with covered := c.covered + 1 }
    else { c with missing := c.missing + 1 }

inductive Verdict where
  | perfectTwoOracleAgreement
  | mismatch
  deriving DecidableEq

/-- The numbers printed and the verdict. -/
structure Report where
  dropped : ℕ
  observed : ℕ
  sent : ℕ
  overlap : ℕ
  counts : Counts
  verdict : Verdict
  deriving DecidableEq

/-- `END`: the exit status, and the report unless `total` is missing. -/
def finish (total : ℕ) (v : Vars) : ℕ × Option Report :=
  if total = 0 then (2, none)
  else
    let overlap := (v.dropped.filter (· ∈ v.observed)).card
    let c := count v total
    let ok := overlap = 0 ∧ c.covered = total ∧ c.both = 0 ∧ c.missing = 0
    (if ok then 0 else 1,
      some ⟨v.nd, v.no, total, overlap, c, if ok then .perfectTwoOracleAgreement else .mismatch⟩)

/-- The script on a drop log and the indices observed. -/
def oracleJoin (total : ℕ) (droppedIdx observedIdx : List ℕ) : ℕ × Option Report :=
  finish total ((records 0 [droppedIdx, observedIdx]).foldl step ⟨∅, 0, ∅, 0⟩)

/-- The script accepts exactly the partitions, and prints the sizes of its files. -/
structure Judges (total : ℕ) (droppedIdx observedIdx : List ℕ) : Prop where
  verdict : ((oracleJoin total droppedIdx observedIdx).1 = 0 ∧
      (oracleJoin total droppedIdx observedIdx).2.map Report.verdict =
        some .perfectTwoOracleAgreement) ↔
    Disjoint droppedIdx.toFinset observedIdx.toFinset ∧
      droppedIdx.toFinset ∪ observedIdx.toFinset = Finset.range total
  dropped : (oracleJoin total droppedIdx observedIdx).2.map Report.dropped =
    some droppedIdx.length
  observed : (oracleJoin total droppedIdx observedIdx).2.map Report.observed =
    some observedIdx.length

/-- In the first file with a record the numbers agree. -/
theorem fold_first (v : Vars) (fnr : ℕ) (file : List ℕ) :
    (fileRecords 0 fnr file).foldl step v =
      { v with dropped := v.dropped ∪ file.toFinset, nd := v.nd + file.length } := by
  induction file generalizing v fnr with
  | nil => simp [fileRecords]
  | cons index rest ih =>
    rw [fileRecords, List.foldl_cons, ih, step, if_pos (by simp only; omega)]
    simp only [List.toFinset_cons, List.length_cons, Finset.insert_union, Finset.union_insert]
    congr 1
    omega

theorem fold_second (v : Vars) {nr : ℕ} (behind : 0 < nr) (fnr : ℕ) (file : List ℕ) :
    (fileRecords nr fnr file).foldl step v =
      { v with observed := v.observed ∪ file.toFinset, no := v.no + file.length } := by
  induction file generalizing v fnr with
  | nil => simp [fileRecords]
  | cons index rest ih =>
    rw [fileRecords, List.foldl_cons, ih, step, if_neg (by simp only; omega)]
    simp only [List.toFinset_cons, List.length_cons, Finset.insert_union, Finset.union_insert]
    congr 1
    omega

theorem read_files (droppedIdx observedIdx : List ℕ) (given : droppedIdx ≠ [] ∨ observedIdx = []) :
    (records 0 [droppedIdx, observedIdx]).foldl step ⟨∅, 0, ∅, 0⟩ =
      ⟨droppedIdx.toFinset, droppedIdx.length, observedIdx.toFinset, observedIdx.length⟩ := by
  simp only [records, List.append_nil, List.foldl_append, Nat.zero_add, fold_first]
  rcases given with lines | rfl
  · rw [fold_second _ (List.length_pos_of_ne_nil lines)]
    simp
  · simp [fileRecords]

/-- Behind an empty drop log the observed indices are taken for it. -/
theorem read_lossless (observedIdx : List ℕ) :
    (records 0 [[], observedIdx]).foldl step ⟨∅, 0, ∅, 0⟩ =
      ⟨observedIdx.toFinset, observedIdx.length, ∅, 0⟩ := by
  have all := fold_first ⟨∅, 0, ∅, 0⟩ 0 observedIdx
  simpa [records, fileRecords] using all

theorem count_total (v : Vars) (total : ℕ) :
    (count v total).covered + (count v total).both + (count v total).missing = total := by
  induction total with
  | zero => rfl
  | succ i ih =>
    rw [count]
    split_ifs <;> simp only <;> omega

theorem count_both (v : Vars) (total : ℕ) :
    (count v total).both = 0 ↔ ∀ i < total, ¬ (i ∈ v.dropped ∧ i ∈ v.observed) := by
  induction total with
  | zero => simp [count]
  | succ i ih =>
    rw [Nat.forall_lt_succ_right, ← ih, count]
    split_ifs <;> simp_all

theorem count_missing (v : Vars) (total : ℕ) :
    (count v total).missing = 0 ↔ ∀ i < total, i ∈ v.dropped ∨ i ∈ v.observed := by
  induction total with
  | zero => simp [count]
  | succ i ih =>
    rw [Nat.forall_lt_succ_right, ← ih, count]
    split_ifs <;> simp_all

/-- The verdict asks for coverage, and not that nothing else is in the files. -/
theorem finish_accepts {total : ℕ} (given : total ≠ 0) (v : Vars) :
    ((finish total v).1 = 0 ∧ (finish total v).2.map Report.verdict =
        some .perfectTwoOracleAgreement) ↔
      Disjoint v.dropped v.observed ∧ Finset.range total ⊆ v.dropped ∪ v.observed := by
  have covered : Finset.range total ⊆ v.dropped ∪ v.observed ↔ (count v total).missing = 0 := by
    rw [count_missing]
    simp only [Finset.subset_iff, Finset.mem_range, Finset.mem_union]
  have apart : (v.dropped.filter (· ∈ v.observed)).card = 0 ↔ Disjoint v.dropped v.observed := by
    rw [Finset.card_eq_zero, Finset.filter_eq_empty_iff, Finset.disjoint_left]
  have once : Disjoint v.dropped v.observed → (count v total).both = 0 := fun disjoint =>
    (count_both v total).mpr fun i _ twice => Finset.disjoint_left.mp disjoint twice.1 twice.2
  have sum := count_total v total
  rw [covered, ← apart, finish, if_neg given]
  rw [← apart] at once
  by_cases ok : (v.dropped.filter (· ∈ v.observed)).card = 0 ∧ (count v total).missing = 0
  · have covers : (count v total).covered = total := by
      have complete := once ok.1
      omega
    have all := And.intro ok.1 (And.intro covers (And.intro (once ok.1) ok.2))
    simp [all]
  · have fails : ¬ ((v.dropped.filter (· ∈ v.observed)).card = 0 ∧ (count v total).covered = total ∧
        (count v total).both = 0 ∧ (count v total).missing = 0) := fun all =>
      ok ⟨all.1, all.2.2.2⟩
    simp only [if_neg fails, ok]
    simp

theorem finish_prints {total : ℕ} (given : total ≠ 0) (v : Vars) :
    (finish total v).2.map Report.dropped = some v.nd ∧
      (finish total v).2.map Report.observed = some v.no := by
  rw [finish, if_neg given]
  exact ⟨rfl, rfl⟩

/-- Covering is being a partition, unless the files cover the range and go beyond it. -/
theorem covering_iff (total : ℕ) (droppedIdx observedIdx : List ℕ) :
    ((Disjoint droppedIdx.toFinset observedIdx.toFinset ∧
        Finset.range total ⊆ droppedIdx.toFinset ∪ observedIdx.toFinset) ↔
      Disjoint droppedIdx.toFinset observedIdx.toFinset ∧
        droppedIdx.toFinset ∪ observedIdx.toFinset = Finset.range total) ↔
      ((∃ i, i ∈ droppedIdx ∧ i ∈ observedIdx) ∨ (∃ i < total, i ∉ droppedIdx ∧ i ∉ observedIdx) ∨
        ∀ i, i ∈ droppedIdx ∨ i ∈ observedIdx → i < total) := by
  constructor
  · intro same
    by_cases apart : Disjoint droppedIdx.toFinset observedIdx.toFinset
    · by_cases cover : Finset.range total ⊆ droppedIdx.toFinset ∪ observedIdx.toFinset
      · -- a partition, which has nothing beyond the range
        refine Or.inr (Or.inr fun i mem => ?_)
        rw [← Finset.mem_range, ← (same.mp ⟨apart, cover⟩).2]
        simpa using mem
      · obtain ⟨i, inside, outside⟩ := Finset.not_subset.mp cover
        refine Or.inr (Or.inl ⟨i, Finset.mem_range.mp inside, ?_⟩)
        simpa using outside
    · obtain ⟨i, hd, ho⟩ := Finset.not_disjoint_iff.mp apart
      exact Or.inl ⟨i, List.mem_toFinset.mp hd, List.mem_toFinset.mp ho⟩
  · intro within
    refine and_congr_right fun apart => ⟨fun cover => ?_, fun same => same.ge⟩
    refine (Finset.Subset.antisymm cover fun i mem => ?_).symm
    rcases within with ⟨j, hd, ho⟩ | ⟨j, inside, hd, ho⟩ | within
    · exact absurd (List.mem_toFinset.mpr ho)
        (Finset.disjoint_left.mp apart (List.mem_toFinset.mpr hd))
    · have mem := cover (Finset.mem_range.mpr inside)
      simp [hd, ho] at mem
    · exact Finset.mem_range.mpr (within i (by simpa using mem))

/-- The join is right unless the drop log alone is empty, or the files cover the sent fragments
without overlap and go beyond them. -/
theorem judges_iff (total : ℕ) (sent : 1 ≤ total) (droppedIdx observedIdx : List ℕ) :
    Judges total droppedIdx observedIdx ↔
      (droppedIdx = [] → observedIdx = []) ∧
      ((∃ i, i ∈ droppedIdx ∧ i ∈ observedIdx) ∨ (∃ i < total, i ∉ droppedIdx ∧ i ∉ observedIdx) ∨
        ∀ i, i ∈ droppedIdx ∨ i ∈ observedIdx → i < total) := by
  have given : total ≠ 0 := by omega
  rw [← covering_iff]
  by_cases told : droppedIdx ≠ [] ∨ observedIdx = []
  · have lossless : droppedIdx = [] → observedIdx = [] := fun empty =>
      told.resolve_left (not_not.mpr empty)
    have accepts := finish_accepts given
      ⟨droppedIdx.toFinset, droppedIdx.length, observedIdx.toFinset, observedIdx.length⟩
    have prints := finish_prints given
      ⟨droppedIdx.toFinset, droppedIdx.length, observedIdx.toFinset, observedIdx.length⟩
    have runs : oracleJoin total droppedIdx observedIdx = finish total _ :=
      congrArg (finish total) (read_files _ _ told)
    rw [← runs] at accepts prints
    rw [← accepts]
    exact ⟨fun judges => ⟨lossless, judges.verdict⟩, fun h => ⟨h.2, prints.1, prints.2⟩⟩
  · obtain ⟨empty, some⟩ := not_or.mp told
    obtain rfl := not_not.mp empty
    have prints := finish_prints given ⟨observedIdx.toFinset, observedIdx.length, ∅, 0⟩
    have runs : oracleJoin total [] observedIdx = finish total _ :=
      congrArg (finish total) (read_lossless observedIdx)
    rw [← runs] at prints
    refine ⟨fun judges => ?_, fun h => absurd (h.1 rfl) some⟩
    have zero := Option.some.inj (prints.1.symm.trans judges.dropped)
    exact absurd (List.eq_nil_of_length_eq_zero zero) some

/-- Three fragments, one of them dropped. -/
theorem judges_three : Judges 3 [1] [0, 2, 2] :=
  (judges_iff 3 (by decide) [1] [0, 2, 2]).mpr ⟨by simp, Or.inr (Or.inr (by simp))⟩

/-- A lossless run is reported as all dropped and none observed, and an index that was never
sent does not disturb the agreement. -/
theorem lossless_run_is_misread :
    oracleJoin 2 [] [0, 1] = (0, some ⟨2, 0, 2, 0, ⟨0, 2, 0⟩, .perfectTwoOracleAgreement⟩) ∧
      oracleJoin 2 [0, 7] [1] = (0, some ⟨2, 1, 2, 0, ⟨0, 2, 0⟩, .perfectTwoOracleAgreement⟩) ∧
      ¬ Judges 2 [] [0, 1] ∧ ¬ Judges 2 [0, 7] [1] := by
  refine ⟨by decide, by decide, fun judges => ?_, fun judges => ?_⟩
  · have zero := judges.observed
    revert zero
    decide
  · have exact := (judges.verdict.mp (by decide)).2
    revert exact
    decide

end CspLinksim.OracleJoin
