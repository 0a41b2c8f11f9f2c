import Mathlib.Algebra.Order.BigOperators.Group.Finset
import CspLinksim.SvuVerify

/-!
# The tracker over a delivery history

Whatever fragments arrive, the flags and the buffer are those of the last write to
each byte, and the verdict is a statement about that history and the manifest.
-/

namespace CspLinksim.Svu

open Runs Writes

def Fragment.write (f : Fragment) : Write UInt8 := ⟨f.offset.toNat, f.buf⟩

/-- The fragments that were answered with 0. -/
def accepted (fs : List Fragment) (rcs : List Int) : List (Write UInt8) :=
  ((fs.zip rcs).filter fun x => x.2 = 0).map fun x => x.1.write

/-- The fields no delivery changes. -/
structure SameTransfer (s t : CiSvu) : Prop where
  total : s.total = t.total
  block : s.block = t.block
  nblocks : s.nblocks = t.nblocks
  expected : s.expected = t.expected

theorem SameTransfer.refl (s : CiSvu) : SameTransfer s s := ⟨rfl, rfl, rfl, rfl⟩

theorem SameTransfer.trans {s t u : CiSvu} (h : SameTransfer s t) (h' : SameTransfer t u) :
    SameTransfer s u :=
  ⟨h.total.trans h'.total, h.block.trans h'.block, h.nblocks.trans h'.nblocks,
    h.expected.trans h'.expected⟩

/-- A fragment that runs past the payload changes nothing; any other is written. -/
theorem accept_cases (s : CiSvu) (f : Fragment) :
    (s.total.toNat < f.offset.toNat + f.buf.length ∧ ciSvuAccept s f = (s, -1)) ∨
    (f.offset.toNat + f.buf.length ≤ s.total.toNat ∧ (ciSvuAccept s f).2 = 0 ∧
      SameTransfer (ciSvuAccept s f).1 s ∧
      ∀ i, (ciSvuAccept s f).1.data[i]? = (f.write.cell i).or s.data[i]? ∧
        (ciSvuAccept s f).1.covered[i]? =
          if f.write.Covers i then s.covered[i]?.map fun _ => true else s.covered[i]?) := by
  by_cases past : s.total.toNat < f.offset.toNat + f.buf.length
  · left
    refine ⟨past, ?_⟩
    rw [ciSvuAccept, dif_pos past]
  · right
    have fits : f.write.off + f.write.buf.length ≤ s.data.length := by
      rw [s.data_size]
      exact Nat.le_of_not_lt past
    refine ⟨Nat.le_of_not_lt past, ?_⟩
    rw [ciSvuAccept, dif_neg past]
    refine ⟨rfl, ⟨rfl, rfl, rfl, rfl⟩, ?_⟩
    intro i
    refine ⟨?_, markCovered_getElem? _ _ _ _ i⟩
    by_cases bytes : 0 < f.buf.length
    · simp only [if_pos bytes]
      exact getElem?_splice s.data f.write fits i
    · have empty : f.write.cell i = none := by
        rw [← Option.not_isSome_iff_eq_none, cell_isSome]
        rintro ⟨lo, hi⟩
        simp only [Fragment.write] at lo hi
        omega
      simp only [if_neg bytes, empty]
      rfl

/-- The tracker after the writes `ws`, in terms of those writes. -/
structure Delivered (s₀ s : CiSvu) (ws : List (Write UInt8)) : Prop where
  same : SameTransfer s s₀
  data : ∀ i < s₀.total.toNat, s.data[i]? = some ((lastCell ws i).getD 0)
  covered : ∀ i < s₀.total.toNat, s.covered[i]? = some (lastCell ws i).isSome

theorem accepted_snoc {fs : List Fragment} {rcs : List Int} (h : fs.length = rcs.length)
    (f : Fragment) (rc : Int) :
    accepted (fs ++ [f]) (rcs ++ [rc]) =
      accepted fs rcs ++ if rc = 0 then [f.write] else [] := by
  rw [accepted, List.zip_append h, List.filter_append, List.map_append]
  by_cases ok : rc = 0 <;> simp [accepted, ok]

theorem delivered_write {s₀ s : CiSvu} {ws : List (Write UInt8)} (h : Delivered s₀ s ws)
    {f : Fragment} {t : CiSvu} (same : SameTransfer t s)
    (cells : ∀ i, t.data[i]? = (f.write.cell i).or s.data[i]? ∧
      t.covered[i]? =
        if f.write.Covers i then s.covered[i]?.map fun _ => true else s.covered[i]?) :
    Delivered s₀ t (ws ++ [f.write]) := by
  refine ⟨same.trans h.same, ?_, ?_⟩
  · intro i hi
    rw [(cells i).1, h.data i hi, lastCell_snoc]
    cases f.write.cell i <;> rfl
  · intro i hi
    have hsome := cell_isSome f.write i
    rw [(cells i).2, h.covered i hi, lastCell_snoc, Option.isSome_or]
    by_cases covers : f.write.Covers i
    · rw [if_pos covers, hsome.mpr covers]
      rfl
    · rw [if_neg covers, Bool.eq_false_iff.mpr (mt hsome.mp covers)]
      rfl

theorem delivered_step {s₀ s : CiSvu} {fs : List Fragment} {rcs : List Int}
    (hlen : fs.length = rcs.length) (h : Delivered s₀ s (accepted fs rcs)) (f : Fragment) :
    Delivered s₀ (ciSvuAccept s f).1 (accepted (fs ++ [f]) (rcs ++ [(ciSvuAccept s f).2])) := by
  rw [accepted_snoc hlen]
  rcases accept_cases s f with ⟨_, eq⟩ | ⟨_, rc, same, cells⟩
  · rw [eq]
    simpa using h
  · rw [rc, if_pos rfl]
    exact delivered_write h same cells

/-- The run lemma: every delivery history leaves the last writes. -/
theorem delivered_run (s₀ : CiSvu) (fs : List Fragment)
    (fresh : Delivered s₀ s₀ []) :
    Delivered s₀ (run ciSvuAccept s₀ fs).1 (accepted fs (run ciSvuAccept s₀ fs).2) := by
  have inv := run_history ciSvuAccept
    (fun s fs rcs => fs.length = rcs.length ∧ Delivered s₀ s (accepted fs rcs))
    (by
      rintro s fs rcs f ⟨hlen, h⟩
      exact ⟨by simp [hlen], delivered_step hlen h f⟩)
    ⟨rfl, fresh⟩ fs
  exact inv.2

theorem new_cases {heap : Bool} {total block : UInt32} {expected : List UInt8}
    {nblocks : UInt32} {s : CiSvu}
    (h : ciSvuNew heap total block expected nblocks = .ok (some s)) :
    s.total = total ∧ s.block = block ∧ s.nblocks = nblocks ∧
      s.expected = expected.take (nblocks.toNat * ciSvuHashLen) ∧ Delivered s s [] := by
  simp only [ciSvuNew] at h
  split at h
  · cases h
  · rename_i hn
    have hblocks : ciSvuNblocks total block = nblocks := by
      by_contra hne
      exact hn (Or.inr hne)
    split at h
    · cases h
    · split at h
      · cases h
        refine ⟨rfl, rfl, hblocks, by simp only [hblocks], SameTransfer.refl _, ?_, ?_⟩
        · intro i hi
          simp only at hi ⊢
          rw [List.getElem?_replicate_of_lt hi]
          rfl
        · intro i hi
          simp only at hi ⊢
          rw [List.getElem?_replicate_of_lt hi]
          rfl
      · cases h

theorem new_ok (total block : UInt32) (expected : List UInt8)
    (hn : ciSvuNblocks total block ≠ 0)
    (hlen : (ciSvuNblocks total block).toNat * ciSvuHashLen ≤ expected.length) :
    ∃ s, ciSvuNew true total block expected (ciSvuNblocks total block) = .ok (some s) := by
  have agree : ¬ (ciSvuNblocks total block = 0 ∨
      ciSvuNblocks total block ≠ ciSvuNblocks total block) := by simp [hn]
  simp only [ciSvuNew, dif_neg agree, dif_pos hlen, not_true_eq_false, if_false]
  exact ⟨_, rfl⟩

theorem Delivered.covered_iff {s₀ s : CiSvu} {ws : List (Write UInt8)}
    (h : Delivered s₀ s ws) {i : Nat} (hi : i < s₀.total.toNat) :
    s.covered[i]? = some true ↔ ∃ w ∈ ws, w.Covers i := by
  rw [h.covered i hi, Option.some_inj]
  exact lastCell_isSome ws i

theorem Delivered.allCovered_iff {s₀ s : CiSvu} {ws : List (Write UInt8)}
    (h : Delivered s₀ s ws) :
    allCovered s ↔ ∀ i < s₀.total.toNat, ∃ w ∈ ws, w.Covers i := by
  rw [allCovered, h.same.total]
  exact forall₂_congr fun i hi => h.covered_iff hi

theorem count_true_eq_card (l : List Bool) :
    l.count true = ((Finset.range l.length).filter fun i => l[i]? = some true).card := by
  induction l using List.reverseRecOn with
  | nil => rfl
  | append_singleton l v ih =>
    have before : (Finset.range l.length).filter (fun i => (l ++ [v])[i]? = some true) =
        (Finset.range l.length).filter fun i => l[i]? = some true := by
      apply Finset.filter_congr
      intro i hi
      rw [List.getElem?_append_left (Finset.mem_range.mp hi)]
    rw [List.count_append, List.length_append, List.length_singleton, Finset.range_add_one,
      Finset.filter_insert, before, ih]
    cases v <;> simp

theorem Delivered.count_eq {s₀ s : CiSvu} {ws : List (Write UInt8)} (h : Delivered s₀ s ws) :
    s.coveredCount.toNat =
      ((Finset.range s₀.total.toNat).filter fun i => ∃ w ∈ ws, w.Covers i).card := by
  rw [s.count_eq, count_true_eq_card, s.covered_size, h.same.total]
  congr 1
  apply Finset.filter_congr
  intro i hi
  exact h.covered_iff (Finset.mem_range.mp hi)

/-- A byte is the one the last fragment over it brought, and 0 if there is none. -/
theorem Delivered.byte {s₀ s : CiSvu} {ws : List (Write UInt8)} (h : Delivered s₀ s ws)
    {i : Nat} (hi : i < s₀.total.toNat) :
    (∀ before w after, ws = before ++ w :: after → w.Covers i →
      (∀ v ∈ after, ¬ v.Covers i) → s.data[i]? = w.buf[i - w.off]?) ∧
    ((∀ w ∈ ws, ¬ w.Covers i) → s.data[i]? = some 0) := by
  constructor
  · rintro before w after hws covers later
    obtain ⟨byte, hbyte⟩ := Option.isSome_iff_exists.mp ((cell_isSome w i).mpr covers)
    have last := (lastCell_eq_some_iff ws i byte).mpr ⟨before, w, after, hws, hbyte, later⟩
    rw [h.data i hi, last]
    rw [Write.cell, if_pos covers.1] at hbyte
    rw [hbyte]
    rfl
  · intro none
    have hnone : lastCell ws i = Option.none := by
      rw [← Option.not_isSome_iff_eq_none, lastCell_isSome]
      rintro ⟨w, hw, covers⟩
      exact none w hw covers
    rw [h.data i hi, hnone]
    rfl

end CspLinksim.Svu
