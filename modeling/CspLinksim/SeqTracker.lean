import Mathlib.Data.Finset.Card
import Mathlib.Data.Int.Interval
import Mathlib.Order.Bounds.Basic
import CspLinksim.Meas

/-!
# What the sequence tracker counts

The tracker sees low 16 bits; these results speak about the true positions. One
invariant ties the head, the four counters and the circular bitmap to the set of
positions fed so far, and each return value is read off that set.
-/

namespace CspLinksim.SeqTracker

open Runs Window Meas

def feedAt (t : CiSeqTracker) (u : Int) : CiSeqTracker × Nat :=
  ciSeqTrackerFeed t (UInt16.ofInt u)

def trackerAfter (us : List Int) : CiSeqTracker := (run feedAt ciSeqTrackerInit us).1

def returns (us : List Int) : List Nat := (run feedAt ciSeqTrackerInit us).2

/-- The promise on one more position: below 2^16 if it is the first, and otherwise
less than 2^15 ahead of and less than the window behind the highest one. -/
def Near (prior : List Int) (u : Int) : Prop :=
  match prior.max? with
  | none => 0 ≤ u ∧ u < 65536
  | some m => u < m + 32768 ∧ m < u + ciSeqWin

instance (prior : List Int) (u : Int) : Decidable (Near prior u) := by
  unfold Near
  cases prior.max? <;> exact instDecidableAnd

def Admissible (us : List Int) : Prop :=
  ∀ (i : Fin us.length), Near (us.take i) (us.get i)

instance (us : List Int) : Decidable (Admissible us) :=
  inferInstanceAs (Decidable (∀ _ : Fin us.length, _))

/-- What a return value says about the positions fed before. -/
structure Classified (prior : List Int) (u : Int) (r : Nat) : Prop where
  inOrder : r = 0 ↔ prior = [] ∨ IsGreatest {p | p ∈ prior} (u - 1)
  gap : r = 1 ↔ prior ≠ [] ∧ ∀ p ∈ prior, p + 1 < u
  duplicate : r = 2 ↔ u ∈ prior
  reorder : r = 3 ↔ u ∉ prior ∧ ∃ p ∈ prior, u < p

/-- What the fields say about the positions fed and the values returned. -/
structure Summary (t : CiSeqTracker) (us : List Int) (rs : List Nat) : Prop where
  have_ : t.have_ = true
  first : us.head? = some (t.first : Int)
  max : IsGreatest {p | p ∈ us} (t.max : Int)
  epoch : t.epoch = UInt32.ofNat (t.max >>> 16)
  distinct : t.nDistinct = us.toFinset.card
  dup : t.nDup = rs.count 2
  reorder : t.nReorder = rs.count 3
  seen : t.nSeen = t.nDistinct + t.nDup
  balance : (t.max - t.first + 1) + t.nReorder = t.nDistinct + t.nGap

/-- The invariant: the summary, and the bitmap below the head. -/
structure Tracking (t : CiSeqTracker) (us : List Int) (rs : List Nat) : Prop
    extends Summary t us rs where
  window : Tracks ciSeqWin (slots t.seen) {p | p ∈ us} t.max

theorem max?_eq_some_iff {us : List Int} {m : Int} :
    us.max? = some m ↔ IsGreatest {p | p ∈ us} m :=
  List.max?_eq_some_iff

theorem Near.of_greatest {prior : List Int} {u m : Int} (near : Near prior u)
    (hm : IsGreatest {p | p ∈ prior} m) : u < m + 32768 ∧ m < u + ciSeqWin := by
  simpa only [Near, max?_eq_some_iff.mpr hm] using near

theorem Summary.first_le_max {t : CiSeqTracker} {us : List Int} {rs : List Nat}
    (h : Summary t us rs) : t.first ≤ t.max := by
  have := h.max.2 (List.mem_of_mem_head? h.first)
  omega

theorem Summary.ne_nil {t : CiSeqTracker} {us : List Int} {rs : List Nat}
    (h : Summary t us rs) : us ≠ [] := by
  rintro rfl
  cases h.first

theorem feedAt_first (u : Int) (lo : 0 ≤ u) (hi : u < 65536) :
    feedAt ciSeqTrackerInit u =
      ({ ciSeqTrackerInit with
          have_ := true
          first := u.toNat
          max := u.toNat
          nSeen := 1
          nDistinct := 1
          seen := seqBitSet ciSeqTrackerInit.seen u true
          epoch := UInt32.ofNat (u.toNat >>> 16) }, 0) := by
  have hu : (UInt16.ofInt u).toNat = u.toNat := by
    have := toNat_ofInt u
    omega
  simp only [feedAt, ciSeqTrackerFeed, ciSeqTrackerInit, hu, Int.toNat_of_nonneg lo,
    Bool.false_eq_true, not_false_eq_true, if_true, Nat.zero_add]

theorem feedAt_ahead (t : CiSeqTracker) (started : t.have_ = true) (u : Int)
    (ahead : t.max < u) (near : u < t.max + 32768) :
    let lo : Int := if u - t.max > ciSeqWin then u - ciSeqWin else t.max + 1
    feedAt t u =
      ({ t with
          nSeen := t.nSeen + 1
          seen := seqBitSet (clearHoles t.seen lo (u - lo).toNat) u true
          max := u.toNat
          nDistinct := t.nDistinct + 1
          epoch := UInt32.ofNat (u.toNat >>> 16)
          nGap := t.nGap + (u - t.max - 1).toNat },
        if u = t.max + 1 then 0 else 1) := by
  have hdiff := seqDiff_near u t.max (by omega) (by omega)
  have hpos : 0 < u - t.max := by omega
  have hsum : (t.max : Int) + (u - t.max) = u := by omega
  simp only [feedAt, ciSeqTrackerFeed, started, hdiff, hsum, hpos, not_true_eq_false, if_false,
    if_true]
  by_cases next : u = t.max + 1
  · have hone : u - t.max = 1 := by omega
    simp [next]
  · have hfar : 1 < u - t.max := by omega
    simp only [if_pos hfar, if_neg next]

theorem feedAt_behind (t : CiSeqTracker) (started : t.have_ = true) (u : Int)
    (behind : u ≤ t.max) (near : t.max < u + ciSeqWin) :
    feedAt t u =
      if seqBitGet t.seen u then
        ({ t with nSeen := t.nSeen + 1, nDup := t.nDup + 1 }, 2)
      else
        ({ t with
            nSeen := t.nSeen + 1
            seen := seqBitSet t.seen u true
            nDistinct := t.nDistinct + 1
            nReorder := t.nReorder + 1 }, 3) := by
  have hwin : ciSeqWin = 2048 := rfl
  have hdiff := seqDiff_near u t.max (by omega) (by omega)
  have hneg : ¬ 0 < u - t.max := by omega
  have hsum : (t.max : Int) + (u - t.max) = u := by omega
  simp only [feedAt, ciSeqTrackerFeed, started, hdiff, hsum, hneg, not_true_eq_false, if_false]

theorem positions_snoc (us : List Int) (u : Int) :
    {p | p ∈ us ++ [u]} = insert u {p | p ∈ us} := by
  ext p
  simp [or_comm]

theorem head?_snoc {us : List Int} {first : Int} (h : us.head? = some first) (u : Int) :
    (us ++ [u]).head? = some first := by
  rw [List.head?_append, h]
  rfl

theorem card_snoc (us : List Int) (u : Int) :
    (us ++ [u]).toFinset.card = us.toFinset.card + if u ∈ us then 0 else 1 := by
  have hset : (us ++ [u]).toFinset = insert u us.toFinset := by
    ext p
    simp
  rw [hset]
  by_cases hu : u ∈ us
  · rw [Finset.insert_eq_of_mem (List.mem_toFinset.mpr hu), if_pos hu]
    rfl
  · rw [Finset.card_insert_of_notMem (by simpa using hu), if_neg hu]

theorem isGreatest_ahead {us : List Int} {m u : Int} (hm : IsGreatest {p | p ∈ us} m)
    (ahead : m < u) : IsGreatest {p | p ∈ us ++ [u]} u := by
  rw [positions_snoc]
  refine ⟨Set.mem_insert u _, ?_⟩
  rintro p (rfl | hp)
  · exact le_rfl
  · exact le_trans (hm.2 hp) (le_of_lt ahead)

theorem isGreatest_behind {us : List Int} {m u : Int} (hm : IsGreatest {p | p ∈ us} m)
    (behind : u ≤ m) : IsGreatest {p | p ∈ us ++ [u]} m := by
  rw [positions_snoc]
  refine ⟨Set.mem_insert_of_mem u hm.1, ?_⟩
  rintro p (rfl | hp)
  · exact behind
  · exact hm.2 hp

theorem count_snoc (rs : List Nat) (r c : Nat) :
    (rs ++ [r]).count c = rs.count c + if r = c then 1 else 0 := by
  rw [List.count_append, List.count_singleton]
  simp

theorem tracking_first (u : Int) (lo : 0 ≤ u) (hi : u < 65536) :
    Tracking (feedAt ciSeqTrackerInit u).1 [u] [(feedAt ciSeqTrackerInit u).2] ∧
    Classified [] u (feedAt ciSeqTrackerInit u).2 := by
  have hu := Int.toNat_of_nonneg lo
  rw [feedAt_first u lo hi]
  constructor
  · refine ⟨⟨rfl, ?_, ?_, rfl, ?_, rfl, rfl, rfl, ?_⟩, ?_⟩
    · simp [hu]
    · simp [hu, IsGreatest, upperBounds]
    · simp
    · simp [ciSeqTrackerInit]
    · intro p plo phi
      simp only [hu] at plo phi
      rw [slots_set]
      by_cases hp : p = u
      · simp [put, hp]
      · have hne : slotOf ciSeqWin p ≠ slotOf ciSeqWin u := fun same =>
          hp (eq_of_slotOf_eq same (by omega) (by unfold ciSeqWin; omega))
        rw [put, Function.update_of_ne hne, slots_slotOf]
        simp only [seqBitGet, ciSeqTrackerInit, getBit_iff _ _ (low3_lt _)]
        simp [Vector.get, hp]
  · exact ⟨by simp, by simp, by simp, by simp⟩

theorem tracking_ahead {t : CiSeqTracker} {us : List Int} {rs : List Nat}
    (h : Tracking t us rs) (u : Int) (ahead : t.max < u) (near : u < t.max + 32768) :
    Tracking (feedAt t u).1 (us ++ [u]) (rs ++ [(feedAt t u).2]) ∧
    Classified us u (feedAt t u).2 := by
  have hu : ((u.toNat : Nat) : Int) = u := by omega
  have new : u ∉ us := fun hmem => by
    have := h.max.2 hmem
    omega
  have hle := h.first_le_max
  obtain ⟨r, hr⟩ : ∃ r, r = if u = t.max + 1 then 0 else 1 := ⟨_, rfl⟩
  have zero : r = 0 ↔ u = t.max + 1 := by split at hr <;> simp_all
  have one : r = 1 ↔ u ≠ t.max + 1 := by split at hr <;> simp_all
  have small : r ≠ 2 ∧ r ≠ 3 := by split at hr <;> simp_all
  rw [feedAt_ahead t h.have_ u ahead near, ← hr]
  constructor
  · refine ⟨⟨h.have_, head?_snoc h.first u, ?_, rfl, ?_, ?_, ?_, ?_, ?_⟩, ?_⟩
    · simpa only [hu] using isGreatest_ahead h.max ahead
    · rw [card_snoc, if_neg new, ← h.distinct]
    · rw [count_snoc, if_neg small.1, ← h.dup]
      rfl
    · rw [count_snoc, if_neg small.2, ← h.reorder]
      rfl
    · have := h.seen
      simp only
      omega
    · have := h.balance
      simp only
      omega
    · rw [positions_snoc, slots_set, slots_clearHoles]
      simp only [hu]
      exact tracks_advance h.window (fun p hp => h.max.2 hp) ahead rfl
  · refine ⟨?_, ?_, ?_, ?_⟩
    · rw [or_iff_right h.ne_nil, zero]
      constructor
      · rintro rfl
        simpa using h.max
      · intro hg
        have := hg.unique h.max
        omega
    · rw [one]
      constructor
      · intro far
        refine ⟨h.ne_nil, fun p hp => ?_⟩
        have := h.max.2 hp
        omega
      · rintro ⟨_, all⟩
        have := all _ h.max.1
        omega
    · exact iff_of_false small.1 new
    · refine iff_of_false small.2 ?_
      rintro ⟨_, p, hp, hlt⟩
      have := h.max.2 hp
      omega

theorem tracking_behind {t : CiSeqTracker} {us : List Int} {rs : List Nat}
    (h : Tracking t us rs) (u : Int) (behind : u ≤ t.max) (near : t.max < u + ciSeqWin) :
    Tracking (feedAt t u).1 (us ++ [u]) (rs ++ [(feedAt t u).2]) ∧
    Classified us u (feedAt t u).2 := by
  have hbit : seqBitGet t.seen u = true ↔ u ∈ us := by
    rw [← slots_slotOf]
    exact h.window u (by omega) behind
  have notNext : ¬ IsGreatest {p | p ∈ us} (u - 1) := fun hg => by
    have := hg.unique h.max
    omega
  have notGap : ¬ ∀ p ∈ us, p + 1 < u := fun all => by
    have := all _ h.max.1
    omega
  have hhead := head?_snoc h.first u
  have hmax := isGreatest_behind h.max behind
  rw [feedAt_behind t h.have_ u behind near]
  by_cases fed : u ∈ us
  · rw [if_pos (hbit.mpr fed)]
    constructor
    · refine ⟨⟨h.have_, hhead, hmax, h.epoch, ?_, ?_, ?_, ?_, h.balance⟩, ?_⟩
      · rw [card_snoc, if_pos fed, ← h.distinct]
        rfl
      · rw [count_snoc, ← h.dup]
        rfl
      · rw [count_snoc, ← h.reorder]
        rfl
      · have := h.seen
        simp only
        omega
      · rw [positions_snoc, Set.insert_eq_of_mem (show u ∈ {p | p ∈ us} from fed)]
        exact h.window
    · exact ⟨by simp [h.ne_nil, notNext], by simpa [h.ne_nil] using notGap, by simp [fed],
        by simp [fed]⟩
  · have clear : ¬ seqBitGet t.seen u = true := mt hbit.mp fed
    rw [if_neg clear]
    constructor
    · refine ⟨⟨h.have_, hhead, hmax, h.epoch, ?_, ?_, ?_, ?_, ?_⟩, ?_⟩
      · rw [card_snoc, if_neg fed, ← h.distinct]
      · rw [count_snoc, ← h.dup]
        rfl
      · rw [count_snoc, ← h.reorder]
        rfl
      · have := h.seen
        simp only
        omega
      · have := h.balance
        simp only
        omega
      · rw [positions_snoc, slots_set]
        have lo : (t.max : Int) - ciSeqWin < u := by omega
        exact tracks_mark h.window lo behind
    · have below : ∃ p ∈ us, u < p := by
        refine ⟨t.max, h.max.1, ?_⟩
        have hne : u ≠ t.max := fun heq => fed (heq ▸ h.max.1)
        omega
      exact ⟨by simp [h.ne_nil, notNext], by simpa [h.ne_nil] using notGap, by simp [fed],
        by simp [fed, below]⟩

/-- The run invariant: nothing was fed yet, or the tracker tracks. -/
def Sound (t : CiSeqTracker) (us : List Int) (rs : List Nat) : Prop :=
  (t = ciSeqTrackerInit ∧ us = [] ∧ rs = []) ∨ Tracking t us rs

theorem sound_step (t : CiSeqTracker) (us : List Int) (rs : List Nat) (u : Int)
    (h : Sound t us rs) (near : Near us u) :
    Sound (feedAt t u).1 (us ++ [u]) (rs ++ [(feedAt t u).2]) ∧
    Classified us u (feedAt t u).2 := by
  rcases h with ⟨rfl, rfl, rfl⟩ | h
  · obtain ⟨lo, hi⟩ := near
    obtain ⟨tracking, classified⟩ := tracking_first u lo hi
    exact ⟨Or.inr tracking, classified⟩
  · obtain ⟨hi, lo⟩ := near.of_greatest h.max
    by_cases ahead : t.max < u
    · obtain ⟨tracking, classified⟩ := tracking_ahead h u ahead hi
      exact ⟨Or.inr tracking, classified⟩
    · obtain ⟨tracking, classified⟩ := tracking_behind h u (by omega) lo
      exact ⟨Or.inr tracking, classified⟩

theorem sound_run (us : List Int) (admissible : Admissible us) :
    Sound (trackerAfter us) us (returns us) ∧
    ∀ (i : Nat) (u : Int) (r : Nat), us[i]? = some u → (returns us)[i]? = some r →
      Classified (us.take i) u r := by
  apply run_guarded feedAt Near Sound Classified sound_step (Or.inl ⟨rfl, rfl, rfl⟩)
  intro i u hu
  obtain ⟨hi, rfl⟩ := List.getElem?_eq_some_iff.mp hu
  exact admissible ⟨i, hi⟩

/-- Every return value is right and every field counts what it is named after, in
every state a run of near positions reaches. -/
theorem feed_classifies (u : Int) (us : List Int) (admissible : Admissible (u :: us)) :
    (returns (u :: us)).length = (u :: us).length ∧
    (∀ (i : Nat) (v : Int) (r : Nat), (u :: us)[i]? = some v → (returns (u :: us))[i]? = some r →
      Classified ((u :: us).take i) v r) ∧
    Summary (trackerAfter (u :: us)) (u :: us) (returns (u :: us)) := by
  obtain ⟨sound, classified⟩ := sound_run (u :: us) admissible
  refine ⟨run_length feedAt ciSeqTrackerInit (u :: us), classified, ?_⟩
  rcases sound with ⟨_, hnil, _⟩ | tracking
  · cases hnil
  · exact tracking.toSummary

/-- A gap, its backfill, a duplicate and a jump over a 16-bit wrap. -/
theorem feed_classifies_wrap :
    Admissible [65530, 65532, 65531, 65532, 65540] ∧
    returns [65530, 65532, 65531, 65532, 65540] = [0, 1, 3, 2, 1] ∧
    Summary (trackerAfter [65530, 65532, 65531, 65532, 65540]) [65530, 65532, 65531, 65532, 65540]
      [0, 1, 3, 2, 1] := by
  have admissible : Admissible [65530, 65532, 65531, 65532, 65540] := by decide
  have hreturns : returns [65530, 65532, 65531, 65532, 65540] = [0, 1, 3, 2, 1] := by
    decide +kernel
  have h := (feed_classifies _ _ admissible).2.2
  rw [hreturns] at h
  exact ⟨admissible, hreturns, h⟩

/-- The positions from the first one captured up to the head. -/
def span (t : CiSeqTracker) : Finset Int :=
  (Finset.range (t.max + 1 - t.first)).image fun k : Nat => (t.first : Int) + k

/-- The positions of the reported span that were never fed. -/
def holes (t : CiSeqTracker) (us : List Int) : Finset Int := (span t).filter (· ∉ us)

/-- The positions fed that lie before the reported span. -/
def early (t : CiSeqTracker) (us : List Int) : Finset Int :=
  us.toFinset.filter (· < (t.first : Int))

theorem mem_span (t : CiSeqTracker) (p : Int) : p ∈ span t ↔ t.first ≤ p ∧ p ≤ t.max := by
  simp only [span, Finset.mem_image, Finset.mem_range]
  constructor
  · rintro ⟨k, hk, rfl⟩
    omega
  · rintro ⟨lo, hi⟩
    exact ⟨(p - t.first).toNat, by omega, by omega⟩

theorem card_span (t : CiSeqTracker) : (span t).card = t.max + 1 - t.first := by
  rw [span, Finset.card_image_of_injective, Finset.card_range]
  intro j k h
  simp only at h
  omega

/-- The span misses the early positions and contains the holes. -/
theorem span_balance {t : CiSeqTracker} {us : List Int} {rs : List Nat} (h : Summary t us rs) :
    (t.max - t.first + 1) + (early t us).card = t.nDistinct + (holes t us).card := by
  have hle := h.first_le_max
  have inside : us.toFinset.filter (¬ · < (t.first : Int)) =
      (span t).filter (· ∈ us) := by
    ext p
    simp only [Finset.mem_filter, List.mem_toFinset, mem_span, not_lt]
    constructor
    · rintro ⟨hp, hfirst⟩
      exact ⟨⟨hfirst, h.max.2 hp⟩, hp⟩
    · rintro ⟨⟨hfirst, _⟩, hp⟩
      exact ⟨hp, hfirst⟩
  -- count the positions fed, then those of the span, by whether they are in the other set
  have fed := Finset.card_filter_add_card_filter_not (s := us.toFinset) (· < (t.first : Int))
  have whole := Finset.card_filter_add_card_filter_not (s := span t) (· ∈ us)
  rw [inside, ← h.distinct] at fed
  rw [card_span] at whole
  rw [early, holes]
  omega

theorem loss_eq_iff {t : CiSeqTracker} {us : List Int} {rs : List Nat} (h : Summary t us rs) :
    ciSeqTrackerLoss t = (holes t us).card ↔ early t us = ∅ ∨ holes t us = ∅ := by
  have hbal := span_balance h
  rw [← Finset.card_eq_zero, ← Finset.card_eq_zero, ciSeqTrackerLoss, h.have_]
  simp only [not_true_eq_false, if_false]
  split <;> omega

/-- The reported loss is the number of holes exactly when no late frame came from
before the first one captured, or there is no hole at all. -/
theorem loss_eq_holes_iff (u : Int) (us : List Int) (admissible : Admissible (u :: us)) :
    ciSeqTrackerLoss (trackerAfter (u :: us)) =
        (holes (trackerAfter (u :: us)) (u :: us)).card ↔
      (∀ p ∈ us, u ≤ p) ∨ ∀ p, u ≤ p → (∃ q ∈ u :: us, p ≤ q) → p ∈ u :: us := by
  rcases (sound_run (u :: us) admissible).1 with ⟨_, hnil, _⟩ | tracking
  · cases hnil
  · have hfirst : ((trackerAfter (u :: us)).first : Int) = u := by
      simpa using tracking.first.symm
    have hmax := tracking.max
    rw [loss_eq_iff tracking.toSummary]
    apply or_congr
    · rw [early, Finset.filter_eq_empty_iff, hfirst]
      simp
    · rw [holes, Finset.filter_eq_empty_iff]
      constructor
      · rintro full p hlo ⟨q, hq, hpq⟩
        have hpmax := le_trans hpq (hmax.2 hq)
        exact not_not.mp (full ((mem_span _ p).mpr ⟨by rwa [hfirst], hpmax⟩))
      · intro full p hp
        obtain ⟨hlo, hhi⟩ := (mem_span _ p).mp hp
        rw [hfirst] at hlo
        exact not_not.mpr (full p hlo ⟨_, hmax.1, hhi⟩)

theorem loss_eq_holes_in_order :
    ciSeqTrackerLoss (trackerAfter [5, 7]) = (holes (trackerAfter [5, 7]) [5, 7]).card :=
  (loss_eq_holes_iff 5 [7] (by decide)).mpr (Or.inl (by decide))

/-- Position 6 was never fed, yet the frame from before the capture hides it. -/
theorem early_frame_hides_a_hole :
    Admissible [5, 3, 7] ∧
    ciSeqTrackerLoss (trackerAfter [5, 3, 7]) ≠
      (holes (trackerAfter [5, 3, 7]) [5, 3, 7]).card := by
  have hloss : ciSeqTrackerLoss (trackerAfter [5, 3, 7]) = 0 := by decide +kernel
  have hfirst : (trackerAfter [5, 3, 7]).first = 5 := by decide +kernel
  have hmax : (trackerAfter [5, 3, 7]).max = 7 := by decide +kernel
  refine ⟨by decide, ?_⟩
  rw [hloss, holes, span, hfirst, hmax]
  decide

end CspLinksim.SeqTracker
