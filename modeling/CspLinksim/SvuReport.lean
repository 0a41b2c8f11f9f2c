import CspLinksim.SvuBlocks

/-!
# The re-request list in the caller's array

`ci_svu_verify` fills an array of its caller and counts on past the end of it. Here its
loops run over that array slot by slot, and one that is still running when its rounds
are used up is a fault.
-/

namespace CspLinksim.Svu

open Gaps

/-- The array `out` with slots for `max` intervals, `none` for `NULL`. -/
structure OutArray where
  max : UInt32
  out : Option (List CiSvuInterval)
  room : ∀ slots, out = some slots → max.toNat ≤ slots.length

/-- What a call leaves: the tracker, the verdict, the array and `*nout`. -/
structure VerifyReturn where
  tracker : CiSvu
  status : CiSvuStatus
  out : Option (List CiSvuInterval)
  nout : UInt32

/-- `push_interval` on the array and the count. -/
def pushSlot (max : UInt32) (acc : Option (List CiSvuInterval) × UInt32) (iv : CiSvuInterval) :
    Option (List CiSvuInterval) × UInt32 :=
  (acc.1.map fun slots => if acc.2 < max then slots.set acc.2.toNat iv else slots, acc.2 + 1)

/-- The inner loop over a run of uncovered bytes. -/
def runLoop (covered : List Bool) : Nat → Nat → Except Fault Nat
  | 0, _ => .error .diverges
  | n + 1, run => if covered[run]? = some false then runLoop covered n (run + 1) else .ok run

/-- The outer loop over the holes, at byte `i`. -/
def scanLoop (max : UInt32) (covered : List Bool) : Nat → Nat →
    Option (List CiSvuInterval) × UInt32 → Except Fault (Option (List CiSvuInterval) × UInt32)
  | 0, _, _ => .error .diverges
  | n + 1, i, acc =>
    if i < covered.length then
      if covered[i]? = some false then
        match runLoop covered (covered.length + 1) i with
        | .error e => .error e
        | .ok run =>
          scanLoop max covered n run (pushSlot max acc ⟨UInt32.ofNat i, UInt32.ofNat run⟩)
      else scanLoop max covered n (i + 1) acc
    else .ok acc

/-- One round of the loop over the blocks. -/
def checkSlot (max : UInt32) (s : CiSvu)
    (acc : CiSvuStatus × Option (List CiSvuInterval) × UInt32) (b : Nat) :
    CiSvuStatus × Option (List CiSvuInterval) × UInt32 :=
  if hashBlock s.data s.total s.block b ≠ digest s.expected b then
    let start := b * s.block.toNat
    let stop := min (start + s.block.toNat) s.total.toNat
    (.corrupt, pushSlot max acc.2 ⟨UInt32.ofNat start, UInt32.ofNat stop⟩)
  else acc

/-- `ci_svu_verify` on an array of its caller. -/
def ciSvuVerifyInto (s : CiSvu) (a : OutArray) : Except Fault VerifyReturn :=
  if s.coveredCount < s.total then
    match scanLoop a.max s.covered (s.total.toNat + 1) 0 (a.out, 0) with
    | .error e => .error e
    | .ok acc => .ok { tracker := s, status := .incomplete, out := acc.1, nout := acc.2 }
  else
    let acc := (List.range s.nblocks.toNat).foldl (checkSlot a.max s) (.completeVerified, a.out, 0)
    .ok { tracker := s, status := acc.1, out := acc.2.1, nout := acc.2.2 }

theorem runLoop_ok (covered : List Bool) (n run : Nat) (enough : covered.length ≤ run + n) :
    runLoop covered (n + 1) run = .ok (runEnd covered n run) := by
  induction n generalizing run with
  | zero =>
    rw [runLoop, runEnd, List.getElem?_eq_none (by omega), if_neg (by simp)]
  | succ n ih =>
    rw [runLoop, runEnd]
    split
    · exact ih (run + 1) (by omega)
    · rfl

/-- The loop over the holes pushes them in order. -/
theorem scanLoop_ok (max : UInt32) (covered : List Bool) (n i : Nat)
    (acc : Option (List CiSvuInterval) × UInt32) (enough : covered.length ≤ i + n) :
    scanLoop max covered (n + 1) i acc =
      .ok (((missing covered n i).map toInterval).foldl (pushSlot max) acc) := by
  induction n generalizing i acc with
  | zero =>
    rw [scanLoop, if_neg (by omega)]
    rfl
  | succ n ih =>
    rw [scanLoop, missing]
    by_cases hi : i < covered.length
    · rw [if_pos hi, if_pos hi]
      by_cases hole : covered[i]? = some false
      · have hlt := lt_runEnd covered hole
        rw [if_pos hole, if_pos hole, runLoop_ok covered _ _ (by omega)]
        exact ih _ _ (by omega)
      · rw [if_neg hole, if_neg hole]
        exact ih _ _ (by omega)
    · rw [if_neg hi, if_neg hi]
      rfl

theorem checkSlots_eq (max : UInt32) (s : CiSvu) (st : CiSvuStatus)
    (acc : Option (List CiSvuInterval) × UInt32) (bs : List Nat) :
    bs.foldl (checkSlot max s) (st, acc) =
      (if bs.filter (isBad s) = [] then st else .corrupt,
        ((bs.filter (isBad s)).map fun b => toInterval (blockRange s b)).foldl (pushSlot max)
          acc) := by
  induction bs generalizing st acc with
  | nil => rfl
  | cons b bs ih =>
    rw [List.foldl_cons, checkSlot]
    by_cases bad : isBad s b = true
    · have hash : hashBlock s.data s.total s.block b ≠ digest s.expected b := by
        simpa [isBad] using bad
      have tail := ih .corrupt (pushSlot max acc (toInterval (blockRange s b)))
      simp only [toInterval, blockRange] at tail
      simp only [if_pos hash, List.filter_cons_of_pos bad, tail]
      simp [toInterval, blockRange]
    · have hash : ¬ hashBlock s.data s.total s.block b ≠ digest s.expected b := by
        simpa [isBad] using bad
      rw [if_neg hash, ih, List.filter_cons_of_neg bad]

/-- The two loops push what `reported` lists. -/
theorem ciSvuVerifyInto_eq (s : CiSvu) (a : OutArray) :
    ciSvuVerifyInto s a = .ok
      { tracker := s
        status := status s
        out := ((reported s).foldl (pushSlot a.max) (a.out, 0)).1
        nout := ((reported s).foldl (pushSlot a.max) (a.out, 0)).2 } := by
  rw [ciSvuVerifyInto, status, reported, reportedRuns]
  by_cases hole : holes s ≠ []
  · have scan := scanLoop_ok a.max s.covered s.total.toNat 0 (a.out, 0)
      (by rw [s.covered_size]; omega)
    rw [if_pos ((count_lt_iff s).mpr hole), if_pos hole, if_pos hole, scan]
    rfl
  · have check := checkSlots_eq a.max s .completeVerified (a.out, 0) (List.range s.nblocks.toNat)
    rw [if_neg (mt (count_lt_iff s).mp hole), if_neg hole, if_neg hole, check]
    unfold badBlocks
    by_cases bad : (List.range s.nblocks.toNat).filter (isBad s) = []
    · simp [bad]
    · simp [bad, Function.comp_def]

/-- The slots after a call that reported `l`: its first `max` intervals, and behind them
what was there before. -/
structure Reports (max : UInt32) (l : List CiSvuInterval) (out out' : Option (List CiSvuInterval)) :
    Prop where
  null : out = none → out' = none
  slots : ∀ before, out = some before → ∃ after, out' = some after ∧
    after.length = before.length ∧
    ∀ j, after[j]? = if j < min max.toNat l.length then l[j]? else before[j]?

theorem reports_nil (max : UInt32) (out : Option (List CiSvuInterval)) :
    Reports max [] out out := by
  refine ⟨fun h => h, fun before h => ⟨before, h, rfl, fun j => ?_⟩⟩
  rw [if_neg (by simp)]

/-- One more interval takes the next slot, if there is one. -/
theorem reports_push {max : UInt32} {l : List CiSvuInterval}
    {out out' : Option (List CiSvuInterval)} (h : Reports max l out out') {nout : UInt32}
    (counted : nout.toNat = l.length) (room : ∀ before, out = some before →
      max.toNat ≤ before.length) (iv : CiSvuInterval) :
    Reports max (l ++ [iv]) out (pushSlot max (out', nout) iv).1 := by
  refine ⟨fun hnull => by rw [pushSlot, h.null hnull]; rfl, fun before hbefore => ?_⟩
  obtain ⟨after, hafter, hlen, cells⟩ := h.slots before hbefore
  have hroom := room before hbefore
  simp only [pushSlot, hafter, Option.map_some, Option.some_inj, exists_eq_left',
    List.length_append, List.length_singleton]
  by_cases free : nout < max
  · have hfree := UInt32.lt_iff_toNat_lt.mp free
    rw [if_pos free, counted]
    refine ⟨by rw [List.length_set, hlen], fun j => ?_⟩
    rw [List.getElem?_set, cells j]
    by_cases next : l.length = j
    · subst j
      rw [if_pos rfl, if_pos (by omega), if_pos (by omega)]
      simp
    · rw [if_neg next]
      by_cases old : j < min max.toNat l.length
      · rw [if_pos old, if_pos (by omega), List.getElem?_append_left (by omega)]
      · rw [if_neg old, if_neg (by omega)]
  · have hfull : ¬ nout.toNat < max.toNat := fun lt => free (UInt32.lt_iff_toNat_lt.mpr lt)
    rw [if_neg free]
    refine ⟨hlen, fun j => ?_⟩
    rw [cells j]
    by_cases old : j < min max.toNat l.length
    · rw [if_pos old, if_pos (by omega), List.getElem?_append_left (by omega)]
    · rw [if_neg old, if_neg (by omega)]

theorem pushSlots_spec (a : OutArray) (l : List CiSvuInterval) (small : l.length < 4294967296) :
    (l.foldl (pushSlot a.max) (a.out, 0)).2.toNat = l.length ∧
      Reports a.max l a.out (l.foldl (pushSlot a.max) (a.out, 0)).1 := by
  induction l using List.reverseRecOn with
  | nil => exact ⟨rfl, reports_nil a.max a.out⟩
  | append_singleton l iv ih =>
    rw [List.length_append, List.length_singleton] at small
    obtain ⟨count, reports⟩ := ih (by omega)
    rw [List.foldl_append, List.foldl_cons, List.foldl_nil]
    refine ⟨?_, reports_push reports count a.room iv⟩
    have hone : UInt32.toNat 1 = 1 := rfl
    rw [pushSlot, UInt32.toNat_add, count, List.length_append, List.length_singleton, hone]
    exact Nat.mod_eq_of_lt (by omega)

/-- Byte `i` of the payload has not arrived. -/
def Uncovered (s : CiSvu) (i : Nat) : Prop := i < s.total.toNat ∧ s.covered[i]? = some false

theorem inRuns_holes_iff (s : CiSvu) (i : Nat) : InRuns (holes s) i ↔ Uncovered s i := by
  constructor
  · intro h
    exact ⟨hole_lt s h, (inRuns_holes s i).mp h⟩
  · intro h
    exact (inRuns_holes s i).mpr h.2

theorem mem_holes_iff (s : CiSvu) (r : Nat × Nat) :
    r ∈ holes s ↔ MaximalRun (Uncovered s) r := by
  rw [separated_mem_iff (holes_separated s) r, funext fun i => propext (inRuns_holes_iff s i)]

theorem reportedRuns_bounds (r : CiSvu) {q : Nat × Nat} (hq : q ∈ reportedRuns r) :
    q.1 < q.2 ∧ q.2 ≤ r.total.toNat := by
  rw [reportedRuns] at hq
  split at hq
  · have hlt := (holes_separated r).lt hq
    have last := hole_lt r (i := q.2 - 1) ⟨q, hq, by omega, by omega⟩
    omega
  · obtain ⟨b, hb, rfl⟩ := List.mem_map.mp hq
    have hn : ciSvuNblocks r.total r.block ≠ 0 := r.nblocks_eq ▸ r.nblocks_ne
    have hlt := List.mem_range.mp (List.mem_of_mem_filter hb)
    rw [r.nblocks_eq] at hlt
    have hstart := blockStart_lt hn hlt
    have hblock := (nblocks_pos hn).2.1
    simp only [blockRange]
    omega

theorem reported_ne_nil {r : CiSvu} (unfinished : status r ≠ .completeVerified) :
    reportedRuns r ≠ [] := by
  intro none
  apply unfinished
  rw [reportedRuns] at none
  rw [status]
  split at none
  · rename_i hole
    exact absurd none hole
  · rename_i hole
    rw [if_neg hole, if_neg (not_not.mpr (List.map_eq_nil_iff.mp none))]

/-- The digest of block `b` is not the one the manifest gives. -/
def DigestDiffers (s : CiSvu) (b : Nat) : Prop :=
  hashBlock s.data s.total s.block b ≠ digest s.expected b

theorem mem_badBlocks_iff (s : CiSvu) (b : Nat) :
    b ∈ badBlocks s ↔ b < s.nblocks.toNat ∧ DigestDiffers s b := by
  rw [badBlocks, List.mem_filter, List.mem_range, isBad, decide_eq_true_eq]
  rfl

/-- The ranges of a verdict, by what the verdict is. -/
theorem reportedRuns_cases (s : CiSvu) :
    (status s = .incomplete → reportedRuns s = holes s) ∧
    (status s = .corrupt → reportedRuns s = (badBlocks s).map (blockRange s)) ∧
    (status s = .completeVerified → reportedRuns s = []) := by
  rw [status, reportedRuns]
  by_cases hole : holes s ≠ []
  · simp [hole]
  · by_cases bad : badBlocks s ≠ []
    · simp [hole, bad]
    · simp only [ne_eq, not_not] at hole bad
      simp [hole, bad]

/-- The verdict `st` is the one the bytes of the tracker call for. -/
structure VerdictOf (s : CiSvu) (st : CiSvuStatus) : Prop where
  incomplete : st = .incomplete ↔ ∃ i, Uncovered s i
  corrupt : st = .corrupt ↔ (∀ i, ¬ Uncovered s i) ∧ ∃ b < s.nblocks.toNat, DigestDiffers s b
  verified : st = .completeVerified ↔
    (∀ i, ¬ Uncovered s i) ∧ ∀ b < s.nblocks.toNat, ¬ DigestDiffers s b

theorem allCovered_iff_uncovered (s : CiSvu) : allCovered s ↔ ∀ i, ¬ Uncovered s i := by
  constructor
  · intro all i missing
    have there := all i missing.1
    rw [missing.2] at there
    cases there
  · intro none i hi
    exact covered_of_not_hole s hi fun hole => none i ⟨hi, hole⟩

theorem noDigestDiffers_iff (s : CiSvu) :
    badBlocks s = [] ↔ ∀ b < s.nblocks.toNat, ¬ DigestDiffers s b := by
  rw [List.eq_nil_iff_forall_not_mem]
  constructor
  · intro none b hb differs
    exact none b ((mem_badBlocks_iff s b).mpr ⟨hb, differs⟩)
  · intro same b bad
    obtain ⟨hb, differs⟩ := (mem_badBlocks_iff s b).mp bad
    exact same b hb differs

theorem status_verdictOf (s : CiSvu) : VerdictOf s (status s) := by
  refine ⟨?_, ?_, ?_⟩
  · rw [status_incomplete_iff, allCovered_iff_uncovered]
    push Not
    rfl
  · rw [status_corrupt_iff, allCovered_iff_uncovered, ne_eq, noDigestDiffers_iff]
    push Not
    rfl
  · rw [status_complete_iff, allCovered_iff_uncovered, noDigestDiffers_iff]

/-- The verdict is the right one and the list of damaged ranges is exact: its count, its
slots, and the ranges themselves, which are the maximal runs of missing bytes or the blocks
with a wrong digest. -/
theorem verify_reports_exactly (s : CiSvu) (a : OutArray) :
    ∃ (ranges : List (Nat × Nat)) (r : VerifyReturn), ciSvuVerifyInto s a = .ok r ∧
      r.tracker = s ∧ r.status = (ciSvuVerify s a.max).1 ∧ VerdictOf s r.status ∧
      r.nout.toNat = ranges.length ∧
      Reports a.max (ranges.map toInterval) a.out r.out ∧
      (∀ q ∈ ranges, (toInterval q).start.toNat = q.1 ∧ (toInterval q).stop.toNat = q.2) ∧
      (r.status = .incomplete → 1 ≤ r.nout.toNat ∧ Separated 0 ranges ∧
        (∀ i, InRuns ranges i ↔ Uncovered s i) ∧
        ∀ q, q ∈ ranges ↔ MaximalRun (Uncovered s) q) ∧
      (r.status = .corrupt → 1 ≤ r.nout.toNat ∧
        ∃ bs : List Nat, ranges = bs.map (blockRange s) ∧ bs.Pairwise (· < ·) ∧
          ∀ b, b ∈ bs ↔ b < s.nblocks.toNat ∧ DigestDiffers s b) ∧
      (r.status = .completeVerified → r.nout = 0) := by
  obtain ⟨count, reports⟩ := pushSlots_spec a (reported s) (reported_length_lt s)
  obtain ⟨missing, wrong, fine⟩ := reportedRuns_cases s
  rw [reported, List.length_map] at count
  have some_range : status s ≠ .completeVerified → 1 ≤ (reportedRuns s).length := by
    intro unfinished
    exact List.length_pos_iff.mpr (reported_ne_nil unfinished)
  have verdict : status s = (ciSvuVerify s a.max).1 := by rw [ciSvuVerify_eq]
  refine ⟨reportedRuns s, _, ciSvuVerifyInto_eq s a, rfl, verdict, status_verdictOf s, count,
    reports, ?_, ?_, ?_, ?_⟩
  · intro q hq
    obtain ⟨hlt, hle⟩ := reportedRuns_bounds s hq
    have htotal := s.total.toNat_lt
    exact ⟨UInt32.toNat_ofNat_of_lt' (by rw [UInt32.size]; omega),
      UInt32.toNat_ofNat_of_lt' (by rw [UInt32.size]; omega)⟩
  · intro incomplete
    simp only at incomplete
    have least := some_range (by rw [incomplete]; decide)
    refine ⟨count ▸ least, ?_⟩
    rw [missing incomplete]
    exact ⟨holes_separated s, inRuns_holes_iff s, mem_holes_iff s⟩
  · intro corrupt
    simp only at corrupt
    have least := some_range (by rw [corrupt]; decide)
    exact ⟨count ▸ least, badBlocks s, wrong corrupt,
      List.pairwise_lt_range.filter _, mem_badBlocks_iff s⟩
  · intro complete
    have none : (reportedRuns s).length = 0 := by
      rw [fine complete]
      rfl
    exact UInt32.toNat_inj.mp (count.trans none)

end CspLinksim.Svu
