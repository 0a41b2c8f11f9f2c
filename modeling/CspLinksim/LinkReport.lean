import CspLinksim.LinkSplit
import CspLinksim.Lib.Streaks
import Mathlib.Data.List.GetD
import Mathlib.Data.List.Sort
import Mathlib.Data.Rat.Lemmas
import Mathlib.Algebra.Order.Field.Basic
import Mathlib.Algebra.Order.BigOperators.Group.List
import Mathlib.Tactic.Linarith

/-!
# The report of `csp_link test` (`csp_link_apm.c`)

What is printed of the probes themselves: loss, round-trip times, jitter, the worst burst and the
verdict. A probe that came back has its milliseconds. Doubles are exact.
-/

namespace CspLinksim.Link

open Streaks

/-- The variables of the probe loop. -/
structure Probed where
  rtt : List UInt32
  sum : ℕ
  ok : ℕ
  lost : ℕ
  run : ℕ
  worstRun : ℕ
  deriving DecidableEq

def Probed.start : Probed := ⟨[], 0, 0, 0, 0, 0⟩

def probed (s : Probed) : Option UInt32 → Probed
  | some ms => { s with rtt := s.rtt ++ [ms], sum := s.sum + ms.toNat, ok := s.ok + 1, run := 0 }
  | none =>
    let run := s.run + 1
    { s with lost := s.lost + 1, run, worstRun := if run > s.worstRun then run else s.worstRun }

/-- The changes between consecutive samples, added up. -/
def changes : List UInt32 → ℚ
  | a :: b :: rest => |(b.toNat : ℚ) - a.toNat| + changes (b :: rest)
  | _ => 0

inductive Quality where
  | clean
  | usable
  | lossy
  | bad
  deriving DecidableEq

def quality (lossPct : ℚ) : Quality :=
  if lossPct = 0 then .clean
  else if lossPct < 5 then .usable
  else if lossPct < 20 then .lossy
  else .bad

/-- What is printed if a reply came back. -/
structure Printed where
  min : UInt32
  median : UInt32
  max : UInt32
  mean : ℚ
  jitter : ℚ
  worstBurst : ℕ
  verdict : Quality
  note : Bool
  deriving DecidableEq

/-- The report on the probes of a test; `qsort` leaves the samples in order. -/
def linkReport (results : List (Option UInt32)) : Option Printed :=
  let s := results.foldl probed .start
  if s.ok = 0 then none
  else
    let jitter := if s.ok > 1 then changes s.rtt / (s.ok - 1 : ℕ) else changes s.rtt
    let rtt := s.rtt.insertionSort (· ≤ ·)
    some
      { min := rtt.getD 0 0
        median := rtt.getD (s.ok / 2) 0
        max := rtt.getD (s.ok - 1) 0
        mean := s.sum / s.ok
        jitter := jitter
        worstBurst := s.worstRun
        verdict := quality (100 * s.lost / results.length)
        note := s.worstRun > 1 }

/-- The variables are those of the results so far. -/
structure Seen (results : List (Option UInt32)) (s : Probed) : Prop where
  rtt : s.rtt = results.filterMap id
  sum : s.sum = (s.rtt.map UInt32.toNat).sum
  ok : s.ok = s.rtt.length
  lost : s.lost = results.count none
  longest : Longest Option.isNone results s.run s.worstRun

theorem seen_start : Seen [] .start := ⟨rfl, rfl, rfl, rfl, longest_nil _⟩

theorem larger (worst run : ℕ) :
    (if run + 1 > worst then run + 1 else worst) = max worst (run + 1) := by
  rw [Nat.max_def]
  split <;> split <;> omega

theorem Seen.probed {results : List (Option UInt32)} {s : Probed} (h : Seen results s)
    (r : Option UInt32) : Seen (results ++ [r]) (probed s r) := by
  cases r with
  | some ms =>
    refine ⟨?_, ?_, ?_, ?_, h.longest.break rfl⟩
    · simp [Link.probed, h.rtt]
    · simp [Link.probed, h.sum]
    · simp [Link.probed, h.ok]
    · simp [Link.probed, h.lost]
  | none =>
    refine ⟨?_, h.sum, h.ok, ?_, ?_⟩
    · simp [Link.probed, h.rtt]
    · simp [Link.probed, h.lost]
    · show Longest Option.isNone (results ++ [none]) (s.run + 1)
        (if s.run + 1 > s.worstRun then s.run + 1 else s.worstRun)
      rw [larger]
      exact h.longest.snoc rfl

theorem seen_foldl {results more : List (Option UInt32)} {s : Probed} (h : Seen results s) :
    Seen (results ++ more) (more.foldl Link.probed s) := by
  induction more generalizing results s with
  | nil => simpa using h
  | cons r more ih => simpa using ih (h.probed r)

theorem seen_all (results : List (Option UInt32)) : Seen results (results.foldl probed .start) := by
  simpa using @seen_foldl [] results .start seen_start

/-- The burst of a direction split is counted by the same loop. -/
theorem tally_of_probed (es : List Exchange) (results : List (Option UInt32))
    (same : es.map (fun e => decide (e = .returned)) = results.map Option.isSome) (f : FarEnd) :
    (es.foldl probeStep (⟨0, 0, 0, 0⟩, f)).1 =
      ⟨(results.foldl probed .start).ok, (results.foldl probed .start).lost,
        (results.foldl probed .start).run, (results.foldl probed .start).worstRun⟩ := by
  suffices general : ∀ (t : Tally) (s : Probed), t = ⟨s.ok, s.lost, s.run, s.worstRun⟩ → ∀ f,
      (es.foldl probeStep (t, f)).1 =
        ⟨(results.foldl probed s).ok, (results.foldl probed s).lost,
          (results.foldl probed s).run, (results.foldl probed s).worstRun⟩ from
    general _ .start rfl f
  induction es generalizing results with
  | nil =>
    obtain rfl : results = [] := by simpa using same.symm
    exact fun t s start f => start
  | cons e es ih =>
    cases results with
    | nil => simp at same
    | cons r results =>
      obtain ⟨first, rest⟩ := List.cons.inj same
      intro t s start f
      have next : (probeStep (t, f) e).1 =
          ⟨(probed s r).ok, (probed s r).lost, (probed s r).run, (probed s r).worstRun⟩ := by
        subst start
        cases r with
        | some ms =>
          have back : e = .returned := by simpa using first
          simp [probeStep, probed, back]
        | none =>
          have lost : e ≠ .returned := by simpa using first
          simp only [probeStep, probed, if_neg lost, larger]
      exact ih results rest _ (probed s r) next _

section

variable {α : Type} {r : α → α → Prop} {l : List α} (refl : ∀ a, r a a) (sorted : l.Pairwise r)
include refl sorted

theorem related_of_le {i j : ℕ} (le : i ≤ j) (hj : j < l.length) : r l[i] l[j] := by
  rcases Nat.lt_or_eq_of_le le with lt | rfl
  · exact List.pairwise_iff_getElem.mp sorted i j (by omega) hj lt
  · exact refl _

/-- What is at position `k` in order has `k + 1` elements below it, itself included. -/
theorem rank_below [DecidableRel r] {k : ℕ} (hk : k < l.length) :
    k + 1 ≤ l.countP fun x => r x l[k] := by
  have below : ∀ x ∈ l.take (k + 1), decide (r x l[k]) = true := by
    intro x hx
    obtain ⟨i, hi, rfl⟩ := List.mem_iff_getElem.mp hx
    rw [List.length_take] at hi
    rw [List.getElem_take]
    exact decide_eq_true (related_of_le refl sorted (by omega) hk)
  have all := List.countP_eq_length.mpr below
  have part := (List.take_sublist (k + 1) l).countP_le (p := fun x => decide (r x l[k]))
  rw [all, List.length_take] at part
  omega

theorem rank_above [DecidableRel r] {k : ℕ} (hk : k < l.length) :
    l.length ≤ k + l.countP fun x => r l[k] x := by
  have above : ∀ x ∈ l.drop k, decide (r l[k] x) = true := by
    intro x hx
    obtain ⟨i, hi, rfl⟩ := List.mem_iff_getElem.mp hx
    rw [List.length_drop] at hi
    rw [List.getElem_drop]
    exact decide_eq_true (related_of_le refl sorted (by omega) (by omega))
  have all := List.countP_eq_length.mpr above
  have part := (List.drop_sublist k l).countP_le (p := fun x => decide (r l[k] x))
  rw [all, List.length_drop] at part
  omega

end

theorem changes_le {lo hi : ℚ} (l : List UInt32)
    (within : ∀ x ∈ l, lo ≤ x.toNat ∧ (x.toNat : ℚ) ≤ hi) :
    changes l ≤ ((l.length - 1 : ℕ) : ℚ) * (hi - lo) := by
  induction l with
  | nil => simp [changes]
  | cons a l ih =>
    cases l with
    | nil => simp [changes]
    | cons b rest =>
      have tail := ih fun x hx => within x (List.mem_cons_of_mem a hx)
      have first := within a List.mem_cons_self
      have second := within b (List.mem_cons_of_mem a List.mem_cons_self)
      have step : |(b.toNat : ℚ) - a.toNat| ≤ hi - lo := by
        rw [abs_le]
        constructor <;> linarith
      simp only [changes, List.length_cons, Nat.add_sub_cancel] at tail ⊢
      push_cast
      linarith

theorem changes_nonneg (l : List UInt32) : 0 ≤ changes l := by
  induction l with
  | nil => exact le_refl 0
  | cons a l ih =>
    cases l with
    | nil => exact le_refl 0
    | cons b rest =>
      rw [changes]
      exact add_nonneg (abs_nonneg _) ih

theorem sum_between {lo hi : ℕ} (l : List UInt32) (within : ∀ x ∈ l, lo ≤ x.toNat ∧ x.toNat ≤ hi) :
    l.length * lo ≤ (l.map UInt32.toNat).sum ∧ (l.map UInt32.toNat).sum ≤ l.length * hi := by
  induction l with
  | nil => simp
  | cons a l ih =>
    obtain ⟨low, high⟩ := ih fun x hx => within x (List.mem_cons_of_mem a hx)
    have first := within a List.mem_cons_self
    simp only [List.length_cons, List.map_cons, List.sum_cons, Nat.succ_mul]
    omega

theorem mean_between {lo hi : ℕ} {l : List UInt32} (heard : 0 < l.length)
    (within : ∀ x ∈ l, lo ≤ x.toNat ∧ x.toNat ≤ hi) :
    (lo : ℚ) ≤ ((l.map UInt32.toNat).sum : ℕ) / l.length ∧
      ((l.map UInt32.toNat).sum : ℕ) / l.length ≤ (hi : ℚ) := by
  have positive : (0 : ℚ) < l.length := by exact_mod_cast heard
  obtain ⟨low, high⟩ := sum_between l within
  constructor
  · rw [le_div_iff₀ positive, mul_comm]
    exact_mod_cast low
  · rw [div_le_iff₀ positive, mul_comm]
    exact_mod_cast high

/-- The mean change; a single reply has none. -/
theorem jitter_between {lo hi : ℕ} {l : List UInt32}
    (within : ∀ x ∈ l, lo ≤ x.toNat ∧ x.toNat ≤ hi) (jitter : ℚ)
    (eq : jitter = if l.length > 1 then changes l / (l.length - 1 : ℕ) else changes l) :
    0 ≤ jitter ∧ (l.length > 0 → jitter ≤ hi - lo) := by
  have total := @changes_le lo hi l fun x hx =>
    ⟨by exact_mod_cast (within x hx).1, by exact_mod_cast (within x hx).2⟩
  by_cases many : l.length > 1
  · have positive : (0 : ℚ) < (l.length - 1 : ℕ) := by exact_mod_cast Nat.sub_pos_of_lt many
    rw [eq, if_pos many]
    refine ⟨div_nonneg (changes_nonneg l) positive.le, fun _ => ?_⟩
    rw [div_le_iff₀ positive, mul_comm]
    exact total
  · rw [eq, if_neg many]
    refine ⟨changes_nonneg l, fun heard => ?_⟩
    have one : l.length = 1 := by omega
    obtain ⟨a, rfl⟩ := List.length_eq_one_iff.mp one
    have order := within a List.mem_cons_self
    have : (lo : ℚ) ≤ hi := by exact_mod_cast order.1.trans order.2
    simpa [changes] using this

/-- The jitter is the mean of the changes. -/
theorem jitter_total {l : List UInt32} {ok : ℕ} (count : ok = l.length) :
    (if ok > 1 then changes l / (ok - 1 : ℕ) else changes l) * (ok - 1 : ℕ) = changes l := by
  subst count
  by_cases many : l.length > 1
  · have nonzero : ((l.length - 1 : ℕ) : ℚ) ≠ 0 := by
      exact_mod_cast (Nat.sub_pos_of_lt many).ne'
    rw [if_pos many, div_mul_cancel₀ _ nonzero]
  · rw [if_neg many]
    match l, many with
    | [], _ => simp [changes]
    | [_], _ => simp [changes]
    | _ :: _ :: _, many => exact absurd (by simp) many

theorem jitter_of_one {l : List UInt32} {ok : ℕ} (count : ok = l.length) (one : l.length = 1) :
    (if ok > 1 then changes l / (ok - 1 : ℕ) else changes l) = 0 := by
  rw [if_neg (by omega)]
  obtain ⟨a, rfl⟩ := List.length_eq_one_iff.mp one
  rfl

/-- The replies of the results, in order. -/
def replies (results : List (Option UInt32)) : List UInt32 := results.filterMap id

/-- The absolute change from each reply to the next. -/
def stepsOf (l : List UInt32) : List ℚ := (l.zip l.tail).map fun e => |(e.2.toNat : ℚ) - e.1.toNat|

/-- What the printed numbers say of the results. -/
structure Describes (results : List (Option UInt32)) (p : Printed) : Prop where
  within : ∀ ms ∈ replies results, p.min ≤ ms ∧ ms ≤ p.max
  among : p.min ∈ replies results ∧ p.median ∈ replies results ∧ p.max ∈ replies results
  lowerHalf : (replies results).length < 2 * (replies results).countP fun ms => ms ≤ p.median
  upperHalf : (replies results).length ≤ 2 * (replies results).countP fun ms => p.median ≤ ms
  mean : p.mean * (replies results).length = ((replies results).map UInt32.toNat).sum
  meanWithin : (p.min.toNat : ℚ) ≤ p.mean ∧ p.mean ≤ p.max.toNat
  jitter : p.jitter * ((replies results).length - 1 : ℕ) = (stepsOf (replies results)).sum
  single : (replies results).length = 1 → p.jitter = 0
  jitterWithin : 0 ≤ p.jitter ∧ p.jitter ≤ p.max.toNat - p.min.toNat
  burst : ∃ s, s <:+: results ∧ (∀ r ∈ s, r = none) ∧ s.length = p.worstBurst
  longest : ∀ s, s <:+: results → (∀ r ∈ s, r = none) → s.length ≤ p.worstBurst
  clean : p.verdict = .clean ↔ ∀ r ∈ results, r ≠ none
  usable : p.verdict = .usable ↔
    none ∈ results ∧ 100 * results.count none < 5 * results.length
  lossy : p.verdict = .lossy ↔
    5 * results.length ≤ 100 * results.count none ∧ 100 * results.count none < 20 * results.length
  bad : p.verdict = .bad ↔ 20 * results.length ≤ 100 * results.count none
  note : p.note = true ↔ [none, none] <:+: results

theorem changes_eq_sum (l : List UInt32) : changes l = (stepsOf l).sum := by
  induction l with
  | nil => rfl
  | cons a l ih =>
    cases l with
    | nil => rfl
    | cons b rest =>
      rw [changes, ih]
      rfl

/-- The verdict by the share of the probes that were lost. -/
theorem quality_cases {lost count : ℕ} (positive : 0 < count) :
    (quality (100 * lost / count) = .clean ↔ lost = 0) ∧
      (quality (100 * lost / count) = .usable ↔ 0 < lost ∧ 100 * lost < 5 * count) ∧
      (quality (100 * lost / count) = .lossy ↔ 5 * count ≤ 100 * lost ∧ 100 * lost < 20 * count) ∧
      (quality (100 * lost / count) = .bad ↔ 20 * count ≤ 100 * lost) := by
  have denominator : (0 : ℚ) < count := by exact_mod_cast positive
  have none : (100 * lost / count : ℚ) = 0 ↔ lost = 0 := by
    rw [div_eq_zero_iff, or_iff_left denominator.ne', mul_eq_zero, Nat.cast_eq_zero]
    exact or_iff_right (by norm_num)
  have below : ∀ n : ℕ, (100 * lost / count : ℚ) < n ↔ 100 * lost < n * count := by
    intro n
    rw [div_lt_iff₀ denominator]
    exact_mod_cast Iff.rfl
  have five := below 5
  have twenty := below 20
  push_cast at five twenty
  rw [quality]
  by_cases clean : lost = 0
  · rw [if_pos (none.mpr clean)]
    simp only [reduceCtorEq, true_iff, false_iff]
    omega
  · rw [if_neg (mt none.mp clean)]
    by_cases usable : 100 * lost < 5 * count
    · rw [if_pos (five.mpr usable)]
      simp only [reduceCtorEq, true_iff, false_iff]
      omega
    · rw [if_neg (mt five.mp usable)]
      by_cases lossy : 100 * lost < 20 * count
      · rw [if_pos (twenty.mpr lossy)]
        simp only [reduceCtorEq, true_iff, false_iff]
        omega
      · rw [if_neg (mt twenty.mp lossy)]
        simp only [reduceCtorEq, true_iff, false_iff]
        omega

theorem longest_note {results : List (Option UInt32)} {run worst : ℕ}
    (h : Longest Option.isNone results run worst) : 1 < worst ↔ [none, none] <:+: results := by
  constructor
  · intro long
    obtain ⟨s, within, all, length⟩ := h.found
    match s, length with
    | a :: b :: rest, _ =>
      have first : a = none := Option.isNone_iff_eq_none.mp (all a List.mem_cons_self)
      have second : b = none :=
        Option.isNone_iff_eq_none.mp (all b (List.mem_cons_of_mem a List.mem_cons_self))
      subst first second
      exact (List.prefix_append [none, none] rest).isInfix.trans within
    | [_], one => exact absurd one (by simp; omega)
    | [], zero => exact absurd zero (by simp; omega)
  · intro within
    exact h.anywhere _ within (by simp)

/-- The printed numbers, where the replies are sorted as `l`. -/
theorem describes_of_sorted {results : List (Option UInt32)} {s : Probed} (seen : Seen results s)
    {l : List UInt32} (hl : l = (replies results).insertionSort (· ≤ ·)) (heard : 0 < s.ok) :
    Describes results
      { min := l.getD 0 0
        median := l.getD (s.ok / 2) 0
        max := l.getD (s.ok - 1) 0
        mean := s.sum / s.ok
        jitter := if s.ok > 1 then changes s.rtt / (s.ok - 1 : ℕ) else changes s.rtt
        worstBurst := s.worstRun
        verdict := quality (100 * s.lost / results.length)
        note := s.worstRun > 1 } := by
  have sorted : l.Pairwise (· ≤ ·) := hl ▸ List.pairwise_insertionSort _ _
  have perm : l.Perm (replies results) := hl ▸ List.perm_insertionSort _ _
  have refl : ∀ a : UInt32, a ≤ a := UInt32.le_refl
  have rtt : s.rtt = replies results := seen.rtt
  have size : l.length = s.ok := by rw [perm.length_eq, seen.ok, rtt]
  have h0 : 0 < l.length := by omega
  have hm : s.ok / 2 < l.length := by omega
  have h1 : s.ok - 1 < l.length := by omega
  rw [List.getD_eq_getElem l 0 h0, List.getD_eq_getElem l 0 hm, List.getD_eq_getElem l 0 h1]
  have within : ∀ ms ∈ replies results, l[0] ≤ ms ∧ ms ≤ l[s.ok - 1] := by
    intro ms hms
    obtain ⟨i, hi, rfl⟩ := List.mem_iff_getElem.mp (perm.mem_iff.mpr hms)
    exact ⟨related_of_le refl sorted (Nat.zero_le i) hi, related_of_le refl sorted (by omega) h1⟩
  have natural : ∀ ms ∈ s.rtt, l[0].toNat ≤ ms.toNat ∧ ms.toNat ≤ l[s.ok - 1].toNat := by
    intro ms hms
    obtain ⟨low, high⟩ := within ms (rtt ▸ hms)
    exact ⟨UInt32.le_iff_toNat_le.mp low, UInt32.le_iff_toNat_le.mp high⟩
  have some_reply : (s.ok : ℚ) ≠ 0 := by exact_mod_cast heard.ne'
  have probes : 0 < results.length := by
    have heard' : 0 < (replies results).length := by rw [← rtt, ← seen.ok]; exact heard
    exact lt_of_lt_of_le heard' (List.length_filterMap_le _ _)
  obtain ⟨clean, usable, lossy, bad⟩ := @quality_cases s.lost results.length probes
  refine ⟨within, ⟨perm.mem_iff.mp (List.getElem_mem h0), perm.mem_iff.mp (List.getElem_mem hm),
    perm.mem_iff.mp (List.getElem_mem h1)⟩, ?_, ?_, ?_, ?_, ?_, ?_, ?_, ?_, ?_, ?_, ?_, ?_, ?_, ?_⟩
  · have below := rank_below refl sorted hm
    rw [perm.countP_eq] at below
    rw [← perm.length_eq]
    simp only
    omega
  · have above := rank_above refl sorted hm
    rw [perm.countP_eq] at above
    rw [← perm.length_eq]
    simp only
    omega
  · rw [← rtt, ← seen.ok, ← seen.sum]
    exact div_mul_cancel₀ _ some_reply
  · have mean := mean_between (seen.ok ▸ heard) natural
    rwa [← seen.ok, ← seen.sum] at mean
  · rw [← rtt, ← seen.ok, ← changes_eq_sum]
    exact jitter_total seen.ok
  · intro one
    rw [← rtt] at one
    exact jitter_of_one seen.ok one
  · obtain ⟨positive, bounded⟩ := jitter_between natural _ rfl
    rw [← seen.ok] at positive bounded
    exact ⟨positive, bounded heard⟩
  · obtain ⟨run, within', all, length⟩ := seen.longest.found
    exact ⟨run, within', fun r hr => Option.isNone_iff_eq_none.mp (all r hr), length⟩
  · intro run within' all
    exact seen.longest.anywhere run within' fun r hr => Option.isNone_iff_eq_none.mpr (all r hr)
  · rw [clean, seen.lost, List.count_eq_zero]
    exact ⟨fun h r hr absent => h (absent ▸ hr), fun h hr => h none hr rfl⟩
  · rw [usable, seen.lost, List.count_pos_iff]
  · rw [lossy, seen.lost]
  · rw [bad, seen.lost]
  · rw [decide_eq_true_eq, gt_iff_lt]
    exact longest_note seen.longest

theorem test_tally {t : LinkTest} {f : FarEnd} {r : LinkReport} (done : cspLinkTest t f = .ok r) :
    ∃ f', r.tally = (t.burst.foldl probeStep (⟨0, 0, 0, 0⟩, f')).1 := by
  rw [cspLinkTest] at done
  split at done
  · cases done
  · split at done
    · cases done
    · rw [← Except.ok.inj done]
      exact ⟨_, rfl⟩

/-- The report is there exactly if a reply came back, and then describes the probes. -/
theorem linkReport_describes (results : List (Option UInt32)) :
    (linkReport results = none ↔ ∀ r ∈ results, r = none) ∧
      ∀ p, linkReport results = some p → Describes results p := by
  have seen := seen_all results
  rw [linkReport]
  generalize results.foldl probed .start = s at seen ⊢
  have silent : s.ok = 0 ↔ ∀ r ∈ results, r = none := by
    rw [seen.ok, seen.rtt, List.length_eq_zero_iff, List.filterMap_eq_nil_iff]
    rfl
  by_cases quiet : s.ok = 0
  · simp only [if_pos quiet]
    exact ⟨⟨fun _ => silent.mp quiet, fun _ => trivial⟩, fun p printed => by cases printed⟩
  · simp only [if_neg quiet]
    refine ⟨⟨fun h => (by cases h), fun all => absurd (silent.mpr all) quiet⟩, ?_⟩
    intro p printed
    obtain rfl := Option.some.inj printed
    exact describes_of_sorted seen (by rw [replies, seen.rtt]) (Nat.pos_of_ne_zero quiet)

/-- Whatever comes back and whenever: the report of a test has round-trip times exactly if a probe
returned, and then its numbers describe the probes, with the worst burst of the test. -/
theorem test_report {t : LinkTest} {f : FarEnd} {r : LinkReport} (done : cspLinkTest t f = .ok r)
    {results : List (Option UInt32)}
    (same : t.burst.map (fun e => decide (e = .returned)) = results.map Option.isSome) :
    (linkReport results = none ↔ r.tally.ok = 0) ∧
      ∀ p, linkReport results = some p →
        Describes results p ∧ p.worstBurst = r.tally.worstRun ∧
          (p.verdict = .clean ↔ r.tally.lost = 0) := by
  obtain ⟨f', tally⟩ := test_tally done
  obtain ⟨quiet, describes⟩ := linkReport_describes results
  have seen := seen_all results
  rw [tally_of_probed t.burst results same f'] at tally
  constructor
  · rw [quiet, tally, seen.ok, seen.rtt, List.length_eq_zero_iff, List.filterMap_eq_nil_iff]
    rfl
  · intro p printed
    have about := describes p printed
    refine ⟨about, ?_, ?_⟩
    · rw [linkReport] at printed
      split at printed
      · cases printed
      · rw [← Option.some.inj printed, tally]
    · rw [about.clean, tally, seen.lost, List.count_eq_zero]
      exact ⟨fun all hr => all none hr rfl, fun h r hr absent => h (absent ▸ hr)⟩

/-- The third probe of the sample returns after 870 ms. -/
theorem test_report_sample :
    linkReport [none, none, some 870] = some ⟨870, 870, 870, 870, 0, 2, .bad, true⟩ ∧
      Describes [none, none, some 870] ⟨870, 870, 870, 870, 0, 2, .bad, true⟩ := by
  have printed : linkReport [none, none, some 870] =
      some ⟨870, 870, 870, 870, 0, 2, .bad, true⟩ := by
    have counted : [none, none, some (870 : UInt32)].foldl probed .start =
        ⟨[870], 870, 1, 2, 0, 2⟩ := rfl
    rw [linkReport, counted]
    norm_num [quality, changes]
  refine ⟨printed, ?_⟩
  exact ((@test_report sampleTest ⟨4294967295, 7⟩
    ⟨⟨1, 2, 0, 2⟩, ⟨4294967295, 8, 1, true⟩, ⟨2, 11, 2, true⟩, .split ⟨1, 1, true⟩, none⟩
    (by decide) [none, none, some 870] (by decide)).2 _ printed).1

end CspLinksim.Link
