import CspLinksim.Lib.Runs
import CspLinksim.Lib.Writes
import CspLinksim.Lib.Gaps
import CspLinksim.Sha256

/-!
# The self-verifying tracker (`ci_svu.c`)

A reassembly buffer, one coverage flag for each payload byte, and the digests of the
sender's manifest. Pointers are never null here; an access outside a buffer is a
fault, and so is a loop that never ends.
-/

namespace CspLinksim.Svu

open Runs Writes Sha256

/-- What C leaves undefined, or never returns from. -/
inductive Fault where
  | outOfBounds
  | diverges
  deriving DecidableEq

def ciSvuHashLen : Nat := 32

def ciSvuNblocks (totalSize blockSize : UInt32) : UInt32 :=
  if totalSize = 0 ∨ blockSize = 0 then 0 else (totalSize + blockSize - 1) / blockSize

/-- The bytes of block `b`; its two ends are 64-bit numbers and never wrap. -/
def blockBytes (src : List UInt8) (total block : UInt32) (b : Nat) : List UInt8 :=
  let start := b * block.toNat
  let stop := min (start + block.toNat) total.toNat
  (src.drop start).take (stop - start)

def hashBlock (src : List UInt8) (total block : UInt32) (b : Nat) : List UInt8 :=
  sha256 (blockBytes src total block b)

/-- The number of blocks and the digests written. -/
def ciSvuManifest (src : List UInt8) (totalSize blockSize : UInt32) : UInt32 × List UInt8 :=
  let nblk := ciSvuNblocks totalSize blockSize
  (nblk, (List.range nblk.toNat).flatMap (hashBlock src totalSize blockSize))

/-- `struct ci_svu`, with the sizes `ci_svu_new` allocates. -/
structure CiSvu where
  total : UInt32
  block : UInt32
  nblocks : UInt32
  coveredCount : UInt32
  data : List UInt8
  covered : List Bool
  expected : List UInt8
  nblocks_eq : nblocks = ciSvuNblocks total block
  nblocks_ne : nblocks ≠ 0
  count_eq : coveredCount.toNat = covered.count true
  data_size : data.length = total.toNat
  covered_size : covered.length = total.toNat
  expected_size : expected.length = nblocks.toNat * ciSvuHashLen

/-- A tracker, `none` for `NULL`; `heap` tells whether the allocations succeed. The
manifest must be as long as the blocks it is copied for. -/
def ciSvuNew (heap : Bool) (totalSize blockSize : UInt32) (expected : List UInt8)
    (nblocks : UInt32) : Except Fault (Option CiSvu) :=
  let nblk := ciSvuNblocks totalSize blockSize
  if hn : nblk = 0 ∨ nblk ≠ nblocks then .ok none
  else if ¬ heap then .ok none
  else if hlen : nblk.toNat * ciSvuHashLen ≤ expected.length then
    .ok <| some
      { total := totalSize
        block := blockSize
        nblocks := nblk
        coveredCount := 0
        data := List.replicate totalSize.toNat 0
        covered := List.replicate totalSize.toNat false
        expected := expected.take (nblk.toNat * ciSvuHashLen)
        nblocks_eq := rfl
        nblocks_ne := fun h => hn (Or.inl h)
        count_eq := by simp [List.count_replicate]
        data_size := List.length_replicate
        covered_size := List.length_replicate
        expected_size := by rw [List.length_take]; omega }
  else .error .outOfBounds

/-- The loop of `ci_svu_accept` at position `i`, with `n` positions to go. -/
def markCovered : List Bool → UInt32 → Nat → Nat → List Bool × UInt32
  | covered, count, _, 0 => (covered, count)
  | covered, count, i, n + 1 =>
    if covered[i]? = some false then markCovered (covered.set i true) (count + 1) (i + 1) n
    else markCovered covered count (i + 1) n

theorem markCovered_length (covered : List Bool) (count : UInt32) (i n : Nat) :
    (markCovered covered count i n).1.length = covered.length := by
  induction n generalizing covered count i with
  | zero => rfl
  | succ n ih =>
    rw [markCovered]
    split
    · rw [ih, List.length_set]
    · exact ih covered count (i + 1)

theorem count_set_true {covered : List Bool} {i : Nat} (h : covered[i]? = some false) :
    (covered.set i true).count true = covered.count true + 1 := by
  obtain ⟨hi, hget⟩ := List.getElem?_eq_some_iff.mp h
  rw [List.count_set hi, hget]
  simp

/-- The counter stays the number of flags that are set. -/
theorem markCovered_count (covered : List Bool) (count : UInt32) (i n : Nat)
    (small : covered.length < 4294967296) (h : count.toNat = covered.count true) :
    (markCovered covered count i n).2.toNat = (markCovered covered count i n).1.count true := by
  induction n generalizing covered count i with
  | zero => exact h
  | succ n ih =>
    rw [markCovered]
    by_cases hole : covered[i]? = some false
    · rw [if_pos hole]
      apply ih _ _ _ (by rwa [List.length_set])
      have hset := count_set_true hole
      have hle : (covered.set i true).count true ≤ (covered.set i true).length :=
        List.count_le_length
      rw [List.length_set] at hle
      rw [UInt32.toNat_add, show UInt32.toNat 1 = 1 from rfl]
      omega
    · rw [if_neg hole]
      exact ih _ _ _ small h

theorem markCovered_getElem? (covered : List Bool) (count : UInt32) (i n j : Nat) :
    (markCovered covered count i n).1[j]? =
      if i ≤ j ∧ j < i + n then covered[j]?.map fun _ => true else covered[j]? := by
  induction n generalizing covered count i with
  | zero =>
    rw [markCovered, if_neg (by omega)]
  | succ n ih =>
    rw [markCovered]
    by_cases hij : i = j
    · subst j
      have here : i ≤ i ∧ i < i + (n + 1) := by omega
      have past : ¬ (i + 1 ≤ i ∧ i < i + 1 + n) := by omega
      by_cases hole : covered[i]? = some false
      · obtain ⟨hi, _⟩ := List.getElem?_eq_some_iff.mp hole
        rw [if_pos hole, ih, if_neg past, if_pos here, hole, List.getElem?_set_self hi]
        rfl
      · rw [if_neg hole, ih, if_neg past, if_pos here]
        cases h : covered[i]? with
        | none => rfl
        | some v =>
          cases v with
          | false => exact absurd h hole
          | true => rfl
    · have hset : (covered.set i true)[j]? = covered[j]? := List.getElem?_set_ne hij
      have hrange : (i + 1 ≤ j ∧ j < i + 1 + n) ↔ (i ≤ j ∧ j < i + (n + 1)) := by omega
      split
      · rw [ih, hset]
        simp only [hrange]
      · rw [ih]
        simp only [hrange]

/-- A data fragment: the bytes for an offset. -/
structure Fragment where
  offset : UInt32
  buf : List UInt8
  deriving DecidableEq

/-- The tracker after the fragment, and 0 or -1. -/
def ciSvuAccept (s : CiSvu) (f : Fragment) : CiSvu × Int :=
  if h : s.total.toNat < f.offset.toNat + f.buf.length then (s, -1)
  else
    let m := markCovered s.covered s.coveredCount f.offset.toNat f.buf.length
    ({ s with
        covered := m.1
        coveredCount := m.2
        data := if 0 < f.buf.length then splice s.data f.offset.toNat f.buf else s.data
        count_eq := markCovered_count _ _ _ _ (by
          rw [s.covered_size]
          exact s.total.toNat_lt) s.count_eq
        covered_size := by rw [markCovered_length, s.covered_size]
        data_size := by
          split
          · rw [length_splice _ _ _ (by rw [s.data_size]; omega), s.data_size]
          · exact s.data_size }, 0)

def ciSvuCovered (s : CiSvu) : UInt32 := s.coveredCount

def ciSvuData (s : CiSvu) : List UInt8 := s.data

inductive CiSvuStatus where
  | incomplete
  | completeVerified
  | corrupt
  deriving DecidableEq

/-- Bytes from `start` up to, not including, `stop`. -/
structure CiSvuInterval where
  start : UInt32
  stop : UInt32
  deriving DecidableEq

/-- The caller's array of `max` intervals, as far as it is filled, and `*nout`. -/
structure IntervalOut where
  written : List CiSvuInterval
  nout : UInt32
  deriving DecidableEq

def pushInterval (max : UInt32) (out : IntervalOut) (iv : CiSvuInterval) : IntervalOut :=
  { written := if out.nout < max then out.written ++ [iv] else out.written
    nout := out.nout + 1 }

/-- Where the run of uncovered bytes from `run` on ends, in at most `n` steps. -/
def runEnd (covered : List Bool) : Nat → Nat → Nat
  | 0, run => run
  | n + 1, run => if covered[run]? = some false then runEnd covered n (run + 1) else run

/-- The loop over the holes at byte `i`, with at most `n` rounds to go. -/
def scanHoles (max : UInt32) (covered : List Bool) : Nat → Nat → IntervalOut → IntervalOut
  | 0, _, out => out
  | n + 1, i, out =>
    if i < covered.length then
      if covered[i]? = some false then
        let run := runEnd covered covered.length i
        scanHoles max covered n run (pushInterval max out ⟨UInt32.ofNat i, UInt32.ofNat run⟩)
      else scanHoles max covered n (i + 1) out
    else out

/-- The digest the manifest gives for block `b`. -/
def digest (expected : List UInt8) (b : Nat) : List UInt8 :=
  (expected.drop (b * ciSvuHashLen)).take ciSvuHashLen

/-- One round of the loop over the blocks. -/
def checkBlock (max : UInt32) (s : CiSvu) (acc : CiSvuStatus × IntervalOut) (b : Nat) :
    CiSvuStatus × IntervalOut :=
  if hashBlock s.data s.total s.block b ≠ digest s.expected b then
    let start := b * s.block.toNat
    let stop := min (start + s.block.toNat) s.total.toNat
    (.corrupt, pushInterval max acc.2 ⟨UInt32.ofNat start, UInt32.ofNat stop⟩)
  else acc

/-- The verdict and the ranges to request again; `max = 0` asks for the verdict only. -/
def ciSvuVerify (s : CiSvu) (max : UInt32) : CiSvuStatus × IntervalOut :=
  if s.coveredCount < s.total then
    (.incomplete, scanHoles max s.covered s.total.toNat 0 ⟨[], 0⟩)
  else (List.range s.nblocks.toNat).foldl (checkBlock max s) (.completeVerified, ⟨[], 0⟩)

end CspLinksim.Svu
