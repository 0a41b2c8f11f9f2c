import CspLinksim.Lib.Runs
import CspLinksim.Lib.Window

/-!
# The sequence tracker and the window flags (`ci_meas.c`)

A 16-bit RDP sequence number is unwrapped around the highest position seen, and a
circular bitmap of `CI_SEQ_WIN` bits remembers which positions below it were fed.
The 64-bit position and packet counters are natural numbers: a run that overflowed
one would need 2^48 feeds or more. An unwrapped position may precede the first one
captured, hence positions are integers; the bitmap slot of the 64-bit wrapped value
is the slot of the integer, because 2048 divides 2^64.
-/

namespace CspLinksim.Meas

open Runs Window

def ciSeqWin : Nat := 2048

structure CiSeqTracker where
  have_ : Bool
  first : Nat
  max : Nat
  nSeen : Nat
  nDistinct : Nat
  nDup : Nat
  nReorder : Nat
  nGap : Nat
  epoch : UInt32
  seen : Vector UInt8 256
  deriving DecidableEq

theorem byteIndex_lt (pos : Int) : slotOf ciSeqWin pos >>> 3 < 256 := by
  have := Int.emod_lt_of_pos pos (show (0 : Int) < ciSeqWin by decide)
  unfold slotOf
  rw [Nat.shiftRight_eq_div_pow]
  unfold ciSeqWin at *
  omega

def seqBitGet (seen : Vector UInt8 256) (pos : Int) : Bool :=
  let i := slotOf ciSeqWin pos
  (seen.get ⟨i >>> 3, byteIndex_lt pos⟩ >>> UInt8.ofNat (i &&& 7)) &&& 1 = 1

def seqBitSet (seen : Vector UInt8 256) (pos : Int) (v : Bool) : Vector UInt8 256 :=
  let i := slotOf ciSeqWin pos
  let byte := seen.get ⟨i >>> 3, byteIndex_lt pos⟩
  let mask := (1 : UInt8) <<< UInt8.ofNat (i &&& 7)
  seen.set (i >>> 3) (if v then byte ||| mask else byte &&& ~~~mask) (byteIndex_lt pos)

def ciSeqTrackerInit : CiSeqTracker where
  have_ := false
  first := 0
  max := 0
  nSeen := 0
  nDistinct := 0
  nDup := 0
  nReorder := 0
  nGap := 0
  epoch := 0
  seen := Vector.replicate 256 0

/-- The loop `for (p = clear_from; p < unwrapped; p++)`, `n` rounds of it. -/
def clearHoles (seen : Vector UInt8 256) : Int → Nat → Vector UInt8 256
  | _, 0 => seen
  | p, n + 1 => clearHoles (seqBitSet seen p false) (p + 1) n

/-- The tracker after the feed, and the class: 0 in-order, 1 forward gap,
2 duplicate, 3 reorder. -/
def ciSeqTrackerFeed (t₀ : CiSeqTracker) (seq : UInt16) : CiSeqTracker × Nat :=
  let t := { t₀ with nSeen := t₀.nSeen + 1 }
  if ¬ t.have_ then
    ({ t with
        have_ := true
        first := seq.toNat
        max := seq.toNat
        nDistinct := 1
        seen := seqBitSet t.seen seq.toNat true
        epoch := UInt32.ofNat (seq.toNat >>> 16) }, 0)
  else
    let diff : Int := (seq - UInt16.ofNat (t.max &&& 0xFFFF)).toInt16.toInt
    let unwrapped : Int := t.max + diff
    if 0 < diff then
      let clearFrom : Int :=
        if unwrapped - t.max > ciSeqWin then unwrapped - ciSeqWin else t.max + 1
      let holes := clearHoles t.seen clearFrom (unwrapped - clearFrom).toNat
      let t := { t with
        seen := seqBitSet holes unwrapped true
        max := unwrapped.toNat
        nDistinct := t.nDistinct + 1
        epoch := UInt32.ofNat (unwrapped.toNat >>> 16) }
      if 1 < diff then ({ t with nGap := t.nGap + (diff - 1).toNat }, 1) else (t, 0)
    else if seqBitGet t.seen unwrapped then ({ t with nDup := t.nDup + 1 }, 2)
    else
      ({ t with
          seen := seqBitSet t.seen unwrapped true
          nDistinct := t.nDistinct + 1
          nReorder := t.nReorder + 1 }, 3)

def ciSeqTrackerLoss (t : CiSeqTracker) : Nat :=
  if ¬ t.have_ then 0
  else
    let span := t.max - t.first + 1
    if span > t.nDistinct then span - t.nDistinct else 0

def ciLossMinSpan : Nat := 64
def ciLossDensityDiv : Nat := 8

def ciLossTrustworthy (t : CiSeqTracker) : Bool :=
  if ¬ t.have_ then true
  else
    let span := t.max - t.first + 1
    if span < ciLossMinSpan then true
    else span ≤ t.nDistinct * ciLossDensityDiv

/-- What a window is judged by. -/
structure CiWindowHealth where
  connOvfDelta : UInt8
  bufferOutDelta : UInt8
  bufferRemaining : Int
  bufferLowWater : Int
  deriving DecidableEq

def ciSuspectConnOvf : UInt32 := 0x01
def ciSuspectBufferOut : UInt32 := 0x02
def ciSuspectBufferLow : UInt32 := 0x04
def ciSuspectSparseSeq : UInt32 := 0x08

def ciU8Delta (prev cur : UInt8) : UInt8 := cur - prev

/-- The flags, and whether one is set. -/
def ciMeasurementSuspect (h : CiWindowHealth) : UInt32 × Bool :=
  let f := (if 0 < h.connOvfDelta then ciSuspectConnOvf else 0) |||
    (if 0 < h.bufferOutDelta then ciSuspectBufferOut else 0) |||
    (if h.bufferRemaining < h.bufferLowWater then ciSuspectBufferLow else 0)
  (f, f ≠ 0)

/-- The bitmap as a function of the slot. -/
def slots (seen : Vector UInt8 256) : Nat → Bool :=
  fun i => decide (i < ciSeqWin) && seqBitGet seen i

theorem getBit_iff (b : UInt8) (l : Nat) (hl : l < 8) :
    (b >>> UInt8.ofNat l) &&& 1 = 1 ↔ b.toBitVec.getLsbD l = true := by
  have hshift : (UInt8.ofNat l).toBitVec % 8 = BitVec.ofNat 8 l := by
    apply BitVec.eq_of_toNat_eq
    simp
    omega
  have hl' : l % 256 = l := by omega
  rw [← UInt8.toBitVec_inj, UInt8.toBitVec_and, UInt8.toBitVec_shiftRight, hshift]
  constructor
  · intro h
    simpa [hl'] using congrArg (fun x => x.getLsbD 0) h
  · intro h
    apply BitVec.eq_of_getLsbD_eq
    intro i _
    by_cases hi : i = 0
    · subst i
      simpa [hl'] using h
    · simp [hi]

theorem mask_bit (k i : Nat) (hk : k < 8) (hi : i < 8) :
    ((1 : UInt8) <<< UInt8.ofNat k).toBitVec.getLsbD i = decide (i = k) := by
  have table : ∀ k i : Fin 8,
      ((1 : UInt8) <<< UInt8.ofNat k).toBitVec.getLsbD i = decide (i.val = k.val) := by decide
  exact table ⟨k, hk⟩ ⟨i, hi⟩

theorem setBit_bit (b : UInt8) (v : Bool) (k i : Nat) (hk : k < 8) (hi : i < 8) :
    (if v then b ||| ((1 : UInt8) <<< UInt8.ofNat k)
      else b &&& ~~~((1 : UInt8) <<< UInt8.ofNat k)).toBitVec.getLsbD i =
      if i = k then v else b.toBitVec.getLsbD i := by
  have hm := mask_bit k i hk hi
  cases v
  · simp only [Bool.false_eq_true, if_false, UInt8.toBitVec_and, UInt8.toBitVec_not,
      BitVec.getLsbD_and, BitVec.getLsbD_not, hm]
    by_cases h : i = k <;> simp [h, hi, hk]
  · simp only [if_true, UInt8.toBitVec_or, BitVec.getLsbD_or, hm]
    by_cases h : i = k <;> simp [h]

theorem slotOf_natCast {i : Nat} (hi : i < ciSeqWin) : slotOf ciSeqWin i = i := by
  unfold slotOf ciSeqWin at *
  omega

theorem slotOf_lt (pos : Int) : slotOf ciSeqWin pos < ciSeqWin := by
  unfold slotOf ciSeqWin
  omega

theorem low3_lt (i : Nat) : i &&& 7 < 8 := Nat.and_lt_two_pow i (n := 3) (by decide)

/-- Two slots in the same byte differ in their low three bits. -/
theorem slot_split (i j : Nat) : (i >>> 3 = j >>> 3 ∧ i &&& 7 = j &&& 7) ↔ i = j := by
  constructor
  · rintro ⟨hbyte, hbit⟩
    have hi := Nat.and_two_pow_sub_one_eq_mod i 3
    have hj := Nat.and_two_pow_sub_one_eq_mod j 3
    rw [Nat.shiftRight_eq_div_pow, Nat.shiftRight_eq_div_pow] at hbyte
    simp only [Nat.reducePow, Nat.add_one_sub_one] at hi hj hbyte
    omega
  · rintro rfl
    exact ⟨rfl, rfl⟩

theorem get_set (seen : Vector UInt8 256) (i j : Nat) (b : UInt8) (hi : i < 256) (hj : j < 256) :
    (seen.set i b hi).get ⟨j, hj⟩ = if i = j then b else seen.get ⟨j, hj⟩ :=
  Vector.getElem_set hi hj

theorem seqBitGet_set (seen : Vector UInt8 256) (p q : Int) (v : Bool) :
    seqBitGet (seqBitSet seen p v) q =
      if slotOf ciSeqWin q = slotOf ciSeqWin p then v else seqBitGet seen q := by
  simp only [seqBitGet, getBit_iff _ _ (low3_lt _), seqBitSet, get_set]
  by_cases hbyte : slotOf ciSeqWin p >>> 3 = slotOf ciSeqWin q >>> 3
  · have same := slot_split (slotOf ciSeqWin q) (slotOf ciSeqWin p)
    simp only [hbyte, if_true, setBit_bit _ _ _ _ (low3_lt _) (low3_lt _)]
    by_cases hbit : slotOf ciSeqWin q &&& 7 = slotOf ciSeqWin p &&& 7
    · have hslot := same.mp ⟨hbyte.symm, hbit⟩
      simp [hslot]
    · have hslot : slotOf ciSeqWin q ≠ slotOf ciSeqWin p := fun h => hbit (same.mpr h).2
      simp [hbit, hslot]
  · have hslot : slotOf ciSeqWin q ≠ slotOf ciSeqWin p := fun h => hbyte (by rw [h])
    simp [hbyte, hslot]

theorem slots_slotOf (seen : Vector UInt8 256) (p : Int) :
    slots seen (slotOf ciSeqWin p) = seqBitGet seen p := by
  have hlt := slotOf_lt p
  simp only [slots, hlt, decide_true, Bool.true_and, seqBitGet, slotOf_natCast hlt]

theorem slots_set (seen : Vector UInt8 256) (p : Int) (v : Bool) :
    slots (seqBitSet seen p v) = put (slots seen) (slotOf ciSeqWin p) v := by
  funext i
  by_cases hi : i < ciSeqWin
  · simp only [slots, hi, decide_true, Bool.true_and, seqBitGet_set, slotOf_natCast hi, put,
      Function.update_apply]
  · have hne : i ≠ slotOf ciSeqWin p := fun h => hi (h ▸ slotOf_lt p)
    simp [slots, hi, put, Function.update_of_ne hne]

theorem slots_clearHoles (seen : Vector UInt8 256) (p : Int) (n : Nat) :
    slots (clearHoles seen p n) = clear ciSeqWin (slots seen) p n := by
  induction n generalizing seen p with
  | zero => rfl
  | succ n ih => rw [clearHoles, ih, slots_set, clear]

theorem seqDiff_toInt (seq prev : UInt16) :
    (seq - prev).toInt16.toInt = ((seq.toNat : Int) - prev.toNat).bmod 65536 := by
  have hs := seq.toNat_lt
  have hp := prev.toNat_lt
  have hsub : (seq - prev).toInt16.toBitVec.toNat = (65536 - prev.toNat + seq.toNat) % 65536 :=
    UInt16.toNat_sub _ _
  rw [Int16.toInt, BitVec.toInt_eq_toNat_bmod, hsub]
  simp only [Int.bmod_def]
  omega

theorem toNat_ofInt (u : Int) : ((UInt16.ofInt u).toNat : Int) = u % 65536 := by
  simp [UInt16.ofInt]
  omega

theorem toNat_low16 (n : Nat) : (UInt16.ofNat (n &&& 0xFFFF)).toNat = n % 65536 := by
  rw [show (0xFFFF : Nat) = 2 ^ 16 - 1 from rfl, Nat.and_two_pow_sub_one_eq_mod]
  simp

/-- Within 2^15 of the head the 16-bit difference is the true one. -/
theorem seqDiff_near (u : Int) (max : Nat) (lo : -32768 ≤ u - max) (hi : u - max < 32768) :
    (UInt16.ofInt u - UInt16.ofNat (max &&& 0xFFFF)).toInt16.toInt = u - max := by
  rw [seqDiff_toInt, toNat_ofInt, toNat_low16]
  exact @bmod_residues 65536 u max (by omega) (by omega)

end CspLinksim.Meas
