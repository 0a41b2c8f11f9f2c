import Mathlib.Data.List.Chain
import CspLinksim.Lib.Runs
import CspLinksim.Rule

/-!
# The RDP flow key and the order of arrival

A frame is at a position of its flow; the wire carries the low 16 bits and the
tracker puts an epoch in front of them. The tracker remembers the last frame, not
the highest one, so a key is right exactly when each frame stays in the 65536-block
of the frame before it or crosses into the next one. The positions are never bounded
here: the epoch is a 32-bit counter and the key repeats after 2^48 positions.
-/

namespace CspLinksim.FlowOrder

open Runs Packet Rule

/-- An RDP frame of a flow, at its true (unwrapped) sequence position. -/
structure Arrival where
  pos : Nat
  packet : CspPacket
  rdp : packet.flags &&& ciCspFrdp ≠ 0
  seq : (ciRdpParseTrailer packet.data packet.flags).map CiRdpHeader.seq =
    some (UInt16.ofNat pos)

def feed (t : CiFlowTracker) (a : Arrival) : CiFlowTracker × UInt64 :=
  ciFlowIndex t (frameOf a.packet) a.packet.data

def keys (t : CiFlowTracker) (as : List Arrival) : List UInt64 := (run feed t as).2

/-- Each arrival is less than 2^15 away from the highest position seen so far. -/
def WithinWindow : Option Nat → List Nat → Prop
  | _, [] => True
  | none, u :: us => WithinWindow (some u) us
  | some m, u :: us =>
    u < m + 32768 ∧ m < u + 32768 ∧ WithinWindow (some (max m u)) us

instance : ∀ m us, Decidable (WithinWindow m us)
  | _, [] => .isTrue trivial
  | none, u :: us => instDecidableWithinWindow (some u) us
  | some m, u :: us =>
    have := instDecidableWithinWindow (some (max m u)) us
    inferInstanceAs (Decidable (_ ∧ _ ∧ _))

/-- Every key is the position of its frame, and the epoch never runs ahead of the
16-bit boundaries the flow has crossed. -/
def KeyedByPosition (t : CiFlowTracker) (as : List Arrival) : Prop :=
  List.Forall₂ (fun a key => key.toNat = a.pos) as (keys t as) ∧
  ∀ n, (run feed t (as.take n)).1.epoch.toNat ≤
    ((as.take n).map Arrival.pos).foldl max 0 / 65536

/-- The next frame is in the block of the last one, or in the next block and less than
2^15 ahead; and the 32-bit epoch has room for it. -/
def Follows (a b : Nat) : Prop :=
  b < 281474976710656 ∧
  (b / 65536 = a / 65536 ∨ (b / 65536 = a / 65536 + 1 ∧ b < a + 32768))

/-- The condition on a whole delivery order. -/
def Orderly : List Nat → Prop
  | [] => True
  | u :: us => u < 65536 ∧ List.IsChain Follows (u :: us)

instance : DecidableRel Follows := fun _ _ => inferInstanceAs (Decidable (_ ∧ _))

instance : DecidablePred Orderly
  | [] => .isTrue trivial
  | _ :: _ => inferInstanceAs (Decidable (_ ∧ _))

theorem ciFlowIndexRdp_toNat (epoch : UInt32) (seq : UInt16) :
    (ciFlowIndexRdp epoch seq).toNat = epoch.toNat * 65536 + seq.toNat := by
  have he := epoch.toNat_lt
  have hs := seq.toNat_lt
  have hshift : (epoch.toUInt64 <<< 16).toNat = epoch.toNat <<< 16 := by
    rw [UInt64.toNat_shiftLeft]
    simp [Nat.shiftLeft_eq]
    omega
  rw [ciFlowIndexRdp, UInt64.toNat_or, hshift, UInt16.toNat_toUInt64,
    ← Nat.shiftLeft_add_eq_or_of_lt (by simpa using hs), Nat.shiftLeft_eq]

theorem ciRdpSeqIsWrap_iff (prevSeq newSeq : UInt16) :
    ciRdpSeqIsWrap prevSeq newSeq = true ↔
      newSeq.toNat < prevSeq.toNat ∧ newSeq.toNat + 32768 < prevSeq.toNat := by
  have hp := prevSeq.toNat_lt
  have hn := newSeq.toNat_lt
  simp only [ciRdpSeqIsWrap, Bool.decide_and, Bool.and_eq_true, decide_eq_true_eq,
    UInt16.lt_iff_toNat_lt, UInt16.toNat_sub, show UInt16.toNat 0x8000 = 32768 from rfl]
  omega

/-- One frame: the epoch moves exactly when the wrap test fires on the last one. -/
theorem feed_eq (t : CiFlowTracker) (a : Arrival) :
    feed t a =
      let epoch :=
        if t.haveLastSeq ∧ ciRdpSeqIsWrap t.lastSeq (UInt16.ofNat a.pos) then t.epoch + 1
        else t.epoch
      ({ t with epoch, lastSeq := UInt16.ofNat a.pos, haveLastSeq := true },
        ciFlowIndexRdp epoch (UInt16.ofNat a.pos)) := by
  obtain ⟨h, hparse, hseq⟩ := Option.map_eq_some_iff.mp a.seq
  have hrdp : (frameOf a.packet).isRdp = true := by
    simpa [frameOf, ciFrameFromFields] using a.rdp
  have hflags : (frameOf a.packet).cspFlags = a.packet.flags := rfl
  simp only [feed, ciFlowIndex, hrdp, if_true, hflags, hparse, hseq]

/-- The tracker after a frame whose key was right. -/
structure Keyed (t : CiFlowTracker) (u : Nat) : Prop where
  have_last : t.haveLastSeq = true
  last : t.lastSeq = UInt16.ofNat u
  epoch : t.epoch.toNat = u / 65536

/-- The step lemma: after a right key the next key is right exactly when the next
frame follows, and then the tracker is again at the frame's position. -/
theorem feed_keyed {t : CiFlowTracker} {u : Nat} (ht : Keyed t u) (a : Arrival)
    (near : u < a.pos + 32768) :
    ((feed t a).2.toNat = a.pos ↔ Follows u a.pos) ∧
    (Follows u a.pos → Keyed (feed t a).1 a.pos) := by
  have hlast := t.epoch.toNat_lt
  have hepoch := ht.epoch
  have wraps : (t.haveLastSeq = true ∧ ciRdpSeqIsWrap t.lastSeq (UInt16.ofNat a.pos) = true) ↔
      a.pos % 65536 < u % 65536 ∧ a.pos % 65536 + 32768 < u % 65536 := by
    rw [ciRdpSeqIsWrap_iff, ht.last]
    simp [ht.have_last]
  -- the test sees the low halves of this frame and the last one, nothing else
  by_cases fires : a.pos % 65536 < u % 65536 ∧ a.pos % 65536 + 32768 < u % 65536
  · have key : (feed t a).2.toNat = (u / 65536 + 1) % 4294967296 * 65536 + a.pos % 65536 := by
      rw [feed_eq]
      simp [wraps.mpr fires, ciFlowIndexRdp_toNat, UInt32.toNat_add, hepoch]
    refine ⟨?_, fun hf => ?_⟩
    · rw [key, Follows]
      omega
    · rw [feed_eq]
      refine ⟨rfl, rfl, ?_⟩
      simp only [wraps.mpr fires, and_self, if_true, UInt32.toNat_add, hepoch]
      rw [Follows] at hf
      have : UInt32.toNat 1 = 1 := rfl
      omega
  · have quiet := mt wraps.mp fires
    have key : (feed t a).2.toNat = u / 65536 * 65536 + a.pos % 65536 := by
      rw [feed_eq]
      simp only [if_neg quiet, ciFlowIndexRdp_toNat, hepoch]
      simp
    refine ⟨?_, fun hf => ?_⟩
    · rw [key, Follows]
      omega
    · rw [feed_eq]
      refine ⟨rfl, rfl, ?_⟩
      simp only [if_neg quiet, hepoch]
      rw [Follows] at hf
      omega

/-- The first frame of a flow is keyed in epoch 0. -/
theorem feed_first (mtu overhead : UInt16) (a : Arrival) :
    ((feed (ciFlowTrackerInitOvh mtu overhead) a).2.toNat = a.pos ↔ a.pos < 65536) ∧
    (a.pos < 65536 → Keyed (feed (ciFlowTrackerInitOvh mtu overhead) a).1 a.pos) := by
  have key : (feed (ciFlowTrackerInitOvh mtu overhead) a).2.toNat = a.pos % 65536 := by
    rw [feed_eq]
    simp [ciFlowTrackerInitOvh, ciFlowIndexRdp_toNat]
  refine ⟨by omega, fun h => ?_⟩
  rw [feed_eq]
  refine ⟨rfl, rfl, ?_⟩
  simp [ciFlowTrackerInitOvh]
  omega

/-- Keys are right from here on exactly when every later frame follows the one before. -/
theorem keys_chain_iff {t : CiFlowTracker} {u m : Nat} (ht : Keyed t u) (hm : u ≤ m)
    (as : List Arrival) (window : WithinWindow (some m) (as.map Arrival.pos)) :
    List.Forall₂ (fun a key => key.toNat = a.pos) as (keys t as) ↔
      List.IsChain Follows (u :: as.map Arrival.pos) := by
  induction as generalizing t u m with
  | nil => simp [keys]
  | cons a as ih =>
    obtain ⟨ahead, behind, window⟩ := window
    have step := feed_keyed ht a (by omega)
    simp only [keys, run_cons, List.forall₂_cons, List.map_cons, List.isChain_cons_cons]
    rw [step.1]
    exact and_congr_right fun hf => ih (step.2 hf) (Nat.le_max_right m a.pos) window

/-- The epoch after a right key is the block of the highest position or an earlier one. -/
theorem epoch_le_of_keys {t : CiFlowTracker} {u m : Nat} (ht : Keyed t u) (hm : u ≤ m)
    (as : List Arrival) (window : WithinWindow (some m) (as.map Arrival.pos))
    (chain : List.IsChain Follows (u :: as.map Arrival.pos)) (n : Nat) :
    (run feed t (as.take n)).1.epoch.toNat ≤
      ((as.take n).map Arrival.pos).foldl max m / 65536 := by
  induction as generalizing t u m n with
  | nil => simp [ht.epoch]; omega
  | cons a as ih =>
    cases n with
    | zero => simp [ht.epoch]; omega
    | succ n =>
      obtain ⟨ahead, behind, window⟩ := window
      simp only [List.map_cons, List.isChain_cons_cons] at chain
      have next := (feed_keyed ht a (by omega)).2 chain.1
      simpa using ih next (Nat.le_max_right m a.pos) window chain.2 n

theorem keyed_of_orderly (mtu overhead : UInt16) (as : List Arrival)
    (window : WithinWindow none (as.map Arrival.pos)) :
    KeyedByPosition (ciFlowTrackerInitOvh mtu overhead) as ↔ Orderly (as.map Arrival.pos) := by
  cases as with
  | nil =>
    constructor
    · intro _
      trivial
    · intro _
      exact ⟨.nil, fun n => by simp [ciFlowTrackerInitOvh]⟩
  | cons a as =>
    have first := feed_first mtu overhead a
    constructor
    · rintro ⟨hkeys, _⟩
      simp only [keys, run_cons, List.forall₂_cons] at hkeys
      have hlow := first.1.mp hkeys.1
      exact ⟨hlow, (keys_chain_iff (first.2 hlow) le_rfl as window).mp hkeys.2⟩
    · rintro ⟨hlow, chain⟩
      have start := first.2 hlow
      constructor
      · simp only [keys, run_cons, List.forall₂_cons]
        exact ⟨first.1.mpr hlow, (keys_chain_iff start le_rfl as window).mpr chain⟩
      · intro n
        cases n with
        | zero => simp [ciFlowTrackerInitOvh]
        | succ n => simpa using epoch_le_of_keys start le_rfl as window chain n

theorem key_at {t : CiFlowTracker} {as : List Arrival} (h : KeyedByPosition t as)
    {i : Nat} {a : Arrival} {key : UInt64} (ha : as[i]? = some a)
    (hkey : (keys t as)[i]? = some key) : key.toNat = a.pos := by
  obtain ⟨hi, rfl⟩ := List.getElem?_eq_some_iff.mp ha
  obtain ⟨hj, rfl⟩ := List.getElem?_eq_some_iff.mp hkey
  exact List.Forall₂.get h.1 hi hj

/-- Exactly the orderly delivery orders are keyed by position, and two orderly ones
give a frame the same key and the same decision. -/
theorem keyed_iff_orderly (mtu overhead : UInt16) (rule : CiDropRule) (as : List Arrival)
    (window : WithinWindow none (as.map Arrival.pos)) :
    (KeyedByPosition (ciFlowTrackerInitOvh mtu overhead) as ↔ Orderly (as.map Arrival.pos)) ∧
    ∀ bs : List Arrival, WithinWindow none (bs.map Arrival.pos) →
      Orderly (as.map Arrival.pos) → Orderly (bs.map Arrival.pos) →
      ∀ (i j : Nat) (a b : Arrival) (ka kb : UInt64),
        as[i]? = some a → bs[j]? = some b → a.pos = b.pos →
        (keys (ciFlowTrackerInitOvh mtu overhead) as)[i]? = some ka →
        (keys (ciFlowTrackerInitOvh mtu overhead) bs)[j]? = some kb →
        ka = kb ∧ ciRuleDecide rule ka = ciRuleDecide rule kb := by
  have keyed : ∀ cs : List Arrival, WithinWindow none (cs.map Arrival.pos) →
      Orderly (cs.map Arrival.pos) → KeyedByPosition (ciFlowTrackerInitOvh mtu overhead) cs :=
    fun cs hw ho => (keyed_of_orderly mtu overhead cs hw).mpr ho
  refine ⟨keyed_of_orderly mtu overhead as window, ?_⟩
  intro bs hbs hao hbo i j a b ka kb ha hb hab hka hkb
  have hkey := key_at (keyed as window hao) ha hka
  have hkey' := key_at (keyed bs hbs hbo) hb hkb
  have same : ka = kb := UInt64.toNat_inj.mp (by rw [hkey, hkey', hab])
  exact ⟨same, by rw [same]⟩

def rdpPacket (hi lo : UInt8) : CspPacket where
  src := 10
  dst := 20
  dport := 13
  flags := 0x02
  data := [0x04, hi, lo, 0, 0]
  fits := by simp [cspBufferSize]

def crossingRun : List Arrival :=
  [⟨65535, rdpPacket 0xFF 0xFF, by decide, by decide⟩,
    ⟨65536, rdpPacket 0 0, by decide, by decide⟩]

/-- A frame of the old block that arrives just after the boundary was crossed. -/
def lateRun : List Arrival :=
  crossingRun ++ [⟨65534, rdpPacket 0xFF 0xFE, by decide, by decide⟩]

theorem crossing_run_keyed :
    KeyedByPosition (ciFlowTrackerInitOvh 200 4) crossingRun :=
  (keyed_iff_orderly 200 4 ⟨1, 13, false, 1 / 2, none⟩ crossingRun (by decide)).1.mpr
    (by decide)

/-- The late frame keeps the new epoch, so its key is 65536 too high. -/
theorem late_frame_misses_its_key :
    WithinWindow none (lateRun.map Arrival.pos) ∧
    ¬ KeyedByPosition (ciFlowTrackerInitOvh 200 4) lateRun := by
  constructor
  · decide
  · rintro ⟨h, _⟩
    have hkeys : keys (ciFlowTrackerInitOvh 200 4) lateRun = [65535, 65536, 131070] := by
      decide
    rw [hkeys] at h
    cases h with
    | cons _ h =>
      cases h with
      | cons _ h =>
        cases h with
        | cons hlate _ => exact absurd hlate (by decide)

end CspLinksim.FlowOrder
