import CspLinksim.PrngMix
import CspLinksim.ShimRuns
import CspLinksim.SvuKeyedLoss

/-!
# Sweeping the loss

Every frame has one critical probability, which its key and the seed determine. At a rate
from there on it is dropped, below it is not. The runs of a sweep are therefore nested: what a
higher rate lets through, a lower one lets through as well.
-/

namespace CspLinksim.LossSweep

open Runs Packet Rule Prng DropIface ShimRuns

/-- The least rate at which an index is dropped. -/
def dropsFrom (seed index : UInt64) : ℚ :=
  ((ciDraw seed index).toNat + 1) / 18446744073709551616

theorem dropsFrom_pos (seed index : UInt64) : 0 < dropsFrom seed index := by
  rw [dropsFrom]
  positivity

theorem dropsFrom_le_one (seed index : UInt64) : dropsFrom seed index ≤ 1 := by
  have drawn : ((ciDraw seed index).toNat : ℚ) < 18446744073709551616 := by
    exact_mod_cast (ciDraw seed index).toNat_lt
  rw [dropsFrom, div_le_one (by norm_num)]
  have whole : (ciDraw seed index).toNat + 1 ≤ 18446744073709551616 := (ciDraw seed index).toNat_lt
  exact_mod_cast whole

/-- The decision as a comparison of rates, for every rate. -/
theorem decide_iff {r : CiDropRule} (drawn : r.replayVector = none) (index : UInt64) :
    ciRuleDecide r index = true ↔ dropsFrom r.seed index ≤ r.dropProbability := by
  have pos := dropsFrom_pos r.seed index
  have one := dropsFrom_le_one r.seed index
  simp only [ciRuleDecide, drawn]
  split
  case isTrue low =>
    constructor
    · intro never
      cases never
    · intro le
      exact absurd (pos.trans_le le) (not_lt.mpr low)
  case isFalse low =>
    split
    case isTrue high => exact iff_of_true rfl (one.trans high)
    case isFalse high =>
      have low : 0 ≤ r.dropProbability := (not_le.mp low).le
      rw [decide_eq_true_eq, UInt64.lt_iff_toNat_lt, scaledThreshold_toNat low (not_le.mp high),
        ← Nat.succ_le_iff, Nat.le_floor_iff (by positivity), dropsFrom, div_le_iff₀ (by norm_num)]
      norm_num

open LossApm Svu

/-- `csp_loss start` with the rate of a sweep. -/
def startAt (fl : ℚ → ℚ) (w : World) (args : StartArgs) (p : ℚ) : World :=
  (cspLossStart fl w { args with prob := p }).1

theorem accepted_rate {w : World} {args : StartArgs} (accepted : startRefused w args = none) :
    ¬ (args.prob < 0 ∨ 1 < args.prob) := by
  intro outside
  simp only [startRefused, if_pos outside] at accepted
  split at accepted
  case isTrue => cases accepted
  case isFalse =>
    split at accepted
    case isTrue => cases accepted
    case isFalse => cases accepted

/-- `start` accepts every lower rate that it can be given. -/
theorem accepted_below {w : World} {args : StartArgs} {p q : ℚ} (lossy : 0 < p) (le : p ≤ q)
    (accepted : startRefused w { args with prob := q } = none) :
    startRefused w { args with prob := p } = none := by
  have high : ¬ (q < 0 ∨ 1 < q) := accepted_rate accepted
  have low : ¬ (p < 0 ∨ 1 < p) := by
    rw [not_or, not_lt, not_lt] at high ⊢
    exact ⟨lossy.le, le.trans high.2⟩
  rw [← accepted]
  simp only [startRefused, if_neg low, if_neg high]

/-- A fragment that is dropped at a rate is dropped at every higher one. -/
theorem dropsFragment_grows (fl : ℚ → ℚ) {w : World} {args : StartArgs} {p q : ℚ} (lossy : 0 < p)
    (le : p ≤ q) (accepted : startRefused w { args with prob := q } = none) {mtu : UInt32} {k : Nat}
    (drops : dropsFragment (startAt fl w args p) mtu k = true) :
    dropsFragment (startAt fl w args q) mtu k = true := by
  have below := accepted_below lossy le accepted
  simp only [dropsFragment, dropsOffset, startAt, cspLossStart, below] at drops
  simp only [dropsFragment, dropsOffset, startAt, cspLossStart, accepted]
  rw [decide_iff rfl] at drops ⊢
  exact drops.trans le

/-- If an upload can verify behind the shim at some rate, it can at every lower one, in one
round and with any block size in the requests. -/
theorem upload_sweep (fl : ℚ → ℚ) {src : List UInt8} {total block mtu : UInt32}
    (t : Transfer src total mtu) (hn : ciSvuNblocks total block ≠ 0)
    (room : (ciSvuNblocks total block).toNat ≤ 134217725) {w : World} {args : StartArgs}
    (bare : w.nexthop = some .driver) (port : args.dport = 9) (steady : ¬ 0 < args.burst) {p q : ℚ}
    (lossy : 0 < p) (le : p ≤ q) (accepted : startRefused w { args with prob := q } = none)
    (verifies : ∃ blockSize rounds n sess,
      ThroughShim (svuServe src total block) mtu blockSize (startAt fl w args q) sessionStart
        rounds ∧
      roundLoop (svuServe src total block) mtu blockSize n sessionStart (rounds.map Prod.fst) =
        .ok (.verdict sess) ∧ sess.st = .completeVerified) (blockSize : UInt32) :
    ∃ round sess,
      ThroughShim (svuServe src total block) mtu blockSize (startAt fl w args p) sessionStart
        [round] ∧
      roundLoop (svuServe src total block) mtu blockSize 1 sessionStart [round.1] =
        .ok (.verdict sess) ∧ sess.st = .completeVerified := by
  have dport : UInt16.ofInt args.dport = svuDataPort := by
    rw [port]
    rfl
  have keyed : ∀ {r : ℚ}, 0 < r → startRefused w { args with prob := r } = none →
      Keyed svuDataPort (startAt fl w args r) := by
    intro r pos ok
    have start := @keyed_of_start fl w { args with prob := r } bare ok pos steady
      (by simp only [port]; decide)
    rwa [← dport]
  obtain ⟨blockSize', rounds, n, sess, through, loop, verified⟩ := verifies
  have passes : ∀ k < nofFragments total mtu,
      dropsFragment (startAt fl w args p) mtu k = false := by
    intro k hk
    by_contra dropped
    have higher := dropsFragment_grows fl lossy le accepted (Bool.eq_true_of_not_eq_false dropped)
    obtain ⟨e, m', loop', _, _, unfinished⟩ := dropped_stays t hn n
      (keyed (lossy.trans_le le) accepted) higher (misses_start src total block mtu)
      (Finset.mem_range.mpr hk) (by decide) through
    cases loop.symm.trans loop'
    exact unfinished verified
  exact undropped_verifies t hn room (keyed lossy (accepted_below lossy le accepted)) passes
    blockSize

theorem upload_sweep_of_three_bytes :
    ∃ round sess, ThroughShim (svuServe [7, 8, 9] 3 2) 9 2
        (startAt id World.start { keyedArgs with seed := 0 } (1 / 4)) sessionStart [round] ∧
      roundLoop (svuServe [7, 8, 9] 3 2) 9 2 1 sessionStart [round.1] = .ok (.verdict sess) ∧
      sess.st = .completeVerified := by
  have t : Transfer [7, 8, 9] 3 9 := ⟨rfl, by decide, by decide, by decide⟩
  have keyed := @keyed_of_start id World.start { keyedArgs with seed := 0 } rfl (by decide +kernel)
    (by decide +kernel) (by decide +kernel) (by decide)
  have port : UInt16.ofInt keyedArgs.dport = svuDataPort := by decide
  obtain ⟨round, sess, through, loop, verified⟩ :=
    @undropped_verifies _ _ 2 _ t (by decide) (by decide) _
    (port ▸ keyed) (by decide +kernel) 2
  exact upload_sweep id t (by decide) (by decide) rfl rfl (by decide +kernel)
    (by norm_num : (0 : ℚ) < 1 / 4) (by norm_num : (1 / 4 : ℚ) ≤ 1 / 2) (by decide +kernel)
    ⟨2, [round], 1, sess, through, loop, verified⟩ 2

end CspLinksim.LossSweep
