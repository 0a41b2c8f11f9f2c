import CspLinksim.Meas
import CspLinksim.Proxy
import CspLinksim.LossOracle
import CspLinksim.MonStart

/-!
# The overhead guard of the front-ends

Four front-ends take an MTU and an overhead, check them as they are given and keep 16-bit
copies. The fragment index is computed from the copies.
-/

namespace CspLinksim.FragmentGuard

open Packet Rule DropIface Proxy

/-- `(uint16_t)` of an `int`. -/
def low16 (x : Int32) : UInt16 := UInt16.ofInt x.toInt

/-- The guard of `zmq_proxy_lossy`, which exits on `none`. -/
def zmqProxyLossy (rule : CiDropRule) (mtuArg overheadArg : Int32) : Option Globals :=
  if overheadArg < 4 ∨ overheadArg ≥ mtuArg then none
  else some (proxyStart rule (low16 mtuArg) (low16 overheadArg))

/-- The guard of `ci_inject_bridge`, and the shim it goes on with. -/
def ciInjectBridge (rule : CiDropRule) (logged : Bool) (mode : DropMode) (mtu overhead : Int32) :
    Option CiDropIface :=
  if overhead < 4 ∨ overhead ≥ mtu then none
  else some (shim rule (low16 mtu) (low16 overhead) logged mode)

/-- What a front-end divides by. -/
structure Copies where
  mtu : UInt16
  overhead : UInt16
  deriving DecidableEq

/-- A front-end runs with these arguments and keeps these copies. -/
inductive Runs : ℤ → ℤ → Copies → Prop where
  | zmqProxyLossy {rule mtuArg overheadArg g} :
    zmqProxyLossy rule mtuArg overheadArg = some g →
    Runs mtuArg.toInt overheadArg.toInt ⟨g.gDtpMtu, g.gDtpOverhead⟩
  | ciInjectBridge {rule logged mode mtu overhead s} :
    ciInjectBridge rule logged mode mtu overhead = some s →
    Runs mtu.toInt overhead.toInt ⟨s.tracker.dtpMtu, s.tracker.dtpOverhead⟩
  | cspLossStart {fl w args w'} :
    LossApm.cspLossStart fl w args = (w', none) → 0 ≤ args.dport →
    Runs args.mtu.toNat args.overhead.toNat ⟨w'.loss.lossMtu, w'.loss.lossOverhead⟩
  | cspMonitorStart {σ π : Type} {lib : Start.Promisc σ π} {s a w s'} :
    s.monRunning = false → Start.cspMonitorStart lib s a w = (s', .success) →
    Runs (a.mtuOr s).toNat (a.overheadOr s).toNat ⟨s'.monMtu, s'.monDtpOverhead⟩

/-- Every offset has its index by the arguments. -/
def Indexes (mtu overhead : ℤ) (c : Copies) : Prop :=
  ∀ offset : UInt32, ∃ frag, ciDtpFragmentIndexOvh offset c.mtu c.overhead = some frag ∧
    (frag.toNat : ℤ) = offset.toNat / (mtu - overhead)

/-- What the guards let through, and what is kept of it. -/
structure Admitted (mtu overhead : ℤ) (c : Copies) : Prop where
  low : 4 ≤ overhead
  below : overhead < mtu
  high : mtu < 4294967296
  keptMtu : (c.mtu.toNat : ℤ) = mtu % 65536
  keptOverhead : (c.overhead.toNat : ℤ) = overhead % 65536

theorem low16_toNat (x : Int32) : ((low16 x).toNat : ℤ) = x.toInt % 65536 := by
  rw [low16, Meas.toNat_ofInt]

theorem admitted_of_int {mtu overhead : Int32} (passes : ¬ (overhead < 4 ∨ overhead ≥ mtu)) :
    Admitted mtu.toInt overhead.toInt ⟨low16 mtu, low16 overhead⟩ := by
  obtain ⟨low, below⟩ := not_or.mp passes
  rw [Int32.not_lt, Int32.le_iff_toInt_le] at low
  rw [ge_iff_le, Int32.not_le, Int32.lt_iff_toInt_lt] at below
  have high := mtu.toInt_lt
  exact ⟨low, below, by omega, low16_toNat mtu, low16_toNat overhead⟩

theorem admitted_of_unsigned {mtu overhead : UInt32} (low : ¬ overhead < 4)
    (below : ¬ mtu ≤ overhead) :
    Admitted mtu.toNat overhead.toNat ⟨mtu.toUInt16, overhead.toUInt16⟩ := by
  rw [UInt32.not_lt, UInt32.le_iff_toNat_le] at low
  rw [UInt32.not_le, UInt32.lt_iff_toNat_lt] at below
  have high := mtu.toNat_lt
  refine ⟨by exact_mod_cast low, by exact_mod_cast below, by omega, ?_, ?_⟩
  · rw [UInt32.toNat_toUInt16]
    omega
  · rw [UInt32.toNat_toUInt16]
    omega

theorem openCapture_copies {σ π : Type} (lib : Start.Promisc σ π) (s : Start.Monitor σ)
    (w : Start.Surroundings π) :
    (Start.openCapture lib s w).1.monMtu = s.monMtu ∧
      (Start.openCapture lib s w).1.monDtpOverhead = s.monDtpOverhead := by
  simp only [Start.openCapture, Start.startThreads]
  split_ifs <;> exact ⟨rfl, rfl⟩

theorem prepare_copies {σ : Type} {s t : Start.Monitor σ} {a : Start.StartArgs}
    {dfl : Option Start.CspIface} (passed : Start.prepare s a dfl = (t, true)) :
    t.monMtu = (a.mtuOr s).toUInt16 ∧ t.monDtpOverhead = (a.overheadOr s).toUInt16 := by
  rw [Start.prepare] at passed
  split at passed
  · cases passed
  · split at passed
    · cases passed
    · obtain ⟨rs, l, p, q, read⟩ := Start.readRemotes_frame s a dfl
      generalize Start.readRemotes s a dfl = x at read passed
      rcases x with ⟨u, _ | _⟩
      · cases passed
      · obtain rfl : u = _ := read
        obtain ⟨rfl⟩ := Prod.mk.inj passed
        exact ⟨rfl, rfl⟩

theorem admitted_of_lossStart {fl : ℚ → ℚ} {w w' : LossApm.World}
    {args : LossApm.StartArgs} (started : LossApm.cspLossStart fl w args = (w', none))
    (replay : 0 ≤ args.dport) :
    Admitted args.mtu.toNat args.overhead.toNat ⟨w'.loss.lossMtu, w'.loss.lossOverhead⟩ := by
  cases hr : LossApm.startRefused w args with
  | some r =>
    rw [LossApm.cspLossStart, hr] at started
    cases r <;> cases started
  | none =>
    obtain ⟨-, rest⟩ := LossApm.check_passed hr
    obtain ⟨-, rest⟩ := LossApm.check_passed rest
    obtain ⟨-, rest⟩ := LossApm.check_passed rest
    obtain ⟨-, rest⟩ := LossApm.check_passed rest
    obtain ⟨guard, -⟩ := LossApm.check_passed rest
    obtain ⟨low, below⟩ := not_or.mp fun outside => guard ⟨replay, outside⟩
    rw [LossApm.cspLossStart, hr] at started
    obtain ⟨rfl⟩ := Prod.mk.inj started
    exact admitted_of_unsigned low below

theorem admitted_of_monitorStart {σ π : Type} {lib : Start.Promisc σ π} {s s' : Start.Monitor σ}
    {a : Start.StartArgs} {w : Start.Surroundings π} (stopped : s.monRunning = false)
    (started : Start.cspMonitorStart lib s a w = (s', .success)) :
    Admitted (a.mtuOr s).toNat (a.overheadOr s).toNat ⟨s'.monMtu, s'.monDtpOverhead⟩ := by
  rw [Start.cspMonitorStart, stopped] at started
  have checks := Start.prepare_ok s a w.dfl
  cases prepared : Start.prepare s a w.dfl with
  | mk t ok =>
    rw [prepared] at started checks
    cases ok with
    | false => cases started
    | true =>
      obtain ⟨-, fits, -⟩ := checks.mp rfl
      obtain ⟨low, below⟩ := not_or.mp (of_decide_eq_true fits)
      obtain ⟨keptMtu, keptOverhead⟩ := prepare_copies prepared
      have kept := openCapture_copies lib t w
      have ends : s' = (Start.openCapture lib t w).1 := by
        have both : Start.openCapture lib t w = (s', .success) := started
        rw [both]
      rw [ends, kept.1, kept.2, keptMtu, keptOverhead]
      exact admitted_of_unsigned low below

/-- Every front-end that runs has passed its guard. -/
theorem admitted_of_runs {mtu overhead : ℤ} {c : Copies} (runs : Runs mtu overhead c) :
    Admitted mtu overhead c := by
  cases runs with
  | zmqProxyLossy goes =>
    rw [zmqProxyLossy] at goes
    split at goes
    · cases goes
    · rename_i passes
      cases goes
      exact admitted_of_int passes
  | @ciInjectBridge rule logged mode mtu overhead s goes =>
    rw [ciInjectBridge] at goes
    split at goes
    · cases goes
    · rename_i passes
      cases goes
      cases mode <;> exact admitted_of_int passes
  | cspLossStart started replay => exact admitted_of_lossStart started replay
  | cspMonitorStart stopped started => exact admitted_of_monitorStart stopped started

theorem index_eq {mtu overhead : UInt16} (room : overhead < mtu) (offset : UInt32) :
    ∃ frag, ciDtpFragmentIndexOvh offset mtu overhead = some frag ∧
      frag.toNat = offset.toNat / (mtu.toNat - overhead.toNat) := by
  have le : overhead ≤ mtu := UInt16.le_of_lt room
  refine ⟨_, if_neg (UInt16.not_le.mpr room), ?_⟩
  rw [UInt32.toNat_div, UInt16.toNat_toUInt32, UInt16.toNat_sub_of_le mtu overhead le]

/-- Divisors below a bound with the same quotients below it are the same: each has the
quotient 1 at itself. -/
theorem divisors_eq {d e bound : ℕ} (hd : 0 < d ∧ d < bound) (he : 0 < e ∧ e < bound)
    (same : ∀ offset < bound, offset / d = offset / e) : d = e := by
  have at_d := same d hd.2
  have at_e := same e he.2
  rw [Nat.div_self hd.1] at at_d
  rw [Nat.div_self he.1] at at_e
  apply Nat.le_antisymm
  · by_contra large
    rw [Nat.div_eq_of_lt (by omega)] at at_e
    cases at_e
  · by_contra small
    rw [Nat.div_eq_of_lt (by omega)] at at_d
    cases at_d

theorem Admitted.indexes_iff {mtu overhead : ℤ} {c : Copies} (h : Admitted mtu overhead c) :
    Indexes mtu overhead c ↔ mtu / 65536 = overhead / 65536 := by
  obtain ⟨low, below, high, keptMtu, keptOverhead⟩ := h
  have asked : (((mtu - overhead).toNat : ℕ) : ℤ) = mtu - overhead := by omega
  constructor
  · intro all
    have room : c.overhead < c.mtu := by
      obtain ⟨frag, given, -⟩ := all 0
      by_contra none
      rw [ciDtpFragmentIndexOvh, if_pos (UInt16.not_lt.mp none)] at given
      cases given
    have index (offset : ℕ) (fits : offset < 4294967296) :
        offset / (c.mtu.toNat - c.overhead.toNat) = offset / (mtu - overhead).toNat := by
      obtain ⟨frag, given, frag_eq⟩ := all (UInt32.ofNat offset)
      obtain ⟨frag', given', frag_eq'⟩ := index_eq room (UInt32.ofNat offset)
      obtain rfl := Option.some.inj (given.symm.trans given')
      rw [UInt32.toNat_ofNat_of_lt' (by rw [UInt32.size]; omega)] at frag_eq frag_eq'
      rw [← asked, ← Int.natCast_div] at frag_eq
      rw [← frag_eq', ← Int.natCast_inj, frag_eq]
    rw [UInt16.lt_iff_toNat_lt] at room
    have bound := c.mtu.toNat_lt
    have divisor := divisors_eq ⟨by omega, by omega⟩ ⟨by omega, by omega⟩ index
    omega
  · intro same offset
    have room : c.overhead < c.mtu := by
      rw [UInt16.lt_iff_toNat_lt]
      omega
    obtain ⟨frag, given, frag_eq⟩ := index_eq room offset
    refine ⟨frag, given, ?_⟩
    have divisor : ((c.mtu.toNat - c.overhead.toNat : ℕ) : ℤ) = mtu - overhead := by
      omega
    rw [frag_eq, Int.natCast_div, divisor]

/-- Where the copies leave no payload, every fragment has the key 0. -/
theorem one_key (t : CiFlowTracker) (none : t.dtpMtu ≤ t.dtpOverhead) (f : CiFrame)
    (bulk : f.isRdp = false) (data : List UInt8) : (ciFlowIndex t f data).2 = 0 := by
  simp only [ciFlowIndex, bulk, Bool.false_eq_true, if_false, ciDtpFragmentIndexOvh, if_pos none]
  split <;> rfl

/-- A running front-end indexes every fragment by its arguments exactly if they agree from
bit 16 on, and all that run with them keep the same copies. -/
theorem fragment_indexes_iff {mtu overhead : ℤ} {c : Copies} (runs : Runs mtu overhead c) :
    (Indexes mtu overhead c ↔ mtu / 65536 = overhead / 65536) ∧
      ∀ c', Runs mtu overhead c' → c' = c := by
  have h := admitted_of_runs runs
  refine ⟨h.indexes_iff, fun c' runs' => ?_⟩
  have h' := admitted_of_runs runs'
  rcases c with ⟨m, o⟩
  rcases c' with ⟨m', o'⟩
  have sameMtu : m'.toNat = m.toNat := by exact_mod_cast h'.keptMtu.trans h.keptMtu.symm
  have sameOverhead : o'.toNat = o.toNat := by
    exact_mod_cast h'.keptOverhead.trans h.keptOverhead.symm
  rw [UInt16.toNat_inj.mp sameMtu, UInt16.toNat_inj.mp sameOverhead]

/-- A broker with the default MTU and overhead. -/
theorem fragment_indexes_default :
    (Indexes 200 4 ⟨200, 4⟩ ↔ (200 : ℤ) / 65536 = 4 / 65536) ∧
      ∀ c', Runs 200 4 c' → c' = ⟨200, 4⟩ :=
  fragment_indexes_iff (@Runs.zmqProxyLossy (proxyRule 1 8 false 0) 200 4
    (proxyStart (proxyRule 1 8 false 0) 200 4) (by decide))

/-- 65540 is 4 in 16 bits: the guard lets it through with an overhead of 8, and no offset has
an index. -/
theorem wide_mtu_has_no_index :
    Runs 65540 8 ⟨4, 8⟩ ∧ ciDtpFragmentIndexOvh 65532 4 8 = none ∧ ¬ Indexes 65540 8 ⟨4, 8⟩ := by
  refine ⟨@Runs.zmqProxyLossy (proxyRule 1 8 false 0) 65540 8
    (proxyStart (proxyRule 1 8 false 0) 4 8) (by decide), by decide, fun all => ?_⟩
  obtain ⟨frag, given, -⟩ := all 0
  cases given

end CspLinksim.FragmentGuard
