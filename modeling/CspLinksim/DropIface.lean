import CspLinksim.Ge

/-!
# The in-path drop shim (`ci_drop_iface.c`)

A packet handed to the shim is freed by it or delegated to the interface below.
What the interface below answers, and the clock that stamps a log row, are inputs
of a call. The four 64-bit counters are natural numbers: none of them exceeds the number
of calls (`Partition.counters_le`).
-/

namespace CspLinksim.DropIface

open Runs Packet Rule Ge

def cspErrNone : Int := 0

/-- One call of the nexthop; `targetRc` is what the target answers if it is asked. -/
structure NexthopCall where
  packet : CspPacket
  via : UInt16
  fromMe : Int
  tMs : UInt32
  targetRc : Int
  deriving DecidableEq

/-- What becomes of a packet buffer. -/
inductive Disposal where
  | bufferFree (packet : CspPacket)
  | targetNexthop (via : UInt16) (packet : CspPacket) (fromMe : Int)
  deriving DecidableEq

/-- The disposals a call makes, in order, and its return value. -/
structure Reply where
  disposals : List Disposal
  rc : Int
  deriving DecidableEq

/-- `t_ms,src,dport,csp_flags,is_rdp,index,epoch,dropped`. -/
structure DropRow where
  tMs : UInt32
  src : UInt16
  dport : UInt16
  cspFlags : UInt8
  isRdp : Bool
  index : UInt64
  epoch : UInt32
  dropped : Bool
  deriving DecidableEq

structure CiDropIface where
  rule : CiDropRule
  tracker : CiFlowTracker
  dropLog : Option (List DropRow)
  perAttempt : Bool
  ge : CiGeState
  injectedDrops : Nat
  forwarded : Nat
  passthrough : Nat
  nexthopErrors : Nat
  deriving DecidableEq

def ciDropIfaceNexthop (s : CiDropIface) (c : NexthopCall) : CiDropIface × Reply :=
  let f := frameOf c.packet
  let delegated := Disposal.targetNexthop c.via c.packet c.fromMe
  if ¬ ciRuleMatch s.rule f then
    ({ s with passthrough := s.passthrough + 1 }, ⟨[delegated], c.targetRc⟩)
  else
    let (tracker, idx) := ciFlowIndex s.tracker f c.packet.data
    let (ge, drop) :=
      if s.perAttempt then ciGeStateStep s.ge else (s.ge, ciRuleDecide s.rule idx)
    let row : DropRow :=
      { tMs := c.tMs, src := c.packet.src, dport := c.packet.dport, cspFlags := c.packet.flags,
        isRdp := f.isRdp, index := idx, epoch := tracker.epoch, dropped := drop }
    let s := { s with tracker, ge, dropLog := s.dropLog.map (· ++ [row]) }
    if drop then
      ({ s with injectedDrops := s.injectedDrops + 1 }, ⟨[.bufferFree c.packet], cspErrNone⟩)
    else
      let s := { s with forwarded := s.forwarded + 1 }
      if c.targetRc ≠ cspErrNone then
        ({ s with nexthopErrors := s.nexthopErrors + 1 }, ⟨[delegated], c.targetRc⟩)
      else (s, ⟨[delegated], c.targetRc⟩)

/-- The shim zeroed by `memset`, with an open drop log or none. -/
def ciDropIfaceInit (rule : CiDropRule) (dtpMtu : UInt16) (logged : Bool) : CiDropIface where
  rule := rule
  tracker := ciFlowTrackerInit dtpMtu
  dropLog := if logged then some [] else none
  perAttempt := false
  ge := { seed := 0, step := 0, tG2b := 0, tB2g := 0, bad := false }
  injectedDrops := 0
  forwarded := 0
  passthrough := 0
  nexthopErrors := 0

def ciDropIfaceEnableGe (s : CiDropIface) (pG2b pB2g : ℚ) : CiDropIface :=
  { s with ge := ciGeStateInit s.rule.seed pG2b pB2g, perAttempt := true }

/-- The two drop modes, the second with its transition probabilities. -/
inductive DropMode where
  | identity
  | perAttempt (pG2b pB2g : ℚ)

/-- A shim as the injectors set it up: init, the overhead of the session, the mode. -/
def shim (rule : CiDropRule) (dtpMtu dtpOverhead : UInt16) (logged : Bool) (mode : DropMode) :
    CiDropIface :=
  let s := ciDropIfaceInit rule dtpMtu logged
  let s := { s with tracker := ciFlowTrackerInitOvh dtpMtu dtpOverhead }
  match mode with
  | .identity => s
  | .perAttempt pG2b pB2g => ciDropIfaceEnableGe s pG2b pB2g

def inScope (rule : CiDropRule) (c : NexthopCall) : Bool := ciRuleMatch rule (frameOf c.packet)

/-- The verdict on an in-scope packet: the tracker, the key, the channel, the drop. -/
def verdict (s : CiDropIface) (c : NexthopCall) : CiFlowTracker × UInt64 × CiGeState × Bool :=
  let key := ciFlowIndex s.tracker (frameOf c.packet) c.packet.data
  let channel :=
    if s.perAttempt then ciGeStateStep s.ge else (s.ge, ciRuleDecide s.rule key.2)
  (key.1, key.2, channel.1, channel.2)

def rowOf (s : CiDropIface) (c : NexthopCall) : DropRow :=
  let v := verdict s c
  { tMs := c.tMs, src := c.packet.src, dport := c.packet.dport, cspFlags := c.packet.flags,
    isRdp := (frameOf c.packet).isRdp, index := v.2.1, epoch := v.1.epoch, dropped := v.2.2.2 }

/-- The shim after it has logged an in-scope packet. -/
def logged (s : CiDropIface) (c : NexthopCall) : CiDropIface :=
  { s with
    tracker := (verdict s c).1
    ge := (verdict s c).2.2.1
    dropLog := s.dropLog.map (· ++ [rowOf s c]) }

/-- The four exits of a call. -/
theorem nexthop_cases (s : CiDropIface) (c : NexthopCall) :
    (inScope s.rule c = false ∧ ciDropIfaceNexthop s c =
      ({ s with passthrough := s.passthrough + 1 },
        ⟨[.targetNexthop c.via c.packet c.fromMe], c.targetRc⟩)) ∨
    (inScope s.rule c = true ∧ (verdict s c).2.2.2 = true ∧ ciDropIfaceNexthop s c =
      ({ logged s c with injectedDrops := s.injectedDrops + 1 },
        ⟨[.bufferFree c.packet], cspErrNone⟩)) ∨
    (inScope s.rule c = true ∧ (verdict s c).2.2.2 = false ∧ ciDropIfaceNexthop s c =
      ({ logged s c with
          forwarded := s.forwarded + 1
          nexthopErrors := s.nexthopErrors + if c.targetRc ≠ cspErrNone then 1 else 0 },
        ⟨[.targetNexthop c.via c.packet c.fromMe], c.targetRc⟩)) := by
  by_cases scope : inScope s.rule c = true
  · have hmatch : ciRuleMatch s.rule (frameOf c.packet) = true := scope
    cases hdrop : (verdict s c).2.2.2 with
    | true =>
      refine Or.inr (Or.inl ⟨scope, rfl, ?_⟩)
      simp only [verdict] at hdrop
      simp only [ciDropIfaceNexthop, hmatch, not_true_eq_false, if_false, hdrop, if_true, logged,
        rowOf, verdict]
    | false =>
      refine Or.inr (Or.inr ⟨scope, rfl, ?_⟩)
      simp only [verdict] at hdrop
      simp only [ciDropIfaceNexthop, hmatch, not_true_eq_false, if_false, hdrop,
        Bool.false_eq_true, logged, rowOf, verdict]
      by_cases refused : c.targetRc ≠ cspErrNone
      · simp only [if_pos refused]
      · simp only [if_neg refused, Nat.add_zero]
  · have hmatch : ciRuleMatch s.rule (frameOf c.packet) = false := by simpa [inScope] using scope
    refine Or.inl ⟨hmatch, ?_⟩
    simp only [ciDropIfaceNexthop, hmatch, Bool.false_eq_true, not_false_eq_true, if_true]

end CspLinksim.DropIface
