import Mathlib.Data.Rat.Floor
import CspLinksim.Prng
import CspLinksim.Packet

/-!
# The drop rule and the flow key (`ci_rule.c`)

A frame is matched against the scope of the rule, keyed by its protocol identity
and decided by one draw on that key. Probabilities are the exact rational values
of the doubles the code holds; scaling a double in (0,1) by 2^64 is exact, so the
cast to a threshold is the floor.
-/

namespace CspLinksim.Rule

open Prng Packet

/-- `ci_frame_t`. -/
structure CiFrame where
  dport : UInt16
  cspFlags : UInt8
  isRdp : Bool
  rdpFlags : UInt8
  deriving DecidableEq

/-- `ci_frame_from_fields`. -/
def ciFrameFromFields (dport : UInt16) (cspFlags : UInt8) (data : List UInt8) : CiFrame :=
  let isRdp := cspFlags &&& ciCspFrdp ≠ 0
  let rdpFlags :=
    if isRdp then
      match ciRdpParseTrailer data cspFlags with
      | some h => h.flags
      | none => 0
    else 0
  { dport, cspFlags, isRdp, rdpFlags }

/-- The view both injectors build of a packet before they match it. -/
def frameOf (p : CspPacket) : CiFrame := ciFrameFromFields p.dport p.flags p.data

/-- `ci_drop_rule_t`. The replay vector carries its own length. -/
structure CiDropRule where
  seed : UInt64
  matchDport : Int
  matchRdpSyn : Bool
  dropProbability : ℚ
  replayVector : Option (List UInt8)
  deriving DecidableEq

/-- `ci_rule_match`. -/
def ciRuleMatch (r : CiDropRule) (f : CiFrame) : Bool :=
  if 0 ≤ r.matchDport ∧ f.dport ≠ UInt16.ofInt r.matchDport then false
  else if r.matchRdpSyn then
    if ¬ f.isRdp then false
    else if f.rdpFlags &&& ciRdpSyn = 0 then false
    else true
  else true

/-- `p * 2^64` cast to an unsigned 64-bit integer, for `p` in (0,1). -/
def scaledThreshold (p : ℚ) : UInt64 := UInt64.ofNat (p * 18446744073709551616).floor.toNat

/-- `ci_rule_decide`: true drops. -/
def ciRuleDecide (r : CiDropRule) (index : UInt64) : Bool :=
  match r.replayVector with
  | some v => if v.length ≤ index.toNat then false else v.getD index.toNat 0 ≠ 0
  | none =>
    if r.dropProbability ≤ 0 then false
    else if 1 ≤ r.dropProbability then true
    else ciDraw r.seed index < scaledThreshold r.dropProbability

/-- `ci_flow_index_rdp`. -/
def ciFlowIndexRdp (epoch : UInt32) (rdpSeq : UInt16) : UInt64 :=
  (epoch.toUInt64 <<< 16) ||| rdpSeq.toUInt64

/-- `ci_rdp_seq_is_wrap`. -/
def ciRdpSeqIsWrap (prevSeq newSeq : UInt16) : Bool :=
  let fwd := newSeq - prevSeq
  fwd < 0x8000 ∧ newSeq < prevSeq

/-- `ci_flow_tracker_t`. -/
structure CiFlowTracker where
  lastSeq : UInt16
  haveLastSeq : Bool
  epoch : UInt32
  dtpMtu : UInt16
  dtpOverhead : UInt16
  deriving DecidableEq

/-- `ci_flow_tracker_init_ovh`. -/
def ciFlowTrackerInitOvh (dtpMtu dtpOverhead : UInt16) : CiFlowTracker :=
  { lastSeq := 0, haveLastSeq := false, epoch := 0, dtpMtu, dtpOverhead }

/-- `ci_flow_tracker_init`. -/
def ciFlowTrackerInit (dtpMtu : UInt16) : CiFlowTracker :=
  ciFlowTrackerInitOvh dtpMtu ciDtpOverheadDipp

/-- `ci_flow_index`: the tracker after the frame, and the frame's key. -/
def ciFlowIndex (t : CiFlowTracker) (f : CiFrame) (data : List UInt8) :
    CiFlowTracker × UInt64 :=
  if f.isRdp then
    match ciRdpParseTrailer data f.cspFlags with
    | some h =>
      let epoch :=
        if t.haveLastSeq ∧ ciRdpSeqIsWrap t.lastSeq h.seq then t.epoch + 1 else t.epoch
      ({ t with epoch, lastSeq := h.seq, haveLastSeq := true }, ciFlowIndexRdp epoch h.seq)
    | none => (t, 0)
  else
    match ciDtpParseOffset data with
    | some off =>
      match ciDtpFragmentIndexOvh off t.dtpMtu t.dtpOverhead with
      | some frag => (t, frag.toUInt64)
      | none => (t, 0)
    | none => (t, 0)

end CspLinksim.Rule
