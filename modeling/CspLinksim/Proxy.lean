import CspLinksim.ShimRuns

/-!
# The lossy broker (`zmqproxy.c`) and the shim

The broker keys an RDP frame with state of its own, the globals `g_last_seq`,
`g_have_last_seq` and `g_epoch`. The results relate those globals to the tracker of
the shim over whole runs. Corruption, delay and half duplex draw on `rand` and are
switched off here; a wire frame is the id header and the payload. The 64-bit counters are
natural numbers that add up to the number of frames (`broker_counted`).
-/

namespace CspLinksim.Proxy

open Runs Packet Rule DropIface ShimRuns

/-- The globals of the measurement mode. -/
structure Globals where
  gRule : CiDropRule
  gLastSeq : UInt16
  gHaveLastSeq : Bool
  gEpoch : UInt32
  gDtpMtu : UInt16
  gDtpOverhead : UInt16
  gDropLog : Option (List DropRow)
  gMalformedFrames : Nat
  gKept : Nat
  gDrops : Nat
  deriving DecidableEq

/-- A frame from the frontend, the clock, and the verdict `rand` gives in legacy mode. -/
structure WireFrame where
  packet : CspPacket
  tMs : UInt32
  randDrop : Bool
  deriving DecidableEq

/-- The header in front of the payload: six bytes in CSP 2, four in CSP 1. -/
def headerSize (version2 : Bool) : Nat := if version2 then 6 else 4

def proxyFrameFits (version2 : Bool) (datalen : Nat) : Bool :=
  datalen ≤ cspBufferSize + headerSize version2

def proxyFlowIndex (g : Globals) (packet : CspPacket) (f : CiFrame) : Globals × UInt64 :=
  if f.isRdp then
    match ciRdpParseTrailer packet.data packet.flags with
    | some h =>
      let g :=
        if g.gHaveLastSeq ∧ ciRdpSeqIsWrap g.gLastSeq h.seq then
          { g with gEpoch := g.gEpoch + 1 }
        else g
      let g := { g with gLastSeq := h.seq, gHaveLastSeq := true }
      (g, ciFlowIndexRdp g.gEpoch h.seq)
    | none => (g, 0)
  else
    match ciDtpParseOffset packet.data with
    | some off =>
      match ciDtpFragmentIndexOvh off g.gDtpMtu g.gDtpOverhead with
      | some frag => (g, frag.toUInt64)
      | none => (g, 0)
    | none => (g, 0)

/-- The decision on one frame; `none` rejects it as malformed. -/
def decideFrame (version2 : Bool) (g : Globals) (x : WireFrame) : Option (Globals × Bool) :=
  if 0 ≤ g.gRule.matchDport then
    if ¬ proxyFrameFits version2 (headerSize version2 + x.packet.data.length) then none
    else
      let f := ciFrameFromFields x.packet.dport x.packet.flags x.packet.data
      if ciRuleMatch g.gRule f then
        let (g, idx) := proxyFlowIndex g x.packet f
        let drop := ciRuleDecide g.gRule idx
        let row : DropRow :=
          { tMs := x.tMs, src := x.packet.src, dport := x.packet.dport,
            cspFlags := x.packet.flags, isRdp := f.isRdp, index := idx, epoch := g.gEpoch,
            dropped := drop }
        some ({ g with gDropLog := g.gDropLog.map (· ++ [row]) }, drop)
      else some (g, false)
  else some (g, x.randDrop)

/-- One pass of the loop of `zmq_proxy_lossy`: what it sends to the backend. -/
def zmqProxyLossy (version2 : Bool) (g : Globals) (x : WireFrame) : Globals × List CspPacket :=
  match decideFrame version2 g x with
  | none => ({ g with gMalformedFrames := g.gMalformedFrames + 1 }, [])
  | some (g, drop) =>
    if ¬ drop then ({ g with gKept := g.gKept + 1 }, [x.packet])
    else ({ g with gDrops := g.gDrops + 1 }, [])

/-- The rule `zmq_proxy_lossy` assembles: it never replays a vector. -/
def proxyRule (seed : UInt64) (matchDport : Int) (matchRdpSyn : Bool) (lossProb : ℚ) :
    CiDropRule where
  seed := seed
  matchDport := matchDport
  matchRdpSyn := matchRdpSyn
  dropProbability := lossProb
  replayVector := none

/-- The broker at the top of its loop, with an open drop log. -/
def proxyStart (rule : CiDropRule) (mtu overhead : UInt16) : Globals where
  gRule := rule
  gLastSeq := 0
  gHaveLastSeq := false
  gEpoch := 0
  gDtpMtu := mtu
  gDtpOverhead := overhead
  gDropLog := some []
  gMalformedFrames := 0
  gKept := 0
  gDrops := 0

/-- The tracker the globals stand for. -/
def trackerOf (g : Globals) : CiFlowTracker where
  lastSeq := g.gLastSeq
  haveLastSeq := g.gHaveLastSeq
  epoch := g.gEpoch
  dtpMtu := g.gDtpMtu
  dtpOverhead := g.gDtpOverhead

/-- A row without the clock. -/
def untimed (row : DropRow) : DropRow := { row with tMs := 0 }

/-- The two oracles agree on the rule, the flow and the log. -/
structure Agree (s : CiDropIface) (g : Globals) : Prop where
  rule : s.rule = g.gRule
  mode : s.perAttempt = false
  tracker : s.tracker = trackerOf g
  log : s.dropLog.map (List.map untimed) = g.gDropLog.map (List.map untimed)

/-- The two keys are one: the globals are a tracker. -/
theorem ciFlowIndex_trackerOf (g : Globals) (p : CspPacket) :
    ciFlowIndex (trackerOf g) (frameOf p) p.data =
      (trackerOf (proxyFlowIndex g p (frameOf p)).1, (proxyFlowIndex g p (frameOf p)).2) := by
  have hflags : (frameOf p).cspFlags = p.flags := rfl
  simp only [ciFlowIndex, proxyFlowIndex, hflags]
  by_cases rdp : (frameOf p).isRdp = true
  · simp only [rdp, if_true]
    cases ciRdpParseTrailer p.data p.flags with
    | none => rfl
    | some h =>
      have same : ((trackerOf g).haveLastSeq = true ∧
          ciRdpSeqIsWrap (trackerOf g).lastSeq h.seq = true) ↔
        (g.gHaveLastSeq = true ∧ ciRdpSeqIsWrap g.gLastSeq h.seq = true) := Iff.rfl
      by_cases wraps : g.gHaveLastSeq = true ∧ ciRdpSeqIsWrap g.gLastSeq h.seq = true
      · simp only [if_pos wraps, if_pos (same.mpr wraps)]
        rfl
      · simp only [if_neg wraps, if_neg (mt same.mp wraps)]
        rfl
  · simp only [rdp, Bool.false_eq_true, if_false]
    cases ciDtpParseOffset p.data with
    | none => rfl
    | some off =>
      simp only [trackerOf]
      cases ciDtpFragmentIndexOvh off g.gDtpMtu g.gDtpOverhead <;> rfl

/-- Keying a frame changes the wrap state and nothing else. -/
theorem proxyFlowIndex_keeps (g : Globals) (p : CspPacket) (f : CiFrame) :
    ∃ lastSeq haveLastSeq epoch, (proxyFlowIndex g p f).1 =
      { g with gLastSeq := lastSeq, gHaveLastSeq := haveLastSeq, gEpoch := epoch } := by
  unfold proxyFlowIndex
  split
  · cases ciRdpParseTrailer p.data p.flags with
    | none => exact ⟨_, _, _, rfl⟩
    | some h =>
      simp only
      split <;> exact ⟨_, _, _, rfl⟩
  · cases ciDtpParseOffset p.data with
    | none => exact ⟨_, _, _, rfl⟩
    | some off =>
      simp only
      cases ciDtpFragmentIndexOvh off g.gDtpMtu g.gDtpOverhead <;> exact ⟨_, _, _, rfl⟩

theorem proxyFlowIndex_frame (g : Globals) (p : CspPacket) (f : CiFrame) :
    (proxyFlowIndex g p f).1.gRule = g.gRule ∧
    (proxyFlowIndex g p f).1.gDropLog = g.gDropLog := by
  obtain ⟨_, _, _, keeps⟩ := proxyFlowIndex_keeps g p f
  simp [keeps]

theorem frame_fits (version2 : Bool) (p : CspPacket) :
    proxyFrameFits version2 (headerSize version2 + p.data.length) = true := by
  have := p.fits
  simp only [proxyFrameFits, decide_eq_true_eq]
  omega

/-- The frames in the counters. -/
def Globals.counted (g : Globals) : Nat := g.gKept + g.gDrops + g.gMalformedFrames

theorem decideFrame_counted {version2 : Bool} {g g' : Globals} {x : WireFrame} {drop : Bool}
    (decided : decideFrame version2 g x = some (g', drop)) : g'.counted = g.counted := by
  by_cases gated : 0 ≤ g.gRule.matchDport
  · by_cases malformed : ¬ proxyFrameFits version2 (headerSize version2 + x.packet.data.length)
    · rw [decideFrame, if_pos gated, if_pos malformed] at decided
      cases decided
    · rw [decideFrame, if_pos gated, if_neg malformed] at decided
      obtain ⟨_, _, _, keeps⟩ := proxyFlowIndex_keeps g x.packet
        (ciFrameFromFields x.packet.dport x.packet.flags x.packet.data)
      simp only [keeps] at decided
      split at decided
      all_goals
        cases decided
        rfl
  · rw [decideFrame, if_neg gated] at decided
    cases decided
    rfl

/-- A pass of the loop counts its frame once. -/
theorem zmqProxyLossy_counted (version2 : Bool) (g : Globals) (x : WireFrame) :
    (zmqProxyLossy version2 g x).1.counted = g.counted + 1 := by
  rw [zmqProxyLossy]
  split
  · simp only [Globals.counted]
    omega
  · rename_i g' drop decided
    rw [← decideFrame_counted decided]
    cases drop
    all_goals
      simp only [Globals.counted, Bool.false_eq_true, not_false_eq_true, not_true_eq_false,
        if_true, if_false]
      omega

theorem broker_counted (version2 : Bool) (g : Globals) (xs : List WireFrame) :
    (run (zmqProxyLossy version2) g xs).1.counted = g.counted + xs.length := by
  induction xs generalizing g with
  | nil => rfl
  | cons x xs ih =>
    rw [run_cons, ih, zmqProxyLossy_counted, List.length_cons]
    omega

/-- The row the broker writes for an in-scope frame. -/
def proxyRow (g : Globals) (x : WireFrame) : DropRow :=
  let key := proxyFlowIndex g x.packet (frameOf x.packet)
  { tMs := x.tMs, src := x.packet.src, dport := x.packet.dport, cspFlags := x.packet.flags,
    isRdp := (frameOf x.packet).isRdp, index := key.2, epoch := key.1.gEpoch,
    dropped := ciRuleDecide g.gRule key.2 }

/-- The broker after it has logged an in-scope frame. -/
def proxyLogged (g : Globals) (x : WireFrame) : Globals :=
  { (proxyFlowIndex g x.packet (frameOf x.packet)).1 with
    gDropLog := g.gDropLog.map (· ++ [proxyRow g x]) }

theorem zmqProxyLossy_outside (version2 : Bool) {g : Globals} {x : WireFrame}
    (gated : 0 ≤ g.gRule.matchDport) (scope : ciRuleMatch g.gRule (frameOf x.packet) = false) :
    zmqProxyLossy version2 g x = ({ g with gKept := g.gKept + 1 }, [x.packet]) := by
  have hframe : ciFrameFromFields x.packet.dport x.packet.flags x.packet.data =
    frameOf x.packet := rfl
  simp only [zmqProxyLossy, decideFrame, gated, frame_fits, hframe, scope, if_true,
    not_true_eq_false, not_false_eq_true, Bool.false_eq_true, if_false]

theorem zmqProxyLossy_inside (version2 : Bool) {g : Globals} {x : WireFrame}
    (gated : 0 ≤ g.gRule.matchDport) (scope : ciRuleMatch g.gRule (frameOf x.packet) = true) :
    zmqProxyLossy version2 g x =
      if (proxyRow g x).dropped then
        ({ proxyLogged g x with gDrops := (proxyLogged g x).gDrops + 1 }, [])
      else ({ proxyLogged g x with gKept := (proxyLogged g x).gKept + 1 }, [x.packet]) := by
  have hframe : ciFrameFromFields x.packet.dport x.packet.flags x.packet.data =
    frameOf x.packet := rfl
  obtain ⟨hrule, hlog⟩ := proxyFlowIndex_frame g x.packet (frameOf x.packet)
  simp only [zmqProxyLossy, decideFrame, gated, frame_fits, hframe, scope, if_true,
    not_true_eq_false, if_false, hrule, hlog, proxyRow, proxyLogged]
  cases ciRuleDecide g.gRule (proxyFlowIndex g x.packet (frameOf x.packet)).2 <;> rfl

/-- The logs agree up to the clock after one more row. -/
theorem logs_snoc {log log' : Option (List DropRow)} {row row' : DropRow}
    (h : log.map (List.map untimed) = log'.map (List.map untimed))
    (same : untimed row = untimed row') :
    (log.map (· ++ [row])).map (List.map untimed) =
      (log'.map (· ++ [row'])).map (List.map untimed) := by
  cases log with
  | none =>
    cases log' with
    | none => rfl
    | some rows => simp at h
  | some rows =>
    cases log' with
    | none => simp at h
    | some rows' =>
      have heq : rows.map untimed = rows'.map untimed := by simpa using h
      simp [heq, same]

/-- The step lemma: the same packet keeps the oracles in agreement and is forwarded by
both or by neither. -/
theorem agree_step (version2 : Bool) {s : CiDropIface} {g : Globals} (h : Agree s g)
    (gated : 0 ≤ g.gRule.matchDport) (c : NexthopCall) (tMs : UInt32) (randDrop : Bool) :
    Agree (ciDropIfaceNexthop s c).1 (zmqProxyLossy version2 g ⟨c.packet, tMs, randDrop⟩).1 ∧
    (zmqProxyLossy version2 g ⟨c.packet, tMs, randDrop⟩).1.gRule = g.gRule ∧
    received (ciDropIfaceNexthop s c).2 =
      (zmqProxyLossy version2 g ⟨c.packet, tMs, randDrop⟩).2 := by
  obtain ⟨x, hx⟩ : ∃ x : WireFrame, x = ⟨c.packet, tMs, randDrop⟩ := ⟨_, rfl⟩
  have hpacket : x.packet = c.packet := by rw [hx]
  have hkey := ciFlowIndex_trackerOf g c.packet
  obtain ⟨hrule, _⟩ := proxyFlowIndex_frame g c.packet (frameOf c.packet)
  have hverdict : verdict s c = (trackerOf (proxyFlowIndex g c.packet (frameOf c.packet)).1,
      (proxyFlowIndex g c.packet (frameOf c.packet)).2, s.ge,
      ciRuleDecide g.gRule (proxyFlowIndex g c.packet (frameOf c.packet)).2) := by
    simp only [verdict, h.tracker, hkey, h.mode, h.rule, Bool.false_eq_true, if_false]
  have hscope : ciRuleMatch g.gRule (frameOf x.packet) = inScope s.rule c := by
    rw [inScope, h.rule, hpacket]
  have hfate : (proxyRow g x).dropped = (verdict s c).2.2.2 := by
    rw [hverdict, proxyRow, hpacket]
  have hrow : untimed (rowOf s c) = untimed (proxyRow g x) := by
    simp only [untimed, rowOf, proxyRow, hverdict, hpacket, trackerOf]
  have inside : Agree (logged s c) (proxyLogged g x) := by
    refine ⟨?_, h.mode, ?_, logs_snoc h.log hrow⟩
    · rw [proxyLogged, hpacket, hrule]
      exact h.rule
    · rw [proxyLogged, hpacket, logged, hverdict]
      rfl
  have kept : (proxyLogged g x).gRule = g.gRule := by
    rw [proxyLogged, hpacket, hrule]
  rw [← hx]
  rcases nexthop_cases s c with ⟨scope, eq⟩ | ⟨scope, fate, eq⟩ | ⟨scope, fate, eq⟩
  · rw [eq, zmqProxyLossy_outside version2 gated (hscope.trans scope)]
    exact ⟨⟨h.rule, h.mode, h.tracker, h.log⟩, rfl, by rw [hpacket]; rfl⟩
  · rw [eq, zmqProxyLossy_inside version2 gated (hscope.trans scope), if_pos (hfate.trans fate)]
    exact ⟨⟨inside.rule, inside.mode, inside.tracker, inside.log⟩, kept, rfl⟩
  · have drop : ¬ (proxyRow g x).dropped = true := by
      rw [hfate, fate]
      exact Bool.false_ne_true
    rw [eq, zmqProxyLossy_inside version2 gated (hscope.trans scope), if_neg drop]
    exact ⟨⟨inside.rule, inside.mode, inside.tracker, inside.log⟩, kept, by rw [hpacket]; rfl⟩

/-- A packet met by the shim and by the broker, each with its own clock and its own
surroundings. -/
structure Meeting where
  call : NexthopCall
  proxyMs : UInt32
  randDrop : Bool
  deriving DecidableEq

def Meeting.frame (m : Meeting) : WireFrame := ⟨m.call.packet, m.proxyMs, m.randDrop⟩

/-- The broker and the shim in identity mode are interchangeable: the same rows and the
same packets, whatever the stream. -/
theorem proxy_agrees_with_shim (version2 : Bool) (seed : UInt64) (matchDport : Int)
    (matchRdpSyn : Bool) (lossProb : ℚ) (mtu overhead : UInt16) (gated : 0 ≤ matchDport)
    (ms : List Meeting) :
    let rule := proxyRule seed matchDport matchRdpSyn lossProb
    let shimRun := run ciDropIfaceNexthop (shim rule mtu overhead true .identity)
      (ms.map Meeting.call)
    let proxyRun := run (zmqProxyLossy version2) (proxyStart rule mtu overhead)
      (ms.map Meeting.frame)
    (∃ rows rows', shimRun.1.dropLog = some rows ∧ proxyRun.1.gDropLog = some rows' ∧
      rows.map untimed = rows'.map untimed) ∧
    shimRun.2.map received = proxyRun.2 := by
  intro rule shimRun proxyRun
  have lockstep := run_lockstep (fun s (m : Meeting) => ciDropIfaceNexthop s m.call)
    (fun g (m : Meeting) => zmqProxyLossy version2 g m.frame)
    (fun s g => Agree s g ∧ 0 ≤ g.gRule.matchDport) (fun r sent => received r = sent)
    (by
      rintro s g m ⟨agree, hport⟩
      obtain ⟨next, same, forwarded⟩ :=
        agree_step version2 agree hport m.call m.proxyMs m.randDrop
      exact ⟨⟨next, by rw [Meeting.frame, same]; exact hport⟩, forwarded⟩)
    (s := shim rule mtu overhead true .identity) (t := proxyStart rule mtu overhead)
    ⟨⟨rfl, rfl, rfl, rfl⟩, gated⟩ ms
  simp only [← run_map] at lockstep
  constructor
  · obtain ⟨hrule, start⟩ := shim_start rule mtu overhead true .identity
    obtain ⟨_, rows, partition⟩ := partition_run rule true _ hrule start (ms.map Meeting.call)
    have hrows : shimRun.1.dropLog = some rows := partition.log
    have same : shimRun.1.dropLog.map (List.map untimed) =
        proxyRun.1.gDropLog.map (List.map untimed) := lockstep.1.1.log
    rw [hrows] at same
    obtain ⟨rows', hrows', hsame⟩ := Option.map_eq_some_iff.mp same.symm
    exact ⟨rows, rows', hrows, hrows', hsame.symm⟩
  · have outputs := lockstep.2
    rw [← List.forall₂_eq_eq_eq, List.forall₂_map_left_iff]
    exact outputs

/-- An RDP frame of port 13 and one too short to hold the trailer. -/
def sampleMeetings : List Meeting :=
  [⟨⟨⟨10, 20, 13, 0x02, [0x04, 0xFF, 0xFF, 0, 0], by simp [cspBufferSize]⟩, 20, 1, 7, 0⟩, 9, false⟩,
    ⟨⟨⟨10, 20, 13, 0x03, [0x04, 0], by simp [cspBufferSize]⟩, 20, 1, 8, -1⟩, 9, true⟩]

theorem proxy_agrees_with_shim_sample :
    (run ciDropIfaceNexthop (shim (proxyRule 1 13 false (1 / 2)) 200 4 true .identity)
        (sampleMeetings.map Meeting.call)).2.map received =
      (run (zmqProxyLossy true) (proxyStart (proxyRule 1 13 false (1 / 2)) 200 4)
        (sampleMeetings.map Meeting.frame)).2 :=
  (proxy_agrees_with_shim true 1 13 false (1 / 2) 200 4 (by decide) sampleMeetings).2

end CspLinksim.Proxy
