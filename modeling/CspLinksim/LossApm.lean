import CspLinksim.DropIface

/-!
# The `csp_loss` module (`csp_loss_apm.c`)

`start` puts `loss_nexthop` in front of the function it finds at the interface, and
`stop` takes it away again. A command is one step. `transmit` is a transmission that
nothing interrupts, not even while it is held for its airtime.
-/

namespace CspLinksim.LossApm

open Packet Rule Ge DropIface

def ciDtpOverheadSatdeploy : UInt16 := 8

/-- The functions a nexthop pointer can hold; the driver's was there first. -/
inductive Nexthop where
  | driver
  | lossNexthop
  | otherNexthop
  deriving DecidableEq

/-- The file-scope variables of the module. Its 64-bit counters are natural numbers, which
stay below the number of steps (`counters_le`); `active` is `loss_iface != NULL`. -/
structure Loss where
  active : Bool
  lossRealNexthop : Option Nexthop
  lossRule : CiDropRule
  lossProb : ℚ
  lossMatchDport : Int
  lossBurst : ℚ
  lossGe : CiGeState
  lossMtu : UInt16
  lossOverhead : UInt16
  lossSent : Nat
  lossDropped : Nat
  lossLog : Option (List DropRow)
  lossLastSeq : UInt16
  lossHaveLastSeq : Bool
  lossEpoch : UInt32
  deriving DecidableEq

/-- The interface, the module, and the pointer the other module saved while it is hooked. -/
structure World where
  nexthop : Option Nexthop
  drop : UInt32
  loss : Loss
  otherHooked : Bool
  otherSaved : Option Nexthop
  deriving DecidableEq

/-- The interface as its driver left it. -/
def World.start : World where
  nexthop := some .driver
  drop := 0
  loss :=
    { active := false
      lossRealNexthop := none
      lossRule :=
        { seed := 0, matchDport := 0, matchRdpSyn := false, dropProbability := 0,
          replayVector := none }
      lossProb := 0
      lossMatchDport := -1
      lossBurst := 0
      lossGe := { seed := 0, step := 0, tG2b := 0, tB2g := 0, bad := false }
      lossMtu := 1024
      lossOverhead := ciDtpOverheadSatdeploy
      lossSent := 0
      lossDropped := 0
      lossLog := none
      lossLastSeq := 0
      lossHaveLastSeq := false
      lossEpoch := 0 }
  otherHooked := false
  otherSaved := none

def lossFlowIndex (l : Loss) (packet : CspPacket) (f : CiFrame) : Loss × UInt64 :=
  if f.isRdp then
    match ciRdpParseTrailer packet.data packet.flags with
    | some h =>
      let l :=
        if l.lossHaveLastSeq ∧ ciRdpSeqIsWrap l.lossLastSeq h.seq then
          { l with lossEpoch := l.lossEpoch + 1 }
        else l
      let l := { l with lossLastSeq := h.seq, lossHaveLastSeq := true }
      (l, ciFlowIndexRdp l.lossEpoch h.seq)
    | none => (l, 0)
  else
    match ciDtpParseOffset packet.data with
    | some off =>
      match ciDtpFragmentIndexOvh off l.lossMtu l.lossOverhead with
      | some frag => (l, frag.toUInt64)
      | none => (l, 0)
    | none => (l, 0)

/-- A packet handed to the interface. `rand` is what `rand()` divided by `RAND_MAX` gives
each time the shim asks for it. -/
structure Transmission where
  via : UInt16
  packet : CspPacket
  fromMe : Int
  nowMs : UInt32
  rand : Nat → ℚ

/-- The decision at the head of `loss_nexthop`. -/
def lossDecide (l : Loss) (tx : Transmission) (pass : Nat) : Loss × Bool :=
  if 0 < l.lossProb then
    if 0 < l.lossBurst then
      let (ge, drop) := ciGeStateStep l.lossGe
      ({ l with lossGe := ge }, drop)
    else if 0 ≤ l.lossMatchDport then
      let f := frameOf tx.packet
      if ciRuleMatch l.lossRule f then
        let (l, idx) := lossFlowIndex l tx.packet f
        let drop := ciRuleDecide l.lossRule idx
        let row : DropRow :=
          { tMs := tx.nowMs, src := tx.packet.src, dport := tx.packet.dport,
            cspFlags := tx.packet.flags, isRdp := f.isRdp, index := idx, epoch := l.lossEpoch,
            dropped := drop }
        ({ l with lossLog := l.lossLog.map (· ++ [row]) }, drop)
      else (l, false)
    else (l, tx.rand pass < l.lossProb)
  else (l, false)

/-- How a transmission ends. -/
inductive Outcome where
  | disposed (d : Disposal)
  | nullCall
  deriving DecidableEq

/-- The call of a nexthop pointer, `none` if it makes more than `n` calls in turn. `pass`
counts the passes through the shim. -/
def callNexthop (tx : Transmission) : Nat → Nat → World → Option Nexthop →
    Option (World × Outcome)
  | _, _, w, none => some (w, .nullCall)
  | 0, _, _, some _ => none
  | _ + 1, _, w, some .driver => some (w, .disposed (.targetNexthop tx.via tx.packet tx.fromMe))
  | n + 1, pass, w, some .otherNexthop => callNexthop tx n pass w w.otherSaved
  | n + 1, pass, w, some .lossNexthop =>
    let (l, drop) := lossDecide w.loss tx pass
    let l := { l with lossSent := l.lossSent + 1 }
    if drop then
      some ({ w with loss := { l with lossDropped := l.lossDropped + 1 }, drop := w.drop + 1 },
        .disposed (.bufferFree tx.packet))
    else callNexthop tx n (pass + 1) { w with loss := l } l.lossRealNexthop

/-- A transmission; three calls reach the end of every chain without a cycle. -/
def transmit (w : World) (tx : Transmission) : Option (World × Outcome) :=
  callNexthop tx 3 0 w w.nexthop

/-- What `csp_loss start` is called with: its options, whether the interface is found, and
whether an output file is asked for and opens. -/
structure StartArgs where
  parses : Bool
  prob : ℚ
  burst : ℚ
  dport : Int
  seed : Int
  mtu : UInt32
  overhead : UInt32
  found : Bool
  logOpens : Option Bool
  nowMs : UInt32
  deriving DecidableEq

/-- `csp_loss start` with its defaults. -/
def defaultArgs : StartArgs where
  parses := true
  prob := 1 / 10
  burst := 0
  dport := -1
  seed := 0
  mtu := 1024
  overhead := 8
  found := true
  logOpens := none
  nowMs := 0

/-- Why `start` fails. -/
inductive Refusal where
  | usage
  | alreadyActive
  | lossOutOfRange
  | dportInvalid
  | overheadInvalid
  | burstWithMatch
  | burstNegative
  | noInterface
  | noNexthop
  | logNotOpened
  deriving DecidableEq

/-- The checks of `start`, in the order of the source. -/
def startRefused (w : World) (args : StartArgs) : Option Refusal :=
  if ¬ args.parses then some .usage
  else if w.loss.active then some .alreadyActive
  else if args.prob < 0 ∨ 1 < args.prob then some .lossOutOfRange
  else if args.dport < -1 ∨ 63 < args.dport then some .dportInvalid
  else if 0 ≤ args.dport ∧ (args.overhead < UInt32.ofNat ciDtpOffsetSize ∨
      args.mtu ≤ args.overhead) then some .overheadInvalid
  else if 0 < args.burst ∧ 0 ≤ args.dport then some .burstWithMatch
  else if args.burst < 0 then some .burstNegative
  else if ¬ args.found then some .noInterface
  else if w.nexthop = none then some .noNexthop
  else if args.logOpens = some false then some .logNotOpened
  else none

/-- A failed `fopen` leaves `NULL` in `loss_log`. -/
def cspLossStart (fl : ℚ → ℚ) (w : World) (args : StartArgs) : World × Option Refusal :=
  match startRefused w args with
  | some .logNotOpened => ({ w with loss := { w.loss with lossLog := none } }, some .logNotOpened)
  | some r => (w, some r)
  | none =>
    let seed := if args.seed ≠ 0 then UInt64.ofInt args.seed else args.nowMs.toUInt64
    let ge :=
      if 0 < args.burst then
        let (pG2b, pB2g) := ciGeParams fl args.prob args.burst
        ciGeStateInit seed pG2b pB2g
      else w.loss.lossGe
    ({ w with
        nexthop := some .lossNexthop
        loss :=
          { active := true
            lossRealNexthop := w.nexthop
            lossRule :=
              { seed := UInt64.ofInt args.seed
                matchDport := args.dport
                matchRdpSyn := false
                dropProbability := args.prob
                replayVector := none }
            lossProb := args.prob
            lossMatchDport := args.dport
            lossBurst := args.burst
            lossGe := ge
            lossMtu := args.mtu.toUInt16
            lossOverhead := args.overhead.toUInt16
            lossSent := 0
            lossDropped := 0
            lossLog := if args.logOpens = some true then some [] else w.loss.lossLog
            lossLastSeq := w.loss.lossLastSeq
            lossHaveLastSeq := false
            lossEpoch := 0 } }, none)

def cspLossStop (w : World) : World :=
  if ¬ w.loss.active then w
  else
    let nexthop :=
      if w.nexthop ≠ some .lossNexthop then w.nexthop else w.loss.lossRealNexthop
    { w with
      nexthop
      loss :=
        { w.loss with
          active := false
          lossRealNexthop := none
          lossProb := 0
          lossLog := none } }

/-- What a transmission leaves as it is. -/
structure SameHooks (w w' : World) : Prop where
  nexthop : w'.nexthop = w.nexthop
  otherHooked : w'.otherHooked = w.otherHooked
  otherSaved : w'.otherSaved = w.otherSaved
  active : w'.loss.active = w.loss.active
  real : w'.loss.lossRealNexthop = w.loss.lossRealNexthop
  prob : w'.loss.lossProb = w.loss.lossProb
  log : w.loss.lossLog = none → w'.loss.lossLog = none

theorem lossFlowIndex_frame (l : Loss) (packet : CspPacket) (f : CiFrame) :
    ∃ lastSeq have' epoch, (lossFlowIndex l packet f).1 =
      { l with lossLastSeq := lastSeq, lossHaveLastSeq := have', lossEpoch := epoch } := by
  rw [lossFlowIndex]
  split
  · split
    · split
      · exact ⟨_, _, _, rfl⟩
      · exact ⟨_, _, _, rfl⟩
    · exact ⟨_, _, _, rfl⟩
  · split
    · split
      · exact ⟨_, _, _, rfl⟩
      · exact ⟨_, _, _, rfl⟩
    · exact ⟨_, _, _, rfl⟩

/-- The decision moves the channel and the flow, and may write a row. -/
theorem lossDecide_frame (l : Loss) (tx : Transmission) (pass : Nat) :
    ∃ ge log lastSeq have' epoch, (l.lossLog = none → log = none) ∧
      (lossDecide l tx pass).1 = { l with
        lossGe := ge
        lossLog := log
        lossLastSeq := lastSeq
        lossHaveLastSeq := have'
        lossEpoch := epoch } := by
  by_cases lossy : 0 < l.lossProb
  · by_cases bursty : 0 < l.lossBurst
    · simp only [lossDecide, if_pos lossy, if_pos bursty]
      exact ⟨_, _, _, _, _, id, rfl⟩
    · by_cases keyed : 0 ≤ l.lossMatchDport
      · by_cases scope : ciRuleMatch l.lossRule (frameOf tx.packet) = true
        · obtain ⟨lastSeq, have', epoch, hidx⟩ :=
            lossFlowIndex_frame l tx.packet (frameOf tx.packet)
          simp only [lossDecide, if_pos lossy, if_neg bursty, if_pos keyed, if_pos scope, hidx]
          refine ⟨_, _, _, _, _, ?_, rfl⟩
          intro none
          rw [none, Option.map_none]
        · simp only [lossDecide, if_pos lossy, if_neg bursty, if_pos keyed, if_neg scope]
          exact ⟨_, _, _, _, _, id, rfl⟩
      · simp only [lossDecide, if_pos lossy, if_neg bursty, if_neg keyed]
        exact ⟨_, _, _, _, _, id, rfl⟩
  · simp only [lossDecide, if_neg lossy]
    exact ⟨_, _, _, _, _, id, rfl⟩

/-- The decision leaves the pointers and the loss rate alone. -/
theorem lossDecide_same (w : World) (tx : Transmission) (pass : Nat) :
    SameHooks w { w with loss := (lossDecide w.loss tx pass).1 } := by
  obtain ⟨_, _, _, _, _, silent, eq⟩ := lossDecide_frame w.loss tx pass
  rw [eq]
  exact ⟨rfl, rfl, rfl, rfl, rfl, rfl, silent⟩

theorem lossDecide_counters (l : Loss) (tx : Transmission) (pass : Nat) :
    (lossDecide l tx pass).1.lossSent = l.lossSent ∧
    (lossDecide l tx pass).1.lossDropped = l.lossDropped := by
  obtain ⟨_, _, _, _, _, _, eq⟩ := lossDecide_frame l tx pass
  rw [eq]
  exact ⟨rfl, rfl⟩

theorem callNexthop_loss (tx : Transmission) (n pass : Nat) (w : World) :
    callNexthop tx (n + 1) pass w (some .lossNexthop) =
      if (lossDecide w.loss tx pass).2 then
        some ({ w with
          loss := { (lossDecide w.loss tx pass).1 with
            lossSent := (lossDecide w.loss tx pass).1.lossSent + 1
            lossDropped := (lossDecide w.loss tx pass).1.lossDropped + 1 }
          drop := w.drop + 1 }, .disposed (.bufferFree tx.packet))
      else callNexthop tx n (pass + 1) { w with loss := { (lossDecide w.loss tx pass).1 with
          lossSent := (lossDecide w.loss tx pass).1.lossSent + 1 } }
        (lossDecide w.loss tx pass).1.lossRealNexthop :=
  rfl

end CspLinksim.LossApm
