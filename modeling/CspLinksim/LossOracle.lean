import CspLinksim.LossApm
import CspLinksim.Proxy

/-!
# The replayable mode of `csp_loss` and the shim

`csp_loss start -M` keeps a flow key of its own and asks the same rule. The results follow
one stream through `loss_nexthop` and through the shim in identity mode, and compare the
logs, the fate of each packet and the counters.
-/

namespace CspLinksim.LossApm

open Runs Packet Rule Ge DropIface ShimRuns Proxy

/-- A pass through `loss_nexthop`; the call of `loss_real_nexthop` is its outcome. -/
def lossNexthop (l : Loss) (tx : Transmission) : Loss × Disposal :=
  let (l, drop) := lossDecide l tx 0
  let l := { l with lossSent := l.lossSent + 1 }
  if drop then ({ l with lossDropped := l.lossDropped + 1 }, .bufferFree tx.packet)
  else (l, .targetNexthop tx.via tx.packet tx.fromMe)

/-- The pass is the one a chain of nexthops makes. -/
theorem callNexthop_pass (tx : Transmission) (n : Nat) (w : World) :
    callNexthop tx (n + 1) 0 w (some .lossNexthop) =
      match lossNexthop w.loss tx with
      | (l, .bufferFree p) =>
        some ({ w with loss := l, drop := w.drop + 1 }, .disposed (.bufferFree p))
      | (l, .targetNexthop _ _ _) => callNexthop tx n 1 { w with loss := l } l.lossRealNexthop := by
  rw [callNexthop_loss]
  cases hdrop : (lossDecide w.loss tx 0).2 <;> simp [lossNexthop, hdrop]

/-- The rule that `start` assembles. -/
def replayRule (args : StartArgs) : CiDropRule where
  seed := UInt64.ofInt args.seed
  matchDport := args.dport
  matchRdpSyn := false
  dropProbability := args.prob
  replayVector := none

/-- One packet before both injectors, each with its own clock. -/
structure Crossing where
  call : NexthopCall
  lossMs : UInt32
  rand : Nat → ℚ

def Crossing.tx (m : Crossing) : Transmission :=
  ⟨m.call.via, m.call.packet, m.call.fromMe, m.lossMs, m.rand⟩

/-- A tracker and the globals of the module stand at the same place in the flow; the last
number counts once there is one. -/
structure SameFlow (t : CiFlowTracker) (l : Loss) : Prop where
  haveLast : t.haveLastSeq = l.lossHaveLastSeq
  last : t.haveLastSeq = true → t.lastSeq = l.lossLastSeq
  epoch : t.epoch = l.lossEpoch
  mtu : t.dtpMtu = l.lossMtu
  overhead : t.dtpOverhead = l.lossOverhead

theorem sameFlow_index {t : CiFlowTracker} {l : Loss} (h : SameFlow t l) (p : CspPacket) :
    (ciFlowIndex t (frameOf p) p.data).2 = (lossFlowIndex l p (frameOf p)).2 ∧
    SameFlow (ciFlowIndex t (frameOf p) p.data).1 (lossFlowIndex l p (frameOf p)).1 := by
  have hflags : (frameOf p).cspFlags = p.flags := rfl
  simp only [ciFlowIndex, lossFlowIndex, hflags]
  by_cases rdp : (frameOf p).isRdp = true
  · simp only [rdp, if_true]
    cases ciRdpParseTrailer p.data p.flags with
    | none => exact ⟨rfl, h⟩
    | some hd =>
      have same : (t.haveLastSeq = true ∧ ciRdpSeqIsWrap t.lastSeq hd.seq = true) ↔
          (l.lossHaveLastSeq = true ∧ ciRdpSeqIsWrap l.lossLastSeq hd.seq = true) := by
        constructor
        · rintro ⟨have', wraps⟩
          exact ⟨h.haveLast ▸ have', h.last have' ▸ wraps⟩
        · rintro ⟨have', wraps⟩
          have have'' := h.haveLast.trans have'
          exact ⟨have'', (h.last have'').symm ▸ wraps⟩
      by_cases wraps : l.lossHaveLastSeq = true ∧ ciRdpSeqIsWrap l.lossLastSeq hd.seq = true
      · simp only [if_pos wraps, if_pos (same.mpr wraps), h.epoch]
        exact ⟨True.intro, rfl, fun _ => rfl, rfl, h.mtu, h.overhead⟩
      · simp only [if_neg wraps, if_neg (mt same.mp wraps), h.epoch]
        exact ⟨True.intro, rfl, fun _ => rfl, rfl, h.mtu, h.overhead⟩
  · simp only [rdp, Bool.false_eq_true, if_false, h.mtu, h.overhead]
    cases ciDtpParseOffset p.data with
    | none => exact ⟨rfl, h⟩
    | some off =>
      simp only
      cases ciDtpFragmentIndexOvh off l.lossMtu l.lossOverhead with
      | none => exact ⟨rfl, h⟩
      | some frag => exact ⟨rfl, h⟩

/-- The module is set up to replay this rule. -/
structure Replays (rule : CiDropRule) (l : Loss) : Prop where
  armed : l.lossRule = rule
  prob : l.lossProb = rule.dropProbability
  steady : ¬ 0 < l.lossBurst
  port : l.lossMatchDport = rule.matchDport
  keyed : 0 ≤ rule.matchDport
  drawn : rule.replayVector = none

def lossRow (l : Loss) (tx : Transmission) : DropRow :=
  let key := lossFlowIndex l tx.packet (frameOf tx.packet)
  { tMs := tx.nowMs, src := tx.packet.src, dport := tx.packet.dport,
    cspFlags := tx.packet.flags, isRdp := (frameOf tx.packet).isRdp, index := key.2,
    epoch := key.1.lossEpoch, dropped := ciRuleDecide l.lossRule key.2 }

/-- The module after it has logged an in-scope packet. -/
def lossLogged (l : Loss) (tx : Transmission) : Loss :=
  { (lossFlowIndex l tx.packet (frameOf tx.packet)).1 with
    lossSent := l.lossSent + 1
    lossLog := l.lossLog.map (· ++ [lossRow l tx]) }

section
variable {rule : CiDropRule} {l : Loss} (h : Replays rule l) (tx : Transmission)
include h

/-- At a rate of zero the rule is not asked. -/
theorem lossNexthop_silent (silent : ¬ 0 < rule.dropProbability) :
    lossNexthop l tx = ({ l with lossSent := l.lossSent + 1 },
      .targetNexthop tx.via tx.packet tx.fromMe) := by
  rw [← h.prob] at silent
  simp only [lossNexthop, lossDecide, if_neg silent, Bool.false_eq_true, if_false]

theorem lossNexthop_outside (scope : ciRuleMatch rule (frameOf tx.packet) = false) :
    lossNexthop l tx = ({ l with lossSent := l.lossSent + 1 },
      .targetNexthop tx.via tx.packet tx.fromMe) := by
  have keyed : 0 ≤ l.lossMatchDport := h.port.symm ▸ h.keyed
  by_cases lossy : 0 < l.lossProb
  · simp only [lossNexthop, lossDecide, if_pos lossy, if_neg h.steady, if_pos keyed, h.armed, scope,
      Bool.false_eq_true, if_false]
  · exact lossNexthop_silent h tx (h.prob ▸ lossy)

theorem lossNexthop_inside (lossy : 0 < rule.dropProbability)
    (scope : ciRuleMatch rule (frameOf tx.packet) = true) :
    lossNexthop l tx = if (lossRow l tx).dropped
      then ({ lossLogged l tx with lossDropped := l.lossDropped + 1 }, .bufferFree tx.packet)
      else (lossLogged l tx, .targetNexthop tx.via tx.packet tx.fromMe) := by
  have keyed : 0 ≤ l.lossMatchDport := h.port.symm ▸ h.keyed
  have hscope : ciRuleMatch l.lossRule (frameOf tx.packet) = true := h.armed.symm ▸ scope
  obtain ⟨lastSeq, have', epoch, hidx⟩ := lossFlowIndex_frame l tx.packet (frameOf tx.packet)
  rw [← h.prob] at lossy
  simp only [lossNexthop, lossDecide, if_pos lossy, if_neg h.steady, if_pos keyed, if_pos hscope,
    hidx, lossRow, lossLogged]

end

/-- The two injectors have met the same stream. -/
structure Aligned (rule : CiDropRule) (l : Loss) (s : CiDropIface) : Prop where
  replays : Replays rule l
  armed : s.rule = rule
  mode : s.perAttempt = false
  flow : 0 < rule.dropProbability → SameFlow s.tracker l
  log : 0 < rule.dropProbability →
    s.dropLog.map (List.map untimed) = l.lossLog.map (List.map untimed)
  silent : ¬ 0 < rule.dropProbability → l.lossLog = some []
  dropped : l.lossDropped = s.injectedDrops
  sent : l.lossSent = s.injectedDrops + s.forwarded + s.passthrough
  tally : ∃ rows, s.dropLog = some rows ∧ rows.countP (·.dropped) = s.injectedDrops

/-- A rule with no loss drops nothing. -/
theorem decide_silent {rule : CiDropRule} (drawn : rule.replayVector = none)
    (silent : ¬ 0 < rule.dropProbability) (index : UInt64) : ciRuleDecide rule index = false := by
  simp only [ciRuleDecide, drawn, if_pos (not_lt.mp silent)]

theorem tally_logged {s : CiDropIface} {rows : List DropRow} (held : s.dropLog = some rows)
    (counted : rows.countP (·.dropped) = s.injectedDrops) (c : NexthopCall) :
    ∃ rows', (logged s c).dropLog = some rows' ∧ rows'.countP (·.dropped) =
      s.injectedDrops + if (verdict s c).2.2.2 then 1 else 0 := by
  refine ⟨rows ++ [rowOf s c], ?_, ?_⟩
  · simp [logged, held]
  · simp [List.countP_append, counted, rowOf, List.countP_cons]

/-- A row on both sides. -/
theorem aligned_logged {rule : CiDropRule} {l : Loss} {s : CiDropIface} (h : Aligned rule l s)
    (lossy : 0 < rule.dropProbability) (m : Crossing) :
    Replays rule (lossLogged l m.tx) ∧
    SameFlow (logged s m.call).tracker (lossLogged l m.tx) ∧
    (logged s m.call).dropLog.map (List.map untimed) =
      (lossLogged l m.tx).lossLog.map (List.map untimed) ∧
    (lossRow l m.tx).dropped = (verdict s m.call).2.2.2 ∧
    (lossLogged l m.tx).lossDropped = l.lossDropped := by
  have hrep := h.replays
  obtain ⟨lastSeq, have', epoch, hidx⟩ :=
    lossFlowIndex_frame l m.tx.packet (frameOf m.tx.packet)
  obtain ⟨hkey, hflow⟩ := sameFlow_index (h.flow lossy) m.call.packet
  have hfate : (lossRow l m.tx).dropped = (verdict s m.call).2.2.2 := by
    simp only [lossRow, verdict, h.mode, h.armed, hrep.armed, hkey, Crossing.tx,
      Bool.false_eq_true, if_false]
  have hrow : untimed (rowOf s m.call) = untimed (lossRow l m.tx) := by
    have epochs := hflow.epoch
    rw [rowOf, ← hfate]
    simp only [untimed, lossRow, verdict, hkey, epochs, Crossing.tx]
  refine ⟨?_, ?_, logs_snoc (h.log lossy) hrow, hfate, ?_⟩
  · simp only [lossLogged, hidx]
    exact ⟨hrep.armed, hrep.prob, hrep.steady, hrep.port, hrep.keyed, hrep.drawn⟩
  · exact ⟨hflow.haveLast, hflow.last, hflow.epoch, hflow.mtu, hflow.overhead⟩
  · simp only [lossLogged, hidx]

/-- The step lemma: the same packet keeps the injectors aligned and has one fate. -/
theorem aligned_step {rule : CiDropRule} {l : Loss} {s : CiDropIface} (h : Aligned rule l s)
    (m : Crossing) :
    Aligned rule (lossNexthop l m.tx).1 (ciDropIfaceNexthop s m.call).1 ∧
    (ciDropIfaceNexthop s m.call).2.disposals = [(lossNexthop l m.tx).2] := by
  have hrep := h.replays
  obtain ⟨rows, held, counted⟩ := h.tally
  have hscope : ciRuleMatch rule (frameOf m.tx.packet) = inScope s.rule m.call := by
    rw [h.armed]
    rfl
  have hkey : ¬ 0 < rule.dropProbability → (verdict s m.call).2.2.2 = false := by
    intro silent
    simp only [verdict, h.mode, h.armed, Bool.false_eq_true, if_false]
    exact decide_silent hrep.drawn silent _
  have hgrown := tally_logged held counted m.call
  rcases nexthop_cases s m.call with ⟨scope, eq⟩ | ⟨scope, fate, eq⟩ | ⟨scope, fate, eq⟩
  · rw [eq, lossNexthop_outside hrep m.tx (hscope.trans scope)]
    refine ⟨?_, rfl⟩
    exact ⟨⟨hrep.armed, hrep.prob, hrep.steady, hrep.port, hrep.keyed, hrep.drawn⟩, h.armed,
      h.mode, fun lossy => ⟨(h.flow lossy).haveLast, (h.flow lossy).last, (h.flow lossy).epoch,
        (h.flow lossy).mtu, (h.flow lossy).overhead⟩, h.log, h.silent, h.dropped,
      congrArg (· + 1) h.sent, h.tally⟩
  · by_cases lossy : 0 < rule.dropProbability
    · obtain ⟨hrep', hflow, hlog, hfate, hcount⟩ := aligned_logged h lossy m
      rw [eq, lossNexthop_inside hrep m.tx lossy (hscope.trans scope), hfate, fate, if_pos rfl]
      refine ⟨?_, rfl⟩
      refine ⟨⟨hrep'.armed, hrep'.prob, hrep'.steady, hrep'.port, hrep'.keyed, hrep'.drawn⟩,
        h.armed, h.mode, fun _ => ⟨hflow.haveLast, hflow.last, hflow.epoch, hflow.mtu,
          hflow.overhead⟩, fun _ => hlog, fun silent => absurd lossy silent, ?_, ?_, ?_⟩
      · exact congrArg (· + 1) h.dropped
      · have hsent := h.sent
        simp only [lossLogged, logged]
        omega
      · simpa only [fate, if_true] using hgrown
    · rw [hkey lossy] at fate
      cases fate
  · rw [fate] at hgrown
    have hsent : l.lossSent + 1 = s.injectedDrops + (s.forwarded + 1) + s.passthrough := by
      have := h.sent
      omega
    by_cases lossy : 0 < rule.dropProbability
    · obtain ⟨hrep', hflow, hlog, hfate, hcount⟩ := aligned_logged h lossy m
      rw [eq, lossNexthop_inside hrep m.tx lossy (hscope.trans scope), hfate, fate,
        if_neg Bool.false_ne_true]
      refine ⟨?_, rfl⟩
      exact ⟨hrep', h.armed, h.mode, fun _ => ⟨hflow.haveLast, hflow.last, hflow.epoch, hflow.mtu,
        hflow.overhead⟩, fun _ => hlog, fun silent => absurd lossy silent,
        hcount.trans h.dropped, hsent, hgrown⟩
    · rw [eq, lossNexthop_silent hrep m.tx lossy]
      refine ⟨?_, rfl⟩
      exact ⟨⟨hrep.armed, hrep.prob, hrep.steady, hrep.port, hrep.keyed, hrep.drawn⟩, h.armed,
        h.mode, fun contra => absurd contra lossy, fun contra => absurd contra lossy, h.silent,
        h.dropped, hsent, hgrown⟩

/-- The packet a disposal hands to the function below. -/
def handedOn : Disposal → Option CspPacket
  | .bufferFree _ => none
  | .targetNexthop _ p _ => some p

/-- One oracle: the module wrote the rows of the shim, one for each in-scope packet, gave
each packet the same fate, and counted what it did. -/
structure SameOracle (rule : CiDropRule) (calls : List NexthopCall) (lossRun : Loss × List Disposal)
    (shimRun : CiDropIface × List Reply) : Prop where
  rows : ∃ rows rows', lossRun.1.lossLog = some rows ∧ shimRun.1.dropLog = some rows' ∧
    rows.map untimed = rows'.map untimed ∧ rows.length = (calls.filter (inScope rule)).length ∧
    lossRun.1.lossDropped = rows.countP (·.dropped)
  fates : shimRun.2.map Reply.disposals = lossRun.2.map ([·])
  counted : lossRun.1.lossSent = lossRun.1.lossDropped + (lossRun.2.filterMap handedOn).length

theorem inScopeCalls_length (rule : CiDropRule) {calls : List NexthopCall}
    {replies : List Reply} (h : calls.length = replies.length) :
    (inScopeCalls rule calls replies).length = (calls.filter (inScope rule)).length := by
  have hfst : (calls.zip replies).map Prod.fst = calls := List.map_fst_zip (le_of_eq h)
  conv_rhs => rw [← hfst, List.filter_map, List.length_map]
  rfl

theorem countP_untimed (rows : List DropRow) :
    (rows.map untimed).countP (·.dropped) = rows.countP (·.dropped) := by
  rw [List.countP_map]
  rfl

/-- With the same fates, what was handed on and what was dropped add up. -/
theorem handedOn_count {replies : List Reply} {ds : List Disposal}
    (fates : replies.map Reply.disposals = ds.map ([·])) :
    replies.countP drops + (ds.filterMap handedOn).length = replies.length := by
  induction replies generalizing ds with
  | nil =>
    cases ds with
    | nil => rfl
    | cons d ds => cases fates
  | cons r replies ih =>
    cases ds with
    | nil => cases fates
    | cons d ds =>
      obtain ⟨hd, tail⟩ := List.cons.inj fates
      have rest := ih tail
      cases d with
      | bufferFree p =>
        have hdrop : drops r = true := by
          rw [drops, hd]
          rfl
        rw [List.countP_cons_of_pos hdrop]
        simp only [List.filterMap_cons, handedOn, List.length_cons]
        omega
      | targetNexthop via p fromMe =>
        have hkeep : ¬ drops r = true := by
          rw [drops, hd]
          exact Bool.false_ne_true
        rw [List.countP_cons_of_neg hkeep]
        simp only [List.filterMap_cons, handedOn, List.length_cons]
        omega

/-- A check that does not refuse. -/
theorem check_passed {c : Prop} [Decidable c] {r : Refusal} {rest : Option Refusal}
    (h : (if c then some r else rest) = none) : ¬ c ∧ rest = none := by
  split at h
  · cases h
  · rename_i passed
    exact ⟨passed, h⟩

theorem aligned_start {fl : ℚ → ℚ} {w : World} {args : StartArgs}
    (started : (cspLossStart fl w args).2 = none) (keyed : 0 ≤ args.dport)
    (opened : args.logOpens = some true) :
    Aligned (replayRule args) (cspLossStart fl w args).1.loss
      (shim (replayRule args) args.mtu.toUInt16 args.overhead.toUInt16 true .identity) := by
  cases hr : startRefused w args with
  | some r =>
    rw [cspLossStart, hr] at started
    cases r <;> cases started
  | none =>
    have steady : ¬ 0 < args.burst := by
      intro bursty
      obtain ⟨-, rest⟩ := check_passed hr
      obtain ⟨-, rest⟩ := check_passed rest
      obtain ⟨-, rest⟩ := check_passed rest
      obtain ⟨-, rest⟩ := check_passed rest
      obtain ⟨-, rest⟩ := check_passed rest
      obtain ⟨exclusive, -⟩ := check_passed rest
      exact exclusive ⟨bursty, keyed⟩
    simp only [cspLossStart, hr, opened, if_true]
    exact ⟨⟨rfl, rfl, steady, rfl, keyed, rfl⟩, rfl, rfl,
      fun _ => ⟨rfl, fun contra => absurd contra Bool.false_ne_true, rfl, rfl, rfl⟩,
      fun _ => rfl, fun _ => rfl, rfl, rfl, [], rfl, rfl⟩

/-- Aligned injectors that meet the same stream stay aligned, packet by packet. -/
theorem aligned_run {rule : CiDropRule} {l : Loss} {s : CiDropIface} (h : Aligned rule l s)
    (ms : List Crossing) :
    Aligned rule (run lossNexthop l (ms.map Crossing.tx)).1
      (run ciDropIfaceNexthop s (ms.map Crossing.call)).1 ∧
    (run ciDropIfaceNexthop s (ms.map Crossing.call)).2.map Reply.disposals =
      (run lossNexthop l (ms.map Crossing.tx)).2.map ([·]) := by
  have lockstep := run_lockstep (fun l (m : Crossing) => lossNexthop l m.tx)
    (fun s (m : Crossing) => ciDropIfaceNexthop s m.call) (Aligned rule)
    (fun d r => r.disposals = [d]) (fun l s m h => aligned_step h m) h ms
  simp only [← run_map] at lockstep
  refine ⟨lockstep.1, ?_⟩
  rw [← List.forall₂_eq_eq_eq, List.forall₂_map_left_iff, List.forall₂_map_right_iff]
  exact lockstep.2.flip

/-- What the final states say about the logs. -/
theorem sameOracle_iff {rule : CiDropRule} {calls : List NexthopCall}
    {lossRun : Loss × List Disposal} {shimRun : CiDropIface × List Reply} {rows : List DropRow}
    {first : CiFlowTracker} (aligned : Aligned rule lossRun.1 shimRun.1)
    (fates : shimRun.2.map Reply.disposals = lossRun.2.map ([·]))
    (partition : Partition rule first true shimRun.1 calls shimRun.2 rows) :
    SameOracle rule calls lossRun shimRun ↔
      0 < rule.dropProbability ∨ ∀ c ∈ calls, inScope rule c = false := by
  have hlog : shimRun.1.dropLog = some rows := partition.log
  have hlen : rows.length = (calls.filter (inScope rule)).length := by
    rw [← inScopeCalls_length rule partition.owned.length_eq]
    exact partition.logs.length_eq.symm
  have htally : rows.countP (·.dropped) = lossRun.1.lossDropped := by
    obtain ⟨rows', held, counted⟩ := aligned.tally
    rw [aligned.dropped, ← counted, Option.some.inj (hlog.symm.trans held)]
  have hcounted : lossRun.1.lossSent =
      lossRun.1.lossDropped + (lossRun.2.filterMap handedOn).length := by
    have sum := handedOn_count fates
    have total := partition.counted
    have calls_eq := partition.owned.length_eq
    rw [aligned.sent, aligned.dropped, partition.injected]
    rw [partition.injected] at total
    omega
  constructor
  · rintro ⟨⟨own, rows', held, held', same, length, -⟩, -, -⟩
    by_cases lossy : 0 < rule.dropProbability
    · exact Or.inl lossy
    · have none : own = [] := Option.some.inj (held.symm.trans (aligned.silent lossy))
      rw [none, List.length_nil] at length
      have empty := List.filter_eq_nil_iff.mp (List.length_eq_zero_iff.mp length.symm)
      exact Or.inr fun c hc => Bool.eq_false_iff.mpr (empty c hc)
  · intro fits
    have hrows : ∃ own, lossRun.1.lossLog = some own ∧ own.map untimed = rows.map untimed := by
      by_cases lossy : 0 < rule.dropProbability
      · have same := aligned.log lossy
        rw [hlog] at same
        exact Option.map_eq_some_iff.mp same.symm
      · have none : rows = [] := by
          apply List.length_eq_zero_iff.mp
          rw [hlen, List.length_eq_zero_iff, List.filter_eq_nil_iff]
          intro c hc
          rw [fits.resolve_left lossy c hc]
          exact Bool.false_ne_true
        exact ⟨[], aligned.silent lossy, by rw [none]⟩
    obtain ⟨own, held, same⟩ := hrows
    have hown : own.length = rows.length := by
      simpa only [List.length_map] using congrArg List.length same
    refine ⟨⟨own, rows, held, hlog, same, hown.trans hlen, ?_⟩, fates, hcounted⟩
    rw [← htally, ← countP_untimed own, same, countP_untimed]

/-- The module writes the oracle of the shim exactly if its rate is not zero or nothing
was in scope. -/
theorem loss_oracle_iff (fl : ℚ → ℚ) (w : World) (args : StartArgs)
    (started : (cspLossStart fl w args).2 = none) (keyed : 0 ≤ args.dport)
    (opened : args.logOpens = some true) (ms : List Crossing) :
    SameOracle (replayRule args) (ms.map Crossing.call)
        (run lossNexthop (cspLossStart fl w args).1.loss (ms.map Crossing.tx))
        (run ciDropIfaceNexthop
          (shim (replayRule args) args.mtu.toUInt16 args.overhead.toUInt16 true .identity)
          (ms.map Crossing.call)) ↔
      0 < args.prob ∨ ∀ m ∈ ms, inScope (replayRule args) m.call = false := by
  have start := aligned_start started keyed opened
  obtain ⟨aligned, fates⟩ := aligned_run start ms
  obtain ⟨hrule, empty⟩ := shim_start (replayRule args) args.mtu.toUInt16 args.overhead.toUInt16
    true .identity
  obtain ⟨-, rows, partition⟩ := partition_run _ true _ hrule empty (ms.map Crossing.call)
  rw [sameOracle_iff aligned fates partition]
  simp only [List.forall_mem_map]
  exact Iff.rfl

/-- A control run with the rate zero: one packet of port 9 in scope. -/
def controlArgs (prob : ℚ) : StartArgs where
  parses := true
  prob := prob
  burst := 0
  dport := 9
  seed := 1
  mtu := 1024
  overhead := 8
  found := true
  logOpens := some true
  nowMs := 0

def controlCrossing : Crossing :=
  ⟨⟨⟨10, 20, 9, 0, [0, 0, 0, 0], by simp [cspBufferSize]⟩, 20, 1, 7, 0⟩, 7, fun _ => 0⟩

theorem loss_oracle_iff_lossy :
    SameOracle (replayRule (controlArgs (1 / 2))) ([controlCrossing].map Crossing.call)
      (run lossNexthop (cspLossStart id World.start (controlArgs (1 / 2))).1.loss
        ([controlCrossing].map Crossing.tx))
      (run ciDropIfaceNexthop (shim (replayRule (controlArgs (1 / 2)))
        (controlArgs (1 / 2)).mtu.toUInt16 (controlArgs (1 / 2)).overhead.toUInt16 true .identity)
        ([controlCrossing].map Crossing.call)) :=
  (loss_oracle_iff id World.start (controlArgs (1 / 2)) (by decide +kernel) (by decide) rfl
    [controlCrossing]).mpr (Or.inl (by norm_num [controlArgs]))

/-- The control writes nothing where the shim writes its row. -/
theorem control_logs_nothing :
    (cspLossStart id World.start (controlArgs 0)).2 = none ∧
    (run lossNexthop (cspLossStart id World.start (controlArgs 0)).1.loss
      [controlCrossing.tx]).1.lossLog = some [] ∧
    (run ciDropIfaceNexthop (shim (replayRule (controlArgs 0)) 1024 8 true .identity)
      [controlCrossing.call]).1.dropLog = some [⟨7, 10, 9, 0, false, 0, 0, false⟩] := by
  decide +kernel

end CspLinksim.LossApm
