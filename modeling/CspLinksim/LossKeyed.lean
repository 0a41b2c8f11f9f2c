import CspLinksim.LossApm

/-!
# `csp_loss -M` as a fixed filter

In identity mode the decision on a bulk frame is one draw on its fragment index. Whatever
else is transmitted before or between, the shim lets through the bulk frames that a fixed
predicate on their offsets admits, in the order sent.
-/

namespace CspLinksim.LossApm

open Runs Packet Rule Ge DropIface

/-- The shim after `csp_loss start -M dport`, alone at the interface. -/
structure Keyed (dport : UInt16) (w : World) : Prop where
  nexthop : w.nexthop = some .lossNexthop
  real : w.loss.lossRealNexthop = some .driver
  lossy : 0 < w.loss.lossProb
  steady : ¬ 0 < w.loss.lossBurst
  identity : 0 ≤ w.loss.lossMatchDport
  scope : ∀ f : CiFrame, ciRuleMatch w.loss.lossRule f = true ↔ f.dport = dport

/-- The key of a bulk frame with this offset; a frame that has no index gets 0. -/
def fragmentKey (l : Loss) (off : UInt32) : UInt64 :=
  match ciDtpFragmentIndexOvh off l.lossMtu l.lossOverhead with
  | some frag => frag.toUInt64
  | none => 0

def dropsOffset (l : Loss) (off : UInt32) : Bool := ciRuleDecide l.lossRule (fragmentKey l off)

/-- A frame of a bulk transfer on the port: no RDP, and an offset in front. -/
def isBulk (dport : UInt16) (p : CspPacket) : Bool :=
  p.dport = dport ∧ p.flags &&& ciCspFrdp = 0 ∧ ciDtpOffsetSize ≤ p.data.length

/-- A transmission and what it puts on the air. -/
def send (w : World) (tx : Transmission) : World × Option CspPacket :=
  match transmit w tx with
  | some (w, .disposed (.targetNexthop _ packet _)) => (w, some packet)
  | some (w, _) => (w, none)
  | none => (w, none)

/-- What a run of transmissions puts on the air. -/
def onAir (w : World) (txs : List Transmission) : List CspPacket :=
  (run send w txs).2.filterMap id

/-- What the decision on a bulk frame depends on. -/
structure SameFilter (l l' : Loss) : Prop where
  rule : l'.lossRule = l.lossRule
  mtu : l'.lossMtu = l.lossMtu
  overhead : l'.lossOverhead = l.lossOverhead

theorem SameFilter.drops {l l' : Loss} (h : SameFilter l l') (off : UInt32) :
    dropsOffset l' off = dropsOffset l off := by
  rw [dropsOffset, dropsOffset, fragmentKey, fragmentKey, h.rule, h.mtu, h.overhead]

/-- The start of an identity-keyed run. -/
theorem keyed_of_start (fl : ℚ → ℚ) {w : World} {args : StartArgs} (bare : w.nexthop = some .driver)
    (accepted : startRefused w args = none) (lossy : 0 < args.prob) (steady : ¬ 0 < args.burst)
    (identity : 0 ≤ args.dport) :
    Keyed (UInt16.ofInt args.dport) (cspLossStart fl w args).1 := by
  simp only [cspLossStart, accepted]
  refine ⟨rfl, bare, lossy, steady, identity, ?_⟩
  intro f
  rw [ciRuleMatch]
  by_cases port : f.dport = UInt16.ofInt args.dport
  · simp [port]
  · simp [port, identity]

/-- The decision in identity mode. -/
theorem Keyed.decide {dport : UInt16} {w : World} (h : Keyed dport w) (tx : Transmission)
    (pass : Nat) :
    (∃ l drop, lossDecide w.loss tx pass = (l, drop) ∧ SameFilter w.loss l ∧
      Keyed dport { w with loss := l } ∧
      (tx.packet.dport ≠ dport → drop = false) ∧
      (isBulk dport tx.packet = true → drop = dropsOffset w.loss (le32 tx.packet.data 0))) := by
  by_cases scope : ciRuleMatch w.loss.lossRule (frameOf tx.packet) = true
  · obtain ⟨lastSeq, have', epoch, hidx⟩ :=
      lossFlowIndex_frame w.loss tx.packet (frameOf tx.packet)
    have port : tx.packet.dport = dport := (h.scope _).mp scope
    simp only [lossDecide, if_pos h.lossy, if_neg h.steady, if_pos h.identity, if_pos scope, hidx]
    refine ⟨_, _, rfl, ⟨rfl, rfl, rfl⟩,
      ⟨h.nexthop, h.real, h.lossy, h.steady, h.identity, h.scope⟩, absurd port, ?_⟩
    intro bulk
    obtain ⟨_, plain, long⟩ := of_decide_eq_true bulk
    have notRdp : (frameOf tx.packet).isRdp = false := by
      simp [frameOf, ciFrameFromFields, plain]
    have parses : ciDtpParseOffset tx.packet.data = some (le32 tx.packet.data 0) :=
      if_neg (Nat.not_lt_of_le long)
    congr 1
    rw [lossFlowIndex, notRdp, if_neg Bool.false_ne_true, fragmentKey]
    simp only [parses]
    cases ciDtpFragmentIndexOvh (le32 tx.packet.data 0) w.loss.lossMtu w.loss.lossOverhead <;> rfl
  · have port : tx.packet.dport ≠ dport := fun same => scope ((h.scope _).mpr same)
    simp only [lossDecide, if_pos h.lossy, if_neg h.steady, if_pos h.identity, if_neg scope]
    refine ⟨_, _, rfl, ⟨rfl, rfl, rfl⟩, h, fun _ => rfl, ?_⟩
    intro bulk
    exact absurd (of_decide_eq_true bulk).1 port

/-- The step lemma: the filter stays, and decides about bulk frames. -/
theorem Keyed.send {dport : UInt16} {w : World} (h : Keyed dport w) (tx : Transmission) :
    Keyed dport (send w tx).1 ∧ SameFilter w.loss (send w tx).1.loss ∧
      (isBulk dport tx.packet = true → (LossApm.send w tx).2 =
        if dropsOffset w.loss (le32 tx.packet.data 0) then none else some tx.packet) ∧
      ∀ p, (LossApm.send w tx).2 = some p → p = tx.packet := by
  obtain ⟨l, drop, decided, same, keyed, _, bulk⟩ := h.decide tx 0
  have once : transmit w tx = if drop then
      some ({ w with
          loss := { l with lossSent := l.lossSent + 1, lossDropped := l.lossDropped + 1 }
          drop := w.drop + 1 }, .disposed (.bufferFree tx.packet))
      else some ({ w with loss := { l with lossSent := l.lossSent + 1 } },
        .disposed (.targetNexthop tx.via tx.packet tx.fromMe)) := by
    have real : l.lossRealNexthop = some .driver := keyed.real
    have last : ∀ w', callNexthop tx 2 (0 + 1) w' l.lossRealNexthop =
        some (w', .disposed (.targetNexthop tx.via tx.packet tx.fromMe)) := by
      intro w'
      rw [real]
      rfl
    have first : transmit w tx = callNexthop tx 3 0 w (some .lossNexthop) := by
      rw [transmit, h.nexthop]
    rw [first, callNexthop_loss]
    simp only [decided, last]
  cases drop with
  | true =>
    simp only [LossApm.send, once, if_true]
    refine ⟨⟨keyed.nexthop, keyed.real, keyed.lossy, keyed.steady, keyed.identity, keyed.scope⟩,
      ⟨same.rule, same.mtu, same.overhead⟩, ?_, ?_⟩
    · intro is_bulk
      rw [← bulk is_bulk, if_pos rfl]
    · intro p none
      cases none
  | false =>
    simp only [LossApm.send, once, Bool.false_eq_true, if_false]
    refine ⟨⟨keyed.nexthop, keyed.real, keyed.lossy, keyed.steady, keyed.identity, keyed.scope⟩,
      ⟨same.rule, same.mtu, same.overhead⟩, ?_, ?_⟩
    · intro is_bulk
      rw [← bulk is_bulk, if_neg Bool.false_ne_true]
    · intro p some_packet
      exact (Option.some.inj some_packet).symm

/-- The run lemma: the bulk frames on the air are those the filter admits. -/
theorem Keyed.run {dport : UInt16} {w : World} (h : Keyed dport w) (txs : List Transmission) :
    Keyed dport (run LossApm.send w txs).1 ∧
      SameFilter w.loss (Runs.run LossApm.send w txs).1.loss ∧
      (onAir w txs).filter (isBulk dport) =
        ((txs.map (·.packet)).filter (isBulk dport)).filter fun p =>
          ! dropsOffset w.loss (le32 p.data 0) := by
  induction txs generalizing w with
  | nil => exact ⟨h, ⟨rfl, rfl, rfl⟩, rfl⟩
  | cons tx txs ih =>
    obtain ⟨keyed, same, bulk, unchanged⟩ := h.send tx
    obtain ⟨last, same', tail⟩ := ih keyed
    refine ⟨last, ⟨same'.rule.trans same.rule, same'.mtu.trans same.mtu,
      same'.overhead.trans same.overhead⟩, ?_⟩
    simp only [same.drops] at tail
    rw [onAir] at tail ⊢
    rw [run_cons, List.map_cons]
    simp only [List.filterMap_cons]
    by_cases is_bulk : isBulk dport tx.packet = true
    · rw [bulk is_bulk, List.filter_cons_of_pos is_bulk]
      by_cases drops : dropsOffset w.loss (le32 tx.packet.data 0) = true
      · rw [if_pos drops, List.filter_cons_of_neg (by simp [drops])]
        exact tail
      · rw [if_neg drops, List.filter_cons_of_pos (by simp [drops])]
        simp only [id, List.filter_cons_of_pos is_bulk]
        exact congrArg (tx.packet :: ·) tail
    · rw [List.filter_cons_of_neg is_bulk, ← tail]
      cases sent : (LossApm.send w tx).2 with
      | none => rfl
      | some p =>
        rw [unchanged p sent]
        simp only [id, List.filter_cons_of_neg is_bulk]

end CspLinksim.LossApm
