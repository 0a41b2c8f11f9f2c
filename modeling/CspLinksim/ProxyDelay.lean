import CspLinksim.ProxyFrames
import Mathlib.Data.List.Perm.Lattice

/-!
# The broker and its delay worker

With delay or half duplex switched on, a second thread takes frames out of a queue of
1024 and puts back the ones that are not due. The two threads are stepped here from one
access of shared state to the next, in any order. `csp_queue` belongs to libcsp and is a
parameter. Corruption (`-C`) rewrites a frame in place and is left out.
-/

namespace CspLinksim.Proxy

open Runs Packet

/-- A message, numbered in the order of arrival. -/
structure Msg where
  nr : Nat
  bytes : List UInt8
  deriving DecidableEq

structure DelayedMsg where
  msg : Msg
  timestampTx : UInt32
  hdx : Bool
  deriving DecidableEq

/-- The command line: `rand` below `delayProb` is a verdict that comes with the frame. -/
structure Settings where
  version2 : Bool
  hdxNode : Int32
  hdxPowerupDelay : Int32
  hdxPowerdownDelay : Int32
  delayProb : ℚ
  delayMs : Int32

/-- The frame in the main loop's `msg`, with what `rand` says about it. -/
structure Received where
  nr : Nat
  frame : RawFrame
  randDelay : Bool
  deriving DecidableEq

def Received.msg (h : Received) : Msg := ⟨h.nr, h.frame.bytes⟩

/-- Where the main loop is in its frontend branch. -/
inductive MainPc where
  | poll
  | received (h : Received)
  | srcTest (h : Received)
  | powerup (h : Received)
  | powerupStamp (h : Received)
  | markTx (h : Received)
  | dstTest (h : Received)
  | decide (h : Received)
  | enqueue (d : DelayedMsg)
  deriving DecidableEq

/-- Where `task_delay_send` is. -/
inductive WorkerPc where
  | front
  | scan (i count : Nat)
  | holding (i count : Nat) (d : DelayedMsg)
  | markTx
  | clearPowerup
  deriving DecidableEq

def delayQueueLength : Nat := 1024

/-- The queue of libcsp, as far as the broker relies on it: what went in first comes out first,
and there is room for `length` messages. -/
structure CspQueue (σ α : Type) (length : Nat) where
  items : σ → List α
  create : σ
  size : σ → Nat
  enqueue : σ → α → σ × Bool
  dequeue : σ → σ × Option α
  create_empty : items create = []
  size_eq : ∀ q, size q = (items q).length
  enqueue_room : ∀ q x, (items q).length < length →
    items (enqueue q x).1 = items q ++ [x] ∧ (enqueue q x).2 = true
  enqueue_full : ∀ q x, ¬ (items q).length < length →
    items (enqueue q x).1 = items q ∧ (enqueue q x).2 = false
  dequeue_first : ∀ q, (dequeue q).2 = (items q).head?
  dequeue_rest : ∀ q, items (dequeue q).1 = (items q).tail

namespace CspQueue

variable {σ α : Type} {length : Nat} (lib : CspQueue σ α length)

theorem enqueue_cases (q : σ) (x : α) :
    (∃ q', lib.enqueue q x = (q', true) ∧ lib.items q' = lib.items q ++ [x] ∧
        (lib.items q).length < length) ∨
      ∃ q', lib.enqueue q x = (q', false) ∧ lib.items q' = lib.items q ∧
        ¬ (lib.items q).length < length := by
  by_cases room : (lib.items q).length < length
  · obtain ⟨items, ok⟩ := lib.enqueue_room q x room
    exact .inl ⟨_, Prod.ext rfl ok, items, room⟩
  · obtain ⟨items, failed⟩ := lib.enqueue_full q x room
    exact .inr ⟨_, Prod.ext rfl failed, items, room⟩

theorem dequeue_cases (q : σ) :
    (∃ q', lib.dequeue q = (q', none) ∧ lib.items q = []) ∨
      ∃ q' x, lib.dequeue q = (q', some x) ∧ lib.items q = x :: lib.items q' := by
  have first := lib.dequeue_first q
  have rest := lib.dequeue_rest q
  cases items : lib.items q with
  | nil =>
    rw [items] at first
    exact .inl ⟨_, Prod.ext rfl first, rfl⟩
  | cons x xs =>
    rw [items] at first rest
    exact .inr ⟨_, x, Prod.ext rfl first, by rw [rest]; rfl⟩

end CspQueue

/-- The shared state, the two threads, and three lists the code does not keep: what came
in, what went to the backend and what was given up. -/
structure Broker (σ : Type) where
  loop : Loop
  gDelayDrops : Nat
  hdxLastTxMs : UInt32
  hdxPowerupStartMs : UInt32
  queue : σ
  mainPc : MainPc
  workerPc : WorkerPc
  received : List Msg
  sent : List Msg
  discarded : List Msg
  deriving DecidableEq

/-- A frame arrives while the loop polls, or one of the threads takes its next step. -/
inductive Event where
  | recv (frame : RawFrame) (randDelay : Bool)
  | main (now : UInt32)
  | worker (now : UInt32)

namespace Broker

variable {σ : Type}

def countMalformed (s : Broker σ) : Broker σ :=
  { s with loop.globals.gMalformedFrames := s.loop.globals.gMalformedFrames + 1 }

def countDrop (s : Broker σ) : Broker σ :=
  { s with loop.globals.gDrops := s.loop.globals.gDrops + 1 }

def countKept (s : Broker σ) : Broker σ :=
  { s with loop.globals.gKept := s.loop.globals.gKept + 1 }

/-- The frame is closed and the loop polls again. -/
def giveUp (s : Broker σ) (m : Msg) : Broker σ :=
  { s with mainPc := .poll, discarded := s.discarded ++ [m] }

end Broker

section

variable {σ : Type} (lib : CspQueue σ DelayedMsg delayQueueLength) (cfg : Settings)
  (strip : CspPacket → List UInt8 → CspPacket)

/-- `id == hdx_node`, a `uint16_t` against an `int`. -/
def isHdxNode (id : UInt16) : Bool := (id.toNat : Int) = cfg.hdxNode.toInt

/-- The half-duplex node is not listening. -/
def rxDropped (s : Broker σ) (now : UInt32) : Bool :=
  isHdxNode cfg s.loop.packet.dst ∧ now < s.hdxLastTxMs + cfg.hdxPowerdownDelay.toUInt32

def mainStep (s : Broker σ) (now : UInt32) : Broker σ :=
  match s.mainPc with
  | .poll => s
  | .received h =>
    if cfg.hdxNode ≠ 0 then
      if ¬ proxyFrameFits cfg.version2 h.frame.bytes.length then s.countMalformed.giveUp h.msg
      else { s with loop.packet := strip s.loop.packet h.frame.bytes, mainPc := .srcTest h }
    else { s with mainPc := .decide h }
  | .srcTest h =>
    if isHdxNode cfg s.loop.packet.src ∧
        s.hdxLastTxMs + cfg.hdxPowerdownDelay.toUInt32 < now then
      { s with mainPc := .powerup h }
    else if isHdxNode cfg s.loop.packet.src then { s with mainPc := .markTx h }
    else { s with mainPc := .dstTest h }
  | .powerup h =>
    { s with
      hdxPowerupStartMs := if s.hdxPowerupStartMs = 0 then now else s.hdxPowerupStartMs
      mainPc := .powerupStamp h }
  | .powerupStamp h =>
    { s with mainPc :=
        .enqueue ⟨h.msg, s.hdxPowerupStartMs + cfg.hdxPowerupDelay.toUInt32, true⟩ }
  | .markTx h => { s with hdxLastTxMs := now, mainPc := .dstTest h }
  | .dstTest h =>
    if rxDropped cfg s now then s.giveUp h.msg
    else { s with mainPc := .decide h }
  | .decide h =>
    match dropDecision cfg.version2 strip s.loop h.frame with
    | none => s.countMalformed.giveUp h.msg
    | some (loop, drop) =>
      if ¬ drop then
        if 0 < cfg.delayProb ∧ h.randDelay then
          { s with loop := loop, mainPc := .enqueue ⟨h.msg, now + cfg.delayMs.toUInt32, false⟩ }
        else { s with loop := loop, mainPc := .poll, sent := s.sent ++ [h.msg] }.countKept
      else { s with loop := loop }.countDrop.giveUp h.msg
  | .enqueue d =>
    match lib.enqueue s.queue d with
    | (queue, true) => { s with queue := queue, mainPc := .poll }
    | (queue, false) =>
      { s with queue := queue, gDelayDrops := s.gDelayDrops + 1 }.giveUp d.msg

def workerStep (s : Broker σ) (now : UInt32) : Broker σ :=
  match s.workerPc with
  | .front => { s with workerPc := .scan 0 (lib.size s.queue) }
  | .scan i count =>
    if i < count then
      match lib.dequeue s.queue with
      | (_, none) => s -- never: see `scan_finds_frames`
      | (queue, some d) => { s with queue := queue, workerPc := .holding i count d }
    else { s with workerPc := .front }
  | .holding i count d =>
    if d.timestampTx < now then
      { s with sent := s.sent ++ [d.msg], workerPc := if d.hdx then .markTx else .front }
    else
      match lib.enqueue s.queue d with
      | (queue, true) => { s with queue := queue, workerPc := .scan (i + 1) count }
      | (queue, false) => -- the result is not looked at
        { s with
          queue := queue, discarded := s.discarded ++ [d.msg], workerPc := .scan (i + 1) count }
  | .markTx => { s with hdxLastTxMs := now, workerPc := .clearPowerup }
  | .clearPowerup => { s with hdxPowerupStartMs := 0, workerPc := .front }

/-- The worker is only spawned for these modes. -/
def workerRuns : Bool := 0 < cfg.delayProb ∨ 0 < cfg.delayMs ∨ cfg.hdxNode ≠ 0

def brokerStep (s : Broker σ) : Event → Broker σ
  | .recv frame randDelay =>
    if s.mainPc = .poll then
      { s with
        mainPc := .received ⟨s.received.length, frame, randDelay⟩
        received := s.received ++ [⟨s.received.length, frame.bytes⟩] }
    else s
  | .main now => mainStep lib cfg strip s now
  | .worker now => if workerRuns cfg then workerStep lib s now else s

end

/-- The broker before its first frame, with or without a drop log. -/
def brokerStart {σ : Type} (lib : CspQueue σ DelayedMsg delayQueueLength) (rule : Rule.CiDropRule)
    (mtu overhead : UInt16) (logs : Bool) (junk : CspPacket) : Broker σ where
  loop := { loopStart rule mtu overhead junk with
    globals.gDropLog := if logs then some [] else none }
  gDelayDrops := 0
  hdxLastTxMs := 0
  hdxPowerupStartMs := 0
  queue := lib.create
  mainPc := .poll
  workerPc := .front
  received := []
  sent := []
  discarded := []

def MainPc.held : MainPc → List Msg
  | .poll => []
  | .received h | .srcTest h | .powerup h | .powerupStamp h | .markTx h | .dstTest h
  | .decide h => [h.msg]
  | .enqueue d => [d.msg]

def WorkerPc.held : WorkerPc → List Msg
  | .holding _ _ d => [d.msg]
  | _ => []

@[simp] theorem held_poll : MainPc.held .poll = [] := rfl
@[simp] theorem held_front : WorkerPc.held .front = [] := rfl
@[simp] theorem held_scan (i count : Nat) : WorkerPc.held (.scan i count) = [] := rfl
@[simp] theorem held_holding (i count : Nat) (d : DelayedMsg) :
    WorkerPc.held (.holding i count d) = [d.msg] := rfl
@[simp] theorem held_markTx : WorkerPc.held .markTx = [] := rfl
@[simp] theorem held_clearPowerup : WorkerPc.held .clearPowerup = [] := rfl

section

variable {σ : Type} (lib : CspQueue σ DelayedMsg delayQueueLength)

/-- The frames in the queue and in the hands of the two threads. -/
def Broker.waiting (s : Broker σ) : List Msg :=
  (lib.items s.queue).map DelayedMsg.msg ++ s.workerPc.held ++ s.mainPc.held

/-- The sum of the four counters of the summary. -/
def Broker.counted (s : Broker σ) : Nat :=
  s.loop.globals.gKept + s.loop.globals.gDrops + s.gDelayDrops + s.loop.globals.gMalformedFrames

/-- Every frame that arrived is in one place, and the counters tell how many have left. -/
structure Accounted (s : Broker σ) : Prop where
  numbered : s.received.map Msg.nr = List.range s.received.length
  conserved : (s.sent ++ s.waiting lib ++ s.discarded).Perm s.received
  balanced : s.counted + (s.waiting lib).length = s.received.length

/-- In this step a frame leaves and no counter moves: the half-duplex node is not listening,
or the worker sends a frame that is due or puts one back into a full queue. -/
def slips (cfg : Settings) (s : Broker σ) : Event → Bool
  | .recv _ _ => false
  | .main now =>
    match s.mainPc with
    | .dstTest _ => rxDropped cfg s now
    | _ => false
  | .worker now =>
    match s.workerPc with
    | .holding _ _ d =>
      workerRuns cfg ∧ (d.timestampTx < now ∨ ¬ (lib.items s.queue).length < delayQueueLength)
    | _ => false

/-- What one step does to the books. -/
structure Moved (s s' : Broker σ) (arrived left : List Msg) (slipped : Bool) : Prop where
  received : s'.received = s.received ++ arrived
  waiting : (s.waiting lib ++ arrived).Perm (left ++ s'.waiting lib)
  gone : (s'.sent ++ s'.discarded).Perm (s.sent ++ s.discarded ++ left)
  counted : s'.counted + slipped.toNat = s.counted + left.length

end

section

variable {σ : Type} {lib : CspQueue σ DelayedMsg delayQueueLength} {s s' : Broker σ}
  {arrived left : List Msg} {slipped : Bool}

/-- A step that leaves every frame in its place. -/
theorem Moved.still (received : s'.received = s.received) (sent : s'.sent = s.sent)
    (discarded : s'.discarded = s.discarded) (waiting : s'.waiting lib = s.waiting lib)
    (counted : s'.counted = s.counted) : Moved lib s s' [] [] false where
  received := by simpa using received
  waiting := by simp [waiting]
  gone := by simp [sent, discarded]
  counted := counted

theorem Moved.balance (h : Moved lib s s' arrived left slipped) :
    s'.counted + (s'.waiting lib).length + slipped.toNat + s.received.length =
      s.counted + (s.waiting lib).length + s'.received.length := by
  have held := h.waiting.length_eq
  have came := congrArg List.length h.received
  have total := h.counted
  simp only [List.length_append] at held came
  omega

theorem Moved.conserved (h : Moved lib s s' arrived left slipped)
    (before : (s.sent ++ s.waiting lib ++ s.discarded).Perm s.received) :
    (s'.sent ++ s'.waiting lib ++ s'.discarded).Perm s'.received := by
  rw [List.perm_iff_count] at before ⊢
  intro m
  have old := before m
  have held := h.waiting.count_eq m
  have gone := h.gone.count_eq m
  simp only [h.received, List.count_append] at old held gone ⊢
  omega

end

/-- The decision does not touch the counters. -/
theorem dropDecision_counts {version2 : Bool} {strip : CspPacket → List UInt8 → CspPacket}
    {loop loop' : Loop} {x : RawFrame} {drop : Bool}
    (h : dropDecision version2 strip loop x = some (loop', drop)) :
    loop'.globals.gKept = loop.globals.gKept ∧ loop'.globals.gDrops = loop.globals.gDrops ∧
    loop'.globals.gMalformedFrames = loop.globals.gMalformedFrames := by
  simp only [dropDecision] at h
  split at h
  · split at h
    · cases h
    · split at h
      · cases h
        obtain ⟨_, _, _, keeps⟩ := proxyFlowIndex_keeps loop.globals (strip loop.packet x.bytes)
          (Rule.ciFrameFromFields (strip loop.packet x.bytes).dport
            (strip loop.packet x.bytes).flags (strip loop.packet x.bytes).data)
        simp [keeps]
      · cases h
        exact ⟨rfl, rfl, rfl⟩
  · cases h
    exact ⟨rfl, rfl, rfl⟩

section

variable {σ : Type} (lib : CspQueue σ DelayedMsg delayQueueLength) (cfg : Settings)
  (strip : CspPacket → List UInt8 → CspPacket) (s : Broker σ)

/-- The main loop goes on with the frame in its hand. -/
theorem Moved.handed {m : Msg} {loop : Loop} {last start : UInt32} {pc : MainPc}
    (before : s.mainPc.held = [m]) (after : pc.held = [m])
    (counted : { s with loop := loop }.counted = s.counted) :
    Moved lib s { s with
      loop := loop, hdxLastTxMs := last, hdxPowerupStartMs := start, mainPc := pc } [] [] false :=
  .still rfl rfl rfl (by simp only [Broker.waiting, before, after]) counted

/-- The main loop closes the frame in its hand. -/
theorem Moved.givenUp {m : Msg} {s' : Broker σ} {slipped : Bool}
    (before : s.mainPc.held = [m]) (queue : lib.items s'.queue = lib.items s.queue)
    (worker : s'.workerPc = s.workerPc) (received : s'.received = s.received)
    (sent : s'.sent = s.sent) (discarded : s'.discarded = s.discarded)
    (counted : s'.counted + slipped.toNat = s.counted + 1) :
    Moved lib s (s'.giveUp m) [] [m] slipped where
  received := by simpa [Broker.giveUp] using received
  waiting := by
    simp only [Broker.waiting, Broker.giveUp, before, queue, worker, held_poll, List.append_nil]
    exact List.perm_append_comm
  gone := by
    simp only [Broker.giveUp, sent, discarded, List.append_assoc]
    exact .refl _
  counted := counted

theorem mainStep_moved (now : UInt32) :
    ∃ left, Moved lib s (mainStep lib cfg strip s now) [] left (slips lib cfg s (.main now)) := by
  cases pc : s.mainPc with
  | poll => exact ⟨[], by simpa [mainStep, slips, pc] using Moved.still rfl rfl rfl rfl rfl⟩
  | received h =>
    have held : s.mainPc.held = [h.msg] := by simp only [pc, MainPc.held]
    simp only [mainStep, slips, pc]
    split
    · split
      · refine ⟨[h.msg], .givenUp lib s held rfl rfl rfl rfl rfl ?_⟩
        simp only [Broker.counted, Broker.countMalformed, Bool.toNat_false]
        omega
      · exact ⟨[], .handed lib s held rfl rfl⟩
    · exact ⟨[], .handed lib s held rfl rfl⟩
  | srcTest h =>
    have held : s.mainPc.held = [h.msg] := by simp only [pc, MainPc.held]
    simp only [mainStep, slips, pc]
    split
    · exact ⟨[], .handed lib s held rfl rfl⟩
    · split
      · exact ⟨[], .handed lib s held rfl rfl⟩
      · exact ⟨[], .handed lib s held rfl rfl⟩
  | powerup h =>
    simp only [mainStep, slips, pc]
    exact ⟨[], @Moved.handed σ lib s h.msg _ _ _ _ (by simp only [pc, MainPc.held]) rfl rfl⟩
  | powerupStamp h =>
    simp only [mainStep, slips, pc]
    exact ⟨[], @Moved.handed σ lib s h.msg _ _ _ _ (by simp only [pc, MainPc.held]) rfl rfl⟩
  | markTx h =>
    simp only [mainStep, slips, pc]
    exact ⟨[], @Moved.handed σ lib s h.msg _ _ _ _ (by simp only [pc, MainPc.held]) rfl rfl⟩
  | dstTest h =>
    have held : s.mainPc.held = [h.msg] := by simp only [pc, MainPc.held]
    simp only [mainStep, slips, pc]
    cases lost : rxDropped cfg s now with
    | true => exact ⟨[h.msg], .givenUp lib s held rfl rfl rfl rfl rfl rfl⟩
    | false => exact ⟨[], .handed lib s held rfl rfl⟩
  | decide h =>
    have held : s.mainPc.held = [h.msg] := by simp only [pc, MainPc.held]
    simp only [mainStep, slips, pc]
    cases decision : dropDecision cfg.version2 strip s.loop h.frame with
    | none =>
      refine ⟨[h.msg], .givenUp lib s held rfl rfl rfl rfl rfl ?_⟩
      simp only [Broker.counted, Broker.countMalformed, Bool.toNat_false]
      omega
    | some decided =>
      obtain ⟨loop, drop⟩ := decided
      obtain ⟨kept, drops, malformed⟩ := dropDecision_counts decision
      have same : { s with loop := loop }.counted = s.counted := by
        simp only [Broker.counted, kept, drops, malformed]
      cases drop with
      | true =>
        refine ⟨[h.msg], .givenUp lib s held rfl rfl rfl rfl rfl ?_⟩
        simp only [Broker.counted, Broker.countDrop, Bool.toNat_false, kept, drops, malformed]
        omega
      | false =>
        simp only [Bool.false_eq_true, not_false_eq_true, if_true]
        split
        · exact ⟨[], .handed lib s held rfl same⟩
        · refine ⟨[h.msg], ?_, ?_, ?_, ?_⟩
          · simp [Broker.countKept]
          · simp only [Broker.waiting, Broker.countKept, held, held_poll, List.append_nil]
            exact List.perm_append_comm
          · simp only [Broker.countKept, List.append_assoc]
            exact List.perm_append_comm.append_left s.sent
          · simp only [Broker.counted, Broker.countKept, Bool.toNat_false, kept, drops, malformed,
              List.length_singleton]
            omega
  | enqueue d =>
    have held : s.mainPc.held = [d.msg] := by simp only [pc, MainPc.held]
    simp only [mainStep, slips, pc]
    rcases lib.enqueue_cases s.queue d with ⟨q, done, items, -⟩ | ⟨q, done, items, -⟩
    · rw [done]
      refine ⟨[], ?_, ?_, ?_, rfl⟩
      · simp
      · simp only [Broker.waiting, held, held_poll, items, List.map_append, List.map_singleton,
          List.append_nil, List.nil_append, List.append_assoc]
        exact List.perm_append_comm.append_left ((lib.items s.queue).map DelayedMsg.msg)
      · simp
    · rw [done]
      refine ⟨[d.msg], .givenUp lib s held items rfl rfl rfl rfl ?_⟩
      simp only [Broker.counted, Bool.toNat_false]
      omega

theorem workerStep_moved (now : UInt32) (runs : workerRuns cfg = true) :
    ∃ left, Moved lib s (workerStep lib s now) [] left (slips lib cfg s (.worker now)) := by
  cases pc : s.workerPc with
  | front =>
    simp only [workerStep, slips, pc]
    exact ⟨[], .still rfl rfl rfl (by simp [Broker.waiting, pc]) rfl⟩
  | scan i count =>
    simp only [workerStep, slips, pc]
    split
    · rcases lib.dequeue_cases s.queue with ⟨q, taken, empty⟩ | ⟨q, d, taken, items⟩
      · rw [taken]
        exact ⟨[], .still rfl rfl rfl rfl rfl⟩
      · rw [taken]
        refine ⟨[], ?_, ?_, ?_, rfl⟩
        · simp
        · simp only [Broker.waiting, items, pc, held_scan, held_holding, List.map_cons,
            List.append_nil, List.nil_append, List.append_assoc, List.cons_append]
          exact List.perm_middle.symm
        · simp
    · exact ⟨[], .still rfl rfl rfl (by simp [Broker.waiting, pc]) rfl⟩
  | holding i count d =>
    simp only [workerStep, slips, pc, runs, true_and]
    by_cases due : d.timestampTx < now
    · refine ⟨[d.msg], ?_, ?_, ?_, ?_⟩
      · simp [due]
      · have held : WorkerPc.held (if d.hdx then .markTx else .front) = [] := by
          split <;> rfl
        simp only [if_pos due, Broker.waiting, pc, held, held_holding, List.append_nil,
          List.append_assoc, List.cons_append, List.nil_append]
        exact List.perm_middle
      · simp only [if_pos due, List.append_assoc]
        exact List.perm_append_comm.append_left s.sent
      · simp [due, Broker.counted]
    · rcases lib.enqueue_cases s.queue d with ⟨q, done, items, room⟩ | ⟨q, done, items, full⟩
      · refine ⟨[], ?_, ?_, ?_, ?_⟩
        · simp [due, done]
        · simp only [if_neg due, done, Broker.waiting, pc, held_holding, held_scan, items,
            List.map_append, List.map_singleton, List.append_nil, List.nil_append]
          exact .refl _
        · simp [due, done]
        · simp [due, done, room, Broker.counted]
      · refine ⟨[d.msg], ?_, ?_, ?_, ?_⟩
        · simp [due, done]
        · simp only [if_neg due, done, Broker.waiting, pc, held_holding, held_scan, items,
            List.append_nil, List.append_assoc, List.cons_append, List.nil_append]
          exact List.perm_middle
        · simp [due, done]
        · simp [due, done, full, Broker.counted]
  | markTx =>
    simp only [workerStep, slips, pc]
    exact ⟨[], .still rfl rfl rfl (by simp [Broker.waiting, pc]) rfl⟩
  | clearPowerup =>
    simp only [workerStep, slips, pc]
    exact ⟨[], .still rfl rfl rfl (by simp [Broker.waiting, pc]) rfl⟩

/-- The new frame if the event is one the loop takes. -/
theorem brokerStep_moved (e : Event) :
    ∃ arrived left, Moved lib s (brokerStep lib cfg strip s e) arrived left (slips lib cfg s e) ∧
      arrived.map Msg.nr = List.range' s.received.length arrived.length := by
  cases e with
  | recv frame randDelay =>
    simp only [brokerStep, slips]
    split
    · rename_i poll
      refine ⟨[⟨s.received.length, frame.bytes⟩], [], ⟨rfl, ?_, ?_, rfl⟩, rfl⟩
      · simp only [Broker.waiting, poll, held_poll, List.append_nil, List.nil_append]
        exact .refl _
      · simp
    · exact ⟨[], [], .still rfl rfl rfl rfl rfl, rfl⟩
  | main now =>
    obtain ⟨left, moved⟩ := mainStep_moved lib cfg strip s now
    exact ⟨[], left, moved, rfl⟩
  | worker now =>
    cases runs : workerRuns cfg with
    | true =>
      obtain ⟨left, moved⟩ := workerStep_moved lib cfg s now runs
      exact ⟨[], left, by simpa only [brokerStep, runs, if_true] using moved, rfl⟩
    | false =>
      refine ⟨[], [], ?_, rfl⟩
      have still : slips lib cfg s (.worker now) = false := by
        simp only [slips, runs]
        split <;> simp
      simp only [brokerStep, runs, still]
      exact .still rfl rfl rfl rfl rfl

/-- No step duplicates a frame or lets go of one. -/
theorem brokerStep_conserves (e : Event)
    (h : s.received.map Msg.nr = List.range s.received.length ∧
      (s.sent ++ s.waiting lib ++ s.discarded).Perm s.received) :
    (brokerStep lib cfg strip s e).received.map Msg.nr =
        List.range (brokerStep lib cfg strip s e).received.length ∧
      ((brokerStep lib cfg strip s e).sent ++ (brokerStep lib cfg strip s e).waiting lib ++
        (brokerStep lib cfg strip s e).discarded).Perm (brokerStep lib cfg strip s e).received := by
  obtain ⟨numbered, conserved⟩ := h
  obtain ⟨arrived, left, moved, numbers⟩ := brokerStep_moved lib cfg strip s e
  refine ⟨?_, moved.conserved conserved⟩
  simp only [moved.received, List.map_append, numbered, numbers, List.length_append]
  simp [List.range_eq_range', ← List.range'_append_1]

/-- A step that lets no frame slip keeps the account. -/
theorem brokerStep_accounted (e : Event) (h : Accounted lib s)
    (counts : slips lib cfg s e = false) :
    Accounted lib (brokerStep lib cfg strip s e) := by
  obtain ⟨numbered, conserved⟩ := brokerStep_conserves lib cfg strip s e ⟨h.numbered, h.conserved⟩
  obtain ⟨arrived, left, moved, _⟩ := brokerStep_moved lib cfg strip s e
  refine ⟨numbered, conserved, ?_⟩
  have balance := moved.balance
  have before := h.balanced
  simp only [counts, Bool.toNat_false] at balance
  omega

/-- One that lets a frame slip breaks it. -/
theorem brokerStep_unbalanced (e : Event) (h : Accounted lib s)
    (slipped : slips lib cfg s e = true) :
    ¬ Accounted lib (brokerStep lib cfg strip s e) := by
  intro after
  obtain ⟨arrived, left, moved, _⟩ := brokerStep_moved lib cfg strip s e
  have balance := moved.balance
  have before := h.balanced
  have next := after.balanced
  simp only [slipped, Bool.toNat_true] at balance
  omega

end

/-- In every order of steps each frame is sent once, waits, or was given up. -/
theorem frames_conserved {σ : Type} (lib : CspQueue σ DelayedMsg delayQueueLength)
    (cfg : Settings) (strip : CspPacket → List UInt8 → CspPacket) (rule : Rule.CiDropRule)
    (mtu overhead : UInt16) (logs : Bool) (junk : CspPacket) (events : List Event) :
    let s := after (brokerStep lib cfg strip) (brokerStart lib rule mtu overhead logs junk) events
    s.received.map Msg.nr = List.range s.received.length ∧
    (s.sent ++ s.waiting lib ++ s.discarded).Perm s.received := by
  apply after_invariant (fun s : Broker σ => s.received.map Msg.nr = List.range s.received.length ∧
    (s.sent ++ s.waiting lib ++ s.discarded).Perm s.received)
  · exact fun s e h => brokerStep_conserves lib cfg strip s e h
  · refine ⟨rfl, ?_⟩
    simp [brokerStart, Broker.waiting, lib.create_empty]

/-- No more frames are counted than arrived, so the counters have room for any run of fewer than
`2 ^ 64` frames. -/
theorem counted_le_received {σ : Type} (lib : CspQueue σ DelayedMsg delayQueueLength)
    (cfg : Settings) (strip : CspPacket → List UInt8 → CspPacket) (rule : Rule.CiDropRule)
    (mtu overhead : UInt16) (logs : Bool) (junk : CspPacket) (events : List Event) :
    let s := after (brokerStep lib cfg strip) (brokerStart lib rule mtu overhead logs junk) events
    s.counted ≤ s.received.length := by
  intro s
  have gone : s.counted ≤ s.sent.length + s.discarded.length := by
    apply after_invariant fun s : Broker σ => s.counted ≤ s.sent.length + s.discarded.length
    · intro s e h
      obtain ⟨arrived, left, moved, -⟩ := brokerStep_moved lib cfg strip s e
      have counted := moved.counted
      have gone := moved.gone.length_eq
      simp only [List.length_append] at gone
      omega
    · exact Nat.le_refl 0
  have placed : (s.sent ++ s.waiting lib ++ s.discarded).length = s.received.length :=
    (frames_conserved lib cfg strip rule mtu overhead logs junk events).2.length_eq
  simp only [List.length_append] at placed
  exact gone.trans (by omega)

/-- In every order of steps all frames are accounted for, up to the first that slips. -/
theorem accounted_iff_none_slips {σ : Type} (lib : CspQueue σ DelayedMsg delayQueueLength)
    (cfg : Settings) (strip : CspPacket → List UInt8 → CspPacket) (rule : Rule.CiDropRule)
    (mtu overhead : UInt16) (logs : Bool) (junk : CspPacket) (events : List Event) :
    (∀ ys, ys <+: events → Accounted lib (after (brokerStep lib cfg strip)
      (brokerStart lib rule mtu overhead logs junk) ys)) ↔
    Guarded (brokerStep lib cfg strip) (fun s e => slips lib cfg s e = false)
      (brokerStart lib rule mtu overhead logs junk) events := by
  apply always_iff_guarded (Accounted lib) (Accounted lib) (fun _ h => h)
  · exact fun s e h counts => brokerStep_accounted lib cfg strip s e h counts
  · intro s e h slipped
    exact brokerStep_unbalanced lib cfg strip s e h (by simpa using slipped)
  · refine ⟨rfl, ?_, ?_⟩
    · simp [brokerStart, Broker.waiting, lib.create_empty]
    · simp [brokerStart, Broker.waiting, Broker.counted, lib.create_empty, loopStart, proxyStart]

section

variable {σ : Type} (lib : CspQueue σ DelayedMsg delayQueueLength)

/-- What the worker has still to look at is in the queue. -/
def Covered (s : Broker σ) : Prop :=
  match s.workerPc with
  | .scan i count => count ≤ (lib.items s.queue).length + i
  | .holding i count _ => count ≤ (lib.items s.queue).length + i + 1
  | _ => True

theorem Covered.grow {lib : CspQueue σ DelayedMsg delayQueueLength} {s s' : Broker σ}
    (h : Covered lib s) (pc : s'.workerPc = s.workerPc)
    (grows : (lib.items s.queue).length ≤ (lib.items s'.queue).length) : Covered lib s' := by
  revert h
  simp only [Covered, pc]
  split
  · omega
  · omega
  · exact id

/-- The main loop leaves the worker alone and only adds to the queue. -/
theorem mainStep_grows (cfg : Settings) (strip : CspPacket → List UInt8 → CspPacket) (s : Broker σ)
    (now : UInt32) : (mainStep lib cfg strip s now).workerPc = s.workerPc ∧
      (lib.items s.queue).length ≤ (lib.items (mainStep lib cfg strip s now).queue).length := by
  have grows : ∀ d, (lib.items s.queue).length ≤
      (lib.items (lib.enqueue s.queue d).1).length := by
    intro d
    rcases lib.enqueue_cases s.queue d with ⟨q, done, items, -⟩ | ⟨q, done, items, -⟩
    · simp [done, items]
    · simp [done, items]
  fun_cases mainStep lib cfg strip s now <;> try exact ⟨rfl, Nat.le_refl _⟩
  all_goals
    rename_i d queue pc done
    have longer := grows d
    rw [done] at longer
    exact ⟨rfl, longer⟩

theorem workerStep_covered {s : Broker σ} (now : UInt32) (h : Covered lib s) :
    Covered lib (workerStep lib s now) := by
  cases pc : s.workerPc with
  | front => simp [workerStep, pc, Covered, lib.size_eq]
  | scan i count =>
    simp only [Covered, pc] at h
    simp only [workerStep, pc]
    split
    · rcases lib.dequeue_cases s.queue with ⟨q, taken, empty⟩ | ⟨q, d, taken, items⟩
      · simpa only [taken, Covered, pc] using h
      · rw [items, List.length_cons] at h
        simp only [taken, Covered]
        omega
    · trivial
  | holding i count d =>
    simp only [Covered, pc] at h
    simp only [workerStep, pc]
    split
    · simp only [Covered]
      cases d.hdx <;> trivial
    · rcases lib.enqueue_cases s.queue d with ⟨q, done, items, -⟩ | ⟨q, done, items, -⟩
      · simp only [done, Covered, items, List.length_append, List.length_singleton]
        omega
      · simp only [done, Covered, items]
        omega
  | markTx => simp [workerStep, pc, Covered]
  | clearPowerup => simp [workerStep, pc, Covered]

/-- The worker never takes from an empty queue. -/
theorem scan_finds_frames (cfg : Settings) (strip : CspPacket → List UInt8 → CspPacket)
    (rule : Rule.CiDropRule) (mtu overhead : UInt16) (logs : Bool) (junk : CspPacket)
    (events : List Event) {i count : Nat} (more : i < count) :
    let s := after (brokerStep lib cfg strip) (brokerStart lib rule mtu overhead logs junk) events
    s.workerPc = .scan i count → lib.items s.queue ≠ [] := by
  intro s pc empty
  have covered : Covered lib s := by
    apply after_invariant (Covered lib)
    · intro s e h
      cases e with
      | recv frame randDelay =>
        simp only [brokerStep]
        split
        · exact h.grow rfl (Nat.le_refl _)
        · exact h
      | main now =>
        obtain ⟨pc, grows⟩ := mainStep_grows lib cfg strip s now
        exact h.grow pc grows
      | worker now =>
        simp only [brokerStep]
        split
        · exact workerStep_covered lib now h
        · exact h
    · trivial
  simp only [Covered, pc, empty, List.length_nil] at covered
  omega

end

/-- A queue that is a list. -/
def listQueue : CspQueue (List DelayedMsg) DelayedMsg delayQueueLength where
  items q := q
  create := []
  size q := q.length
  enqueue q d := if q.length < delayQueueLength then (q ++ [d], true) else (q, false)
  dequeue q := (q.tail, q.head?)
  create_empty := rfl
  size_eq _ := rfl
  enqueue_room q d room := by simp [room]
  enqueue_full q d full := by simp [full]
  dequeue_first _ := rfl
  dequeue_rest _ := rfl

section

variable (q : List DelayedMsg)

@[simp] theorem listQueue_items : listQueue.items q = q := rfl

@[simp] theorem listQueue_size : listQueue.size q = q.length := rfl

@[simp] theorem listQueue_dequeue : listQueue.dequeue q = (q.tail, q.head?) := rfl

@[simp] theorem listQueue_enqueue (d : DelayedMsg) : listQueue.enqueue q d =
    if q.length < delayQueueLength then (q ++ [d], true) else (q, false) := rfl

@[simp] theorem listQueue_create : listQueue.create = [] := rfl

end

/-- What the main loop does with a frame that is delayed, in legacy mode. -/
def delays (x : RawFrame) : List Event := [.recv x true, .main 0, .main 0, .main 0]

section

variable {cfg : Settings} {strip : CspPacket → List UInt8 → CspPacket}

/-- It goes to the end of the queue, if there is room. -/
theorem delayed_is_queued (plain : cfg.hdxNode = 0) (delaying : 0 < cfg.delayProb) {x : RawFrame}
    (kept : x.randDrop = false) {s : Broker (List DelayedMsg)} (poll : s.mainPc = .poll)
    (legacy : s.loop.globals.gRule.matchDport < 0) (room : s.queue.length < delayQueueLength) :
    after (brokerStep listQueue cfg strip) s (delays x) = { s with
      queue := s.queue ++ [⟨⟨s.received.length, x.bytes⟩, 0 + cfg.delayMs.toUInt32, false⟩]
      received := s.received ++ [⟨s.received.length, x.bytes⟩] } := by
  have open_ : ¬ 0 ≤ s.loop.globals.gRule.matchDport := by omega
  simp [after, delays, brokerStep, poll, mainStep, plain, dropDecision, open_, kept, delaying, room,
    Received.msg]

/-- `n` such frames fill `n` slots and change nothing else but the list of arrivals. -/
theorem delayed_are_queued (plain : cfg.hdxNode = 0) (delaying : 0 < cfg.delayProb) {x : RawFrame}
    (kept : x.randDrop = false) (n : Nat) {s : Broker (List DelayedMsg)} (poll : s.mainPc = .poll)
    (legacy : s.loop.globals.gRule.matchDport < 0) (room : s.queue.length + n ≤ delayQueueLength) :
    ∃ queue received, queue.length = n ∧ received.length = n ∧
      (∀ d ∈ queue, d.timestampTx = 0 + cfg.delayMs.toUInt32) ∧
      after (brokerStep listQueue cfg strip) s (List.replicate n (delays x)).flatten =
        { s with queue := s.queue ++ queue, received := s.received ++ received } := by
  induction n generalizing s with
  | zero => exact ⟨[], [], rfl, rfl, by simp, by simp⟩
  | succ n ih =>
    have one := @delayed_is_queued cfg strip plain delaying x kept s poll legacy (by omega)
    obtain ⟨queue, received, hqueue, hreceived, due, rest⟩ := @ih
      (after (brokerStep listQueue cfg strip) s (delays x)) (by simp only [one, poll])
      (by simpa only [one] using legacy) (by
        simp only [one, List.length_append, List.length_singleton]
        omega)
    refine ⟨⟨⟨s.received.length, x.bytes⟩, 0 + cfg.delayMs.toUInt32, false⟩ :: queue,
      ⟨s.received.length, x.bytes⟩ :: received, congrArg (· + 1) hqueue,
      congrArg (· + 1) hreceived, by simpa using due, ?_⟩
    simp only [List.replicate_succ, List.flatten_cons, after_append, rest]
    simp only [one, List.append_assoc, List.singleton_append]

end

/-- Every frame delayed by nothing, in legacy mode without loss. -/
def delayAll : Settings where
  version2 := true
  hdxNode := 0
  hdxPowerupDelay := 30
  hdxPowerdownDelay := 100
  delayProb := 1
  delayMs := 0

/-- Half duplex towards node 20. -/
def towards20 : Settings where
  version2 := true
  hdxNode := 20
  hdxPowerupDelay := 30
  hdxPowerdownDelay := 100
  delayProb := 0
  delayMs := 0

/-- The start of the runs below. -/
def legacyStart : Broker (List DelayedMsg) :=
  brokerStart listQueue (proxyRule 1 (-1) false 0) 200 4 false blankPacket

/-- The worker takes the first of 1024 frames, one more fills the slot, and the worker puts
its frame back. -/
def refilled : Broker (List DelayedMsg) :=
  after (brokerStep listQueue delayAll cspId2Strip) legacyStart
    ((List.replicate 1024 (delays bulkFrame)).flatten ++ [.worker 0, .worker 0] ++
      delays bulkFrame ++ [.worker 0])

theorem refilled_loses_one : refilled.received.length = 1025 ∧
    (refilled.waiting listQueue).length = 1024 ∧ refilled.sent = [] ∧ refilled.counted = 0 := by
  have legacy : legacyStart.loop.globals.gRule.matchDport < 0 := by decide
  have runs : workerRuns delayAll = true := by decide
  obtain ⟨queue, received, hqueue, hreceived, _, filled⟩ := @delayed_are_queued delayAll
    cspId2Strip rfl (by decide) bulkFrame rfl 1024 legacyStart rfl legacy (by decide)
  obtain ⟨d, rest, rfl⟩ := List.exists_cons_of_length_eq_add_one hqueue
  have hrest : rest.length = 1023 := Nat.succ.inj hqueue
  have taken : after (brokerStep listQueue delayAll cspId2Strip) { legacyStart with
        queue := legacyStart.queue ++ d :: rest, received := legacyStart.received ++ received }
      [.worker 0, .worker 0] =
      { legacyStart with queue := rest, received := received, workerPc := .holding 0 1024 d } := by
    simp [after, brokerStep, runs, workerStep, legacyStart, brokerStart, hrest]
  have full := @delayed_is_queued delayAll cspId2Strip rfl (by decide) bulkFrame rfl
    { legacyStart with queue := rest, received := received, workerPc := .holding 0 1024 d }
    rfl legacy (by simp only [hrest]; decide)
  simp only [refilled, after_append, filled, taken, full]
  simp [after, brokerStep, runs, workerStep, delayQueueLength, legacyStart, brokerStart,
    loopStart, proxyStart, Broker.waiting, Broker.counted, hrest, hreceived]

/-- A frame that was delayed is sent, and one the half-duplex node does not hear is lost; no
counter tells of either. A frame that is put back into the full queue is gone. -/
theorem slipped_frames_are_uncounted :
    let delayed := after (brokerStep listQueue delayAll cspId2Strip) legacyStart
      (delays bulkFrame ++ [.worker 0, .worker 0, .worker 1])
    let unheard := after (brokerStep listQueue towards20 cspId2Strip) legacyStart
      [.recv bulkFrame false, .main 50, .main 50, .main 50]
    (delayed.sent = [⟨0, bulkFrame.bytes⟩] ∧ delayed.counted = 0 ∧ ¬ Accounted listQueue delayed) ∧
    (unheard.discarded = [⟨0, bulkFrame.bytes⟩] ∧ unheard.counted = 0 ∧
      ¬ Accounted listQueue unheard) ∧
    (refilled.received.length = 1025 ∧ (refilled.waiting listQueue).length = 1024 ∧
      refilled.sent = [] ∧ refilled.counted = 0 ∧ ¬ Accounted listQueue refilled) := by
  obtain ⟨received, waiting, sent, counted⟩ := refilled_loses_one
  refine ⟨⟨by decide +kernel, by decide +kernel, ?_⟩, ⟨by decide +kernel, by decide +kernel, ?_⟩,
    received, waiting, sent, counted, ?_⟩
  · intro account
    exact absurd account.balanced (by decide +kernel)
  · intro account
    exact absurd account.balanced (by decide +kernel)
  · intro account
    have balanced := account.balanced
    omega

end CspLinksim.Proxy
