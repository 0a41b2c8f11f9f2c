import CspLinksim.Rule
import CspLinksim.Meas

/-!
# The windows of the monitor (`csp_monitor_apm.c`)

`mon_drainer` reads two 8-bit counters that other threads increment, each of them once
to close a window and once more, after the row is out, to open the next. An increment
may come between any two steps. The rows of the packets and the round-trip times do not
bear on the windows and are left out.
-/

namespace CspLinksim.Monitor

open Runs Packet Rule Meas

/-- A counter of libcsp and the drainer's copy of it. What the drainer cannot know is how far
the counter had come, without wrap, at three of its reads. -/
structure Counter where
  reg : UInt8
  prev : UInt8
  count : Nat
  first : Nat
  closed : Nat
  prevAt : Nat
  deriving DecidableEq

/-- A closing read: the delta in the row, and the counts it stands between. -/
structure Reading where
  delta : UInt8
  since : Nat
  prevAt : Nat
  upto : Nat
  deriving DecidableEq

namespace Counter

def increment (c : Counter) : Counter := { c with reg := c.reg + 1, count := c.count + 1 }

/-- `prev = csp_dbg_…` before the first window. -/
def initial (c : Counter) : Counter :=
  { c with prev := c.reg, first := c.count, closed := c.count, prevAt := c.count }

/-- `ci_u8_delta(prev, csp_dbg_…)`. -/
def close (c : Counter) : Reading := ⟨ciU8Delta c.prev c.reg, c.closed, c.prevAt, c.count⟩

/-- `prev = csp_dbg_…` after the row of the window that `r` closed. -/
def reread (c : Counter) (r : Reading) : Counter :=
  { c with prev := c.reg, closed := r.upto, prevAt := c.count }

end Counter

/-- A `#WINDOW` row. -/
structure WindowRow where
  tMs : UInt32
  connOvfDelta : UInt8
  bufferOutDelta : UInt8
  bufferRemaining : Int
  inferredLoss : Nat
  dups : Nat
  reorders : Nat
  suspect : Bool
  suspectFlags : UInt32
  deriving DecidableEq

/-- A reported window: its row and the two readings behind it. -/
structure Window where
  row : WindowRow
  ovf : Reading
  bout : Reading
  deriving DecidableEq

structure Settings where
  matchDport : Int
  windowMs : UInt32
  bufferLowWater : Int

/-- The next read or write of the drainer. -/
inductive DrainPc where
  | initOvf
  | initBout
  | loop
  | closeOvf (now : UInt32)
  | closeBout (now : UInt32) (ovf : Reading)
  | report (now : UInt32) (ovf bout : Reading)
  | rereadOvf (now : UInt32) (ovf bout : Reading)
  | rereadBout (now : UInt32) (bout : Reading)
  deriving DecidableEq

structure Drainer where
  connOvf : Counter
  bufferOut : Counter
  windowStart : UInt32
  monSeq : CiSeqTracker
  monLossSuspectWindows : Nat
  pc : DrainPc
  windows : List Window
  deriving DecidableEq

/-- Another thread loses a packet, or the drainer takes its next step: what `csp_promisc_read`
hands it, the clock and `csp_buffer_remaining` there. -/
inductive Event where
  | connOvf
  | bufferOut
  | drain (pk : Option CspPacket) (now : UInt32) (remaining : Int)

section

variable (cfg : Settings)

/-- The part of a captured packet that the windows depend on. -/
def feedPacket (t : CiSeqTracker) (pk : CspPacket) : CiSeqTracker :=
  if cfg.matchDport < 0 ∨ pk.dport = UInt16.ofInt cfg.matchDport then
    if (frameOf pk).isRdp then
      match ciRdpParseTrailer pk.data pk.flags with
      | some h => (ciSeqTrackerFeed t h.seq).1
      | none => t
    else t
  else t

/-- The row of a window, from its health to the loss-trust guard. -/
def windowRow (t : CiSeqTracker) (now : UInt32) (remaining : Int) (ovf bout : UInt8) : WindowRow :=
  let hw : CiWindowHealth := ⟨ovf, bout, remaining, cfg.bufferLowWater⟩
  let (flags, suspect) := ciMeasurementSuspect hw
  let (flags, suspect) :=
    if ¬ ciLossTrustworthy t then (flags ||| ciSuspectSparseSeq, true) else (flags, suspect)
  { tMs := now
    connOvfDelta := hw.connOvfDelta
    bufferOutDelta := hw.bufferOutDelta
    bufferRemaining := hw.bufferRemaining
    inferredLoss := ciSeqTrackerLoss t
    dups := t.nDup
    reorders := t.nReorder
    suspect := suspect
    suspectFlags := flags }

def monDrainer (s : Drainer) (pk : Option CspPacket) (now : UInt32) (remaining : Int) : Drainer :=
  match s.pc with
  | .initOvf => { s with connOvf := s.connOvf.initial, pc := .initBout }
  | .initBout => { s with bufferOut := s.bufferOut.initial, windowStart := now, pc := .loop }
  | .loop =>
    let t := match pk with
      | some pk => feedPacket cfg s.monSeq pk
      | none => s.monSeq
    { s with
      monSeq := t
      pc := if cfg.windowMs ≤ now - s.windowStart then .closeOvf now else .loop }
  | .closeOvf now => { s with pc := .closeBout now s.connOvf.close }
  | .closeBout now ovf => { s with pc := .report now ovf s.bufferOut.close }
  | .report now ovf bout =>
    { s with
      windows := s.windows ++
        [⟨windowRow cfg s.monSeq now remaining ovf.delta bout.delta, ovf, bout⟩]
      monLossSuspectWindows := if ¬ ciLossTrustworthy s.monSeq then s.monLossSuspectWindows + 1
        else s.monLossSuspectWindows
      pc := .rereadOvf now ovf bout }
  | .rereadOvf now ovf bout =>
      { s with connOvf := s.connOvf.reread ovf, pc := .rereadBout now bout }
  | .rereadBout now bout =>
    { s with bufferOut := s.bufferOut.reread bout, windowStart := now, pc := .loop }

def monStep (s : Drainer) : Event → Drainer
  | .connOvf => { s with connOvf := s.connOvf.increment }
  | .bufferOut => { s with bufferOut := s.bufferOut.increment }
  | .drain pk now remaining => monDrainer cfg s pk now remaining

end

/-- A counter before the drainer starts, at any value. -/
def Counter.start (reg : UInt8) : Counter where
  reg := reg
  prev := reg
  count := reg.toNat
  first := reg.toNat
  closed := reg.toNat
  prevAt := reg.toNat

def monStart (connOvf bufferOut : UInt8) : Drainer where
  connOvf := .start connOvf
  bufferOut := .start bufferOut
  windowStart := 0
  monSeq := ciSeqTrackerInit
  monLossSuspectWindows := 0
  pc := .initOvf
  windows := []

/-- The delta is what the counter did since the drainer last copied it. -/
structure Reading.Sound (r : Reading) : Prop where
  delta : r.delta = UInt8.ofNat r.upto - UInt8.ofNat r.prevAt
  since_le : r.since ≤ r.prevAt
  prevAt_le : r.prevAt ≤ r.upto

/-- The delta is what the counter did since it last closed a window. -/
def Reading.Exact (r : Reading) : Prop := r.delta.toNat = r.upto - r.since

/-- The counter stood still between the read that closed the window before and the copy. -/
def Reading.Unbroken (r : Reading) : Prop := r.prevAt = r.since

theorem Reading.Sound.exact_iff {r : Reading} (h : r.Sound) (few : r.upto - r.since < 256) :
    r.Exact ↔ r.Unbroken := by
  have copied : r.delta.toNat = r.upto - r.prevAt := by
    have small : (r.upto - r.prevAt) % 256 = r.upto - r.prevAt := by
      have := h.since_le
      omega
    rw [h.delta, ← UInt8.ofNat_sub h.prevAt_le]
    simpa using small
  have := h.since_le
  have := h.prevAt_le
  simp only [Exact, Unbroken, copied]
  omega

/-- What is known of a counter, of the reading in hand and of the readings behind the rows. -/
structure Tallied (c : Counter) (held : Option Reading) (rows : List Reading) (upto : Nat) :
    Prop where
  reg : c.reg = UInt8.ofNat c.count
  prev : c.prev = UInt8.ofNat c.prevAt
  closed_le : c.closed ≤ c.prevAt
  prevAt_le : c.prevAt ≤ c.count
  inHand : ∀ r ∈ held, r.Sound ∧ r.since = c.closed ∧ r.upto ≤ c.count
  behind : ∀ r ∈ rows, r.Sound
  last : (rows.getLast?.map Reading.upto).getD c.first = upto
  sum : c.first + (rows.map fun r => r.upto - r.since).sum = upto

section

variable {c : Counter} {held : Option Reading} {rows : List Reading} {upto : Nat} {r : Reading}

theorem Tallied.increment (h : Tallied c held rows upto) :
    Tallied c.increment held rows upto where
  reg := by simp only [Counter.increment, h.reg, UInt8.ofNat_add, UInt8.ofNat_one]
  prev := h.prev
  closed_le := h.closed_le
  prevAt_le := Nat.le_succ_of_le h.prevAt_le
  inHand := by
    intro r hr
    obtain ⟨sound, since, upto⟩ := h.inHand r hr
    exact ⟨sound, since, Nat.le_succ_of_le upto⟩
  behind := h.behind
  last := h.last
  sum := h.sum

theorem Tallied.initial (h : Tallied c none [] upto) : Tallied c.initial none [] c.count where
  reg := h.reg
  prev := h.reg
  closed_le := Nat.le_refl _
  prevAt_le := Nat.le_refl _
  inHand := by simp
  behind := by simp
  last := rfl
  sum := rfl

theorem Tallied.close (h : Tallied c none rows upto) : Tallied c (some c.close) rows upto where
  reg := h.reg
  prev := h.prev
  closed_le := h.closed_le
  prevAt_le := h.prevAt_le
  inHand := by
    intro r hr
    cases hr
    refine ⟨⟨?_, h.closed_le, h.prevAt_le⟩, rfl, Nat.le_refl _⟩
    simp only [Counter.close, ciU8Delta, h.reg, h.prev]
  behind := h.behind
  last := h.last
  sum := h.sum

theorem Tallied.report (h : Tallied c (some r) rows c.closed) :
    Tallied c (some r) (rows ++ [r]) r.upto where
  reg := h.reg
  prev := h.prev
  closed_le := h.closed_le
  prevAt_le := h.prevAt_le
  inHand := h.inHand
  behind := by
    intro q hq
    rcases List.mem_append.mp hq with old | new
    · exact h.behind q old
    · exact List.mem_singleton.mp new ▸ (h.inHand r rfl).1
  last := by simp
  sum := by
    obtain ⟨sound, since, _⟩ := h.inHand r rfl
    have before := h.sum
    have := sound.since_le
    have := sound.prevAt_le
    simp only [List.map_append, List.map_singleton, List.sum_append, List.sum_singleton]
    omega

theorem Tallied.reread (h : Tallied c (some r) rows r.upto) :
    Tallied (c.reread r) none rows r.upto where
  reg := h.reg
  prev := h.reg
  closed_le := (h.inHand r rfl).2.2
  prevAt_le := Nat.le_refl _
  inHand := by simp
  behind := h.behind
  last := h.last
  sum := h.sum

end

theorem Tallied.start (reg : UInt8) : Tallied (.start reg) none [] reg.toNat where
  reg := by simp [Counter.start]
  prev := by simp [Counter.start]
  closed_le := Nat.le_refl _
  prevAt_le := Nat.le_refl _
  inHand := by simp
  behind := by simp
  last := rfl
  sum := rfl

def DrainPc.ovf? : DrainPc → Option Reading
  | .closeBout _ r | .report _ r _ | .rereadOvf _ r _ => some r
  | _ => none

def DrainPc.bout? : DrainPc → Option Reading
  | .report _ _ r | .rereadOvf _ _ r | .rereadBout _ r => some r
  | _ => none

/-- How far the rows account for the counter. -/
def ovfUpto (s : Drainer) : Nat :=
  match s.pc with
  | .rereadOvf _ r _ => r.upto
  | _ => s.connOvf.closed

def boutUpto (s : Drainer) : Nat :=
  match s.pc with
  | .rereadOvf _ _ r | .rereadBout _ r => r.upto
  | _ => s.bufferOut.closed

/-- The row has the deltas of its readings, and one that is not zero makes it suspect. -/
structure Window.Written (w : Window) : Prop where
  ovf : w.row.connOvfDelta = w.ovf.delta
  bout : w.row.bufferOutDelta = w.bout.delta
  suspect : 0 < w.ovf.delta ∨ 0 < w.bout.delta → w.row.suspect = true

/-- What is known of a counter passes from each read of the drainer to the next. -/
structure Carried (P : Counter → Option Reading → List Reading → Nat → Prop) : Prop where
  initial : ∀ {c upto}, P c none [] upto → P c.initial none [] c.count
  close : ∀ {c rows upto}, P c none rows upto → P c (some c.close) rows upto
  report : ∀ {c : Counter} {rows r}, P c (some r) rows c.closed → P c (some r) (rows ++ [r]) r.upto
  reread : ∀ {c rows r}, P c (some r) rows r.upto → P (c.reread r) none rows r.upto

/-- It is known of both counters, and the rows are written. -/
structure Drained (P : Counter → Option Reading → List Reading → Nat → Prop) (s : Drainer) :
    Prop where
  ovf : P s.connOvf s.pc.ovf? (s.windows.map Window.ovf) (ovfUpto s)
  bout : P s.bufferOut s.pc.bout? (s.windows.map Window.bout) (boutUpto s)
  written : ∀ w ∈ s.windows, w.Written
  fresh : s.pc = .initOvf ∨ s.pc = .initBout → s.windows = []

theorem windowRow_written (cfg : Settings) (t : CiSeqTracker) (now : UInt32) (remaining : Int)
    (ovf bout : Reading) :
    Window.Written ⟨windowRow cfg t now remaining ovf.delta bout.delta, ovf, bout⟩ := by
  have flagged : 0 < ovf.delta ∨ 0 < bout.delta →
      (ciMeasurementSuspect ⟨ovf.delta, bout.delta, remaining, cfg.bufferLowWater⟩).2 = true := by
    intro h
    simp only [ciMeasurementSuspect, ne_eq, decide_not, Bool.not_eq_true', decide_eq_false_iff_not]
    rcases h with h | h <;> simp only [h, if_true] <;> split <;> split <;> decide
  by_cases dense : ciLossTrustworthy t = true
  · exact ⟨by simp [windowRow, dense], by simp [windowRow, dense], by simpa [windowRow, dense]⟩
  · exact ⟨by simp [windowRow, dense], by simp [windowRow, dense], by simp [windowRow, dense]⟩

section

variable (cfg : Settings) {s : Drainer} {P : Counter → Option Reading → List Reading → Nat → Prop}

theorem Drained.drain (carried : Carried P) (h : Drained P s) (pk : Option CspPacket)
    (now : UInt32) (remaining : Int) : Drained P (monDrainer cfg s pk now remaining) := by
  obtain ⟨ovf, bout, written, fresh⟩ := h
  cases pc : s.pc with
  | initOvf =>
    simp only [pc, DrainPc.ovf?, DrainPc.bout?, ovfUpto, boutUpto, fresh (.inl pc)] at ovf bout
    simp only [monDrainer, pc]
    refine ⟨?_, ?_, written, fun _ => fresh (.inl pc)⟩
    · simp only [fresh (.inl pc)]
      exact carried.initial ovf
    · simp only [fresh (.inl pc)]
      exact bout
  | initBout =>
    simp only [pc, DrainPc.ovf?, DrainPc.bout?, ovfUpto, boutUpto, fresh (.inr pc)] at ovf bout
    simp only [monDrainer, pc]
    refine ⟨?_, ?_, written, by simp⟩
    · simp only [fresh (.inr pc)]
      exact ovf
    · simp only [fresh (.inr pc)]
      exact carried.initial bout
  | loop =>
    simp only [pc, DrainPc.ovf?, DrainPc.bout?, ovfUpto, boutUpto] at ovf bout
    simp only [monDrainer, pc]
    by_cases elapsed : cfg.windowMs ≤ now - s.windowStart
    · simp only [if_pos elapsed]
      exact ⟨ovf, bout, written, by simp⟩
    · simp only [if_neg elapsed]
      exact ⟨ovf, bout, written, by simp⟩
  | closeOvf at_ =>
    simp only [pc, DrainPc.ovf?, DrainPc.bout?, ovfUpto, boutUpto] at ovf bout
    simp only [monDrainer, pc]
    exact ⟨carried.close ovf, bout, written, by simp⟩
  | closeBout at_ r =>
    simp only [pc, DrainPc.ovf?, DrainPc.bout?, ovfUpto, boutUpto] at ovf bout
    simp only [monDrainer, pc]
    exact ⟨ovf, carried.close bout, written, by simp⟩
  | report at_ r q =>
    simp only [pc, DrainPc.ovf?, DrainPc.bout?, ovfUpto, boutUpto] at ovf bout
    simp only [monDrainer, pc]
    refine ⟨?_, ?_, ?_, by simp⟩
    · simp only [List.map_append, List.map_singleton]
      exact carried.report ovf
    · simp only [List.map_append, List.map_singleton]
      exact carried.report bout
    · intro w hw
      rcases List.mem_append.mp hw with old | new
      · exact written w old
      · exact List.mem_singleton.mp new ▸ windowRow_written cfg s.monSeq at_ remaining r q
  | rereadOvf at_ r q =>
    simp only [pc, DrainPc.ovf?, DrainPc.bout?, ovfUpto, boutUpto] at ovf bout
    simp only [monDrainer, pc]
    exact ⟨carried.reread ovf, bout, written, by simp⟩
  | rereadBout at_ q =>
    simp only [pc, DrainPc.ovf?, DrainPc.bout?, ovfUpto, boutUpto] at ovf bout
    simp only [monDrainer, pc]
    exact ⟨ovf, carried.reread bout, written, by simp⟩

end

theorem tallied_carried : Carried Tallied where
  initial := Tallied.initial
  close := Tallied.close
  report := Tallied.report
  reread := Tallied.reread

theorem drained (cfg : Settings) (connOvf bufferOut : UInt8) (events : List Event) :
    Drained Tallied (after (monStep cfg) (monStart connOvf bufferOut) events) := by
  apply after_invariant (Drained Tallied)
  · intro s e h
    cases e with
    | connOvf => exact ⟨h.ovf.increment, h.bout, h.written, h.fresh⟩
    | bufferOut => exact ⟨h.ovf, h.bout.increment, h.written, h.fresh⟩
    | drain pk now remaining => exact h.drain cfg tallied_carried pk now remaining
  · exact ⟨.start connOvf, .start bufferOut, by simp [monStart], fun _ => rfl⟩

/-- Every increment between the first read and the closing read of the last row is in the
delta of one row, and a window with one is suspect. -/
structure Reported (s : Drainer) : Prop where
  ovf : ∀ w ∈ s.windows, w.row.connOvfDelta.toNat = w.ovf.upto - w.ovf.since
  bout : ∀ w ∈ s.windows, w.row.bufferOutDelta.toNat = w.bout.upto - w.bout.since
  ovfSum : s.connOvf.first + (s.windows.map fun w => w.row.connOvfDelta.toNat).sum =
    (s.windows.getLast?.map fun w => w.ovf.upto).getD s.connOvf.first
  boutSum : s.bufferOut.first + (s.windows.map fun w => w.row.bufferOutDelta.toNat).sum =
    (s.windows.getLast?.map fun w => w.bout.upto).getD s.bufferOut.first
  flagged : ∀ w ∈ s.windows, w.ovf.since < w.ovf.upto ∨ w.bout.since < w.bout.upto →
    w.row.suspect = true

/-- Deltas that are exact add up. -/
theorem Tallied.total {c : Counter} {held : Option Reading} {upto : Nat} {windows : List Window}
    {reading : Window → Reading} {delta : Window → UInt8}
    (h : Tallied c held (windows.map reading) upto)
    (exact_ : ∀ w ∈ windows, (delta w).toNat = (reading w).upto - (reading w).since) :
    c.first + (windows.map fun w => (delta w).toNat).sum =
      (windows.getLast?.map fun w => (reading w).upto).getD c.first := by
  have same : windows.map (fun w => (delta w).toNat) =
      windows.map (fun w => (reading w).upto - (reading w).since) :=
    List.map_congr_left exact_
  have last := h.last
  have sum := h.sum
  simp only [List.getLast?_map, Option.map_map, List.map_map, Function.comp_def] at last sum
  rw [same, sum, ← last]

theorem Drained.reported_iff {s : Drainer} (h : Drained Tallied s)
    (few : ∀ w ∈ s.windows, w.ovf.upto - w.ovf.since < 256 ∧ w.bout.upto - w.bout.since < 256) :
    Reported s ↔ ∀ w ∈ s.windows, w.ovf.Unbroken ∧ w.bout.Unbroken := by
  have ovf : ∀ w ∈ s.windows, w.row.connOvfDelta.toNat = w.ovf.upto - w.ovf.since ↔
      w.ovf.Unbroken := by
    intro w hw
    rw [(h.written w hw).ovf]
    exact (h.ovf.behind _ (List.mem_map_of_mem hw)).exact_iff (few w hw).1
  have bout : ∀ w ∈ s.windows, w.row.bufferOutDelta.toNat = w.bout.upto - w.bout.since ↔
      w.bout.Unbroken := by
    intro w hw
    rw [(h.written w hw).bout]
    exact (h.bout.behind _ (List.mem_map_of_mem hw)).exact_iff (few w hw).2
  constructor
  · intro reported w hw
    exact ⟨(ovf w hw).mp (reported.ovf w hw), (bout w hw).mp (reported.bout w hw)⟩
  · intro unbroken
    have ovf' := fun w hw => (ovf w hw).mpr (unbroken w hw).1
    have bout' := fun w hw => (bout w hw).mpr (unbroken w hw).2
    refine ⟨ovf', bout', h.ovf.total ovf', h.bout.total bout', ?_⟩
    intro w hw busy
    have counted : ∀ (delta : UInt8) (n : Nat), delta.toNat = n → 0 < n → 0 < delta := by
      intro delta n hn pos
      exact UInt8.lt_iff_toNat_lt.mpr (hn ▸ pos)
    have written := h.written w hw
    apply written.suspect
    rcases busy with busy | busy
    · exact .inl (counted _ _ (written.ovf ▸ ovf' w hw) (by omega))
    · exact .inr (counted _ _ (written.bout ▸ bout' w hw) (by omega))

/-- A counter does not move while a reading of it is in the drainer's hands. -/
def Still (s : Drainer) : Event → Prop
  | .connOvf => s.pc.ovf? = none
  | .bufferOut => s.pc.bout? = none
  | .drain _ _ _ => True

/-- What that gives for one counter. -/
structure Calm (c : Counter) (held : Option Reading) (rows : List Reading) (_ : Nat) : Prop where
  copy : held = none → c.prevAt = c.closed
  inHand : ∀ r ∈ held, r.Unbroken ∧ r.upto = c.count
  behind : ∀ r ∈ rows, r.Unbroken

theorem Calm.increment {c : Counter} {held : Option Reading} {rows : List Reading} {upto : Nat}
    (h : Calm c held rows upto) (free : held = none) : Calm c.increment held rows upto :=
  ⟨h.copy, by simp [free], h.behind⟩

theorem calm_carried : Carried Calm where
  initial := fun h => ⟨fun _ => rfl, by simp, h.behind⟩
  close := by
    intro c rows upto h
    refine ⟨by simp, ?_, h.behind⟩
    intro r hr
    cases hr
    exact ⟨h.copy rfl, rfl⟩
  report := by
    intro c rows r h
    refine ⟨by simp, h.inHand, ?_⟩
    intro q hq
    rcases List.mem_append.mp hq with old | new
    · exact h.behind q old
    · exact List.mem_singleton.mp new ▸ (h.inHand r rfl).1
  reread := by
    intro c rows r h
    exact ⟨fun _ => (h.inHand r rfl).2.symm, by simp, h.behind⟩

theorem still_unbroken (cfg : Settings) (connOvf bufferOut : UInt8) (events : List Event)
    (still : Guarded (monStep cfg) Still (monStart connOvf bufferOut) events) :
    ∀ w ∈ (after (monStep cfg) (monStart connOvf bufferOut) events).windows,
      w.ovf.Unbroken ∧ w.bout.Unbroken := by
  have calm : Drained Calm (after (monStep cfg) (monStart connOvf bufferOut) events) := by
    apply guarded_invariant (Drained Calm) _ _ events still
    · intro s e h quiet
      cases e with
      | connOvf => exact ⟨h.ovf.increment quiet, h.bout, h.written, h.fresh⟩
      | bufferOut => exact ⟨h.ovf, h.bout.increment quiet, h.written, h.fresh⟩
      | drain pk now remaining => exact h.drain cfg calm_carried pk now remaining
    · exact ⟨⟨fun _ => rfl, by simp [monStart, DrainPc.ovf?], by simp [monStart]⟩,
        ⟨fun _ => rfl, by simp [monStart, DrainPc.bout?], by simp [monStart]⟩,
        by simp [monStart], fun _ => rfl⟩
  intro w hw
  exact ⟨calm.ovf.behind _ (List.mem_map_of_mem hw), calm.bout.behind _ (List.mem_map_of_mem hw)⟩

/-- The rows report every increment exactly if none falls between the read that closes a
reported window and the read that opens the next one. -/
theorem windows_report_iff (cfg : Settings) (connOvf bufferOut : UInt8) (events : List Event)
    (few : ∀ w ∈ (after (monStep cfg) (monStart connOvf bufferOut) events).windows,
      w.ovf.upto - w.ovf.since < 256 ∧ w.bout.upto - w.bout.since < 256) :
    (Reported (after (monStep cfg) (monStart connOvf bufferOut) events) ↔
      ∀ w ∈ (after (monStep cfg) (monStart connOvf bufferOut) events).windows,
        w.ovf.Unbroken ∧ w.bout.Unbroken) ∧
    (Guarded (monStep cfg) Still (monStart connOvf bufferOut) events →
      Reported (after (monStep cfg) (monStart connOvf bufferOut) events)) := by
  have iff := (drained cfg connOvf bufferOut events).reported_iff few
  exact ⟨iff, fun still => iff.mpr (still_unbroken cfg connOvf bufferOut events still)⟩

/-- Any port, windows of a second. -/
def anyPort : Settings := ⟨-1, 1000, 100⟩

/-- The drainer's steps through one window, up to the read that closes `connOvf` included. -/
def untilClosed (now : UInt32) : List Event := List.replicate 2 (.drain none now 500)

/-- The rest of the window: the other read, the row and the two reads that open the next. -/
def untilOpen (now : UInt32) : List Event := List.replicate 4 (.drain none now 500)

/-- The first reads, and a window in which the counter that stands at 255 wraps. -/
def wrappingWindow : List Event :=
  untilClosed 0 ++ [.connOvf, .connOvf] ++ untilClosed 1000 ++ untilOpen 1000

theorem wrapping_window_is_reported :
    (Reported (after (monStep anyPort) (monStart 255 0) wrappingWindow) ↔
      ∀ w ∈ (after (monStep anyPort) (monStart 255 0) wrappingWindow).windows,
        w.ovf.Unbroken ∧ w.bout.Unbroken) ∧
    (Guarded (monStep anyPort) Still (monStart 255 0) wrappingWindow →
      Reported (after (monStep anyPort) (monStart 255 0) wrappingWindow)) :=
  windows_report_iff anyPort 255 0 wrappingWindow (by decide +kernel)

/-- A packet lost while the row is written is in no row: two clean windows report nothing. -/
theorem increment_behind_the_row_is_lost :
    let s := after (monStep anyPort) (monStart 0 0)
      (untilClosed 0 ++ untilClosed 1000 ++ [.connOvf] ++ untilOpen 1000 ++
        untilClosed 2000 ++ untilOpen 2000)
    s.windows.map (fun w => (w.row.connOvfDelta, w.row.bufferOutDelta, w.row.suspect)) =
      [(0, 0, false), (0, 0, false)] ∧ s.connOvf.count - s.connOvf.first = 1 ∧
    s.windows.map (fun w => (w.ovf.since, w.ovf.upto)) = [(0, 0), (0, 1)] ∧ ¬ Reported s := by
  refine ⟨by decide +kernel, by decide +kernel, by decide +kernel, ?_⟩
  intro reported
  exact absurd reported.ovfSum (by decide +kernel)

end CspLinksim.Monitor
