import CspLinksim.Rtt
import CspLinksim.Rule

/-!
# Round-trip times at the tap (`csp_monitor_apm.c`)

For each RDP frame `mon_drainer` records the number of the frame, if it takes it for data,
and looks for the frame that its ACK names. Beside the ring stands who wrote each slot, and
the list of all frames that were recorded with the marks of those that an ACK consumed.
-/

namespace CspLinksim.Tap

open Runs Window Packet Rule Rtt

/-- `mon_match_dport`, and the addresses of the own interfaces. -/
structure Settings where
  matchDport : Int
  ours : UInt16 → Bool

/-- The row of an RDP frame; the columns of the bulk ports are empty in it. -/
structure RdpRow where
  tMs : UInt32
  src : UInt16
  dst : UInt16
  dport : UInt16
  cspFlags : UInt8
  rdpFlags : UInt8
  rdpSeq : UInt16
  rdpAck : UInt16
  rttPaired : Bool
  rttMs : UInt32
  tx : Bool
  deriving DecidableEq

/-- A whole trailer in front of the pairing. -/
def rttData (p : CiRttPairing) (pk : CspPacket) (h : CiRdpHeader) (t : UInt32) : CiRttPairing :=
  if pk.data.length > ciRdpHeaderSize then ciRttOnData p h.seq t else p

/-- The RDP branch of `mon_drainer`; a frame of another kind has no RDP row. -/
def monDrainerRdp (cfg : Settings) (p : CiRttPairing) (pk : CspPacket) (t : UInt32) :
    CiRttPairing × Option RdpRow :=
  if cfg.matchDport < 0 ∨ pk.dport = UInt16.ofInt cfg.matchDport then
    if (frameOf pk).isRdp then
      let row : RdpRow :=
        { tMs := t, src := pk.src, dst := pk.dst, dport := pk.dport, cspFlags := pk.flags,
          rdpFlags := 0, rdpSeq := 0, rdpAck := 0, rttPaired := false, rttMs := 0,
          tx := cfg.ours pk.src }
      match ciRdpParseTrailer pk.data pk.flags with
      | some h =>
        let (p, rtt) := ciRttOnAck (rttData p pk h t) h.ack t
        (p, some { row with
          rdpFlags := h.flags, rdpSeq := h.seq, rdpAck := h.ack, rttPaired := rtt.isSome,
          rttMs := rtt.getD 0 })
      | none => (p, some row)
    else (p, none)
  else (p, none)

/-- A captured frame with its number in the capture. -/
structure Capture where
  no : Nat
  pk : CspPacket
  tMs : UInt32
  deriving DecidableEq

/-- The ring of the drainer, the frame that wrote each slot, the frames recorded as data
(newest first) with their records, and how many frames were captured. -/
structure Tapped where
  monRtt : CiRttPairing
  writer : Nat → Option Capture
  recorded : List Capture
  log : List Record
  seen : Nat

def Tapped.start : Tapped where
  monRtt := ciRttInit
  writer := fun _ => none
  recorded := []
  log := []
  seen := 0

section

variable (cfg : Settings)

/-- The trailer of a frame that the pairing sees. -/
def trailer (pk : CspPacket) : Option CiRdpHeader :=
  if cfg.matchDport < 0 ∨ pk.dport = UInt16.ofInt cfg.matchDport then
    if (frameOf pk).isRdp then ciRdpParseTrailer pk.data pk.flags else none
  else none

/-- The frame is recorded as data. -/
def Tapped.record (s : Tapped) (pk : CspPacket) (h : CiRdpHeader) (t : UInt32) : Tapped :=
  if pk.data.length > ciRdpHeaderSize then
    { s with
      monRtt := rttData s.monRtt pk h t
      writer := Function.update s.writer (ringIndex s.monRtt.head).val (some ⟨s.seen, pk, t⟩)
      recorded := ⟨s.seen, pk, t⟩ :: s.recorded
      log := ⟨h.seq, t, false⟩ :: s.log }
  else s

/-- The frame that wrote the slot at which the search for `ackNr` stops. -/
def Tapped.matched (s : Tapped) (ackNr : UInt16) : Option Capture :=
  (ackLoop s.monRtt ackNr 0 ciRttRing).bind fun i => s.writer i.val

/-- A captured frame, with the records beside the ring. -/
def tap (s : Tapped) (x : CspPacket × UInt32) : Tapped :=
  let s' := match trailer cfg x.1 with
    | some h =>
      let r := s.record x.1 h x.2
      { r with log := (recordStep r.log (.ack h.ack x.2)).1 }
    | none => s
  { s' with monRtt := (monDrainerRdp cfg s.monRtt x.1 x.2).1, seen := s.seen + 1 }

/-- The frame has a byte that is neither trailer nor CRC32. -/
def HasPayload (pk : CspPacket) : Prop :=
  ciRdpHeaderSize + (if pk.flags &&& ciCspFcrc32 ≠ 0 then ciCrc32Size else 0) < pk.data.length

instance (pk : CspPacket) : Decidable (HasPayload pk) := inferInstanceAs (Decidable (_ < _))

/-- What is to hold of a frame: if it is recorded it has payload, and if its row has a time
then the matched entry is an earlier frame with payload that was sent to this sender, and
the time is between the two captures. -/
structure PairedRightly (s : Tapped) (x : CspPacket × UInt32) : Prop where
  data : ∀ h, trailer cfg x.1 = some h → x.1.data.length > ciRdpHeaderSize → HasPayload x.1
  paired : ∀ h, trailer cfg x.1 = some h →
    ∀ row, (monDrainerRdp cfg s.monRtt x.1 x.2).2 = some row → row.rttPaired = true →
    ∃ y, (s.record x.1 h x.2).matched h.ack = some y ∧ y.no < s.seen ∧ HasPayload y.pk ∧
      y.pk.dst = x.1.src ∧ row.rttMs = x.2 - y.tMs

/-- A frame that is told apart rightly: no ACK of nine bytes with a CRC32, none that is
recorded and names itself, and the newest frame it can consume was sent to its sender. -/
structure Pairable (s : Tapped) (x : CspPacket × UInt32) : Prop where
  crc : ∀ h, trailer cfg x.1 = some h → x.1.flags &&& ciCspFcrc32 ≠ 0 → x.1.data.length ≠ 9
  other : ∀ h, trailer cfg x.1 = some h → x.1.data.length > ciRdpHeaderSize → h.seq ≠ h.ack
  back : ∀ h, trailer cfg x.1 = some h → ∀ k r y, Newest (s.record x.1 h x.2).log h.ack k r →
    (s.record x.1 h x.2).recorded[k]? = some y → y.pk.dst = x.1.src

end

/-- The ring stands for the records, its slots were written by the frames of the records,
and those came earlier. -/
structure Written (s : Tapped) : Prop where
  stands : Stands s.monRtt s.log
  writer : Ring.Holds ciRttRing s.writer (s.recorded.map some)
  times : s.log.map Record.tMs = s.recorded.map Capture.tMs

structure Inv (s : Tapped) : Prop where
  written : Written s
  earlier : ∀ y ∈ s.recorded, y.no < s.seen
  payload : ∀ y ∈ s.recorded, HasPayload y.pk

theorem Written.length {s : Tapped} (w : Written s) : s.log.length = s.recorded.length := by
  simpa only [List.length_map] using congrArg List.length w.times

theorem inv_start : Inv .start where
  written := ⟨stands_init, Ring.holds_nil ciRttRing, rfl⟩
  earlier := fun y hy => by cases hy
  payload := fun y hy => by cases hy

theorem record_monRtt (s : Tapped) (pk : CspPacket) (h : CiRdpHeader) (t : UInt32) :
    (s.record pk h t).monRtt = rttData s.monRtt pk h t := by
  by_cases data : pk.data.length > ciRdpHeaderSize
  · simp only [Tapped.record, if_pos data]
  · simp only [Tapped.record, rttData, if_neg data]

theorem Written.record {s : Tapped} (w : Written s) (pk : CspPacket) (h : CiRdpHeader)
    (t : UInt32) : Written (s.record pk h t) := by
  by_cases data : pk.data.length > ciRdpHeaderSize
  · simp only [Tapped.record, rttData, if_pos data]
    refine ⟨w.stands.onData h.seq t, ?_, ?_⟩
    · have next := w.writer.push ⟨s.seen, pk, t⟩
      rw [List.length_map, ← w.length] at next
      rw [w.stands.head, ringIndex_head]
      exact next
    · simp only [List.map_cons, w.times]
  · simp only [Tapped.record, if_neg data]
    exact w

/-- The slot at which the search stops was written by the frame of the newest record. -/
theorem Written.matched {s : Tapped} (w : Written s) {ackNr : UInt16} {k : Nat} {r : Record}
    (new : Newest s.log ackNr k r) :
    ∃ y, s.matched ackNr = some y ∧ s.recorded[k]? = some y ∧ y.tMs = r.tMs := by
  have found := ackLoop_newest w.stands ackNr
  rw [newest_eq_some.mpr ⟨r, new⟩] at found
  obtain ⟨i, stops, hi⟩ := Option.map_eq_some_iff.mp found
  have index : i.val = slotOf ciRttRing ((s.log.length : Int) - 1 - k) := hi
  obtain ⟨inside, hr⟩ := List.getElem?_eq_some_iff.mp new.place
  have slot := w.writer k new.recent
  rw [List.length_map, ← w.length, ← index, List.getElem?_map] at slot
  have inside' : k < s.recorded.length := w.length ▸ inside
  have place : s.recorded[k]? = some s.recorded[k] := List.getElem?_eq_getElem inside'
  have times := congrArg (·[k]?) w.times
  simp only [List.getElem?_map, new.place, place, Option.map_some] at times
  refine ⟨s.recorded[k], ?_, place, (Option.some.inj times).symm⟩
  rw [Tapped.matched, stops, Option.bind_some, slot, place]
  rfl

theorem drain_trailer {cfg : Settings} {pk : CspPacket} {h : CiRdpHeader}
    (whole : trailer cfg pk = some h) (p : CiRttPairing) (t : UInt32) :
    (monDrainerRdp cfg p pk t).1 = (ciRttOnAck (rttData p pk h t) h.ack t).1 ∧
    ∃ row, (monDrainerRdp cfg p pk t).2 = some row ∧
      row.rttPaired = (ciRttOnAck (rttData p pk h t) h.ack t).2.isSome ∧
      row.rttMs = (ciRttOnAck (rttData p pk h t) h.ack t).2.getD 0 := by
  by_cases port : cfg.matchDport < 0 ∨ pk.dport = UInt16.ofInt cfg.matchDport
  · by_cases rdp : (frameOf pk).isRdp = true
    · simp only [trailer, if_pos port, if_pos rdp] at whole
      simp only [monDrainerRdp, if_pos port, if_pos rdp, whole]
      exact ⟨True.intro, _, rfl, rfl, rfl⟩
    · simp only [trailer, if_pos port, if_neg rdp] at whole
      cases whole
  · simp only [trailer, if_neg port] at whole
    cases whole

theorem drain_no_trailer {cfg : Settings} {pk : CspPacket} (broken : trailer cfg pk = none)
    (p : CiRttPairing) (t : UInt32) : (monDrainerRdp cfg p pk t).1 = p := by
  by_cases port : cfg.matchDport < 0 ∨ pk.dport = UInt16.ofInt cfg.matchDport
  · by_cases rdp : (frameOf pk).isRdp = true
    · simp only [trailer, if_pos port, if_pos rdp] at broken
      simp only [monDrainerRdp, if_pos port, if_pos rdp, broken]
    · simp only [monDrainerRdp, if_pos port, if_neg rdp]
  · simp only [monDrainerRdp, if_neg port]

theorem Written.ack {s : Tapped} (w : Written s) (ackNr : UInt16) (t : UInt32) :
    Written { s with
      monRtt := (ciRttOnAck s.monRtt ackNr t).1
      log := (recordStep s.log (.ack ackNr t)).1 } := by
  have next := (stands_step w.stands (.ack ackNr t)).1
  refine ⟨next, w.writer, ?_⟩
  have same : (recordStep s.log (.ack ackNr t)).1.map Record.tMs = s.log.map Record.tMs := by
    simp only [recordStep]
    cases newest s.log ackNr with
    | none => rfl
    | some k =>
      apply List.ext_getElem?
      intro j
      simp only [List.getElem?_map, List.getElem?_modify]
      cases s.log[j]? with
      | none => rfl
      | some r => by_cases here : k = j <;> simp [here, Record.use]
  exact same.trans w.times

theorem tap_trailer {cfg : Settings} {s : Tapped} {x : CspPacket × UInt32} {h : CiRdpHeader}
    (whole : trailer cfg x.1 = some h) :
    tap cfg s x = { s.record x.1 h x.2 with
      monRtt := (ciRttOnAck (s.record x.1 h x.2).monRtt h.ack x.2).1
      log := (recordStep (s.record x.1 h x.2).log (.ack h.ack x.2)).1
      seen := s.seen + 1 } := by
  simp only [tap, whole, (drain_trailer whole s.monRtt x.2).1, record_monRtt]

theorem tap_no_trailer {cfg : Settings} {s : Tapped} {x : CspPacket × UInt32}
    (broken : trailer cfg x.1 = none) : tap cfg s x = { s with seen := s.seen + 1 } := by
  simp only [tap, broken, drain_no_trailer broken]

/-- The frames behind a frame: itself in front if it is recorded. -/
theorem record_recorded (s : Tapped) (pk : CspPacket) (h : CiRdpHeader) (t : UInt32) :
    (s.record pk h t).recorded =
      if pk.data.length > ciRdpHeaderSize then ⟨s.seen, pk, t⟩ :: s.recorded else s.recorded := by
  rw [Tapped.record]
  split <;> rfl

theorem inv_tap {cfg : Settings} {s : Tapped} {x : CspPacket × UInt32} (inv : Inv s)
    (data : ∀ h, trailer cfg x.1 = some h → x.1.data.length > ciRdpHeaderSize →
      HasPayload x.1) : Inv (tap cfg s x) := by
  cases whole : trailer cfg x.1 with
  | none =>
    rw [tap_no_trailer whole]
    exact ⟨⟨inv.written.stands, inv.written.writer, inv.written.times⟩,
      fun y hy => Nat.lt_succ_of_lt (inv.earlier y hy), inv.payload⟩
  | some h =>
    have w := (inv.written.record x.1 h x.2).ack h.ack x.2
    rw [tap_trailer whole]
    refine ⟨⟨w.stands, w.writer, w.times⟩, ?_, ?_⟩
    · intro y hy
      simp only [record_recorded] at hy
      split at hy
      · rcases List.mem_cons.mp hy with rfl | old
        · exact Nat.lt_succ_self s.seen
        · exact Nat.lt_succ_of_lt (inv.earlier y old)
      · exact Nat.lt_succ_of_lt (inv.earlier y hy)
    · intro y hy
      simp only [record_recorded] at hy
      split at hy
      · rename_i long
        rcases List.mem_cons.mp hy with rfl | old
        · exact data h whole long
        · exact inv.payload y old
      · exact inv.payload y hy

/-- The trailer of a frame with a CRC32 needs nine bytes. -/
theorem trailer_length {cfg : Settings} {pk : CspPacket} {h : CiRdpHeader}
    (whole : trailer cfg pk = some h) :
    ciRdpHeaderSize + (if pk.flags &&& ciCspFcrc32 ≠ 0 then ciCrc32Size else 0) ≤
      pk.data.length := by
  simp only [trailer] at whole
  split at whole
  · split at whole
    · by_contra short
      simp only [ciRdpParseTrailer, if_pos (Nat.lt_of_not_le short)] at whole
      cases whole
    · cases whole
  · cases whole

/-- A recorded frame lacks payload only as an ACK of nine bytes. -/
theorem payload_iff {cfg : Settings} {pk : CspPacket} {h : CiRdpHeader}
    (whole : trailer cfg pk = some h) (long : pk.data.length > ciRdpHeaderSize) :
    HasPayload pk ↔ (pk.flags &&& ciCspFcrc32 ≠ 0 → pk.data.length ≠ 9) := by
  have fits := trailer_length whole
  have size : ciRdpHeaderSize = 5 := rfl
  have crcSize : ciCrc32Size = 4 := rfl
  rw [HasPayload]
  by_cases crc : pk.flags &&& ciCspFcrc32 ≠ 0
  · rw [if_pos crc] at fits ⊢
    constructor
    · intro payload _
      omega
    · intro other
      have := other crc
      omega
  · rw [if_neg crc]
    constructor
    · intro _ contra
      exact absurd contra crc
    · intro _
      omega

/-- A recorded frame whose ACK is its own number is the newest one it can consume. -/
theorem newest_self {s : Tapped} {pk : CspPacket} {h : CiRdpHeader} {t : UInt32}
    (long : pk.data.length > ciRdpHeaderSize) (self : h.seq = h.ack) :
    Newest (s.record pk h t).log h.ack 0 ⟨h.seq, t, false⟩ := by
  simp only [Tapped.record, if_pos long]
  exact ⟨by decide, rfl, self, rfl, fun j hj => absurd hj (Nat.not_lt_zero j)⟩

/-- A frame that does not consume its own record consumes one that was there. -/
theorem newest_before {s : Tapped} {pk : CspPacket} {h : CiRdpHeader} {t : UInt32} {k : Nat}
    {r : Record} {y : Capture} (new : Newest (s.record pk h t).log h.ack k r)
    (other : pk.data.length > ciRdpHeaderSize → h.seq ≠ h.ack)
    (place : (s.record pk h t).recorded[k]? = some y) : y ∈ s.recorded := by
  have seq := new.seq
  have slot := new.place
  by_cases long : pk.data.length > ciRdpHeaderSize
  · simp only [Tapped.record, if_pos long] at place slot
    cases k with
    | zero =>
      cases slot
      exact absurd seq (other long)
    | succ j => exact List.mem_of_getElem? place
  · simp only [Tapped.record, if_neg long] at place
    exact List.mem_of_getElem? place

/-- A frame is paired rightly exactly if it is told apart. -/
theorem pairedRightly_iff (cfg : Settings) {s : Tapped} (x : CspPacket × UInt32) (inv : Inv s) :
    PairedRightly cfg s x ↔ Pairable cfg s x := by
  constructor
  · intro right
    refine ⟨?_, ?_, ?_⟩
    · intro h whole crc nine
      have long : x.1.data.length > ciRdpHeaderSize := by
        rw [nine]
        decide
      exact (payload_iff whole long).mp (right.data h whole long) crc nine
    all_goals
      intro h whole
      have w := inv.written.record x.1 h x.2
      obtain ⟨-, row, held, paired, -⟩ := drain_trailer whole s.monRtt x.2
      rw [← record_monRtt] at paired
    · intro long self
      have new := newest_self (s := s) (t := x.2) long self
      have answered := (onAck_newest w.stands x.2 new).1
      obtain ⟨y, matched, place, -⟩ := w.matched new
      rw [answered] at paired
      obtain ⟨y', matched', earlier, -⟩ := right.paired h whole row held paired
      rw [matched] at matched'
      cases matched'
      rw [record_recorded, if_pos long] at place
      cases place
      exact absurd earlier (Nat.lt_irrefl _)
    · intro k r y new place
      have answered := (onAck_newest w.stands x.2 new).1
      obtain ⟨y', matched, place', -⟩ := w.matched new
      rw [place] at place'
      cases place'
      rw [answered] at paired
      obtain ⟨y', matched', -, -, back, -⟩ := right.paired h whole row held paired
      rw [matched] at matched'
      cases matched'
      exact back
  · intro fits
    refine ⟨?_, ?_⟩
    · intro h whole long
      exact (payload_iff whole long).mpr (fits.crc h whole)
    · intro h whole row' held' isPaired
      have w := inv.written.record x.1 h x.2
      obtain ⟨-, row, held, paired, time⟩ := drain_trailer whole s.monRtt x.2
      rw [held] at held'
      cases held'
      rw [← record_monRtt] at paired time
      cases found : newest (s.record x.1 h x.2).log h.ack with
      | none =>
        rw [onAck_none w.stands x.2 found, isPaired] at paired
        cases paired
      | some k =>
        obtain ⟨r, new⟩ := newest_eq_some.mp found
        have answered := (onAck_newest w.stands x.2 new).1
        obtain ⟨y, matched, place, when_⟩ := w.matched new
        have before := newest_before new (fits.other h whole) place
        refine ⟨y, matched, inv.earlier y before, inv.payload y before,
          fits.back h whole k r y new place, ?_⟩
        rw [time, answered, when_]
        rfl

/-- Every row of a capture is paired rightly exactly if every frame of it is told apart. -/
theorem rtt_rows_right_iff (cfg : Settings) (xs : List (CspPacket × UInt32)) :
    Guarded (tap cfg) (PairedRightly cfg) .start xs ↔
      Guarded (tap cfg) (Pairable cfg) .start xs :=
  guarded_iff Inv (fun _ x inv => pairedRightly_iff cfg x inv)
    (fun _ _ inv right => inv_tap inv right.data) inv_start xs

/-- A frame of one payload byte whose number and ACK are both 5. -/
def selfFrame : CspPacket :=
  ⟨10, 20, 13, 0x02, [0xAA, 0x04, 0, 5, 0, 5], by simp [cspBufferSize]⟩

/-- An ACK with a CRC32, of number 7, and an ACK of 7 the other way. -/
def pureAck : CspPacket :=
  ⟨10, 20, 13, 0x03, [0x04, 0, 7, 0, 3, 0, 0, 0, 0], by simp [cspBufferSize]⟩

def ackOfAck : CspPacket := ⟨20, 10, 13, 0x02, [0x04, 0, 3, 0, 7], by simp [cspBufferSize]⟩

def anyPort : Settings := ⟨-1, fun _ => false⟩

/-- The first frame of a capture is paired, and an ACK is paired with an ACK. -/
theorem tap_pairs_wrongly :
    (monDrainerRdp anyPort ciRttInit selfFrame 100).2.map
      (fun row => (row.rttPaired, row.rttMs)) = some (true, 0) ∧
    ¬ HasPayload pureAck ∧
    (monDrainerRdp anyPort (monDrainerRdp anyPort ciRttInit pureAck 100).1 ackOfAck 140).2.map
      (fun row => (row.rttPaired, row.rttMs)) = some (true, 40) := by
  decide +kernel

end CspLinksim.Tap
