import CspLinksim.Lib.Columns
import CspLinksim.DropIface
import CspLinksim.MonRtt

/-!
# The rows of the two logs

A captured frame has one row of 14 columns in the monitor's file, of one of three kinds, and
every other line of that file begins with a `#`. A row of the drop log has 8 columns.
-/

namespace CspLinksim.Tap

open Runs Columns Packet Rule Rtt DropIface

def ciDtpDataPort : UInt16 := 8
def monSvuDataPort : UInt16 := 9

/-- `mon_mtu` and `mon_dtp_overhead`. -/
structure Indexing where
  mtu : UInt16
  overhead : UInt16
  deriving DecidableEq

/-- What every row has. -/
structure Head where
  tMs : UInt32
  src : UInt16
  dst : UInt16
  dport : UInt16
  cspFlags : UInt8
  tx : Bool
  deriving DecidableEq

/-- The row of a captured frame. -/
inductive PacketRow where
  | rdp (row : RdpRow)
  | bulk (head : Head) (dtpOffset dtpFrag : UInt32)
  | presence (head : Head)
  deriving DecidableEq

/-- The body of `mon_drainer` for a captured frame: the ring, and the row if there is one. -/
def monDrainerRow (cfg : Settings) (ix : Indexing) (p : CiRttPairing) (pk : CspPacket)
    (t : UInt32) : CiRttPairing × Option PacketRow :=
  if cfg.matchDport < 0 ∨ pk.dport = UInt16.ofInt cfg.matchDport then
    let head : Head := ⟨t, pk.src, pk.dst, pk.dport, pk.flags, cfg.ours pk.src⟩
    if (frameOf pk).isRdp then
      let (p, row) := monDrainerRdp cfg p pk t
      (p, row.map .rdp)
    else if pk.dport = ciDtpDataPort ∨ pk.dport = monSvuDataPort then
      match ciDtpParseOffset pk.data with
      | some off =>
        let frag := (ciDtpFragmentIndexOvh off ix.mtu ix.overhead).getD 0
        (p, some (.bulk head off frag))
      | none => (p, some (.bulk head 0 0))
    else (p, some (.presence head))
  else (p, none)

def dirText (tx : Bool) : List Char := if tx then ['t', 'x'] else ['r', 'x']

def hexText (b : UInt8) : List Char := '0' :: 'x' :: hexByte b

def flagText (b : Bool) : List Char := decimal b.toNat

/-- The columns that all rows begin with. -/
def headColumns (h : Head) : List (List Char) :=
  [decimal h.tMs.toNat, decimal h.src.toNat, decimal h.dst.toNat, decimal h.dport.toNat,
    hexText h.cspFlags]

def RdpRow.head (r : RdpRow) : Head := ⟨r.tMs, r.src, r.dst, r.dport, r.cspFlags, r.tx⟩

def PacketRow.head : PacketRow → Head
  | .rdp r => r.head
  | .bulk h _ _ => h
  | .presence h => h

/-- The columns of a row, as `fprintf` writes them. -/
def packetColumns : PacketRow → List (List Char)
  | .rdp r => headColumns r.head ++
      [decimal 1, hexText r.rdpFlags, decimal r.rdpSeq.toNat, decimal r.rdpAck.toNat, [], [],
        flagText r.rttPaired, decimal r.rttMs.toNat, dirText r.tx]
  | .bulk h off frag => headColumns h ++
      [decimal 0, [], [], [], decimal off.toNat, decimal frag.toNat, [], [], dirText h.tx]
  | .presence h => headColumns h ++ [decimal 0, [], [], [], [], [], [], [], dirText h.tx]

/-- The columns of a drop-log row. -/
def dropColumns (r : DropRow) : List (List Char) :=
  [decimal r.tMs.toNat, decimal r.src.toNat, decimal r.dport.toNat, hexText r.cspFlags,
    flagText r.isRdp, decimal r.index.toNat, decimal r.epoch.toNat, flagText r.dropped]

/-- The rows of a capture, in its order. -/
def packetRows (cfg : Settings) (ix : Indexing) (ring : CiRttPairing)
    (caps : List (CspPacket × UInt32)) : List PacketRow :=
  (run (fun p x => monDrainerRow cfg ix p x.1 x.2) ring caps).2.filterMap id

theorem packetRows_cons (cfg : Settings) (ix : Indexing) (ring : CiRttPairing) (pk : CspPacket)
    (t : UInt32) (caps : List (CspPacket × UInt32)) :
    packetRows cfg ix ring ((pk, t) :: caps) = (monDrainerRow cfg ix ring pk t).2.toList ++
      packetRows cfg ix (monDrainerRow cfg ix ring pk t).1 caps := by
  rw [packetRows, run_cons, List.filterMap_cons, packetRows]
  cases (monDrainerRow cfg ix ring pk t).2 <;> rfl

/-- A line that `/^#/` matches. -/
def isComment (l : List Char) : Bool := l.head? = some '#'

/-- Every row names the frame it is about. -/
theorem row_head {cfg : Settings} {ix : Indexing} {p : CiRttPairing} {pk : CspPacket} {t : UInt32}
    {row : PacketRow} (h : (monDrainerRow cfg ix p pk t).2 = some row) :
    (cfg.matchDport < 0 ∨ pk.dport = UInt16.ofInt cfg.matchDport) ∧
      row.head = ⟨t, pk.src, pk.dst, pk.dport, pk.flags, cfg.ours pk.src⟩ := by
  rw [monDrainerRow] at h
  by_cases matched : cfg.matchDport < 0 ∨ pk.dport = UInt16.ofInt cfg.matchDport
  · refine ⟨matched, ?_⟩
    rw [if_pos matched] at h
    by_cases rdp : (frameOf pk).isRdp = true
    · simp only [rdp, if_true, monDrainerRdp, if_pos matched] at h
      cases hparse : ciRdpParseTrailer pk.data pk.flags with
      | some trailer =>
        simp only [hparse, Option.map_some, Option.some_inj] at h
        rw [← h]
        rfl
      | none =>
        simp only [hparse, Option.map_some, Option.some_inj] at h
        rw [← h]
        rfl
    · simp only [rdp, Bool.false_eq_true, if_false] at h
      by_cases bulk : pk.dport = ciDtpDataPort ∨ pk.dport = monSvuDataPort
      · rw [if_pos bulk] at h
        cases hparse : ciDtpParseOffset pk.data with
        | some off =>
          rw [hparse] at h
          cases h
          rfl
        | none =>
          rw [hparse] at h
          cases h
          rfl
      · rw [if_neg bulk] at h
        cases h
        rfl
  · rw [if_neg matched] at h
    cases h

theorem comma_not_mem_hexText (b : UInt8) : ',' ∉ hexText b := by
  simp [hexText]

theorem comma_not_mem_dirText (tx : Bool) : ',' ∉ dirText tx := by
  cases tx <;> decide

theorem packetColumns_plain (r : PacketRow) : ∀ c ∈ packetColumns r, ',' ∉ c := by
  cases r <;>
    simp [packetColumns, headColumns, flagText, comma_not_mem_hexText, comma_not_mem_dirText]

theorem packetColumns_length (r : PacketRow) : (packetColumns r).length = 14 := by
  cases r <;> rfl

theorem column_packet (r : PacketRow) (n : Nat) :
    column n (line (packetColumns r)) = (packetColumns r).getD (n - 1) [] := by
  apply column_line _ (packetColumns_plain r)
  intro none
  have := packetColumns_length r
  rw [none] at this
  cases this

theorem dropColumns_plain (r : DropRow) : ∀ c ∈ dropColumns r, ',' ∉ c := by
  simp [dropColumns, flagText, comma_not_mem_hexText]

theorem column_drop (r : DropRow) (n : Nat) :
    column n (line (dropColumns r)) = (dropColumns r).getD (n - 1) [] :=
  column_line (by simp [dropColumns]) (dropColumns_plain r) n

/-- No row is taken for a comment. -/
theorem packet_not_comment (r : PacketRow) : isComment (line (packetColumns r)) = false := by
  obtain ⟨t, rest, cols, eq⟩ : ∃ (t : UInt32) (c : List Char) (cs : List (List Char)),
      packetColumns r = decimal t.toNat :: c :: cs := by
    cases r with
    | rdp r => exact ⟨_, _, _, rfl⟩
    | bulk h off frag => exact ⟨_, _, _, rfl⟩
    | presence h => exact ⟨_, _, _, rfl⟩
  obtain ⟨d, ds, digits, isDigit⟩ := decimal_head t.toNat
  rw [isComment, eq, digits, line_head]
  simp only [Option.some_inj, decide_eq_false_iff_not]
  rintro rfl
  exact absurd isDigit (by decide)

end CspLinksim.Tap
