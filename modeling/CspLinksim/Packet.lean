/-!
# CSP packets and the headers read out of them

`ci_rdp.c` and `ci_dtp.c` read two fields out of a CSP payload: the RDP trailer,
which libcsp appends at the end (before the CRC32, when there is one), and the
DTP byte offset at the front.
-/

namespace CspLinksim.Packet

/-- `csp:buffer_size=2048` in `meson.build`: the data bytes of a `csp_packet_t`. -/
def cspBufferSize : Nat := 2048

/-- The id fields the instrument reads and the payload, which fits its buffer. -/
structure CspPacket where
  src : UInt16
  dst : UInt16
  dport : UInt16
  flags : UInt8
  data : List UInt8
  fits : data.length ≤ cspBufferSize
  deriving DecidableEq

def ciCspFrdp : UInt8 := 0x02
def ciCspFcrc32 : UInt8 := 0x01
def ciRdpSyn : UInt8 := 0x08
def ciRdpFlagMask : UInt8 := 0x0F
def ciRdpHeaderSize : Nat := 5
def ciCrc32Size : Nat := 4
def ciDtpOffsetSize : Nat := 4
def ciDtpOverheadDipp : UInt16 := 4

/-- `ci_rdp_header_t`: the flags are already masked, the numbers in host order. -/
structure CiRdpHeader where
  flags : UInt8
  seq : UInt16
  ack : UInt16
  deriving DecidableEq

/-- A big-endian 16-bit number at `i`. -/
def be16 (t : List UInt8) (i : Nat) : UInt16 :=
  ((t.getD i 0).toUInt16 <<< 8) ||| (t.getD (i + 1) 0).toUInt16

/-- `ci_rdp_parse_trailer`; `none` is the return value -1. -/
def ciRdpParseTrailer (data : List UInt8) (cspFlags : UInt8) : Option CiRdpHeader :=
  let after := if cspFlags &&& ciCspFcrc32 ≠ 0 then ciCrc32Size else 0
  let tail := ciRdpHeaderSize + after
  if data.length < tail then none
  else
    let t := data.drop (data.length - tail)
    some { flags := t.getD 0 0 &&& ciRdpFlagMask, seq := be16 t 1, ack := be16 t 3 }

/-- A little-endian 32-bit number at `i`. -/
def le32 (p : List UInt8) (i : Nat) : UInt32 :=
  (p.getD i 0).toUInt32 ||| ((p.getD (i + 1) 0).toUInt32 <<< 8) |||
    ((p.getD (i + 2) 0).toUInt32 <<< 16) ||| ((p.getD (i + 3) 0).toUInt32 <<< 24)

/-- `ci_dtp_parse_offset`; `none` is the return value -1. -/
def ciDtpParseOffset (data : List UInt8) : Option UInt32 :=
  if data.length < ciDtpOffsetSize then none else some (le32 data 0)

/-- `ci_dtp_fragment_index_ovh`; `none` is the return value -1. -/
def ciDtpFragmentIndexOvh (offset : UInt32) (mtu overhead : UInt16) : Option UInt32 :=
  if mtu ≤ overhead then none else some (offset / (mtu - overhead).toUInt32)

end CspLinksim.Packet
