import CspLinksim.Proxy

/-!
# The broker and its one packet buffer

Every frame is copied into the same `csp_packet_t` and stripped there. A frame shorter
than a CSP header is not stripped, so what is decided about it is decided about the
frame before it. `csp_id_strip` belongs to libcsp and is a parameter.
-/

namespace CspLinksim.Proxy

open Runs Packet Rule DropIface

/-- A frame as it comes off the frontend, with the clock and the verdict of `rand`. -/
structure RawFrame where
  bytes : List UInt8
  tMs : UInt32
  randDrop : Bool
  deriving DecidableEq

/-- The globals and the packet buffer of the loop. -/
structure Loop where
  globals : Globals
  packet : CspPacket
  deriving DecidableEq

section

variable (version2 : Bool) (strip : CspPacket → List UInt8 → CspPacket)

/-- The drop decision of `zmq_proxy_lossy`; `none` is a frame counted as malformed. -/
def dropDecision (s : Loop) (x : RawFrame) : Option (Loop × Bool) :=
  if 0 ≤ s.globals.gRule.matchDport then
    if ¬ proxyFrameFits version2 x.bytes.length then none
    else
      let packet := strip s.packet x.bytes
      let f := ciFrameFromFields packet.dport packet.flags packet.data
      if ciRuleMatch s.globals.gRule f then
        let (g, idx) := proxyFlowIndex s.globals packet f
        let drop := ciRuleDecide g.gRule idx
        let row : DropRow :=
          { tMs := x.tMs, src := packet.src, dport := packet.dport, cspFlags := packet.flags,
            isRdp := f.isRdp, index := idx, epoch := g.gEpoch, dropped := drop }
        some (⟨{ g with gDropLog := g.gDropLog.map (· ++ [row]) }, packet⟩, drop)
      else some (⟨s.globals, packet⟩, false)
  else some (s, x.randDrop)

end

/-- A packet that no frame was copied into. -/
def blankPacket : CspPacket where
  src := 0
  dst := 0
  dport := 0
  flags := 0
  data := []
  fits := Nat.zero_le _

section

variable {version2 : Bool} {strip : CspPacket → List UInt8 → CspPacket}

end

/-- The loop before its first frame, with anything in the packet buffer. -/
def loopStart (rule : CiDropRule) (mtu overhead : UInt16) (junk : CspPacket) : Loop where
  globals := proxyStart rule mtu overhead
  packet := junk

/-- The six header bytes of CSP 2 as one number, first byte highest. -/
def id2 (bytes : List UInt8) : UInt64 :=
  (bytes.take 6).foldl (fun id b => (id <<< 8) ||| b.toUInt64) 0

/-- `csp_id_strip` of libcsp for CSP 2. -/
def cspId2Strip (p : CspPacket) (bytes : List UInt8) : CspPacket :=
  if bytes.length < 6 then p
  else
    { src := ((id2 bytes >>> 18) &&& 0x3FFF).toUInt16
      dst := ((id2 bytes >>> 32) &&& 0x3FFF).toUInt16
      dport := ((id2 bytes >>> 12) &&& 0x3F).toUInt16
      flags := (id2 bytes &&& 0x3F).toUInt8
      data := (bytes.drop 6).take cspBufferSize
      fits := List.length_take_le _ _ }

/-- A frame from node 10 to port 8 of node 20. -/
def bulkFrame : RawFrame := ⟨[0x80, 0x14, 0x00, 0x28, 0x82, 0x00, 0, 0, 0, 0, 7], 5, false⟩

end CspLinksim.Proxy
