import CspLinksim.Lib.Pieces
import CspLinksim.SvuProto
import CspLinksim.SvuBlocks

/-!
# The sender (`svu_serve.c`)

One request is answered with a header packet, the manifest in 200-byte chunks, and
then the requested ranges as data frames. A failed `csp_buffer_get` cuts a sequence
of packets short, which the client cannot tell from a loss, so it is left to the link.
-/

namespace CspLinksim.Svu

open Packet Pieces

/-- The data bytes of a packet. -/
abbrev Payload : Type := List UInt8

/-- The loop of `send_manifest` and of `blast_interval` at `off`, for at most `n` rounds;
`emit` copies `len` bytes from `off` on into a packet. -/
def chunkLoop (step stop : UInt32) (emit : UInt32 → UInt32 → Except Fault Payload) :
    Nat → UInt32 → Except Fault (List Payload)
  | 0, off => if off < stop then .error .diverges else .ok []
  | n + 1, off =>
    if off < stop then
      -- the 32-bit sum wraps for a range that ends within `step` of 2^32
      let len := if off + step ≤ stop then step else stop - off
      match emit off len with
      | .error e => .error e
      | .ok pkt =>
        match chunkLoop step stop emit n (off + step) with
        | .error e => .error e
        | .ok rest => .ok (pkt :: rest)
    else .ok []

/-- A `memcpy` out of `buf` into a packet that already holds `hdr`. -/
def copyOut (hdr buf : List UInt8) (off len : UInt32) : Except Fault Payload :=
  if off.toNat + len.toNat ≤ buf.length ∧ hdr.length + len.toNat ≤ cspBufferSize then
    .ok (hdr ++ slice buf (off.toNat, len.toNat))
  else .error .outOfBounds

def sendManifest (manifest : List UInt8) (bytes : UInt32) : Except Fault (List Payload) :=
  let chunk : UInt32 := 200
  chunkLoop chunk bytes (copyOut [] manifest) bytes.toNat 0

def blastInterval (session mtu : UInt32) (src : List UInt8) (start stop : UInt32) :
    Except Fault (List Payload) :=
  let pay := if mtu > UInt32.ofNat svuDataHdr then mtu - UInt32.ofNat svuDataHdr else 1
  chunkLoop pay stop (fun off len => copyOut (putWords [off, session]) src off len)
    (stop.toNat - start.toNat) start

/-- A file that can be read: its bytes, and its length cut to 32 bits. -/
def svuLoadFile (file : List UInt8) : List UInt8 × UInt32 := (file, UInt32.ofNat file.length)

/-- What `svu_serve_loop` holds while it serves a file. -/
structure Source where
  src : List UInt8
  total : UInt32
  blockSize : UInt32
  nblocks : UInt32
  manifest : List UInt8
  manifest_size : manifest.length = nblocks.toNat * ciSvuHashLen

theorem Source.manifest_bytes (s : Source) : s.manifest.length = s.nblocks.toNat * 32 :=
  s.manifest_size

/-- `svu_serve_loop` before its loop. -/
def svuServe (src : List UInt8) (total blockSize : UInt32) : Source where
  src := src
  total := total
  blockSize := blockSize
  nblocks := ciSvuNblocks total blockSize
  manifest := (ciSvuManifest src total blockSize).2
  manifest_size := manifest_length src total blockSize

def respHeader (s : Source) (sessionId : UInt32) : Payload :=
  putWords [svuMagicResp, sessionId, s.total, s.blockSize, s.nblocks]

/-- The packets on the control connection: the response header and the manifest. -/
def sendResponse (s : Source) (sessionId : UInt32) : Except Fault (List Payload) :=
  match sendManifest s.manifest (s.nblocks * UInt32.ofNat ciSvuHashLen) with
  | .error e => .error e
  | .ok chunks => .ok (respHeader s sessionId :: chunks)

/-- The ranges of a request, each cut off at the end of the file. -/
def blastIntervals (session mtu : UInt32) (s : Source) :
    List SvuWireInterval → Except Fault (List Payload)
  | [] => .ok []
  | iv :: ivs =>
    let e := if iv.stop > s.total then s.total else iv.stop
    let first :=
      if iv.start < e then blastInterval session mtu s.src iv.start e else .ok []
    match first with
    | .error f => .error f
    | .ok frames =>
      match blastIntervals session mtu s ivs with
      | .error f => .error f
      | .ok rest => .ok (frames ++ rest)

/-- The control packets that answer the request `pkt`; a malformed one gets none. -/
def svuServeControl (s : Source) (pkt : Payload) : Except Fault (List Payload) :=
  match svuReqDecode pkt with
  | none => .ok []
  | some req => sendResponse s req.sessionId

/-- The data frames blasted for the request `pkt`. -/
def svuServeData (s : Source) (pkt : Payload) : Except Fault (List Payload) :=
  match svuReqDecode pkt with
  | none => .ok []
  | some req =>
    let mtu := if req.mtu > UInt32.ofNat svuDataHdr then req.mtu else 256
    if req.nofIntervals = 0 then blastInterval req.sessionId mtu s.src 0 s.total
    else blastIntervals req.sessionId mtu s req.intervals

theorem chunkLoop_done {step stop : UInt32} {emit : UInt32 → UInt32 → Except Fault Payload}
    (n : Nat) {off : UInt32} (done : ¬ off < stop) : chunkLoop step stop emit n off = .ok [] := by
  cases n with
  | zero => rw [chunkLoop, if_neg done]
  | succ n => rw [chunkLoop, if_neg done]

/-- Without a wrap of `off + step` the loop sends one packet for each piece. -/
theorem chunkLoop_ok {step stop : UInt32} {emit : UInt32 → UInt32 → Except Fault Payload}
    (packet : Nat × Nat → Payload) (hstep : 0 < step.toNat) (lo : Nat)
    (emits : ∀ off len : UInt32, lo ≤ off.toNat → off.toNat + len.toNat ≤ stop.toNat →
      len.toNat ≤ step.toNat → emit off len = .ok (packet (off.toNat, len.toNat)))
    (n : Nat) (off : UInt32) (above : lo ≤ off.toNat) (enough : stop.toNat ≤ off.toNat + n)
    (room : ∀ k, off.toNat + k * step.toNat < stop.toNat →
      off.toNat + (k + 1) * step.toNat < 4294967296) :
    chunkLoop step stop emit n off =
      .ok ((pieces step.toNat stop.toNat n off.toNat).map packet) := by
  induction n generalizing off with
  | zero =>
    have hdone : ¬ off < stop := by
      rw [UInt32.lt_iff_toNat_lt]
      omega
    rw [chunkLoop, if_neg hdone]
    rfl
  | succ n ih =>
    rw [chunkLoop, pieces]
    by_cases more : off < stop
    · have hlt := UInt32.lt_iff_toNat_lt.mp more
      have hroom := room 0 (by omega)
      rw [Nat.zero_add, Nat.one_mul] at hroom
      have hoff : (off + step).toNat = off.toNat + step.toNat := by
        rw [UInt32.toNat_add]
        omega
      obtain ⟨len, hlen⟩ : ∃ len : UInt32, len = if off + step ≤ stop then step else stop - off :=
        ⟨_, rfl⟩
      have hmin : len.toNat = min step.toNat (stop.toNat - off.toNat) := by
        rw [hlen]
        by_cases whole : off + step ≤ stop
        · have := UInt32.le_iff_toNat_le.mp whole
          rw [if_pos whole]
          omega
        · have : ¬ (off + step).toNat ≤ stop.toNat := fun h => whole (UInt32.le_iff_toNat_le.mpr h)
          rw [if_neg whole, UInt32.toNat_sub_of_le _ _ (UInt32.le_iff_toNat_le.mpr (by omega))]
          omega
      have tail := ih (off + step) (by omega) (by omega) (by
        intro k hk
        have := room (k + 1)
        rw [hoff] at hk ⊢
        simp only [Nat.add_mul, Nat.one_mul] at this hk ⊢
        omega)
      rw [if_pos more, if_pos hlt, ← hlen]
      simp only [emits off len above (by omega) (by omega), tail, hoff, hmin, List.map_cons]
    · have hge : ¬ off.toNat < stop.toNat := fun h => more (UInt32.lt_iff_toNat_lt.mpr h)
      rw [if_neg more, if_neg hge]
      rfl

/-- As long as the last chunk ends below 2^32, so many bytes are sent in chunks. -/
theorem sendManifest_ok (manifest : List UInt8) (bytes : UInt32)
    (hlen : bytes.toNat ≤ manifest.length) (room : bytes.toNat ≤ 4294967200) :
    sendManifest manifest bytes =
      .ok ((pieces 200 bytes.toNat bytes.toNat 0).map (slice manifest)) := by
  have hchunk : UInt32.toNat 200 = 200 := rfl
  have hzero : UInt32.toNat 0 = 0 := rfl
  have h := @chunkLoop_ok 200 bytes (copyOut [] manifest) (slice manifest) (by decide) 0
    (by
      intro off len _ hfit hle
      have hcap : len.toNat ≤ cspBufferSize := by
        unfold cspBufferSize
        omega
      rw [copyOut, if_pos ⟨by omega, by simpa using hcap⟩]
      rfl)
    bytes.toNat 0 (Nat.zero_le _) (by omega)
    (by
      intro k hk
      rw [hchunk] at hk ⊢
      omega)
  rw [sendManifest, h]
  rfl

/-- A loop that returns has sent at least the whole range. -/
theorem chunkLoop_total {step stop : UInt32} {emit : UInt32 → UInt32 → Except Fault Payload}
    (emits : ∀ off len pkt, emit off len = .ok pkt → len.toNat ≤ pkt.length)
    {n : Nat} {off : UInt32} {pkts : List Payload}
    (h : chunkLoop step stop emit n off = .ok pkts) :
    stop.toNat ≤ off.toNat + pkts.flatten.length := by
  induction n generalizing off pkts with
  | zero =>
    rw [chunkLoop] at h
    split at h
    · cases h
    · rename_i hge
      rw [UInt32.lt_iff_toNat_lt] at hge
      omega
  | succ n ih =>
    rw [chunkLoop] at h
    split at h
    · rename_i more
      have hlt := UInt32.lt_iff_toNat_lt.mp more
      obtain ⟨len, hlen⟩ : ∃ len : UInt32, len = if off + step ≤ stop then step else stop - off :=
        ⟨_, rfl⟩
      rw [← hlen] at h
      cases hemit : emit off len with
      | error e => simp [hemit] at h
      | ok pkt =>
        cases hrest : chunkLoop step stop emit n (off + step) with
        | error e => simp [hemit, hrest] at h
        | ok rest =>
          obtain rfl : pkt :: rest = pkts := by simpa [hemit, hrest] using h
          have hpkt := emits off len pkt hemit
          have htail := ih hrest
          have hstop := stop.toNat_lt
          rw [List.flatten_cons, List.length_append]
          by_cases whole : off + step ≤ stop
          · rw [if_pos whole] at hlen
            subst len
            by_cases wraps : 4294967296 ≤ off.toNat + step.toNat
            · omega
            · rw [UInt32.toNat_add] at htail
              omega
          · rw [if_neg whole] at hlen
            subst len
            rw [UInt32.toNat_sub_of_le _ _ (UInt32.le_iff_toNat_le.mpr (by omega))] at hpkt
            omega
    · rename_i hge
      rw [UInt32.lt_iff_toNat_lt] at hge
      omega

/-- Every packet of the loop is one that `emit` made. -/
theorem chunkLoop_forall {step stop : UInt32} {emit : UInt32 → UInt32 → Except Fault Payload}
    {P : Payload → Prop} (emits : ∀ off len pkt, emit off len = .ok pkt → P pkt) {n : Nat}
    {off : UInt32} {pkts : List Payload} (h : chunkLoop step stop emit n off = .ok pkts) :
    ∀ p ∈ pkts, P p := by
  induction n generalizing off pkts with
  | zero =>
    rw [chunkLoop] at h
    split at h
    · cases h
    · cases h
      intro p hp
      cases hp
  | succ n ih =>
    rw [chunkLoop] at h
    split at h
    · obtain ⟨len, hlen⟩ : ∃ len : UInt32, len = if off + step ≤ stop then step else stop - off :=
        ⟨_, rfl⟩
      rw [← hlen] at h
      cases hemit : emit off len with
      | error e => simp [hemit] at h
      | ok pkt =>
        cases hrest : chunkLoop step stop emit n (off + step) with
        | error e => simp [hemit, hrest] at h
        | ok rest =>
          obtain rfl : pkt :: rest = pkts := by simpa [hemit, hrest] using h
          intro p hp
          rcases List.mem_cons.mp hp with rfl | later
          · exact emits off len p hemit
          · exact ih hrest p later
    · cases h
      intro p hp
      cases hp

theorem copyOut_bounds {hdr buf : List UInt8} {off len : UInt32} {pkt : Payload}
    (h : copyOut hdr buf off len = .ok pkt) :
    off.toNat + len.toNat ≤ buf.length ∧ pkt = hdr ++ slice buf (off.toNat, len.toNat) := by
  rw [copyOut] at h
  split at h
  · rename_i fits
    exact ⟨fits.1, (Except.ok.inj h).symm⟩
  · cases h

/-- A chunk's length fits in the 32 bits the reader takes of it. -/
theorem sendManifest_sized {manifest : List UInt8} {bytes : UInt32} {chunks : List Payload}
    (h : sendManifest manifest bytes = .ok chunks) : ∀ c ∈ chunks, c.length < 4294967296 := by
  refine chunkLoop_forall (P := fun c => c.length < 4294967296) ?_ h
  intro off len pkt hemit
  obtain ⟨_, rfl⟩ := copyOut_bounds hemit
  have hlen := len.toNat_lt
  simp only [List.nil_append, slice, List.length_take]
  omega

theorem sendManifest_total {manifest : List UInt8} {bytes : UInt32} {chunks : List Payload}
    (h : sendManifest manifest bytes = .ok chunks) : bytes.toNat ≤ chunks.flatten.length := by
  have total := chunkLoop_total (by
    intro off len pkt hemit
    obtain ⟨fits, rfl⟩ := copyOut_bounds hemit
    simp [slice]
    omega) h
  have hzero : UInt32.toNat 0 = 0 := rfl
  omega

/-- A longer one wraps `off + chunk`: the chunk is not clamped and is read past the end. -/
theorem sendManifest_wraps {manifest : List UInt8} {bytes : UInt32} {chunks : List Payload}
    (hlen : manifest.length = bytes.toNat) (long : 4294967200 < bytes.toNat) :
    sendManifest manifest bytes ≠ .ok chunks := by
  have hchunk : UInt32.toNat 200 = 200 := rfl
  have loop : ∀ (n : Nat) (off : UInt32) (pkts : List Payload), off.toNat ≤ 4294967200 →
      off.toNat % 200 = 0 → chunkLoop 200 bytes (copyOut [] manifest) n off ≠ .ok pkts := by
    intro n
    induction n with
    | zero =>
      intro off pkts hoff _ h
      have more : off < bytes := UInt32.lt_iff_toNat_lt.mpr (by omega)
      rw [chunkLoop, if_pos more] at h
      cases h
    | succ n ih =>
      intro off pkts hoff hmod h
      have hbytes := bytes.toNat_lt
      have more : off < bytes := UInt32.lt_iff_toNat_lt.mpr (by omega)
      have last : off.toNat = 4294967200 ∨ off.toNat + 200 ≤ 4294967200 := by omega
      have hnext : (off + 200).toNat = (off.toNat + 200) % 4294967296 := by
        rw [UInt32.toNat_add, hchunk]
      have whole : off + 200 ≤ bytes := by
        rw [UInt32.le_iff_toNat_le, hnext]
        rcases last with wraps | inside
        · rw [wraps]
          omega
        · rw [Nat.mod_eq_of_lt (by omega)]
          omega
      rw [chunkLoop, if_pos more, if_pos whole] at h
      cases hemit : copyOut [] manifest off 200 with
      | error e => simp [hemit] at h
      | ok pkt =>
        have fits := (copyOut_bounds hemit).1
        rw [hchunk] at fits
        have hsum : (off + 200).toNat = off.toNat + 200 := by
          rw [hnext, Nat.mod_eq_of_lt (by omega)]
        cases hrest : chunkLoop 200 bytes (copyOut [] manifest) n (off + 200) with
        | error e => simp [hemit, hrest] at h
        | ok rest =>
          apply ih (off + 200) rest ?_ ?_ hrest
          · rw [hsum]
            omega
          · rw [hsum]
            omega
  exact loop bytes.toNat 0 chunks (by decide) (by decide)

end CspLinksim.Svu
