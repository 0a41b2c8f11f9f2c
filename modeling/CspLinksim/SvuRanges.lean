import CspLinksim.SvuBlast

/-!
# Exactly the requested ranges

The offset of the next frame is a 32-bit sum with a step that comes from the network.
As long as that sum does not wrap and the first frame fits its packet, the frames of a
range tile it with source bytes. Otherwise the loop copies bytes that are not there.
-/

namespace CspLinksim.Svu

open Packet Pieces

/-- The mtu `svu_serve_loop` works with. -/
def frameMtu (mtu : UInt32) : UInt32 := if mtu > UInt32.ofNat svuDataHdr then mtu else 256

/-- A requested range, cut off at the end of the file. -/
def clampRange (total : UInt32) (iv : SvuWireInterval) : SvuWireInterval :=
  ⟨iv.start, if iv.stop > total then total else iv.stop⟩

/-- The ranges a request asks for, those that are empty left out. -/
def blastRanges (total : UInt32) (req : SvuReq) : List SvuWireInterval :=
  let asked := if req.nofIntervals = 0 then [⟨0, total⟩] else req.intervals.map (clampRange total)
  asked.filter fun iv => iv.start < iv.stop

/-- `chunkLoop` when only the first `avail` calls of `csp_buffer_get` succeed. -/
def chunkLoopPool (step stop : UInt32) (emit : UInt32 → UInt32 → Except Fault Payload) :
    Nat → Nat → UInt32 → Except Fault (List Payload)
  | _, 0, off => if off < stop then .error .diverges else .ok []
  | avail, n + 1, off =>
    if off < stop then
      let len := if off + step ≤ stop then step else stop - off
      match avail with
      | 0 => .ok []
      | avail + 1 =>
        match emit off len with
        | .error e => .error e
        | .ok pkt =>
          match chunkLoopPool step stop emit avail n (off + step) with
          | .error e => .error e
          | .ok rest => .ok (pkt :: rest)
    else .ok []

/-- `blastInterval` with such a pool of packet buffers. -/
def blastIntervalPool (avail : Nat) (session mtu : UInt32) (src : List UInt8)
    (start stop : UInt32) : Except Fault (List Payload) :=
  let pay := if mtu > UInt32.ofNat svuDataHdr then mtu - UInt32.ofNat svuDataHdr else 1
  chunkLoopPool pay stop (fun off len => copyOut (putWords [off, session]) src off len) avail
    (stop.toNat - start.toNat) start

/-- A pool that runs dry cuts the frames short and does nothing else. -/
theorem chunkLoopPool_of_ok {step stop : UInt32} {emit : UInt32 → UInt32 → Except Fault Payload}
    {n : Nat} {off : UInt32} {pkts : List Payload}
    (h : chunkLoop step stop emit n off = .ok pkts) (avail : Nat) :
    chunkLoopPool step stop emit avail n off = .ok (pkts.take avail) := by
  induction n generalizing avail off pkts with
  | zero =>
    rw [chunkLoop] at h
    split at h
    · cases h
    · cases h
      rw [chunkLoopPool, if_neg ‹_›, List.take_nil]
  | succ n ih =>
    rw [chunkLoop] at h
    by_cases more : off < stop
    · rw [if_pos more] at h
      obtain ⟨len, hlen⟩ : ∃ len : UInt32, len = if off + step ≤ stop then step else stop - off :=
        ⟨_, rfl⟩
      rw [← hlen] at h
      rw [chunkLoopPool, if_pos more, ← hlen]
      cases avail with
      | zero => rfl
      | succ avail =>
        cases hemit : emit off len with
        | error e => simp [hemit] at h
        | ok pkt =>
          cases hrest : chunkLoop step stop emit n (off + step) with
          | error e => simp [hemit, hrest] at h
          | ok rest =>
            obtain rfl : pkt :: rest = pkts := by simpa [hemit, hrest] using h
            simp only [hemit, ih hrest avail, List.take_succ_cons]
    · rw [if_neg more] at h
      cases h
      rw [chunkLoopPool, if_neg more, List.take_nil]

/-- The bytes of the file a frame says it carries. -/
def frameSpan (p : Payload) : Nat × Nat := span ((svuGet32 p 0).toNat, p.length - svuDataHdr)

/-- The 16-bit length `blast_interval` gives the packet of `len` payload bytes. -/
def lengthField (len : UInt32) : UInt16 := (UInt32.ofNat svuDataHdr + len).toUInt16

/-- What the requester of the range `iv` is promised. -/
structure BlastedExactly (s : Source) (req : SvuReq) (iv : SvuWireInterval)
    (frames : List Payload) : Prop where
  blasted : blastInterval req.sessionId (frameMtu req.mtu) s.src iv.start iv.stop = .ok frames
  cut : ∀ avail, blastIntervalPool avail req.sessionId (frameMtu req.mtu) s.src iv.start iv.stop =
    .ok (frames.take avail)
  tiles : Tiling iv.start.toNat iv.stop.toNat (frames.map frameSpan)
  bytes : ∀ p ∈ frames, p.drop svuDataHdr =
    slice s.src ((svuGet32 p 0).toNat, p.length - svuDataHdr)
  sized : ∀ p ∈ frames, p.length ≤ cspBufferSize ∧
    (lengthField (UInt32.ofNat (p.drop svuDataHdr).length)).toNat =
      svuDataHdr + (p.drop svuDataHdr).length
  inside : ∀ p ∈ frames, (frameSpan p).2 ≤ s.total.toNat

theorem frameMtu_above (mtu : UInt32) : svuDataHdr < (frameMtu mtu).toNat := by
  rw [frameMtu]
  split
  · rename_i more
    exact UInt32.lt_iff_toNat_lt.mp more
  · decide

theorem mem_blastRanges {total : UInt32} {req : SvuReq} {iv : SvuWireInterval}
    (h : iv ∈ blastRanges total req) :
    iv.start.toNat < iv.stop.toNat ∧ iv.stop.toNat ≤ total.toNat := by
  obtain ⟨asked, nonempty⟩ := List.mem_filter.mp h
  refine ⟨UInt32.lt_iff_toNat_lt.mp (of_decide_eq_true nonempty), ?_⟩
  split at asked
  · rw [List.mem_singleton.mp asked]
  · obtain ⟨iv', _, rfl⟩ := List.mem_map.mp asked
    simp only [clampRange]
    split
    · exact Nat.le_refl _
    · rename_i within
      exact Nat.le_of_not_lt fun h => within (UInt32.lt_iff_toNat_lt.mpr h)

/-- The frame of a piece carries its offset and its bytes. -/
theorem dataFrame_spec {src : List UInt8} (session : UInt32) {q : Nat × Nat}
    (inside : q.1 + q.2 ≤ src.length) (small : q.1 < 4294967296) :
    (svuGet32 (dataFrame src session q) 0).toNat = q.1 ∧
    (dataFrame src session q).drop svuDataHdr = slice src q ∧
    (dataFrame src session q).length = svuDataHdr + q.2 := by
  have fragment := frame_fragment src session q
  injection fragment with hoff hbuf
  have hwords : (putWords [UInt32.ofNat q.1, session]).length = svuDataHdr := putWords_length _
  refine ⟨?_, hbuf, ?_⟩
  · rw [hoff]
    exact UInt32.toNat_ofNat_of_lt' small
  · simp only [dataFrame, List.length_append, hwords, slice, List.length_take, List.length_drop]
    omega

/-- A range that fits is blasted exactly. -/
theorem blasted_of_fits {s : Source} (size : s.src.length = s.total.toNat) {req : SvuReq}
    {iv : SvuWireInterval} (h : iv ∈ blastRanges s.total req)
    (fits : Fits (frameMtu req.mtu) (iv.start.toNat, iv.stop.toNat)) :
    BlastedExactly s req iv
      (rangeFrames s.src req.sessionId (frameMtu req.mtu) (iv.start.toNat, iv.stop.toNat)) := by
  obtain ⟨nonempty, inside⟩ := mem_blastRanges h
  have above := frameMtu_above req.mtu
  have htotal := s.total.toNat_lt
  have hhdr : svuDataHdr = 8 := rfl
  have hbuf : cspBufferSize = 2048 := rfl
  have blasted := blastInterval_fits req.sessionId above (size ▸ inside) fun _ => fits
  have known : ∀ q ∈ pieces ((frameMtu req.mtu).toNat - svuDataHdr) iv.stop.toNat
      (iv.stop.toNat - iv.start.toNat) iv.start.toNat,
      q.1 + q.2 ≤ s.src.length ∧ q.1 < 4294967296 ∧ q.2 + svuDataHdr ≤ cspBufferSize := by
    intro q hq
    obtain ⟨lo, hi, _, hle⟩ := pieces_bounds (by omega) hq
    have first := fits.1
    simp only at first
    omega
  have frame : ∀ p ∈ rangeFrames s.src req.sessionId (frameMtu req.mtu)
      (iv.start.toNat, iv.stop.toNat), ∃ q, q.1 + q.2 ≤ s.total.toNat ∧
        q.2 + svuDataHdr ≤ cspBufferSize ∧ (svuGet32 p 0).toNat = q.1 ∧
        p.drop svuDataHdr = slice s.src q ∧ p.length = svuDataHdr + q.2 := by
    intro p hp
    obtain ⟨q, hq, rfl⟩ := List.mem_map.mp hp
    obtain ⟨hin, small, cap⟩ := known q hq
    exact ⟨q, size ▸ hin, cap, dataFrame_spec req.sessionId hin small⟩
  refine ⟨blasted, fun avail => chunkLoopPool_of_ok blasted avail, ?_, ?_, ?_, ?_⟩
  · have spans : (rangeFrames s.src req.sessionId (frameMtu req.mtu)
        (iv.start.toNat, iv.stop.toNat)).map frameSpan =
        (pieces ((frameMtu req.mtu).toNat - svuDataHdr) iv.stop.toNat
          (iv.stop.toNat - iv.start.toNat) iv.start.toNat).map span := by
      rw [rangeFrames, List.map_map]
      apply List.map_congr_left
      intro q hq
      obtain ⟨hin, small, _⟩ := known q hq
      obtain ⟨hoff, _, hlen⟩ := @dataFrame_spec s.src req.sessionId q hin small
      simp only [Function.comp, frameSpan, hoff, hlen, Nat.add_sub_cancel_left]
    rw [spans]
    exact tiling_pieces (by omega) (by omega)
  · intro p hp
    obtain ⟨q, _, _, hoff, hbytes, hlen⟩ := frame p hp
    rw [hbytes, hoff, hlen, Nat.add_sub_cancel_left]
  · intro p hp
    obtain ⟨q, _, cap, _, _, hlen⟩ := frame p hp
    have hdrop : (p.drop svuDataHdr).length = q.2 := by
      rw [List.length_drop, hlen, Nat.add_sub_cancel_left]
    have hnat : (UInt32.ofNat q.2).toNat = q.2 :=
      UInt32.toNat_ofNat_of_lt' (by rw [UInt32.size]; omega)
    refine ⟨by omega, ?_⟩
    have hhdrNat : (UInt32.ofNat svuDataHdr).toNat = 8 := rfl
    rw [hdrop, lengthField, UInt32.toNat_toUInt16, UInt32.toNat_add, hnat, hhdrNat]
    omega
  · intro p hp
    obtain ⟨q, hin, _, hoff, _, hlen⟩ := frame p hp
    simpa only [frameSpan, span, hoff, hlen, Nat.add_sub_cancel_left] using hin

/-- A loop that returns never wrapped, and none of its packets was too long. -/
theorem chunkLoop_room {step stop : UInt32} {emit : UInt32 → UInt32 → Except Fault Payload}
    (cap : Nat) (emits : ∀ off len pkt, emit off len = .ok pkt →
      off.toNat + len.toNat < 4294967296 ∧ len.toNat ≤ cap) {n : Nat} {off : UInt32}
    {pkts : List Payload} (h : chunkLoop step stop emit n off = .ok pkts) :
    ∀ k, off.toNat + k * step.toNat < stop.toNat →
      off.toNat + (k + 1) * step.toNat < 4294967296 ∧
      min step.toNat (stop.toNat - (off.toNat + k * step.toNat)) ≤ cap := by
  induction n generalizing off pkts with
  | zero =>
    intro k hk
    have more : off < stop := UInt32.lt_iff_toNat_lt.mpr (by omega)
    rw [chunkLoop, if_pos more] at h
    cases h
  | succ n ih =>
    intro k hk
    have more : off < stop := UInt32.lt_iff_toNat_lt.mpr (by omega)
    have hlt := UInt32.lt_iff_toNat_lt.mp more
    have hstop := stop.toNat_lt
    have hstep := step.toNat_lt
    have hsum := UInt32.toNat_add off step
    obtain ⟨len, hlen⟩ : ∃ len : UInt32, len = if off + step ≤ stop then step else stop - off :=
      ⟨_, rfl⟩
    rw [chunkLoop, if_pos more, ← hlen] at h
    cases hemit : emit off len with
    | error e => simp [hemit] at h
    | ok pkt =>
      cases hrest : chunkLoop step stop emit n (off + step) with
      | error e => simp [hemit, hrest] at h
      | ok rest =>
        obtain ⟨inside, short⟩ := emits off len pkt hemit
        -- a wrapped sum is below `stop`, so the chunk is whole and ends past 2^32
        have first : off.toNat + step.toNat < 4294967296 ∧
            min step.toNat (stop.toNat - off.toNat) ≤ cap := by
          by_cases whole : off + step ≤ stop
          · rw [if_pos whole] at hlen
            subst len
            omega
          · rw [if_neg whole] at hlen
            have past : ¬ (off + step).toNat ≤ stop.toNat :=
              fun h => whole (UInt32.le_iff_toNat_le.mpr h)
            have hsub := UInt32.toNat_sub_of_le stop off (UInt32.le_of_lt more)
            rw [← hlen] at hsub
            omega
        cases k with
        | zero => simpa using first
        | succ k =>
          have hnext : (off + step).toNat = off.toNat + step.toNat := by
            rw [hsum, Nat.mod_eq_of_lt first.1]
          have later := ih hrest k (by
            rw [hnext]
            rw [Nat.add_mul] at hk
            omega)
          rw [hnext, Nat.add_assoc, Nat.add_assoc] at later
          have h1 : step.toNat + k * step.toNat = (k + 1) * step.toNat := by
            rw [Nat.add_mul]
            omega
          have h2 : step.toNat + (k + 1) * step.toNat = (k + 1 + 1) * step.toNat := by
            rw [Nat.add_mul (k + 1)]
            omega
          rwa [h1, h2] at later

/-- A range that is blasted at all fits. -/
theorem fits_of_blasted {s : Source} (size : s.src.length = s.total.toNat) {session mtu : UInt32}
    (above : svuDataHdr < mtu.toNat) {start stop : UInt32} (nonempty : start.toNat < stop.toNat)
    {frames : List Payload} (h : blastInterval session mtu s.src start stop = .ok frames) :
    Fits mtu (start.toNat, stop.toNat) := by
  obtain ⟨more, hpay⟩ := pay_toNat above
  have htotal := s.total.toNat_lt
  have hhdr : svuDataHdr = 8 := rfl
  simp only [blastInterval, if_pos more] at h
  have room := chunkLoop_room (cspBufferSize - svuDataHdr) (by
    intro off len pkt hemit
    have hwords : (putWords [off, session]).length = svuDataHdr := putWords_length _
    rw [copyOut, hwords] at hemit
    split at hemit
    · rename_i fits
      omega
    · cases hemit) h
  rw [hpay] at room
  have hbuf : cspBufferSize = 2048 := rfl
  have first := (room 0 (by omega)).2
  refine ⟨?_, (room_iff (by omega) nonempty).mpr fun k hk => (room k hk).1⟩
  simp only [Nat.zero_mul, Nat.add_zero] at first ⊢
  omega

/-- The loop over the ranges skips the empty ones. -/
theorem blastIntervals_flatten {session mtu : UInt32} {s : Source} (ivs : List SvuWireInterval)
    {sent : List (List Payload)}
    (h : List.Forall₂ (fun iv frames => blastInterval session mtu s.src iv.start iv.stop =
      .ok frames) ((ivs.map (clampRange s.total)).filter fun iv => iv.start < iv.stop) sent) :
    blastIntervals session mtu s ivs = .ok sent.flatten := by
  induction ivs generalizing sent with
  | nil =>
    cases h
    rfl
  | cons iv ivs ih =>
    simp only [List.map_cons, List.filter_cons] at h
    by_cases nonempty : (clampRange s.total iv).start < (clampRange s.total iv).stop
    · simp only [decide_eq_true nonempty, if_true] at h
      cases h with
      | cons first rest =>
        simp only [clampRange] at nonempty first
        simp only [blastIntervals, if_pos nonempty, first, ih rest, List.flatten_cons]
    · simp only [decide_eq_false nonempty, Bool.false_eq_true, if_false] at h
      simp only [clampRange] at nonempty
      simp only [blastIntervals, if_neg nonempty, ih h, List.nil_append]

/-- What the sender puts on the link for a request, range by range. -/
theorem serveData_ranges {s : Source} {pkt : Payload} {req : SvuReq}
    (decoded : svuReqDecode pkt = some req) {sent : List (List Payload)}
    (h : List.Forall₂ (fun iv frames => blastInterval req.sessionId (frameMtu req.mtu) s.src
      iv.start iv.stop = .ok frames) (blastRanges s.total req) sent) :
    svuServeData s pkt = .ok sent.flatten := by
  simp only [svuServeData, decoded]
  rw [blastRanges] at h
  by_cases all : req.nofIntervals = 0
  · simp only [if_pos all] at h ⊢
    by_cases nonempty : 0 < s.total
    · rw [List.filter_cons_of_pos (by simpa using nonempty)] at h
      cases h with
      | cons first rest =>
        cases rest
        simpa [frameMtu] using first
    · rw [List.filter_cons_of_neg (by simpa using nonempty)] at h
      cases h
      have hzero : s.total.toNat = 0 := by
        have := mt UInt32.lt_iff_toNat_lt.mpr nonempty
        simpa using this
      simp [blastInterval, hzero, chunkLoop, nonempty]
  · simp only [if_neg all] at h ⊢
    exact blastIntervals_flatten req.intervals h

/-- Every range of a request is blasted exactly if and only if every one of them fits. -/
theorem blasts_exactly_iff {s : Source} (size : s.src.length = s.total.toNat) {pkt : Payload}
    {req : SvuReq} (decoded : svuReqDecode pkt = some req) :
    (∃ sent, List.Forall₂ (BlastedExactly s req) (blastRanges s.total req) sent ∧
      svuServeData s pkt = .ok sent.flatten) ↔
    ∀ iv ∈ blastRanges s.total req, Fits (frameMtu req.mtu) (iv.start.toNat, iv.stop.toNat) := by
  constructor
  · rintro ⟨sent, each, _⟩ iv hiv
    obtain ⟨i, rfl⟩ := List.get_of_mem hiv
    obtain ⟨same, answered⟩ := List.forall₂_iff_get.mp each
    exact fits_of_blasted size (frameMtu_above req.mtu) (mem_blastRanges hiv).1
      (answered i i.isLt (same ▸ i.isLt)).blasted
  · intro fits
    have each : List.Forall₂ (BlastedExactly s req) (blastRanges s.total req)
        ((blastRanges s.total req).map fun iv => rangeFrames s.src req.sessionId
          (frameMtu req.mtu) (iv.start.toNat, iv.stop.toNat)) := by
      rw [List.forall₂_map_right_iff, List.forall₂_same]
      exact fun iv hiv => blasted_of_fits size hiv (fits iv hiv)
    exact ⟨_, each, serveData_ranges decoded (each.imp fun _ _ h => h.blasted)⟩

/-- A request for two ranges, the second past the end of a short file. -/
def rangesRequest (mtu : UInt32) : SvuReq where
  magic := svuMagicReq
  sessionId := 1
  mtu := mtu
  blockSize := 2
  nofIntervals := 2
  clientAddr := 0
  intervals := [⟨0, 2⟩, ⟨1, 4294967295⟩]

theorem short_file_is_blasted :
    ∃ sent, List.Forall₂ (BlastedExactly (svuServe [7, 8, 9] 3 2) (rangesRequest 9))
        (blastRanges 3 (rangesRequest 9)) sent ∧
      svuServeData (svuServe [7, 8, 9] 3 2) (svuReqEncode (rangesRequest 9)) =
        .ok sent.flatten :=
  (@blasts_exactly_iff (svuServe [7, 8, 9] 3 2) rfl (svuReqEncode (rangesRequest 9))
    (rangesRequest 9) (by decide)).mpr (by decide)

/-- A request for the whole file. -/
def fileRequest (mtu : UInt32) : SvuReq where
  magic := svuMagicReq
  sessionId := 1
  mtu := mtu
  blockSize := 4096
  nofIntervals := 0
  clientAddr := 0
  intervals := []

/-- Frames of 4096 bytes run over the packet buffer. -/
theorem wide_frames_overflow :
    svuReqDecode (svuReqEncode (fileRequest 4096)) = some (fileRequest 4096) ∧
    ¬ ∃ sent, List.Forall₂
        (BlastedExactly (svuServe (List.replicate 3000 7) 3000 4096) (fileRequest 4096))
        (blastRanges 3000 (fileRequest 4096)) sent ∧
      svuServeData (svuServe (List.replicate 3000 7) 3000 4096)
        (svuReqEncode (fileRequest 4096)) = .ok sent.flatten := by
  refine ⟨by decide, ?_⟩
  rintro ⟨sent, each, _⟩
  cases each with
  | cons first rest =>
    have fits := fits_of_blasted (s := svuServe (List.replicate 3000 7) 3000 4096)
      List.length_replicate (frameMtu_above _) (by decide) first.blasted
    exact absurd fits (by decide)

end CspLinksim.Svu
