import CspLinksim.SvuProto

/-!
# The request codec in both directions (`svu_req_encode`, `svu_req_decode`)

What the encoder writes is read back with anything behind it, and what the decoder
accepts is written back byte for byte. A second reading of the decoder checks every
access to the packet, so that the reads themselves are part of the statement.
-/

namespace CspLinksim.Svu

open Packet MachineWords

theorem get32_toNat (p : List UInt8) (i : Nat) : (svuGet32 p i).toNat =
    (p.getD i 0).toNat + (p.getD (i + 1) 0).toNat * 2 ^ 8 + (p.getD (i + 2) 0).toNat * 2 ^ 16 +
      (p.getD (i + 3) 0).toNat * 2 ^ 24 := by
  have b0 := (p.getD i 0).toNat_lt
  have b1 := (p.getD (i + 1) 0).toNat_lt
  have b2 := (p.getD (i + 2) 0).toNat_lt
  have b3 := (p.getD (i + 3) 0).toNat_lt
  simp only [← UInt8.toNat_toUInt32] at b0 b1 b2 b3 ⊢
  have s1 := or_shiftLeft_toNat (p.getD i 0).toUInt32 (p.getD (i + 1) 0).toUInt32 8
    (by decide) (by omega) (by omega)
  have s2 := or_shiftLeft_toNat _ (p.getD (i + 2) 0).toUInt32 16 (by decide)
    (by rw [s1]; omega) (by omega)
  have s3 := or_shiftLeft_toNat _ (p.getD (i + 3) 0).toUInt32 24 (by decide)
    (by rw [s2, s1]; omega) (by omega)
  refine Eq.trans s3 ?_
  omega

/-- The byte of a word that stands `k` bits up. -/
theorem byte_shiftRight (v : UInt32) (b : UInt8) (k : Nat) (hk : k < 32)
    (h : v.toNat / 2 ^ k % 256 = b.toNat) :
    ((v >>> UInt32.ofNat k) &&& 0xFF).toUInt8 = b := by
  apply UInt8.toNat_inj.mp
  have hbyte := byte_toNat (v >>> UInt32.ofNat k)
  simp only [UInt8.toNat_toUInt32, shiftRight_toNat v k hk] at hbyte
  exact hbyte.trans h

/-- A word that is read and written again gives the four bytes it was read from. -/
theorem put32_get32 (p : List UInt8) (i : Nat) (h : i + 4 ≤ p.length) :
    svuPut32 (svuGet32 p i) = (p.drop i).take 4 := by
  have hv := get32_toNat p i
  have b0 := (p.getD i 0).toNat_lt
  have b1 := (p.getD (i + 1) 0).toNat_lt
  have b2 := (p.getD (i + 2) 0).toNat_lt
  have b3 := (p.getD (i + 3) 0).toNat_lt
  have w0 := byte_shiftRight (svuGet32 p i) (p.getD i 0) 0 (by decide) (by omega)
  have w1 := byte_shiftRight (svuGet32 p i) (p.getD (i + 1) 0) 8 (by decide) (by omega)
  have w2 := byte_shiftRight (svuGet32 p i) (p.getD (i + 2) 0) 16 (by decide) (by omega)
  have w3 := byte_shiftRight (svuGet32 p i) (p.getD (i + 3) 0) 24 (by decide) (by omega)
  have w0' : (svuGet32 p i &&& 0xFF).toUInt8 = p.getD i 0 := by
    simpa using w0
  have bytes : svuPut32 (svuGet32 p i) =
      [p.getD i 0, p.getD (i + 1) 0, p.getD (i + 2) 0, p.getD (i + 3) 0] := by
    simp only [svuPut32, w0', show (8 : UInt32) = UInt32.ofNat 8 from rfl,
      show (16 : UInt32) = UInt32.ofNat 16 from rfl,
      show (24 : UInt32) = UInt32.ofNat 24 from rfl, w1, w2, w3]
  exact bytes.trans (slice_eq_map p i 4 h).symm

/-- The first `n` words of a packet. -/
def wordsOf (buf : List UInt8) (n : Nat) : List UInt32 :=
  (List.range n).map fun k => svuGet32 buf (4 * k)

theorem wordsOf_succ (buf : List UInt8) (n : Nat) :
    wordsOf buf (n + 1) = wordsOf buf n ++ [svuGet32 buf (4 * n)] := by
  simp [wordsOf, List.range_succ]

theorem putWords_append (ws vs : List UInt32) :
    putWords (ws ++ vs) = putWords ws ++ putWords vs :=
  List.flatMap_append

/-- The words read from a packet, written again, are the packet up to there. -/
theorem putWords_wordsOf (buf : List UInt8) (n : Nat) (h : 4 * n ≤ buf.length) :
    putWords (wordsOf buf n) = buf.take (4 * n) := by
  induction n with
  | zero => rfl
  | succ n ih =>
    have word : putWords [svuGet32 buf (4 * n)] = (buf.drop (4 * n)).take 4 := by
      simpa [putWords] using put32_get32 buf (4 * n) (by omega)
    rw [wordsOf_succ, putWords_append, ih (by omega), word, ← List.take_add]
    rfl

/-- `intervals[i]` of a request. -/
def SvuReq.slot (r : SvuReq) (i : Nat) : SvuWireInterval := r.intervals.getD i ⟨0, 0⟩

/-- The request with `n` intervals announced and the slots past them zero. -/
def SvuReq.cut (r : SvuReq) (n : UInt32) : SvuReq :=
  { r with nofIntervals := n, intervals := (List.range n.toNat).map r.slot }

theorem SvuReq.cut_length (r : SvuReq) (n : UInt32) :
    (r.cut n).nofIntervals.toNat = (r.cut n).intervals.length := by
  simp [SvuReq.cut]

/-- The slots in use are kept and the others are zero. -/
theorem SvuReq.cut_slot (r : SvuReq) (n : UInt32) (i : Nat) :
    (r.cut n).slot i = if i < n.toNat then r.slot i else ⟨0, 0⟩ := by
  by_cases h : i < n.toNat <;> simp [SvuReq.cut, SvuReq.slot, h]

/-- The encoder sees the count up to its bound and the slots in use. -/
theorem encode_cut (r : SvuReq) (n : UInt32)
    (hn : n = if r.nofIntervals > svuMaxIntervals then svuMaxIntervals else r.nofIntervals) :
    svuReqEncode (r.cut n) = svuReqEncode r := by
  have bound : ¬ n > svuMaxIntervals := by
    rw [hn]
    split
    · exact UInt32.lt_irrefl _
    · assumption
  have slots : ((List.range n.toNat).flatMap fun i =>
      [((r.cut n).intervals.getD i ⟨0, 0⟩).start, ((r.cut n).intervals.getD i ⟨0, 0⟩).stop]) =
      (List.range n.toNat).flatMap fun i =>
        [(r.intervals.getD i ⟨0, 0⟩).start, (r.intervals.getD i ⟨0, 0⟩).stop] := by
    apply List.flatMap_congr
    intro i hi
    have hslot := r.cut_slot n i
    rw [if_pos (List.mem_range.mp hi)] at hslot
    simp only [SvuReq.slot] at hslot
    rw [hslot]
  have hnof : (r.cut n).nofIntervals = n := rfl
  rw [svuReqEncode, svuReqEncode, hnof, if_neg bound, ← hn]
  simp only [slots]
  rfl

theorem decode_cut (r : SvuReq) (rest : List UInt8) (hmagic : r.magic = svuMagicReq)
    (n : UInt32)
    (hn : n = if r.nofIntervals > svuMaxIntervals then svuMaxIntervals else r.nofIntervals) :
    svuReqDecode (svuReqEncode r ++ rest) = some (r.cut n) := by
  have bound : n.toNat ≤ 32 := by
    rw [hn]
    split
    · decide
    · rename_i h
      exact UInt32.le_iff_toNat_le.mp (UInt32.not_lt.mp h)
  have few : (r.cut n).intervals.length ≤ 32 := by
    simpa [SvuReq.cut] using bound
  rw [← encode_cut r n hn]
  exact decode_encode_append (r.cut n) hmagic (r.cut_length n) few rest

/-- What has to hold of a packet that is accepted. -/
structure Accepted (buf : List UInt8) : Prop where
  header : 24 ≤ buf.length
  magic : svuGet32 buf 0 = svuMagicReq
  count : svuGet32 buf 16 ≤ 32
  whole : 24 + 8 * (svuGet32 buf 16).toNat ≤ buf.length

/-- The intervals a packet announces, as its words. -/
theorem words_of_packet (buf : List UInt8) (n : Nat) :
    [svuGet32 buf 0, svuGet32 buf 4, svuGet32 buf 8, svuGet32 buf 12, svuGet32 buf 16,
      svuGet32 buf 20] ++ ((List.range n).flatMap fun i =>
        [svuGet32 buf (svuReqHdr + i * 8), svuGet32 buf (svuReqHdr + i * 8 + 4)]) =
    wordsOf buf (6 + 2 * n) := by
  induction n with
  | zero => rfl
  | succ n ih =>
    rw [List.range_succ, List.flatMap_append, ← List.append_assoc, ih,
      show 6 + 2 * (n + 1) = 6 + 2 * n + 1 + 1 by omega, wordsOf_succ, wordsOf_succ]
    simp only [List.flatMap_cons, List.flatMap_nil, List.append_nil, List.append_assoc,
      List.cons_append, List.nil_append, svuReqHdr]
    rw [show 24 + n * 8 = 4 * (6 + 2 * n) by omega,
      show 4 * (6 + 2 * n) + 4 = 4 * (6 + 2 * n + 1) by omega]

theorem decode_cases {buf : List UInt8} {r : SvuReq} (h : svuReqDecode buf = some r) :
    Accepted buf ∧ r =
      { magic := svuGet32 buf 0
        sessionId := svuGet32 buf 4
        mtu := svuGet32 buf 8
        blockSize := svuGet32 buf 12
        nofIntervals := svuGet32 buf 16
        clientAddr := svuGet32 buf 20
        intervals := (List.range (svuGet32 buf 16).toNat).map fun i =>
          ⟨svuGet32 buf (svuReqHdr + i * 8), svuGet32 buf (svuReqHdr + i * 8 + 4)⟩ } := by
  simp only [svuReqDecode] at h
  split at h
  · cases h
  · rename_i header
    split at h
    · cases h
    · rename_i fields
      split at h
      · cases h
      · rename_i whole
        obtain ⟨magic, count⟩ := not_or.mp fields
        simp only [svuReqHdr] at header whole
        constructor
        · exact ⟨by omega, not_not.mp magic, UInt32.not_lt.mp count, by omega⟩
        · exact (Option.some.inj h).symm

theorem decode_accepted {buf : List UInt8} (h : Accepted buf) :
    ∃ r, svuReqDecode buf = some r := by
  obtain ⟨header, magic, count, whole⟩ := h
  have bound : ¬ svuGet32 buf 16 > svuMaxIntervals := UInt32.not_lt.mpr count
  simp only [svuReqDecode]
  rw [if_neg (by simp only [svuReqHdr]; omega),
    if_neg (not_or.mpr ⟨not_not.mpr magic, bound⟩), if_neg (by simp only [svuReqHdr]; omega)]
  exact ⟨_, rfl⟩

/-- An accepted packet is the encoding of what was decoded, up to its last interval. -/
theorem encode_decode {buf : List UInt8} {r : SvuReq} (h : svuReqDecode buf = some r) :
    svuReqEncode r = buf.take (24 + 8 * r.nofIntervals.toNat) := by
  obtain ⟨⟨header, magic, count, whole⟩, rfl⟩ := decode_cases h
  have bound : ¬ svuGet32 buf 16 > svuMaxIntervals := UInt32.not_lt.mpr count
  have slots : ((List.range (svuGet32 buf 16).toNat).flatMap fun i =>
      let iv := ((List.range (svuGet32 buf 16).toNat).map fun i =>
        (⟨svuGet32 buf (svuReqHdr + i * 8), svuGet32 buf (svuReqHdr + i * 8 + 4)⟩ :
          SvuWireInterval)).getD i ⟨0, 0⟩
      [iv.start, iv.stop]) =
      (List.range (svuGet32 buf 16).toNat).flatMap fun i =>
        [svuGet32 buf (svuReqHdr + i * 8), svuGet32 buf (svuReqHdr + i * 8 + 4)] := by
    apply List.flatMap_congr
    intro i hi
    simp [List.mem_range.mp hi]
  rw [svuReqEncode]
  simp only [if_neg bound]
  rw [slots, words_of_packet, putWords_wordsOf buf _ (by omega)]
  congr 1
  omega

/-- `svu_get32` with its four bytes inside the packet. -/
def svuGet32In (p : List UInt8) (i : Nat) : Except Fault UInt32 :=
  if i + 4 ≤ p.length then .ok (svuGet32 p i) else .error .outOfBounds

/-- `svu_req_decode`, every read of the packet checked. -/
def svuReqDecodeIn (buf : List UInt8) : Except Fault (Option SvuReq) := do
  if buf.length < svuReqHdr then return none
  let magic ← svuGet32In buf 0
  let sessionId ← svuGet32In buf 4
  let mtu ← svuGet32In buf 8
  let blockSize ← svuGet32In buf 12
  let nofIntervals ← svuGet32In buf 16
  let clientAddr ← svuGet32In buf 20
  if magic ≠ svuMagicReq ∨ nofIntervals > svuMaxIntervals then return none
  if buf.length < svuReqHdr + nofIntervals.toNat * 8 then return none
  let intervals ← (List.range nofIntervals.toNat).mapM fun i => do
    let start ← svuGet32In buf (svuReqHdr + i * 8)
    let stop ← svuGet32In buf (svuReqHdr + i * 8 + 4)
    return ⟨start, stop⟩
  return some { magic, sessionId, mtu, blockSize, nofIntervals, clientAddr, intervals }

theorem get32In_ok {p : List UInt8} {i : Nat} (h : i + 4 ≤ p.length) :
    svuGet32In p i = .ok (svuGet32 p i) :=
  if_pos h

/-- A loop whose every pass is fine is fine. -/
theorem mapM_ok {ε α β : Type} {f : α → Except ε β} {g : α → β} (l : List α)
    (h : ∀ x ∈ l, f x = .ok (g x)) : l.mapM f = .ok (l.map g) := by
  induction l with
  | nil => rfl
  | cons x xs ih =>
    have tail := ih fun y hy => h y (List.mem_cons_of_mem x hy)
    rw [List.mapM_cons, h x List.mem_cons_self, tail]
    rfl

/-- No read is past the end. -/
theorem decodeIn_eq (buf : List UInt8) : svuReqDecodeIn buf = .ok (svuReqDecode buf) := by
  by_cases header : buf.length < svuReqHdr
  · simp only [svuReqDecodeIn, svuReqDecode, if_pos header]
    rfl
  · have hdr : svuReqHdr = 24 := rfl
    have inHeader : ∀ i ≤ 20, svuGet32In buf i = .ok (svuGet32 buf i) := by
      intro i hi
      exact get32In_ok (by omega)
    simp only [svuReqDecodeIn, svuReqDecode, if_neg header, inHeader 0 (by omega),
      inHeader 4 (by omega), inHeader 8 (by omega), inHeader 12 (by omega),
      inHeader 16 (by omega), inHeader 20 (by omega)]
    by_cases fields : svuGet32 buf 0 ≠ svuMagicReq ∨ svuGet32 buf 16 > svuMaxIntervals
    · simp only [bind, Except.bind, if_pos fields]
      rfl
    · by_cases whole : buf.length < svuReqHdr + (svuGet32 buf 16).toNat * 8
      · simp only [bind, Except.bind, if_neg fields, if_pos whole]
        rfl
      · have loop := mapM_ok (f := fun i => do
            let start ← svuGet32In buf (svuReqHdr + i * 8)
            let stop ← svuGet32In buf (svuReqHdr + i * 8 + 4)
            return (⟨start, stop⟩ : SvuWireInterval))
          (g := fun i =>
            ⟨svuGet32 buf (svuReqHdr + i * 8), svuGet32 buf (svuReqHdr + i * 8 + 4)⟩)
          (List.range (svuGet32 buf 16).toNat) (by
            intro i hi
            have hlt := List.mem_range.mp hi
            rw [get32In_ok (by omega), get32In_ok (by omega)]
            rfl)
        simp only [bind, Except.bind, if_neg fields, if_neg whole] at loop ⊢
        rw [loop]
        rfl

/-- The codec in both directions: a request of at most 32 intervals comes back, a longer
one comes back cut to its first 32, an accepted packet is written back, and acceptance is
decided by the header and the length without a read past the end. -/
theorem req_codec :
    (∀ (r : SvuReq) (rest : List UInt8), r.magic = svuMagicReq → r.nofIntervals ≤ 32 →
      svuReqDecode (svuReqEncode r ++ rest) = some (r.cut r.nofIntervals)) ∧
    (∀ (r : SvuReq) (rest : List UInt8), r.magic = svuMagicReq → 32 < r.nofIntervals →
      svuReqDecode (svuReqEncode r ++ rest) = some (r.cut 32)) ∧
    (∀ (buf : List UInt8) (r : SvuReq), svuReqDecode buf = some r →
      svuReqEncode r = buf.take (24 + 8 * r.nofIntervals.toNat)) ∧
    (∀ buf : List UInt8, (∃ r, svuReqDecode buf = some r) ↔
      24 ≤ buf.length ∧ svuGet32 buf 0 = svuMagicReq ∧ svuGet32 buf 16 ≤ 32 ∧
        24 + 8 * (svuGet32 buf 16).toNat ≤ buf.length) ∧
    ∀ buf : List UInt8, svuReqDecodeIn buf = .ok (svuReqDecode buf) := by
  refine ⟨?_, ?_, ?_, ?_, decodeIn_eq⟩
  · intro r rest magic few
    exact decode_cut r rest magic _ (if_neg (UInt32.not_lt.mpr few)).symm
  · intro r rest magic many
    exact decode_cut r rest magic 32 (if_pos many).symm
  · intro buf r h
    exact encode_decode h
  · intro buf
    constructor
    · rintro ⟨r, h⟩
      obtain ⟨⟨header, magic, count, whole⟩, -⟩ := decode_cases h
      exact ⟨header, magic, count, whole⟩
    · rintro ⟨header, magic, count, whole⟩
      exact decode_accepted ⟨header, magic, count, whole⟩

/-- One interval announced, two slots filled and a byte behind the packet. -/
theorem req_codec_one_interval :
    svuReqDecode (svuReqEncode ⟨svuMagicReq, 7, 256, 4096, 1, 31, [⟨0, 9⟩, ⟨5, 6⟩]⟩ ++ [255]) =
      some ⟨svuMagicReq, 7, 256, 4096, 1, 31, [⟨0, 9⟩]⟩ :=
  req_codec.1 ⟨svuMagicReq, 7, 256, 4096, 1, 31, [⟨0, 9⟩, ⟨5, 6⟩]⟩ [255] rfl (by decide)

end CspLinksim.Svu
