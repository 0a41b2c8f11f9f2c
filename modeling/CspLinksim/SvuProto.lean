import Mathlib.Algebra.Group.Nat.Defs
import Mathlib.Data.List.GetD
import CspLinksim.Packet
import CspLinksim.SvuVerify
import CspLinksim.Lib.MachineWords

/-!
# The uploader's wire format (`svu_proto.h`)

All integers are little-endian 32-bit words, and a control message is a list of
them.
-/

namespace CspLinksim.Svu

open Packet MachineWords

def svuDataHdr : Nat := 8
def svuMagicReq : UInt32 := 0x51555653
def svuMagicResp : UInt32 := 0x52555653
def svuMaxIntervals : UInt32 := 32
def svuReqHdr : Nat := 24
def svuRespHdr : Nat := 20

def svuPut32 (v : UInt32) : List UInt8 :=
  [(v &&& 0xFF).toUInt8, ((v >>> 8) &&& 0xFF).toUInt8, ((v >>> 16) &&& 0xFF).toUInt8,
    ((v >>> 24) &&& 0xFF).toUInt8]

/-- `svu_get32` at byte `i`. -/
def svuGet32 (p : List UInt8) (i : Nat) : UInt32 := le32 p i

/-- It mirrors `ci_svu_interval_t`. -/
abbrev SvuWireInterval : Type := CiSvuInterval

/-- A meta request; the slots of `intervals` past the end of the list are zero. -/
structure SvuReq where
  magic : UInt32
  sessionId : UInt32
  mtu : UInt32
  blockSize : UInt32
  nofIntervals : UInt32
  clientAddr : UInt32
  intervals : List SvuWireInterval
  deriving DecidableEq

/-- Consecutive words of a message. -/
def putWords (ws : List UInt32) : List UInt8 := ws.flatMap svuPut32

def svuReqEncode (r : SvuReq) : List UInt8 :=
  let n := if r.nofIntervals > svuMaxIntervals then svuMaxIntervals else r.nofIntervals
  putWords ([r.magic, r.sessionId, r.mtu, r.blockSize, n, r.clientAddr] ++
    (List.range n.toNat).flatMap fun i =>
      let iv := r.intervals.getD i ⟨0, 0⟩
      [iv.start, iv.stop])

/-- A parsed request; `none` is the return value -1. -/
def svuReqDecode (buf : List UInt8) : Option SvuReq :=
  if buf.length < svuReqHdr then none
  else
    let magic := svuGet32 buf 0
    let nofIntervals := svuGet32 buf 16
    if magic ≠ svuMagicReq ∨ nofIntervals > svuMaxIntervals then none
    else if buf.length < svuReqHdr + nofIntervals.toNat * 8 then none
    else some
      { magic
        sessionId := svuGet32 buf 4
        mtu := svuGet32 buf 8
        blockSize := svuGet32 buf 12
        nofIntervals
        clientAddr := svuGet32 buf 20
        intervals := (List.range nofIntervals.toNat).map fun i =>
          ⟨svuGet32 buf (svuReqHdr + i * 8), svuGet32 buf (svuReqHdr + i * 8 + 4)⟩ }

theorem byte_toNat (v : UInt32) : (v &&& 0xFF).toUInt8.toUInt32.toNat = v.toNat % 256 := by
  have h : (v &&& 0xFF).toNat = v.toNat % 256 := by
    rw [UInt32.toNat_and]
    exact Nat.and_two_pow_sub_one_eq_mod v.toNat 8
  rw [UInt8.toNat_toUInt32, UInt32.toNat_toUInt8, h]
  omega

theorem get32_put32 (v : UInt32) (rest : List UInt8) : svuGet32 (svuPut32 v ++ rest) 0 = v := by
  have hv := v.toNat_lt
  have b0 := byte_toNat v
  have b1 := byte_toNat (v >>> 8)
  have b2 := byte_toNat (v >>> 16)
  have b3 := byte_toNat (v >>> 24)
  rw [show (v >>> 8).toNat = v.toNat / 2 ^ 8 from shiftRight_toNat v 8 (by decide)] at b1
  rw [show (v >>> 16).toNat = v.toNat / 2 ^ 16 from shiftRight_toNat v 16 (by decide)] at b2
  rw [show (v >>> 24).toNat = v.toNat / 2 ^ 24 from shiftRight_toNat v 24 (by decide)] at b3
  have s1 := or_shiftLeft_toNat _ _ 8 (by decide) (by rw [b0]; omega) (by rw [b1]; omega)
  have s2 := or_shiftLeft_toNat _ _ 16 (by decide) (by rw [s1, b0, b1]; omega)
    (by rw [b2]; omega)
  have s3 := or_shiftLeft_toNat _ _ 24 (by decide) (by rw [s2, s1, b0, b1, b2]; omega)
    (by rw [b3]; omega)
  apply UInt32.toNat_inj.mp
  refine Eq.trans s3 ?_
  rw [s2, s1, b0, b1, b2, b3]
  omega

theorem putWords_length (ws : List UInt32) : (putWords ws).length = 4 * ws.length := by
  induction ws with
  | nil => rfl
  | cons w ws ih =>
    rw [putWords, List.flatMap_cons, List.length_append, ← putWords, ih]
    simp [svuPut32]
    omega

/-- Word `k` of a message is read back at byte `4 k`. -/
theorem get32_putWords (ws : List UInt32) (k : Nat) (hk : k < ws.length) (rest : List UInt8) :
    svuGet32 (putWords ws ++ rest) (4 * k) = ws.getD k 0 := by
  induction ws generalizing k with
  | nil => cases hk
  | cons w ws ih =>
    have hcons : putWords (w :: ws) ++ rest = svuPut32 w ++ (putWords ws ++ rest) := by
      rw [putWords, List.flatMap_cons, List.append_assoc, putWords]
    rw [hcons]
    cases k with
    | zero => exact get32_put32 w _
    | succ k =>
      have skip : ∀ j, (svuPut32 w ++ (putWords ws ++ rest)).getD (4 * (k + 1) + j) 0 =
          (putWords ws ++ rest).getD (4 * k + j) 0 := by
        intro j
        rw [show 4 * (k + 1) + j = 4 + (4 * k + j) by omega, List.getD_append_right _ _ _ _
          (by simp [svuPut32])]
        congr 1
        simp [svuPut32]
      have tail := ih k (by simpa using hk)
      rw [svuGet32, le32] at tail ⊢
      rw [show 4 * (k + 1) = 4 * (k + 1) + 0 from rfl]
      simp only [Nat.add_assoc, skip, List.getD_cons_succ]
      simpa using tail

/-- The words of a list of intervals. -/
theorem getD_pairs (ivs : List SvuWireInterval) (k : Nat) :
    (ivs.flatMap fun iv => [iv.start, iv.stop]).getD (2 * k) 0 = (ivs.getD k ⟨0, 0⟩).start ∧
    (ivs.flatMap fun iv => [iv.start, iv.stop]).getD (2 * k + 1) 0 = (ivs.getD k ⟨0, 0⟩).stop := by
  induction ivs generalizing k with
  | nil => exact ⟨rfl, rfl⟩
  | cons iv ivs ih =>
    cases k with
    | zero => exact ⟨rfl, rfl⟩
    | succ k => exact ih k

theorem length_pairs (ivs : List SvuWireInterval) :
    (ivs.flatMap fun iv => [iv.start, iv.stop]).length = 2 * ivs.length := by
  induction ivs with
  | nil => rfl
  | cons iv ivs ih =>
    rw [List.flatMap_cons, List.length_append, ih]
    simp
    omega

theorem map_getD_range {α : Type} (l : List α) (d : α) :
    (List.range l.length).map (fun i => l.getD i d) = l := by
  apply List.ext_getElem
  · simp
  · intro i h1 h2
    simp [h2]

/-- A request of at most 32 intervals arrives as it was sent, whatever follows it. -/
theorem decode_encode_append (r : SvuReq) (hmagic : r.magic = svuMagicReq)
    (hn : r.nofIntervals.toNat = r.intervals.length) (few : r.intervals.length ≤ 32)
    (rest : List UInt8) : svuReqDecode (svuReqEncode r ++ rest) = some r := by
  have hcap : ¬ r.nofIntervals > svuMaxIntervals := by
    rw [gt_iff_lt, UInt32.lt_iff_toNat_lt, hn]
    exact Nat.not_lt.mpr few
  have hpairs : ((List.range r.nofIntervals.toNat).flatMap fun i =>
      [(r.intervals.getD i ⟨0, 0⟩).start, (r.intervals.getD i ⟨0, 0⟩).stop]) =
      r.intervals.flatMap fun iv => [iv.start, iv.stop] := by
    have h := map_getD_range r.intervals ⟨0, 0⟩
    conv_rhs => rw [← h, List.flatMap_map]
    rw [hn]
  obtain ⟨ws, hws⟩ : ∃ ws, ws = [r.magic, r.sessionId, r.mtu, r.blockSize, r.nofIntervals,
      r.clientAddr] ++ r.intervals.flatMap fun iv => [iv.start, iv.stop] := ⟨_, rfl⟩
  have hlen : ws.length = 6 + 2 * r.intervals.length := by
    rw [hws, List.length_append, length_pairs]
    rfl
  have henc : svuReqEncode r = putWords ws := by
    simp only [svuReqEncode, if_neg hcap, hpairs, hws]
  obtain ⟨buf, hbuf⟩ : ∃ buf, buf = putWords ws ++ rest := ⟨_, rfl⟩
  have word : ∀ k < ws.length, svuGet32 buf (4 * k) = ws.getD k 0 := by
    intro k hk
    exact hbuf ▸ get32_putWords ws k hk rest
  have wmagic : svuGet32 buf 0 = r.magic := by
    simpa [hws] using word 0 (by omega)
  have wsession : svuGet32 buf 4 = r.sessionId := by
    simpa [hws] using word 1 (by omega)
  have wmtu : svuGet32 buf 8 = r.mtu := by
    simpa [hws] using word 2 (by omega)
  have wblock : svuGet32 buf 12 = r.blockSize := by
    simpa [hws] using word 3 (by omega)
  have wnof : svuGet32 buf 16 = r.nofIntervals := by
    simpa [hws] using word 4 (by omega)
  have waddr : svuGet32 buf 20 = r.clientAddr := by
    simpa [hws] using word 5 (by omega)
  have wivs : ((List.range r.nofIntervals.toNat).map fun i =>
      (⟨svuGet32 buf (svuReqHdr + i * 8),
        svuGet32 buf (svuReqHdr + i * 8 + 4)⟩ : CiSvuInterval)) = r.intervals := by
    conv_rhs => rw [← map_getD_range r.intervals ⟨0, 0⟩, ← hn]
    apply List.map_congr_left
    intro i hi
    have hlt : i < r.intervals.length := hn ▸ List.mem_range.mp hi
    obtain ⟨hstart, hstop⟩ := getD_pairs r.intervals i
    rw [show svuReqHdr + i * 8 = 4 * (6 + 2 * i) by unfold svuReqHdr; omega,
      show 4 * (6 + 2 * i) + 4 = 4 * (6 + (2 * i + 1)) by omega, word _ (by omega),
      word _ (by omega), hws, List.getD_append_right _ _ _ _ (by simp),
      List.getD_append_right _ _ _ _ (by simp)]
    simp only [List.length_cons, List.length_nil, Nat.zero_add, Nat.reduceAdd,
      Nat.add_sub_cancel_left, hstart, hstop]
  have hbytes : buf.length = 4 * ws.length + rest.length := by
    rw [hbuf, List.length_append, putWords_length]
  have hdr : svuReqHdr = 24 := rfl
  rw [henc, ← hbuf, svuReqDecode, if_neg (by omega)]
  simp only [wmagic, wsession, wmtu, wblock, wnof, waddr, wivs]
  rw [if_neg (by simp [hmagic, hcap]), if_neg (by omega)]

theorem decode_encode (r : SvuReq) (hmagic : r.magic = svuMagicReq)
    (hn : r.nofIntervals.toNat = r.intervals.length) (few : r.intervals.length ≤ 32) :
    svuReqDecode (svuReqEncode r) = some r := by
  simpa using decode_encode_append r hmagic hn few []

end CspLinksim.Svu
