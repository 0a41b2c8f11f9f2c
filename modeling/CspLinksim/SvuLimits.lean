import Mathlib.Tactic.IntervalCases
import CspLinksim.SvuRanges
import CspLinksim.SvuUpload

/-!
# Where the 32-bit sizes end

The rounding of the block count and the size of the manifest are computed in 32 bits,
the allocations and copies in 64. The first part is about the block count, the second
about the manifest.
-/

namespace CspLinksim.Svu

open Packet Pieces

/-- The two ends of block `b`, as `hash_block` computes them. -/
def blockSpan (total block : UInt32) (b : Nat) : Nat × Nat :=
  (b * block.toNat, min (b * block.toNat + block.toNat) total.toNat)

theorem hashBlock_span (src : List UInt8) (total block : UInt32) (b : Nat) :
    hashBlock src total block b = Sha256.sha256 (slice src ((blockSpan total block b).1,
      (blockSpan total block b).2 - (blockSpan total block b).1)) :=
  rfl

/-- The block count rounds up, and the blocks tile the payload. -/
structure TiledByBlocks (total block : UInt32) : Prop where
  ceiling : (ciSvuNblocks total block).toNat = total.toNat ⌈/⌉ block.toNat
  tiles : Tiling 0 total.toNat
    ((List.range (ciSvuNblocks total block).toNat).map (blockSpan total block))

/-- With some mtu, on a link that loses nothing, one round brings the payload. -/
def Receivable (src : List UInt8) (total block blockSize : UInt32) : Prop :=
  ∃ mtu frames env sess r,
    svuServeData (svuServe src total block)
      (svuReqEncode (roundRequest mtu blockSize sessionStart)) = .ok frames ∧
    (∀ a ∈ env.attempts, ControlSound (svuServe src total block) a) ∧ env.drains = [frames] ∧
    clientRound (svuServe src total block) mtu blockSize sessionStart env = .ok (.verdict sess) ∧
    sess.st = .completeVerified ∧ sess.recv = some r ∧ ciSvuData r = src

theorem nblocks_ne_zero {total block : UInt32} (htotal : 1 ≤ total) (hblock : 1 ≤ block)
    (room : total.toNat + block.toNat ≤ 4294967296) : ciSvuNblocks total block ≠ 0 := by
  have ht := UInt32.le_iff_toNat_le.mp htotal
  have hb := UInt32.le_iff_toNat_le.mp hblock
  have hone : UInt32.toNat 1 = 1 := rfl
  have some : ¬ (total = 0 ∨ block = 0) := by
    rintro (rfl | rfl)
    · exact absurd htotal (by decide)
    · exact absurd hblock (by decide)
  intro zero
  rw [ciSvuNblocks, if_neg some] at zero
  have hquot := congrArg UInt32.toNat zero
  have hsum : (total + block - 1).toNat = total.toNat - 1 + block.toNat := by
    rw [UInt32.toNat_sub, UInt32.toNat_add, hone]
    omega
  rw [UInt32.toNat_div, hsum, Nat.add_div_right _ (by omega)] at hquot
  cases hquot

theorem tiled_of_room {total block : UInt32} (htotal : 1 ≤ total) (hblock : 1 ≤ block)
    (room : total.toNat + block.toNat ≤ 4294967296) : TiledByBlocks total block := by
  obtain ⟨ht, hb, _, hn⟩ := nblocks_pos (nblocks_ne_zero htotal hblock room)
  have ceiling : (ciSvuNblocks total block).toNat = total.toNat ⌈/⌉ block.toNat := by
    rw [hn, Nat.ceilDiv_eq_add_pred_div, ← Nat.add_div_right _ hb]
    congr 1
    omega
  refine ⟨ceiling, ?_⟩
  have spans : (List.range (ciSvuNblocks total block).toNat).map (blockSpan total block) =
      (pieces block.toNat total.toNat total.toNat 0).map span := by
    rw [pieces_eq_range hb (Nat.le_refl _), List.map_map, ceiling]
    apply List.map_congr_left
    intro b hmem
    have inside : b * block.toNat < total.toNat := by
      apply blockStart_lt (nblocks_ne_zero htotal hblock room)
      rw [ceiling]
      exact List.mem_range.mp hmem
    simp only [blockSpan, Function.comp, span, Prod.mk.injEq, true_and]
    omega
  rw [spans]
  exact tiling_pieces hb (by omega)

/-- A sum that wraps makes the block count zero. -/
theorem room_of_tiled {total block : UInt32} (htotal : 1 ≤ total) (hblock : 1 ≤ block)
    (h : TiledByBlocks total block) : total.toNat + block.toNat ≤ 4294967296 := by
  have ht : 1 ≤ total.toNat := UInt32.le_iff_toNat_le.mp htotal
  have hb : 1 ≤ block.toNat := UInt32.le_iff_toNat_le.mp hblock
  by_cases zero : ciSvuNblocks total block = 0
  · have ceiling := h.ceiling
    rw [zero, Nat.ceilDiv_eq_add_pred_div] at ceiling
    have := Nat.div_pos (show block.toNat ≤ total.toNat + block.toNat - 1 by omega) hb
    have hzero : UInt32.toNat 0 = 0 := rfl
    omega
  · exact (nblocks_pos zero).2.2.1

/-- What an exchange hands out was read from the packets that arrived. -/
theorem ctrlExchange_some {a : Attempt} {rx : List Payload} {reply : CtrlReply}
    (h : ctrlExchange a rx = .ok (some reply)) :
    ∃ hp rest, rx = hp :: rest ∧ reply.total = svuGet32 hp 8 ∧ reply.block = svuGet32 hp 12 ∧
      reply.nblocks = svuGet32 hp 16 ∧
      readManifest (reply.nblocks * UInt32.ofNat ciSvuHashLen) [] 0 rest =
        .ok (some reply.manifest) := by
  cases rx with
  | nil => simp [ctrlExchange] at h
  | cons hp rest =>
    simp only [ctrlExchange] at h
    split at h
    · cases h
    split at h
    · cases h
    split at h
    · cases h
    split at h
    · cases h
    cases hread : readManifest (svuGet32 hp 16 * UInt32.ofNat ciSvuHashLen) [] 0 rest with
    | error e => simp [hread] at h
    | ok result =>
      cases result with
      | none => simp [hread] at h
      | some manifest =>
        rw [hread] at h
        cases h
        exact ⟨hp, rest, rfl, rfl, rfl, rfl, hread⟩

theorem ctrlExchange_length {a : Attempt} {rx : List Payload} {reply : CtrlReply}
    (h : ctrlExchange a rx = .ok (some reply)) :
    reply.manifest.length = (reply.nblocks * UInt32.ofNat ciSvuHashLen).toNat := by
  obtain ⟨hp, rest, _, _, _, _, hread⟩ := ctrlExchange_some h
  exact readManifest_length (Nat.zero_le _) rfl hread

/-- Over a sound link the reply repeats the sender's header. -/
theorem exchange_some {s : Source} {a : Attempt} (sound : ControlSound s a) {req : Payload}
    {reply : CtrlReply} (h : exchange s req a = .ok (some reply)) :
    (∃ chunks, sendManifest s.manifest (s.nblocks * UInt32.ofNat ciSvuHashLen) = .ok chunks) ∧
      reply.total = s.total ∧ reply.block = s.blockSize ∧ reply.nblocks = s.nblocks ∧
      reply.manifest.length = (s.nblocks * UInt32.ofNat ciSvuHashLen).toNat := by
  have whole : ∀ pkts, svuServeControl s req = .ok pkts → arrivals a.kept pkts = pkts := by
    rcases sound req with lost | whole
    · rw [lost] at h
      cases h
    · exact whole
  have silent : ∀ {reply}, ctrlExchange a [] ≠ .ok (some reply) := by
    intro reply h
    obtain ⟨_, _, empty, _⟩ := ctrlExchange_some h
    cases empty
  rw [exchange] at h
  split at h
  · cases hserve : svuServeControl s req with
    | error f => simp [hserve] at h
    | ok pkts =>
      simp only [hserve, whole pkts hserve] at h
      rw [svuServeControl] at hserve
      cases hreq : svuReqDecode req with
      | none =>
        simp only [hreq] at hserve
        cases hserve
        exact absurd h silent
      | some r =>
        simp only [hreq, sendResponse] at hserve
        cases hsend : sendManifest s.manifest (s.nblocks * UInt32.ofNat ciSvuHashLen) with
        | error f => simp [hsend] at hserve
        | ok chunks =>
          rw [hsend] at hserve
          cases hserve
          have size := ctrlExchange_length h
          obtain ⟨hp, rest, hrx, total, block, nblocks, _⟩ := ctrlExchange_some h
          cases hrx
          obtain ⟨_, _, htotal, hblock, hnblocks⟩ := respHeader_reads s r.sessionId
          rw [htotal] at total
          rw [hblock] at block
          rw [hnblocks] at nblocks
          exact ⟨⟨chunks, rfl⟩, total, block, nblocks, nblocks ▸ size⟩
  · exact absurd h silent

theorem attemptLoop_some {s : Source} {req : Payload} {as : List Attempt} {reply : CtrlReply}
    (h : attemptLoop s req as = .ok (some reply)) :
    ∃ a ∈ as, exchange s req a = .ok (some reply) := by
  induction as with
  | nil => cases h
  | cons a as ih =>
    rw [attemptLoop] at h
    cases hex : exchange s req a with
    | error f => simp [hex] at h
    | ok answer =>
      cases answer with
      | some reply' =>
        simp only [hex] at h
        exact ⟨a, List.mem_cons_self, hex.trans h⟩
      | none =>
        simp only [hex] at h
        obtain ⟨b, hb, hreply⟩ := ih h
        exact ⟨b, List.mem_cons_of_mem a hb, hreply⟩

/-- A tracker that is made copies no more than it was given. -/
theorem new_fits {heap : Bool} {total block : UInt32} {expected : List UInt8} {nblocks : UInt32}
    {r : CiSvu} (h : ciSvuNew heap total block expected nblocks = .ok (some r)) :
    nblocks ≠ 0 ∧ nblocks.toNat * 32 ≤ expected.length := by
  obtain ⟨_, _, hnblocks, hexpected, _⟩ := new_cases h
  have size := r.expected_size
  rw [hexpected, List.length_take, hnblocks, show ciSvuHashLen = 32 from rfl] at size
  exact ⟨hnblocks ▸ r.nblocks_ne, by omega⟩

/-- A first round that gets a tracker over a sound link had room for the manifest. -/
theorem room_of_verdict {s : Source} {mtu blockSize : UInt32} {env : RoundEnv}
    (sound : ∀ a ∈ env.attempts, ControlSound s a) {sess : Session}
    (h : clientRound s mtu blockSize sessionStart env = .ok (.verdict sess)) :
    s.nblocks ≠ 0 ∧ s.nblocks.toNat ≤ 134217725 := by
  rcases clientRound_cases h with done | ⟨reply, recv, hctrl, hrecv | ⟨_, hnew⟩, _⟩
  · cases done
  · cases hrecv
  · obtain ⟨a, ha, hreply⟩ := attemptLoop_some hctrl
    obtain ⟨⟨chunks, hsend⟩, _, _, nblocks, hlen⟩ :=
      exchange_some (sound a (List.mem_of_mem_take ha)) hreply
    obtain ⟨nonzero, fits⟩ := new_fits hnew
    rw [nblocks] at nonzero fits
    rw [UInt32.toNat_mul, show (UInt32.ofNat ciSvuHashLen).toNat = 32 from rfl] at hlen
    have sent : sendResponse s 1 = .ok (respHeader s 1 :: chunks) := by
      rw [sendResponse, hsend]
    exact ⟨nonzero, room_of_served (by omega) sent⟩

/-- Frames of one byte each reach every byte of a file below 2^32. -/
theorem byteFrames_served {src : List UInt8} {total block : UInt32}
    (size : src.length = total.toNat) (blockSize : UInt32) :
    svuServeData (svuServe src total block)
      (svuReqEncode (roundRequest 9 blockSize sessionStart)) = .ok (byteFrames src total) := by
  have htotal := total.toNat_lt
  have above : svuDataHdr < UInt32.toNat 9 := by decide
  have hpay : UInt32.toNat 9 - svuDataHdr = 1 := rfl
  have hhdr : svuDataHdr = 8 := rfl
  have hbuf : cspBufferSize = 2048 := rfl
  have blasted := @blastInterval_fits src 9 0 total 1 above (Nat.le_of_eq size.symm) (by
    intro more
    have hlt := UInt32.lt_iff_toNat_lt.mp more
    refine ⟨?_, (room_iff (by decide) hlt).mpr ?_⟩
    · rw [hpay]
      omega
    · intro k hk
      rw [hpay] at hk ⊢
      omega)
  simp only [svuServeData, firstRequest_decodes]
  rw [byteFrames, ← size, List.take_length, size]
  exact blasted

/-- The block count is right exactly if the rounded-up sum does not wrap; the file can be
served and received exactly if in addition the manifest can be sent. -/
theorem tiled_and_receivable_iff (total block : UInt32) (htotal : 1 ≤ total) (hblock : 1 ≤ block) :
    (TiledByBlocks total block ↔ total.toNat + block.toNat ≤ 4294967296) ∧
    ((TiledByBlocks total block ∧
        ∀ src blockSize, src.length = total.toNat → Receivable src total block blockSize) ↔
      total.toNat + block.toNat ≤ 4294967296 ∧ total.toNat ≤ 134217725 * block.toNat) := by
  have hb : 0 < block.toNat := UInt32.le_iff_toNat_le.mp hblock
  have tiled : TiledByBlocks total block ↔ total.toNat + block.toNat ≤ 4294967296 :=
    ⟨room_of_tiled htotal hblock, tiled_of_room htotal hblock⟩
  have few : TiledByBlocks total block → ((ciSvuNblocks total block).toNat ≤ 134217725 ↔
      total.toNat ≤ 134217725 * block.toNat) := by
    intro h
    rw [h.ceiling, ceilDiv_le_iff_le_mul hb, Nat.mul_comm]
  refine ⟨tiled, ?_, ?_⟩
  · rintro ⟨h, received⟩
    obtain ⟨mtu, frames, env, sess, r, _, sound, _, round, _⟩ :=
      received (List.replicate total.toNat 0) block List.length_replicate
    exact ⟨tiled.mp h, (few h).mp (room_of_verdict sound round).2⟩
  · rintro ⟨room, small⟩
    have h := tiled.mpr room
    refine ⟨h, ?_⟩
    intro src blockSize size
    obtain ⟨env, sess, r, sound, drains, round, settled, built, verified, right⟩ :=
      lossless_round (nblocks_ne_zero htotal hblock room) ((few h).mpr small)
        (Nat.le_of_eq size.symm) 9 blockSize
    have hr : r.total = total := built.total
    refine ⟨9, byteFrames src total, env, sess, r, byteFrames_served size blockSize, sound, drains,
      round, settled.st.trans verified, settled.recv, ?_⟩
    exact (data_eq_of_bytes (by rw [hr, size])).mp (by rwa [hr])

theorem small_file_is_receivable :
    (TiledByBlocks 3 2 ↔ UInt32.toNat 3 + UInt32.toNat 2 ≤ 4294967296) ∧
    ((TiledByBlocks 3 2 ∧ ∀ src blockSize, src.length = UInt32.toNat 3 →
        Receivable src 3 2 blockSize) ↔
      UInt32.toNat 3 + UInt32.toNat 2 ≤ 4294967296 ∧
        UInt32.toNat 3 ≤ 134217725 * UInt32.toNat 2) :=
  tiled_and_receivable_iff 3 2 (by decide) (by decide)

/-- A block size of 2^32 - 1 leaves a file of two bytes without a block. -/
theorem two_bytes_have_no_block :
    ciSvuNblocks 2 4294967295 = 0 ∧ ¬ TiledByBlocks 2 4294967295 := by
  refine ⟨by decide, ?_⟩
  intro h
  exact absurd (room_of_tiled (by decide) (by decide) h) (by decide)

/-- The manifest of a reply consists of received bytes, enough of them for all its blocks,
and whatever tracker is made of it copies only these. -/
structure Backed (rx : List Payload) (reply : CtrlReply) : Prop where
  enough : reply.nblocks.toNat * ciSvuHashLen ≤ reply.manifest.length
  received : reply.manifest.Sublist rx.flatten
  copied : ∀ heap, ∃ made,
    ciSvuNew heap reply.total reply.block reply.manifest reply.nblocks = .ok made ∧
      ∀ r, made = some r → r.expected.Sublist reply.manifest

/-- The manifest chunks of the sender carry every digest of the manifest and nothing else. -/
def SendsManifest (s : Source) : Prop :=
  ∃ chunks, sendManifest s.manifest (s.nblocks * UInt32.ofNat ciSvuHashLen) = .ok chunks ∧
    chunks.flatten.length = s.nblocks.toNat * ciSvuHashLen

theorem readManifest_sublist {manBytes got : UInt32} {manifest result : List UInt8}
    {rx : List Payload} (h : readManifest manBytes manifest got rx = .ok (some result)) :
    result.Sublist (manifest ++ rx.flatten) := by
  induction rx generalizing manifest got with
  | nil =>
    rw [readManifest] at h
    split at h
    · cases h
    · cases h
      simp
  | cons mp rest ih =>
    obtain ⟨take, htake⟩ : ∃ take : UInt32, take =
        if got + UInt32.ofNat mp.length > manBytes then manBytes - got
        else UInt32.ofNat mp.length := ⟨_, rfl⟩
    simp only [readManifest, ← htake] at h
    split at h
    · split at h
      · refine (ih h).trans ?_
        rw [List.append_assoc, List.flatten_cons]
        exact (List.Sublist.refl _).append ((List.take_sublist _ _).append (List.Sublist.refl _))
      · cases h
    · cases h
      exact List.sublist_append_left _ _

/-- A manifest that is long enough never faults the tracker. -/
theorem new_of_long {total block nblocks : UInt32} {expected : List UInt8}
    (long : nblocks.toNat * ciSvuHashLen ≤ expected.length) (heap : Bool) :
    ∃ made, ciSvuNew heap total block expected nblocks = .ok made ∧
      ∀ r, made = some r → r.expected.Sublist expected := by
  cases hnew : ciSvuNew heap total block expected nblocks with
  | error f =>
    simp only [ciSvuNew] at hnew
    split at hnew
    · cases hnew
    · rename_i agree
      split at hnew
      · cases hnew
      · split at hnew
        · cases hnew
        · rename_i short
          rw [show ciSvuNblocks total block = nblocks by
            by_contra differ
            exact agree (Or.inr differ)] at short
          exact absurd long short
  | ok made =>
    refine ⟨made, rfl, ?_⟩
    rintro r rfl
    obtain ⟨_, _, _, hexpected, _⟩ := new_cases hnew
    rw [hexpected]
    exact List.take_sublist _ _

/-- What a reply holds is short exactly if the product of the header wraps. -/
theorem backed_iff {a : Attempt} {hp : Payload} {rest : List Payload} {reply : CtrlReply}
    (h : ctrlExchange a (hp :: rest) = .ok (some reply)) :
    Backed rest reply ↔ (svuGet32 hp 16).toNat < 134217728 := by
  have size := ctrlExchange_length h
  obtain ⟨_, _, hrx, _, _, hnblocks, hread⟩ := ctrlExchange_some h
  cases hrx
  rw [UInt32.toNat_mul, show (UInt32.ofNat ciSvuHashLen).toNat = 32 from rfl] at size
  rw [← hnblocks]
  constructor
  · intro backed
    have enough := backed.enough
    rw [ciSvuHashLen] at enough
    omega
  · intro few
    have enough : reply.nblocks.toNat * ciSvuHashLen ≤ reply.manifest.length := by
      rw [ciSvuHashLen]
      omega
    exact ⟨enough, by simpa using readManifest_sublist hread, new_of_long enough⟩

/-- Past 2^32 the offsets of the chunks start again at a small number; the loop goes round
until they meet the end. -/
theorem chunkLoop_laps {stop : UInt32} {buf : List UInt8} {last : Nat}
    (before : ∀ v, v % 200 = 0 → v < last → v % 4294967296 < stop.toNat)
    (meets : last % 4294967296 = stop.toNat) (whole : last % 200 = 0)
    (long : stop.toNat + 200 ≤ buf.length) (n v : Nat) (hv : v % 200 = 0) (le : v ≤ last)
    (enough : last ≤ v + 200 * n) :
    ∃ pkts, chunkLoop 200 stop (copyOut [] buf) n (UInt32.ofNat v) = .ok pkts ∧
      pkts.flatten.length = last - v := by
  have atEnd : ∀ k, ∃ pkts, chunkLoop 200 stop (copyOut [] buf) k (UInt32.ofNat last) =
      .ok pkts ∧ pkts.flatten.length = last - last := by
    intro k
    refine ⟨[], chunkLoop_done k ?_, by simp⟩
    have hlast : (UInt32.ofNat last).toNat = last % 4294967296 := UInt32.toNat_ofNat
    rw [UInt32.lt_iff_toNat_lt, hlast, meets]
    omega
  induction n generalizing v with
  | zero =>
    obtain rfl : v = last := by omega
    exact atEnd 0
  | succ n ih =>
    rcases Nat.eq_or_lt_of_le le with rfl | hlt
    · exact atEnd (n + 1)
    have hchunk : UInt32.toNat 200 = 200 := rfl
    have hoff : (UInt32.ofNat v).toNat = v % 4294967296 := UInt32.toNat_ofNat
    have hnextNat : (UInt32.ofNat (v + 200)).toNat = (v + 200) % 4294967296 := UInt32.toNat_ofNat
    have hnext : UInt32.ofNat v + 200 = UInt32.ofNat (v + 200) := (UInt32.ofNat_add v 200).symm
    have here := before v hv hlt
    have more : UInt32.ofNat v < stop := UInt32.lt_iff_toNat_lt.mpr (hoff ▸ here)
    have fits : UInt32.ofNat (v + 200) ≤ stop := by
      rw [UInt32.le_iff_toNat_le, hnextNat]
      by_cases ends : v + 200 = last
      · rw [ends, meets]
      · exact Nat.le_of_lt (before (v + 200) (by omega) (by omega))
    have copied : copyOut [] buf (UInt32.ofNat v) 200 =
        .ok ([] ++ slice buf (v % 4294967296, 200)) := by
      rw [copyOut, hoff, hchunk, if_pos ⟨by omega, by decide⟩]
    obtain ⟨rest, hrest, total⟩ := ih (v + 200) (by omega) (by omega) (by omega)
    refine ⟨([] ++ slice buf (v % 4294967296, 200)) :: rest, ?_, ?_⟩
    · simp only [chunkLoop, if_pos more, hnext, if_pos fits, copied, hrest]
    · have hlen : (slice buf (v % 4294967296, 200)).length = 200 := by
        rw [slice, List.length_take, List.length_drop]
        omega
      rw [List.flatten_cons, List.length_append, List.nil_append, hlen, total]
      omega

/-- The sizes just below 2^32, of a manifest that is longer: how much is sent for them. -/
theorem sendManifest_laps {buf : List UInt8} {bytes : UInt32} (past : 4294967200 < bytes.toNat)
    (long : bytes.toNat + 200 ≤ buf.length) (aligned : bytes.toNat % 32 = 0) :
    ∃ chunks, sendManifest buf bytes = .ok chunks ∧
      (bytes.toNat = 4294967232 ∧ chunks.flatten.length = 38654705600 ∨
        bytes.toNat = 4294967264 ∧ chunks.flatten.length = 73014444000) := by
  have hbytes := bytes.toNat_lt
  have two : bytes.toNat = 4294967232 ∨ bytes.toNat = 4294967264 := by omega
  rcases two with size | size
  · obtain ⟨chunks, sent, total⟩ := @chunkLoop_laps bytes buf 38654705600
      (by
        intro v hv hlt
        obtain ⟨q, hq⟩ : ∃ q, q = v / 4294967296 := ⟨_, rfl⟩
        have few : q < 9 := by omega
        interval_cases q <;> omega)
      (by omega) (by decide) long bytes.toNat 0 (by decide) (by omega) (by omega)
    exact ⟨chunks, sent, Or.inl ⟨size, total⟩⟩
  · obtain ⟨chunks, sent, total⟩ := @chunkLoop_laps bytes buf 73014444000
      (by
        intro v hv hlt
        obtain ⟨q, hq⟩ : ∃ q, q = v / 4294967296 := ⟨_, rfl⟩
        have few : q < 17 := by omega
        interval_cases q <;> omega)
      (by omega) (by decide) long bytes.toNat 0 (by decide) (by omega) (by omega)
    exact ⟨chunks, sent, Or.inr ⟨size, total⟩⟩

/-- The manifest is sent in full below 2^32 bytes, but for the last two sizes there, and for
two longer manifests whose laps happen to add up to their length. -/
theorem sendsManifest_iff (s : Source) :
    SendsManifest s ↔ s.nblocks.toNat ≤ 134217725 ∨ s.nblocks.toNat = 1207959550 ∨
      s.nblocks.toNat = 2281701375 := by
  have hsize := s.manifest_bytes
  have hbytes : (s.nblocks * UInt32.ofNat ciSvuHashLen).toNat =
      s.nblocks.toNat * 32 % 4294967296 := by
    rw [UInt32.toNat_mul, show (UInt32.ofNat ciSvuHashLen).toNat = 32 from rfl]
  have settled : ∀ {chunks}, sendManifest s.manifest (s.nblocks * UInt32.ofNat ciSvuHashLen) =
      .ok chunks → (SendsManifest s ↔ chunks.flatten.length = s.nblocks.toNat * 32) := by
    intro chunks sent
    constructor
    · rintro ⟨chunks', sent', total⟩
      cases sent.symm.trans sent'
      exact total
    · intro total
      exact ⟨chunks, sent, total⟩
  by_cases room : (s.nblocks * UInt32.ofNat ciSvuHashLen).toNat ≤ 4294967200
  · have sent := sendManifest_ok s.manifest _ (by omega) room
    rw [settled sent, slices_flatten _ (by decide) (by omega), slice, List.length_take,
      List.length_drop]
    omega
  · by_cases few : s.nblocks.toNat < 134217728
    · constructor
      · rintro ⟨chunks, sent, _⟩
        exact absurd sent (sendManifest_wraps (by omega) (by omega))
      · omega
    · obtain ⟨chunks, sent, total⟩ := @sendManifest_laps s.manifest
        (s.nblocks * UInt32.ofNat ciSvuHashLen) (by omega) (by omega) (by omega)
      rw [settled sent]
      omega

/-- A reply is backed by received bytes exactly if the block count of its header is below
2^27; the sender sends the manifest in full exactly for the counts of `sendsManifest_iff`. -/
theorem manifest_sizes_iff {a : Attempt} {hp : Payload} {rest : List Payload}
    {reply : CtrlReply} (h : ctrlExchange a (hp :: rest) = .ok (some reply))
    (src : List UInt8) (total block : UInt32) :
    (Backed rest reply ↔ (svuGet32 hp 16).toNat < 134217728) ∧
    (SendsManifest (svuServe src total block) ↔
      (ciSvuNblocks total block).toNat ≤ 134217725 ∨
      (ciSvuNblocks total block).toNat = 1207959550 ∨
      (ciSvuNblocks total block).toNat = 2281701375) :=
  ⟨backed_iff h, sendsManifest_iff (svuServe src total block)⟩

/-- The header of a response to session 1. -/
def plainHeader (total block nblocks : UInt32) : Payload :=
  putWords [svuMagicResp, 1, total, block, nblocks]

theorem two_digests_are_backed :
    (Backed [List.replicate 64 5] ⟨3, 2, 2, List.replicate 64 5⟩ ↔
      (svuGet32 (plainHeader 3 2 2) 16).toNat < 134217728) ∧
    (SendsManifest (svuServe [7, 8, 9] 3 2) ↔
      (ciSvuNblocks 3 2).toNat ≤ 134217725 ∨ (ciSvuNblocks 3 2).toNat = 1207959550 ∨
      (ciSvuNblocks 3 2).toNat = 2281701375) :=
  @manifest_sizes_iff (losslessAttempt 1) (plainHeader 3 2 2) [List.replicate 64 5]
    ⟨3, 2, 2, List.replicate 64 5⟩ (by decide) [7, 8, 9] 3 2

/-- 2^27 blocks of one byte: the reader waits for no bytes, and 2^32 are copied. -/
theorem manifest_of_no_bytes :
    ctrlExchange (losslessAttempt 1) [plainHeader 134217728 1 134217728] =
      .ok (some ⟨134217728, 1, 134217728, []⟩) ∧
    ¬ Backed [] ⟨134217728, 1, 134217728, []⟩ ∧
    ciSvuNew true 134217728 1 [] 134217728 = .error .outOfBounds := by
  refine ⟨by decide, fun backed => absurd backed.enough (by decide), ?_⟩
  rw [ciSvuNew, dif_neg (by decide), if_neg (by decide), dif_neg (by decide)]

end CspLinksim.Svu
