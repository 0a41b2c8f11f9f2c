import CspLinksim.SvuHandover
import CspLinksim.SvuBlast

/-!
# A whole upload

From the file the sender reads to the file the receiver writes. The verdict stands for
the payload in memory; the length of the source file and what becomes of the bytes
after `fopen` are outside it.
-/

namespace CspLinksim.Svu

open Packet Gaps

/-- The sender of the file. -/
def serveFile (file : List UInt8) (block : UInt32) : Source :=
  svuServe (svuLoadFile file).1 (svuLoadFile file).2 block

/-- An exchange that fails, or one that brings every packet of the answer. -/
def ControlSound (s : Source) (a : Attempt) : Prop :=
  ∀ req, exchange s req a = .ok none ∨
    ∀ pkts, svuServeControl s req = .ok pkts → arrivals a.kept pkts = pkts

/-- The link may do anything to the data frames. -/
def LinkOk (s : Source) (envs : List RoundEnv) : Prop :=
  ∀ env ∈ envs, ∀ a ∈ env.attempts, ControlSound s a

/-- A run that stays inside its buffers, returns 0 only if the destination holds the file,
and leaves the destination alone if it returns -1. -/
def RightBytes (file : List UInt8) (old : Option (List UInt8)) (run : Except Fault RunResult) :
    Prop :=
  ∃ res, run = .ok res ∧ ((∀ r, res.recv = some r → NoCollision file r) →
    (svuDaemonReply res.rc = 0 ↔ res.rc = 0) ∧ (res.rc = 0 → res.file = some file) ∧
      (res.rc = -1 → res.file = old))

theorem svuDaemonReply_zero (rc : Int) : svuDaemonReply rc = 0 ↔ rc = 0 := by
  rw [svuDaemonReply]
  split
  · simp [*]
  · simp [*]

theorem exchange_sound {s : Source} (room : s.nblocks.toNat ≤ 134217725) {a : Attempt}
    (sound : ControlSound s a) (req : Payload) :
    exchange s req a = .ok none ∨ exchange s req a = .ok (some (senderReply s)) := by
  rcases sound req with lost | whole
  · exact Or.inl lost
  · have silent : ctrlExchange a [] = .ok none := by simp [ctrlExchange]
    rw [exchange]
    split
    · cases hreq : svuReqDecode req with
      | none =>
        left
        simp only [svuServeControl, hreq, arrivals, silent]
      | some r =>
        have answer : svuServeControl s req =
            .ok (respHeader s r.sessionId :: manifestChunks s) := by
          simp only [svuServeControl, hreq]
          exact sendResponse_ok room r.sessionId
        have read := ctrlExchange_header (by omega) a r.sessionId
          (List.Sublist.refl (manifestChunks s))
        simp only [answer, whole _ answer, read]
        split
        · exact Or.inr rfl
        · exact Or.inl rfl
    · exact Or.inl silent

theorem rounds_sound {s : Source} (room : s.nblocks.toNat ≤ 134217725) {envs : List RoundEnv}
    (link : LinkOk s envs) (mtu blockSize : UInt32) (n : Nat) :
    ∃ e, roundLoop s mtu blockSize n sessionStart envs = .ok e ∧ TracksSender s e.session := by
  have start : TracksSender s sessionStart := by
    intro r hr
    cases hr
  apply roundLoop_total (TracksSender s) (fun env => ∀ a ∈ env.attempts, ControlSound s a)
  · intro sess env tracks sound
    apply clientRound_total tracks
    apply attemptLoop_total
    intro a ha
    exact exchange_sound room (sound a (List.mem_of_mem_take ha)) _
  · intro a ha
    cases ha
  · exact start
  · exact link

/-- A verified tracker of the sender's holds the bytes that were served. -/
theorem verified_data {src : List UInt8} {total block : UInt32} {r : CiSvu}
    (built : BuiltFrom (svuServe src total block) r) (verified : status r = .completeVerified)
    (unique : NoCollision src r) : ∀ i < total.toNat, r.data[i]? = src[i]? := by
  have right := (noBad_iff built.fromSource unique).mp ((status_complete_iff r).mp verified).2
  rw [show r.total = total from built.total] at right
  exact right

theorem rightBytes_of_condition {file : List UInt8} {block : UInt32}
    (room : (serveFile file block).nblocks.toNat ≤ 134217725) {ops : FileOps}
    (disk : (serveFile file block).nblocks = 0 ∨ ¬ ops.opens ∨
      file.length < 4294967296 ∧ file.length ≤ ops.flushed)
    {envs : List RoundEnv} (link : LinkOk (serveFile file block) envs) (mtu blockSize : UInt32)
    (n : Nat) (old : Option (List UInt8)) :
    RightBytes file old (svuClientRun (serveFile file block) blockSize mtu n envs ops old) := by
  obtain ⟨e, hloop, tracks⟩ := rounds_sound room link mtu blockSize n
  have failed : ∀ recv : Option CiSvu, RightBytes file old (.ok ⟨-1, old, recv⟩) := by
    intro recv
    refine ⟨_, rfl, fun _ => ⟨svuDaemonReply_zero _, ?_, fun _ => rfl⟩⟩
    intro zero
    cases zero
  rw [svuClientRun, hloop]
  cases e with
  | done sess => exact failed sess.recv
  | verdict sess =>
    cases hrecv : sess.recv with
    | none =>
      simp only [hrecv]
      exact failed none
    | some r =>
      obtain ⟨settled, built⟩ := tracks r hrecv
      simp only [hrecv]
      by_cases verified : sess.st = .completeVerified
      · rw [if_neg (not_not.mpr verified)]
        by_cases opens : ops.opens = true
        · rw [if_neg (not_not.mpr opens)]
          refine ⟨_, rfl, fun unique => ⟨svuDaemonReply_zero 0, fun _ => ?_, ?_⟩⟩
          · have nonzero : (serveFile file block).nblocks ≠ 0 :=
              fun zero => r.nblocks_ne (built.nblocks.trans zero)
            obtain ⟨small, flushed⟩ := (disk.resolve_left nonzero).resolve_left
              (not_not.mpr opens)
            have hlen : (UInt32.ofNat file.length).toNat = file.length :=
              UInt32.toNat_ofNat_of_lt' small
            have htotal : r.total = UInt32.ofNat file.length := built.total
            have right := verified_data built (settled.st ▸ verified) (unique r rfl)
            rw [svuLoadFile, hlen] at right
            have hdata : r.data = file := by
              apply (data_eq_of_bytes (by rw [htotal, hlen])).mp
              rwa [htotal, hlen]
            simp only [ciSvuData, hdata, htotal, hlen, List.take_length,
              List.take_of_length_le flushed]
          · intro minus
            cases minus
        · rw [if_pos opens]
          exact failed (some r)
      · rw [if_pos verified]
        exact failed (some r)

theorem lossless_sound {s : Source} {a : Attempt}
    (all : ∀ chunks, sendManifest s.manifest (s.nblocks * UInt32.ofNat ciSvuHashLen) =
      .ok chunks → a.kept = List.replicate (chunks.length + 1) true) : ControlSound s a := by
  intro req
  right
  intro pkts h
  rw [svuServeControl] at h
  cases hreq : svuReqDecode req with
  | none =>
    simp only [hreq] at h
    cases h
    simp [arrivals]
  | some r =>
    simp only [hreq, sendResponse] at h
    cases hsend : sendManifest s.manifest (s.nblocks * UInt32.ofNat ciSvuHashLen) with
    | error f =>
      rw [hsend] at h
      cases h
    | ok chunks =>
      rw [hsend] at h
      cases h
      rw [all chunks hsend, ← List.length_cons]
      exact arrivals_all _

/-- A manifest cut to 32 bits is shorter than the blocks `ci_svu_new` copies it for. -/
theorem new_faults {s : Source} (agree : s.nblocks = ciSvuNblocks s.total s.blockSize)
    (many : 134217728 ≤ s.nblocks.toNat) {manifest : List UInt8}
    (hlen : manifest.length < 4294967296) :
    ciSvuNew true s.total s.blockSize manifest s.nblocks = .error .outOfBounds := by
  have nonzero : ciSvuNblocks s.total s.blockSize ≠ 0 := by
    intro zero
    rw [agree, zero] at many
    cases many
  have short : ¬ (ciSvuNblocks s.total s.blockSize).toNat * ciSvuHashLen ≤ manifest.length := by
    rw [← agree, ciSvuHashLen]
    omega
  have same : ¬ (ciSvuNblocks s.total s.blockSize = 0 ∨
      ciSvuNblocks s.total s.blockSize ≠ s.nblocks) := by
    rw [← agree]
    rw [← agree] at nonzero
    simp [nonzero]
  simp only [ciSvuNew, dif_neg same, dif_neg short, not_true_eq_false, if_false]

/-- Read to the end, a complete answer hands out as many bytes as the cut-off count says. -/
theorem ctrlExchange_long {s : Source} {chunks : List Payload}
    (hsend : sendManifest s.manifest (s.nblocks * UInt32.ofNat ciSvuHashLen) = .ok chunks)
    (n : Nat) (sid : UInt32) :
    (∃ f, ctrlExchange (losslessAttempt n) (respHeader s sid :: chunks) = .error f) ∨
    ∃ manifest, manifest.length < 4294967296 ∧
      ctrlExchange (losslessAttempt n) (respHeader s sid :: chunks) =
        .ok (some ⟨s.total, s.blockSize, s.nblocks, manifest⟩) := by
  obtain ⟨hlen, hmagic, htotal, hblock, hnblocks⟩ := respHeader_reads s sid
  have wellFormed : ¬ ((respHeader s sid).length < svuRespHdr ∨
      svuGet32 (respHeader s sid) 0 ≠ svuMagicResp) := by
    rw [hlen, hmagic]
    simp
  simp only [ctrlExchange, if_neg wellFormed, htotal, hblock, hnblocks, losslessAttempt,
    not_true_eq_false, if_false]
  cases hread : readManifest (s.nblocks * UInt32.ofNat ciSvuHashLen) [] 0 chunks with
  | error f => exact Or.inl ⟨f, rfl⟩
  | ok result =>
    cases result with
    | none =>
      have short := readManifest_short (sendManifest_sized hsend) (Nat.zero_le _) hread
      have total := sendManifest_total hsend
      have hzero : UInt32.toNat 0 = 0 := rfl
      omega
    | some manifest =>
      have size := readManifest_length (Nat.zero_le _) rfl hread
      have hbytes := (s.nblocks * UInt32.ofNat ciSvuHashLen).toNat_lt
      exact Or.inr ⟨manifest, by omega, rfl⟩

/-- With too many blocks the first round leaves its buffers, or never ends. -/
theorem long_manifest_faults {s : Source}
    (agree : s.nblocks = ciSvuNblocks s.total s.blockSize) (long : 134217725 < s.nblocks.toNat)
    (mtu blockSize : UInt32) :
    ∃ env f, (∀ a ∈ env.attempts, ControlSound s a) ∧
      clientRound s mtu blockSize sessionStart env = .error f := by
  have answer : svuServeControl s (svuReqEncode (roundRequest mtu blockSize sessionStart)) =
      sendResponse s 1 := by
    simp only [svuServeControl, firstRequest_decodes]
    rfl
  cases hsend : sendManifest s.manifest (s.nblocks * UInt32.ofNat ciSvuHashLen) with
  | error f =>
    refine ⟨⟨[losslessAttempt 0], true, []⟩, f, ?_, ?_⟩
    · intro a _
      apply lossless_sound
      intro chunks impossible
      rw [hsend] at impossible
      cases impossible
    · simp [clientRound, attemptLoop, exchange, losslessAttempt, answer, sendResponse, hsend]
  | ok chunks =>
    have sent : sendResponse s 1 = .ok (respHeader s 1 :: chunks) := by
      rw [sendResponse, hsend]
    -- the last two block counts below 2^27 already fault in the sender
    have many : 134217728 ≤ s.nblocks.toNat := by
      by_contra few
      have := room_of_served (by omega) sent
      omega
    have exchanged := exchange_lossless (answer.trans sent)
    rw [List.length_cons] at exchanged
    have sound : ControlSound s (losslessAttempt (chunks.length + 1)) := by
      apply lossless_sound
      intro chunks' again
      rw [hsend] at again
      cases again
      rfl
    refine ⟨⟨[losslessAttempt (chunks.length + 1)], true, []⟩, ?_⟩
    rcases ctrlExchange_long hsend (chunks.length + 1) 1 with ⟨f, hread⟩ | ⟨manifest, hlen, hread⟩
    · refine ⟨f, by simpa using sound, ?_⟩
      rw [hread] at exchanged
      simp [clientRound, attemptLoop, exchanged]
    · refine ⟨.outOfBounds, by simpa using sound, ?_⟩
      rw [hread] at exchanged
      have fault := new_faults agree many hlen
      simp only [clientRound, List.take_succ_cons, List.take_nil, attemptLoop, exchanged]
      simp only [sessionStart, fault]

/-- The first `total` bytes of the source in frames of one byte each. -/
def byteFrames (src : List UInt8) (total : UInt32) : List Payload :=
  rangeFrames (src.take total.toNat) 1 9 (0, total.toNat)

/-- Frames of one byte each bring the whole payload. -/
theorem absorb_whole {src : List UInt8} {r : CiSvu} (long : r.total.toNat ≤ src.length) :
    SameTransfer (absorb r (byteFrames src r.total)) r ∧
      allCovered (absorb r (byteFrames src r.total)) ∧
      ∀ i < r.total.toNat, (absorb r (byteFrames src r.total)).data[i]? = src[i]? := by
  have pos : 0 < r.total.toNat := by
    have hn : ciSvuNblocks r.total r.block ≠ 0 := r.nblocks_eq ▸ r.nblocks_ne
    exact (nblocks_pos hn).1
  have hframes : [(0, r.total.toNat)].flatMap (rangeFrames (src.take r.total.toNat) 1 9) =
      byteFrames src r.total := by
    rw [List.flatMap_singleton]
    rfl
  obtain ⟨P, patched, _, complete⟩ := @patched_frames (src.take r.total.toNat) 1 9
    [(0, r.total.toNat)] r (by rw [List.length_take]; omega) (by decide)
    (by
      intro q hq
      rw [List.mem_singleton.mp hq]
      exact ⟨pos, Nat.le_refl _⟩)
    (byteFrames src r.total) (by rw [hframes]; exact fun p hp => hp)
  have inside : ∀ i < r.total.toNat, P i := fun i hi =>
    complete (by rw [hframes]; exact fun p hp => hp) i
      ⟨_, List.mem_singleton_self _, Nat.zero_le i, hi⟩
  refine ⟨patched.same, ?_, ?_⟩
  · intro i hi
    rw [patched.same.total] at hi
    exact (patched.inside i (inside i hi)).2
  · intro i hi
    rw [(patched.inside i (inside i hi)).1, List.getElem?_take_of_lt hi]

/-- A first round that loses nothing verifies. -/
theorem lossless_round {src : List UInt8} {total block : UInt32}
    (hn : ciSvuNblocks total block ≠ 0) (room : (ciSvuNblocks total block).toNat ≤ 134217725)
    (long : total.toNat ≤ src.length) (mtu blockSize : UInt32) :
    ∃ env sess r, (∀ a ∈ env.attempts, ControlSound (svuServe src total block) a) ∧
      env.drains = [byteFrames src total] ∧
      clientRound (svuServe src total block) mtu blockSize sessionStart env =
        .ok (.verdict sess) ∧
      Settled sess r ∧ BuiltFrom (svuServe src total block) r ∧
      status r = .completeVerified ∧ ∀ i < total.toNat, r.data[i]? = src[i]? := by
  obtain ⟨r₀, kept, built₀, _, hkept, round⟩ := first_round src hn room mtu blockSize
  have htotal : r₀.total = total := built₀.total
  obtain ⟨same, covered, right⟩ := @absorb_whole src r₀ (by rwa [htotal])
  rw [htotal] at same covered right
  obtain ⟨k, settled, early⟩ := finishRound_spec r₀ sessionStart [byteFrames src total]
  have all : [byteFrames src total].take k = [byteFrames src total] := by
    rcases early with whole | ⟨many, _⟩
    · exact whole
    · simp at many
  rw [all, List.flatten_singleton] at settled
  have built := built₀.absorb (byteFrames src total)
  have right' : ∀ i < (absorb r₀ (byteFrames src total)).total.toNat,
      (absorb r₀ (byteFrames src total)).data[i]? = src[i]? := by
    rwa [same.total, htotal]
  have good := (noBad_iff built.fromSource (noCollision_of_bytes right')).mpr right'
  refine ⟨_, _, _, ?_, rfl, round [byteFrames src total], settled, built,
    (status_complete_iff _).mpr ⟨covered, good⟩, right⟩
  intro a ha
  rw [List.mem_singleton.mp ha]
  apply lossless_sound
  intro chunks hsend
  have sent := sendResponse_ok (s := svuServe src total block) room 1
  rw [sendResponse, hsend] at sent
  cases sent
  rw [hkept]
  rfl

/-- A verified run with an open destination returns 0 and leaves the bytes that were
flushed of those that were served. -/
theorem lossless_run {file : List UInt8} {block : UInt32}
    (hn : (serveFile file block).nblocks ≠ 0)
    (room : (serveFile file block).nblocks.toNat ≤ 134217725) (mtu blockSize : UInt32) (n : Nat)
    {ops : FileOps} (opens : ops.opens = true) (old : Option (List UInt8)) :
    ∃ envs r, LinkOk (serveFile file block) envs ∧ NoCollision file r ∧
      svuClientRun (serveFile file block) blockSize mtu (n + 1) envs ops old =
        .ok ⟨0, some ((file.take (file.length % 4294967296)).take ops.flushed), some r⟩ := by
  have hlen : (UInt32.ofNat file.length).toNat = file.length % 4294967296 := UInt32.toNat_ofNat
  have long : (UInt32.ofNat file.length).toNat ≤ file.length := by
    rw [hlen]
    exact Nat.mod_le _ _
  obtain ⟨env, sess, r, sound, _, step, settled, built, verified, right⟩ :=
    @lossless_round file (UInt32.ofNat file.length) block hn room long mtu blockSize
  have htotal : r.total = UInt32.ofNat file.length := built.total
  have hdata : r.data = file.take (file.length % 4294967296) := by
    apply (data_eq_of_bytes (by rw [List.length_take, htotal, hlen]; omega)).mp
    intro i hi
    rw [htotal] at hi
    rw [right i hi, List.getElem?_take_of_lt (by omega)]
  refine ⟨[env], r, ?_, noCollision_of_bytes (by rwa [htotal]), ?_⟩
  · intro env' henv
    rw [List.mem_singleton.mp henv]
    exact sound
  · have done : sess.st = .completeVerified := settled.st.trans verified
    have loop : roundLoop (serveFile file block) mtu blockSize (n + 1) sessionStart [env] =
        .ok (.verdict sess) := by
      have step' : clientRound (serveFile file block) mtu blockSize sessionStart env =
        .ok (.verdict sess) := step
      simp only [roundLoop, List.headD_cons, step', if_pos done]
    rw [svuClientRun, loop]
    simp only [settled.recv, done, opens, not_true_eq_false, if_false, ne_eq, ciSvuData, hdata,
      htotal, hlen, List.take_take, Nat.min_self]

theorem condition_of_rightBytes {file : List UInt8} {block blockSize mtu : UInt32} {n : Nat}
    {ops : FileOps} {old : Option (List UInt8)}
    (h : ∀ envs, LinkOk (serveFile file block) envs →
      RightBytes file old (svuClientRun (serveFile file block) blockSize mtu (n + 1) envs ops old))
    (hn : (serveFile file block).nblocks ≠ 0) :
    (serveFile file block).nblocks.toNat ≤ 134217725 ∧
      (¬ ops.opens ∨ file.length < 4294967296 ∧ file.length ≤ ops.flushed) := by
  have room : (serveFile file block).nblocks.toNat ≤ 134217725 := by
    by_contra long
    obtain ⟨env, f, sound, fault⟩ := @long_manifest_faults (serveFile file block) rfl
      (Nat.lt_of_not_le long) mtu blockSize
    obtain ⟨res, hres, _⟩ := h [env] (by
      intro env' henv
      rw [List.mem_singleton.mp henv]
      exact sound)
    simp only [svuClientRun, roundLoop, List.headD_cons, fault] at hres
    cases hres
  refine ⟨room, ?_⟩
  by_cases opens : ops.opens = true
  · right
    obtain ⟨envs, r, link, unique, hrun⟩ := lossless_run hn room mtu blockSize n opens old
    obtain ⟨res, hres, promise⟩ := h envs link
    rw [hrun] at hres
    cases hres
    have same := (promise (by
      intro r' hr'
      cases hr'
      exact unique)).2.1 rfl
    have hlen := congrArg List.length (Option.some.inj same)
    rw [List.length_take, List.length_take] at hlen
    omega
  · exact Or.inl opens

/-- An upload is right over every link exactly if there are no blocks to send, or not too
many of them, and a destination that opens takes the whole file, which is below 2^32. -/
theorem upload_right_iff (file : List UInt8) (block blockSize mtu : UInt32) (n : Nat)
    (ops : FileOps) (old : Option (List UInt8)) :
    (∀ envs, LinkOk (serveFile file block) envs → RightBytes file old
      (svuClientRun (serveFile file block) blockSize mtu (n + 1) envs ops old)) ↔
    (serveFile file block).nblocks = 0 ∨ (serveFile file block).nblocks.toNat ≤ 134217725 ∧
      (¬ ops.opens ∨ file.length < 4294967296 ∧ file.length ≤ ops.flushed) := by
  constructor
  · intro h
    by_cases hn : (serveFile file block).nblocks = 0
    · exact Or.inl hn
    · exact Or.inr (condition_of_rightBytes h hn)
  · intro h envs link
    rcases h with none | ⟨room, disk⟩
    · have room : (serveFile file block).nblocks.toNat ≤ 134217725 := by
        rw [none]
        decide
      exact rightBytes_of_condition room (Or.inl none) link mtu blockSize (n + 1) old
    · exact rightBytes_of_condition room (Or.inr disk) link mtu blockSize (n + 1) old

/-- A full disk: `fwrite` takes the bytes, and `fclose` cannot write them. -/
def fullDisk : FileOps where
  opens := true
  fwriteRet := 3
  fcloseOk := false
  flushed := 0
  flushed_le := by decide
  flushed_eq := by decide

theorem full_disk_is_verified :
    ¬ ∀ envs, LinkOk (serveFile [7, 8, 9] 2) envs → RightBytes [7, 8, 9] none
      (svuClientRun (serveFile [7, 8, 9] 2) 2 9 1 envs fullDisk none) := by
  intro h
  have condition := (condition_of_rightBytes h (by decide)).2
  rcases condition with closed | ⟨_, flushed⟩
  · exact closed rfl
  · exact absurd flushed (by decide)

end CspLinksim.Svu
