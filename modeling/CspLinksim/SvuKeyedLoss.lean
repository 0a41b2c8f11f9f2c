import CspLinksim.LossKeyed
import CspLinksim.SvuProgress

/-!
# Recovery behind `csp_loss -M`

A fragment that is dropped once is dropped in every round, so the client never gets past
the drop set of the rule.
-/

namespace CspLinksim.Svu

open Runs Packet Rule LossApm

def svuDataPort : UInt16 := 9

/-- The blasted frames pass the shim among any other traffic, and some of those on the air
arrive, in any order and any number of times. -/
structure ShimRound (s : Source) (mtu blockSize : UInt32) (w : World) (sess : Session)
    (env : RoundEnv) (txs : List Transmission) : Prop where
  control : attemptLoop s (svuReqEncode (roundRequest mtu blockSize sess))
      (env.attempts.take 8) = .ok none ∨
    attemptLoop s (svuReqEncode (roundRequest mtu blockSize sess)) (env.attempts.take 8) =
      .ok (some (senderReply s))
  handed : svuServeData s (svuReqEncode (roundRequest mtu blockSize sess)) =
    .ok (((txs.map (·.packet)).filter (isBulk svuDataPort)).map (·.data))
  data : ∀ p ∈ env.drains.flatten,
    ∃ packet ∈ (onAir w txs).filter (isBulk svuDataPort), packet.data = p

/-- The rounds of a run, each with what the shim is handed in it. -/
def ThroughShim (s : Source) (mtu blockSize : UInt32) :
    World → Session → List (RoundEnv × List Transmission) → Prop
  | _, _, [] => True
  | w, sess, (env, txs) :: rounds =>
    ShimRound s mtu blockSize w sess env txs ∧
      ∀ sess', clientRound s mtu blockSize sess env = .ok (.verdict sess') →
        sess'.st ≠ .completeVerified →
          ThroughShim s mtu blockSize (run send w txs).1 sess' rounds

/-- The shim drops the frame of fragment `k`. -/
def dropsFragment (w : World) (mtu : UInt32) (k : Nat) : Bool :=
  dropsOffset w.loss (UInt32.ofNat (k * payOf mtu))

theorem fragmentFrame_offset (src : List UInt8) (mtu : UInt32) (k : Nat) :
    le32 (fragmentFrame src mtu k) 0 = UInt32.ofNat (k * payOf mtu) :=
  congrArg Fragment.offset (frame_fragment src 1 (fragmentPiece src mtu k))

/-- Only frames that were blasted arrive, and none that the shim drops. -/
theorem ShimRound.clean {s : Source} {mtu blockSize : UInt32} {w : World} {sess : Session}
    {env : RoundEnv} {txs : List Transmission} (h : ShimRound s mtu blockSize w sess env txs)
    (keyed : Keyed svuDataPort w) :
    CleanRound s mtu blockSize sess env ∧
      ∀ p ∈ env.drains.flatten, dropsOffset w.loss (le32 p 0) = false := by
  obtain ⟨_, _, filtered⟩ := keyed.run txs
  refine ⟨⟨h.control, ?_⟩, ?_⟩
  · intro frames served p hp
    rw [h.handed] at served
    cases served
    obtain ⟨packet, on, rfl⟩ := h.data p hp
    rw [filtered] at on
    exact List.mem_map.mpr ⟨packet, List.mem_of_mem_filter on, rfl⟩
  · intro p hp
    obtain ⟨packet, on, rfl⟩ := h.data p hp
    rw [filtered] at on
    simpa using (List.mem_filter.mp on).2

/-- The run lemma: a fragment that the shim drops is missing after every round. -/
theorem dropped_stays {src : List UInt8} {total block mtu : UInt32} (t : Transfer src total mtu)
    (hn : ciSvuNblocks total block ≠ 0) {blockSize : UInt32} {k : Nat} (n : Nat) {w : World}
    (keyed : Keyed svuDataPort w) (dropped : dropsFragment w mtu k = true) {sess : Session}
    {m : Finset Nat} (h : Misses src total block mtu sess m) (hk : k ∈ m)
    (unfinished : sess.st ≠ .completeVerified) {rounds : List (RoundEnv × List Transmission)}
    (through : ThroughShim (svuServe src total block) mtu blockSize w sess rounds) :
    ∃ e m', roundLoop (svuServe src total block) mtu blockSize n sess (rounds.map Prod.fst) =
        .ok e ∧ Misses src total block mtu e.session m' ∧ k ∈ m' ∧
      e.session.st ≠ .completeVerified := by
  induction n generalizing w sess m rounds with
  | zero => exact ⟨_, m, rfl, h, hk, unfinished⟩
  | succ n ih =>
    cases rounds with
    | nil => exact ⟨.done sess, m, rfl, h, hk, unfinished⟩
    | cons first rounds =>
      obtain ⟨env, txs⟩ := first
      obtain ⟨now, later⟩ := through
      obtain ⟨clean, passes⟩ := now.clean keyed
      obtain ⟨keyed', same, _⟩ := keyed.run txs
      simp only [roundLoop, List.map_cons, List.headD_cons, List.tail_cons]
      rcases clean_round t hn h unfinished clean with ⟨hround, _⟩ | ⟨sess', read, hround, reads⟩
      · rw [hround]
        exact ⟨_, m, rfl, h, hk, unfinished⟩
      · have still : k ∈ m \ deliveredFragments src mtu read.flatten := by
          rw [Finset.mem_sdiff]
          refine ⟨hk, fun delivered => ?_⟩
          rw [deliveredFragments, Finset.mem_filter] at delivered
          obtain ⟨d, hd, hp⟩ := List.mem_flatten.mp delivered.2
          have passed := passes _ (List.mem_flatten.mpr ⟨d, reads.upTo.subset hd, hp⟩)
          rw [fragmentFrame_offset, ← dropsFragment, dropped] at passed
          cases passed
        have unfinished' : sess'.st ≠ .completeVerified := by
          intro verified
          rw [reads.verified.mp verified] at still
          exact absurd still (Finset.notMem_empty k)
        simp only [hround, if_neg unfinished']
        apply ih keyed' _ reads.misses still unfinished' (later sess' hround unfinished')
        rw [dropsFragment, same.drops]
        exact dropped

/-- A data frame as `csp_sendto` hands it to the interface. -/
def frameTransmission (p : Payload) : Transmission where
  via := 0
  packet :=
    { src := 1, dst := 2, dport := svuDataPort, flags := 0, data := p.take cspBufferSize,
      fits := List.length_take_le _ _ }
  fromMe := 1
  nowMs := 0
  rand := fun _ => 1

theorem fragmentFrame_length {src : List UInt8} {total mtu : UInt32} (t : Transfer src total mtu)
    {k : Nat} (hk : k < nofFragments total mtu) :
    (fragmentFrame src mtu k).length ≤ cspBufferSize := by
  obtain ⟨_, hlen, _, _⟩ := fragmentPiece_bounds t hk
  have hwords : (putWords [UInt32.ofNat (fragmentPiece src mtu k).1, 1]).length = svuDataHdr :=
    putWords_length _
  have hpiece : (fragmentPiece src mtu k).2 ≤ mtu.toNat - svuDataHdr := Nat.min_le_left _ _
  have above := t.above
  have packet := t.packet
  rw [fragmentFrame, dataFrame, List.length_append, hlen, hwords]
  omega

/-- If nothing is dropped one round is enough. -/
theorem undropped_verifies {src : List UInt8} {total block mtu : UInt32}
    (t : Transfer src total mtu) (hn : ciSvuNblocks total block ≠ 0)
    (room : (ciSvuNblocks total block).toNat ≤ 134217725) {w : World}
    (keyed : Keyed svuDataPort w)
    (passes : ∀ k < nofFragments total mtu, dropsFragment w mtu k = false) (blockSize : UInt32) :
    ∃ round sess, ThroughShim (svuServe src total block) mtu blockSize w sessionStart [round] ∧
      roundLoop (svuServe src total block) mtu blockSize 1 sessionStart [round.1] =
        .ok (.verdict sess) ∧ sess.st = .completeVerified := by
  have start := misses_start src total block mtu
  obtain ⟨frames, served, _, known, whole⟩ := start.offer t hn (by decide) blockSize
  have whole := whole rfl
  have answered := start.answered room (by decide) blockSize
  have handed : (((frames.map frameTransmission).map (·.packet)).filter
      (isBulk svuDataPort)).map (·.data) = frames := by
    rw [List.map_map, List.filter_eq_self.mpr, List.map_map]
    · conv_rhs => rw [← List.map_id frames]
      apply List.map_congr_left
      intro p hp
      obtain ⟨k, _, hk, rfl⟩ := known p hp
      exact List.take_of_length_le (fragmentFrame_length t hk)
    · intro packet hpacket
      obtain ⟨p, hp, rfl⟩ := List.mem_map.mp hpacket
      obtain ⟨k, _, hk, rfl⟩ := known p hp
      have long := fragmentFrame_long t hk
      have hoff : ciDtpOffsetSize = 4 := rfl
      have hhdr : svuDataHdr = 8 := rfl
      have hbuf : cspBufferSize = 2048 := rfl
      apply decide_eq_true
      refine ⟨rfl, UInt8.zero_and, ?_⟩
      simp only [Function.comp_apply, frameTransmission, List.length_take]
      omega
  have shim : ShimRound (svuServe src total block) mtu blockSize w sessionStart
      ⟨[losslessAttempt ((manifestChunks (svuServe src total block)).length + 1)], true, [frames]⟩
      (frames.map frameTransmission) := by
    refine ⟨Or.inr answered, by rw [handed]; exact served, ?_⟩
    intro p hp
    have hp : p ∈ frames := by simpa using hp
    rw [← handed] at hp
    obtain ⟨packet, bulk, rfl⟩ := List.mem_map.mp hp
    refine ⟨packet, ?_, rfl⟩
    rw [(keyed.run _).2.2, List.mem_filter]
    refine ⟨bulk, ?_⟩
    have again : packet.data ∈ frames := handed ▸ List.mem_map_of_mem bulk
    obtain ⟨k, _, hk, eq⟩ := known packet.data again
    rw [eq, fragmentFrame_offset, ← dropsFragment, passes k hk]
    rfl
  rcases clean_round t hn start (by decide) (shim.clean keyed).1 with ⟨_, lost | full⟩ |
    ⟨sess', read, hround, reads⟩
  · rw [List.take_of_length_le (by simp), answered] at lost
    cases lost
  · cases full
  · have all : read = [frames] := by
      obtain ⟨rest, hrest⟩ := reads.upTo
      cases read with
      | nil => cases reads.first rfl
      | cons d ds =>
        obtain ⟨rfl, tail⟩ := List.cons.inj hrest
        rw [(List.append_eq_nil_iff.mp tail).1]
    have verified : sess'.st = .completeVerified := by
      rw [reads.verified, all, List.flatten_singleton, Finset.sdiff_eq_empty_iff_subset]
      intro k hk
      rw [deliveredFragments, Finset.mem_filter, t.size]
      refine ⟨hk, ?_⟩
      rw [whole]
      exact List.mem_map_of_mem (List.mem_range.mpr (Finset.mem_range.mp hk))
    refine ⟨(_, _), sess', ⟨shim, fun _ _ _ => trivial⟩, ?_, verified⟩
    simp only [roundLoop, List.headD_cons, hround, if_pos verified]

/-- Half of the fragments dropped, by seed 3. -/
def keyedArgs : StartArgs :=
  { defaultArgs with dport := 9, prob := 1 / 2, mtu := 9, seed := 3 }

end CspLinksim.Svu
