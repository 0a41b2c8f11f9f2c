import CspLinksim.SvuReport
import CspLinksim.SvuHandover
import CspLinksim.SvuBlast

/-!
# Recovery

While bytes are missing a round fills the first 32 holes, and the list of holes loses
its first 32 entries. When none is missing it rewrites the first 32 blocks whose digest
differs, and the list of those blocks loses its first 32 entries.
-/

namespace CspLinksim.Svu

open Packet Gaps

/-- The request of a round arrives as it was sent, and asks for the first 32 ranges. -/
theorem request_decodes {sess : Session} {r : CiSvu} (h : Settled sess r)
    (unfinished : status r ≠ .completeVerified) (mtu blockSize : UInt32) :
    svuReqDecode (svuReqEncode (roundRequest mtu blockSize sess)) =
        some (roundRequest mtu blockSize sess) ∧
      sess.nreq ≠ 0 ∧
      sess.ivs.take sess.nreq.toNat = ((reportedRuns r).take 32).map toInterval := by
  have hnreq := h.nreq unfinished
  have hivs : sess.ivs.take sess.nreq.toNat = (reported r).take 32 := by
    rw [h.ivs, List.take_take, hnreq]
    apply List.take_eq_take_iff.mpr
    omega
  refine ⟨?_, ?_, ?_⟩
  · apply decode_encode _ rfl
    · simp only [roundRequest, hivs]
      rw [List.length_take, hnreq]
    · simp only [roundRequest, hivs]
      exact List.length_take_le 32 _
  · intro zero
    have hpos : 0 < (reportedRuns r).length := List.length_pos_iff.mpr (reported_ne_nil unfinished)
    rw [zero, reported, List.length_map] at hnreq
    have : UInt32.toNat 0 = 0 := rfl
    omega
  · rw [hivs, reported, List.map_take]

/-- The frames for the first 32 ranges. -/
def roundFrames (src : List UInt8) (mtu : UInt32) (r : CiSvu) : List Payload :=
  ((reportedRuns r).take 32).flatMap (rangeFrames src 1 mtu)

/-- The sender blasts the first 32 ranges, whole. -/
theorem serve_round {s : Source} {mtu : UInt32} (t : Transfer s.src s.total mtu)
    {sess : Session} {r : CiSvu} (h : Settled sess r) (built : BuiltFrom s r)
    (unfinished : status r ≠ .completeVerified) (blockSize : UInt32) :
    svuServeData s (svuReqEncode (roundRequest mtu blockSize sess)) =
      .ok (roundFrames s.src mtu r) := by
  obtain ⟨hdecode, hnreq, hranges⟩ := request_decodes h unfinished mtu blockSize
  have above : mtu > UInt32.ofNat svuDataHdr := by
    rw [gt_iff_lt, UInt32.lt_iff_toNat_lt]
    exact t.above
  simp only [svuServeData, hdecode]
  simp only [roundRequest, if_pos above, if_neg hnreq, hranges]
  apply blastIntervals_ok t
  intro q hq
  rw [← built.total]
  exact reportedRuns_bounds r (List.mem_of_mem_take hq)

/-- A byte that is there and is not the sender's. -/
def Damaged (src : List UInt8) (r : CiSvu) (i : Nat) : Prop :=
  r.covered[i]? = some true ∧ r.data[i]? ≠ src[i]?

theorem holes_patched {src : List UInt8} {P : Nat → Prop} {r r' : CiSvu}
    (h : Patched src P r r') (i : Nat) : InRuns (holes r') i ↔ InRuns (holes r) i ∧ ¬ P i := by
  rw [inRuns_holes, inRuns_holes]
  by_cases hp : P i
  · rw [(h.inside i hp).2]
    simp [hp]
  · rw [(h.outside i hp).2]
    simp [hp]

theorem holes_drop {src : List UInt8} {k : Nat} {r r' : CiSvu}
    (h : Patched src (InRuns ((holes r).take k)) r r') : holes r' = (holes r).drop k := by
  obtain ⟨sep, mem⟩ := separated_drop (holes_separated r) k
  apply separated_unique (holes_separated r') sep
  intro i
  rw [holes_patched h, mem]

theorem damaged_patched {src : List UInt8} {P : Nat → Prop} {r r' : CiSvu}
    (h : Patched src P r r') {i : Nat} (damaged : Damaged src r' i) : Damaged src r i := by
  have out : ¬ P i := fun hp => damaged.2 (h.inside i hp).1
  obtain ⟨hdata, hcov⟩ := h.outside i out
  rw [Damaged, hdata, hcov] at damaged
  exact damaged

/-- The blocks are apart. -/
theorem block_of_mem {block b b' i : Nat} (lo : b * block ≤ i) (hi : i < b * block + block)
    (lo' : b' * block ≤ i) (hi' : i < b' * block + block) : b = b' := by
  have hpos : 0 < block := by omega
  have h : i / block = b := Nat.div_eq_of_lt_le lo (by rw [Nat.succ_mul]; exact hi)
  have h' : i / block = b' := Nat.div_eq_of_lt_le lo' (by rw [Nat.succ_mul]; exact hi')
  exact h.symm.trans h'

theorem blockBytes_congr {data src : List UInt8} {total block : UInt32} {b : Nat}
    (h : ∀ i, b * block.toNat ≤ i → i < b * block.toNat + block.toNat → i < total.toNat →
      data[i]? = src[i]?) : blockBytes data total block b = blockBytes src total block b := by
  apply List.ext_getElem?
  intro j
  rw [getElem?_blockBytes, getElem?_blockBytes]
  by_cases inside : j < block.toNat ∧ b * block.toNat + j < total.toNat
  · rw [if_pos inside, if_pos inside]
    exact h _ (by omega) (by omega) inside.2
  · rw [if_neg inside, if_neg inside]

theorem FromSource.same {src : List UInt8} {r r' : CiSvu} (man : FromSource src r)
    (h : SameTransfer r' r) : FromSource src r' := by
  rw [FromSource, h.expected, h.total, h.block]
  exact man

/-- A block in the list of bad ones is bad no more once it is rewritten, and any other keeps
its digest. -/
theorem isBad_patched {src : List UInt8} {k : Nat} {r r' : CiSvu} (man : FromSource src r)
    (h : Patched src (InRuns (((badBlocks r).take k).map (blockRange r))) r r') {b : Nat}
    (hb : b < r.nblocks.toNat) :
    isBad r' b = true ↔ isBad r b = true ∧ b ∉ (badBlocks r).take k := by
  have hash' := isBad_iff (man.same h.same) (b := b) (by rwa [h.same.nblocks])
  rw [h.same.total, h.same.block] at hash'
  by_cases rewritten : b ∈ (badBlocks r).take k
  · have same : blockBytes r'.data r.total r.block b = blockBytes src r.total r.block b := by
      apply blockBytes_congr
      intro i lo hi hlt
      apply (h.inside i ⟨_, List.mem_map.mpr ⟨b, rewritten, rfl⟩, lo, _⟩).1
      simp only [blockRange]
      omega
    rw [hash', hashBlock, hashBlock, same]
    simp [rewritten]
  · -- blocks are disjoint, so a block outside the list is not touched
    have same : blockBytes r'.data r.total r.block b = blockBytes r.data r.total r.block b := by
      apply blockBytes_congr
      intro i lo hi _
      apply (h.outside i _).1
      rintro ⟨q, hq, qlo, qhi⟩
      obtain ⟨b', hb', rfl⟩ := List.mem_map.mp hq
      simp only [blockRange] at qlo qhi
      rw [block_of_mem lo hi qlo (by omega)] at rewritten
      exact rewritten hb'
    rw [hash', isBad_iff man hb, hashBlock, hashBlock, hashBlock, same]
    simp [rewritten]

theorem filter_not_mem_take {α : Type} [DecidableEq α] {l : List α} (nodup : l.Nodup) (k : Nat) :
    l.filter (fun x => x ∉ l.take k) = l.drop k := by
  have hsplit := List.take_append_drop k l
  have apart : ∀ x ∈ l.drop k, x ∉ l.take k := by
    intro x hx hx'
    rw [← hsplit] at nodup
    exact (List.nodup_append.mp nodup).2.2 x hx' x hx rfl
  conv_lhs => rw [← hsplit]
  rw [List.filter_append, hsplit, List.filter_eq_nil_iff.mpr, List.filter_eq_self.mpr]
  · rfl
  · intro x hx
    exact decide_eq_true (apart x hx)
  · intro x hx
    simp [hx]

theorem badBlocks_drop {src : List UInt8} {k : Nat} {r r' : CiSvu} (man : FromSource src r)
    (h : Patched src (InRuns (((badBlocks r).take k).map (blockRange r))) r r') :
    badBlocks r' = (badBlocks r).drop k := by
  have nodup : (badBlocks r).Nodup := List.nodup_range.filter _
  rw [← filter_not_mem_take nodup k]
  conv_rhs => rw [badBlocks, List.filter_filter]
  rw [badBlocks, h.same.nblocks]
  apply List.filter_congr
  intro b hb
  have bad := isBad_patched man h (List.mem_range.mp hb)
  rw [Bool.eq_iff_iff, bad, Bool.and_eq_true, decide_eq_true_eq, ← badBlocks]
  exact and_comm

/-- The sessions that the rounds of a run can leave, whatever the link does. -/
inductive Reached (s : Source) (mtu blockSize : UInt32) : Session → Prop where
  | start : Reached s mtu blockSize sessionStart
  | round {sess sess' : Session} {env : RoundEnv} (before : Reached s mtu blockSize sess)
      (step : clientRound s mtu blockSize sess env = .ok (.verdict sess')) :
      Reached s mtu blockSize sess'

theorem Reached.settled {s : Source} {mtu blockSize : UInt32} {sess : Session} {r : CiSvu}
    (h : Reached s mtu blockSize sess) (hrecv : sess.recv = some r) : Settled sess r := by
  cases h with
  | start => cases hrecv
  | round before step =>
    rcases clientRound_cases step with impossible | ⟨_, base, _, _, eq⟩
    · cases impossible
    · cases eq
      obtain ⟨k, settled, _⟩ := finishRound_spec base _ _
      have same := hrecv.symm.trans settled.recv
      cases same
      exact settled

/-- The exchange succeeds, and the frames that arrive are the frames that were blasted, in
any order, each at least once, and no full idle window before the last of them. -/
structure HonestRound (s : Source) (mtu blockSize : UInt32) (sess : Session)
    (env : RoundEnv) : Prop where
  answered : ∃ reply, attemptLoop s (svuReqEncode (roundRequest mtu blockSize sess))
    (env.attempts.take 8) = .ok (some reply)
  delivered : ∃ frames, svuServeData s (svuReqEncode (roundRequest mtu blockSize sess)) =
    .ok frames ∧ ∀ p, p ∈ env.drains.flatten ↔ p ∈ frames
  busy : ∀ d ∈ env.drains, d ≠ []

/-- What an honest round does to the tracker. The client leaves the last drains unread when
it is verified before them; then the ranges hold source bytes unless a digest collides. -/
structure Recovers (src : List UInt8) (drains : List (List Payload)) (r r' : CiSvu) : Prop where
  within : ∃ P, Patched src P r r' ∧ ∀ i, P i → InRuns ((reportedRuns r).take 32) i
  exactly : drains.length ≤ 1 ∨ status r' ≠ .completeVerified ∨ NoCollision src r' →
    Patched src (InRuns ((reportedRuns r).take 32)) r r'
  remaining : drains.length ≤ 1 ∨ status r' ≠ .completeVerified →
    (holes r ≠ [] → holes r' = (holes r).drop 32) ∧
    (holes r = [] → holes r' = [] ∧ badBlocks r' = (badBlocks r).drop 32)
  noHole : ∀ i, InRuns (holes r') i → InRuns (holes r) i
  noDamage : ∀ i, Damaged src r' i → Damaged src r i
  noBad : ∀ b < r.nblocks.toNat, isBad r' b = true → isBad r b = true ∨
    hashBlock r.data r.total r.block b = hashBlock src r.total r.block b ∧
      blockBytes r.data r.total r.block b ≠ blockBytes src r.total r.block b

theorem noBad_patched {src : List UInt8} {P : Nat → Prop} {r r' : CiSvu}
    (man : FromSource src r) (h : Patched src P r r') {b : Nat} (hb : b < r.nblocks.toNat)
    (bad : isBad r' b = true) : isBad r b = true ∨
      hashBlock r.data r.total r.block b = hashBlock src r.total r.block b ∧
        blockBytes r.data r.total r.block b ≠ blockBytes src r.total r.block b := by
  have hash' := (isBad_iff (man.same h.same) (b := b) (by rwa [h.same.nblocks])).mp bad
  rw [h.same.total, h.same.block] at hash'
  by_cases before : isBad r b = true
  · exact Or.inl before
  · right
    refine ⟨by_contra fun differ => before ((isBad_iff man hb).mpr differ), ?_⟩
    intro same
    apply hash'
    rw [hashBlock, hashBlock, ← same]
    apply congrArg
    apply blockBytes_congr
    intro i lo hi hlt
    by_cases hp : P i
    · rw [(h.inside i hp).1]
      have heq := congrArg (fun l => l[i - b * r.block.toNat]?) same
      have hsum : b * r.block.toNat + (i - b * r.block.toNat) = i := by omega
      simp only [getElem?_blockBytes, hsum] at heq
      rw [if_pos ⟨by omega, hlt⟩, if_pos ⟨by omega, hlt⟩] at heq
      exact heq.symm
    · exact (h.outside i hp).1

theorem roundFrames_long {src : List UInt8} {mtu : UInt32} {r : CiSvu}
    (t : Transfer src r.total mtu) {p : Payload} (hp : p ∈ roundFrames src mtu r) :
    p.length > svuDataHdr := by
  obtain ⟨q, hq, hpq⟩ := List.mem_flatMap.mp hp
  have hq' := reportedRuns_bounds r (List.mem_of_mem_take hq)
  have hsize := t.size
  obtain ⟨_, _, _, _, _, _, long⟩ := mem_rangeFrames t.above (by omega) hpq
  exact long

/-- A verified tracker holds source bytes wherever it is asked for, if no digest collides. -/
theorem verified_patched {src : List UInt8} {P Q : Nat → Prop} {r r' : CiSvu}
    (man : FromSource src r') (patched : Patched src P r r') (within : ∀ i, P i → Q i)
    (inside : ∀ i, Q i → i < r.total.toNat) (verified : status r' = .completeVerified)
    (unique : NoCollision src r') : Patched src Q r r' := by
  obtain ⟨covered, good⟩ := (status_complete_iff r').mp verified
  have right := (noBad_iff man unique).mp good
  refine ⟨patched.same, ?_, fun i hi => patched.outside i (mt (within i) hi)⟩
  intro i hi
  have hlt : i < r'.total.toNat := by
    rw [patched.same.total]
    exact inside i hi
  exact ⟨right i hlt, covered i hlt⟩

/-- What is left after the first 32 ranges were overwritten. -/
theorem remaining_of_patched {src : List UInt8} {r r' : CiSvu} (man : FromSource src r)
    (h : Patched src (InRuns ((reportedRuns r).take 32)) r r') :
    (holes r ≠ [] → holes r' = (holes r).drop 32) ∧
    (holes r = [] → holes r' = [] ∧ badBlocks r' = (badBlocks r).drop 32) := by
  constructor
  · intro hole
    rw [reportedRuns, if_pos hole] at h
    exact holes_drop h
  · intro none
    constructor
    · apply (allCovered_iff_holes r').mp
      intro i hi
      apply covered_of_not_hole r' hi
      intro hole
      obtain ⟨⟨q, hq, _⟩, _⟩ := (holes_patched h i).mp ((inRuns_holes r' i).mpr hole)
      rw [none] at hq
      cases hq
    · rw [reportedRuns, if_neg (not_not.mpr none), ← List.map_take] at h
      exact badBlocks_drop man h

/-- Drains of exactly the frames of the round, read as far as the client reads them. -/
theorem recovers_of_drains {src : List UInt8} {mtu : UInt32} {r : CiSvu}
    (t : Transfer src r.total mtu) (man : FromSource src r) {drains : List (List Payload)}
    (frames : ∀ p, p ∈ drains.flatten ↔ p ∈ roundFrames src mtu r)
    (busy : ∀ d ∈ drains, d ≠ []) {k : Nat}
    (early : drains.take k = drains ∨ 1 < drains.length ∧
      (status (absorb r (drains.take k).flatten) = .completeVerified ∨
        ∃ d ∈ drains, fragments d = [])) :
    Recovers src drains r (absorb r (drains.take k).flatten) := by
  have bounds : ∀ q ∈ (reportedRuns r).take 32, q.1 < q.2 ∧ q.2 ≤ r.total.toNat :=
    fun q hq => reportedRuns_bounds r (List.mem_of_mem_take hq)
  have sent : ∀ p ∈ (drains.take k).flatten, p ∈ roundFrames src mtu r := by
    intro p hp
    obtain ⟨d, hd, hpd⟩ := List.mem_flatten.mp hp
    exact (frames p).mp (List.mem_flatten.mpr ⟨d, List.mem_of_mem_take hd, hpd⟩)
  have quiet : ¬ ∃ d ∈ drains, fragments d = [] := by
    rintro ⟨d, hd, none⟩
    obtain ⟨p, hp⟩ := List.exists_mem_of_ne_nil d (busy d hd)
    have long := roundFrames_long t ((frames p).mp (List.mem_flatten.mpr ⟨d, hd, hp⟩))
    have := mem_fragments.mpr ⟨p, hp, long, rfl⟩
    rw [none] at this
    cases this
  obtain ⟨P, patched, within, complete⟩ := patched_frames t.size t.above bounds sent
  have exactly : drains.length ≤ 1 ∨
      status (absorb r (drains.take k).flatten) ≠ .completeVerified ∨
      NoCollision src (absorb r (drains.take k).flatten) →
      Patched src (InRuns ((reportedRuns r).take 32)) r (absorb r (drains.take k).flatten) := by
    intro why
    -- either everything was read, or the client was verified before the last drain
    rcases early with all | ⟨many, verified | none⟩
    · apply patched.congr
      intro i
      refine ⟨within i, complete ?_ i⟩
      intro p hp
      rw [all]
      exact (frames p).mpr hp
    · have unique := (why.resolve_left (by omega)).resolve_left (not_not.mpr verified)
      apply verified_patched (man.same patched.same) patched within ?_ verified unique
      rintro i ⟨q, hq, _, hi⟩
      have := bounds q hq
      omega
    · exact absurd none quiet
  refine ⟨⟨P, patched, within⟩, exactly, ?_, fun i hole => ((holes_patched patched i).mp hole).1,
    fun i => damaged_patched patched, fun b hb => noBad_patched man patched hb⟩
  intro why
  exact remaining_of_patched man (exactly (why.imp_right Or.inl))

/-- The step lemma: an honest round ends with a verdict and recovers. -/
theorem honest_round {src : List UInt8} {total block mtu : UInt32} (t : Transfer src total mtu)
    {blockSize : UInt32} {sess : Session} {r : CiSvu} (settled : Settled sess r)
    (built : BuiltFrom (svuServe src total block) r) (unfinished : sess.st ≠ .completeVerified)
    {env : RoundEnv} (honest : HonestRound (svuServe src total block) mtu blockSize sess env) :
    ∃ sess' r', clientRound (svuServe src total block) mtu blockSize sess env =
        .ok (.verdict sess') ∧ Settled sess' r' ∧ BuiltFrom (svuServe src total block) r' ∧
      Recovers src env.drains r r' := by
  obtain ⟨⟨reply, hreply⟩, ⟨frames, hserve, hmem⟩, busy⟩ := honest
  rw [settled.st] at unfinished
  have served := serve_round (s := svuServe src total block) t settled built unfinished blockSize
  rw [hserve] at served
  cases served
  have htotal : r.total = total := built.total
  obtain ⟨k, settled', early⟩ := finishRound_spec r sess env.drains
  refine ⟨_, _, ?_, settled', built.absorb _,
    recovers_of_drains (htotal ▸ t) built.fromSource hmem busy early⟩
  simp only [clientRound, hreply, settled.recv]

/-- Every round of the list is honest, up to the one that verifies. -/
def HonestRun (s : Source) (mtu blockSize : UInt32) : Session → List RoundEnv → Prop
  | _, [] => True
  | sess, env :: envs =>
    HonestRound s mtu blockSize sess env ∧
      ∀ sess', clientRound s mtu blockSize sess env = .ok (.verdict sess') →
        sess'.st ≠ .completeVerified → HonestRun s mtu blockSize sess' envs

/-- The rounds that fill all holes and then rewrite all blocks, 32 at a time. -/
def roundsFor (nholes nblocks : Nat) : Nat := (nholes + 31) / 32 + (nblocks + 31) / 32

/-- The measure: while there are holes every block may turn out to be bad. -/
def roundsLeft (r : CiSvu) : Nat :=
  if holes r ≠ [] then roundsFor (holes r).length r.nblocks.toNat
  else roundsFor 0 (badBlocks r).length

theorem roundsLeft_le (r : CiSvu) : roundsLeft r ≤ roundsFor (holes r).length r.nblocks.toNat := by
  have hbad := badBlocks_length_le r
  rw [roundsLeft]
  split
  · exact Nat.le_refl _
  · unfold roundsFor
    omega

theorem roundsLeft_pos {r : CiSvu} (unfinished : status r ≠ .completeVerified) :
    0 < roundsLeft r := by
  rw [roundsLeft]
  by_cases hole : holes r ≠ []
  · have := List.length_pos_iff.mpr hole
    rw [if_pos hole, roundsFor]
    omega
  · have bad : badBlocks r ≠ [] := by
      intro none
      apply unfinished
      rw [status, if_neg hole, if_neg (not_not.mpr none)]
    have := List.length_pos_iff.mpr bad
    rw [if_neg hole, roundsFor]
    omega

/-- The step lemma of the measure. -/
theorem roundsLeft_round {src : List UInt8} {drains : List (List Payload)} {r r' : CiSvu}
    (h : Recovers src drains r r') (unfinished : status r' ≠ .completeVerified) :
    roundsLeft r' < roundsLeft r := by
  obtain ⟨filling, rewriting⟩ := h.remaining (Or.inr unfinished)
  obtain ⟨P, patched, _⟩ := h.within
  have pos' := roundsLeft_pos unfinished
  have hbad' := badBlocks_length_le r'
  rw [patched.same.nblocks] at hbad'
  -- the last hole filled, the bad blocks show: their number is bounded by all blocks
  by_cases hole : holes r ≠ []
  · have hdrop := congrArg List.length (filling hole)
    have hpos := List.length_pos_iff.mpr hole
    rw [List.length_drop] at hdrop
    rw [roundsLeft, roundsLeft, if_pos hole, patched.same.nblocks]
    by_cases hole' : holes r' ≠ []
    · have hpos' := List.length_pos_iff.mpr hole'
      rw [if_pos hole']
      unfold roundsFor
      omega
    · rw [if_neg hole']
      unfold roundsFor
      omega
  · obtain ⟨none, hdrop⟩ := rewriting (not_not.mp hole)
    have hlen := congrArg List.length hdrop
    rw [List.length_drop] at hlen
    rw [roundsLeft, if_neg (not_not.mpr none)] at pos'
    rw [roundsLeft, roundsLeft, if_neg hole, if_neg (not_not.mpr none)]
    unfold roundsFor at pos' ⊢
    omega

/-- The run lemma: enough honest rounds verify. -/
theorem honestRun_verifies {src : List UInt8} {total block mtu : UInt32}
    (t : Transfer src total mtu) {blockSize : UInt32} (left : Nat) {sess : Session} {r : CiSvu}
    (settled : Settled sess r) (built : BuiltFrom (svuServe src total block) r)
    (unfinished : sess.st ≠ .completeVerified) (bound : roundsLeft r ≤ left)
    {envs : List RoundEnv} {n : Nat}
    (honest : HonestRun (svuServe src total block) mtu blockSize sess envs)
    (rounds : left ≤ envs.length) (fuel : left ≤ n) :
    ∃ sess' r', roundLoop (svuServe src total block) mtu blockSize n sess envs =
        .ok (.verdict sess') ∧
      Settled sess' r' ∧ BuiltFrom (svuServe src total block) r' ∧
      status r' = .completeVerified := by
  induction left generalizing sess r envs n with
  | zero =>
    have := roundsLeft_pos (settled.st ▸ unfinished)
    omega
  | succ left ih =>
    cases envs with
    | nil => simp at rounds
    | cons env envs =>
      cases n with
      | zero => omega
      | succ n =>
        obtain ⟨first, later⟩ := honest
        obtain ⟨sess', r', hround, settled', built', recovers⟩ :=
          honest_round t settled built unfinished first
        simp only [roundLoop, List.headD_cons, List.tail_cons, hround]
        by_cases verified : sess'.st = .completeVerified
        · exact ⟨sess', r', if_pos verified, settled', built', settled'.st ▸ verified⟩
        · have less := roundsLeft_round recovers (settled'.st ▸ verified)
          rw [if_neg verified]
          apply ih settled' built' verified (by omega) (later sess' hround verified)
          · rw [List.length_cons] at rounds
            omega
          · omega

/-- Whatever the rounds of the loop do, its verdict is on a session they can leave. -/
theorem reached_roundLoop {s : Source} {mtu blockSize : UInt32} {n : Nat} {sess sess' : Session}
    {envs : List RoundEnv} (reached : Reached s mtu blockSize sess)
    (h : roundLoop s mtu blockSize n sess envs = .ok (.verdict sess')) :
    Reached s mtu blockSize sess' := by
  induction n generalizing sess envs with
  | zero =>
    cases h
    exact reached
  | succ n ih =>
    rw [roundLoop] at h
    split at h
    · cases h
    · cases h
    · rename_i step
      split at h
      · cases h
        exact Reached.round reached step
      · exact ih (Reached.round reached step) h

/-- From any session the rounds can leave: the sender answers with ranges, never with the
whole file; an honest round overwrites those ranges and does no new damage; and after
`⌈H / 32⌉ + ⌈nblocks / 32⌉` honest rounds the tracker verifies. -/
theorem recovery_converges {src : List UInt8} {total block mtu : UInt32}
    (t : Transfer src total mtu) (blockSize : UInt32) {sess : Session} {r : CiSvu}
    (reached : Reached (svuServe src total block) mtu blockSize sess)
    (hrecv : sess.recv = some r) (built : BuiltFrom (svuServe src total block) r) :
    (sess.st ≠ .completeVerified →
      (roundRequest mtu blockSize sess).nofIntervals ≠ 0 ∧
      (∃ frames, svuServeData (svuServe src total block)
        (svuReqEncode (roundRequest mtu blockSize sess)) = .ok frames) ∧
      ∀ env, HonestRound (svuServe src total block) mtu blockSize sess env →
        ∃ sess' r', clientRound (svuServe src total block) mtu blockSize sess env =
            .ok (.verdict sess') ∧
          sess'.recv = some r' ∧ BuiltFrom (svuServe src total block) r' ∧
          Recovers src env.drains r r') ∧
    ∀ envs n, HonestRun (svuServe src total block) mtu blockSize sess envs →
      roundsFor (holes r).length r.nblocks.toNat ≤ envs.length →
      roundsFor (holes r).length r.nblocks.toNat ≤ n →
      sess.st = .completeVerified ∧ (ciSvuVerify r svuMaxIntervals).1 = .completeVerified ∨
        ∃ sess' r', roundLoop (svuServe src total block) mtu blockSize n sess envs =
            .ok (.verdict sess') ∧
          Reached (svuServe src total block) mtu blockSize sess' ∧
          sess'.recv = some r' ∧ BuiltFrom (svuServe src total block) r' ∧
          sess'.st = .completeVerified ∧
          (ciSvuVerify r' svuMaxIntervals).1 = .completeVerified := by
  have settled := reached.settled hrecv
  constructor
  · intro unfinished
    have open' : status r ≠ .completeVerified := settled.st ▸ unfinished
    refine ⟨(request_decodes settled open' mtu blockSize).2.1,
      ⟨_, serve_round t settled built open' blockSize⟩, ?_⟩
    intro env honest
    obtain ⟨sess', r', hround, settled', built', recovers⟩ :=
      honest_round t settled built unfinished honest
    exact ⟨sess', r', hround, settled'.recv, built', recovers⟩
  · intro envs n honest rounds fuel
    by_cases verified : sess.st = .completeVerified
    · refine Or.inl ⟨verified, ?_⟩
      rw [ciSvuVerify_eq]
      exact settled.st ▸ verified
    · right
      obtain ⟨sess', r', loop, settled', built', complete⟩ :=
        honestRun_verifies t _ settled built verified (roundsLeft_le r) honest rounds fuel
      refine ⟨sess', r', loop, reached_roundLoop reached loop, settled'.recv, built',
        settled'.st.trans complete, ?_⟩
      rw [ciSvuVerify_eq]
      exact complete

theorem honestRound_exists {s : Source} {mtu : UInt32} (t : Transfer s.src s.total mtu)
    (room : s.nblocks.toNat ≤ 134217725) {sess : Session} {r : CiSvu} (settled : Settled sess r)
    (built : BuiltFrom s r) (unfinished : sess.st ≠ .completeVerified) (blockSize : UInt32) :
    ∃ env, HonestRound s mtu blockSize sess env := by
  rw [settled.st] at unfinished
  have decodes := (request_decodes settled unfinished mtu blockSize).1
  have served := serve_round t settled built unfinished blockSize
  refine ⟨⟨[losslessAttempt ((manifestChunks s).length + 1)], true,
    (roundFrames s.src mtu r).map fun p => [p]⟩,
    ⟨_, attemptLoop_lossless room decodes⟩, ⟨_, served, fun p => ?_⟩, ?_⟩
  · simp
  · intro d hd
    obtain ⟨p, _, rfl⟩ := List.mem_map.mp hd
    exact List.cons_ne_nil p []

theorem honestRun_exists {src : List UInt8} {total block mtu : UInt32}
    (t : Transfer src total mtu) (room : (ciSvuNblocks total block).toNat ≤ 134217725)
    (blockSize : UInt32) (n : Nat) {sess : Session} {r : CiSvu} (settled : Settled sess r)
    (built : BuiltFrom (svuServe src total block) r) (unfinished : sess.st ≠ .completeVerified) :
    ∃ envs, envs.length = n ∧ HonestRun (svuServe src total block) mtu blockSize sess envs := by
  induction n generalizing sess r with
  | zero => exact ⟨[], rfl, trivial⟩
  | succ n ih =>
    obtain ⟨env, honest⟩ := honestRound_exists (s := svuServe src total block) t room settled
      built unfinished blockSize
    obtain ⟨sess', r', hround, settled', built', _⟩ :=
      honest_round t settled built unfinished honest
    have rest : ∃ envs, envs.length = n ∧ (sess'.st ≠ .completeVerified →
        HonestRun (svuServe src total block) mtu blockSize sess' envs) := by
      by_cases verified : sess'.st = .completeVerified
      · exact ⟨List.replicate n silentRound, List.length_replicate, fun h => absurd verified h⟩
      · obtain ⟨envs, hlen, run⟩ := ih settled' built' verified
        exact ⟨envs, hlen, fun _ => run⟩
    obtain ⟨envs, hlen, run⟩ := rest
    refine ⟨env :: envs, by rw [List.length_cons, hlen], honest, ?_⟩
    intro sess'' hround' unfinished'
    rw [hround] at hround'
    cases hround'
    exact run unfinished'

/-- After a first round that loses every data frame there is a tracker to recover, and it
misses the whole file. -/
theorem reached_after_loss (src : List UInt8) {total block : UInt32}
    (hn : ciSvuNblocks total block ≠ 0)
    (room : (ciSvuNblocks total block).toNat ≤ 134217725) (mtu blockSize : UInt32) :
    ∃ sess r, Reached (svuServe src total block) mtu blockSize sess ∧ sess.recv = some r ∧
      BuiltFrom (svuServe src total block) r ∧ sess.st = .incomplete := by
  obtain ⟨r, kept, built, fresh, _, round⟩ := first_round src hn room mtu blockSize
  obtain ⟨k, settled, _⟩ := finishRound_spec r sessionStart []
  have nothing : absorb r (([] : List (List Payload)).take k).flatten = r := by
    rw [List.take_nil]
    rfl
  rw [nothing] at settled
  refine ⟨_, r, Reached.round Reached.start (round []), settled.recv, built, ?_⟩
  rw [settled.st, status_incomplete_iff]
  intro all
  have first : 0 < r.total.toNat := (nblocks_pos (r.nblocks_eq ▸ r.nblocks_ne)).1
  have hole := fresh.covered 0 first
  rw [all 0 first] at hole
  cases hole

theorem recovery_of_three_bytes :
    ∃ sess r envs, Reached (svuServe [7, 8, 9] 3 2) 9 2 sess ∧ sess.recv = some r ∧
      BuiltFrom (svuServe [7, 8, 9] 3 2) r ∧ sess.st = .incomplete ∧
      HonestRun (svuServe [7, 8, 9] 3 2) 9 2 sess envs ∧
      envs.length = roundsFor (holes r).length r.nblocks.toNat ∧
      ∃ sess' r', roundLoop (svuServe [7, 8, 9] 3 2) 9 2
          (roundsFor (holes r).length r.nblocks.toNat) sess envs = .ok (.verdict sess') ∧
        sess'.recv = some r' ∧ (ciSvuVerify r' svuMaxIntervals).1 = .completeVerified := by
  have t : Transfer [7, 8, 9] 3 9 := ⟨rfl, by decide, by decide, by decide⟩
  obtain ⟨sess, r, reached, hrecv, built, incomplete⟩ :=
    @reached_after_loss [7, 8, 9] 3 2 (by decide) (by decide) 9 2
  have unfinished : sess.st ≠ .completeVerified := by
    rw [incomplete]
    decide
  obtain ⟨envs, hlen, honest⟩ := honestRun_exists t (by decide) 2
    (roundsFor (holes r).length r.nblocks.toNat) (reached.settled hrecv) built unfinished
  refine ⟨sess, r, envs, reached, hrecv, built, incomplete, honest, hlen, ?_⟩
  rcases (recovery_converges t 2 reached hrecv built).2 envs _ honest (Nat.le_of_eq hlen.symm)
    (Nat.le_refl _) with ⟨verified, _⟩ | ⟨sess', r', loop, _, hrecv', _, _, verified⟩
  · exact absurd verified unfinished
  · exact ⟨sess', r', loop, hrecv', verified⟩

end CspLinksim.Svu
