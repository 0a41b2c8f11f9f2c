import CspLinksim.SvuFragments

/-!
# Recovery over a link that changes no frame

A session is the set of fragments it misses, and a round takes away those that are read.
Rounds that each bring a frame therefore end.
-/

namespace CspLinksim.Svu

open Runs Packet Pieces Gaps

/-- The fragments the session still misses; before the first round these are all. -/
def Misses (src : List UInt8) (total block mtu : UInt32) (sess : Session) (m : Finset Nat) :
    Prop :=
  (sess = sessionStart ∧ m = Finset.range (nofFragments total mtu)) ∨
    ∃ r, Settled sess r ∧ BuiltFrom (svuServe src total block) r ∧ Fragmented src mtu r ∧
      missingFragments mtu r = m

/-- An exchange fails or hands out the sender's manifest, and only blasted frames arrive. -/
structure CleanRound (s : Source) (mtu blockSize : UInt32) (sess : Session) (env : RoundEnv) :
    Prop where
  control : attemptLoop s (svuReqEncode (roundRequest mtu blockSize sess))
      (env.attempts.take 8) = .ok none ∨
    attemptLoop s (svuReqEncode (roundRequest mtu blockSize sess)) (env.attempts.take 8) =
      .ok (some (senderReply s))
  data : ∀ frames, svuServeData s (svuReqEncode (roundRequest mtu blockSize sess)) = .ok frames →
    ∀ p ∈ env.drains.flatten, p ∈ frames

theorem whole_blast {src : List UInt8} {total mtu : UInt32} (t : Transfer src total mtu) :
    rangeFrames src 1 mtu (0, total.toNat) =
      (List.range (nofFragments total mtu)).map (fragmentFrame src mtu) := by
  rw [rangeFrames, ← payOf, pieces_eq_range t.pay_pos (by simp), List.map_map, nofFragments]
  apply List.map_congr_left
  intro k _
  simp only [Function.comp_apply, fragmentFrame, fragmentPiece, t.size]

/-- A request is answered with frames of missing fragments, the first one with all. -/
theorem Misses.offer {src : List UInt8} {total block mtu : UInt32} (t : Transfer src total mtu)
    (hn : ciSvuNblocks total block ≠ 0) {sess : Session} {m : Finset Nat}
    (h : Misses src total block mtu sess m) (unfinished : sess.st ≠ .completeVerified)
    (blockSize : UInt32) :
    ∃ frames, svuServeData (svuServe src total block)
        (svuReqEncode (roundRequest mtu blockSize sess)) = .ok frames ∧ frames ≠ [] ∧
      (∀ p ∈ frames, ∃ k ∈ m, k < nofFragments total mtu ∧ p = fragmentFrame src mtu k) ∧
      (sess = sessionStart →
        frames = (List.range (nofFragments total mtu)).map (fragmentFrame src mtu)) := by
  rcases h with ⟨rfl, rfl⟩ | ⟨r, settled, built, parts, rfl⟩
  · have above : (roundRequest mtu blockSize sessionStart).mtu > UInt32.ofNat svuDataHdr :=
      UInt32.lt_iff_toNat_lt.mpr t.above
    have whole : (roundRequest mtu blockSize sessionStart).nofIntervals = 0 := rfl
    have hzero : UInt32.toNat 0 = 0 := rfl
    refine ⟨_, ?_, ?_, ?_, fun _ => rfl⟩
    · simp only [svuServeData, firstRequest_decodes, if_pos above, if_pos whole]
      have blast := blastInterval_ok t 1 0 total (Nat.le_refl _)
      rw [hzero, whole_blast t] at blast
      exact blast
    · have first := (@lt_nofFragments total mtu t.pay_pos 0).mpr
        (by rw [Nat.zero_mul]; exact (nblocks_pos hn).1)
      intro none
      have := congrArg List.length none
      simp at this
      omega
    · intro p hp
      obtain ⟨k, hk, rfl⟩ := List.mem_map.mp hp
      exact ⟨k, Finset.mem_range.mpr (List.mem_range.mp hk), List.mem_range.mp hk, rfl⟩
  · have htotal : r.total = total := built.total
    have t' : Transfer src r.total mtu := htotal ▸ t
    have unfinished : status r ≠ .completeVerified := settled.st ▸ unfinished
    refine ⟨_, serve_round (s := svuServe src total block) t settled built unfinished blockSize,
      roundFrames_ne_nil t' unfinished, ?_, ?_⟩
    · intro p hp
      obtain ⟨q, hq, hpq⟩ := List.mem_flatMap.mp hp
      -- a fragmented payload without holes is verified, so the ranges are holes
      have hole : holes r ≠ [] := by
        intro none
        have covered := (allCovered_iff_holes r).mpr none
        apply unfinished
        rw [parts.verified_iff t.pay_pos built.fromSource, Finset.eq_empty_iff_forall_notMem]
        intro k hk
        obtain ⟨hlt, uncovered⟩ := mem_missing.mp hk
        rw [covered _ ((lt_nofFragments t.pay_pos k).mp hlt)] at uncovered
        cases uncovered
      rw [reportedRuns, if_pos hole] at hq
      obtain ⟨k, hk, eq⟩ := parts.frame_of_hole t' (List.mem_of_mem_take hq) hpq
      exact ⟨k, hk, htotal ▸ (mem_missing.mp hk).1, eq⟩
    · rintro rfl
      cases settled.recv

/-- The client reads a prefix of the drains, at least the first, and all of them unless it
is verified or one of them brings nothing. -/
theorem finishRound_reads (recv : CiSvu) (sess : Session) (drains : List (List Payload)) :
    ∃ read, read <+: drains ∧ (read = [] → drains = []) ∧
      Settled (finishRound recv sess drains) (absorb recv read.flatten) := by
  have known : ∀ r, (drainLoop recv drains).1 = r → Settled (finishRound recv sess drains) r := by
    rintro r rfl
    obtain ⟨k, settled, _⟩ := finishRound_spec recv sess drains
    have same : (finishRound recv sess drains).recv = some (drainLoop recv drains).1 := by
      simp only [finishRound]
      split <;> rfl
    rw [settled.recv] at same
    exact Option.some.inj same ▸ settled
  cases drains with
  | nil => exact ⟨[], List.prefix_refl _, fun _ => rfl, known _ rfl⟩
  | cons d ds =>
    by_cases stops : (ciSvuVerify (absorb recv d) svuMaxIntervals).1 = .completeVerified ∨
        (fragments d).length = 0
    · refine ⟨[d], by simp, by simp, known _ ?_⟩
      simp only [drainLoop, drainData_eq, if_pos stops, List.flatten_singleton]
    · obtain ⟨k, eq, _⟩ := drainLoop_spec (absorb recv d) ds
      refine ⟨d :: ds.take k, List.cons_prefix_cons.mpr ⟨rfl, List.take_prefix k ds⟩, by simp,
        known _ ?_⟩
      simp only [drainLoop, drainData_eq, if_neg stops, eq, List.flatten_cons, absorb_append]

/-- A new tracker misses everything. -/
theorem fragmented_new {src : List UInt8} {total block mtu nblocks : UInt32} {r : CiSvu}
    {heap : Bool} {expected : List UInt8} (pos : 0 < payOf mtu)
    (made : ciSvuNew heap total block expected nblocks = .ok (some r)) :
    Fragmented src mtu r ∧
      missingFragments mtu r = Finset.range (nofFragments total mtu) := by
  obtain ⟨htotal, _, _, _, fresh⟩ := new_cases made
  have none : ∀ i : Nat, i < r.total.toNat → r.covered[i]? = some false := fresh.covered
  refine ⟨⟨?_, ?_⟩, ?_⟩
  · intro i j hi hj _
    rw [none i hi, none j hj]
  · intro i covered
    have hi : i < r.total.toNat := by
      by_contra past
      rw [List.getElem?_eq_none (by rw [r.covered_size]; omega)] at covered
      cases covered
    rw [none i hi] at covered
    cases covered
  · ext k
    rw [mem_missing, htotal, Finset.mem_range]
    refine ⟨fun h => h.1, fun hk => ⟨hk, none _ ?_⟩⟩
    rw [htotal]
    exact (lt_nofFragments pos k).mp hk

/-- What a round that ends with a verdict has read. -/
structure Reads (src : List UInt8) (total block mtu : UInt32) (m : Finset Nat) (env : RoundEnv)
    (sess' : Session) (read : List (List Payload)) : Prop where
  upTo : read <+: env.drains
  first : read = [] → env.drains = []
  misses : Misses src total block mtu sess' (m \ deliveredFragments src mtu read.flatten)
  verified : sess'.st = .completeVerified ↔ m \ deliveredFragments src mtu read.flatten = ∅

/-- The step lemma: a round takes the fragments it reads away from those that are missing. -/
theorem clean_round {src : List UInt8} {total block mtu : UInt32} (t : Transfer src total mtu)
    (hn : ciSvuNblocks total block ≠ 0) {sess : Session} {m : Finset Nat}
    (h : Misses src total block mtu sess m) (unfinished : sess.st ≠ .completeVerified)
    {blockSize : UInt32} {env : RoundEnv}
    (clean : CleanRound (svuServe src total block) mtu blockSize sess env) :
    (clientRound (svuServe src total block) mtu blockSize sess env = .ok (.done sess) ∧
      (attemptLoop (svuServe src total block) (svuReqEncode (roundRequest mtu blockSize sess))
        (env.attempts.take 8) = .ok none ∨ env.hasHeap = false)) ∨
    ∃ sess' read, clientRound (svuServe src total block) mtu blockSize sess env =
      .ok (.verdict sess') ∧ Reads src total block mtu m env sess' read := by
  obtain ⟨frames, served, _, known, _⟩ := h.offer t hn unfinished blockSize
  have goes : ∀ r, BuiltFrom (svuServe src total block) r → Fragmented src mtu r →
      missingFragments mtu r = m →
      ∃ read, Reads src total block mtu m env (finishRound r sess env.drains) read := by
    rintro r built parts rfl
    obtain ⟨read, upTo, first, settled⟩ := finishRound_reads r sess env.drains
    have htotal : r.total = total := built.total
    have t' : Transfer src r.total mtu := htotal ▸ t
    obtain ⟨parts', left⟩ := @absorb_fragments src mtu r t' parts read.flatten (by
      intro p hp
      obtain ⟨d, hd, hpd⟩ := List.mem_flatten.mp hp
      obtain ⟨k, _, hk, eq⟩ := known p (clean.data frames served p
        (List.mem_flatten.mpr ⟨d, upTo.subset hd, hpd⟩))
      exact ⟨k, htotal.symm ▸ hk, eq⟩)
    have built' := built.absorb read.flatten
    refine ⟨read, upTo, first, Or.inr ⟨_, settled, built', parts', left⟩, ?_⟩
    rw [settled.st, parts'.verified_iff t.pay_pos built'.fromSource, left]
  rcases clean.control with lost | answered
  · left
    exact ⟨by simp only [clientRound, lost], Or.inl lost⟩
  · rcases h with ⟨rfl, rfl⟩ | ⟨r, settled, built, parts, left⟩
    · obtain ⟨made, hmade, built⟩ := new_total (svuServe src total block) env.hasHeap
      have start : sessionStart.recv = none := rfl
      have replied : ciSvuNew env.hasHeap (senderReply (svuServe src total block)).total
        (senderReply (svuServe src total block)).block
        (senderReply (svuServe src total block)).manifest
        (senderReply (svuServe src total block)).nblocks = .ok made := hmade
      cases made with
      | none =>
        left
        refine ⟨?_, Or.inr ?_⟩
        · simp only [clientRound, answered, start, replied]
        · by_contra heap
          obtain ⟨r, some_tracker⟩ := new_ok total block (ciSvuManifest src total block).2 hn
            (Nat.le_of_eq (manifest_length src total block).symm)
          have heap : env.hasHeap = true := by simpa using heap
          rw [heap] at hmade
          cases hmade.symm.trans some_tracker
      | some r =>
        right
        obtain ⟨parts, left⟩ := fragmented_new t.pay_pos hmade
        obtain ⟨read, reads⟩ := goes r (built r rfl) parts left
        refine ⟨_, read, ?_, reads⟩
        simp only [clientRound, answered, start, replied]
    · right
      obtain ⟨read, reads⟩ := goes r built parts left
      refine ⟨_, read, ?_, reads⟩
      simp only [clientRound, answered, settled.recv]

/-- Once verified the client holds the sender's bytes; no digest is needed for that. -/
theorem Misses.verified_data {src : List UInt8} {total block mtu : UInt32}
    (t : Transfer src total mtu) {sess : Session} {m : Finset Nat}
    (h : Misses src total block mtu sess m) (verified : sess.st = .completeVerified) :
    ∃ r, sess.recv = some r ∧ r.data = src := by
  rcases h with ⟨rfl, _⟩ | ⟨r, settled, built, parts, _⟩
  · cases verified
  · have htotal : r.total = total := built.total
    have covered := ((status_complete_iff r).mp (settled.st ▸ verified)).1
    refine ⟨r, settled.recv, (data_eq_of_bytes (htotal ▸ t.size)).mp ?_⟩
    exact fun i hi => parts.bytes i (covered i hi)

theorem misses_start (src : List UInt8) (total block mtu : UInt32) :
    Misses src total block mtu sessionStart (Finset.range (nofFragments total mtu)) :=
  Or.inl ⟨rfl, rfl⟩

/-- Nothing is lost on the control connection. -/
theorem Misses.answered {src : List UInt8} {total block mtu : UInt32}
    (room : (ciSvuNblocks total block).toNat ≤ 134217725) {sess : Session} {m : Finset Nat}
    (h : Misses src total block mtu sess m) (unfinished : sess.st ≠ .completeVerified)
    (blockSize : UInt32) :
    attemptLoop (svuServe src total block) (svuReqEncode (roundRequest mtu blockSize sess))
      [losslessAttempt ((manifestChunks (svuServe src total block)).length + 1)] =
        .ok (some (senderReply (svuServe src total block))) := by
  rcases h with ⟨rfl, _⟩ | ⟨r, settled, _⟩
  · exact attemptLoop_lossless room (firstRequest_decodes mtu blockSize)
  · exact attemptLoop_lossless room
      (request_decodes settled (settled.st ▸ unfinished) mtu blockSize).1

end CspLinksim.Svu
