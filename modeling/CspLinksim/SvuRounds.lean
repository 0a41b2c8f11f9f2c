import CspLinksim.SvuSession
import CspLinksim.SvuDelivery

/-!
# What a round leaves behind

Draining a link is a delivery history, so a round ends with the tracker of that
history and the verdict on it. A property that one round preserves holds at the end
of every run of rounds.
-/

namespace CspLinksim.Svu

open Runs Packet

/-- The fragments of the frames that are longer than the data header. -/
def fragments (frames : List Payload) : List Fragment :=
  (frames.filter fun p => p.length > svuDataHdr).map fun p => ⟨svuGet32 p 0, p.drop svuDataHdr⟩

/-- The tracker after the frames. -/
def absorb (recv : CiSvu) (frames : List Payload) : CiSvu :=
  (run ciSvuAccept recv (fragments frames)).1

theorem mem_fragments {frames : List Payload} {f : Fragment} :
    f ∈ fragments frames ↔
      ∃ p ∈ frames, p.length > svuDataHdr ∧ (⟨svuGet32 p 0, p.drop svuDataHdr⟩ : Fragment) = f := by
  simp only [fragments, List.mem_map, List.mem_filter, decide_eq_true_eq, and_assoc]

theorem absorb_append (recv : CiSvu) (xs ys : List Payload) :
    absorb recv (xs ++ ys) = absorb (absorb recv xs) ys := by
  simp only [absorb, fragments, List.filter_append, List.map_append, run_append]

theorem drainFrames_eq (frames : List Payload) (recv : CiSvu) (got : Nat) :
    frames.foldl drainFrame (recv, got) =
      (absorb recv frames, got + (fragments frames).length) := by
  induction frames generalizing recv got with
  | nil => rfl
  | cons p ps ih =>
    rw [List.foldl_cons, drainFrame]
    by_cases data : p.length > svuDataHdr
    · rw [if_pos data, ih]
      simp only [absorb, fragments, List.filter_cons, data, decide_true, if_true, List.map_cons,
        run_cons, List.length_cons, Nat.add_assoc, Nat.add_comm 1]
    · rw [if_neg data, ih]
      simp only [absorb, fragments, List.filter_cons, data, decide_false, Bool.false_eq_true,
        if_false]

theorem drainData_eq (recv : CiSvu) (frames : List Payload) :
    drainData recv frames = (absorb recv frames, (fragments frames).length) := by
  rw [drainData, drainFrames_eq, Nat.zero_add]

/-- The loop ends with the verdict on what it let in, and it ends early only on a verified
payload or after a drain that brings nothing. -/
theorem drainLoop_spec (recv : CiSvu) (drains : List (List Payload)) :
    ∃ k, drainLoop recv drains = (absorb recv (drains.take k).flatten,
        ciSvuVerify (absorb recv (drains.take k).flatten) svuMaxIntervals) ∧
      (drains.take k = drains ∨ 1 < drains.length ∧
        (status (absorb recv (drains.take k).flatten) = .completeVerified ∨
          ∃ d ∈ drains, fragments d = [])) := by
  induction drains generalizing recv with
  | nil => exact ⟨0, rfl, Or.inl rfl⟩
  | cons d ds ih =>
    have first : (ciSvuVerify (absorb recv d) svuMaxIntervals).1 = status (absorb recv d) := by
      rw [ciSvuVerify_eq]
    simp only [drainLoop, drainData_eq, first]
    by_cases stops : status (absorb recv d) = .completeVerified ∨ (fragments d).length = 0
    · refine ⟨1, ?_, ?_⟩
      · rw [if_pos stops]
        simp
      · cases ds with
        | nil => exact Or.inl rfl
        | cons e es =>
          right
          refine ⟨by simp, ?_⟩
          rcases stops with complete | quiet
          · left
            simpa using complete
          · exact Or.inr ⟨d, List.mem_cons_self, List.length_eq_zero_iff.mp quiet⟩
    · obtain ⟨k, eq, early⟩ := ih (absorb recv d)
      refine ⟨k + 1, ?_, ?_⟩
      · rw [if_neg stops, eq, List.take_succ_cons, List.flatten_cons, absorb_append]
      · rw [List.take_succ_cons, List.flatten_cons, absorb_append]
        rcases early with whole | ⟨more, complete | ⟨e, he, quiet⟩⟩
        · left
          rw [whole]
        · exact Or.inr ⟨by rw [List.length_cons]; omega, Or.inl complete⟩
        · exact Or.inr ⟨by rw [List.length_cons]; omega,
            Or.inr ⟨e, List.mem_cons_of_mem d he, quiet⟩⟩

theorem sameTransfer_absorb (recv : CiSvu) (frames : List Payload) :
    SameTransfer (absorb recv frames) recv := by
  apply run_invariant ciSvuAccept (fun s => SameTransfer s recv)
  · intro s f h
    rcases accept_cases s f with ⟨_, eq⟩ | ⟨_, _, same, _⟩
    · rw [eq]
      exact h
    · exact same.trans h
  · exact SameTransfer.refl recv

/-- A session whose verdict and ranges are those of its tracker. -/
structure Settled (sess : Session) (r : CiSvu) : Prop where
  recv : sess.recv = some r
  st : sess.st = status r
  ivs : sess.ivs = (reported r).take 32
  nreq : status r ≠ .completeVerified → sess.nreq.toNat = min 32 (reported r).length

theorem finishRound_spec (recv : CiSvu) (sess : Session) (drains : List (List Payload)) :
    ∃ k, Settled (finishRound recv sess drains) (absorb recv (drains.take k).flatten) ∧
      (drains.take k = drains ∨ 1 < drains.length ∧
        (status (absorb recv (drains.take k).flatten) = .completeVerified ∨
          ∃ d ∈ drains, fragments d = [])) := by
  obtain ⟨k, eq, early⟩ := drainLoop_spec recv drains
  refine ⟨k, ?_, early⟩
  obtain ⟨r, hr⟩ : ∃ r, r = absorb recv (drains.take k).flatten := ⟨_, rfl⟩
  rw [← hr, ciSvuVerify_eq] at eq
  rw [← hr]
  simp only [finishRound, eq]
  by_cases complete : status r = .completeVerified
  · rw [if_pos complete]
    exact ⟨rfl, rfl, rfl, fun h => absurd complete h⟩
  · rw [if_neg complete]
    refine ⟨rfl, rfl, rfl, fun _ => ?_⟩
    have small := reported_length_lt r
    have hnout : (UInt32.ofNat (reported r).length).toNat = (reported r).length :=
      UInt32.toNat_ofNat_of_lt' small
    have hmax : svuMaxIntervals.toNat = 32 := rfl
    simp only [gathered, UInt32.lt_iff_toNat_lt, hnout, hmax]
    split
    · rw [hnout]
      omega
    · rw [hmax]
      omega

def RoundEnd.session : RoundEnd → Session
  | .done sess => sess
  | .verdict sess => sess

/-- A round that ends is cut short, or goes on with the tracker it has or makes. -/
theorem clientRound_cases {s : Source} {mtu blockSize : UInt32} {sess : Session} {env : RoundEnv}
    {e : RoundEnd} (h : clientRound s mtu blockSize sess env = .ok e) :
    e = .done sess ∨
      ∃ reply recv,
        attemptLoop s (svuReqEncode (roundRequest mtu blockSize sess)) (env.attempts.take 8) =
          .ok (some reply) ∧
        (sess.recv = some recv ∨ sess.recv = none ∧
          ciSvuNew env.hasHeap reply.total reply.block reply.manifest reply.nblocks =
            .ok (some recv)) ∧
        e = .verdict (finishRound recv sess env.drains) := by
  rw [clientRound] at h
  cases hctrl : attemptLoop s (svuReqEncode (roundRequest mtu blockSize sess))
      (env.attempts.take 8) with
  | error f => simp [hctrl] at h
  | ok answer =>
    cases answer with
    | none =>
      left
      simpa [hctrl] using h.symm
    | some reply =>
      rw [hctrl] at h
      cases hrecv : sess.recv with
      | some recv =>
        right
        exact ⟨reply, recv, rfl, Or.inl rfl, by simpa [hrecv] using h.symm⟩
      | none =>
        cases hnew : ciSvuNew env.hasHeap reply.total reply.block reply.manifest
            reply.nblocks with
        | error f => simp [hrecv, hnew] at h
        | ok made =>
          cases made with
          | none =>
            left
            simpa [hrecv, hnew] using h.symm
          | some recv =>
            right
            exact ⟨reply, recv, rfl, Or.inr ⟨rfl, hnew⟩, by simpa [hrecv, hnew] using h.symm⟩

/-- The run lemma: if rounds never fault and preserve a property, so do runs. -/
theorem roundLoop_total {s : Source} {mtu blockSize : UInt32} (P : Session → Prop)
    (Q : RoundEnv → Prop)
    (round : ∀ sess env, P sess → Q env →
      ∃ e, clientRound s mtu blockSize sess env = .ok e ∧ P e.session)
    (silent : Q silentRound) (n : Nat) {sess : Session} {envs : List RoundEnv} (init : P sess)
    (suits : ∀ env ∈ envs, Q env) :
    ∃ e, roundLoop s mtu blockSize n sess envs = .ok e ∧ P e.session := by
  induction n generalizing sess envs with
  | zero => exact ⟨_, rfl, init⟩
  | succ n ih =>
    have now : Q (envs.headD silentRound) := by
      cases envs with
      | nil => exact silent
      | cons env envs => exact suits env List.mem_cons_self
    obtain ⟨first, hround, next⟩ := round sess _ init now
    rw [roundLoop, hround]
    cases first with
    | done sess' => exact ⟨_, rfl, next⟩
    | verdict sess' =>
      by_cases verified : sess'.st = .completeVerified
      · exact ⟨_, if_pos verified, next⟩
      · simp only [if_neg verified]
        exact ih next fun env henv => suits env (List.mem_of_mem_tail henv)

/-- The tracker a run ends with is that of its rounds. -/
theorem svuClientRun_recv {s : Source} {blockSize mtu : UInt32} {maxRounds : Nat}
    {envs : List RoundEnv} {ops : FileOps} {old : Option (List UInt8)} {r : RunResult}
    (h : svuClientRun s blockSize mtu maxRounds envs ops old = .ok r) :
    ∃ e, roundLoop s mtu blockSize maxRounds sessionStart envs = .ok e ∧
      r.recv = e.session.recv := by
  rw [svuClientRun] at h
  cases hloop : roundLoop s mtu blockSize maxRounds sessionStart envs with
  | error f =>
    rw [hloop] at h
    cases h
  | ok e =>
    refine ⟨e, rfl, ?_⟩
    rw [hloop] at h
    cases e with
    | done sess =>
      cases h
      rfl
    | verdict sess =>
      simp only [RoundEnd.session]
      cases hrecv : sess.recv with
      | none =>
        simp only [hrecv] at h
        cases h
        rfl
      | some recv =>
        simp only [hrecv] at h
        split at h
        · cases h
          rfl
        · split at h
          · cases h
            rfl
          · cases h
            rfl

/-- The tracker belongs to the sender's payload and manifest. -/
structure BuiltFrom (s : Source) (r : CiSvu) : Prop where
  total : r.total = s.total
  block : r.block = s.blockSize
  nblocks : r.nblocks = s.nblocks
  expected : r.expected = s.manifest

theorem BuiltFrom.absorb {s : Source} {r : CiSvu} (h : BuiltFrom s r) (frames : List Payload) :
    BuiltFrom s (absorb r frames) := by
  have same := sameTransfer_absorb r frames
  exact ⟨same.total.trans h.total, same.block.trans h.block, same.nblocks.trans h.nblocks,
    same.expected.trans h.expected⟩

/-- What a complete exchange hands out. -/
def senderReply (s : Source) : CtrlReply where
  total := s.total
  block := s.blockSize
  nblocks := s.nblocks
  manifest := s.manifest

theorem BuiltFrom.fromSource {src : List UInt8} {total block : UInt32} {r : CiSvu}
    (h : BuiltFrom (svuServe src total block) r) : FromSource src r := by
  rw [FromSource, h.total, h.block]
  exact h.expected

/-- A session without a tracker, or with one of the sender's and its last verdict. -/
def TracksSender (s : Source) (sess : Session) : Prop :=
  ∀ r, sess.recv = some r → Settled sess r ∧ BuiltFrom s r

/-- The sender's own manifest never faults. -/
theorem new_total (s : Source) (heap : Bool) :
    ∃ made, ciSvuNew heap s.total s.blockSize s.manifest s.nblocks = .ok made ∧
      ∀ r, made = some r → BuiltFrom s r := by
  cases hnew : ciSvuNew heap s.total s.blockSize s.manifest s.nblocks with
  | error f =>
    simp only [ciSvuNew] at hnew
    split at hnew
    · cases hnew
    · rename_i agree
      have hn : ciSvuNblocks s.total s.blockSize = s.nblocks := by
        by_contra differ
        exact agree (Or.inr differ)
      split at hnew
      · cases hnew
      · split at hnew
        · cases hnew
        · rename_i short
          rw [hn, s.manifest_size] at short
          exact absurd (Nat.le_refl _) short
  | ok made =>
    refine ⟨made, rfl, ?_⟩
    rintro r rfl
    obtain ⟨htotal, hblock, hnblocks, hexpected, _⟩ := new_cases hnew
    refine ⟨htotal, hblock, hnblocks, hexpected.trans ?_⟩
    exact List.take_of_length_le (Nat.le_of_eq s.manifest_size)

/-- A round in which only the sender's reply can arrive. -/
theorem clientRound_total {s : Source} {mtu blockSize : UInt32} {sess : Session} {env : RoundEnv}
    (tracks : TracksSender s sess)
    (replies : attemptLoop s (svuReqEncode (roundRequest mtu blockSize sess))
        (env.attempts.take 8) = .ok none ∨
      attemptLoop s (svuReqEncode (roundRequest mtu blockSize sess)) (env.attempts.take 8) =
        .ok (some (senderReply s))) :
    ∃ e, clientRound s mtu blockSize sess env = .ok e ∧ TracksSender s e.session := by
  have goes : ∀ base, BuiltFrom s base →
      TracksSender s (finishRound base sess env.drains) := by
    intro base built r hr
    obtain ⟨k, settled, _⟩ := finishRound_spec base sess env.drains
    have same := hr.symm.trans settled.recv
    cases same
    exact ⟨settled, built.absorb _⟩
  rw [clientRound]
  rcases replies with lost | whole
  · rw [lost]
    exact ⟨_, rfl, tracks⟩
  · rw [whole]
    cases hrecv : sess.recv with
    | some r => exact ⟨_, rfl, goes r (tracks r hrecv).2⟩
    | none =>
      obtain ⟨made, hmade, built⟩ := new_total s env.hasHeap
      simp only [senderReply, hmade]
      cases made with
      | none => exact ⟨_, rfl, tracks⟩
      | some r => exact ⟨_, rfl, goes r (built r rfl)⟩

/-- Attempts that each fail or hand out one reply. -/
theorem attemptLoop_total {s : Source} {req : Payload} {reply : CtrlReply} (as : List Attempt)
    (each : ∀ a ∈ as, exchange s req a = .ok none ∨ exchange s req a = .ok (some reply)) :
    attemptLoop s req as = .ok none ∨ attemptLoop s req as = .ok (some reply) := by
  induction as with
  | nil => exact Or.inl rfl
  | cons a as ih =>
    rw [attemptLoop]
    rcases each a List.mem_cons_self with lost | whole
    · simpa only [lost] using ih fun b hb => each b (List.mem_cons_of_mem a hb)
    · right
      simp only [whole]

end CspLinksim.Svu
