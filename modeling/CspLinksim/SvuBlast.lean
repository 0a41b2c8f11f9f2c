import CspLinksim.SvuRounds

/-!
# The blast

Every data frame the sender emits for a range carries source bytes of that range, and
together the frames of a range cover it. Fed to a tracker in any order, any number of
times, they overwrite the ranges with source bytes and touch nothing else.
-/

namespace CspLinksim.Svu

open Runs Packet Pieces Gaps Writes

/-- The frame for the piece `p` of the source. -/
def dataFrame (src : List UInt8) (session : UInt32) (p : Nat × Nat) : Payload :=
  putWords [UInt32.ofNat p.1, session] ++ slice src p

/-- The frames for the range `r`. -/
def rangeFrames (src : List UInt8) (session mtu : UInt32) (r : Nat × Nat) : List Payload :=
  (pieces (mtu.toNat - svuDataHdr) r.2 (r.2 - r.1) r.1).map (dataFrame src session)

/-- The frames of the range `r` fit their packets, and the offset after the last one of
them is still a 32-bit number. -/
def Fits (mtu : UInt32) (r : Nat × Nat) : Prop :=
  let pay := mtu.toNat - svuDataHdr
  svuDataHdr + min pay (r.2 - r.1) ≤ cspBufferSize ∧
    r.1 + ((r.2 - r.1 - 1) / pay + 1) * pay < 4294967296

instance (mtu : UInt32) (r : Nat × Nat) : Decidable (Fits mtu r) :=
  inferInstanceAs (Decidable (_ ∧ _))

/-- It is the offset after the last frame that decides about a wrap. -/
theorem room_iff {pay lo hi bound : Nat} (hpay : 0 < pay) (more : lo < hi) :
    lo + ((hi - lo - 1) / pay + 1) * pay < bound ↔
      ∀ k, lo + k * pay < hi → lo + (k + 1) * pay < bound := by
  constructor
  · intro last k hk
    have hle : k ≤ (hi - lo - 1) / pay := (Nat.le_div_iff_mul_le hpay).mpr (by omega)
    have := Nat.mul_le_mul_right pay (Nat.succ_le_succ hle)
    simp only [Nat.succ_eq_add_one] at this
    omega
  · intro all
    have := Nat.div_mul_le_self (hi - lo - 1) pay
    exact all _ (by omega)

/-- The payload of a frame, as `blast_interval` computes it. -/
theorem pay_toNat {mtu : UInt32} (above : svuDataHdr < mtu.toNat) :
    mtu > UInt32.ofNat svuDataHdr ∧
      (mtu - UInt32.ofNat svuDataHdr).toNat = mtu.toNat - svuDataHdr := by
  have hdr : (UInt32.ofNat svuDataHdr).toNat = svuDataHdr := rfl
  have more : mtu > UInt32.ofNat svuDataHdr := UInt32.lt_iff_toNat_lt.mpr (hdr ▸ above)
  exact ⟨more, UInt32.toNat_sub_of_le _ _ (UInt32.le_of_lt more)⟩

/-- A range that fits is blasted in full. -/
theorem blastInterval_fits {src : List UInt8} {mtu start stop : UInt32} (session : UInt32)
    (above : svuDataHdr < mtu.toNat) (inside : stop.toNat ≤ src.length)
    (fits : start < stop → Fits mtu (start.toNat, stop.toNat)) :
    blastInterval session mtu src start stop =
      .ok (rangeFrames src session mtu (start.toNat, stop.toNat)) := by
  obtain ⟨more, hpay⟩ := pay_toNat above
  have hhdr : svuDataHdr = 8 := rfl
  have hbuf : cspBufferSize = 2048 := rfl
  have h := @chunkLoop_ok (mtu - UInt32.ofNat svuDataHdr) stop
    (fun off len => copyOut (putWords [off, session]) src off len) (dataFrame src session)
    (by omega) start.toNat
    (by
      intro off len lo hfit hle
      have hwords : (putWords [off, session]).length = 8 := putWords_length _
      have room : (putWords [off, session]).length + len.toNat ≤ cspBufferSize := by
        by_cases empty : start < stop
        · have := (fits empty).1
          omega
        · have : ¬ start.toNat < stop.toNat := fun h => empty (UInt32.lt_iff_toNat_lt.mpr h)
          omega
      rw [copyOut, if_pos ⟨by omega, room⟩, dataFrame, UInt32.ofNat_toNat])
    (stop.toNat - start.toNat) start (Nat.le_refl _) (by omega)
    (by
      intro k hk
      have empty : start.toNat < stop.toNat := by omega
      rw [hpay] at hk ⊢
      have last := (fits (UInt32.lt_iff_toNat_lt.mpr empty)).2
      exact (room_iff (by omega) empty).mp last k hk)
  rw [hpay] at h
  simp only [blastInterval, if_pos more, h, rangeFrames]

/-- A transfer whose payload is in memory, with a packet size both sides can use. -/
structure Transfer (src : List UInt8) (total mtu : UInt32) : Prop where
  size : src.length = total.toNat
  above : svuDataHdr < mtu.toNat
  packet : mtu.toNat ≤ cspBufferSize
  room : total.toNat + mtu.toNat < 4294967296

theorem blastInterval_ok {src : List UInt8} {total mtu : UInt32} (t : Transfer src total mtu)
    (session start stop : UInt32) (hstop : stop.toNat ≤ total.toNat) :
    blastInterval session mtu src start stop =
      .ok (rangeFrames src session mtu (start.toNat, stop.toNat)) := by
  obtain ⟨hsize, habove, hpacket, hroom⟩ := t
  have hhdr : svuDataHdr = 8 := rfl
  apply blastInterval_fits session habove (by omega)
  intro more
  refine ⟨by simp only; omega, (room_iff (by omega) (UInt32.lt_iff_toNat_lt.mp more)).mpr ?_⟩
  intro k hk
  simp only [Nat.add_mul, Nat.one_mul]
  omega

theorem blastIntervals_ok {s : Source} {mtu : UInt32} (t : Transfer s.src s.total mtu)
    (session : UInt32) (rs : List (Nat × Nat))
    (inside : ∀ r ∈ rs, r.1 < r.2 ∧ r.2 ≤ s.total.toNat) :
    blastIntervals session mtu s (rs.map toInterval) =
      .ok (rs.flatMap (rangeFrames s.src session mtu)) := by
  induction rs with
  | nil => rfl
  | cons r rs ih =>
    obtain ⟨hlt, hle⟩ := inside r List.mem_cons_self
    have htotal := s.total.toNat_lt
    have hstart : (UInt32.ofNat r.1).toNat = r.1 :=
      UInt32.toNat_ofNat_of_lt' (by rw [UInt32.size]; omega)
    have hstop : (UInt32.ofNat r.2).toNat = r.2 :=
      UInt32.toNat_ofNat_of_lt' (by rw [UInt32.size]; omega)
    have whole : ¬ UInt32.ofNat r.2 > s.total := by
      rw [gt_iff_lt, UInt32.lt_iff_toNat_lt]
      omega
    have nonempty : UInt32.ofNat r.1 < UInt32.ofNat r.2 := by
      rw [UInt32.lt_iff_toNat_lt]
      omega
    have tail := ih (fun q hq => inside q (List.mem_cons_of_mem r hq))
    have first := blastInterval_ok t session (UInt32.ofNat r.1) (UInt32.ofNat r.2) (by omega)
    rw [hstart, hstop] at first
    simp only [List.map_cons, blastIntervals, toInterval, if_neg whole, if_pos nonempty, first]
    rw [tail]
    rfl

/-- A frame of a range is longer than its header and holds bytes of that range. -/
theorem mem_rangeFrames {src : List UInt8} {session mtu : UInt32} {r : Nat × Nat}
    (above : svuDataHdr < mtu.toNat) (inside : r.2 ≤ src.length) {p : Payload}
    (hp : p ∈ rangeFrames src session mtu r) :
    ∃ q, q ∈ pieces (mtu.toNat - svuDataHdr) r.2 (r.2 - r.1) r.1 ∧ p = dataFrame src session q ∧
      r.1 ≤ q.1 ∧ q.1 + q.2 ≤ r.2 ∧ (slice src q).length = q.2 ∧ p.length > svuDataHdr := by
  obtain ⟨q, hq, rfl⟩ := List.mem_map.mp hp
  have hwords : (putWords [UInt32.ofNat q.1, session]).length = 8 := putWords_length _
  have hhdr : svuDataHdr = 8 := rfl
  obtain ⟨lo, hi, pos, _⟩ := pieces_bounds (by omega) hq
  have hlen : (slice src q).length = q.2 := by
    rw [slice, List.length_take, List.length_drop]
    omega
  refine ⟨q, hq, rfl, lo, hi, hlen, ?_⟩
  rw [dataFrame, List.length_append]
  omega

/-- What the receiver reads out of a frame. -/
theorem frame_fragment (src : List UInt8) (session : UInt32) (q : Nat × Nat) :
    (⟨svuGet32 (dataFrame src session q) 0, (dataFrame src session q).drop svuDataHdr⟩ :
      Fragment) = ⟨UInt32.ofNat q.1, slice src q⟩ := by
  have hwords : (putWords [UInt32.ofNat q.1, session]).length = svuDataHdr := putWords_length _
  have hoff := get32_putWords [UInt32.ofNat q.1, session] 0 (by simp) (slice src q)
  rw [Nat.mul_zero] at hoff
  rw [dataFrame, hoff, ← hwords, List.drop_left]
  rfl

/-- A fragment that repeats source bytes inside the payload. -/
structure Repeats (src : List UInt8) (f : Fragment) : Prop where
  inside : f.offset.toNat + f.buf.length ≤ src.length
  bytes : f.buf = slice src (f.offset.toNat, f.buf.length)

/-- The positions `P` now hold source bytes, and the others are as they were. -/
structure Patched (src : List UInt8) (P : Nat → Prop) (s s' : CiSvu) : Prop where
  same : SameTransfer s' s
  inside : ∀ i, P i → s'.data[i]? = src[i]? ∧ s'.covered[i]? = some true
  outside : ∀ i, ¬ P i → s'.data[i]? = s.data[i]? ∧ s'.covered[i]? = s.covered[i]?

theorem Patched.congr {src : List UInt8} {P Q : Nat → Prop} {s s' : CiSvu}
    (h : Patched src P s s') (same : ∀ i, P i ↔ Q i) : Patched src Q s s' :=
  ⟨h.same, fun i hi => h.inside i ((same i).mpr hi), fun i hi => h.outside i (mt (same i).mp hi)⟩

theorem Patched.trans {src : List UInt8} {P Q : Nat → Prop} {s t u : CiSvu}
    (h : Patched src P s t) (h' : Patched src Q t u) :
    Patched src (fun i => P i ∨ Q i) s u := by
  refine ⟨h'.same.trans h.same, ?_, ?_⟩
  · intro i hi
    by_cases later : Q i
    · exact h'.inside i later
    · have before := h.inside i (hi.resolve_right later)
      have kept := h'.outside i later
      exact ⟨kept.1.trans before.1, kept.2.trans before.2⟩
  · intro i hi
    have before := h.outside i (fun hp => hi (Or.inl hp))
    have kept := h'.outside i (fun hq => hi (Or.inr hq))
    exact ⟨kept.1.trans before.1, kept.2.trans before.2⟩

theorem patched_accept {src : List UInt8} {s : CiSvu} (hsize : src.length = s.total.toNat)
    {f : Fragment} (h : Repeats src f) :
    Patched src (fun i => f.write.Covers i) s (ciSvuAccept s f).1 := by
  have hin := h.inside
  rcases accept_cases s f with ⟨past, _⟩ | ⟨_, _, same, cells⟩
  · omega
  · refine ⟨same, ?_, ?_⟩
    · intro i covers
      have hi : i < f.offset.toNat + f.buf.length := covers.2
      have hlo : f.offset.toNat ≤ i := covers.1
      have hbyte : f.write.cell i = src[i]? := by
        rw [Write.cell, if_pos covers.1]
        simp only [Fragment.write]
        rw [h.bytes, slice, List.getElem?_take_of_lt (by omega), List.getElem?_drop]
        congr 1
        omega
      have hcov : i < s.covered.length := by
        rw [s.covered_size]
        omega
      rw [(cells i).1, (cells i).2, if_pos covers, hbyte, List.getElem?_eq_getElem hcov,
        List.getElem?_eq_getElem (by omega : i < src.length)]
      exact ⟨rfl, rfl⟩
    · intro i apart
      have none : f.write.cell i = none := by
        rw [← Option.not_isSome_iff_eq_none, cell_isSome]
        exact apart
      rw [(cells i).1, (cells i).2, if_neg apart, none]
      exact ⟨rfl, rfl⟩

/-- The run lemma: a history of source fragments patches what they cover. -/
theorem patched_run {src : List UInt8} (fs : List Fragment) {s : CiSvu}
    (hsize : src.length = s.total.toNat) (h : ∀ f ∈ fs, Repeats src f) :
    Patched src (fun i => ∃ f ∈ fs, f.write.Covers i) s (run ciSvuAccept s fs).1 := by
  induction fs generalizing s with
  | nil =>
    refine ⟨SameTransfer.refl s, ?_, fun i _ => ⟨rfl, rfl⟩⟩
    rintro i ⟨f, hf, _⟩
    cases hf
  | cons f fs ih =>
    have first := patched_accept hsize (h f List.mem_cons_self)
    have tail := @ih (ciSvuAccept s f).1 (by rw [first.same.total, hsize])
      (fun g hg => h g (List.mem_cons_of_mem f hg))
    apply (first.trans tail).congr
    intro i
    simp only [List.mem_cons, exists_eq_or_imp]

/-- Frames that are all frames of the ranges patch part of them, and all frames all of them. -/
theorem patched_frames {src : List UInt8} {session mtu : UInt32} {rs : List (Nat × Nat)}
    {s : CiSvu} (hsize : src.length = s.total.toNat) (above : svuDataHdr < mtu.toNat)
    (inside : ∀ r ∈ rs, r.1 < r.2 ∧ r.2 ≤ s.total.toNat) {frames : List Payload}
    (sent : ∀ p ∈ frames, p ∈ rs.flatMap (rangeFrames src session mtu)) :
    ∃ P, Patched src P s (absorb s frames) ∧ (∀ i, P i → InRuns rs i) ∧
      ((∀ p ∈ rs.flatMap (rangeFrames src session mtu), p ∈ frames) → ∀ i, InRuns rs i → P i) := by
  have htotal := s.total.toNat_lt
  have known : ∀ f ∈ fragments frames, ∃ r ∈ rs, ∃ q, r.1 ≤ q.1 ∧ q.1 + q.2 ≤ r.2 ∧
      (slice src q).length = q.2 ∧ f = ⟨UInt32.ofNat q.1, slice src q⟩ ∧ f.offset.toNat = q.1 := by
    intro f hf
    obtain ⟨p, hp, _, rfl⟩ := mem_fragments.mp hf
    obtain ⟨r, hr, hpr⟩ := List.mem_flatMap.mp (sent p hp)
    obtain ⟨hlt, hle⟩ := inside r hr
    obtain ⟨q, _, rfl, lo, hi, hlen, _⟩ := mem_rangeFrames above (by omega) hpr
    rw [frame_fragment]
    have hq : (UInt32.ofNat q.1).toNat = q.1 :=
      UInt32.toNat_ofNat_of_lt' (by rw [UInt32.size]; omega)
    exact ⟨r, hr, q, lo, hi, hlen, rfl, hq⟩
  have repeats : ∀ f ∈ fragments frames, Repeats src f := by
    intro f hf
    obtain ⟨r, hr, q, lo, hi, hlen, rfl, hoff⟩ := known f hf
    have hr' := inside r hr
    refine ⟨?_, ?_⟩
    · rw [hoff, hlen]
      omega
    · simp only [hoff, hlen]
  refine ⟨_, patched_run (fragments frames) hsize repeats, ?_, ?_⟩
  · rintro i ⟨f, hf, covers⟩
    obtain ⟨r, hr, q, lo, hi, hlen, rfl, hoff⟩ := known f hf
    obtain ⟨hlo, hhi⟩ := covers
    simp only [Fragment.write, hoff, hlen] at hlo hhi
    exact ⟨r, hr, by omega, by omega⟩
  · rintro complete i ⟨r, hr, lo, hi⟩
    have hr' := inside r hr
    obtain ⟨q, hq, qlo, qhi⟩ := @pieces_cover (mtu.toNat - svuDataHdr) r.2 (r.2 - r.1) r.1 i
      (by omega) (by omega) lo hi
    have hmem : dataFrame src session q ∈ rangeFrames src session mtu r :=
      List.mem_map.mpr ⟨q, hq, rfl⟩
    have hframe := complete _ (List.mem_flatMap.mpr ⟨r, hr, hmem⟩)
    obtain ⟨lo', hi', _, _⟩ := pieces_bounds (by omega) hq
    have hlong : (dataFrame src session q).length > svuDataHdr := by
      obtain ⟨_, _, _, _, _, _, long⟩ := mem_rangeFrames above (by omega) hmem
      exact long
    refine ⟨_, mem_fragments.mpr ⟨_, hframe, hlong, frame_fragment src session q⟩, ?_⟩
    have hoff : (UInt32.ofNat q.1).toNat = q.1 :=
      UInt32.toNat_ofNat_of_lt' (by rw [UInt32.size]; omega)
    have hlen : (slice src q).length = q.2 := by
      rw [slice, List.length_take, List.length_drop]
      omega
    rw [Write.Covers]
    simp only [Fragment.write, hoff, hlen]
    exact ⟨qlo, qhi⟩

end CspLinksim.Svu
