import CspLinksim.SvuRecovery

/-!
# A transfer as a set of fragments

The first request is blasted in fragments, one frame each, and a later request asks for
runs of missing bytes. As long as frames are lost, repeated and reordered but not changed,
a fragment is missing as a whole or not at all, so a run begins and ends where fragments
do, and every frame of every round is the frame of a missing fragment.
-/

namespace CspLinksim.Svu

open Runs Packet Pieces Gaps Writes

/-- The payload bytes of a frame. -/
def payOf (mtu : UInt32) : Nat := mtu.toNat - svuDataHdr

def nofFragments (total mtu : UInt32) : Nat := total.toNat ⌈/⌉ payOf mtu

/-- The part of the file that is fragment `k`. -/
def fragmentPiece (src : List UInt8) (mtu : UInt32) (k : Nat) : Nat × Nat :=
  (k * payOf mtu, min (payOf mtu) (src.length - k * payOf mtu))

/-- The frame of fragment `k`. -/
def fragmentFrame (src : List UInt8) (mtu : UInt32) (k : Nat) : Payload :=
  dataFrame src 1 (fragmentPiece src mtu k)

/-- The fragments whose first byte has not arrived. -/
def missingFragments (mtu : UInt32) (r : CiSvu) : Finset Nat :=
  (Finset.range (nofFragments r.total mtu)).filter fun k =>
    r.covered[k * payOf mtu]? = some false

/-- The fragments of which a frame is in the list. -/
def deliveredFragments (src : List UInt8) (mtu : UInt32) (frames : List Payload) : Finset Nat :=
  (Finset.range (src.length ⌈/⌉ payOf mtu)).filter fun k => fragmentFrame src mtu k ∈ frames

/-- Fragments are there as a whole or not at all, and what is there is the sender's. -/
structure Fragmented (src : List UInt8) (mtu : UInt32) (r : CiSvu) : Prop where
  whole : ∀ i j : Nat, i < r.total.toNat → j < r.total.toNat → i / payOf mtu = j / payOf mtu →
    r.covered[i]? = r.covered[j]?
  bytes : ∀ i : Nat, r.covered[i]? = some true → r.data[i]? = src[i]?

theorem Transfer.pay_pos {src : List UInt8} {total mtu : UInt32} (t : Transfer src total mtu) :
    0 < payOf mtu :=
  Nat.sub_pos_of_lt t.above

theorem lt_nofFragments {total mtu : UInt32} (pos : 0 < payOf mtu) (k : Nat) :
    k < nofFragments total mtu ↔ k * payOf mtu < total.toNat := by
  rw [nofFragments, ← Nat.not_le, ceilDiv_le_iff_le_mul pos, Nat.not_le, Nat.mul_comm]

theorem div_lt_nofFragments {total mtu : UInt32} (pos : 0 < payOf mtu) {i : Nat}
    (hi : i < total.toNat) : i / payOf mtu < nofFragments total mtu := by
  rw [lt_nofFragments pos]
  have := Nat.div_mul_le_self i (payOf mtu)
  omega

theorem mem_missing {mtu : UInt32} {r : CiSvu} {k : Nat} :
    k ∈ missingFragments mtu r ↔
      k < nofFragments r.total mtu ∧ r.covered[k * payOf mtu]? = some false := by
  rw [missingFragments, Finset.mem_filter, Finset.mem_range]

/-- A byte is missing exactly if its fragment is. -/
theorem Fragmented.missing_iff {src : List UInt8} {mtu : UInt32} {r : CiSvu}
    (h : Fragmented src mtu r) (pos : 0 < payOf mtu) {i : Nat} (hi : i < r.total.toNat) :
    r.covered[i]? = some false ↔ i / payOf mtu ∈ missingFragments mtu r := by
  have first := Nat.div_mul_le_self i (payOf mtu)
  have same := h.whole i (i / payOf mtu * payOf mtu) hi (by omega)
    (Nat.mul_div_cancel _ pos).symm
  rw [mem_missing, same]
  exact ⟨fun none => ⟨div_lt_nofFragments pos hi, none⟩, fun h => h.2⟩

/-- A run of missing bytes is made up of fragments. -/
theorem Fragmented.holes_cells {src : List UInt8} {mtu : UInt32} {r : CiSvu}
    (h : Fragmented src mtu r) {q : Nat × Nat} (hq : q ∈ holes r) :
    payOf mtu ∣ q.1 ∧ (payOf mtu ∣ q.2 ∨ q.2 = r.total.toNat) ∧ q.2 ≤ r.total.toNat := by
  apply ((mem_holes_iff r q).mp hq).cells
  · exact fun i hole => hole.1
  · rintro i j hi hj same ⟨_, hole⟩
    exact ⟨hj, (h.whole i j hi hj same) ▸ hole⟩

/-- A frame for a run of missing bytes is the frame of a missing fragment. -/
theorem Fragmented.frame_of_hole {src : List UInt8} {mtu : UInt32} {r : CiSvu}
    (h : Fragmented src mtu r) (t : Transfer src r.total mtu) {q : Nat × Nat} (hq : q ∈ holes r)
    {p : Payload} (hp : p ∈ rangeFrames src 1 mtu q) :
    ∃ k ∈ missingFragments mtu r, p = fragmentFrame src mtu k := by
  have pos := t.pay_pos
  obtain ⟨start, stop, le⟩ := h.holes_cells hq
  have hlt := (holes_separated r).lt hq
  obtain ⟨f, hf, rfl, lo, hi, _⟩ := mem_rangeFrames t.above (t.size ▸ le) hp
  have some_byte := (pieces_bounds pos hf).2.2.1
  obtain ⟨k, hk⟩ := pieces_aligned start (t.size ▸ stop) (t.size ▸ le) hf
  refine ⟨k, ?_, by rw [hk]; rfl⟩
  have hf1 : f.1 = k * payOf mtu := congrArg Prod.fst hk
  have hole := (inRuns_holes_iff r f.1).mp ⟨q, hq, lo, by omega⟩
  rw [mem_missing, lt_nofFragments pos, ← hf1]
  exact hole

/-- The first run is asked for in every round, so there is a frame. -/
theorem roundFrames_ne_nil {src : List UInt8} {mtu : UInt32} {r : CiSvu}
    (t : Transfer src r.total mtu) (unfinished : status r ≠ .completeVerified) :
    roundFrames src mtu r ≠ [] := by
  intro none
  cases hruns : reportedRuns r with
  | nil => exact reported_ne_nil unfinished hruns
  | cons q qs =>
    obtain ⟨hlt, hle⟩ := reportedRuns_bounds r (hruns ▸ List.mem_cons_self : q ∈ reportedRuns r)
    obtain ⟨p, hp, _⟩ := @pieces_cover (payOf mtu) q.2 (q.2 - q.1) q.1 q.1 t.pay_pos (by omega)
      (Nat.le_refl _) hlt
    have sent : dataFrame src 1 p ∈ roundFrames src mtu r := by
      rw [roundFrames, hruns, List.take_succ_cons, List.flatMap_cons]
      exact List.mem_append_left _ (List.mem_map.mpr ⟨p, hp, rfl⟩)
    rw [none] at sent
    cases sent

theorem fragmentPiece_bounds {src : List UInt8} {total mtu : UInt32} (t : Transfer src total mtu)
    {k : Nat} (hk : k < nofFragments total mtu) :
    (fragmentPiece src mtu k).1 + (fragmentPiece src mtu k).2 ≤ src.length ∧
      (slice src (fragmentPiece src mtu k)).length = (fragmentPiece src mtu k).2 ∧
      (UInt32.ofNat (fragmentPiece src mtu k).1).toNat = k * payOf mtu ∧
      ∀ i, k * payOf mtu ≤ i ∧ i < k * payOf mtu + (fragmentPiece src mtu k).2 ↔
        i < src.length ∧ i / payOf mtu = k := by
  have pos := t.pay_pos
  have hlt := (lt_nofFragments pos k).mp hk
  have htotal := total.toNat_lt
  have hsize := t.size
  refine ⟨?_, ?_, UInt32.toNat_ofNat_of_lt' (by simp only [fragmentPiece, UInt32.size]; omega), ?_⟩
  · simp only [fragmentPiece]
    omega
  · simp only [slice, fragmentPiece, List.length_take, List.length_drop]
    omega
  · intro i
    rw [Nat.div_eq_iff pos, Nat.mul_comm]
    simp only [fragmentPiece]
    have := Nat.mul_comm k (payOf mtu)
    omega

/-- What the receiver reads out of a frame of a fragment. -/
theorem fragment_reads {src : List UInt8} {total mtu : UInt32} (t : Transfer src total mtu)
    {k : Nat} (hk : k < nofFragments total mtu) {f : Fragment}
    (hf : f = ⟨UInt32.ofNat (fragmentPiece src mtu k).1, slice src (fragmentPiece src mtu k)⟩) :
    Repeats src f ∧ ∀ i, f.write.Covers i ↔ i < src.length ∧ i / payOf mtu = k := by
  obtain ⟨inside, hlen, hoff, covers⟩ := fragmentPiece_bounds t hk
  subst f
  refine ⟨⟨?_, ?_⟩, ?_⟩
  · rw [hoff, hlen]
    exact inside
  · simp only [hoff, hlen]
    rfl
  · intro i
    rw [← covers i, Write.Covers]
    simp only [Fragment.write, hoff, hlen]

theorem fragmentFrame_long {src : List UInt8} {total mtu : UInt32} (t : Transfer src total mtu)
    {k : Nat} (hk : k < nofFragments total mtu) :
    (fragmentFrame src mtu k).length > svuDataHdr := by
  obtain ⟨_, hlen, _, _⟩ := fragmentPiece_bounds t hk
  have hwords : (putWords [UInt32.ofNat (fragmentPiece src mtu k).1, 1]).length = svuDataHdr :=
    putWords_length _
  have hlt := (lt_nofFragments t.pay_pos k).mp hk
  have hpos := t.pay_pos
  have hsize := t.size
  have some_byte : 0 < (fragmentPiece src mtu k).2 := by
    simp only [fragmentPiece]
    omega
  rw [fragmentFrame, dataFrame, List.length_append, hlen, hwords]
  omega

/-- Frames of fragments overwrite their own fragments and touch nothing else. -/
theorem patched_fragments {src : List UInt8} {mtu : UInt32} {r : CiSvu}
    (t : Transfer src r.total mtu) {frames : List Payload}
    (known : ∀ p ∈ frames, ∃ k < nofFragments r.total mtu, p = fragmentFrame src mtu k) :
    Patched src (fun i => i < src.length ∧ fragmentFrame src mtu (i / payOf mtu) ∈ frames) r
      (absorb r frames) := by
  have reads : ∀ f ∈ fragments frames, ∃ k, k < nofFragments r.total mtu ∧
      fragmentFrame src mtu k ∈ frames ∧
      f = ⟨UInt32.ofNat (fragmentPiece src mtu k).1, slice src (fragmentPiece src mtu k)⟩ := by
    intro f hf
    obtain ⟨p, hp, _, rfl⟩ := mem_fragments.mp hf
    obtain ⟨k, hk, rfl⟩ := known p hp
    exact ⟨k, hk, hp, frame_fragment src 1 _⟩
  have run : Patched src (fun i => ∃ f ∈ fragments frames, f.write.Covers i) r
      (absorb r frames) := by
    apply patched_run (fragments frames) t.size
    intro f hf
    obtain ⟨k, hk, _, eq⟩ := reads f hf
    exact (fragment_reads t hk eq).1
  apply run.congr
  intro i
  constructor
  · rintro ⟨f, hf, covers⟩
    obtain ⟨k, hk, arrived, eq⟩ := reads f hf
    obtain ⟨inside, rfl⟩ := ((fragment_reads t hk eq).2 i).mp covers
    exact ⟨inside, arrived⟩
  · rintro ⟨inside, arrived⟩
    have hk := @div_lt_nofFragments r.total mtu t.pay_pos i (t.size ▸ inside)
    refine ⟨_, mem_fragments.mpr ⟨_, arrived, fragmentFrame_long t hk, frame_fragment src 1 _⟩, ?_⟩
    exact ((fragment_reads t hk rfl).2 i).mpr ⟨inside, rfl⟩

/-- The step lemma: what arrives is missing no more, and the fragments stay whole. -/
theorem absorb_fragments {src : List UInt8} {mtu : UInt32} {r : CiSvu}
    (t : Transfer src r.total mtu) (h : Fragmented src mtu r) {frames : List Payload}
    (known : ∀ p ∈ frames, ∃ k < nofFragments r.total mtu, p = fragmentFrame src mtu k) :
    Fragmented src mtu (absorb r frames) ∧
      missingFragments mtu (absorb r frames) =
        missingFragments mtu r \ deliveredFragments src mtu frames := by
  have patched := patched_fragments t known
  have htotal := patched.same.total
  refine ⟨⟨?_, ?_⟩, ?_⟩
  · intro i j hi hj same
    rw [htotal] at hi hj
    by_cases arrived : fragmentFrame src mtu (i / payOf mtu) ∈ frames
    · rw [(patched.inside i ⟨t.size ▸ hi, arrived⟩).2,
        (patched.inside j ⟨t.size ▸ hj, same ▸ arrived⟩).2]
    · rw [(patched.outside i fun h => arrived h.2).2,
        (patched.outside j fun h => arrived (same ▸ h.2)).2]
      exact h.whole i j hi hj same
  · intro i covered
    by_cases arrived : i < src.length ∧ fragmentFrame src mtu (i / payOf mtu) ∈ frames
    · exact (patched.inside i arrived).1
    · obtain ⟨hdata, hcov⟩ := patched.outside i arrived
      rw [hdata]
      exact h.bytes i (hcov ▸ covered)
  · ext k
    rw [Finset.mem_sdiff, mem_missing, mem_missing, htotal, deliveredFragments,
      Finset.mem_filter, Finset.mem_range]
    have hdiv : k * payOf mtu / payOf mtu = k := Nat.mul_div_cancel k t.pay_pos
    by_cases hk : k < nofFragments r.total mtu
    · have hlt := (lt_nofFragments t.pay_pos k).mp hk
      have hn : k < src.length ⌈/⌉ payOf mtu := t.size ▸ hk
      by_cases arrived : fragmentFrame src mtu k ∈ frames
      · have now := (patched.inside (k * payOf mtu) ⟨t.size ▸ hlt, hdiv.symm ▸ arrived⟩).2
        simp [now, arrived, hn]
      · have now := (patched.outside (k * payOf mtu) fun h => arrived (hdiv ▸ h.2)).2
        simp [now, arrived, hk]
    · simp [hk]

/-- A payload with no fragment missing is verified, whatever its digests. -/
theorem Fragmented.verified_iff {src : List UInt8} {mtu : UInt32} {r : CiSvu}
    (h : Fragmented src mtu r) (pos : 0 < payOf mtu) (man : FromSource src r) :
    status r = .completeVerified ↔ missingFragments mtu r = ∅ := by
  rw [status_complete_iff]
  constructor
  · rintro ⟨covered, _⟩
    rw [Finset.eq_empty_iff_forall_notMem]
    intro k hk
    obtain ⟨hlt, none⟩ := mem_missing.mp hk
    rw [covered _ ((lt_nofFragments pos k).mp hlt)] at none
    cases none
  · intro none
    have covered : allCovered r := by
      intro i hi
      apply covered_of_not_hole r hi
      intro hole
      have := (h.missing_iff pos hi).mp hole
      rw [none] at this
      exact absurd this (Finset.notMem_empty _)
    have right : ∀ i < r.total.toNat, r.data[i]? = src[i]? := fun i hi =>
      h.bytes i (covered i hi)
    exact ⟨covered, (noBad_iff man (noCollision_of_bytes right)).mpr right⟩

end CspLinksim.Svu
