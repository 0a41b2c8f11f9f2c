import CspLinksim.SvuVerify

/-!
# Blocks of the payload

The block count is the ceiling of the quotient as long as the 32-bit sum does not
wrap; when it wraps the count is zero. Sender and receiver cut at the same places,
so equal blocks are equal payloads.
-/

namespace CspLinksim.Svu

open Sha256

theorem nblocks_pos {total block : UInt32} (h : ciSvuNblocks total block ≠ 0) :
    0 < total.toNat ∧ 0 < block.toNat ∧ total.toNat + block.toNat ≤ 4294967296 ∧
      (ciSvuNblocks total block).toNat = (total.toNat - 1) / block.toNat + 1 := by
  have htotal := total.toNat_lt
  have hblock := block.toNat_lt
  unfold ciSvuNblocks at h ⊢
  by_cases zero : total = 0 ∨ block = 0
  · rw [if_pos zero] at h
    exact absurd rfl h
  · rw [if_neg zero] at h ⊢
    have ht : total.toNat ≠ 0 := fun h0 => zero (Or.inl (UInt32.toNat_inj.mp h0))
    have hb : block.toNat ≠ 0 := fun h0 => zero (Or.inr (UInt32.toNat_inj.mp h0))
    have hone : UInt32.toNat 1 = 1 := rfl
    have hquot : ((total + block - 1) / block).toNat =
        ((4294967296 - 1 + (total.toNat + block.toNat) % 4294967296) % 4294967296) /
          block.toNat := by
      rw [UInt32.toNat_div, UInt32.toNat_sub, UInt32.toNat_add, hone]
    by_cases wraps : 4294967296 < total.toNat + block.toNat
    · have hzero : ((total + block - 1) / block).toNat = 0 := by
        rw [hquot]
        apply Nat.div_eq_of_lt
        omega
      exact absurd (UInt32.toNat_inj.mp hzero) h
    · refine ⟨by omega, by omega, by omega, ?_⟩
      have hsum : (4294967296 - 1 + (total.toNat + block.toNat) % 4294967296) % 4294967296 =
          (total.toNat - 1) + block.toNat := by omega
      rw [hquot, hsum, Nat.add_div_right _ (by omega)]

/-- Every byte lies in one of the blocks. -/
theorem div_lt_nblocks {total block : UInt32} (h : ciSvuNblocks total block ≠ 0) {i : Nat}
    (hi : i < total.toNat) : i / block.toNat < (ciSvuNblocks total block).toNat := by
  obtain ⟨_, _, _, hn⟩ := nblocks_pos h
  rw [hn]
  exact Nat.lt_succ_of_le (Nat.div_le_div_right (by omega))

/-- Every block starts inside the payload. -/
theorem blockStart_lt {total block : UInt32} (h : ciSvuNblocks total block ≠ 0) {b : Nat}
    (hb : b < (ciSvuNblocks total block).toNat) : b * block.toNat < total.toNat := by
  obtain ⟨ht, hblock, _, hn⟩ := nblocks_pos h
  rw [hn] at hb
  have := (Nat.le_div_iff_mul_le hblock).mp (Nat.le_of_lt_succ hb)
  omega

theorem getElem?_blockBytes (src : List UInt8) (total block : UInt32) (b j : Nat) :
    (blockBytes src total block b)[j]? =
      if j < block.toNat ∧ b * block.toNat + j < total.toNat then src[b * block.toNat + j]?
      else none := by
  simp only [blockBytes]
  by_cases inside : j < block.toNat ∧ b * block.toNat + j < total.toNat
  · rw [if_pos inside, List.getElem?_take_of_lt (by omega), List.getElem?_drop]
  · rw [if_neg inside]
    apply List.getElem?_eq_none
    rw [List.length_take]
    omega

/-- Two payloads with the same blocks have the same bytes. -/
theorem blocks_eq_iff {data src : List UInt8} {total block : UInt32}
    (h : ciSvuNblocks total block ≠ 0) :
    (∀ b < (ciSvuNblocks total block).toNat,
        blockBytes data total block b = blockBytes src total block b) ↔
      ∀ i < total.toNat, data[i]? = src[i]? := by
  obtain ⟨_, hblock, _, _⟩ := nblocks_pos h
  constructor
  · intro same i hi
    have hmod := Nat.mod_lt i hblock
    have hdiv : i / block.toNat * block.toNat + i % block.toNat = i := Nat.div_add_mod' i _
    have heq := congrArg (fun l => l[i % block.toNat]?) (same _ (div_lt_nblocks h hi))
    simp only [getElem?_blockBytes, hdiv, hmod, hi, and_self, if_true] at heq
    exact heq
  · intro same b _
    apply List.ext_getElem?
    intro j
    rw [getElem?_blockBytes, getElem?_blockBytes]
    by_cases inside : j < block.toNat ∧ b * block.toNat + j < total.toNat
    · rw [if_pos inside, if_pos inside]
      exact same _ inside.2
    · rw [if_neg inside, if_neg inside]

theorem data_eq_of_bytes {s : CiSvu} {src : List UInt8} (hsrc : src.length = s.total.toNat) :
    (∀ i < s.total.toNat, s.data[i]? = src[i]?) ↔ s.data = src := by
  constructor
  · intro same
    apply List.ext_getElem?
    intro i
    by_cases hi : i < s.total.toNat
    · exact same i hi
    · have h1 := s.data_size
      rw [List.getElem?_eq_none (by omega), List.getElem?_eq_none (by omega)]
  · rintro rfl i _
    rfl

theorem length_flatMap_range (f : Nat → List UInt8) (k : Nat) (hf : ∀ b, (f b).length = k)
    (n : Nat) : ((List.range n).flatMap f).length = n * k := by
  induction n with
  | zero => simp
  | succ n ih => rw [List.range_succ, List.flatMap_append, List.length_append, ih,
      List.flatMap_singleton, hf, Nat.succ_mul]

theorem drop_take_flatMap_range (f : Nat → List UInt8) (k : Nat) (hf : ∀ b, (f b).length = k)
    {n b : Nat} (hb : b < n) : (((List.range n).flatMap f).drop (b * k)).take k = f b := by
  obtain ⟨m, rfl⟩ := Nat.exists_eq_add_of_lt hb
  have hlen := length_flatMap_range f k hf b
  rw [Nat.add_assoc, List.range_add, List.flatMap_append, ← hlen, List.drop_left,
    List.range_succ_eq_map]
  simp only [List.map_cons, List.flatMap_cons, Nat.add_zero]
  rw [← hf b, List.take_left]

theorem hashBlock_length (src : List UInt8) (total block : UInt32) (b : Nat) :
    (hashBlock src total block b).length = ciSvuHashLen :=
  sha256_length _

theorem manifest_length (src : List UInt8) (total block : UInt32) :
    (ciSvuManifest src total block).2.length =
      (ciSvuNblocks total block).toNat * ciSvuHashLen :=
  length_flatMap_range _ _ (hashBlock_length src total block) _

theorem digest_manifest (src : List UInt8) (total block : UInt32) {b : Nat}
    (hb : b < (ciSvuNblocks total block).toNat) :
    digest (ciSvuManifest src total block).2 b = hashBlock src total block b :=
  drop_take_flatMap_range _ _ (hashBlock_length src total block) hb

/-- No two different blocks among those the verdict compares have one digest. -/
def NoCollision (src : List UInt8) (s : CiSvu) : Prop :=
  ∀ b < s.nblocks.toNat, hashBlock s.data s.total s.block b = hashBlock src s.total s.block b →
    blockBytes s.data s.total s.block b = blockBytes src s.total s.block b

theorem noCollision_of_bytes {src : List UInt8} {r : CiSvu}
    (right : ∀ i < r.total.toNat, r.data[i]? = src[i]?) : NoCollision src r := by
  have hn : ciSvuNblocks r.total r.block ≠ 0 := r.nblocks_eq ▸ r.nblocks_ne
  intro b hb _
  exact (blocks_eq_iff hn).mpr right b (r.nblocks_eq ▸ hb)

/-- The manifest of the tracker is the sender's. -/
def FromSource (src : List UInt8) (s : CiSvu) : Prop :=
  s.expected = (ciSvuManifest src s.total s.block).2

theorem isBad_iff {src : List UInt8} {s : CiSvu} (h : FromSource src s) {b : Nat}
    (hb : b < s.nblocks.toNat) :
    isBad s b = true ↔
      hashBlock s.data s.total s.block b ≠ hashBlock src s.total s.block b := by
  rw [s.nblocks_eq] at hb
  rw [isBad, h, digest_manifest src _ _ hb, decide_eq_true_eq]

theorem noBad_iff {src : List UInt8} {s : CiSvu} (h : FromSource src s)
    (unique : NoCollision src s) :
    badBlocks s = [] ↔ ∀ i < s.total.toNat, s.data[i]? = src[i]? := by
  have hn : ciSvuNblocks s.total s.block ≠ 0 := s.nblocks_eq ▸ s.nblocks_ne
  rw [← blocks_eq_iff hn, badBlocks, List.filter_eq_nil_iff]
  constructor
  · intro good b hb
    rw [← s.nblocks_eq] at hb
    apply unique b hb
    by_contra differ
    exact good b (List.mem_range.mpr hb) ((isBad_iff h hb).mpr differ)
  · intro same b hb bad
    have hlt := List.mem_range.mp hb
    apply (isBad_iff h hlt).mp bad
    rw [s.nblocks_eq] at hlt
    rw [hashBlock, hashBlock, same b hlt]

end CspLinksim.Svu
