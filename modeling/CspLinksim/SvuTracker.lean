import CspLinksim.SvuDelivery
import CspLinksim.SvuBlocks

/-!
# The verdict is sound and complete

Over every delivery history the tracker of a manifest reports what arrived: which
bytes, which of two writers, and whether every block has its digest.
-/

namespace CspLinksim.Svu

open Runs Writes

/-- Every position of the payload is hit by an accepted fragment. -/
def Covered (total : Nat) (ws : List (Write UInt8)) : Prop :=
  ∀ i < total, ∃ w ∈ ws, w.Covers i

/-- Every block of the buffer has the digest of the manifest. -/
def Verified (s : CiSvu) : Prop :=
  ∀ b < s.nblocks.toNat, hashBlock s.data s.total s.block b = digest s.expected b

theorem badBlocks_nil_iff (s : CiSvu) : badBlocks s = [] ↔ Verified s := by
  rw [badBlocks, List.filter_eq_nil_iff, Verified]
  constructor
  · intro none b hb
    by_contra differ
    exact none b (List.mem_range.mpr hb) (by simpa [isBad] using differ)
  · intro all b hb bad
    exact absurd (all b (List.mem_range.mp hb)) (by simpa [isBad] using bad)

theorem status_of_delivered {s₀ s : CiSvu} {ws : List (Write UInt8)} (h : Delivered s₀ s ws) :
    (status s = .completeVerified ↔ Covered s₀.total.toNat ws ∧ Verified s) ∧
    (status s = .corrupt ↔ Covered s₀.total.toNat ws ∧ ¬ Verified s) ∧
    (status s = .incomplete ↔ ¬ Covered s₀.total.toNat ws) := by
  have hcov : allCovered s ↔ Covered s₀.total.toNat ws := h.allCovered_iff
  refine ⟨?_, ?_, ?_⟩
  · rw [status_complete_iff, hcov, badBlocks_nil_iff]
  · rw [status_corrupt_iff, hcov, ne_eq, badBlocks_nil_iff]
  · rw [status_incomplete_iff, hcov]

theorem digest_take (expected : List UInt8) {n b : Nat} (hb : b < n) :
    digest (expected.take (n * ciSvuHashLen)) b = digest expected b := by
  have hle : (b + 1) * ciSvuHashLen ≤ n * ciSvuHashLen := Nat.mul_le_mul_right _ hb
  rw [Nat.succ_mul] at hle
  rw [digest, digest, List.drop_take, List.take_take]
  congr 1
  omega

theorem Delivered.verified_iff {s₀ s : CiSvu} {ws : List (Write UInt8)} (h : Delivered s₀ s ws)
    {expected : List UInt8} (hexp : s₀.expected = expected.take (s₀.nblocks.toNat * ciSvuHashLen)) :
    Verified s ↔ ∀ b < s₀.nblocks.toNat,
      hashBlock s.data s₀.total s₀.block b = digest expected b := by
  rw [Verified, h.same.nblocks, h.same.total, h.same.block, h.same.expected, hexp]
  apply forall₂_congr
  intro b hb
  rw [digest_take expected hb]

theorem Delivered.fromSource {s₀ s : CiSvu} {ws : List (Write UInt8)} (h : Delivered s₀ s ws)
    {src : List UInt8} (hexp : s₀.expected =
      (ciSvuManifest src s₀.total s₀.block).2.take (s₀.nblocks.toNat * ciSvuHashLen)) :
    FromSource src s := by
  have hlen := manifest_length src s₀.total s₀.block
  rw [FromSource, h.same.expected, hexp, h.same.total, h.same.block, s₀.nblocks_eq,
    List.take_of_length_le (Nat.le_of_eq hlen)]

/-- A call returns 0 exactly if the fragment lies in the payload. -/
theorem accept_returns (s₀ : CiSvu) (fs : List Fragment) :
    (run ciSvuAccept s₀ fs).2 =
      fs.map fun f => if f.offset.toNat + f.buf.length ≤ s₀.total.toNat then 0 else -1 := by
  have inv := run_history ciSvuAccept
    (fun s fs rcs => s.total = s₀.total ∧ rcs =
      fs.map fun f => if f.offset.toNat + f.buf.length ≤ s₀.total.toNat then 0 else -1)
    (by
      rintro s fs rcs f ⟨htotal, rfl⟩
      rw [List.map_append, List.map_singleton, ← htotal]
      rcases accept_cases s f with ⟨past, eq⟩ | ⟨fits, rc, same, _⟩
      · rw [eq, if_neg (by omega)]
        exact ⟨rfl, rfl⟩
      · rw [rc, if_pos fits]
        exact ⟨same.total, rfl⟩)
    ⟨rfl, rfl⟩ fs
  exact inv.2

/-- The tracker over any delivery history: the return codes, the count, the bytes, the
rejected calls and the verdict; and, for the sender's own manifest, delivery of the
sender's bytes. -/
theorem verdict_over_history (heap : Bool) (total block nblocks : UInt32)
    (expected : List UInt8) (s₀ : CiSvu)
    (made : ciSvuNew heap total block expected nblocks = .ok (some s₀)) (fs : List Fragment) :
    let s := (run ciSvuAccept s₀ fs).1
    let ws := accepted fs (run ciSvuAccept s₀ fs).2
    (run ciSvuAccept s₀ fs).2 =
      (fs.map fun f => if f.offset.toNat + f.buf.length ≤ total.toNat then 0 else -1) ∧
    ((ciSvuCovered s).toNat =
      ((Finset.range total.toNat).filter fun i => ∃ w ∈ ws, w.Covers i).card) ∧
    (∀ i < total.toNat,
      (∀ before w after, ws = before ++ w :: after → w.Covers i →
        (∀ v ∈ after, ¬ v.Covers i) → (ciSvuData s)[i]? = w.buf[i - w.off]?) ∧
      ((∀ w ∈ ws, ¬ w.Covers i) → (ciSvuData s)[i]? = some 0)) ∧
    (∀ f, (ciSvuAccept s f).2 = -1 → (ciSvuAccept s f).1 = s) ∧
    (∀ max,
      ((ciSvuVerify s max).1 = .completeVerified ↔
        Covered total.toNat ws ∧ ∀ b < nblocks.toNat,
          hashBlock (ciSvuData s) total block b = digest expected b) ∧
      ((ciSvuVerify s max).1 = .corrupt ↔
        Covered total.toNat ws ∧ ∃ b < nblocks.toNat,
          hashBlock (ciSvuData s) total block b ≠ digest expected b) ∧
      ((ciSvuVerify s max).1 = .incomplete ↔ ¬ Covered total.toNat ws) ∧
      ∀ src : List UInt8, src.length = total.toNat →
        expected = (ciSvuManifest src total block).2 → NoCollision src s →
          ((ciSvuVerify s max).1 = .completeVerified ↔
            Covered total.toNat ws ∧ ciSvuData s = src)) := by
  intro s ws
  obtain ⟨rfl, rfl, rfl, hexp, fresh⟩ := new_cases made
  have h : Delivered s₀ s ws := delivered_run s₀ fs fresh
  obtain ⟨complete, corrupt, incomplete⟩ := status_of_delivered h
  have hverified := h.verified_iff hexp
  refine ⟨accept_returns s₀ fs, h.count_eq, fun i hi => h.byte hi, ?_, ?_⟩
  · intro f rejected
    rcases accept_cases s f with ⟨_, eq⟩ | ⟨_, rc, _⟩
    · rw [eq]
    · rw [rc] at rejected
      cases rejected
  · intro max
    rw [ciSvuVerify_eq]
    refine ⟨complete.trans (and_congr_right' hverified), corrupt.trans ?_, incomplete, ?_⟩
    · rw [hverified]
      simp only [not_forall, exists_prop, ne_eq]
      rfl
    · intro src hsrc hman unique
      have hdata := noBad_iff (h.fromSource (hman ▸ hexp)) unique
      rw [badBlocks_nil_iff, data_eq_of_bytes (by rw [h.same.total, hsrc])] at hdata
      exact complete.trans (and_congr_right' hdata)

/-- Three bytes in blocks of two: a wrong byte, a fragment past the end, the right one. -/
def threeBytes : List Fragment := [⟨1, [0, 9]⟩, ⟨2, [1, 1]⟩, ⟨0, [7, 8]⟩]

theorem threeBytes_data {s₀ : CiSvu} (htotal : s₀.total = 3) (hdata : s₀.data = [0, 0, 0]) :
    (run ciSvuAccept s₀ threeBytes).1.data = [7, 8, 9] := by
  cases s₀
  subst htotal hdata
  rfl

theorem verdict_over_three_bytes :
    ∃ s₀, ciSvuNew true 3 2 (ciSvuManifest [7, 8, 9] 3 2).2 2 = .ok (some s₀) ∧
      (run ciSvuAccept s₀ threeBytes).2 = [0, -1, 0] ∧
      (ciSvuVerify (run ciSvuAccept s₀ threeBytes).1 0).1 = .completeVerified ∧
      ciSvuData (run ciSvuAccept s₀ threeBytes).1 = [7, 8, 9] := by
  obtain ⟨s₀, made⟩ := new_ok 3 2 (ciSvuManifest [7, 8, 9] 3 2).2 (by decide)
    (by rw [manifest_length])
  obtain ⟨htotal, _, _, _, fresh⟩ := new_cases made
  have zeros : s₀.data = [0, 0, 0] := by
    rw [← data_eq_of_bytes (by rw [htotal]; rfl)]
    intro i hi
    rw [fresh.data i hi, lastCell, show ([0, 0, 0] : List UInt8) = List.replicate 3 0 from rfl,
      List.getElem?_replicate_of_lt (by rwa [htotal] at hi)]
    rfl
  have hdata := threeBytes_data htotal zeros
  have unique : NoCollision [7, 8, 9] (run ciSvuAccept s₀ threeBytes).1 := by
    apply noCollision_of_bytes
    intro i _
    rw [hdata]
  obtain ⟨returns, _, _, _, verdict⟩ := verdict_over_history true 3 2 2 _ s₀ made threeBytes
  have rcs : (run ciSvuAccept s₀ threeBytes).2 = [0, -1, 0] := returns
  have covered : Covered 3 (accepted threeBytes (run ciSvuAccept s₀ threeBytes).2) := by
    rw [rcs, Covered]
    decide
  exact ⟨s₀, made, rcs, ((verdict 0).2.2.2 [7, 8, 9] rfl rfl unique).mpr ⟨covered, hdata⟩, hdata⟩

end CspLinksim.Svu
