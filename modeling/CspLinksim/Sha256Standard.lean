import CspLinksim.Lib.Fips180
import CspLinksim.Lib.MachineWords
import CspLinksim.Sha256Context

/-!
# SHA-256 against the standard

The digest of the context is that of FIPS 180-4 for the bits of the message: the round
functions and tables are the standard's, a block of 64 bytes is compressed as the standard
compresses its 512 bits, and the one or two blocks that `ci_sha256_final` makes are the
standard's padding.
-/

namespace CspLinksim.Sha256

open MachineWords

/-- The words as the standard has them. -/
def Words.toVars (s : Words) : Fips180.Vars :=
  ⟨s.a.toBitVec, s.b.toBitVec, s.c.toBitVec, s.d.toBitVec, s.e.toBitVec, s.f.toBitVec, s.g.toBitVec,
    s.h.toBitVec⟩

theorem rotr_toBitVec (x n : UInt32) (low : 0 < n.toNat) (high : n.toNat < 32) :
    (rotr x n).toBitVec = Fips180.rotr x.toBitVec n.toNat := by
  have right : n.toBitVec.toNat % 32 = n.toNat := Nat.mod_eq_of_lt high
  have sub : (32 - n).toNat = 32 - n.toNat := UInt32.toNat_sub_of_le _ _ (by
    rw [UInt32.le_iff_toNat_le]
    exact high.le)
  have left : (32 - n).toBitVec.toNat % 32 = 32 - n.toNat := by
    rw [UInt32.toNat_toBitVec, sub]
    omega
  simp only [rotr, Fips180.rotr, UInt32.toBitVec_or, UInt32.toBitVec_shiftRight,
    UInt32.toBitVec_shiftLeft, BitVec.ushiftRight_eq', BitVec.shiftLeft_eq', BitVec.toNat_umod]
  congr 2

theorem ch_toBitVec (x y z : UInt32) :
    (ch x y z).toBitVec = Fips180.ch x.toBitVec y.toBitVec z.toBitVec := by
  simp [ch, Fips180.ch]

theorem maj_toBitVec (x y z : UInt32) :
    (maj x y z).toBitVec = Fips180.maj x.toBitVec y.toBitVec z.toBitVec := by
  simp [maj, Fips180.maj]

theorem ep0_toBitVec (x : UInt32) : (ep0 x).toBitVec = Fips180.bigSigma0 x.toBitVec := by
  simp (disch := decide) only [ep0, Fips180.bigSigma0, UInt32.toBitVec_xor, rotr_toBitVec]
  rfl

theorem ep1_toBitVec (x : UInt32) : (ep1 x).toBitVec = Fips180.bigSigma1 x.toBitVec := by
  simp (disch := decide) only [ep1, Fips180.bigSigma1, UInt32.toBitVec_xor, rotr_toBitVec]
  rfl

theorem sig0_toBitVec (x : UInt32) : (sig0 x).toBitVec = Fips180.sigma0 x.toBitVec := by
  simp (disch := decide) only [sig0, Fips180.sigma0, UInt32.toBitVec_xor, rotr_toBitVec]
  rfl

theorem sig1_toBitVec (x : UInt32) : (sig1 x).toBitVec = Fips180.sigma1 x.toBitVec := by
  simp (disch := decide) only [sig1, Fips180.sigma1, UInt32.toBitVec_xor, rotr_toBitVec]
  rfl

/-- The table is the standard's. -/
theorem k_eq : k = (List.range 64).map fun t => UInt32.ofBitVec (Fips180.k t) := by
  simp only [Fips180.k, Fips180.primes_eq]
  decide +kernel

/-- The entries of the table are the digits of cube roots of primes. -/
theorem k_digits : ∀ t < 64,
    Fips180.IsFraction 3 (Fips180.primes.getD t 0) (k.getD t 0).toBitVec := by
  intro t lt
  have small : ∀ t < 64, Fips180.primes.getD t 0 < 256 ^ 3 := by
    rw [Fips180.primes_eq]
    decide +kernel
  have entry : k.getD t 0 = UInt32.ofBitVec (Fips180.k t) := by
    rw [k_eq, List.getD_eq_getElem _ _ (by simpa using lt)]
    simp
  rw [entry]
  exact Fips180.fraction_spec (by decide) (small t lt)

theorem init_toVars : ciSha256Init.state.toVars = Fips180.initial := by
  simp only [Fips180.initial, Fips180.primes_eq]
  ext1 <;> decide +kernel

theorem round_toVars (s : Words) (w : Nat → BitVec 32) (t : Nat) :
    (roundStep s (UInt32.ofBitVec (Fips180.k t), UInt32.ofBitVec (w t))).toVars =
      Fips180.step w s.toVars t := by
  simp only [roundStep, Words.toVars, Fips180.step, UInt32.toBitVec_add, ep0_toBitVec, ep1_toBitVec,
    ch_toBitVec, maj_toBitVec]

/-- A schedule that satisfies the recurrence is grown by it. -/
theorem expand_range {w : Nat → UInt32} (recurs : ∀ t, 16 ≤ t →
    w t = sig1 (w (t - 2)) + w (t - 7) + sig0 (w (t - 15)) + w (t - 16)) (i n : Nat) (le : 16 ≤ i) :
    expand ((List.range i).map w) n = (List.range (i + n)).map w := by
  induction n generalizing i with
  | zero => rfl
  | succ n ih =>
    have at_ : ∀ j, j < i → ((List.range i).map w).getD j 0 = w j := by
      intro j lt
      rw [List.getD_eq_getElem _ _ (by simpa using lt)]
      simp
    have size : ((List.range i).map w).length = i := by simp
    rw [expand, size, at_ _ (by omega), at_ _ (by omega), at_ _ (by omega), at_ _ (by omega),
      ← recurs i le]
    have next := ih (i + 1) (by omega)
    rw [List.range_succ, List.map_append] at next
    rw [show i + (n + 1) = i + 1 + n by omega]
    exact next

theorem be32_toNat (p : List UInt8) (i : Nat) : (be32 p i).toNat =
    (p.getD (i + 3) 0).toNat + (p.getD (i + 2) 0).toNat * 2 ^ 8 +
      (p.getD (i + 1) 0).toNat * 2 ^ 16 + (p.getD i 0).toNat * 2 ^ 24 := by
  have order : be32 p i = (((p.getD (i + 3) 0).toUInt32 |||
      ((p.getD (i + 2) 0).toUInt32 <<< UInt32.ofNat 8)) |||
      ((p.getD (i + 1) 0).toUInt32 <<< UInt32.ofNat 16)) |||
      ((p.getD i 0).toUInt32 <<< UInt32.ofNat 24) := by
    rw [be32, UInt32.or_comm _ (p.getD (i + 3) 0).toUInt32,
      UInt32.or_comm _ ((p.getD (i + 2) 0).toUInt32 <<< 8),
      UInt32.or_comm ((p.getD i 0).toUInt32 <<< 24), ← UInt32.or_assoc, ← UInt32.or_assoc]
    rfl
  have b0 := (p.getD i 0).toNat_lt
  have b1 := (p.getD (i + 1) 0).toNat_lt
  have b2 := (p.getD (i + 2) 0).toNat_lt
  have b3 := (p.getD (i + 3) 0).toNat_lt
  have s1 := or_shiftLeft_toNat (p.getD (i + 3) 0).toUInt32
      (p.getD (i + 2) 0).toUInt32 8 (by decide)
    (by rw [UInt8.toNat_toUInt32]; omega) (by rw [UInt8.toNat_toUInt32]; omega)
  rw [UInt8.toNat_toUInt32, UInt8.toNat_toUInt32] at s1
  have s2 := or_shiftLeft_toNat _ (p.getD (i + 1) 0).toUInt32 16 (by decide)
    (by rw [s1]; omega) (by rw [UInt8.toNat_toUInt32]; omega)
  rw [s1, UInt8.toNat_toUInt32] at s2
  have s3 := or_shiftLeft_toNat _ (p.getD i 0).toUInt32 24 (by decide)
    (by rw [s2]; omega) (by rw [UInt8.toNat_toUInt32]; omega)
  rw [s2, UInt8.toNat_toUInt32] at s3
  exact (congrArg UInt32.toNat order).trans s3

/-- Word `j` of a block. -/
theorem be32_word {p : List UInt8} (size : p.length = 64) {j : Nat} (lt : j < 16) :
    be32 p (j * 4) = UInt32.ofBitVec (Fips180.word (Fips180.ofBytes p) j) := by
  have four := slice_eq_map p (j * 4) 4 (by omega)
  have bits : ((Fips180.ofBytes p).drop (32 * j)).take 32 =
      Fips180.ofBytes ((p.drop (j * 4)).take 4) := by
    rw [← Fips180.ofBytes_take, ← Fips180.ofBytes_drop]
    congr 2
    omega
  have value : Fips180.toNat (Fips180.ofBytes ((p.drop (j * 4)).take 4)) =
      (be32 p (j * 4)).toNat := by
    have places : List.range 4 = [0, 1, 2, 3] := rfl
    rw [be32_toNat, four, places, Fips180.toNat_ofBytes]
    simp only [List.map_cons, List.map_nil, List.foldl_cons, List.foldl_nil, Nat.add_zero]
    omega
  rw [Fips180.word, bits, value]
  exact (congrArg UInt32.ofBitVec (BitVec.ofNat_toNat 32 (be32 p (j * 4)).toBitVec)).symm

/-- A block of 64 bytes is compressed as the standard compresses its bits. -/
theorem transform_compress (s : Words) {p : List UInt8} (size : p.length = 64) :
    (ciSha256Transform s p).toVars = Fips180.compress s.toVars (Fips180.ofBytes p) := by
  let w := Fips180.schedule (Fips180.ofBytes p)
  have early : ∀ t, t < 16 → be32 p (t * 4) = UInt32.ofBitVec (w t) := by
    intro t lt
    rw [be32_word size lt]
    simp only [w]
    rw [Fips180.schedule, if_pos lt]
  have recurs : ∀ t, 16 ≤ t → UInt32.ofBitVec (w t) =
      sig1 (UInt32.ofBitVec (w (t - 2))) + UInt32.ofBitVec (w (t - 7)) +
        sig0 (UInt32.ofBitVec (w (t - 15))) + UInt32.ofBitVec (w (t - 16)) := by
    intro t le
    apply UInt32.toBitVec_inj.mp
    simp only [UInt32.toBitVec_add, sig0_toBitVec, sig1_toBitVec, w]
    rw [Fips180.schedule, if_neg (Nat.not_lt.mpr le)]
  have words : expand ((List.range 16).map fun i => be32 p (i * 4)) 48 =
      (List.range 64).map fun t => UInt32.ofBitVec (w t) := by
    rw [List.map_congr_left fun t mem => early t (List.mem_range.mp mem)]
    exact expand_range recurs 16 48 (Nat.le_refl _)
  have rounds : ∀ ts : List Nat, ∀ s : Words,
      ((ts.map fun t => (UInt32.ofBitVec (Fips180.k t), UInt32.ofBitVec (w t))).foldl
          roundStep s).toVars
        = ts.foldl (Fips180.step w) s.toVars := by
    intro ts
    induction ts with
    | nil => exact fun _ => rfl
    | cons t ts ih =>
      intro s
      rw [List.map_cons, List.foldl_cons, List.foldl_cons, ih, round_toVars]
  have all := rounds (List.range 64) s
  rw [ciSha256Transform, words, k_eq, List.zip_map', Fips180.compress, ← all]
  ext1 <;> exact (UInt32.toBitVec_add ..).trans (BitVec.add_comm _ _)

/-- The bytes `xs` have been fed in: `bs` are the blocks of them that are compressed. -/
structure Fed (bs : List (List UInt8)) (xs : List UInt8) (c : CiSha256) : Prop where
  full : ∀ b ∈ bs, b.length = 64
  bytes : xs = bs.flatten ++ c.buf
  room : c.buf.length < 64
  state : c.state = bs.foldl ciSha256Transform ciSha256Init.state
  bitlen : c.bitlen = UInt64.ofNat (512 * bs.length)

theorem Fed.length {bs : List (List UInt8)} {xs : List UInt8} {c : CiSha256} (f : Fed bs xs c) :
    xs.length = 64 * bs.length + c.buf.length := by
  have whole : ∀ bs : List (List UInt8), (∀ b ∈ bs, b.length = 64) →
      bs.flatten.length = 64 * bs.length := by
    intro bs full
    induction bs with
    | nil => rfl
    | cons b bs ih =>
      obtain ⟨size, rest⟩ := List.forall_mem_cons.mp full
      rw [List.flatten_cons, List.length_append, size, ih rest, List.length_cons]
      omega
  rw [f.bytes, List.length_append, whole bs f.full]

theorem fed_init : Fed [] [] ciSha256Init := ⟨by simp, rfl, by decide, rfl, rfl⟩

theorem fed_byte {bs : List (List UInt8)} {xs : List UInt8} {c : CiSha256} (f : Fed bs xs c)
    (byte : UInt8) : ∃ bs', Fed bs' (xs ++ [byte]) (updateByte c byte) := by
  have more : xs ++ [byte] = bs.flatten ++ (c.buf ++ [byte]) := by
    rw [f.bytes, List.append_assoc]
  rw [updateByte]
  split
  · rename_i whole
    refine ⟨bs ++ [c.buf ++ [byte]], ?_, ?_, Nat.zero_lt_succ 63, ?_, ?_⟩
    · intro b mem
      rcases List.mem_append.mp mem with old | new
      · exact f.full b old
      · rw [List.mem_singleton.mp new, whole]
    · rw [more, List.flatten_append, List.flatten_singleton, List.append_nil]
    · rw [List.foldl_append, ← f.state]
      rfl
    · rw [f.bitlen, List.length_append, Nat.mul_add, UInt64.ofNat_add]
      rfl
  · rename_i short
    have room := f.room
    have grown : (c.buf ++ [byte]).length = c.buf.length + 1 := by simp
    exact ⟨bs, f.full, more, by dsimp only; omega, f.state, f.bitlen⟩

theorem fed_update {bs : List (List UInt8)} {xs : List UInt8} {c : CiSha256} (f : Fed bs xs c)
    (data : List UInt8) : ∃ bs', Fed bs' (xs ++ data) (ciSha256Update c data) := by
  induction data generalizing bs xs c with
  | nil => exact ⟨bs, by simpa [ciSha256Update] using f⟩
  | cons byte data ih =>
    obtain ⟨bs₁, f₁⟩ := fed_byte f byte
    obtain ⟨bs₂, f₂⟩ := ih f₁
    rw [List.append_assoc] at f₂
    exact ⟨bs₂, f₂⟩

theorem fed_all (xs : List UInt8) : ∃ bs, Fed bs xs (ciSha256Update ciSha256Init xs) :=
  fed_update fed_init xs

/-- The one or two blocks that `ci_sha256_final` makes. -/
def lastBlocks (c : CiSha256) : List (List UInt8) :=
  let bitlen := be64Bytes (c.bitlen + UInt64.ofNat c.buf.length * 8)
  let buf := c.buf ++ [0x80]
  if buf.length > 56 then [pad buf 64, pad [] 56 ++ bitlen] else [pad buf 56 ++ bitlen]

theorem final_blocks (c : CiSha256) :
    ciSha256Final c = Context.outBytes ((lastBlocks c).foldl ciSha256Transform c.state) := by
  rw [Context.final_split, lastBlocks]
  split
  · rfl
  · rfl

theorem length_be64Bytes (x : UInt64) : (be64Bytes x).length = 8 := rfl

theorem lastBlocks_full {c : CiSha256} (room : c.buf.length < 64) :
    ∀ b ∈ lastBlocks c, b.length = 64 := by
  intro b mem
  rw [lastBlocks] at mem
  split at mem
  · rcases List.mem_pair.mp mem with rfl | rfl
    · simp only [pad, List.length_append, List.length_replicate, List.length_cons, List.length_nil]
      omega
    · simp [pad, length_be64Bytes]
  · rename_i short
    obtain rfl := List.mem_singleton.mp mem
    simp only [pad, List.length_append, List.length_replicate, List.length_cons, List.length_nil,
      length_be64Bytes] at short ⊢
    omega

/-- The blocks hold the bytes left, the byte with the one bit, zeros and the length; behind
`m` whole blocks there are as many zeros as the standard asks for. -/
theorem lastBlocks_flatten {c : CiSha256} (room : c.buf.length < 64) (m : Nat) :
    ∃ z, (lastBlocks c).flatten = c.buf ++ 0x80 :: (List.replicate z 0 ++
        be64Bytes (c.bitlen + UInt64.ofNat c.buf.length * 8)) ∧
      7 + 8 * z = Fips180.zeros (8 * (64 * m + c.buf.length)) := by
  have grown : (c.buf ++ [0x80]).length = c.buf.length + 1 := by simp
  rw [lastBlocks, grown]
  split
  · refine ⟨64 - (c.buf.length + 1) + 56, ?_,
      (Fips180.zeros_unique (by omega) (by omega)).symm⟩
    simp only [pad, grown, List.flatten_cons, List.flatten_nil, List.append_nil, List.append_assoc,
      List.nil_append, List.length_nil, List.replicate_add]
    rfl
  · refine ⟨56 - (c.buf.length + 1), ?_, (Fips180.zeros_unique (by omega) (by omega)).symm⟩
    simp only [pad, grown, List.flatten_cons, List.flatten_nil, List.append_nil, List.append_assoc]
    rfl

/-- The value of bytes read so far and one more. -/
def grow (n : Nat) (b : UInt8) : Nat := 256 * n + b.toNat

theorem ofBytes_be64Bytes (x : UInt64) :
    Fips180.ofBytes (be64Bytes x) = Fips180.ofWord x.toBitVec := by
  have top : x.toNat / 2 ^ 64 = 0 := Nat.div_eq_of_lt x.toNat_lt
  have byte : ∀ k, k < 64 → ∀ bs, ((x >>> UInt64.ofNat k).toUInt8 :: bs).foldl grow
      (x.toNat / 2 ^ (k + 8)) = bs.foldl grow (x.toNat / 2 ^ k) := by
    intro k lt bs
    rw [List.foldl_cons, grow, UInt64.toNat_toUInt8, shiftRight_toNat64 x k lt, upper_byte]
  apply Fips180.eq_ofWord
  · rw [Fips180.length_ofBytes, length_be64Bytes]
  · calc Fips180.toNat (Fips180.ofBytes (be64Bytes x))
      _ = (be64Bytes x).foldl grow (x.toNat / 2 ^ 64) := by
        rw [Fips180.toNat_ofBytes, top]
        rfl
      _ = _ := byte 56 (by decide) _
      _ = _ := byte 48 (by decide) _
      _ = _ := byte 40 (by decide) _
      _ = _ := byte 32 (by decide) _
      _ = _ := byte 24 (by decide) _
      _ = _ := byte 16 (by decide) _
      _ = _ := byte 8 (by decide) _
      _ = x.toNat := by
        rw [List.foldl_cons, List.foldl_nil, grow, UInt64.toNat_toUInt8]
        exact Nat.div_add_mod _ 256

theorem ofBytes_be32Bytes (x : UInt32) :
    Fips180.ofBytes (be32Bytes x) = Fips180.ofWord x.toBitVec := by
  have top : x.toNat / 2 ^ 32 = 0 := Nat.div_eq_of_lt x.toNat_lt
  have byte : ∀ k, k < 32 → ∀ bs, ((x >>> UInt32.ofNat k).toUInt8 :: bs).foldl grow
      (x.toNat / 2 ^ (k + 8)) = bs.foldl grow (x.toNat / 2 ^ k) := by
    intro k lt bs
    rw [List.foldl_cons, grow, UInt32.toNat_toUInt8, shiftRight_toNat x k lt, upper_byte]
  apply Fips180.eq_ofWord
  · have four : (be32Bytes x).length = 4 := rfl
    rw [Fips180.length_ofBytes, four]
  · calc Fips180.toNat (Fips180.ofBytes (be32Bytes x))
      _ = (be32Bytes x).foldl grow (x.toNat / 2 ^ 32) := by
        rw [Fips180.toNat_ofBytes, top]
        rfl
      _ = _ := byte 24 (by decide) _
      _ = _ := byte 16 (by decide) _
      _ = _ := byte 8 (by decide) _
      _ = x.toNat := by
        rw [List.foldl_cons, List.foldl_nil, grow, UInt32.toNat_toUInt8]
        exact Nat.div_add_mod _ 256

/-- Behind the bytes comes what the standard pads with. -/
theorem lastBlocks_pad {bs : List (List UInt8)} {xs : List UInt8} {c : CiSha256} (f : Fed bs xs c) :
    Fips180.ofBytes (bs.flatten ++ (lastBlocks c).flatten) = Fips180.pad (Fips180.ofBytes xs) := by
  have length : c.bitlen + UInt64.ofNat c.buf.length * 8 = UInt64.ofNat (8 * xs.length) := by
    have bits : UInt64.ofNat c.buf.length * 8 = UInt64.ofNat (c.buf.length * 8) :=
      (UInt64.ofNat_mul c.buf.length 8).symm
    rw [f.bitlen, f.length, bits, ← UInt64.ofNat_add]
    congr 1
    omega
  obtain ⟨z, blocks, zeros⟩ := lastBlocks_flatten f.room bs.length
  rw [← f.length] at zeros
  have marker : Fips180.ofWord (0x80 : UInt8).toBitVec = true :: List.replicate 7 false := by decide
  rw [blocks, ← List.append_assoc, ← f.bytes, Fips180.ofBytes_append, Fips180.ofBytes_cons,
    Fips180.ofBytes_append, Fips180.ofBytes_zeros, ofBytes_be64Bytes, marker, length, Fips180.pad,
    Fips180.length_ofBytes, ← zeros, List.replicate_add, List.append_assoc]
  rfl

theorem outBytes_digest (s : Words) :
    Fips180.ofBytes (Context.outBytes s) = Fips180.digest s.toVars := by
  have words : ∀ ws : List UInt32, Fips180.ofBytes (ws.flatMap be32Bytes) =
      (ws.map UInt32.toBitVec).flatMap Fips180.ofWord := by
    intro ws
    induction ws with
    | nil => rfl
    | cons w ws ih =>
      rw [List.flatMap_cons, Fips180.ofBytes_append, ofBytes_be32Bytes, ih]
      rfl
  exact words _

theorem fold_compress (s : Words) {bs : List (List UInt8)} (full : ∀ b ∈ bs, b.length = 64) :
    (bs.foldl ciSha256Transform s).toVars =
      (bs.map Fips180.ofBytes).foldl Fips180.compress s.toVars := by
  induction bs generalizing s with
  | nil => rfl
  | cons b bs ih =>
    obtain ⟨size, rest⟩ := List.forall_mem_cons.mp full
    rw [List.foldl_cons, ih _ rest, transform_compress s size]
    rfl

/-- The digest is the standard's. -/
theorem sha256_standard (xs : List UInt8) :
    Fips180.ofBytes (sha256 xs) = Fips180.sha256 (Fips180.ofBytes xs) := by
  obtain ⟨bs, f⟩ := fed_all xs
  have full : ∀ b ∈ bs ++ lastBlocks (ciSha256Update ciSha256Init xs), b.length = 64 := by
    intro b mem
    rcases List.mem_append.mp mem with old | new
    · exact f.full b old
    · exact lastBlocks_full f.room b new
  have parsed : Fips180.blocks (Fips180.pad (Fips180.ofBytes xs)) =
      (bs ++ lastBlocks (ciSha256Update ciSha256Init xs)).map Fips180.ofBytes := by
    rw [← lastBlocks_pad f, ← List.flatten_append, Fips180.ofBytes_flatten]
    apply Fips180.blocks_flatten
    intro b mem
    obtain ⟨p, hp, rfl⟩ := List.mem_map.mp mem
    rw [Fips180.length_ofBytes, full p hp]
  rw [sha256, final_blocks, outBytes_digest, f.state, ← List.foldl_append, fold_compress _ full,
    init_toVars, Fips180.sha256, parsed]

/-- The length counts the bits of the blocks compressed. -/
theorem Fed.bitlen_toNat {bs : List (List UInt8)} {xs : List UInt8} {c : CiSha256} (f : Fed bs xs c)
    (short : xs.length < 2 ^ 61) : c.bitlen.toNat = 8 * (xs.length - c.buf.length) := by
  have length := f.length
  rw [f.bitlen, UInt64.toNat_ofNat_of_lt' (by rw [UInt64.size]; omega)]
  omega

/-- From any content of the buffer, and however the message is cut, no write of `update` or
`final` is outside the buffer, the length and the bytes held add up behind every byte, and
the digest is that of FIPS 180-4. -/
theorem context_standard (buf : Vector UInt8 64) (pieces : List (List UInt8))
    (short : pieces.flatten.length < 2 ^ 61) :
    (∀ before, before <+: pieces →
      (Context.init buf).updates before = (Context.init buf).update before.flatten) ∧
    (∀ xs, xs <+: pieces.flatten → ∃ c, (Context.init buf).update xs = some c ∧ c.buflen < 64 ∧
      c.buflen ≤ xs.length ∧ c.bitlen.toNat = 8 * (xs.length - c.buflen)) ∧
    ∃ digest, ((Context.init buf).updates pieces).bind Context.final = some digest ∧
      Fips180.ofBytes digest = Fips180.sha256 (Fips180.ofBytes pieces.flatten) := by
  refine ⟨fun before _ => Context.updates_eq _ before, fun xs le => ?_, ?_⟩
  · obtain ⟨c, fed, holds⟩ := Context.holds_update (Context.holds_init buf) xs
    obtain ⟨bs, f⟩ := fed_all xs
    have length := f.length
    have bitlen := f.bitlen_toNat (le.length_le.trans_lt short)
    refine ⟨c, fed, ?_, ?_, ?_⟩
    · rw [holds.buflen]
      exact holds.room
    · rw [holds.buflen]
      omega
    · rw [holds.bitlen, holds.buflen]
      exact bitlen
  · obtain ⟨c, fed, holds⟩ := Context.holds_update (Context.holds_init buf) pieces.flatten
    refine ⟨sha256 pieces.flatten, ?_, sha256_standard _⟩
    rw [Context.updates_eq, fed]
    exact Context.holds_final holds

/-- The message `abc` in three calls, one of them empty. -/
theorem context_standard_abc :
    ∃ digest, ((Context.init (Vector.replicate 64 0xFF)).updates [[0x61], [], [0x62, 0x63]]).bind
        Context.final = some digest ∧
      Fips180.ofBytes digest = Fips180.sha256 (Fips180.ofBytes [0x61, 0x62, 0x63]) :=
  (context_standard (Vector.replicate 64 0xFF) [[0x61], [], [0x62, 0x63]] (by decide)).2.2

end CspLinksim.Sha256
