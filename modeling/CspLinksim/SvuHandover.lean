import CspLinksim.SvuRounds

/-!
# Handing over the manifest

The chunks carry no offset and no number. As long as the header arrives the count of
bytes tells a complete manifest from any other; without the header the first chunk
that arrives is read as one, and only its own first bytes can give it away.
-/

namespace CspLinksim.Svu

open Packet Pieces

theorem arrivals_sublist (ks : List Bool) (ps : List Payload) : (arrivals ks ps).Sublist ps := by
  induction ps generalizing ks with
  | nil => simp [arrivals]
  | cons p ps ih =>
    cases ks with
    | nil => simp [arrivals]
    | cons k ks =>
      cases k with
      | true => exact (ih ks).cons_cons p
      | false => exact (ih ks).cons p

theorem arrivals_all (ps : List Payload) : arrivals (List.replicate ps.length true) ps = ps := by
  induction ps with
  | nil => rfl
  | cons p ps ih => simp only [List.length_cons, List.replicate_succ, arrivals, ih]

/-- Losing the first `j` packets and no other. -/
theorem arrivals_drop (j : Nat) (ps : List Payload) :
    arrivals (List.replicate j false ++ List.replicate (ps.drop j).length true) ps =
      ps.drop j := by
  induction j generalizing ps with
  | zero => simpa using arrivals_all ps
  | succ j ih =>
    cases ps with
    | nil => rfl
    | cons p ps =>
      rw [List.replicate_succ, List.cons_append, List.drop_succ_cons, arrivals]
      exact ih ps

theorem Sublist.total_le {rx ps : List Payload} (h : rx.Sublist ps) :
    rx.flatten.length ≤ ps.flatten.length :=
  h.flatten.length_le

/-- Nothing was lost if not a byte is missing. -/
theorem sublist_eq_of_total {rx ps : List Payload} (h : rx.Sublist ps)
    (nonempty : ∀ p ∈ ps, 0 < p.length) (total : ps.flatten.length ≤ rx.flatten.length) :
    rx = ps := by
  induction h with
  | slnil => rfl
  | @cons rx ps p h ih =>
    have hle := Sublist.total_le h
    have hp := nonempty p List.mem_cons_self
    rw [List.flatten_cons, List.length_append] at total
    omega
  | @cons_cons rx ps p h ih =>
    rw [List.flatten_cons, List.flatten_cons, List.length_append, List.length_append] at total
    rw [ih (fun q hq => nonempty q (List.mem_cons_of_mem p hq)) (by omega)]

/-- Below 2^32 the reader takes the first `manBytes` bytes, or runs out of packets. -/
theorem readManifest_eq (manBytes : UInt32) (manifest : List UInt8) (got : UInt32)
    (rx : List Payload) (hgot : got.toNat ≤ manBytes.toNat)
    (small : got.toNat + rx.flatten.length < 4294967296) :
    readManifest manBytes manifest got rx =
      .ok (if manBytes.toNat ≤ got.toNat + rx.flatten.length then
        some (manifest ++ rx.flatten.take (manBytes.toNat - got.toNat)) else none) := by
  induction rx generalizing manifest got with
  | nil =>
    rw [readManifest]
    by_cases more : got < manBytes
    · have hlt := UInt32.lt_iff_toNat_lt.mp more
      rw [if_pos more, if_neg (by simp; omega)]
    · have hge : ¬ got.toNat < manBytes.toNat := fun h => more (UInt32.lt_iff_toNat_lt.mpr h)
      rw [if_neg more, if_pos (by omega)]
      simp
  | cons mp rest ih =>
    rw [List.flatten_cons, List.length_append] at small
    rw [readManifest, List.flatten_cons, List.length_append]
    by_cases more : got < manBytes
    · have hlt := UInt32.lt_iff_toNat_lt.mp more
      have hlen : (UInt32.ofNat mp.length).toNat = mp.length :=
        UInt32.toNat_ofNat_of_lt' (by rw [UInt32.size]; omega)
      have hsum : (got + UInt32.ofNat mp.length).toNat = got.toNat + mp.length := by
        rw [UInt32.toNat_add, hlen]
        omega
      rw [if_pos more]
      by_cases clamp : got + UInt32.ofNat mp.length > manBytes
      · have hclamp := UInt32.lt_iff_toNat_lt.mp clamp
        have htake : (manBytes - got).toNat = manBytes.toNat - got.toNat :=
          UInt32.toNat_sub_of_le _ _ (UInt32.le_iff_toNat_le.mpr (by omega))
        have hnext : (got + (manBytes - got)).toNat = manBytes.toNat := by
          rw [UInt32.toNat_add, htake, Nat.mod_eq_of_lt]
          · omega
          · have := manBytes.toNat_lt
            omega
        simp only [if_pos clamp]
        rw [if_pos (by omega), ih _ _ (by omega) (by omega), hnext, if_pos (by omega),
          if_pos (by omega), htake]
        simp only [Nat.sub_self, List.take_zero, List.append_nil]
        rw [List.take_append_of_le_length (by omega)]
      · have hfits : ¬ manBytes.toNat < (got + UInt32.ofNat mp.length).toNat :=
          fun h => clamp (UInt32.lt_iff_toNat_lt.mpr h)
        simp only [if_neg clamp]
        rw [if_pos (by omega), ih _ _ (by omega) (by omega), hsum, hlen, List.take_length,
          List.take_append, List.take_of_length_le (l := mp) (by omega), List.append_assoc,
          Nat.add_assoc, Nat.sub_sub]
    · have hge : ¬ got.toNat < manBytes.toNat := fun h => more (UInt32.lt_iff_toNat_lt.mpr h)
      have hzero : manBytes.toNat - got.toNat = 0 := by omega
      rw [if_neg more, if_pos (by omega), hzero]
      simp

/-- The read of an exchange, into an empty buffer. -/
theorem readManifest_fresh (manBytes : UInt32) (rx : List Payload)
    (small : rx.flatten.length < 4294967296) :
    readManifest manBytes [] 0 rx =
      .ok (if manBytes.toNat ≤ rx.flatten.length then some (rx.flatten.take manBytes.toNat)
        else none) := by
  have hzero : UInt32.toNat 0 = 0 := rfl
  have h := readManifest_eq manBytes [] 0 rx (Nat.zero_le _) (by omega)
  rwa [hzero, Nat.zero_add, Nat.sub_zero, List.nil_append] at h

/-- The bytes one packet fills, when none of them is past the buffer. -/
theorem take_length {manBytes got take : UInt32} {mp : Payload}
    (htake : take = if got + UInt32.ofNat mp.length > manBytes then manBytes - got
      else UInt32.ofNat mp.length)
    (hgot : got.toNat ≤ manBytes.toNat) : take.toNat ≤ mp.length := by
  have hmod : (UInt32.ofNat mp.length).toNat = mp.length % 4294967296 := UInt32.toNat_ofNat
  by_cases clamp : got + UInt32.ofNat mp.length > manBytes
  · have hclamp := UInt32.lt_iff_toNat_lt.mp clamp
    have hsub : (manBytes - got).toNat = manBytes.toNat - got.toNat :=
      UInt32.toNat_sub_of_le _ _ (UInt32.le_iff_toNat_le.mpr hgot)
    rw [UInt32.toNat_add, hmod] at hclamp
    rw [htake, if_pos clamp, hsub]
    omega
  · rw [htake, if_neg clamp, hmod]
    exact Nat.mod_le _ _

/-- A read that ends hands out exactly `manBytes` bytes. -/
theorem readManifest_length {manBytes got : UInt32} {manifest result : List UInt8}
    {rx : List Payload} (hgot : got.toNat ≤ manBytes.toNat) (hlen : manifest.length = got.toNat)
    (h : readManifest manBytes manifest got rx = .ok (some result)) :
    result.length = manBytes.toNat := by
  induction rx generalizing manifest got with
  | nil =>
    rw [readManifest] at h
    split at h
    · cases h
    · rename_i full
      cases h
      rw [UInt32.lt_iff_toNat_lt] at full
      omega
  | cons mp rest ih =>
    simp only [readManifest] at h
    split at h
    · obtain ⟨take, htake⟩ : ∃ take : UInt32, take =
          if got + UInt32.ofNat mp.length > manBytes then manBytes - got
          else UInt32.ofNat mp.length := ⟨_, rfl⟩
      rw [← htake] at h
      have hle := take_length htake hgot
      split at h
      · rename_i inside
        have hman := manBytes.toNat_lt
        have hsum : (got + take).toNat = got.toNat + take.toNat := by
          rw [UInt32.toNat_add, Nat.mod_eq_of_lt (by omega)]
        apply ih (by omega) ?_ h
        rw [List.length_append, List.length_take, hsum]
        omega
      · cases h
    · rename_i full
      cases h
      rw [UInt32.lt_iff_toNat_lt] at full
      omega

/-- A read that times out has seen fewer bytes than it waits for. -/
theorem readManifest_short {manBytes got : UInt32} {manifest : List UInt8} {rx : List Payload}
    (sized : ∀ p ∈ rx, p.length < 4294967296) (hgot : got.toNat ≤ manBytes.toNat)
    (h : readManifest manBytes manifest got rx = .ok none) :
    got.toNat + rx.flatten.length < manBytes.toNat := by
  induction rx generalizing manifest got with
  | nil =>
    rw [readManifest] at h
    split at h
    · rename_i more
      exact UInt32.lt_iff_toNat_lt.mp more
    · cases h
  | cons mp rest ih =>
    have hmp := sized mp List.mem_cons_self
    have hmod : (UInt32.ofNat mp.length).toNat = mp.length := UInt32.toNat_ofNat_of_lt' hmp
    simp only [readManifest] at h
    split at h
    · obtain ⟨take, htake⟩ : ∃ take : UInt32, take =
          if got + UInt32.ofNat mp.length > manBytes then manBytes - got
          else UInt32.ofNat mp.length := ⟨_, rfl⟩
      rw [← htake] at h
      split at h
      · rename_i inside
        have hman := manBytes.toNat_lt
        have hsum : (got + take).toNat = got.toNat + take.toNat := by
          rw [UInt32.toNat_add, Nat.mod_eq_of_lt (by omega)]
        have tail := ih (fun p hp => sized p (List.mem_cons_of_mem mp hp)) (by omega) h
        rw [List.flatten_cons, List.length_append]
        by_cases clamp : got + UInt32.ofNat mp.length > manBytes
        · rw [if_pos clamp] at htake
          rw [hsum, htake, UInt32.toNat_sub_of_le _ _ (UInt32.le_iff_toNat_le.mpr hgot)] at tail
          omega
        · rw [if_neg clamp] at htake
          rw [hsum, htake, hmod] at tail
          omega
      · cases h
    · cases h

/-- The packets after the header. -/
def manifestChunks (s : Source) : List Payload :=
  (pieces 200 s.manifest.length s.manifest.length 0).map (slice s.manifest)

theorem manifestBytes_toNat {s : Source} (few : s.nblocks.toNat < 134217728) :
    (s.nblocks * UInt32.ofNat ciSvuHashLen).toNat = s.manifest.length := by
  have hlen : (UInt32.ofNat ciSvuHashLen).toNat = 32 := rfl
  have hsize := s.manifest_bytes
  rw [UInt32.toNat_mul, hlen, hsize, Nat.mod_eq_of_lt (by omega)]

theorem sendResponse_ok {s : Source} (room : s.nblocks.toNat ≤ 134217725) (sid : UInt32) :
    sendResponse s sid = .ok (respHeader s sid :: manifestChunks s) := by
  have hbytes := manifestBytes_toNat (s := s) (by omega)
  have hsize := s.manifest_bytes
  have hsend := sendManifest_ok s.manifest (s.nblocks * UInt32.ofNat ciSvuHashLen)
    (Nat.le_of_eq hbytes) (by omega)
  simp only [sendResponse, hsend, hbytes]
  rfl

theorem chunks_flatten (s : Source) : (manifestChunks s).flatten = s.manifest := by
  have h := @slices_flatten _ s.manifest 200 s.manifest.length s.manifest.length 0 (by decide)
    (by omega)
  rw [manifestChunks, h, slice, List.drop_zero, Nat.sub_zero, List.take_length]

theorem chunks_drop_length (s : Source) (j : Nat) :
    ((manifestChunks s).drop j).flatten.length = s.manifest.length - j * 200 := by
  have hj : j ≤ j * 200 := Nat.le_mul_of_pos_right j (by decide)
  have h := @slices_flatten _ s.manifest 200 s.manifest.length (s.manifest.length - j)
    (0 + j * 200) (by decide) (by omega)
  rw [manifestChunks, ← List.map_drop, pieces_drop, h, slice, List.length_take,
    List.length_drop]
  omega

theorem chunk_pos {s : Source} {c : Payload} (hc : c ∈ manifestChunks s) : 0 < c.length := by
  obtain ⟨p, hp, rfl⟩ := List.mem_map.mp hc
  have := pieces_bounds (by decide) hp
  rw [slice, List.length_take, List.length_drop]
  omega

theorem chunks_getElem? (s : Source) (k : Nat) :
    (manifestChunks s)[k]? =
      if k * 200 < s.manifest.length then some (slice s.manifest (k * 200, 200)) else none := by
  rw [manifestChunks, List.getElem?_map, pieces_getElem? (by decide) (by omega), Nat.zero_add]
  by_cases inside : k * 200 < s.manifest.length
  · rw [if_pos inside, if_pos inside]
    simp only [slice, Option.map_some, Option.some_inj]
    rw [List.take_eq_take_iff, List.length_drop]
    omega
  · rw [if_neg inside, if_neg inside]
    rfl

theorem respHeader_reads (s : Source) (sid : UInt32) :
    (respHeader s sid).length = svuRespHdr ∧ svuGet32 (respHeader s sid) 0 = svuMagicResp ∧
    svuGet32 (respHeader s sid) 8 = s.total ∧ svuGet32 (respHeader s sid) 12 = s.blockSize ∧
    svuGet32 (respHeader s sid) 16 = s.nblocks := by
  have word : ∀ k < 5, svuGet32 (respHeader s sid) (4 * k) =
      [svuMagicResp, sid, s.total, s.blockSize, s.nblocks].getD k 0 := by
    intro k hk
    simpa [respHeader] using
      get32_putWords [svuMagicResp, sid, s.total, s.blockSize, s.nblocks] k hk []
  exact ⟨putWords_length _, word 0 (by decide), word 2 (by decide), word 3 (by decide),
    word 4 (by decide)⟩

/-- With the header the count of bytes decides. -/
theorem ctrlExchange_header {s : Source} (few : s.nblocks.toNat < 134217728) (a : Attempt)
    (sid : UInt32) {rx : List Payload} (h : rx.Sublist (manifestChunks s)) :
    ctrlExchange a (respHeader s sid :: rx) =
      .ok (if a.connects ∧ a.hasBuffer ∧ a.hasHeap ∧ rx = manifestChunks s then
        some (senderReply s) else none) := by
  obtain ⟨hlen, hmagic, htotal, hblock, hnblocks⟩ := respHeader_reads s sid
  have hbytes := manifestBytes_toNat few
  have hsize := s.manifest_bytes
  have hle := Sublist.total_le h
  rw [chunks_flatten] at hle
  have hread := readManifest_fresh (s.nblocks * UInt32.ofNat ciSvuHashLen) rx (by omega)
  rw [hbytes] at hread
  have complete : s.manifest.length ≤ rx.flatten.length ↔ rx = manifestChunks s := by
    constructor
    · intro all
      apply sublist_eq_of_total h (fun p hp => chunk_pos hp)
      rwa [chunks_flatten]
    · rintro rfl
      rw [chunks_flatten]
  have wellFormed : ¬ ((respHeader s sid).length < svuRespHdr ∨
      svuGet32 (respHeader s sid) 0 ≠ svuMagicResp) := by
    rw [hlen, hmagic]
    simp
  rw [ctrlExchange]
  by_cases connects : a.connects = true
  · by_cases buffer : a.hasBuffer = true
    · by_cases heap : a.hasHeap = true
      · simp only [connects, buffer, heap, if_neg wellFormed, htotal, hblock, hnblocks, hread,
          complete, not_true_eq_false, if_false, true_and]
        by_cases all : rx = manifestChunks s
        · rw [if_pos all, if_pos all]
          simp only [all, chunks_flatten, List.take_length, senderReply]
        · rw [if_neg all, if_neg all]
      · simp [connects, buffer, heap, wellFormed]
    · simp [connects, buffer]
  · simp [connects]

/-- No chunk that is read as a header announces a manifest that fits in what follows. -/
def Unmistakable (s : Source) : Prop :=
  ∀ k, svuRespHdr ≤ (slice s.manifest (k * 200, 200)).length →
    svuGet32 (slice s.manifest (k * 200, 200)) 0 = svuMagicResp →
      s.manifest.length - (k + 1) * 200 <
        (svuGet32 (slice s.manifest (k * 200, 200)) 16 * UInt32.ofNat ciSvuHashLen).toNat

/-- The first chunk that arrives, and what can follow it. -/
theorem first_arrival {s : Source} {c : Payload} {rest : List Payload}
    (h : (c :: rest).Sublist (manifestChunks s)) :
    ∃ k, c = slice s.manifest (k * 200, 200) ∧
      rest.flatten.length ≤ s.manifest.length - (k + 1) * 200 := by
  obtain ⟨before, after, hsplit, hc, hrest⟩ := List.cons_sublist_iff.mp h
  obtain ⟨k, hk, rfl⟩ := List.mem_iff_getElem.mp hc
  refine ⟨k, ?_, ?_⟩
  · have hget := chunks_getElem? s k
    rw [hsplit, List.getElem?_append_left hk, List.getElem?_eq_getElem hk] at hget
    split at hget
    · exact Option.some.inj hget
    · cases hget
  · have hdrop : after.Sublist ((manifestChunks s).drop (k + 1)) := by
      rw [hsplit, List.drop_append_of_le_length (by omega)]
      exact List.sublist_append_right _ _
    have := Sublist.total_le (hrest.trans hdrop)
    rwa [chunks_drop_length] at this

theorem ctrlExchange_headless {s : Source} (few : s.nblocks.toNat < 134217728)
    (unmistakable : Unmistakable s) (a : Attempt) {rx : List Payload}
    (h : rx.Sublist (manifestChunks s)) : ctrlExchange a rx = .ok none := by
  have hsize := s.manifest_bytes
  cases rx with
  | nil => simp [ctrlExchange]
  | cons c rest =>
    obtain ⟨k, hc, hrest⟩ := first_arrival h
    rw [ctrlExchange]
    by_cases header : c.length < svuRespHdr ∨ svuGet32 c 0 ≠ svuMagicResp
    · simp [header]
    · have known := unmistakable k
      rw [← hc] at known
      have short := known (by omega) (by
        by_contra other
        exact header (Or.inr other))
      have hread := readManifest_fresh (svuGet32 c 16 * UInt32.ofNat ciSvuHashLen) rest
        (by omega)
      rw [if_neg (by omega)] at hread
      simp [header, hread]

/-- Whatever subset of the packets arrives, on every attempt: the sender's manifest is
handed out if they are all there, and nothing is if not. -/
structure AllOrNothing (s : Source) : Prop where
  served : ∀ req r, svuReqDecode req = some r → ∃ pkts, svuServeControl s req = .ok pkts ∧
    ∀ a, ctrlExchange a (arrivals a.kept pkts) =
      .ok (if a.connects ∧ a.hasBuffer ∧ a.hasHeap ∧ arrivals a.kept pkts = pkts then
        some (senderReply s) else none)
  attempts : ∀ req as, attemptLoop s req as = .ok none ∨
    attemptLoop s req as = .ok (some (senderReply s))
  tracker : ∀ blockSize mtu maxRounds envs ops old r recv,
    svuClientRun s blockSize mtu maxRounds envs ops old = .ok r → r.recv = some recv →
      BuiltFrom s recv

theorem ctrlExchange_arrivals {s : Source} (room : s.nblocks.toNat ≤ 134217725)
    (unmistakable : Unmistakable s) (a : Attempt) (ks : List Bool) (sid : UInt32) :
    ctrlExchange a (arrivals ks (respHeader s sid :: manifestChunks s)) =
      .ok (if a.connects ∧ a.hasBuffer ∧ a.hasHeap ∧
          arrivals ks (respHeader s sid :: manifestChunks s) =
            respHeader s sid :: manifestChunks s then some (senderReply s) else none) := by
  have few : s.nblocks.toNat < 134217728 := by omega
  have lost : ∀ ps : List Payload, ps.Sublist (manifestChunks s) →
      ¬ (a.connects ∧ a.hasBuffer ∧ a.hasHeap ∧ ps = respHeader s sid :: manifestChunks s) := by
    rintro ps hps ⟨_, _, _, rfl⟩
    have := hps.length_le
    simp at this
  cases ks with
  | nil =>
    rw [arrivals, if_neg (lost [] (List.nil_sublist _))]
    exact ctrlExchange_headless few unmistakable a (List.nil_sublist _)
  | cons k ks =>
    cases k with
    | true =>
      rw [arrivals, ctrlExchange_header few a sid (arrivals_sublist ks _)]
      simp only [List.cons.injEq, true_and]
    | false =>
      have hrest := arrivals_sublist ks (manifestChunks s)
      rw [arrivals, if_neg (lost _ hrest)]
      exact ctrlExchange_headless few unmistakable a hrest

theorem served_of_unmistakable {s : Source} (room : s.nblocks.toNat ≤ 134217725)
    (unmistakable : Unmistakable s) (req : Payload) (r : SvuReq)
    (hreq : svuReqDecode req = some r) :
    ∃ pkts, svuServeControl s req = .ok pkts ∧
      ∀ a, ctrlExchange a (arrivals a.kept pkts) =
        .ok (if a.connects ∧ a.hasBuffer ∧ a.hasHeap ∧ arrivals a.kept pkts = pkts then
          some (senderReply s) else none) := by
  refine ⟨respHeader s r.sessionId :: manifestChunks s, ?_, ?_⟩
  · simp only [svuServeControl, hreq]
    exact sendResponse_ok room r.sessionId
  · intro a
    exact ctrlExchange_arrivals room unmistakable a a.kept r.sessionId

/-- An attempt that loses none of `n` packets. -/
def losslessAttempt (n : Nat) : Attempt where
  connects := true
  hasBuffer := true
  hasHeap := true
  reached := true
  kept := List.replicate n true

theorem exchange_lossless {s : Source} {req : Payload} {pkts : List Payload}
    (answer : svuServeControl s req = .ok pkts) :
    exchange s req (losslessAttempt pkts.length) =
      ctrlExchange (losslessAttempt pkts.length) pkts := by
  rw [exchange, if_pos ⟨rfl, rfl, rfl⟩]
  simp only [answer]
  rw [show arrivals (losslessAttempt pkts.length).kept pkts = pkts from arrivals_all pkts]

theorem attemptLoop_lossless {s : Source} (room : s.nblocks.toNat ≤ 134217725) {req : Payload}
    {r : SvuReq} (hreq : svuReqDecode req = some r) :
    attemptLoop s req [losslessAttempt ((manifestChunks s).length + 1)] =
      .ok (some (senderReply s)) := by
  have answer : svuServeControl s req = .ok (respHeader s r.sessionId :: manifestChunks s) := by
    simp only [svuServeControl, hreq]
    exact sendResponse_ok room r.sessionId
  have whole := ctrlExchange_header (by omega) (losslessAttempt ((manifestChunks s).length + 1))
    r.sessionId (List.Sublist.refl (manifestChunks s))
  rw [if_pos ⟨rfl, rfl, rfl, rfl⟩] at whole
  have reply := (exchange_lossless answer).trans whole
  rw [List.length_cons] at reply
  simp only [attemptLoop, reply]

theorem exchange_cases {s : Source} (room : s.nblocks.toNat ≤ 134217725)
    (unmistakable : Unmistakable s) (req : Payload) (a : Attempt) :
    exchange s req a = .ok none ∨ exchange s req a = .ok (some (senderReply s)) := by
  have silent : ctrlExchange a [] = .ok none := by simp [ctrlExchange]
  rw [exchange]
  split
  · cases hreq : svuReqDecode req with
    | none =>
      left
      simp [svuServeControl, hreq, arrivals, silent]
    | some r =>
      obtain ⟨pkts, hserve, hread⟩ := served_of_unmistakable room unmistakable req r hreq
      simp only [hserve, hread a]
      split
      · exact Or.inr rfl
      · exact Or.inl rfl
  · exact Or.inl silent

theorem allOrNothing_of_unmistakable {s : Source} (room : s.nblocks.toNat ≤ 134217725)
    (unmistakable : Unmistakable s) : AllOrNothing s := by
  have attempts : ∀ req as, attemptLoop s req as = .ok none ∨
      attemptLoop s req as = .ok (some (senderReply s)) := fun req as =>
    attemptLoop_total as fun a _ => exchange_cases room unmistakable req a
  refine ⟨served_of_unmistakable room unmistakable, attempts, ?_⟩
  intro blockSize mtu maxRounds envs ops old r recv hrun hrecv
  obtain ⟨e, hloop, heq⟩ := svuClientRun_recv hrun
  have start : TracksSender s sessionStart := by
    intro r hr
    cases hr
  obtain ⟨e', hloop', tracks⟩ := roundLoop_total (TracksSender s) (fun _ => True)
    (fun sess env tracks _ => clientRound_total tracks (attempts _ _)) trivial maxRounds start
    (fun env (_ : env ∈ envs) => trivial)
  rw [hloop] at hloop'
  cases hloop'
  exact (tracks recv (heq.symm.trans hrecv)).2

/-- A request that the sender understands. -/
theorem firstRequest_decodes (mtu blockSize : UInt32) :
    svuReqDecode (svuReqEncode (roundRequest mtu blockSize sessionStart)) =
      some (roundRequest mtu blockSize sessionStart) :=
  decode_encode _ rfl rfl (by simp [roundRequest, sessionStart])

/-- A first round whose exchange loses nothing gets its tracker. -/
theorem first_round (src : List UInt8) {total block : UInt32} (hn : ciSvuNblocks total block ≠ 0)
    (room : (ciSvuNblocks total block).toNat ≤ 134217725) (mtu blockSize : UInt32) :
    ∃ r kept, BuiltFrom (svuServe src total block) r ∧ Delivered r r [] ∧
      kept = (manifestChunks (svuServe src total block)).length + 1 ∧
      ∀ drains, clientRound (svuServe src total block) mtu blockSize sessionStart
          ⟨[losslessAttempt kept], true, drains⟩ =
        .ok (.verdict (finishRound r sessionStart drains)) := by
  have answer := attemptLoop_lossless (s := svuServe src total block) room
    (firstRequest_decodes mtu blockSize)
  obtain ⟨r, made⟩ := new_ok total block (ciSvuManifest src total block).2 hn
    (Nat.le_of_eq (manifest_length src total block).symm)
  obtain ⟨htotal, hblock, hnblocks, hexpected, fresh⟩ := new_cases made
  rw [List.take_of_length_le (Nat.le_of_eq (manifest_length src total block))] at hexpected
  have made' : ciSvuNew true (senderReply (svuServe src total block)).total
      (senderReply (svuServe src total block)).block
      (senderReply (svuServe src total block)).manifest
      (senderReply (svuServe src total block)).nblocks = .ok (some r) := made
  refine ⟨r, _, ⟨htotal, hblock, hnblocks, hexpected⟩, fresh, rfl, ?_⟩
  intro drains
  rw [clientRound, List.take_of_length_le (by simp), answer]
  simp only [sessionStart, made']

theorem room_of_served {s : Source} {sid : UInt32} {pkts : List Payload}
    (few : s.nblocks.toNat < 134217728) (h : sendResponse s sid = .ok pkts) :
    s.nblocks.toNat ≤ 134217725 := by
  by_contra long
  have hbytes := manifestBytes_toNat few
  have hsize := s.manifest_bytes
  rw [sendResponse] at h
  cases hsend : sendManifest s.manifest (s.nblocks * UInt32.ofNat ciSvuHashLen) with
  | error f =>
    rw [hsend] at h
    cases h
  | ok chunks => exact sendManifest_wraps hbytes.symm (by omega) hsend

/-- Lose the header and the chunks before one that looks like a header, and keep the rest. -/
theorem unmistakable_of_served {s : Source} (room : s.nblocks.toNat ≤ 134217725) {sid : UInt32}
    (h : ∀ a : Attempt,
      ctrlExchange a (arrivals a.kept (respHeader s sid :: manifestChunks s)) =
        .ok (if a.connects ∧ a.hasBuffer ∧ a.hasHeap ∧
            arrivals a.kept (respHeader s sid :: manifestChunks s) =
              respHeader s sid :: manifestChunks s then some (senderReply s) else none)) :
    Unmistakable s := by
  intro k long magic
  by_contra fits
  obtain ⟨c, hc⟩ : ∃ c, c = slice s.manifest (k * 200, 200) := ⟨_, rfl⟩
  rw [← hc] at long magic fits
  have hsize := s.manifest_bytes
  have hhdr : svuRespHdr = 20 := rfl
  have inside : k * 200 < s.manifest.length := by
    rw [hc, slice, List.length_take, List.length_drop] at long
    omega
  have hget := chunks_getElem? s k
  rw [if_pos inside, ← hc] at hget
  obtain ⟨hk, hget⟩ := List.getElem?_eq_some_iff.mp hget
  have hdrop : (manifestChunks s).drop k = c :: (manifestChunks s).drop (k + 1) := by
    rw [List.drop_eq_getElem_cons hk, hget]
  -- the header and `k` chunks are lost, so chunk `k` is read first
  obtain ⟨ks, hks⟩ : ∃ ks, arrivals ks (respHeader s sid :: manifestChunks s) =
      c :: (manifestChunks s).drop (k + 1) := by
    refine ⟨_, (arrivals_drop (k + 1) _).trans ?_⟩
    rw [List.drop_succ_cons, hdrop]
  have seen := h ⟨true, true, true, true, ks⟩
  simp only [hks] at seen
  have shorter : c :: (manifestChunks s).drop (k + 1) ≠ respHeader s sid :: manifestChunks s := by
    intro heq
    have := congrArg List.length heq
    simp only [List.length_cons, List.length_drop] at this
    omega
  have hrest := chunks_drop_length s (k + 1)
  have hread := readManifest_fresh (svuGet32 c 16 * UInt32.ofNat ciSvuHashLen)
    ((manifestChunks s).drop (k + 1)) (by omega)
  rw [if_pos (by omega)] at hread
  have wellFormed : ¬ (c.length < svuRespHdr ∨ svuGet32 c 0 ≠ svuMagicResp) := by
    rw [magic]
    simp
    omega
  simp [ctrlExchange, wellFormed, hread, shorter] at seen

/-- The hand-over is all or nothing exactly for a manifest whose last chunk ends below
2^32 and in which no chunk can be mistaken for a header. -/
theorem allOrNothing_iff (s : Source) (few : s.nblocks.toNat < 134217728) :
    AllOrNothing s ↔ s.nblocks.toNat ≤ 134217725 ∧ Unmistakable s := by
  constructor
  · intro h
    obtain ⟨pkts, hserve, hread⟩ := h.served _ _ (firstRequest_decodes 256 4096)
    simp only [svuServeControl, firstRequest_decodes] at hserve
    have room := room_of_served few hserve
    rw [sendResponse_ok room] at hserve
    cases hserve
    exact ⟨room, unmistakable_of_served room hread⟩
  · rintro ⟨room, unmistakable⟩
    exact allOrNothing_of_unmistakable room unmistakable

theorem allOrNothing_three_bytes :
    AllOrNothing (svuServe [7, 8, 9] 3 2) ↔
      (svuServe [7, 8, 9] 3 2).nblocks.toNat ≤ 134217725 ∧
        Unmistakable (svuServe [7, 8, 9] 3 2) :=
  allOrNothing_iff (svuServe [7, 8, 9] 3 2) (by decide)

theorem not_allOrNothing_of_long {s : Source} (long : 134217725 < s.nblocks.toNat)
    (few : s.nblocks.toNat < 134217728) : ¬ AllOrNothing s := by
  intro h
  obtain ⟨pkts, hserve, _⟩ := h.served _ _ (firstRequest_decodes 256 4096)
  simp only [svuServeControl, firstRequest_decodes] at hserve
  have room := room_of_served few hserve
  omega

/-- A file of 134217727 bytes, in blocks of one byte: `off + chunk` wraps at the last chunk. -/
theorem last_chunk_wraps :
    (svuServe (List.replicate 134217727 0) 134217727 1).nblocks.toNat = 134217727 ∧
      ¬ AllOrNothing (svuServe (List.replicate 134217727 0) 134217727 1) := by
  have hn : ∀ src, (svuServe src 134217727 1).nblocks.toNat = 134217727 := by
    intro src
    have h : ciSvuNblocks 134217727 1 = 134217727 := by decide
    exact congrArg UInt32.toNat h
  refine ⟨hn _, not_allOrNothing_of_long ?_ ?_⟩
  · rw [hn]
    decide
  · rw [hn]
    decide

end CspLinksim.Svu
