import Mathlib.Data.List.TakeDrop
import CspLinksim.SvuCodec

/-!
# The announce (`svu_announce_encode`, `svu_announce_decode`)

The uploader hands the daemon a destination path, with a mode in front of it or alone.
The daemon tells the two forms apart by the first word of the packet, and both sides cut
a path to the room they have. The paths for which this is harmless are found exactly.
-/

namespace CspLinksim.Svu

open Packet

/-- The characters of a C string, without the NUL that ends it. -/
structure CString where
  bytes : List UInt8
  nulFree : 0 ∉ bytes

def CString.take (s : CString) (n : Nat) : CString :=
  ⟨s.bytes.take n, fun h => s.nulFree (List.mem_of_mem_take h)⟩

def CString.drop (s : CString) (n : Nat) : CString :=
  ⟨s.bytes.drop n, fun h => s.nulFree (List.mem_of_mem_drop h)⟩

/-- The string that a buffer holds, up to its first NUL. -/
def stringAt (buf : List UInt8) : List UInt8 := buf.takeWhile (· ≠ 0)

theorem stringAt_terminated {s : List UInt8} (h : 0 ∉ s) : stringAt (s ++ [0]) = s := by
  induction s with
  | nil => rfl
  | cons c s ih =>
    obtain ⟨hc, hs⟩ := not_or.mp (mt List.mem_cons.mpr h)
    have hpos : decide (c ≠ 0) = true := decide_eq_true (Ne.symm hc)
    simp only [stringAt, List.cons_append, List.takeWhile_cons, hpos] at ih ⊢
    exact congrArg (c :: ·) (ih hs)

def colon : UInt8 := 0x3A

/-- The checks of `main` on `<node>:<dest-path>`: the node's text and the path, or an
exit with status 1. -/
def svuTarget (target : CString) : Option (CString × CString) :=
  match target.bytes.idxOf? colon with
  | none => none
  | some nlen =>
    if nlen = 0 ∨ nlen ≥ 16 then none
    else
      let destpath := target.drop (nlen + 1)
      if destpath.bytes = [] then none else some (target.take nlen, destpath)

def svuPushMagic : UInt32 := 0x53565550

/-- `svu_announce_encode`; `strlen` is the number of characters. -/
def svuAnnounceEncode (mode : UInt32) (path : CString) (bufcap : Nat) : List UInt8 :=
  let plen := path.bytes.length
  if mode = 0 then
    let plen := if plen > bufcap then bufcap else plen
    path.bytes.take plen
  else
    let plen := if plen + 8 > bufcap then (if bufcap > 8 then bufcap - 8 else 0) else plen
    svuPut32 svuPushMagic ++ svuPut32 mode ++ path.bytes.take plen

/-- `svu_announce_decode`: the mode and the bytes put into `path`, NUL included. -/
def svuAnnounceDecode (buf : List UInt8) (pathcap : Nat) : UInt32 × List UInt8 :=
  let framed := buf.length ≥ 8 ∧ svuGet32 buf 0 = svuPushMagic
  let mode := if framed then svuGet32 buf 4 else 0
  let psrc := if framed then buf.drop 8 else buf
  if pathcap = 0 then (mode, [])
  else
    let plen := if psrc.length ≥ pathcap then pathcap - 1 else psrc.length
    (mode, psrc.take plen ++ [0])

/-- The mode and the path the daemon works with when the uploader has these: the packet is
built with room for 250 bytes and parsed into a `path[256]`. -/
def svuAnnounced (mode : UInt32) (path : CString) : UInt32 × List UInt8 :=
  let decoded := svuAnnounceDecode (svuAnnounceEncode mode path 250) 256
  (decoded.1, stringAt decoded.2)

/-- Any path that is not empty passes the checks of the command. -/
theorem target_accepts (path : CString) (h : path.bytes ≠ []) :
    ∃ target node, svuTarget target = some (node, path) := by
  obtain ⟨bytes, nulFree⟩ := path
  have free : 0 ∉ 0x31 :: colon :: bytes := by
    simpa [colon] using nulFree
  refine ⟨⟨0x31 :: colon :: bytes, free⟩, ⟨[0x31], by decide⟩, ?_⟩
  have found : (0x31 :: colon :: bytes).idxOf? colon = some 1 := by
    simp [List.idxOf?, List.findIdx?_cons, colon]
  simp only [svuTarget, found]
  rw [if_neg (by decide)]
  simp only [CString.drop, CString.take, List.drop_succ_cons, List.drop_zero,
    List.take_succ_cons, List.take_zero]
  exact if_neg h

theorem announce_length (mode : UInt32) (path : CString) :
    (svuAnnounceEncode mode path 250).length ≤ 250 := by
  simp only [svuAnnounceEncode]
  split
  · simp only [List.length_take]
    split <;> omega
  · simp only [List.length_append, List.length_take, svuPut32, List.length_cons,
      List.length_nil, if_pos (show (250 : Nat) > 8 by decide)]
    split <;> omega

/-- Four bytes are the magic word exactly if they spell it. -/
theorem get32_magic_iff (p : List UInt8) (h : 4 ≤ p.length) :
    svuGet32 p 0 = svuPushMagic ↔ p.take 4 = [0x50, 0x55, 0x56, 0x53] := by
  have magic : svuPut32 svuPushMagic = [0x50, 0x55, 0x56, 0x53] := by decide
  constructor
  · intro word
    have hput := put32_get32 p 0 (by omega)
    rw [word, magic] at hput
    exact hput.symm
  · intro bytes
    have hword := get32_put32 svuPushMagic (p.drop 4)
    rwa [magic, ← bytes, List.take_append_drop] at hword

/-- The path alone spells a framed announce. -/
def LooksFramed (path : CString) : Prop :=
  8 ≤ path.bytes.length ∧ path.bytes.take 4 = [0x50, 0x55, 0x56, 0x53]

instance (path : CString) : Decidable (LooksFramed path) := inferInstanceAs (Decidable (_ ∧ _))

theorem framed_iff (path : CString) :
    (path.bytes.take 250).length ≥ 8 ∧ svuGet32 (path.bytes.take 250) 0 = svuPushMagic ↔
      LooksFramed path := by
  have hlen : (path.bytes.take 250).length = min 250 path.bytes.length := List.length_take
  have hfour : (path.bytes.take 250).take 4 = path.bytes.take 4 := by
    rw [List.take_take]
    rfl
  constructor
  · rintro ⟨long, word⟩
    refine ⟨by omega, ?_⟩
    exact hfour ▸ (get32_magic_iff _ (by omega)).mp word
  · rintro ⟨long, bytes⟩
    refine ⟨by omega, ?_⟩
    exact (get32_magic_iff _ (by omega)).mpr (hfour.symm ▸ bytes)

/-- What is decoded from a buffer that the path array has room for. -/
theorem decode_room {buf : List UInt8} (small : buf.length ≤ 250) (free : 0 ∉ buf.drop 8) :
    (buf.length ≥ 8 ∧ svuGet32 buf 0 = svuPushMagic →
      (svuAnnounceDecode buf 256).1 = svuGet32 buf 4 ∧
      stringAt (svuAnnounceDecode buf 256).2 = buf.drop 8) ∧
    (¬ (buf.length ≥ 8 ∧ svuGet32 buf 0 = svuPushMagic) → 0 ∉ buf →
      (svuAnnounceDecode buf 256).1 = 0 ∧ stringAt (svuAnnounceDecode buf 256).2 = buf) := by
  constructor
  · intro framed
    simp only [svuAnnounceDecode, if_pos framed, if_neg (show ¬ (256 : Nat) = 0 by decide)]
    rw [if_neg (by simp only [List.length_drop]; omega), List.take_length]
    exact ⟨True.intro, stringAt_terminated free⟩
  · intro alone nulFree
    simp only [svuAnnounceDecode, if_neg alone, if_neg (show ¬ (256 : Nat) = 0 by decide)]
    rw [if_neg (by omega), List.take_length]
    exact ⟨True.intro, stringAt_terminated nulFree⟩

/-- With a mode the packet is framed, and the path has the 242 bytes behind it. -/
theorem announced_framed (mode : UInt32) (path : CString) (h : mode ≠ 0) :
    svuAnnounced mode path = (mode, path.bytes.take 242) := by
  have henc : svuAnnounceEncode mode path 250 =
      svuPut32 svuPushMagic ++ (svuPut32 mode ++ path.bytes.take 242) := by
    simp only [svuAnnounceEncode, if_neg h, List.append_assoc]
    by_cases long : path.bytes.length + 8 > 250
    · simp only [if_pos long]
      rfl
    · simp only [if_neg long]
      rw [List.take_length, List.take_of_length_le (by omega)]
  obtain ⟨buf, hbuf⟩ : ∃ buf, buf = svuAnnounceEncode mode path 250 := ⟨_, rfl⟩
  have hdrop : buf.drop 8 = path.bytes.take 242 := by
    rw [hbuf, henc]
    rfl
  have hmagic : svuGet32 buf 0 = svuPushMagic := by
    rw [hbuf, henc]
    exact get32_put32 svuPushMagic _
  have hmode : svuGet32 buf 4 = mode := by
    have word := get32_putWords [svuPushMagic, mode] 1 (by simp) (path.bytes.take 242)
    simpa [hbuf, henc, putWords] using word
  have room : buf.length ≥ 8 := by
    rw [hbuf, henc]
    simp only [svuPut32, List.length_append, List.length_cons, List.length_nil]
    omega
  have free : 0 ∉ buf.drop 8 := hdrop.symm ▸ (path.take 242).nulFree
  obtain ⟨decMode, decPath⟩ :=
    (decode_room (hbuf ▸ announce_length mode path) free).1 ⟨room, hmagic⟩
  simp only [svuAnnounced, ← hbuf, decMode, decPath, hmode, hdrop]

/-- Without a mode the packet is the path, which may look framed. -/
theorem announced_alone (path : CString) :
    svuAnnounced 0 path = if LooksFramed path
      then (svuGet32 (path.bytes.take 250) 4, (path.bytes.take 250).drop 8)
      else (0, path.bytes.take 250) := by
  have henc : svuAnnounceEncode 0 path 250 = path.bytes.take 250 := by
    simp only [svuAnnounceEncode, if_pos]
    split
    · rfl
    · rw [List.take_length, List.take_of_length_le (by omega)]
  have small : (path.bytes.take 250).length ≤ 250 := List.length_take_le 250 _
  have decoded := decode_room small ((path.take 250).drop 8).nulFree
  simp only [svuAnnounced, henc]
  by_cases looks : LooksFramed path
  · obtain ⟨decMode, decPath⟩ := decoded.1 ((framed_iff path).mpr looks)
    rw [if_pos looks, decMode, decPath]
  · obtain ⟨decMode, decPath⟩ := decoded.2 (fun h => looks ((framed_iff path).mp h))
      (path.take 250).nulFree
    rw [if_neg looks, decMode, decPath]

/-- The paths that an announce can carry with this mode. -/
def Carries (mode : UInt32) (path : CString) : Prop :=
  if mode = 0 then path.bytes.length ≤ 250 ∧ ¬ LooksFramed path else path.bytes.length ≤ 242

instance (mode : UInt32) (path : CString) : Decidable (Carries mode path) :=
  inferInstanceAs (Decidable (if mode = 0 then _ else _))

/-- The daemon gets the mode and the path of the command exactly if they can be carried. -/
theorem announce_survives_iff (mode : UInt32) (path : CString) :
    svuAnnounced mode path = (mode, path.bytes) ↔ Carries mode path := by
  rw [Carries]
  by_cases alone : mode = 0
  · rw [alone, announced_alone, if_pos rfl]
    by_cases looks : LooksFramed path
    · rw [if_pos looks]
      constructor
      · intro h
        have hlen := congrArg List.length (Prod.mk.inj h).2
        have long := looks.1
        rw [List.length_drop, List.length_take] at hlen
        omega
      · exact fun h => absurd looks h.2
    · rw [if_neg looks]
      constructor
      · intro h
        exact ⟨(List.take_eq_self_iff _).mp (Prod.mk.inj h).2, looks⟩
      · rintro ⟨short, -⟩
        rw [(List.take_eq_self_iff _).mpr short]
  · rw [announced_framed mode path alone, if_neg alone]
    constructor
    · intro h
      exact (List.take_eq_self_iff _).mp (Prod.mk.inj h).2
    · intro short
      rw [(List.take_eq_self_iff _).mpr short]

/-- The command accepts `1:PUVS/bin`, and the daemon reads an empty path and a mode. With
`-p` a path of 243 letters arrives one letter short. -/
theorem announce_misses :
    (∃ target node path : CString, svuTarget target = some (node, path) ∧
      path.bytes = [0x50, 0x55, 0x56, 0x53, 0x2F, 0x62, 0x69, 0x6E] ∧
      svuAnnounced 0 path = (0x6E69622F, [])) ∧
    ∃ target node path : CString, svuTarget target = some (node, path) ∧
      path.bytes = List.replicate 243 0x61 ∧
      svuAnnounced 0o755 path = (0o755, List.replicate 242 0x61) := by
  constructor
  · obtain ⟨target, node, accepted⟩ := target_accepts
      ⟨[0x50, 0x55, 0x56, 0x53, 0x2F, 0x62, 0x69, 0x6E], by decide⟩ (by decide)
    exact ⟨target, node, _, accepted, rfl, by decide⟩
  · have free : (0 : UInt8) ∉ List.replicate 243 0x61 :=
      fun h => absurd (List.eq_of_mem_replicate h) (by decide)
    obtain ⟨target, node, accepted⟩ := target_accepts ⟨List.replicate 243 0x61, free⟩
      (List.ne_nil_of_length_pos (by simp only [List.length_replicate]; decide))
    refine ⟨target, node, _, accepted, rfl, ?_⟩
    rw [announced_framed 0o755 _ (by decide), List.take_replicate]
    rfl

end CspLinksim.Svu
