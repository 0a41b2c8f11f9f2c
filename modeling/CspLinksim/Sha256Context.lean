import CspLinksim.Sha256

/-!
# The buffer of the SHA-256 context

`ci_sha256_t` keeps its bytes in a buffer of 64 under a length that `ci_sha256_update` and
`ci_sha256_final` write through. Here every write is checked and one outside is a fault; none
occurs, and the context with the checked buffer refines the one with a list.
-/

namespace CspLinksim.Sha256

structure Context where
  state : Words
  bitlen : UInt64
  buf : Vector UInt8 64
  buflen : Nat

/-- `buf[i] = b`; a fault if `i` is outside. -/
def put (buf : Vector UInt8 64) (i : Nat) (b : UInt8) : Option (Vector UInt8 64) :=
  if h : i < 64 then some (buf.set i b) else none

/-- Bytes one after the other from `i` on. -/
def putAll (buf : Vector UInt8 64) (i : Nat) : List UInt8 → Option (Vector UInt8 64)
  | [] => some buf
  | b :: bs => (put buf i b).bind fun buf => putAll buf (i + 1) bs

namespace Context

/-- The buffer is not initialised. -/
def init (buf : Vector UInt8 64) : Context := ⟨ciSha256Init.state, 0, buf, 0⟩

def updateByte (c : Context) (byte : UInt8) : Option Context :=
  (put c.buf c.buflen byte).map fun buf =>
    let buflen := c.buflen + 1
    if buflen = 64 then ⟨ciSha256Transform c.state buf.toList, c.bitlen + 512, buf, 0⟩
    else { c with buf, buflen }

def update (c : Context) (data : List UInt8) : Option Context := data.foldlM updateByte c

/-- Calls of `ci_sha256_update` one after the other. -/
def updates (c : Context) (pieces : List (List UInt8)) : Option Context := pieces.foldlM update c

/-- The block that is filled up with zeros where the length does not fit behind byte `i`. -/
def spill (state : Words) (buf : Vector UInt8 64) (i : Nat) :
    Option (Words × Vector UInt8 64 × Nat) :=
  if i > 56 then
    (putAll buf i (List.replicate (64 - i) 0)).map fun buf =>
      (ciSha256Transform state buf.toList, buf, 0)
  else some (state, buf, i)

/-- The zeros up to byte 56 and the length. -/
def putLength (buf : Vector UInt8 64) (i : Nat) (bitlen : UInt64) : Option (Vector UInt8 64) :=
  (putAll buf i (List.replicate (56 - i) 0)).bind fun buf =>
    putAll buf (i + (56 - i)) (be64Bytes bitlen)

def outBytes (w : Words) : List UInt8 :=
  [w.a, w.b, w.c, w.d, w.e, w.f, w.g, w.h].flatMap be32Bytes

/-- The loops that write zeros are `putAll` of as many. -/
def final (c : Context) : Option (List UInt8) :=
  let bitlen := c.bitlen + UInt64.ofNat c.buflen * 8
  (put c.buf c.buflen 0x80).bind fun buf =>
    (spill c.state buf (c.buflen + 1)).bind fun x =>
      (putLength x.2.1 x.2.2 bitlen).map fun buf => outBytes (ciSha256Transform x.1 buf.toList)

/-- The context holds the bytes of `l` in front of its buffer. -/
structure Holds (c : Context) (l : CiSha256) : Prop where
  state : c.state = l.state
  bitlen : c.bitlen = l.bitlen
  buflen : c.buflen = l.buf.length
  room : l.buf.length < 64
  buf : c.buf.toList.take l.buf.length = l.buf

end Context

/-- A write at the end of the bytes held. -/
theorem put_take {buf : Vector UInt8 64} {held : List UInt8} (room : held.length < 64)
    (holds : buf.toList.take held.length = held) (b : UInt8) :
    ∃ buf', put buf held.length b = some buf' ∧
      buf'.toList.take (held.length + 1) = held ++ [b] := by
  refine ⟨buf.set held.length b, dif_pos room, ?_⟩
  have size : held.length < buf.toList.length := by simpa using room
  rw [Vector.toList_set, List.take_succ_eq_append_getElem (by simpa using room),
    List.take_set_of_le (Nat.le_refl _), holds, List.getElem_set_self]

theorem putAll_take {buf : Vector UInt8 64} {held : List UInt8} (bs : List UInt8)
    (room : held.length + bs.length ≤ 64) (holds : buf.toList.take held.length = held) :
    ∃ buf', putAll buf held.length bs = some buf' ∧
      buf'.toList.take (held.length + bs.length) = held ++ bs := by
  induction bs generalizing buf held with
  | nil => exact ⟨buf, rfl, by simpa using holds⟩
  | cons b bs ih =>
    simp only [List.length_cons] at room
    obtain ⟨buf₁, first, holds₁⟩ := put_take (by omega) holds b
    have grown : (held ++ [b]).length = held.length + 1 := by simp
    rw [← grown] at holds₁
    obtain ⟨buf₂, rest, holds₂⟩ := ih (by omega) holds₁
    refine ⟨buf₂, ?_, ?_⟩
    · rw [putAll, first]
      simpa using rest
    · have total : held.length + (b :: bs).length = (held ++ [b]).length + bs.length := by
        simp only [List.length_cons, List.length_append, List.length_nil]
        omega
      rw [total, holds₂, List.append_assoc]
      rfl

theorem toList_of_take {buf : Vector UInt8 64} {bytes : List UInt8}
    (holds : buf.toList.take 64 = bytes) : buf.toList = bytes := by
  rw [← holds, List.take_of_length_le (by simp)]

namespace Context

theorem holds_init (buf : Vector UInt8 64) : Holds (init buf) ciSha256Init :=
  ⟨rfl, rfl, rfl, by decide, rfl⟩

theorem holds_byte {c : Context} {l : CiSha256} (h : Holds c l) (byte : UInt8) :
    ∃ c', c.updateByte byte = some c' ∧ Holds c' (Sha256.updateByte l byte) := by
  obtain ⟨buf, written, holds⟩ := put_take h.room h.buf byte
  rw [updateByte, h.buflen, written, Option.map_some]
  refine ⟨_, rfl, ?_⟩
  have grown : (l.buf ++ [byte]).length = l.buf.length + 1 := by simp
  rw [Sha256.updateByte, grown]
  dsimp only
  split
  · rename_i full
    rw [full] at holds
    rw [toList_of_take holds, h.state, h.bitlen]
    exact ⟨rfl, rfl, rfl, Nat.zero_lt_succ 63, rfl⟩
  · rename_i more
    have room := h.room
    constructor
    · exact h.state
    · exact h.bitlen
    · exact grown.symm
    · rw [grown]
      omega
    · rw [grown]
      exact holds

theorem holds_update {c : Context} {l : CiSha256} (h : Holds c l) (data : List UInt8) :
    ∃ c', c.update data = some c' ∧ Holds c' (ciSha256Update l data) := by
  induction data generalizing c l with
  | nil => exact ⟨c, rfl, h⟩
  | cons byte data ih =>
    obtain ⟨c₁, first, h₁⟩ := holds_byte h byte
    obtain ⟨c₂, rest, h₂⟩ := ih h₁
    refine ⟨c₂, ?_, h₂⟩
    rw [update, List.foldlM_cons, first]
    exact rest

/-- However the data is cut, the calls come to one call with all of it. -/
theorem updates_eq (c : Context) (pieces : List (List UInt8)) :
    c.updates pieces = c.update pieces.flatten := by
  induction pieces generalizing c with
  | nil => rfl
  | cons data pieces ih =>
    have both : c.update (data ++ pieces.flatten) =
        (c.update data).bind fun c => c.update pieces.flatten := List.foldlM_append
    rw [updates, List.foldlM_cons, List.flatten_cons, both]
    exact congrArg (c.update data).bind (funext ih)

/-- The last block, from any bytes that leave room for the length. -/
theorem putLength_holds {buf : Vector UInt8 64} {held : List UInt8} (room : held.length ≤ 56)
    (holds : buf.toList.take held.length = held) (bitlen : UInt64) :
    ∃ buf', putLength buf held.length bitlen = some buf' ∧
      buf'.toList = pad held 56 ++ be64Bytes bitlen := by
  obtain ⟨buf₁, zeros, holds₁⟩ := putAll_take (List.replicate (56 - held.length) 0)
    (by simp only [List.length_replicate]; omega) holds
  have padded : (pad held 56).length = held.length + (56 - held.length) := by simp [pad]
  have eight : (be64Bytes bitlen).length = 8 := rfl
  rw [List.length_replicate, ← padded] at holds₁
  obtain ⟨buf₂, length, holds₂⟩ := putAll_take (be64Bytes bitlen)
    (by omega) holds₁
  refine ⟨buf₂, ?_, toList_of_take ?_⟩
  · rw [putLength, zeros, Option.bind_some, ← padded]
    exact length
  · rw [← holds₂, padded, eight]
    congr 1
    omega

theorem spill_holds (state : Words) {buf : Vector UInt8 64} {held : List UInt8}
    (room : held.length ≤ 64) (holds : buf.toList.take held.length = held) :
    let x := if held.length > 56 then (ciSha256Transform state (pad held 64), []) else (state, held)
    ∃ buf', spill state buf held.length = some (x.1, buf', x.2.length) ∧
      buf'.toList.take x.2.length = x.2 ∧ x.2.length ≤ 56 := by
  rw [spill]
  split
  · obtain ⟨buf₁, zeros, holds₁⟩ := putAll_take (List.replicate (64 - held.length) 0)
      (by simp only [List.length_replicate]; omega) holds
    have full : held.length + (64 - held.length) = 64 := by omega
    rw [List.length_replicate, full] at holds₁
    have padded : buf₁.toList = pad held 64 := toList_of_take holds₁
    refine ⟨buf₁, ?_, rfl, Nat.zero_le _⟩
    rw [zeros, Option.map_some, padded]
    rfl
  · rename_i short
    exact ⟨buf, rfl, holds, Nat.le_of_not_lt short⟩

theorem final_split (l : CiSha256) :
    let held := l.buf ++ [0x80]
    let x :=
      if held.length > 56 then (ciSha256Transform l.state (pad held 64), []) else (l.state, held)
    ciSha256Final l = outBytes (ciSha256Transform x.1
      (pad x.2 56 ++ be64Bytes (l.bitlen + UInt64.ofNat l.buf.length * 8))) := rfl

theorem holds_final {c : Context} {l : CiSha256} (h : Holds c l) :
    c.final = some (ciSha256Final l) := by
  have room := h.room
  obtain ⟨buf₁, one, holds₁⟩ := put_take room h.buf 0x80
  have grown : (l.buf ++ [0x80]).length = l.buf.length + 1 := by simp
  rw [← grown] at holds₁
  obtain ⟨buf₂, spilt, holds₂, fits⟩ := spill_holds l.state (by omega) holds₁
  obtain ⟨buf₃, last, holds₃⟩ :=
      putLength_holds fits holds₂ (l.bitlen + UInt64.ofNat l.buf.length * 8)
  rw [final, h.buflen, h.bitlen, h.state, one, Option.bind_some, ← grown, spilt, Option.bind_some,
    last, Option.map_some, holds₃, final_split]

end Context

end CspLinksim.Sha256
