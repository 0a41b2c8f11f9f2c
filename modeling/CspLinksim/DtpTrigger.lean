import CspLinksim.Lib.Wire

/-!
# The trigger of the deployed uploader (`dtp_trigger.c`)

One packet starts the transfer. Its message is encoded by hand into a buffer of 512 bytes, with
fields left out where they have their defaults. The client unpacks it with protobuf-c, which is
a parameter here; the fields of the message are those the comment of the program lists.
-/

namespace CspLinksim.DtpTrigger

open Wire

/-- What the operator asks for; a path is the bytes in front of its NUL. -/
structure UploadMetadataItem where
  fileSrc : List UInt8
  fileDest : List UInt8
  dtpServerAddress : UInt32
  payloadId : UInt32
  checksum : UInt32
  deriving DecidableEq

/-- Appends to the bytes `buf` in front of the write offset, as the other three do. -/
def putVarint (buf : List UInt8) (v : UInt32) : List UInt8 :=
  if 0x80 ≤ v then putVarint (buf ++ [(v ||| 0x80).toUInt8]) (v >>> 7) else buf ++ [v.toUInt8]
termination_by v.toNat
decreasing_by
  have big : 128 ≤ v.toNat := by simpa [UInt32.le_iff_toNat_le] using ‹0x80 ≤ v›
  have seven : UInt32.toNat 7 % 32 = 7 := rfl
  rw [UInt32.toNat_shiftRight, Nat.shiftRight_eq_div_pow, seven]
  omega

def putString (buf : List UInt8) (tag : UInt8) (s : List UInt8) : List UInt8 :=
  if s = [] then buf else putVarint (buf ++ [tag]) (UInt32.ofNat s.length) ++ s

def putUint32 (buf : List UInt8) (tag : UInt8) (v : UInt32) : List UInt8 :=
  if v = 0 then buf else putVarint (buf ++ [tag]) v

def putFixed32 (buf : List UInt8) (tag : UInt8) (v : UInt32) : List UInt8 :=
  if v = 0 then buf
  else buf ++ [tag, (v &&& 0xFF).toUInt8, ((v >>> 8) &&& 0xFF).toUInt8,
    ((v >>> 16) &&& 0xFF).toUInt8, ((v >>> 24) &&& 0xFF).toUInt8]

/-- `sizeof(msg)`; nothing checks that the message stays within it. -/
def msgSize : Nat := 512

/-- The message that `main` sends. -/
def trigger (m : UploadMetadataItem) : List UInt8 :=
  let msg := putString [] 0x0A m.fileSrc
  let msg := putString msg 0x12 m.fileDest
  let msg := putUint32 msg 0x18 m.dtpServerAddress
  let msg := putUint32 msg 0x20 m.payloadId
  putFixed32 msg 0x2D m.checksum

/-- A field of the message, with the type of its number. -/
def Known (f : Field) : Prop :=
  match f.value with
  | .string _ => f.key = 1 ∨ f.key = 2
  | .number n => (f.key = 3 ∨ f.key = 4) ∧ n.toNat < 2 ^ 32
  | .word _ => f.key = 5

/-- The message that such fields stand for; one that is not there has its default. -/
def itemOf (fs : List Field) : UploadMetadataItem where
  fileSrc := (last? 1 Value.string? fs).getD []
  fileDest := (last? 2 Value.string? fs).getD []
  dtpServerAddress := ((last? 3 Value.number? fs).getD 0).toUInt32
  payloadId := ((last? 4 Value.number? fs).getD 0).toUInt32
  checksum := (last? 5 Value.word? fs).getD 0

/-- What is relied on of the unpacker: it reads fields that are written in the wire format. -/
def Unpacks (unpack : List UInt8 → Option UploadMetadataItem) : Prop :=
  ∀ fs, (∀ f ∈ fs, f.Valid ∧ Known f) → unpack (fs.flatMap putField) = some (itemOf fs)

/-- The fields that are sent. -/
def fields (m : UploadMetadataItem) : List Field :=
  unlessDefault (m.fileSrc = []) ⟨1, .string m.fileSrc⟩ ++
    unlessDefault (m.fileDest = []) ⟨2, .string m.fileDest⟩ ++
    unlessDefault (m.dtpServerAddress = 0) ⟨3, .number m.dtpServerAddress.toUInt64⟩ ++
    unlessDefault (m.payloadId = 0) ⟨4, .number m.payloadId.toUInt64⟩ ++
    unlessDefault (m.checksum = 0) ⟨5, .word m.checksum⟩

theorem or_high_bit (v : UInt32) : (v ||| 0x80).toUInt8 = UInt8.ofNat (v.toNat % 128 + 128) := by
  have bytes : ∀ n < 256, n ||| 128 = n % 128 + 128 := by decide +kernel
  have low : (v.toNat ||| 128) % 2 ^ 8 = v.toNat % 2 ^ 8 ||| 128 := Nat.or_mod_two_pow
  have byte := bytes (v.toNat % 2 ^ 8) (Nat.mod_lt _ (by decide))
  apply UInt8.toNat_inj.mp
  rw [UInt32.toNat_toUInt8, UInt32.toNat_or, show UInt32.toNat 0x80 = 128 from rfl, low, byte,
    UInt8.toNat_ofNat_of_lt' (by rw [UInt8.size]; omega)]
  omega

theorem putVarint_eq (buf : List UInt8) (v : UInt32) : putVarint buf v = buf ++ varint v.toNat := by
  have h7 : UInt32.toNat 7 % 32 = 7 := rfl
  fun_induction putVarint buf v with
  | case1 buf v more ih =>
    have big : 128 ≤ v.toNat := by simpa [UInt32.le_iff_toNat_le] using more
    have upper : (v >>> 7).toNat = v.toNat / 128 := by
      rw [UInt32.toNat_shiftRight, Nat.shiftRight_eq_div_pow, h7]
    rw [ih, upper, or_high_bit, List.append_assoc, List.singleton_append]
    conv_rhs => rw [varint, if_neg (by omega)]
  | case2 buf v last =>
    have small : v.toNat < 128 := by simpa [UInt32.le_iff_toNat_le] using last
    have byte : v.toUInt8 = UInt8.ofNat v.toNat := by
      apply UInt8.toNat_inj.mp
      simp
    rw [varint, if_pos small, byte]

/-- A string below the format's bound is one field; longer ones get a wrong length. -/
theorem putString_eq (buf : List UInt8) {tag : UInt8} {key : ℕ}
    (tagged : varint (8 * key + 2) = [tag]) {s : List UInt8} (short : s.length < 2 ^ 32) :
    putString buf tag s = buf ++ (unlessDefault (s = []) ⟨key, .string s⟩).flatMap putField := by
  rw [putString]
  by_cases empty : s = []
  · simp [empty, unlessDefault]
  · have size : (UInt32.ofNat s.length).toNat = s.length := UInt32.toNat_ofNat_of_lt' short
    rw [if_neg empty, putVarint_eq, size]
    simp [unlessDefault, empty, putField, Value.wireType, Value.payload, tagged]

theorem putUint32_eq (buf : List UInt8) {tag : UInt8} {key : ℕ} (tagged : varint (8 * key) = [tag])
    (v : UInt32) :
    putUint32 buf tag v =
      buf ++ (unlessDefault (v = 0) ⟨key, .number v.toUInt64⟩).flatMap putField := by
  rw [putUint32]
  by_cases zero : v = 0
  · simp [zero, unlessDefault]
  · rw [if_neg zero, putVarint_eq]
    simp [unlessDefault, zero, putField, Value.wireType, Value.payload, tagged]

theorem low_byte (v : UInt32) : (v &&& 0xFF).toUInt8 = v.toUInt8 := by
  have mask : (v &&& 0xFF).toNat = v.toNat % 256 := by
    rw [UInt32.toNat_and]
    exact Nat.and_two_pow_sub_one_eq_mod v.toNat 8
  apply UInt8.toNat_inj.mp
  rw [UInt32.toNat_toUInt8, UInt32.toNat_toUInt8, mask, Nat.mod_mod]

theorem putFixed32_eq (buf : List UInt8) {tag : UInt8} {key : ℕ}
    (tagged : varint (8 * key + 5) = [tag]) (v : UInt32) :
    putFixed32 buf tag v = buf ++ (unlessDefault (v = 0) ⟨key, .word v⟩).flatMap putField := by
  rw [putFixed32]
  by_cases zero : v = 0
  · simp [zero, unlessDefault]
  · rw [if_neg zero]
    simp only [low_byte]
    simp [unlessDefault, zero, putField, Value.wireType, Value.payload, tagged, wordBytes]

/-- Both paths are below the format's bound. -/
def Short (m : UploadMetadataItem) : Prop :=
  m.fileSrc.length < 2 ^ 32 ∧ m.fileDest.length < 2 ^ 32

theorem trigger_eq {m : UploadMetadataItem} (short : Short m) :
    trigger m = (fields m).flatMap putField := by
  have src := @putString_eq [] 0x0A 1 (varint_small (by decide)) m.fileSrc short.1
  have dest := fun buf => @putString_eq buf 0x12 2 (varint_small (by decide)) m.fileDest short.2
  have server := fun buf =>
    @putUint32_eq buf 0x18 3 (varint_small (by decide)) m.dtpServerAddress
  have payload := fun buf => @putUint32_eq buf 0x20 4 (varint_small (by decide)) m.payloadId
  have checksum := fun buf => @putFixed32_eq buf 0x2D 5 (varint_small (by decide)) m.checksum
  simp only [trigger, src, dest, server, payload, checksum, fields, List.flatMap_append,
    List.nil_append, List.append_assoc]

theorem fields_valid {m : UploadMetadataItem} (short : Short m) :
    ∀ f ∈ fields m, f.Valid ∧ Known f := by
  intro f hf
  have small : ∀ v : UInt32, v.toUInt64.toNat < 2 ^ 32 := fun v => v.toNat_lt
  simp only [fields, List.mem_append, mem_unlessDefault] at hf
  rcases hf with (((⟨-, rfl⟩ | ⟨-, rfl⟩) | ⟨-, rfl⟩) | ⟨-, rfl⟩) | ⟨-, rfl⟩
  · exact ⟨⟨(by decide : 1 < 2 ^ 29), fun s hs => Value.string.inj hs ▸ short.1⟩, .inl rfl⟩
  · exact ⟨⟨(by decide : 2 < 2 ^ 29), fun s hs => Value.string.inj hs ▸ short.2⟩, .inr rfl⟩
  · exact ⟨⟨(by decide : 3 < 2 ^ 29), fun s hs => by cases hs⟩, .inl rfl, small _⟩
  · exact ⟨⟨(by decide : 4 < 2 ^ 29), fun s hs => by cases hs⟩, .inr rfl, small _⟩
  · exact ⟨⟨(by decide : 5 < 2 ^ 29), fun s hs => by cases hs⟩, rfl⟩

/-- A field with its default is read as it was, although it is not sent. -/
theorem getD_unless {β : Type} (isDefault : Prop) [Decidable isDefault] {x dflt : β}
    (same : isDefault → x = dflt) : (if isDefault then none else some x).getD dflt = x := by
  split
  case isTrue h => exact (same h).symm
  case isFalse => rfl

theorem itemOf_fields (m : UploadMetadataItem) : itemOf (fields m) = m := by
  have number : ∀ v : UInt32, (if v = 0 then none else some v.toUInt64).getD 0 = v.toUInt64 := by
    intro v
    refine getD_unless (v = 0) ?_
    rintro rfl
    rfl
  simp [itemOf, fields, Value.string?, Value.number?, Value.word?, getD_unless, number]

theorem unpack_trigger {unpack : List UInt8 → Option UploadMetadataItem} (reads : Unpacks unpack)
    {m : UploadMetadataItem} (short : Short m) : unpack (trigger m) = some m := by
  rw [trigger_eq short, reads _ (fields_valid short), itemOf_fields]

theorem putString_append (buf : List UInt8) (tag : UInt8) (s : List UInt8) :
    putString buf tag s = buf ++ putString [] tag s := by
  rw [putString, putString]
  split <;> simp [putVarint_eq]

theorem putUint32_append (buf : List UInt8) (tag : UInt8) (v : UInt32) :
    putUint32 buf tag v = buf ++ putUint32 [] tag v := by
  rw [putUint32, putUint32]
  split <;> simp [putVarint_eq]

theorem putFixed32_append (buf : List UInt8) (tag : UInt8) (v : UInt32) :
    putFixed32 buf tag v = buf ++ putFixed32 [] tag v := by
  rw [putFixed32, putFixed32]
  split <;> simp

/-- The parts of a message one after another. -/
theorem trigger_parts (m : UploadMetadataItem) :
    trigger m = putString [] 0x0A m.fileSrc ++ (putString [] 0x12 m.fileDest ++
      (putUint32 [] 0x18 m.dtpServerAddress ++ (putUint32 [] 0x20 m.payloadId ++
        putFixed32 [] 0x2D m.checksum))) := by
  rw [trigger, putFixed32_append, putUint32_append, putUint32_append (putString _ _ _),
    putString_append (putString _ _ _)]
  simp only [List.append_assoc]

/-- The string itself, and at most three bytes in front of one below 16384. -/
theorem putString_length (tag : UInt8) (s : List UInt8) :
    s.length ≤ (putString [] tag s).length ∧
    (s.length < 128 ^ 2 → (putString [] tag s).length ≤ 3 + s.length) := by
  rw [putString]
  split
  case isTrue empty => simp [empty]
  case isFalse =>
    rw [putVarint_eq, List.length_append, List.length_append]
    refine ⟨Nat.le_add_left _ _, fun small => ?_⟩
    have size : (UInt32.ofNat s.length).toNat = s.length :=
      UInt32.toNat_ofNat_of_lt' (lt_trans small (by decide))
    have := @varint_length_le (UInt32.ofNat s.length).toNat 1 (by rw [size]; exact small)
    simp only [List.nil_append, List.length_singleton]
    omega

theorem putUint32_length_le (tag : UInt8) (v : UInt32) : (putUint32 [] tag v).length ≤ 6 := by
  rw [putUint32]
  split
  · exact Nat.zero_le 6
  · have := @varint_length_le v.toNat 4 (lt_trans v.toNat_lt (by decide))
    rw [putVarint_eq, List.length_append, List.nil_append, List.length_singleton]
    omega

theorem putFixed32_length_le (tag : UInt8) (v : UInt32) : (putFixed32 [] tag v).length ≤ 5 := by
  rw [putFixed32]
  split <;> simp

theorem short_of_fits {m : UploadMetadataItem} (fits : (trigger m).length ≤ msgSize) :
    Short m := by
  have src := (putString_length 0x0A m.fileSrc).1
  have dest := (putString_length 0x12 m.fileDest).1
  rw [trigger_parts, msgSize] at fits
  simp only [List.length_append] at fits
  exact ⟨by omega, by omega⟩

/-- A request that stays within the buffer is what the client reads; two such requests are never
sent as one message, and paths of at most 489 bytes together stay within. -/
theorem trigger_reads_back {unpack : List UInt8 → Option UploadMetadataItem}
    (reads : Unpacks unpack) (m : UploadMetadataItem) :
    ((trigger m).length ≤ msgSize → unpack (trigger m) = some m ∧
      ∀ m', (trigger m').length ≤ msgSize → trigger m' = trigger m → m' = m) ∧
    (m.fileSrc.length + m.fileDest.length ≤ 489 → (trigger m).length ≤ msgSize) := by
  constructor
  · intro fits
    have read := unpack_trigger reads (short_of_fits fits)
    refine ⟨read, fun m' fits' same => ?_⟩
    have read' := unpack_trigger reads (short_of_fits fits')
    rw [same, read] at read'
    exact (Option.some.inj read').symm
  · intro paths
    have src := (putString_length 0x0A m.fileSrc).2 (by omega)
    have dest := (putString_length 0x12 m.fileDest).2 (by omega)
    have server := putUint32_length_le 0x18 m.dtpServerAddress
    have payload := putUint32_length_le 0x20 m.payloadId
    have checksum := putFixed32_length_le 0x2D m.checksum
    rw [trigger_parts, msgSize]
    simp only [List.length_append]
    omega

/-- A client that reads the wire format. -/
def readItem (msg : List UInt8) : Option UploadMetadataItem := (getFields msg).map itemOf

theorem readItem_unpacks : Unpacks readItem := by
  intro fs valid
  rw [readItem, getFields_putFields fun f hf => (valid f hf).1, Option.map_some]

/-- A request for payload 300 from server 5424, without a checksum. -/
def sampleItem : UploadMetadataItem where
  fileSrc := [0x2F, 0x61]
  fileDest := [0x2F, 0x62]
  dtpServerAddress := 5424
  payloadId := 300
  checksum := 0

theorem sample_reads_back :
    trigger sampleItem =
        [0x0A, 2, 0x2F, 0x61, 0x12, 2, 0x2F, 0x62, 0x18, 0xB0, 0x2A, 0x20, 0xAC, 0x02] ∧
      readItem (trigger sampleItem) = some sampleItem := by
  obtain ⟨read, fits⟩ := trigger_reads_back readItem_unpacks sampleItem
  exact ⟨by decide +kernel, (read (fits (by decide))).1⟩

end CspLinksim.DtpTrigger
