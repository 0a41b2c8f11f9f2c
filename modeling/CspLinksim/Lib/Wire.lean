import Mathlib.Data.List.Basic
import Mathlib.Data.UInt
import Mathlib.Tactic.Common

/-!
# The wire format of protocol buffers

A message is a list of fields, each with a number and a value. The wire types here are those of
numbers, strings and 32-bit words; a reader takes the last field of a number and skips those it
does not know.
-/

namespace CspLinksim.Wire

/-- Seven bits to a byte, the low ones first; a byte with the high bit set is not the last. -/
def varint (n : ℕ) : List UInt8 :=
  if n < 128 then [UInt8.ofNat n] else UInt8.ofNat (n % 128 + 128) :: varint (n / 128)
termination_by n
decreasing_by omega

/-- A number of at most `k` bytes, and what stands behind it. -/
def getVarint : ℕ → List UInt8 → Option (ℕ × List UInt8)
  | 0, _ => none
  | _, [] => none
  | k + 1, b :: rest =>
    if b.toNat < 128 then some (b.toNat, rest)
    else (getVarint k rest).map fun r => (b.toNat - 128 + 128 * r.1, r.2)

theorem varint_small {n : ℕ} (one : n < 128) : varint n = [UInt8.ofNat n] := by
  rw [varint, if_pos one]

theorem varint_ne_nil (n : ℕ) : varint n ≠ [] := by
  rw [varint]
  split
  · exact List.cons_ne_nil _ _
  · exact List.cons_ne_nil _ _

theorem getVarint_varint {n k : ℕ} (bound : n < 128 ^ (k + 1)) (rest : List UInt8) :
    getVarint (k + 1) (varint n ++ rest) = some (n, rest) := by
  induction k generalizing n with
  | zero =>
    have one : n < 128 := by simpa using bound
    have byte : (UInt8.ofNat n).toNat = n := UInt8.toNat_ofNat_of_lt' (by rw [UInt8.size]; omega)
    rw [varint_small one, List.singleton_append, getVarint, byte, if_pos one]
  | succ k ih =>
    rw [varint]
    by_cases one : n < 128
    · have byte : (UInt8.ofNat n).toNat = n := UInt8.toNat_ofNat_of_lt' (by rw [UInt8.size]; omega)
      rw [if_pos one, List.singleton_append, getVarint, byte, if_pos one]
    · have byte : (UInt8.ofNat (n % 128 + 128)).toNat = n % 128 + 128 :=
        UInt8.toNat_ofNat_of_lt' (by rw [UInt8.size]; omega)
      have upper : n / 128 < 128 ^ (k + 1) := by
        rw [Nat.div_lt_iff_lt_mul (by decide)]
        exact bound
      rw [if_neg one, List.cons_append, getVarint, byte, if_neg (by omega), ih upper]
      simp only [Option.map_some, Option.some.injEq, Prod.mk.injEq, and_true]
      omega

theorem varint_length_le {n k : ℕ} (bound : n < 128 ^ (k + 1)) : (varint n).length ≤ k + 1 := by
  induction k generalizing n with
  | zero =>
    have one : n < 128 := by simpa using bound
    rw [varint_small one, List.length_singleton]
  | succ k ih =>
    rw [varint]
    split
    · simp
    · have upper : n / 128 < 128 ^ (k + 1) := by
        rw [Nat.div_lt_iff_lt_mul (by decide)]
        exact bound
      exact Nat.succ_le_succ (ih upper)

/-- A word, the low byte first. -/
def wordBytes (w : UInt32) : List UInt8 :=
  [w.toUInt8, (w >>> 8).toUInt8, (w >>> 16).toUInt8, (w >>> 24).toUInt8]

def getWord (text : List UInt8) : UInt32 :=
  UInt32.ofNat ((text.getD 0 0).toNat + 256 * (text.getD 1 0).toNat +
    65536 * (text.getD 2 0).toNat + 16777216 * (text.getD 3 0).toNat)

theorem getWord_wordBytes (w : UInt32) (rest : List UInt8) : getWord (wordBytes w ++ rest) = w := by
  have bound := w.toNat_lt
  have h8 : UInt32.toNat 8 % 32 = 8 := rfl
  have h16 : UInt32.toNat 16 % 32 = 16 := rfl
  have h24 : UInt32.toNat 24 % 32 = 24 := rfl
  apply UInt32.toNat_inj.mp
  simp only [getWord, wordBytes, List.cons_append, List.nil_append, List.getD_cons_zero,
    List.getD_cons_succ, UInt32.toNat_toUInt8, UInt32.toNat_shiftRight, h8, h16, h24,
    Nat.shiftRight_eq_div_pow]
  rw [UInt32.toNat_ofNat_of_lt' (by rw [UInt32.size]; omega)]
  omega

inductive Value where
  | number (n : UInt64)
  | string (s : List UInt8)
  | word (w : UInt32)
  deriving DecidableEq

structure Field where
  key : ℕ
  value : Value
  deriving DecidableEq

def Value.wireType : Value → ℕ
  | number _ => 0
  | string _ => 2
  | word _ => 5

def Value.payload : Value → List UInt8
  | number n => varint n.toNat
  | string s => varint s.length ++ s
  | word w => wordBytes w

def putField (f : Field) : List UInt8 :=
  varint (8 * f.key + f.value.wireType) ++ f.value.payload

def getValue (wireType : ℕ) (text : List UInt8) : Option (Value × List UInt8) :=
  match wireType with
  | 0 => (getVarint 10 text).map fun r => (.number (UInt64.ofNat r.1), r.2)
  | 2 => (getVarint 10 text).bind fun r =>
    if r.1 ≤ r.2.length then some (.string (r.2.take r.1), r.2.drop r.1) else none
  | 5 => if 4 ≤ text.length then some (.word (getWord text), text.drop 4) else none
  | _ => none

def getField (text : List UInt8) : Option (Field × List UInt8) :=
  (getVarint 10 text).bind fun r =>
    (getValue (r.1 % 8) r.2).map fun v => (⟨r.1 / 8, v.1⟩, v.2)

def fieldsUpTo : ℕ → List UInt8 → Option (List Field)
  | _, [] => some []
  | 0, _ :: _ => none
  | k + 1, b :: bs => (getField (b :: bs)).bind fun r => (fieldsUpTo k r.2).map (r.1 :: ·)

/-- All fields of a message. -/
def getFields (text : List UInt8) : Option (List Field) := fieldsUpTo text.length text

/-- A field number, and a length, within the format's bounds. -/
def Field.Valid (f : Field) : Prop :=
  f.key < 2 ^ 29 ∧ ∀ s, f.value = .string s → s.length < 2 ^ 32

theorem getValue_payload {f : Field} (valid : f.Valid) (rest : List UInt8) :
    getValue f.value.wireType (f.value.payload ++ rest) = some (f.value, rest) := by
  obtain ⟨key, value⟩ := f
  cases value with
  | number n =>
    have bound : n.toNat < 128 ^ (9 + 1) := lt_trans n.toNat_lt (by decide)
    simp only [getValue, Value.wireType, Value.payload, getVarint_varint bound, Option.map_some,
      UInt64.ofNat_toNat]
  | string s =>
    have bound : s.length < 128 ^ (9 + 1) := lt_trans (valid.2 s rfl) (by decide)
    simp only [getValue, Value.wireType, Value.payload, List.append_assoc,
      getVarint_varint bound, Option.bind_some]
    rw [if_pos (by rw [List.length_append]; omega), List.take_left, List.drop_left]
  | word w =>
    simp only [getValue, Value.wireType, Value.payload, getWord_wordBytes]
    rw [if_pos (by simp [wordBytes])]
    rfl

theorem getField_putField {f : Field} (valid : f.Valid) (rest : List UInt8) :
    getField (putField f ++ rest) = some (f, rest) := by
  have types : f.value.wireType < 8 := by cases f.value <;> simp [Value.wireType]
  have bound : 8 * f.key + f.value.wireType < 128 ^ (9 + 1) := by
    have := valid.1
    omega
  have keys : (8 * f.key + f.value.wireType) / 8 = f.key := by omega
  have low : (8 * f.key + f.value.wireType) % 8 = f.value.wireType := by omega
  rw [getField, putField, List.append_assoc, getVarint_varint bound, Option.bind_some]
  simp only [low, keys, getValue_payload valid rest, Option.map_some]

theorem putField_ne_nil (f : Field) : putField f ≠ [] :=
  List.append_ne_nil_of_left_ne_nil (varint_ne_nil _) _

theorem fieldsUpTo_putField {f : Field} (valid : f.Valid) {k : ℕ} (rest : List UInt8) :
    fieldsUpTo (k + 1) (putField f ++ rest) = (fieldsUpTo k rest).map (f :: ·) := by
  have read := getField_putField valid rest
  cases text : putField f ++ rest with
  | nil => exact absurd (List.append_eq_nil_iff.mp text).1 (putField_ne_nil f)
  | cons b bs =>
    rw [text] at read
    rw [fieldsUpTo, read, Option.bind_some]

theorem length_le_flatMap (fs : List Field) : fs.length ≤ (fs.flatMap putField).length := by
  induction fs with
  | nil => exact Nat.le_refl 0
  | cons f fs ih =>
    have := List.length_pos_of_ne_nil (putField_ne_nil f)
    rw [List.flatMap_cons, List.length_append, List.length_cons]
    omega

/-- What was written is read back. -/
theorem getFields_putFields {fs : List Field} (valid : ∀ f ∈ fs, f.Valid) :
    getFields (fs.flatMap putField) = some fs := by
  have enough : ∀ k, fs.length ≤ k → fieldsUpTo k (fs.flatMap putField) = some fs := by
    induction fs with
    | nil =>
      intro k _
      cases k <;> rfl
    | cons f fs ih =>
      intro k le
      obtain ⟨k, rfl⟩ : ∃ j, k = j + 1 := ⟨k - 1, by simp at le; omega⟩
      rw [List.flatMap_cons, fieldsUpTo_putField (valid f List.mem_cons_self),
        ih (fun g hg => valid g (List.mem_cons_of_mem f hg)) k (by simpa using le)]
      rfl
  exact enough _ (length_le_flatMap fs)

def Value.number? : Value → Option UInt64
  | number n => some n
  | _ => none

def Value.string? : Value → Option (List UInt8)
  | string s => some s
  | _ => none

def Value.word? : Value → Option UInt32
  | word w => some w
  | _ => none

/-- The last value of a field with the right wire type. -/
def last? {β : Type} (key : ℕ) (pick : Value → Option β) (fs : List Field) : Option β :=
  fs.reverse.findSome? fun f => if f.key = key then pick f.value else none

/-- A field that is left out where it has its default. -/
def unlessDefault (isDefault : Bool) (f : Field) : List Field := if isDefault then [] else [f]

theorem mem_unlessDefault {isDefault : Bool} {f g : Field} :
    g ∈ unlessDefault isDefault f ↔ isDefault = false ∧ g = f := by
  cases isDefault <;> simp [unlessDefault]

section

variable {β : Type} (key : ℕ) (pick : Value → Option β)

@[simp] theorem last?_append (fs gs : List Field) :
    last? key pick (fs ++ gs) = (last? key pick gs).or (last? key pick fs) := by
  rw [last?, List.reverse_append, List.findSome?_append]
  rfl

@[simp] theorem last?_unlessDefault (isDefault : Bool) (f : Field) :
    last? key pick (unlessDefault isDefault f) =
      if isDefault = false ∧ f.key = key then pick f.value else none := by
  cases isDefault <;> simp [last?, unlessDefault]

end

end CspLinksim.Wire
