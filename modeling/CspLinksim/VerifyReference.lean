import CspLinksim.Verify

/-!
# What `verify` takes for a reference

A reference denotes a value if it is 64 hexadecimal digits. The command looks at 64 characters
of it, and at a manifest in pieces of 511 bytes.
-/

namespace CspLinksim.Verify

open TextScan Sha256

def nibble (c : UInt8) : ℕ :=
  if c ≤ 0x39 then c.toNat - 0x30 else if 0x61 ≤ c then c.toNat - 0x57 else c.toNat - 0x37

/-- Four bits for each digit. -/
def hexValue (digits : List UInt8) : List Bool :=
  digits.flatMap fun c => Fips180.ofWord (BitVec.ofNat 4 (nibble c))

/-- The digits are a SHA-256 value, and the one of the content. -/
structure Denotes (digits content : List UInt8) : Prop where
  length : digits.length = 64
  hex : ∀ c ∈ digits, isHex c = true
  value : hexValue digits = Fips180.sha256 (Fips180.ofBytes content)

/-- A property of bytes that holds of 256 numbers. -/
theorem forall_byte {p : UInt8 → Prop} (h : ∀ n < 256, p (UInt8.ofNat n)) (c : UInt8) : p c := by
  have at_c := h c.toNat c.toNat_lt
  rwa [UInt8.ofNat_toNat] at at_c

theorem isHex_tolower (c : UInt8) : isHex (tolower c) = isHex c := by
  revert c
  exact forall_byte (by decide +kernel)

theorem hx_nibble (c : UInt8) :
    isHex c = true → hx (UInt8.ofNat (nibble c)) = tolower c ∧ nibble c < 16 := by
  revert c
  exact forall_byte (by decide +kernel)

theorem nibble_tolower (c : UInt8) : isHex c = true → nibble (tolower c) = nibble c := by
  revert c
  exact forall_byte (by decide +kernel)

/-- The two digits of a byte. -/
theorem hx_byte (b : UInt8) :
    (isHex (hx (b >>> 4)) = true ∧ isHex (hx (b &&& 0x0F)) = true) ∧
      (tolower (hx (b >>> 4)) = hx (b >>> 4) ∧ tolower (hx (b &&& 0x0F)) = hx (b &&& 0x0F)) ∧
      hexValue [hx (b >>> 4), hx (b &&& 0x0F)] = Fips180.ofWord b.toBitVec := by
  revert b
  exact forall_byte (by decide +kernel)

theorem hexText_spec (digest : List UInt8) :
    (hexText digest).length = 2 * digest.length ∧ (∀ c ∈ hexText digest, isHex c = true) ∧
      (hexText digest).map tolower = hexText digest ∧
      hexValue (hexText digest) = Fips180.ofBytes digest := by
  induction digest with
  | nil => exact ⟨rfl, by simp [hexText], rfl, rfl⟩
  | cons b digest ih =>
    obtain ⟨length, hex, lower, value⟩ := ih
    obtain ⟨⟨hex₁, hex₂⟩, ⟨lower₁, lower₂⟩, byte⟩ := hx_byte b
    have text : hexText (b :: digest) = [hx (b >>> 4), hx (b &&& 0x0F)] ++ hexText digest := rfl
    rw [text]
    refine ⟨?_, ?_, ?_, ?_⟩
    · rw [List.length_append, length, List.length_cons]
      simp only [List.length_cons, List.length_nil]
      omega
    · intro c mem
      rcases List.mem_append.mp mem with first | rest
      · simp only [List.mem_cons, List.not_mem_nil, or_false] at first
        rcases first with rfl | rfl
        · exact hex₁
        · exact hex₂
      · exact hex c rest
    · rw [List.map_append, lower, List.map_cons, List.map_cons, List.map_nil, lower₁, lower₂]
    · rw [hexValue, List.flatMap_append]
      exact congrArg₂ (· ++ ·) byte value

theorem hexValue_tolower {digits : List UInt8} (hex : ∀ c ∈ digits, isHex c = true) :
    hexValue (digits.map tolower) = hexValue digits := by
  rw [hexValue, hexValue, List.flatMap_map]
  apply List.flatMap_congr
  intro c mem
  rw [nibble_tolower c (hex c mem)]

/-- Digits with one value are the same but for their case. -/
theorem tolower_of_value {xs ys : List UInt8} (hexX : ∀ c ∈ xs, isHex c = true)
    (hexY : ∀ c ∈ ys, isHex c = true) (length : xs.length = ys.length)
    (value : hexValue xs = hexValue ys) : xs.map tolower = ys.map tolower := by
  induction xs generalizing ys with
  | nil =>
    cases ys with
    | nil => rfl
    | cons y ys => cases length
  | cons x xs ih =>
    cases ys with
    | nil => cases length
    | cons y ys =>
      obtain ⟨digit, rest⟩ := List.append_inj value
        (by rw [Fips180.length_ofWord, Fips180.length_ofWord])
      obtain ⟨hx₁, small₁⟩ := hx_nibble x (hexX x List.mem_cons_self)
      obtain ⟨hx₂, small₂⟩ := hx_nibble y (hexY y List.mem_cons_self)
      have same : nibble x = nibble y := by
        have number := congrArg Fips180.toNat digit
        rw [Fips180.toNat_ofWord, Fips180.toNat_ofWord, BitVec.toNat_ofNat, BitVec.toNat_ofNat,
          Nat.mod_eq_of_lt small₁, Nat.mod_eq_of_lt small₂] at number
        exact number
      rw [List.map_cons, List.map_cons, ← hx₁, ← hx₂, same,
        ih (fun c mem => hexX c (List.mem_cons_of_mem x mem))
          (fun c mem => hexY c (List.mem_cons_of_mem y mem)) (Nat.succ.inj length) rest]

/-- The comparison of the command. -/
theorem matches_iff (want content : List UInt8) :
    strcasecmpEq (hexText (sha256 content)) want = true ↔ Denotes want content := by
  obtain ⟨length, hex, lower, value⟩ := hexText_spec (sha256 content)
  rw [sha256_length] at length
  rw [sha256_standard] at value
  rw [strcasecmpEq, decide_eq_true_eq]
  constructor
  · intro same
    have hexWant : ∀ c ∈ want, isHex c = true := by
      intro c mem
      have lowered : tolower c ∈ hexText (sha256 content) := by
        rw [← lower, same]
        exact List.mem_map_of_mem mem
      rw [← isHex_tolower]
      exact hex _ lowered
    refine ⟨?_, hexWant, ?_⟩
    · have lengths := congrArg List.length same
      rw [List.length_map, List.length_map] at lengths
      omega
    · rw [← hexValue_tolower hexWant, ← same, lower, value]
  · intro denotes
    exact tolower_of_value hex denotes.hex (length.trans denotes.length.symm)
      (value.trans denotes.value.symm)

/-- The digits behind the marker at `q` and its blanks. -/
def digitsAt (text : List UInt8) (q : ℕ) : List UInt8 := field isBlank isHex (text.drop (q + 7))

/-- 64 of them are in the piece that the marker is in. -/
def Shown (text : List UInt8) (q : ℕ) : Prop :=
  64 ≤ (digitsAt text q).length ∧
    Within cstr (fgets 511 text) q (7 + blanks isBlank (text.drop (q + 7)) + 64)

theorem fgets_flatten (room : ℕ) (text : List UInt8) : (fgets room text).flatten = text := by
  induction text generalizing room with
  | nil => rfl
  | cons c s ih =>
    rw [fgets]
    split
    · rw [List.flatten_cons, ih, List.singleton_append]
    · have rest := ih (room - 1)
      split
      · rename_i none
        rw [none] at rest
        rw [← rest]
        rfl
      · rename_i l ls some
        rw [some, List.flatten_cons] at rest
        rw [List.flatten_cons, List.cons_append, rest]

theorem cstr_prefix (line : List UInt8) : cstr line <+: line := List.takeWhile_prefix _

theorem marker_ne_nil : marker ≠ [] := by decide

theorem read_iff (text want : List UInt8) :
    verifyReadManifestSha text = some want ↔
      ∃ q, SeenFirst marker cstr (fgets 511 text) q ∧ Shown text q ∧
        want = (digitsAt text q).take 64 := by
  rw [verifyReadManifestSha]
  cases found : (fgets 511 text).findSome? (fun line => strstr marker (cstr line)) with
  | none =>
    have unseen := findSome_eq_none marker_ne_nil cstr_prefix found
    constructor
    · intro read
      cases read
    · rintro ⟨q, seen, -⟩
      exact absurd seen.1 (unseen q)
  | some s =>
    obtain ⟨q, seen, behind, span⟩ := findSome_eq_some marker_ne_nil cstr_prefix found
    rw [fgets_flatten] at behind
    have tail : s.drop 7 <+: text.drop (q + 7) := by
      rw [← List.drop_drop]
      exact behind.drop 7
    obtain ⟨enough, same⟩ := field_prefix isBlank isHex tail (n := 64) (by decide)
    have shown : 64 ≤ (field isBlank isHex (s.drop 7)).length ↔ Shown text q := by
      rw [enough, Shown, span _ (by omega), List.length_drop, digitsAt]
      omega
    have full : ((field isBlank isHex (s.drop 7)).take 64).length = 64 ↔ Shown text q := by
      rw [← shown, List.length_take]
      omega
    constructor
    · intro read
      simp only at read
      split at read
      · rename_i long
        have inside := full.mp long
        exact ⟨q, seen, inside, by rw [← Option.some.inj read, same (shown.mpr inside), digitsAt]⟩
      · cases read
    · rintro ⟨q', seen', inside, rfl⟩
      obtain rfl := seen.unique seen'
      simp only
      rw [if_pos (full.mpr inside), same (shown.mpr inside), digitsAt]

inductive Reference where
  | expected (e : CString)
  | manifest (text : List UInt8)

namespace Reference

/-- The command is given this reference; `-e` goes before `-c`. -/
def GivenTo : Reference → Args → Prop
  | .expected e, a => a.expected = some e
  | .manifest text, a => a.expected = none ∧ a.manifest = some (some text)

/-- The reference denotes the digest of the content. -/
def DenotesDigest : Reference → List UInt8 → Prop
  | .expected e, content => Denotes e.1 content
  | .manifest text, content => ∃ q, FirstAt marker text q ∧ Denotes (digitsAt text q) content

/-- Behind the first marker that lies in one piece are 64 digits of the digest, in that piece. -/
def SeenDigest (text content : List UInt8) : Prop :=
  ∃ q, SeenFirst marker cstr (fgets 511 text) q ∧ Shown text q ∧
    Denotes ((digitsAt text q).take 64) content

/-- The references that are misread: with digits behind a right beginning, with the end of a
piece before the 64th digit, and with the end of a piece in the marker, where the next marker
is read instead of a right reference or of a wrong one. -/
inductive Misread : Reference → List UInt8 → Prop where
  | longArgument {e content} : 64 < e.1.length → Denotes (e.1.take 64) content →
    Misread (.expected e) content
  | longRun {text content q} : FirstAt marker text q → Shown text q →
    64 < (digitsAt text q).length → Denotes ((digitsAt text q).take 64) content →
    Misread (.manifest text) content
  | cutDigits {text content q} : FirstAt marker text q → SeenAt marker cstr (fgets 511 text) q →
    ¬ Shown text q → Denotes (digitsAt text q) content → Misread (.manifest text) content
  | cutMarker {text content q} : FirstAt marker text q → ¬ SeenAt marker cstr (fgets 511 text) q →
    Denotes (digitsAt text q) content → ¬ SeenDigest text content →
    Misread (.manifest text) content
  | nextMarker {text content q} : FirstAt marker text q →
    ¬ SeenAt marker cstr (fgets 511 text) q → ¬ Denotes (digitsAt text q) content →
    SeenDigest text content → Misread (.manifest text) content

end Reference

theorem firstAt_of_seenFirst {text : List UInt8} {q : ℕ}
    (seen : SeenFirst marker cstr (fgets 511 text) q) : OccursAt marker text q := by
  have occurs := seen.1.1
  rwa [fgets_flatten] at occurs

/-- A first marker that is seen is the first one seen. -/
theorem seenFirst_of_firstAt {text : List UInt8} {q : ℕ} (first : FirstAt marker text q)
    (seen : SeenAt marker cstr (fgets 511 text) q) : SeenFirst marker cstr (fgets 511 text) q := by
  refine ⟨seen, fun q' lt seen' => first.2 q' lt ?_⟩
  have occurs := seen'.1
  rwa [fgets_flatten] at occurs

theorem seen_of_shown {text : List UInt8} {q : ℕ} (first : FirstAt marker text q)
    (shown : Shown text q) : SeenAt marker cstr (fgets 511 text) q := by
  refine ⟨?_, shown.2.mono ?_⟩
  · rw [fgets_flatten]
    exact first.1
  · have seven : marker.length = 7 := rfl
    omega

theorem seenDigest_iff {text content : List UInt8} {q : ℕ}
    (seen : SeenFirst marker cstr (fgets 511 text) q) :
    Reference.SeenDigest text content ↔
      Shown text q ∧ Denotes ((digitsAt text q).take 64) content := by
  constructor
  · rintro ⟨q', seen', shown, denotes⟩
    obtain rfl := seen.unique seen'
    exact ⟨shown, denotes⟩
  · rintro ⟨shown, denotes⟩
    exact ⟨q, seen, shown, denotes⟩

theorem denotes_take {digits content : List UInt8} (short : digits.length ≤ 64) :
    Denotes (digits.take 64) content ↔ Denotes digits content := by
  rw [List.take_of_length_le short]

/-- The four layouts, of the one first marker. -/
theorem misread_iff {text content : List UInt8} {q : ℕ} (first : FirstAt marker text q) :
    Reference.Misread (.manifest text) content ↔
      (Shown text q ∧ 64 < (digitsAt text q).length ∧
        Denotes ((digitsAt text q).take 64) content) ∨
      (SeenAt marker cstr (fgets 511 text) q ∧ ¬ Shown text q ∧
        Denotes (digitsAt text q) content) ∨
      (¬ SeenAt marker cstr (fgets 511 text) q ∧
        Denotes (digitsAt text q) content ∧ ¬ Reference.SeenDigest text content) ∨
      (¬ SeenAt marker cstr (fgets 511 text) q ∧
        ¬ Denotes (digitsAt text q) content ∧ Reference.SeenDigest text content) := by
  constructor
  · rintro (- | ⟨first', shown, long, denotes⟩ | ⟨first', seen, unshown, denotes⟩ |
      ⟨first', unseen, denotes, other⟩ | ⟨first', unseen, wrong, other⟩)
    · obtain rfl := first.unique first'
      exact Or.inl ⟨shown, long, denotes⟩
    · obtain rfl := first.unique first'
      exact Or.inr (Or.inl ⟨seen, unshown, denotes⟩)
    · obtain rfl := first.unique first'
      exact Or.inr (Or.inr (Or.inl ⟨unseen, denotes, other⟩))
    · obtain rfl := first.unique first'
      exact Or.inr (Or.inr (Or.inr ⟨unseen, wrong, other⟩))
  · rintro (⟨shown, long, denotes⟩ | ⟨seen, unshown, denotes⟩ | ⟨unseen, denotes, other⟩ |
      ⟨unseen, wrong, other⟩)
    · exact .longRun first shown long denotes
    · exact .cutDigits first seen unshown denotes
    · exact .cutMarker first unseen denotes other
    · exact .nextMarker first unseen wrong other

theorem denotesDigest_iff {text content : List UInt8} {q : ℕ} (first : FirstAt marker text q) :
    Reference.DenotesDigest (.manifest text) content ↔ Denotes (digitsAt text q) content := by
  constructor
  · rintro ⟨q', first', denotes⟩
    obtain rfl := first.unique first'
    exact denotes
  · exact fun denotes => ⟨q, first, denotes⟩

/-- A manifest is read right exactly if it is in none of the layouts. -/
theorem manifest_right_iff (text content : List UInt8) :
    (Reference.SeenDigest text content ↔ Reference.DenotesDigest (.manifest text) content) ↔
      ¬ Reference.Misread (.manifest text) content := by
  by_cases marked : ∃ q, OccursAt marker text q
  · obtain ⟨q', occurs⟩ := marked
    obtain ⟨q, -, first⟩ := exists_firstAt occurs
    rw [misread_iff first, denotesDigest_iff first]
    by_cases seen : SeenAt marker cstr (fgets 511 text) q
    · rw [seenDigest_iff (seenFirst_of_firstAt first seen)]
      by_cases shown : Shown text q
      · rcases Nat.lt_or_ge 64 (digitsAt text q).length with long | short
        · have no : ¬ Denotes (digitsAt text q) content := fun denotes => by
            have length := denotes.length
            omega
          simp [seen, shown, long, no]
        · rw [denotes_take short]
          simp [seen, shown, not_lt.mpr short]
      · simp [seen, shown]
    · have unshown : ¬ Shown text q := fun shown => seen (seen_of_shown first shown)
      simp only [seen, unshown, not_false_eq_true, false_and, true_and, false_or]
      tauto
  · have none (q : ℕ) : ¬ OccursAt marker text q := fun occurs => marked ⟨q, occurs⟩
    constructor
    · rintro - (- | ⟨first, -⟩ | ⟨first, -⟩ | ⟨first, -⟩ | ⟨first, -⟩) <;>
        exact none _ first.1
    · intro _
      constructor
      · rintro ⟨q, seen, -⟩
        exact absurd (firstAt_of_seenFirst seen) (none q)
      · rintro ⟨q, first, -⟩
        exact absurd first.1 (none q)

/-- An argument is read right exactly if nothing follows a digest in it. -/
theorem argument_right_iff (e : CString) (content : List UInt8) :
    (Denotes (e.1.take 64) content ↔ Reference.DenotesDigest (.expected e) content) ↔
      ¬ Reference.Misread (.expected e) content := by
  have misread : Reference.Misread (.expected e) content ↔
      64 < e.1.length ∧ Denotes (e.1.take 64) content := by
    constructor
    · rintro ⟨long, denotes⟩
      exact ⟨long, denotes⟩
    · rintro ⟨long, denotes⟩
      exact .longArgument long denotes
  rw [misread, Reference.DenotesDigest]
  rcases Nat.lt_or_ge 64 e.1.length with long | short
  · have no : ¬ Denotes e.1 content := fun denotes => by
      have length := denotes.length
      omega
    simp [long, no]
  · rw [denotes_take short]
    simp [not_lt.mpr short]

theorem ciSha256File_text (reads : List (List UInt8)) :
    ∃ nbytes, ciSha256File (some reads) = some (hexText (sha256 reads.flatten), nbytes) := by
  have fed : reads.foldl ciSha256Update ciSha256Init = ciSha256Update ciSha256Init reads.flatten :=
    List.foldl_flatten.symm
  refine ⟨reads.foldl (fun n buf => n + UInt64.ofNat buf.length) 0, ?_⟩
  rw [ciSha256File, Option.map_some, fed]
  rfl

theorem ok_iff (a : Args) (want got : List UInt8) (nbytes : UInt64) :
    Line.ok ∈ verdictLines a want got nbytes ↔ strcasecmpEq got want = true := by
  rw [verdictLines]
  split
  · rename_i same
    simp [same]
  · rename_i differ
    cases a.reported <;> cases a.verbose <;> simp [differ]

theorem reference_error {a : Args} {line : Line} (fails : reference a = .error line) :
    line ≠ .ok := by
  rintro rfl
  rw [reference] at fails
  split at fails
  · cases fails
  · split at fails <;> cases fails
  · cases fails

/-- What the command prints of a reference it is given and a file it can read. -/
theorem prints_ok_iff {a : Args} (parses : a.parses = true) (hasFile : a.hasFile = true)
    (reads : List (List UInt8)) :
    Line.ok ∈ (verifyCmd a (some reads)).1 ↔
      ∃ want, reference a = .ok want ∧ Denotes want reads.flatten := by
  obtain ⟨nbytes, hashed⟩ := ciSha256File_text reads
  rw [verifyCmd, if_neg (not_not.mpr parses), if_neg (not_not.mpr hasFile), hashed]
  cases given : reference a with
  | error line =>
    have other := reference_error given
    simp [other.symm]
  | ok want => simp [ok_iff, matches_iff]

/-- The reference given, as the command reads it. -/
theorem reference_reads {a : Args} {r : Reference} (gives : r.GivenTo a) (content : List UInt8) :
    (∃ want, reference a = .ok want ∧ Denotes want content) ↔
      match r with
      | .expected e => Denotes (e.1.take 64) content
      | .manifest text => Reference.SeenDigest text content := by
  cases r with
  | expected e =>
    have given : reference a = .ok (e.1.take 64) := by
      have gives : a.expected = some e := gives
      rw [reference, gives]
    simp [given]
  | manifest text =>
    obtain ⟨none, gives⟩ := gives
    constructor
    · rintro ⟨want, given, denotes⟩
      rw [reference, none, gives] at given
      cases read : verifyReadManifestSha text with
      | none => simp [read] at given
      | some w =>
        obtain rfl : w = want := by simpa [read] using given
        obtain ⟨q, seen, shown, rfl⟩ := (read_iff text w).mp read
        exact ⟨q, seen, shown, denotes⟩
    · rintro ⟨q, seen, shown, denotes⟩
      refine ⟨_, ?_, denotes⟩
      have read := (read_iff text _).mpr ⟨q, seen, shown, rfl⟩
      rw [reference, none, gives]
      simp [read]

/-- `verify` prints OK exactly for the references that denote the digest of the file, unless the
reference is in one of the layouts that are misread. -/
theorem verify_right_iff {a : Args} (parses : a.parses = true) (hasFile : a.hasFile = true)
    {r : Reference} (gives : r.GivenTo a) (reads : List (List UInt8)) :
    (Line.ok ∈ (verifyCmd a (some reads)).1 ↔ r.DenotesDigest reads.flatten) ↔
      ¬ r.Misread reads.flatten := by
  rw [prints_ok_iff parses hasFile, reference_reads gives]
  cases r with
  | expected e => exact argument_right_iff e reads.flatten
  | manifest text => exact manifest_right_iff text reads.flatten

/-- The characters of a text. -/
def ascii (s : String) : List UInt8 := s.toList.map fun c => UInt8.ofNat c.toNat

/-- The digest of an empty file. -/
def emptyDigest : List UInt8 :=
  ascii "e3b0c44298fc1c149afbf4c8996fb92427ae41e4649b934ca495991b7852b855"

/-- The digest of an empty file against an empty file. -/
theorem verify_right_empty :
    (Line.ok ∈ (verifyCmd ⟨true, true, none, some ⟨emptyDigest, by decide +kernel⟩, none, false⟩
        (some [])).1 ↔
      Reference.DenotesDigest (.expected ⟨emptyDigest, by decide +kernel⟩) []) ↔
      ¬ Reference.Misread (.expected ⟨emptyDigest, by decide +kernel⟩) [] :=
  @verify_right_iff ⟨true, true, none, some ⟨emptyDigest, by decide +kernel⟩, none, false⟩ rfl rfl
    (.expected ⟨emptyDigest, by decide +kernel⟩) rfl []

/-- A digit more is not noticed. -/
theorem long_argument_is_ok :
    Line.ok ∈ (verifyCmd ⟨true, true, none,
        some ⟨emptyDigest ++ ascii "0", by decide +kernel⟩, none, false⟩ (some [])).1 ∧
      ¬ Reference.DenotesDigest (.expected ⟨emptyDigest ++ ascii "0", by decide +kernel⟩) [] := by
  refine ⟨by decide +kernel, fun denotes => ?_⟩
  have length : (emptyDigest ++ ascii "0").length = 64 := Denotes.length denotes
  revert length
  decide +kernel

end CspLinksim.Verify
