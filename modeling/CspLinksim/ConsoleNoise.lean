import CspLinksim.JudgeRules

/-!
# Characters lost on the console

A true transcript of the probe loses any of its characters, line ends included. What remains
can be read as a digest of 64 digits that the board did not print.
-/

namespace CspLinksim.ExternalVerdict

/-- What `sha256sum` prints of a file. -/
abbrev Digest := { d : Text // d.length = 64 ∧ ∀ c ∈ d, isLowerHex c = true }

/-- A true transcript: the file asked for, its size unless it is absent, and its digest if it is
printed. -/
structure Transcript where
  dest : Text
  size : Option ℕ
  digest : Option Digest

namespace Transcript

variable (t : Transcript)

def sizeText : Text := (t.size.map (Nat.toDigits 10)).getD []

def statusLine : Text :=
  match t.size with
  | some n => "SIZE".toList ++ Nat.toDigits 10 n
  | none => "SD_NOFILE".toList

def printed : Option Text := t.digest.map Subtype.val

def lines : List Text :=
  ["CANARY_SD_OK".toList, "PATH_".toList ++ t.dest, t.statusLine] ++ t.printed.toList

def text : Text := t.lines.flatMap (· ++ ['\n'])

/-- The hexadecimal digits that are not the digest's. -/
def stray : Text := (t.dest ++ t.sizeText).filter isLowerHex

end Transcript

/-- Noise hides the answer or leaves it as it is, and the judge is not misled. -/
structure HidesOnly (t : Transcript) : Prop where
  hash : ∀ raw, raw.Sublist t.text →
    (runProbe t.dest raw).hash = none ∨ (runProbe t.dest raw).hash = t.printed
  pass : ∀ want args (raws : ℕ → Text), (∀ i, (raws i).Sublist t.text) →
    (cmdJudge want args fun i => runProbe t.dest (raws i)).verdict = .pass → t.printed = some want
  failMismatch : ∀ want args (raws : ℕ → Text), (∀ i, (raws i).Sublist t.text) →
    (cmdJudge want args fun i => runProbe t.dest (raws i)).verdict = .failMismatch →
    t.printed ≠ some want

theorem splitlines_sublist {raw ln : Text} (mem : ln ∈ splitlines raw) : ln.Sublist raw := by
  induction raw using splitlines.induct generalizing ln with
  | case1 => simp [splitlines] at mem
  | case2 s ih =>
    rw [splitlines] at mem
    rcases List.mem_cons.mp mem with rfl | mem
    · exact List.nil_sublist _
    · exact ((ih mem).cons _).cons _
  | case3 c s notCrLf ends ih =>
    rw [splitlines.eq_3 _ _ notCrLf, if_pos ends] at mem
    rcases List.mem_cons.mp mem with rfl | mem
    · exact List.nil_sublist _
    · exact (ih mem).cons _
  | case4 c s notCrLf goes none ih =>
    rw [splitlines.eq_3 _ _ notCrLf, if_neg goes, none] at mem
    obtain rfl := List.mem_singleton.mp mem
    exact (List.nil_sublist s).cons_cons c
  | case5 c s notCrLf goes l ls some ih =>
    rw [splitlines.eq_3 _ _ notCrLf, if_neg goes, some] at mem
    rw [some] at ih
    rcases List.mem_cons.mp mem with rfl | mem
    · exact (ih List.mem_cons_self).cons_cons c
    · exact (ih (List.mem_cons_of_mem l mem)).cons c

theorem ansiSub_sublist (skip : ℕ) (s : Text) : (ansiSub skip s).Sublist s := by
  induction s generalizing skip with
  | nil => cases skip <;> exact List.Sublist.slnil
  | cons c s ih =>
    cases skip with
    | succ skip => exact (ih skip).cons c
    | zero =>
      rw [ansiSub]
      split
      · exact (ih _).cons c
      · exact (ih 0).cons_cons c

theorem cleanLines_sublist {raw ln : Text} (mem : ln ∈ cleanLines raw) : ln.Sublist raw := by
  obtain ⟨l, inside, rfl⟩ := List.mem_map.mp mem
  have stripped := (List.rdropWhile_prefix (· = '\r') (ansiSub 0 l)).sublist
  exact (stripped.trans (ansiSub_sublist 0 l)).trans (splitlines_sublist inside)

theorem hex64_iff (ln : Text) :
    hex64 ln = true ↔ ln.length = 64 ∧ ∀ c ∈ ln, isLowerHex c = true := by
  simp [hex64]

/-- Neither a line end nor an escape. -/
def Plain (ln : Text) : Prop := ∀ c ∈ ln, isLineEnd c = false ∧ c ≠ esc

instance (ln : Text) : Decidable (Plain ln) := List.decidableBAll _ ln

theorem ansiSub_plain {ln : Text} (plain : Plain ln) : ansiSub 0 ln = ln := by
  induction ln with
  | nil => rfl
  | cons c s ih =>
    have keeps : ansiMatch (c :: s) = none := by
      have ne := (plain c List.mem_cons_self).2
      cases s with
      | nil => rfl
      | cons d s =>
        by_cases bracket : d = '['
        · rw [bracket, ansiMatch, if_neg ne]
        · rw [ansiMatch]
          rintro c' s' ⟨-, rfl, -⟩
          exact bracket rfl
    rw [ansiSub, keeps, ih fun d mem => plain d (List.mem_cons_of_mem c mem)]

theorem clean_plain {ln : Text} (plain : Plain ln) : (ansiSub 0 ln).rdropWhile (· = '\r') = ln := by
  rw [ansiSub_plain plain, List.rdropWhile_eq_self_iff]
  intro some last
  have ends := (plain _ (List.getLast_mem some)).1
  rw [of_decide_eq_true last] at ends
  cases ends

theorem splitlines_cons {c : Char} (goes : isLineEnd c = false) (s : Text) :
    splitlines (c :: s) =
      match splitlines s with
      | [] => [[c]]
      | l :: ls => (c :: l) :: ls := by
  have notReturn : ∀ s', c = '\r' → s = '\n' :: s' → False := by
    rintro _ rfl -
    cases goes
  exact (splitlines.eq_3 _ _ notReturn).trans (if_neg (by simp [goes]))

theorem splitlines_plain {ln : Text} (plain : Plain ln) (rest : Text) :
    splitlines (ln ++ '\n' :: rest) = ln :: splitlines rest := by
  induction ln with
  | nil =>
    rw [List.nil_append, splitlines.eq_3 _ _ (by rintro _ ⟨⟩ -), if_pos (by decide)]
  | cons c s ih =>
    rw [List.cons_append, splitlines_cons (plain c List.mem_cons_self).1,
      ih fun d mem => plain d (List.mem_cons_of_mem c mem)]

theorem splitlines_last {ln : Text} (plain : Plain ln) (some : ln ≠ []) : splitlines ln = [ln] := by
  induction ln with
  | nil => exact absurd rfl some
  | cons c s ih =>
    rw [splitlines_cons (plain c List.mem_cons_self).1]
    cases s with
    | nil => rfl
    | cons d s => rw [ih (fun e mem => plain e (List.mem_cons_of_mem c mem)) (by simp)]

theorem lowerHex_plain {c : Char} (hex : isLowerHex c = true) : isLineEnd c = false ∧ c ≠ esc := by
  have range : 0x30 ≤ c.toNat ∧ c.toNat ≤ 0x66 := by
    rcases of_decide_eq_true hex with digit | letter
    · have low : 0x30 ≤ c.toNat := digit.1
      have high : c.toNat ≤ 0x39 := digit.2
      omega
    · have low : 0x61 ≤ c.toNat := letter.1
      have high : c.toNat ≤ 0x66 := letter.2
      omega
  refine ⟨?_, fun escape => ?_⟩
  · simp only [isLineEnd, List.mem_cons, List.not_mem_nil, or_false, decide_eq_false_iff_not]
    omega
  · rw [escape] at range
    revert range
    decide

theorem filter_text (t : Transcript) :
    t.text.filter isLowerHex = t.stray ++ t.printed.getD [] := by
  have status : t.statusLine.filter isLowerHex = t.sizeText.filter isLowerHex := by
    rw [Transcript.statusLine, Transcript.sizeText]
    cases t.size with
    | none => decide
    | some n => simp [isLowerHex]
  have printed : (t.printed.getD []).filter isLowerHex = t.printed.getD [] := by
    rw [Transcript.printed]
    cases t.digest with
    | none => rfl
    | some d => exact List.filter_eq_self.mpr d.2.2
  have marks : "CANARY_SD_OK".toList.filter isLowerHex = [] ∧
      "PATH_".toList.filter isLowerHex = [] ∧ ['\n'].filter isLowerHex = [] := by decide
  have tail : (t.printed.toList.flatMap (· ++ ['\n'])).filter isLowerHex = t.printed.getD [] := by
    rw [← printed]
    cases t.printed with
    | none => rfl
    | some d => simp [marks.2.2]
  rw [Transcript.text, Transcript.lines, List.flatMap_append, List.filter_append, tail]
  simp only [List.flatMap_cons, List.flatMap_nil, List.filter_append, marks, status,
    Transcript.stray, List.nil_append, List.append_nil, List.append_assoc]

/-- Every digit text within the digits of the transcript can be read alone. -/
theorem hash_of_digits (dest : Text) {w : Text} (size : w.length = 64)
    (hex : ∀ c ∈ w, isLowerHex c = true) : (runProbe dest w).hash = some w := by
  have some : w ≠ [] := by
    rintro rfl
    cases size
  have plain : Plain w := fun c mem => lowerHex_plain (hex c mem)
  have lines : cleanLines w = [w] := by
    rw [cleanLines, splitlines_last plain some, List.map_singleton, clean_plain plain]
  rw [runProbe, lines]
  exact List.find?_cons_of_pos ((hex64_iff w).mpr ⟨size, hex⟩)

theorem digits_of_hash {dest raw w : Text} (read : (runProbe dest raw).hash = some w) :
    w.length = 64 ∧ (∀ c ∈ w, isLowerHex c = true) ∧ w.Sublist raw := by
  obtain ⟨size, hex⟩ := (hex64_iff w).mp (List.find?_some read)
  exact ⟨size, hex, cleanLines_sublist (List.mem_of_find?_eq_some read)⟩

/-- The hashes that noise can leave are the texts of 64 among the digits. -/
theorem readable_iff (t : Transcript) (w : Text) :
    (∃ raw, raw.Sublist t.text ∧ (runProbe t.dest raw).hash = some w) ↔
      w.length = 64 ∧ w.Sublist (t.stray ++ t.printed.getD []) := by
  rw [← filter_text]
  constructor
  · rintro ⟨raw, lost, read⟩
    obtain ⟨size, hex, sub⟩ := digits_of_hash read
    refine ⟨size, ?_⟩
    rw [← List.filter_eq_self.mpr hex]
    exact (sub.trans lost).filter _
  · rintro ⟨size, sub⟩
    refine ⟨w, sub.trans List.filter_sublist, hash_of_digits _ size fun c mem => ?_⟩
    exact (List.mem_filter.mp (sub.subset mem)).2

theorem hash_of_answer {as : List Answer} {h : Text} (first : firstHash as = some h) :
    .hash h ∈ as := by
  rcases split_at_hash as with ⟨none, -⟩ | ⟨h', after, some, same⟩
  · rw [none] at first
    cases first
  · obtain rfl := Option.some.inj (some.symm.trans first)
    rw [same]
    simp

theorem hash_of_answerOf {p : Parsed} {h : Text} (answer : answerOf p = some (.hash h)) :
    p.hash = some h := by
  rw [answerOf] at answer
  split at answer
  · split at answer
    · rename_i read
      cases answer
      exact read
    · split at answer <;> cases answer
  · cases answer

/-- A verdict on content is about a hash that was read. -/
theorem judged_hash {want : Text} {args : JudgeArgs} {probe : ℕ → Parsed}
    (judged : (cmdJudge want args probe).verdict = .pass ∨
      (cmdJudge want args probe).verdict = .failMismatch) :
    ∃ i h, (probe i).hash = some h ∧ (cmdJudge want args probe).verdict = compare want h := by
  cases counts : args.excluded with
  | some r =>
    have invalid : (cmdJudge want args probe).verdict = .invalid := by simp [cmdJudge, counts]
    rw [invalid] at judged
    rcases judged with pass | mismatch
    · cases pass
    · cases mismatch
  | none =>
    rw [judge_verdict want args probe counts, ruled_eq want _ 0 (by omega)] at judged ⊢
    split at judged
    · rcases judged with pass | mismatch
      · cases pass
      · cases mismatch
    · rename_i few
      rw [if_neg few]
      cases first : firstHash (answers args probe) with
      | none =>
        rw [first] at judged
        rcases judged with pass | mismatch
        · cases pass
        · cases mismatch
      | some h =>
        obtain ⟨p, asked, answer⟩ := List.mem_filterMap.mp (hash_of_answer first)
        obtain ⟨i, -, rfl⟩ := List.mem_map.mp asked
        exact ⟨i + 1, h, hash_of_answerOf answer, rfl⟩

/-- A judge whose probes are hidden or true is not misled. -/
theorem judge_of_hash {t : Transcript}
    (hides : ∀ raw, raw.Sublist t.text →
      (runProbe t.dest raw).hash = none ∨ (runProbe t.dest raw).hash = t.printed) :
    HidesOnly t := by
  have read (want : Text) (args : JudgeArgs) (raws : ℕ → Text) (lost : ∀ i, (raws i).Sublist t.text)
      (judged : (cmdJudge want args fun i => runProbe t.dest (raws i)).verdict = .pass ∨
        (cmdJudge want args fun i => runProbe t.dest (raws i)).verdict = .failMismatch) :
      ∃ h, t.printed = some h ∧
        (cmdJudge want args fun i => runProbe t.dest (raws i)).verdict = compare want h := by
    obtain ⟨i, h, hash, verdict⟩ := judged_hash judged
    rcases hides (raws i) (lost i) with none | true
    · rw [none] at hash
      cases hash
    · exact ⟨h, true.symm.trans hash, verdict⟩
  refine ⟨hides, fun want args raws lost pass => ?_, fun want args raws lost mismatch same => ?_⟩
  · obtain ⟨h, printed, verdict⟩ := read want args raws lost (Or.inl pass)
    rw [pass, compare] at verdict
    split at verdict
    · rename_i equal
      rw [printed, equal]
    · cases verdict
  · obtain ⟨h, printed, verdict⟩ := read want args raws lost (Or.inr mismatch)
    obtain rfl := Option.some.inj (printed.symm.trans same)
    rw [mismatch, compare, if_pos rfl] at verdict
    cases verdict

/-- A list that moves up by one element without a change is constant. -/
theorem eq_replicate_of_shifted {c : Char} {d : Text} (same : c :: d.dropLast = d) :
    d = List.replicate d.length c := by
  induction d generalizing c with
  | nil => rfl
  | cons a l ih =>
    cases l with
    | nil =>
      obtain ⟨rfl, -⟩ := List.cons.inj same
      rfl
    | cons b l =>
      rw [List.dropLast_cons_cons] at same
      obtain ⟨rfl, rest⟩ := List.cons.inj same
      rw [List.length_cons, List.replicate_succ, ← ih rest]

/-- With one digit before it, a digest that is not constant can be turned into another text. -/
theorem replicate_of_hides {t : Transcript} {d : Digest} (printed : t.digest = some d) {c : Char}
    (mem : c ∈ t.stray) (hides : ∀ raw, raw.Sublist t.text →
      (runProbe t.dest raw).hash = none ∨ (runProbe t.dest raw).hash = t.printed) :
    d.1 = List.replicate 64 c := by
  have given : t.printed = some d.1 := by rw [Transcript.printed, printed]; rfl
  have length : (c :: d.1.dropLast).length = 64 := by
    rw [List.length_cons, List.length_dropLast, d.2.1]
  have inside : (c :: d.1.dropLast).Sublist (t.stray ++ t.printed.getD []) := by
    rw [given]
    exact (List.singleton_sublist.mpr mem).append d.1.dropLast_sublist
  obtain ⟨raw, lost, read⟩ := (readable_iff t _).mpr ⟨length, inside⟩
  rcases hides raw lost with none | true
  · rw [read] at none
    cases none
  · rw [read, given] at true
    have constant := eq_replicate_of_shifted (Option.some.inj true)
    rwa [d.2.1] at constant

/-- Of one character there is one text of each length. -/
theorem eq_of_constant {c : Char} {v w d : Text} (constant : ∀ x ∈ v, x = c)
    (hw : w.Sublist v) (hd : d.Sublist v) (size : w.length = d.length) : w = d := by
  have same : w = List.replicate w.length c :=
    List.eq_replicate_of_mem fun x mem => constant x (hw.subset mem)
  rw [size] at same
  exact same.trans (List.eq_replicate_of_mem fun x mem => constant x (hd.subset mem)).symm

/-- A digest that is each digit before it 64 times makes all of them one. -/
theorem constant_digits {stray : Text} {d : Digest}
    (present : ∀ c ∈ stray, d.1 = List.replicate 64 c) {c : Char} (mem : c ∈ stray) :
    ∀ x ∈ stray ++ d.1, x = c := by
  intro x hx
  rcases List.mem_append.mp hx with early | late
  · have other := (present c mem).symm.trans (present x early)
    exact (List.replicate_right_injective (by decide : (64 : ℕ) ≠ 0) other).symm
  · rw [present c mem] at late
    exact List.eq_of_mem_replicate late

/-- Noise forges nothing exactly if the digits before a digest are those of a constant digest,
or there is no digest and they are too few for one. -/
theorem hides_only_iff (t : Transcript) :
    HidesOnly t ↔
      (∀ d, t.digest = some d → ∀ c ∈ t.stray, d.1 = List.replicate 64 c) ∧
      (t.digest = none → t.stray.length < 64) := by
  constructor
  · intro hides
    refine ⟨fun d printed c mem => replicate_of_hides printed mem hides.hash, fun absent => ?_⟩
    have none : t.printed = none := by rw [Transcript.printed, absent]; rfl
    by_contra many
    have inside : (t.stray.take 64).Sublist (t.stray ++ t.printed.getD []) := by
      rw [none]
      simpa using List.take_sublist 64 t.stray
    obtain ⟨raw, lost, read⟩ := (readable_iff t _).mpr
      ⟨by rw [List.length_take]; omega, inside⟩
    have hidden := hides.hash raw lost
    rw [none, or_self, read] at hidden
    cases hidden
  · rintro ⟨present, absent⟩
    refine judge_of_hash fun raw lost => ?_
    cases read : (runProbe t.dest raw).hash with
    | none => exact Or.inl rfl
    | some w =>
      obtain ⟨size, inside⟩ := (readable_iff t w).mp ⟨raw, lost, read⟩
      refine Or.inr ?_
      cases printed : t.digest with
      | none =>
        have none : t.printed = none := by rw [Transcript.printed, printed]; rfl
        rw [none, Option.getD_none, List.append_nil] at inside
        have few := absent printed
        have long := inside.length_le
        omega
      | some d =>
        have given : t.printed = some d.1 := by rw [Transcript.printed, printed]; rfl
        rw [given, Option.getD_some] at inside
        rw [given]
        congr 1
        by_cases digits : t.stray = []
        · rw [digits, List.nil_append] at inside
          exact inside.eq_of_length (size.trans d.2.1.symm)
        · obtain ⟨c, mem⟩ := List.exists_mem_of_ne_nil _ digits
          exact eq_of_constant (constant_digits (present d printed) mem) inside
            (List.sublist_append_right _ _) (size.trans d.2.1.symm)

theorem sizeText_digit {t : Transcript} {n : ℕ} (size : t.size = some n) :
    ∃ c rest, t.sizeText = c :: rest ∧ isLowerHex c = true := by
  have text : t.sizeText = Nat.toDigits 10 n := by rw [Transcript.sizeText, size]; rfl
  rw [text]
  cases digits : Nat.toDigits 10 n with
  | nil => exact absurd digits (by simp)
  | cons c rest =>
    have digit : c.isDigit = true :=
      Nat.isDigit_of_mem_toDigits (b := 10) (n := n) (by decide) (by decide) (by simp [digits])
    refine ⟨c, rest, rfl, ?_⟩
    have range := Char.isDigit_iff_toNat.mp digit
    exact decide_eq_true (Or.inl range)

def canaryLine : Text := "CANARY_SD_OK".toList

def pathLine (dest : Text) : Text := "PATH_".toList ++ dest

/-- A canary line, a path line and digits. -/
def threeLines (dest w : Text) : Text := canaryLine ++ '\n' :: (pathLine dest ++ '\n' :: w)

theorem canaryLine_plain : Plain canaryLine := by decide

theorem pathLine_plain {dest : Text} (plain : Plain dest) : Plain (pathLine dest) := by
  have mark : Plain "PATH_".toList := by decide
  intro c mem
  exact (List.mem_append.mp mem).elim (mark c) (plain c)

/-- The lines before the digits are not digits themselves. -/
theorem hex64_pathLine (dest : Text) : hex64 (pathLine dest) = false := by
  rw [← Bool.not_eq_true, hex64_iff]
  rintro ⟨-, all⟩
  have mark := all 'P' (List.mem_append_left dest (by decide))
  revert mark
  decide

theorem cleanLines_threeLines {dest w : Text} (plain : Plain dest) (digest : hex64 w = true) :
    cleanLines (threeLines dest w) = [canaryLine, pathLine dest, w] := by
  obtain ⟨length, hex⟩ := (hex64_iff w).mp digest
  have digits : Plain w := fun x mem => lowerHex_plain (hex x mem)
  have some : w ≠ [] := List.ne_nil_of_length_pos (by omega)
  rw [cleanLines, threeLines, splitlines_plain canaryLine_plain,
    splitlines_plain (pathLine_plain plain), splitlines_last digits some]
  simp only [List.map_cons, List.map_nil, clean_plain canaryLine_plain,
    clean_plain (pathLine_plain plain), clean_plain digits]

/-- Such a transcript has its third line for a hash. -/
theorem runProbe_threeLines {dest w : Text} (plain : Plain dest) (digest : hex64 w = true) :
    (runProbe dest (threeLines dest w)).canary = true ∧
      (runProbe dest (threeLines dest w)).pathOk = true ∧
      (runProbe dest (threeLines dest w)).hash = some w := by
  have lines := cleanLines_threeLines plain digest
  refine ⟨?_, ?_, ?_⟩
  · simp only [runProbe, lines]
    exact decide_eq_true List.mem_cons_self
  · simp only [runProbe, lines]
    exact List.any_eq_true.mpr ⟨pathLine dest, by simp, decide_eq_true List.infix_rfl⟩
  · have canary : hex64 canaryLine = false := by decide
    simp only [runProbe, lines, List.find?_cons, canary, hex64_pathLine, digest]

/-- The first digit of the size and the digest without its last, with the lines before them. -/
theorem threeLines_sublist {t : Transcript} {n : ℕ} {d : Digest} (size : t.size = some n)
    (printed : t.digest = some d) {c : Char} {rest : Text} (digits : t.sizeText = c :: rest) :
    (threeLines t.dest (c :: d.1.dropLast)).Sublist t.text := by
  have given : t.printed = some d.1 := by rw [Transcript.printed, printed]; rfl
  have status : t.statusLine = "SIZE".toList ++ (c :: rest) := by
    rw [← digits, Transcript.statusLine, Transcript.sizeText, size]
    rfl
  have first : [c].Sublist t.statusLine := by
    rw [status]
    simp
  have others : d.1.dropLast.Sublist ('\n' :: (d.1 ++ ['\n'])) :=
    (d.1.dropLast_sublist.trans (List.sublist_append_left _ _)).cons _
  have last : (c :: d.1.dropLast).Sublist (t.statusLine ++ '\n' :: (d.1 ++ ['\n'])) :=
    first.append others
  have text : t.text = canaryLine ++ '\n' :: (pathLine t.dest ++ '\n' ::
      (t.statusLine ++ '\n' :: (d.1 ++ ['\n']))) := by
    have lines : t.lines = [canaryLine, pathLine t.dest, t.statusLine, d.1] := by
      rw [Transcript.lines, given]
      rfl
    rw [Transcript.text, lines]
    simp only [List.flatMap_cons, List.flatMap_nil, List.append_assoc, List.singleton_append,
      List.append_nil]
  rw [text, threeLines]
  exact (List.Sublist.refl _).append
    (((List.Sublist.refl _).append (last.cons_cons _)).cons_cons _)

/-- Of a file that is there, a transcript that has lost the end of its size line can be read
as a digest that the board did not print, with the canary and the path line whole. -/
theorem forged_mismatch {t : Transcript} {n : ℕ} {d : Digest} (size : t.size = some n)
    (printed : t.digest = some d) (plain : Plain t.dest) (varied : ∀ c, d.1 ≠ List.replicate 64 c) :
    ∃ raw, raw.Sublist t.text ∧ (runProbe t.dest raw).canary = true ∧
      (runProbe t.dest raw).pathOk = true ∧
      (cmdJudge d.1 ⟨none, 1⟩ fun _ => runProbe t.dest raw).verdict = .failMismatch := by
  obtain ⟨c, rest, digits, hex⟩ := sizeText_digit size
  have digest : hex64 (c :: d.1.dropLast) = true := by
    refine (hex64_iff _).mpr ⟨?_, fun x mem => ?_⟩
    · rw [List.length_cons, List.length_dropLast, d.2.1]
    · rcases List.mem_cons.mp mem with rfl | mem
      · exact hex
      · exact d.2.2 x (d.1.dropLast_sublist.subset mem)
  have differs : c :: d.1.dropLast ≠ d.1 := by
    intro same
    have constant := eq_replicate_of_shifted same
    rw [d.2.1] at constant
    exact varied c constant
  obtain ⟨canary, path, read⟩ := runProbe_threeLines plain digest
  refine ⟨_, threeLines_sublist size printed digits, canary, path, ?_⟩
  simp [cmdJudge, JudgeArgs.maxProbes, JudgeArgs.excluded, probeLoop, canary, path, read, differs]

/-- The digest of the example: 63 zeros and an `a`. -/
def sampleDigest : Digest := 
  ⟨List.replicate 63 '0' ++ ['a'], by decide, List.all_eq_true.mp (by decide)⟩

/-- A size of 1 and a digest that has lost its `a` are read as another digest. -/
theorem size_joins_digest :
    let t : Transcript := ⟨"/d".toList, some 1, some sampleDigest⟩
    let raw := "CANARY_SD_OK\nPATH_/d\n1".toList ++ List.replicate 63 '0'
    raw.Sublist t.text ∧
      runProbe t.dest raw = ⟨true, true, some ('1' :: List.replicate 63 '0'), none, false⟩ ∧
      (cmdJudge sampleDigest.1 ⟨none, 1⟩ fun _ => runProbe t.dest raw).verdict = .failMismatch ∧
      ¬ HidesOnly t := by
  have read : runProbe "/d".toList ("CANARY_SD_OK\nPATH_/d\n1".toList ++ List.replicate 63 '0') =
      ⟨true, true, some ('1' :: List.replicate 63 '0'), none, false⟩ := by decide +kernel
  have lost : ("CANARY_SD_OK\nPATH_/d\n1".toList ++ List.replicate 63 '0').Sublist
      (Transcript.text ⟨"/d".toList, some 1, some sampleDigest⟩) := by decide +kernel
  refine ⟨lost, read, ?_, fun hides => ?_⟩
  · simp only [read]
    decide +kernel
  · have hidden := hides.hash _ lost
    simp only [read] at hidden
    revert hidden
    decide +kernel

end CspLinksim.ExternalVerdict
