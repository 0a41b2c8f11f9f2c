import Mathlib.Data.List.Infix
import Mathlib.Data.List.TakeWhile

/-!
# Searching a text that is read in pieces

The first occurrence of a pattern, in a text and in the parts of its pieces that a reader sees,
and a field read from a text of which only a beginning is seen.
-/

namespace CspLinksim.TextScan

variable {α : Type*}

def OccursAt (needle text : List α) (q : ℕ) : Prop := needle <+: text.drop q

def FirstAt (needle text : List α) (q : ℕ) : Prop :=
  OccursAt needle text q ∧ ∀ q' < q, ¬ OccursAt needle text q'

theorem OccursAt.fits {needle text : List α} (ne : needle ≠ []) {q : ℕ}
    (occurs : OccursAt needle text q) : q + needle.length ≤ text.length := by
  have pos := List.length_pos_of_ne_nil ne
  have le := List.IsPrefix.length_le occurs
  rw [List.length_drop] at le
  omega

/-- The least number with a property is one. -/
theorem least_unique {p : ℕ → Prop} {q q' : ℕ} (h : p q ∧ ∀ r < q, ¬ p r)
    (h' : p q' ∧ ∀ r < q', ¬ p r) : q = q' := by
  rcases lt_trichotomy q q' with lt | same | gt
  · exact absurd h.1 (h'.2 q lt)
  · exact same
  · exact absurd h'.1 (h.2 q' gt)

theorem FirstAt.unique {needle text : List α} {q q' : ℕ} (h : FirstAt needle text q)
    (h' : FirstAt needle text q') : q = q' := least_unique h h'

theorem exists_firstAt {needle text : List α} {q : ℕ} (occurs : OccursAt needle text q) :
    ∃ q' ≤ q, FirstAt needle text q' := by
  induction q using Nat.strong_induction_on with
  | _ q ih =>
    by_cases earlier : ∃ q' < q, OccursAt needle text q'
    · obtain ⟨q', lt, occurs'⟩ := earlier
      obtain ⟨r, le, first⟩ := ih q' lt occurs'
      exact ⟨r, by omega, first⟩
    · exact ⟨q, le_rfl, occurs, fun q' lt occurs' => earlier ⟨q', lt, occurs'⟩⟩

section pieces

variable {needle : List α} {part : List α → List α}

/-- The `n` elements from `q` on lie in the part seen of one piece. -/
def Within (part : List α → List α) (pieces : List (List α)) (q n : ℕ) : Prop :=
  ∃ before piece after, pieces = before ++ piece :: after ∧ before.flatten.length ≤ q ∧
    q + n ≤ before.flatten.length + (part piece).length

/-- An occurrence in the part seen of one piece. -/
def SeenAt (needle : List α) (part : List α → List α) (pieces : List (List α)) (q : ℕ) : Prop :=
  OccursAt needle pieces.flatten q ∧ Within part pieces q needle.length

def SeenFirst (needle : List α) (part : List α → List α) (pieces : List (List α)) (q : ℕ) : Prop :=
  SeenAt needle part pieces q ∧ ∀ q' < q, ¬ SeenAt needle part pieces q'

theorem SeenFirst.unique {pieces : List (List α)} {q q' : ℕ}
    (h : SeenFirst needle part pieces q) (h' : SeenFirst needle part pieces q') : q = q' :=
  least_unique h h'

theorem Within.mono {pieces : List (List α)} {q m n : ℕ} (le : m ≤ n)
    (within : Within part pieces q n) : Within part pieces q m := by
  obtain ⟨before, piece, after, same, low, high⟩ := within
  exact ⟨before, piece, after, same, low, by omega⟩

theorem not_within_nil (q n : ℕ) : ¬ Within part [] q n := by
  rintro ⟨before, piece, after, same, -, -⟩
  simp at same

theorem within_cons (l : List α) (ls : List (List α)) (q n : ℕ) :
    Within part (l :: ls) q n ↔
      q + n ≤ (part l).length ∨ l.length ≤ q ∧ Within part ls (q - l.length) n := by
  constructor
  · rintro ⟨before, piece, after, same, low, high⟩
    cases before with
    | nil =>
      obtain ⟨rfl, rfl⟩ := List.cons.inj same
      exact Or.inl (by simpa using high)
    | cons b before =>
      obtain ⟨rfl, rfl⟩ := List.cons.inj same
      rw [List.flatten_cons, List.length_append] at low high
      exact Or.inr ⟨by omega, before, piece, after, rfl, by omega, by omega⟩
  · rintro (head | ⟨low, before, piece, after, rfl, above, high⟩)
    · exact ⟨[], l, ls, rfl, by simp, by simpa using head⟩
    · refine ⟨l :: before, piece, after, rfl, ?_, ?_⟩
      · rw [List.flatten_cons, List.length_append]
        omega
      · rw [List.flatten_cons, List.length_append]
        omega

/-- In the part seen of the first piece the text is that part. -/
theorem occursAt_part {l rest : List α} (seen : part l <+: l) {q : ℕ}
    (fits : q + needle.length ≤ (part l).length) :
    OccursAt needle (l ++ rest) q ↔ OccursAt needle (part l) q := by
  have drop : (part l).drop q <+: (l ++ rest).drop q :=
    (seen.trans (List.prefix_append l rest)).drop q
  constructor
  · intro occurs
    refine List.prefix_of_prefix_length_le occurs drop ?_
    rw [List.length_drop]
    omega
  · exact fun occurs => List.IsPrefix.trans occurs drop

theorem drop_rest {l rest : List α} {q : ℕ} (low : l.length ≤ q) :
    (l ++ rest).drop q = rest.drop (q - l.length) := by
  rw [List.drop_append, List.drop_eq_nil_of_le low, List.nil_append]

/-- What is seen is seen in the first piece or behind it. -/
theorem seenAt_cons {l : List α} (seen : part l <+: l) (ls : List (List α)) (q : ℕ) :
    SeenAt needle part (l :: ls) q ↔
      (q + needle.length ≤ (part l).length ∧ OccursAt needle (part l) q) ∨
      (l.length ≤ q ∧ SeenAt needle part ls (q - l.length)) := by
  rw [SeenAt, within_cons, List.flatten_cons]
  constructor
  · rintro ⟨occurs, fits | ⟨low, within⟩⟩
    · exact Or.inl ⟨fits, (occursAt_part seen fits).mp occurs⟩
    · rw [OccursAt, drop_rest low] at occurs
      exact Or.inr ⟨low, occurs, within⟩
  · rintro (⟨fits, occurs⟩ | ⟨low, occurs, within⟩)
    · exact ⟨(occursAt_part seen fits).mpr occurs, Or.inl fits⟩
    · refine ⟨?_, Or.inr ⟨low, within⟩⟩
      rw [OccursAt, drop_rest low]
      exact occurs

/-- The first occurrence in the first piece is the first one seen. -/
theorem FirstAt.seenFirst {l : List α} (ne : needle ≠ []) (seen : part l <+: l)
    (ls : List (List α)) {q : ℕ} (first : FirstAt needle (part l) q) :
    SeenFirst needle part (l :: ls) q := by
  have pos := List.length_pos_of_ne_nil ne
  have short := seen.length_le
  have fits := first.1.fits ne
  refine ⟨(seenAt_cons seen ls q).mpr (Or.inl ⟨fits, first.1⟩), fun q' lt seen' => ?_⟩
  rcases (seenAt_cons seen ls q').mp seen' with ⟨-, occurs⟩ | ⟨low, -⟩
  · exact first.2 q' lt occurs
  · omega

/-- Behind a piece without the pattern the first one seen is that of the rest. -/
theorem SeenFirst.behind {l : List α} (seen : part l <+: l)
    (absent : ∀ q, ¬ OccursAt needle (part l) q) {ls : List (List α)} {q : ℕ}
    (first : SeenFirst needle part ls q) : SeenFirst needle part (l :: ls) (q + l.length) := by
  refine ⟨(seenAt_cons seen ls _).mpr (Or.inr ⟨Nat.le_add_left _ _, ?_⟩), fun q' lt seen' => ?_⟩
  · rw [Nat.add_sub_cancel]
    exact first.1
  · rcases (seenAt_cons seen ls q').mp seen' with ⟨-, occurs⟩ | ⟨low, rest⟩
    · exact absent q' occurs
    · exact first.2 (q' - l.length) (by omega) rest

end pieces

section search

variable [DecidableEq α]

/-- The text from the first occurrence on. -/
def strstr (needle : List α) : List α → Option (List α)
  | [] => if needle = [] then some [] else none
  | c :: s => if needle <+: c :: s then some (c :: s) else strstr needle s

variable {needle : List α} (ne : needle ≠ [])
include ne

theorem strstr_eq_none {text : List α} (none : strstr needle text = none) (q : ℕ) :
    ¬ OccursAt needle text q := by
  induction text generalizing q with
  | nil => simpa [OccursAt] using ne
  | cons c s ih =>
    rw [strstr] at none
    split at none
    · cases none
    · rename_i absent
      cases q with
      | zero => exact absent
      | succ q => exact ih none q

theorem strstr_eq_some {text s : List α} (found : strstr needle text = some s) :
    ∃ q, FirstAt needle text q ∧ s = text.drop q := by
  induction text with
  | nil =>
    rw [strstr, if_neg ne] at found
    cases found
  | cons c t ih =>
    rw [strstr] at found
    split at found
    · rename_i here
      obtain rfl := Option.some.inj found
      exact ⟨0, ⟨here, fun _ lt => absurd lt (Nat.not_lt_zero _)⟩, rfl⟩
    · rename_i absent
      obtain ⟨q, ⟨occurs, first⟩, rfl⟩ := ih found
      refine ⟨q + 1, ⟨occurs, fun q' lt => ?_⟩, rfl⟩
      cases q' with
      | zero => exact absent
      | succ q' => exact first q' (Nat.lt_of_succ_lt_succ lt)

variable {part : List α → List α} (seen : ∀ l, part l <+: l)
include seen

theorem findSome_eq_none {pieces : List (List α)}
    (none : pieces.findSome? (fun l => strstr needle (part l)) = none) (q : ℕ) :
    ¬ SeenAt needle part pieces q := by
  induction pieces generalizing q with
  | nil => exact fun h => not_within_nil q _ h.2
  | cons l ls ih =>
    rw [List.findSome?_cons] at none
    cases here : strstr needle (part l) with
    | some s =>
      rw [here] at none
      cases none
    | none =>
      rw [here] at none
      rw [seenAt_cons (seen l)]
      rintro (⟨-, occurs⟩ | ⟨-, rest⟩)
      · exact strstr_eq_none ne here q occurs
      · exact ih none (q - l.length) rest

/-- The search finds the first occurrence seen, and what is seen behind it. -/
theorem findSome_eq_some {pieces : List (List α)} {s : List α}
    (found : pieces.findSome? (fun l => strstr needle (part l)) = some s) :
    ∃ q, SeenFirst needle part pieces q ∧ s <+: pieces.flatten.drop q ∧
      ∀ n, 0 < n → (Within part pieces q n ↔ n ≤ s.length) := by
  induction pieces with
  | nil => cases found
  | cons l ls ih =>
    have short := (seen l).length_le
    rw [List.findSome?_cons] at found
    cases here : strstr needle (part l) with
    | some s' =>
      rw [here] at found
      obtain rfl := Option.some.inj found
      obtain ⟨q, first, rfl⟩ := strstr_eq_some ne here
      have pos := List.length_pos_of_ne_nil ne
      have fits := first.1.fits ne
      refine ⟨q, first.seenFirst ne (seen l) ls, ?_, ?_⟩
      · rw [List.flatten_cons]
        exact ((seen l).trans (List.prefix_append l _)).drop q
      · intro n some
        rw [within_cons, List.length_drop]
        constructor
        · rintro (inside | ⟨low, -⟩) <;> omega
        · intro le
          exact Or.inl (by omega)
    | none =>
      rw [here] at found
      obtain ⟨q, first, behind, span⟩ := ih found
      have back : q + l.length - l.length = q := Nat.add_sub_cancel q l.length
      have low : l.length ≤ q + l.length := Nat.le_add_left _ _
      refine ⟨q + l.length, first.behind (seen l) (strstr_eq_none ne here), ?_, ?_⟩
      · rw [List.flatten_cons, drop_rest low, back]
        exact behind
      · intro n some
        rw [within_cons, back, ← span n some]
        constructor
        · rintro (fits | ⟨-, within⟩)
          · omega
          · exact within
        · exact fun within => Or.inr ⟨low, within⟩

end search

section field

variable (blank digit : α → Bool)

/-- The digits behind the blanks. -/
def field (text : List α) : List α := (text.dropWhile blank).takeWhile digit

def blanks (text : List α) : ℕ := (text.takeWhile blank).length

theorem dropWhile_take (text : List α) (m : ℕ) :
    (text.take m).dropWhile blank = (text.dropWhile blank).take (m - blanks blank text) := by
  induction text generalizing m with
  | nil => simp
  | cons c s ih =>
    cases m with
    | zero => simp
    | succ m =>
      cases hc : blank c with
      | false => simp [blanks, hc]
      | true => simp [blanks, hc, ih]

/-- Of a field only what is in the beginning is read. -/
theorem field_take (text : List α) (m : ℕ) :
    field blank digit (text.take m) = (field blank digit text).take (m - blanks blank text) := by
  rw [field, dropWhile_take, field, List.take_takeWhile]

/-- `n` digits are read from a beginning exactly if they are there and lie in it. -/
theorem field_prefix {text u : List α} (beginning : u <+: text) {n : ℕ} (pos : 0 < n) :
    (n ≤ (field blank digit u).length ↔
      n ≤ (field blank digit text).length ∧ blanks blank text + n ≤ u.length) ∧
    (n ≤ (field blank digit u).length →
      (field blank digit u).take n = (field blank digit text).take n) := by
  have cut : u = text.take u.length := List.prefix_iff_eq_take.mp beginning
  have read := field_take blank digit text u.length
  rw [← cut] at read
  rw [read, List.length_take, List.take_take]
  constructor
  · omega
  · intro le
    rw [Nat.min_eq_left (by omega)]

end field

end CspLinksim.TextScan
