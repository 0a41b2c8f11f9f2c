import Mathlib.Algebra.Ring.Nat
import Mathlib.Data.List.Chain
import Mathlib.Tactic.Common

/-!
# Streaks

A sequence of symbols as its maximal streaks: how often each symbol is repeated, where
neighbouring streaks have different symbols. And the longest streak of elements with a property,
counted while the sequence grows.
-/

namespace CspLinksim.Streaks

universe u
variable {α : Type u}

/-- Maximal streaks, the first one in front. -/
structure RunLengths (α : Type u) where
  runs : List (α × ℕ)
  positive : ∀ r ∈ runs, 0 < r.2
  apart : runs.IsChain fun r s => r.1 ≠ s.1

/-- The sequence that a list of streaks stands for. -/
def expand (runs : List (α × ℕ)) : List α := runs.flatMap fun r => List.replicate r.2 r.1

@[simp] theorem expand_nil : expand ([] : List (α × ℕ)) = [] := rfl

@[simp] theorem expand_cons (r : α × ℕ) (runs : List (α × ℕ)) :
    expand (r :: runs) = List.replicate r.2 r.1 ++ expand runs := rfl

/-- Every sequence has maximal streaks. -/
theorem exists_streaks [DecidableEq α] (xs : List α) : ∃ s : RunLengths α, expand s.runs = xs := by
  induction xs with
  | nil => exact ⟨⟨[], by simp, List.isChain_nil⟩, rfl⟩
  | cons x xs ih =>
    obtain ⟨⟨runs, positive, apart⟩, rfl⟩ := ih
    cases runs with
    | nil => exact ⟨⟨[(x, 1)], by simp, List.isChain_singleton _⟩, rfl⟩
    | cons r rest =>
      obtain ⟨y, n⟩ := r
      by_cases same : x = y
      · subst same
        refine ⟨⟨(x, n + 1) :: rest, ?_, ?_⟩, rfl⟩
        · intro r hr
          rcases List.mem_cons.mp hr with rfl | later
          · exact Nat.succ_pos n
          · exact positive r (List.mem_cons_of_mem _ later)
        · cases rest with
          | nil => exact List.isChain_singleton _
          | cons s rest =>
            rw [List.isChain_cons_cons] at apart ⊢
            exact apart
      · refine ⟨⟨(x, 1) :: (y, n) :: rest, ?_, List.isChain_cons_cons.mpr ⟨same, apart⟩⟩, rfl⟩
        intro r hr
        rcases List.mem_cons.mp hr with rfl | later
        · exact Nat.one_pos
        · exact positive r later

/-- The lengths of the streaks of a symbol make up all its occurrences. -/
theorem count_expand [DecidableEq α] (a : α) (runs : List (α × ℕ)) :
    (expand runs).count a = ((runs.filter fun r => r.1 = a).map Prod.snd).sum := by
  induction runs with
  | nil => rfl
  | cons r runs ih =>
    rw [expand_cons, List.count_append, ih, List.count_replicate]
    by_cases same : r.1 = a
    · simp [same]
    · simp [same]

/-- Two streaks of one symbol have a streak of another between them. -/
theorem countP_le_others [DecidableEq α] (a : α) (runs : List (α × ℕ))
    (apart : runs.IsChain fun r s => r.1 ≠ s.1) :
    runs.countP (fun r => r.1 = a) ≤
      runs.countP (fun r => r.1 ≠ a) + if ∃ r ∈ runs.head?, r.1 = a then 1 else 0 := by
  induction runs with
  | nil => simp
  | cons r runs ih =>
    have rest := ih apart.tail
    by_cases same : r.1 = a
    · have ends : ¬ ∃ s ∈ runs.head?, s.1 = a := by
        rintro ⟨s, first, rfl⟩
        cases runs with
        | nil => simp at first
        | cons t runs =>
          obtain rfl : t = s := by simpa using first
          exact (List.isChain_cons_cons.mp apart).1 same
      rw [if_neg ends] at rest
      simpa [same] using rest
    · have bound : (if ∃ s ∈ runs.head?, s.1 = a then 1 else 0) ≤ 1 := by
        split <;> omega
      simp only [List.countP_cons, same, decide_false, decide_true, not_false_eq_true,
        List.head?_cons, Option.mem_some_iff, exists_eq_left', if_true, if_false, ne_eq,
        Bool.false_eq_true]
      simp only [ne_eq] at rest
      omega

/-- Streaks are not empty. -/
theorem countP_le_count [DecidableEq α] (a : α) (runs : List (α × ℕ))
    (positive : ∀ r ∈ runs, 0 < r.2) :
    runs.countP (fun r => r.1 = a) ≤ (expand runs).count a := by
  induction runs with
  | nil => simp
  | cons r runs ih =>
    have rest := ih fun s hs => positive s (List.mem_cons_of_mem _ hs)
    have first := positive r List.mem_cons_self
    rw [expand_cons, List.count_append, List.count_replicate, List.countP_cons]
    by_cases same : r.1 = a
    · simp only [same, decide_true, if_true, beq_self_eq_true]
      omega
    · simp only [same, decide_false, Bool.false_eq_true, if_false]
      omega

/-- A symbol occurs iff it has a streak. -/
theorem countP_pos_iff [DecidableEq α] (a : α) (runs : List (α × ℕ))
    (positive : ∀ r ∈ runs, 0 < r.2) :
    runs.countP (fun r => r.1 = a) = 0 ↔ (expand runs).count a = 0 := by
  constructor
  · intro absent
    rw [count_expand, List.filter_eq_nil_iff.mpr]
    · rfl
    · intro r hr
      exact List.countP_eq_zero.mp absent r hr
  · intro absent
    have bound := countP_le_count a runs positive
    omega

@[simp] theorem expand_append (runs more : List (α × ℕ)) :
    expand (runs ++ more) = expand runs ++ expand more := by
  simp [expand]

/-- The streak at the end has this length, and the longest one that one. -/
structure Longest (p : α → Bool) (xs : List α) (run worst : ℕ) : Prop where
  ends : ∃ s, s <:+ xs ∧ (∀ x ∈ s, p x = true) ∧ s.length = run
  atEnd : ∀ s, s <:+ xs → (∀ x ∈ s, p x = true) → s.length ≤ run
  found : ∃ s, s <:+: xs ∧ (∀ x ∈ s, p x = true) ∧ s.length = worst
  anywhere : ∀ s, s <:+: xs → (∀ x ∈ s, p x = true) → s.length ≤ worst

theorem longest_nil (p : α → Bool) : Longest p [] 0 0 where
  ends := ⟨[], List.suffix_refl [], by simp, rfl⟩
  atEnd := by
    intro s suffix _
    rw [List.suffix_nil.mp suffix]
    exact Nat.le_refl 0
  found := ⟨[], List.infix_refl [], by simp, rfl⟩
  anywhere := by
    intro s within _
    rw [List.infix_nil.mp within]
    exact Nat.le_refl 0

theorem Longest.run_le {p : α → Bool} {xs : List α} {run worst : ℕ} (h : Longest p xs run worst) :
    run ≤ worst := by
  obtain ⟨s, suffix, all, length⟩ := h.ends
  exact length ▸ h.anywhere s suffix.isInfix all

/-- A streak at the end of a longer list is one at the end of the list with the last element. -/
theorem streak_concat {p : α → Bool} {xs s : List α} {x : α} (suffix : s <:+ xs ++ [x])
    (all : ∀ y ∈ s, p y = true) :
    s = [] ∨ p x = true ∧ ∃ t, s = t ++ [x] ∧ t <:+ xs ∧ ∀ y ∈ t, p y = true := by
  rcases List.suffix_concat_iff.mp suffix with nothing | ⟨t, rfl, tail⟩
  · exact .inl nothing
  · exact .inr ⟨all x (by simp), t, rfl, tail, fun y hy => all y (List.mem_append_left [x] hy)⟩

theorem Longest.snoc {p : α → Bool} {xs : List α} {run worst : ℕ} (h : Longest p xs run worst)
    {x : α} (holds : p x = true) :
    Longest p (xs ++ [x]) (run + 1) (max worst (run + 1)) := by
  have atEnd : ∀ s, s <:+ xs ++ [x] → (∀ y ∈ s, p y = true) → s.length ≤ run + 1 := by
    intro s suffix all
    rcases streak_concat suffix all with rfl | ⟨-, t, rfl, tail, all⟩
    · exact Nat.zero_le _
    · simpa using h.atEnd t tail all
  obtain ⟨s, suffix, all, length⟩ := h.ends
  have grown : s ++ [x] <:+ xs ++ [x] ∧ (∀ y ∈ s ++ [x], p y = true) ∧
      (s ++ [x]).length = run + 1 := by
    obtain ⟨before, rfl⟩ := suffix
    refine ⟨⟨before, by simp⟩, ?_, by simp [length]⟩
    intro y hy
    rcases List.mem_append.mp hy with early | last
    · exact all y early
    · rwa [List.mem_singleton.mp last]
  refine ⟨⟨s ++ [x], grown⟩, atEnd, ?_, ?_⟩
  · rcases Nat.le_total worst (run + 1) with le | le
    · exact ⟨s ++ [x], grown.1.isInfix, grown.2.1, by rw [grown.2.2, Nat.max_eq_right le]⟩
    · obtain ⟨t, within, all, length⟩ := h.found
      refine ⟨t, ?_, all, by rw [length, Nat.max_eq_left le]⟩
      exact List.infix_concat_iff.mpr (.inr within)
  · intro t within all
    rcases List.infix_concat_iff.mp within with suffix | within
    · exact (atEnd t suffix all).trans (Nat.le_max_right _ _)
    · exact (h.anywhere t within all).trans (Nat.le_max_left _ _)

theorem Longest.break {p : α → Bool} {xs : List α} {run worst : ℕ} (h : Longest p xs run worst)
    {x : α} (fails : p x = false) : Longest p (xs ++ [x]) 0 worst := by
  have atEnd : ∀ s, s <:+ xs ++ [x] → (∀ y ∈ s, p y = true) → s = [] := by
    intro s suffix all
    rcases streak_concat suffix all with nothing | ⟨holds, -⟩
    · exact nothing
    · rw [fails] at holds
      cases holds
  refine ⟨⟨[], List.nil_suffix, by simp, rfl⟩, ?_, ?_, ?_⟩
  · intro s suffix all
    rw [atEnd s suffix all]
    exact Nat.le_refl 0
  · obtain ⟨t, within, all, length⟩ := h.found
    exact ⟨t, List.infix_concat_iff.mpr (.inr within), all, length⟩
  · intro t within all
    rcases List.infix_concat_iff.mp within with suffix | within
    · rw [atEnd t suffix all]
      exact Nat.zero_le _
    · exact h.anywhere t within all

end CspLinksim.Streaks
