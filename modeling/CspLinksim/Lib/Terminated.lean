import Mathlib.Data.List.Forall2
import Mathlib.Tactic.Common

/-!
# Strings with a terminator behind each

A reader that stops at each terminator gets the strings back. One that sees only the beginning
of the text gets those in it, the last one cut off.
-/

namespace CspLinksim.Terminated

variable {α : Type}

def joined (stop : α) (ws : List (List α)) : List α := ws.flatMap (· ++ [stop])

/-- What `m` places hold of some strings and their terminators. -/
def cut : Nat → List (List α) → List (List α)
  | _, [] => []
  | m, w :: ws => if m = 0 then [] else w.take m :: cut (m - (w.length + 1)) ws

theorem joined_cons (stop : α) (w : List α) (ws : List (List α)) :
    joined stop (w :: ws) = w ++ stop :: joined stop ws := by
  simp [joined]

theorem joined_take (stop : α) {w : List α} {ws : List (List α)} {m : Nat} (fits : w.length < m) :
    (joined stop (w :: ws)).take m
      = w ++ stop :: (joined stop ws).take (m - (w.length + 1)) := by
  obtain ⟨k, rfl⟩ : ∃ k, m = w.length + (k + 1) := ⟨m - w.length - 1, by omega⟩
  rw [joined_cons, List.take_length_add_append, List.take_succ_cons]
  congr 3
  omega

theorem cut_of_fits {stop : α} {ws : List (List α)} {m : Nat} (fits : (joined stop ws).length ≤ m) :
    cut m ws = ws := by
  induction ws generalizing m with
  | nil => rfl
  | cons w ws ih =>
    rw [joined_cons, List.length_append, List.length_cons] at fits
    rw [cut, if_neg (by omega), List.take_of_length_le (by omega), ih (by omega)]

/-- Each string that is seen is the beginning of the one in its place. -/
theorem cut_prefix (m : Nat) (ws : List (List α)) :
    ∃ seen unseen, ws = seen ++ unseen ∧ List.Forall₂ (· <+: ·) (cut m ws) seen := by
  induction ws generalizing m with
  | nil => exact ⟨[], [], rfl, .nil⟩
  | cons w ws ih =>
    by_cases none : m = 0
    · exact ⟨[], w :: ws, rfl, by rw [cut, if_pos none]; exact .nil⟩
    · obtain ⟨seen, unseen, rfl, prefixes⟩ := ih (m - (w.length + 1))
      refine ⟨w :: seen, unseen, rfl, ?_⟩
      rw [cut, if_neg none]
      exact .cons (List.take_prefix m w) prefixes

variable [DecidableEq α] (stop : α)

/-- The string at the front of a text. -/
def front (text : List α) : List α := text.takeWhile (· ≠ stop)

/-- The strings of a text; the last one need not have its terminator. -/
def strings : List α → List (List α)
  | [] => []
  | c :: cs =>
    if c = stop then [] :: strings cs
    else match strings cs with
      | [] => [[c]]
      | w :: ws => (c :: w) :: ws

variable {stop}

theorem front_append_stop (text rest : List α) :
    front stop (text ++ stop :: rest) = front stop text := by
  induction text with
  | nil => simp [front]
  | cons c cs ih =>
    by_cases stops : c = stop
    · simp [front, stops]
    · simpa [front, stops] using ih

theorem strings_append {w : List α} (free : stop ∉ w) (rest : List α) :
    strings stop (w ++ stop :: rest) = w :: strings stop rest := by
  induction w with
  | nil => simp [strings]
  | cons c cs ih =>
    have apart : c ≠ stop := fun e => free (e ▸ List.mem_cons_self)
    rw [List.cons_append, strings, if_neg apart, ih fun h => free (List.mem_cons_of_mem c h)]

theorem strings_of_free {w : List α} (free : stop ∉ w) (ne : w ≠ []) : strings stop w = [w] := by
  induction w with
  | nil => exact absurd rfl ne
  | cons c cs ih =>
    have apart : c ≠ stop := fun e => free (e ▸ List.mem_cons_self)
    rw [strings, if_neg apart]
    cases cs with
    | nil => rfl
    | cons d ds => rw [ih (fun h => free (List.mem_cons_of_mem c h)) (List.cons_ne_nil d ds)]

/-- A text is its first string, and what stands behind the terminator. -/
theorem strings_eq {text : List α} (ne : text ≠ []) :
    strings stop text =
      front stop text :: strings stop (text.drop ((front stop text).length + 1)) := by
  induction text with
  | nil => exact absurd rfl ne
  | cons c cs ih =>
    by_cases stops : c = stop
    · simp [strings, front, stops]
    · have longer : front stop (c :: cs) = c :: front stop cs := by simp [front, stops]
      rw [strings, if_neg stops, longer]
      cases cs with
      | nil => rfl
      | cons d ds =>
        rw [ih (List.cons_ne_nil d ds)]
        rfl

/-- The beginning of a text holds its strings up to there. -/
theorem strings_take {ws : List (List α)} (free : ∀ w ∈ ws, stop ∉ w) (m : Nat) :
    strings stop ((joined stop ws).take m) = cut m ws := by
  induction ws generalizing m with
  | nil => simp [joined, strings, cut]
  | cons w ws ih =>
    have freeHere : stop ∉ w := free w List.mem_cons_self
    have freeRest : ∀ v ∈ ws, stop ∉ v := fun v hv => free v (List.mem_cons_of_mem w hv)
    rw [cut]
    by_cases none : m = 0
    · rw [if_pos none, none, List.take_zero, strings]
    · rw [if_neg none]
      by_cases fits : w.length < m
      · rw [joined_take stop fits, strings_append freeHere, ih freeRest,
          List.take_of_length_le (Nat.le_of_lt fits)]
      · have short : (joined stop (w :: ws)).take m = w.take m := by
          rw [joined_cons, List.take_append_of_le_length (Nat.le_of_not_lt fits)]
        have behind : m - (w.length + 1) = 0 := by omega
        have nothing : cut 0 ws = [] := by cases ws <;> rfl
        rw [short, behind, nothing]
        by_cases empty : w = []
        · subst empty
          exact absurd (Nat.pos_of_ne_zero none) fits
        · exact strings_of_free (fun h => freeHere (List.mem_of_mem_take h))
            (by simp [none, empty])

end CspLinksim.Terminated
