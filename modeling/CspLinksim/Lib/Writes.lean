import Mathlib.Data.List.Basic
import Mathlib.Tactic.Common

/-!
# Buffers written piece by piece

A write puts a run of cells at an offset of a buffer. After a history of writes a
cell holds what the last write that covers it put there.
-/

namespace CspLinksim.Writes

universe u
variable {α : Type u}

/-- A run of cells for the offset `off`. -/
structure Write (α : Type u) where
  off : Nat
  buf : List α

def Write.Covers (w : Write α) (i : Nat) : Prop := w.off ≤ i ∧ i < w.off + w.buf.length

instance (w : Write α) (i : Nat) : Decidable (w.Covers i) :=
  inferInstanceAs (Decidable (_ ∧ _))

/-- What the write puts in cell `i`, if it covers it. -/
def Write.cell (w : Write α) (i : Nat) : Option α :=
  if w.off ≤ i then w.buf[i - w.off]? else none

/-- Overwrite the buffer from `off` on. -/
def splice (data : List α) (off : Nat) (buf : List α) : List α :=
  data.take off ++ buf ++ data.drop (off + buf.length)

/-- The cell after a history of writes, oldest first; `none` if none covers it. -/
def lastCell : List (Write α) → Nat → Option α
  | [], _ => none
  | w :: ws, i => (lastCell ws i).or (w.cell i)

theorem cell_isSome (w : Write α) (i : Nat) : (w.cell i).isSome = true ↔ w.Covers i := by
  unfold Write.cell Write.Covers
  by_cases h : w.off ≤ i
  · simp only [h, if_true, true_and, isSome_getElem?]
    omega
  · simp [h]

theorem length_splice (data : List α) (off : Nat) (buf : List α)
    (fits : off + buf.length ≤ data.length) : (splice data off buf).length = data.length := by
  simp [splice]
  omega

/-- Inside the write the cells are new, elsewhere they are unchanged. -/
theorem getElem?_splice (data : List α) (w : Write α)
    (fits : w.off + w.buf.length ≤ data.length) (i : Nat) :
    (splice data w.off w.buf)[i]? = (w.cell i).or data[i]? := by
  have hoff : (data.take w.off).length = w.off := by
    rw [List.length_take]
    omega
  unfold splice Write.cell
  rw [List.append_assoc]
  by_cases before : i < w.off
  · rw [List.getElem?_append_left (by omega), List.getElem?_take_of_lt before,
      if_neg (by omega)]
    rfl
  · rw [List.getElem?_append_right (by omega), hoff, if_pos (by omega)]
    by_cases inside : i - w.off < w.buf.length
    · rw [List.getElem?_append_left inside, List.getElem?_eq_getElem inside]
      rfl
    · rw [List.getElem?_append_right (by omega), List.getElem?_drop,
        List.getElem?_eq_none (l := w.buf) (by omega)]
      have : w.off + w.buf.length + (i - w.off - w.buf.length) = i := by omega
      rw [this]
      rfl

theorem lastCell_snoc (ws : List (Write α)) (w : Write α) (i : Nat) :
    lastCell (ws ++ [w]) i = (w.cell i).or (lastCell ws i) := by
  induction ws with
  | nil => simp [lastCell]
  | cons v ws ih => simp only [List.cons_append, lastCell, ih, Option.or_assoc]

theorem lastCell_isSome (ws : List (Write α)) (i : Nat) :
    (lastCell ws i).isSome = true ↔ ∃ w ∈ ws, w.Covers i := by
  induction ws with
  | nil => simp [lastCell]
  | cons v ws ih =>
    simp only [lastCell, Option.isSome_or, Bool.or_eq_true, ih, cell_isSome, List.mem_cons,
      exists_eq_or_imp]
    exact or_comm

/-- The cell is what some write put there that no later write covers. -/
theorem lastCell_eq_some_iff (ws : List (Write α)) (i : Nat) (a : α) :
    lastCell ws i = some a ↔
      ∃ before w after, ws = before ++ w :: after ∧ w.cell i = some a ∧
        ∀ v ∈ after, ¬ v.Covers i := by
  constructor
  · intro h
    induction ws with
    | nil => cases h
    | cons v ws ih =>
      rw [lastCell] at h
      cases tail : lastCell ws i with
      | some b =>
        rw [tail] at h
        obtain ⟨before, w, after, rfl, hw, later⟩ := ih (tail.trans h)
        exact ⟨v :: before, w, after, rfl, hw, later⟩
      | none =>
        rw [tail] at h
        refine ⟨[], v, ws, rfl, h, ?_⟩
        intro w hw covers
        have := (lastCell_isSome ws i).mpr ⟨w, hw, covers⟩
        rw [tail] at this
        cases this
  · rintro ⟨before, w, after, rfl, hw, later⟩
    induction before with
    | nil =>
      have none : lastCell after i = none := by
        rw [← Option.not_isSome_iff_eq_none, lastCell_isSome]
        rintro ⟨v, hv, covers⟩
        exact later v hv covers
      simp [lastCell, none, hw]
    | cons v before ih => simp [lastCell, ih]

end CspLinksim.Writes
