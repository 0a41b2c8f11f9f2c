import Mathlib.Data.List.Basic
import Mathlib.Tactic.Common

/-!
# Chains of hooked functions

A hook saves the function pointer it finds, and calls what it saved. Following the
saved pointers visits the hooks, the last one installed first, and ends at the function
that was there before them.
-/

namespace CspLinksim.Hooks

universe u
variable {φ : Type u} {next next' : φ → Option φ} {p : Option φ} {fs : List φ} {root f : φ}

/-- From the pointer `p` the hooks `fs` are called in turn, and then `root`. -/
def Linked (next : φ → Option φ) : Option φ → List φ → φ → Prop
  | p, [], root => p = some root
  | p, f :: fs, root => p = some f ∧ Linked next (next f) fs root

theorem Linked.pointer (h : Linked next p fs root) : p = some (fs.headD root) := by
  cases fs with
  | nil => exact h
  | cons f fs => exact h.1

/-- Only the pointers saved by the hooks matter. -/
theorem Linked.congr (h : Linked next p fs root) (same : ∀ f ∈ fs, next' f = next f) :
    Linked next' p fs root := by
  induction fs generalizing p with
  | nil => exact h
  | cons f fs ih =>
    refine ⟨h.1, ?_⟩
    rw [same f List.mem_cons_self]
    exact ih h.2 fun g hg => same g (List.mem_cons_of_mem f hg)

/-- A hook on top of the chain. -/
theorem Linked.push (h : Linked next p fs root) (saved : next' f = p)
    (same : ∀ g ∈ fs, next' g = next g) : Linked next' (some f) (f :: fs) root :=
  ⟨rfl, saved ▸ h.congr same⟩

/-- Below a hook of the chain there is a chain again. -/
theorem Linked.below (h : Linked next p fs root) (mem : f ∈ fs) :
    ∃ above rest, fs = above ++ f :: rest ∧ Linked next (next f) rest root := by
  induction fs generalizing p with
  | nil => cases mem
  | cons g gs ih =>
    rcases List.mem_cons.mp mem with rfl | deeper
    · exact ⟨[], gs, rfl, h.2⟩
    · obtain ⟨above, rest, rfl, linked⟩ := ih h.2 deeper
      exact ⟨g :: above, rest, rfl, linked⟩

/-- A pointer leads down one chain only. -/
theorem Linked.unique {gs : List φ} (h : Linked next p fs root) (h' : Linked next p gs root)
    (end₁ : root ∉ fs) (end₂ : root ∉ gs) : fs = gs := by
  induction fs generalizing p gs with
  | nil =>
    cases gs with
    | nil => rfl
    | cons g gs =>
      have same := h.symm.trans h'.1
      cases same
      exact absurd List.mem_cons_self end₂
  | cons f fs ih =>
    cases gs with
    | nil =>
      have same := h.1.symm.trans h'
      cases same
      exact absurd List.mem_cons_self end₁
    | cons g gs =>
      have same := h.1.symm.trans h'.1
      cases same
      rw [ih h.2 h'.2 (fun m => end₁ (List.mem_cons_of_mem f m))
        (fun m => end₂ (List.mem_cons_of_mem f m))]

end CspLinksim.Hooks
