import CspLinksim.Lib.Window

/-!
# Rings that remember the last entries of a log

A log is written newest first and never forgets; a ring of `W` slots overwrites its oldest
entry. An entry can be taken once: it leaves `none` in the ring and in the log. A search of
the ring backwards from its head is a search of the last `W` entries of the log.
-/

namespace CspLinksim.Ring

open Window

universe u
variable {α : Type u}

/-- The slots hold what is left of the last `W` entries of the log. -/
def Holds (W : Nat) (slot : Nat → Option α) (log : List (Option α)) : Prop :=
  ∀ k < W, slot (slotOf W ((log.length : Int) - 1 - k)) = log[k]?.join

theorem holds_nil (W : Nat) : Holds W (fun _ => (none : Option α)) [] := by
  intro k _
  simp

section
variable {W : Nat} {slot : Nat → Option α} {log : List (Option α)}

/-- A new entry goes to the slot of the head. -/
theorem Holds.push (h : Holds W slot log) (v : α) :
    Holds W (Function.update slot (slotOf W log.length) (some v)) (some v :: log) := by
  intro k hk
  cases k with
  | zero =>
    have here : ((some v :: log).length : Int) - 1 - (0 : Nat) = log.length := by
      simp
    rw [here, Function.update_self]
    rfl
  | succ j =>
    have there : ((some v :: log).length : Int) - 1 - (j + 1 : Nat) =
        (log.length : Int) - 1 - j := by
      simp only [List.length_cons]
      omega
    have apart : slotOf W ((log.length : Int) - 1 - j) ≠ slotOf W log.length := fun same => by
      have := eq_of_slotOf_eq same (by omega) (by omega)
      omega
    rw [there, Function.update_of_ne apart, h j (by omega)]
    rfl

/-- Entry `k` is taken out of its slot. -/
theorem Holds.take (h : Holds W slot log) {k : Nat} (hk : k < W) :
    Holds W (Function.update slot (slotOf W ((log.length : Int) - 1 - k)) none)
      (log.set k none) := by
  intro j hj
  rw [List.length_set]
  by_cases same : j = k
  · rw [same, Function.update_self, List.getElem?_set_self']
    cases log[k]? <;> rfl
  · have apart : slotOf W ((log.length : Int) - 1 - j) ≠ slotOf W ((log.length : Int) - 1 - k) :=
      fun equal => by
        have := eq_of_slotOf_eq equal (by omega) (by omega)
        omega
    rw [Function.update_of_ne apart, h j hj, List.getElem?_set_ne (Ne.symm same)]

end

/-- The search backwards from `last`: `n` slots from the `k`-th on. -/
def search (W : Nat) (slot : Nat → Option α) (last : Int) (p : α → Bool) : Nat → Nat → Option Nat
  | _, 0 => none
  | k, n + 1 =>
    if (slot (slotOf W (last - k))).any p then some k else search W slot last p (k + 1) n

/-- The search of the slots is the search of the log. -/
theorem search_eq {W : Nat} {slot : Nat → Option α} {log : List (Option α)}
    (h : Holds W slot log) (p : α → Bool) (n k : Nat) (bound : k + n ≤ W) :
    search W slot ((log.length : Int) - 1) p k n =
      (((log.drop k).take n).findIdx? (Option.any p)).map (· + k) := by
  induction n generalizing k with
  | zero => simp [search]
  | succ n ih =>
    rw [search, h k (by omega), ih (k + 1) (by omega)]
    cases found : log[k]? with
    | none =>
      have short : log.length ≤ k := List.getElem?_eq_none_iff.mp found
      rw [List.drop_eq_nil_of_le short, List.drop_eq_nil_of_le (by omega)]
      simp
    | some e =>
      obtain ⟨inside, entry⟩ := List.getElem?_eq_some_iff.mp found
      rw [List.drop_eq_getElem_cons inside, entry, List.take_succ_cons, List.findIdx?_cons]
      cases hit : Option.any p e with
      | true => simp [hit]
      | false =>
        simp only [Option.join_some, hit, Bool.false_eq_true, if_false, Option.map_map]
        congr 1
        funext i
        simp only [Function.comp_apply]
        omega

/-- A search from the head finds the newest entry that suits, if there is one. -/
theorem search_newest {W : Nat} {slot : Nat → Option α} {log : List (Option α)}
    (h : Holds W slot log) (p : α → Bool) :
    search W slot ((log.length : Int) - 1) p 0 W = (log.take W).findIdx? (Option.any p) := by
  rw [search_eq h p W 0 (by omega)]
  simp

end CspLinksim.Ring
