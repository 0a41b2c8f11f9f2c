import Mathlib.Data.List.Forall2
import Mathlib.Data.List.Induction

/-!
# Runs of deterministic machines

A machine is a step function that takes a state and an input to the next state
and one output. A run feeds a list of inputs in order. The rules here are the
ones every component of the development is proved with: an invariant that may
speak about the whole history, a lockstep simulation of two machines, and, for
machines without outputs, invariants under steps that are guarded.
-/

namespace CspLinksim.Runs

universe u v w
variable {σ : Type u} {τ : Type u} {ι : Type v} {ο : Type w}

/-- The final state and the outputs in input order. -/
def run (step : σ → ι → σ × ο) : σ → List ι → σ × List ο
  | s, [] => (s, [])
  | s, x :: xs =>
    let first := step s x
    let tail := run step first.1 xs
    (tail.1, first.2 :: tail.2)

@[simp] theorem run_nil (step : σ → ι → σ × ο) (s : σ) : run step s [] = (s, []) := rfl

@[simp] theorem run_cons (step : σ → ι → σ × ο) (s : σ) (x : ι) (xs : List ι) :
    run step s (x :: xs) =
      ((run step (step s x).1 xs).1, (step s x).2 :: (run step (step s x).1 xs).2) := rfl

theorem run_append (step : σ → ι → σ × ο) (s : σ) (xs ys : List ι) :
    run step s (xs ++ ys) = ((run step (run step s xs).1 ys).1,
      (run step s xs).2 ++ (run step (run step s xs).1 ys).2) := by
  induction xs generalizing s with
  | nil => rfl
  | cons x xs ih => simp only [List.cons_append, run_cons, ih]

theorem run_snoc (step : σ → ι → σ × ο) (s : σ) (xs : List ι) (x : ι) :
    run step s (xs ++ [x]) = ((step (run step s xs).1 x).1,
      (run step s xs).2 ++ [(step (run step s xs).1 x).2]) := by
  rw [run_append]
  rfl

@[simp] theorem run_length (step : σ → ι → σ × ο) (s : σ) (xs : List ι) :
    (run step s xs).2.length = xs.length := by
  induction xs generalizing s with
  | nil => rfl
  | cons x xs ih => simp [ih]

theorem run_map {ι' : Type v} (step : σ → ι → σ × ο) (f : ι' → ι) (s : σ) (xs : List ι') :
    run step s (xs.map f) = run (fun s x => step s (f x)) s xs := by
  induction xs generalizing s with
  | nil => rfl
  | cons x xs ih => simp only [List.map_cons, run_cons, ih]

/-- A relation between the state, the inputs so far and the outputs so far that
one more step preserves holds of every run. -/
theorem run_history (step : σ → ι → σ × ο) (P : σ → List ι → List ο → Prop)
    (preserved : ∀ s xs os x, P s xs os →
      P (step s x).1 (xs ++ [x]) (os ++ [(step s x).2]))
    {s : σ} (init : P s [] []) (xs : List ι) :
    P (run step s xs).1 xs (run step s xs).2 := by
  induction xs using List.reverseRecOn with
  | nil => exact init
  | append_singleton xs x ih =>
    rw [run_snoc]
    exact preserved _ _ _ _ ih

/-- A machine whose inputs are promised to suit the history before them: the invariant
holds at the end and every output answers its input. -/
theorem run_guarded (step : σ → ι → σ × ο) (suits : List ι → ι → Prop)
    (P : σ → List ι → List ο → Prop) (answers : List ι → ι → ο → Prop)
    (preserved : ∀ s xs os x, P s xs os → suits xs x →
      P (step s x).1 (xs ++ [x]) (os ++ [(step s x).2]) ∧ answers xs x (step s x).2)
    {s : σ} (init : P s [] []) (xs : List ι)
    (promised : ∀ (i : Nat) (x : ι), xs[i]? = some x → suits (xs.take i) x) :
    P (run step s xs).1 xs (run step s xs).2 ∧
    ∀ (i : Nat) (x : ι) (o : ο), xs[i]? = some x → (run step s xs).2[i]? = some o →
      answers (xs.take i) x o := by
  induction xs using List.reverseRecOn with
  | nil => exact ⟨init, fun i x o hx => by simp at hx⟩
  | append_singleton xs x ih =>
    have before : ∀ (i : Nat) (y : ι), xs[i]? = some y → suits (xs.take i) y := by
      intro i y hy
      have hi := (List.getElem?_eq_some_iff.mp hy).1
      have := promised i y (by rw [List.getElem?_append_left hi, hy])
      rwa [List.take_append_of_le_length (Nat.le_of_lt hi)] at this
    have now : suits xs x := by simpa using promised xs.length x (by simp)
    obtain ⟨inv, answered⟩ := ih before
    obtain ⟨next, answer⟩ := preserved _ _ _ _ inv now
    rw [run_snoc]
    refine ⟨next, ?_⟩
    intro i y o hy ho
    rcases Nat.lt_trichotomy i xs.length with hi | hi | hi
    · rw [List.getElem?_append_left hi] at hy
      rw [List.getElem?_append_left (by simpa using hi)] at ho
      rw [List.take_append_of_le_length (Nat.le_of_lt hi)]
      exact answered i y o hy ho
    · subst i
      have hyx : x = y := by simpa using hy
      have hos : (step (run step s xs).1 x).2 = o := by
        rw [List.getElem?_append_right (by simp)] at ho
        simpa using ho
      subst y o
      simpa using answer
    · rw [List.getElem?_eq_none (by simp; omega)] at hy
      cases hy

/-- The special case of an invariant of the state alone. -/
theorem run_invariant (step : σ → ι → σ × ο) (P : σ → Prop)
    (preserved : ∀ s x, P s → P (step s x).1) {s : σ} (init : P s) (xs : List ι) :
    P (run step s xs).1 :=
  run_history step (fun s _ _ => P s) (fun s _ _ x h => preserved s x h) init xs

/-- Two machines whose related states answer each input alike stay related and
answer every input sequence alike. -/
theorem run_lockstep {ο' : Type w} (f : σ → ι → σ × ο) (g : τ → ι → τ × ο')
    (R : σ → τ → Prop) (Q : ο → ο' → Prop)
    (step : ∀ s t x, R s t → R (f s x).1 (g t x).1 ∧ Q (f s x).2 (g t x).2)
    {s : σ} {t : τ} (init : R s t) (xs : List ι) :
    R (run f s xs).1 (run g t xs).1 ∧ List.Forall₂ Q (run f s xs).2 (run g t xs).2 := by
  induction xs generalizing s t with
  | nil => exact ⟨init, .nil⟩
  | cons x xs ih =>
    obtain ⟨related, output⟩ := step s t x init
    obtain ⟨final, tail⟩ := ih related
    exact ⟨final, .cons output tail⟩

variable {step : σ → ι → σ}

/-- The state after the inputs. -/
def after (step : σ → ι → σ) (s : σ) (xs : List ι) : σ := xs.foldl step s

@[simp] theorem after_nil (s : σ) : after step s [] = s := rfl

@[simp] theorem after_snoc (s : σ) (xs : List ι) (x : ι) :
    after step s (xs ++ [x]) = step (after step s xs) x := by
  simp [after]

theorem after_append (s : σ) (xs ys : List ι) :
    after step s (xs ++ ys) = after step (after step s xs) ys :=
  List.foldl_append

/-- Every step of the run is taken in a state that allows it. -/
def Guarded (step : σ → ι → σ) (ok : σ → ι → Prop) (s : σ) (xs : List ι) : Prop :=
  ∀ ys x, ys ++ [x] <+: xs → ok (after step s ys) x

theorem Guarded.of_prefix {ok : σ → ι → Prop} {s : σ} {xs ys : List ι}
    (h : Guarded step ok s xs) (le : ys <+: xs) : Guarded step ok s ys :=
  fun zs x hz => h zs x (hz.trans le)

@[simp] theorem guarded_nil (ok : σ → ι → Prop) (s : σ) : Guarded step ok s [] := by
  intro ys x h
  simp at h

@[simp] theorem guarded_cons (ok : σ → ι → Prop) (s : σ) (x : ι) (xs : List ι) :
    Guarded step ok s (x :: xs) ↔ ok s x ∧ Guarded step ok (step s x) xs := by
  constructor
  · intro h
    refine ⟨h [] x ⟨xs, rfl⟩, ?_⟩
    intro ys y hy
    exact h (x :: ys) y (List.cons_prefix_cons.mpr ⟨rfl, hy⟩)
  · rintro ⟨first, rest⟩ ys y hy
    cases ys with
    | nil =>
      obtain ⟨rfl, _⟩ := List.cons_prefix_cons.mp hy
      exact first
    | cons z zs =>
      obtain ⟨rfl, tail⟩ := List.cons_prefix_cons.mp hy
      exact rest zs y tail

/-- An invariant that allowed steps preserve holds all along a guarded run. -/
theorem guarded_invariant {ok : σ → ι → Prop} (Inv : σ → Prop)
    (keeps : ∀ s x, Inv s → ok s x → Inv (step s x)) {s : σ} (init : Inv s) (xs : List ι)
    (guarded : Guarded step ok s xs) : Inv (after step s xs) := by
  induction xs using List.reverseRecOn with
  | nil => exact init
  | append_singleton xs x ih =>
    rw [after_snoc]
    exact keeps _ _ (ih (guarded.of_prefix (List.prefix_append xs [x])))
      (guarded xs x (List.prefix_refl _))

/-- The special case in which every step is allowed. -/
theorem after_invariant (Inv : σ → Prop) (keeps : ∀ s x, Inv s → Inv (step s x)) {s : σ}
    (init : Inv s) (xs : List ι) : Inv (after step s xs) :=
  @guarded_invariant σ ι step (fun _ _ => True) Inv (fun s x h _ => keeps s x h) s init xs
    fun _ _ _ => trivial

/-- Two guards that say the same where the invariant holds admit the same runs. -/
theorem guarded_iff {ok ok' : σ → ι → Prop} (Inv : σ → Prop)
    (same : ∀ s x, Inv s → (ok s x ↔ ok' s x)) (keeps : ∀ s x, Inv s → ok s x → Inv (step s x))
    {s : σ} (init : Inv s) (xs : List ι) : Guarded step ok s xs ↔ Guarded step ok' s xs := by
  induction xs generalizing s with
  | nil => simp
  | cons x xs ih =>
    rw [guarded_cons, guarded_cons, ← same s x init]
    constructor
    · rintro ⟨first, rest⟩
      exact ⟨first, (ih (keeps s x init first)).mp rest⟩
    · rintro ⟨first, rest⟩
      exact ⟨first, (ih (keeps s x init first)).mpr rest⟩

/-- If a step that is not allowed ends in a bad state, the runs without a bad state are
the guarded ones. -/
theorem always_iff_guarded {ok : σ → ι → Prop} (Inv Good : σ → Prop)
    (good : ∀ s, Inv s → Good s) (keeps : ∀ s x, Inv s → ok s x → Inv (step s x))
    (leaves : ∀ s x, Inv s → ¬ ok s x → ¬ Good (step s x)) {s : σ} (init : Inv s)
    (xs : List ι) :
    (∀ ys, ys <+: xs → Good (after step s ys)) ↔ Guarded step ok s xs := by
  constructor
  · intro always
    have inv : ∀ ys, ys <+: xs → Inv (after step s ys) ∧ Guarded step ok s ys := by
      intro ys
      induction ys using List.reverseRecOn with
      | nil =>
        refine fun _ => ⟨init, ?_⟩
        intro zs x hz
        simp at hz
      | append_singleton ys y ih =>
        intro le
        obtain ⟨before, guarded⟩ := ih ((List.prefix_append ys [y]).trans le)
        have allowed : ok (after step s ys) y := by
          by_contra refused
          apply leaves _ _ before refused
          simpa only [after_snoc] using always _ le
        refine ⟨by rw [after_snoc]; exact keeps _ _ before allowed, ?_⟩
        intro zs x hz
        rcases List.prefix_concat_iff.mp hz with whole | earlier
        · obtain ⟨rfl, same⟩ := List.append_inj' whole rfl
          cases same
          exact allowed
        · exact guarded zs x earlier
    exact (inv xs (List.prefix_refl xs)).2
  · intro guarded ys le
    exact good _ (guarded_invariant Inv keeps init ys (guarded.of_prefix le))

end CspLinksim.Runs
