import CspLinksim.Lib.Runs
import CspLinksim.Rule

/-!
# The Gilbert-Elliott channel (`ci_ge.c`)

The chain is written twice in the source: as a loop that fills a vector along the
packet index, and as a state machine advanced once for each transmission.
-/

namespace CspLinksim.Ge

open Runs Prng Rule

/-- `ci_ge_params`; `fl` rounds the exact result of an operation to the next double. -/
def ciGeParams (fl : ℚ → ℚ) (loss meanBurst : ℚ) : ℚ × ℚ :=
  let meanBurst := if meanBurst < 1 then 1 else meanBurst
  let r := fl (1 / meanBurst)
  if loss ≤ 0 then (0, r)
  else if 1 ≤ loss then (1, 0)
  else
    let p := fl (fl (r * loss) / fl (1 - loss))
    (if 1 < p then 1 else p, r)

def ciGeThreshold (p : ℚ) : UInt64 :=
  if p ≤ 0 then 0
  else if 1 ≤ p then 0xFFFFFFFFFFFFFFFF
  else scaledThreshold p

/-- The loop of `ci_ge_fill` at index `i`, with `n` entries to go. -/
def fillLoop (s tG2b tB2g : UInt64) : UInt64 → Bool → Nat → List UInt8
  | _, _, 0 => []
  | i, bad, n + 1 =>
    let d := ciDraw s i
    let bad' :=
      if ¬ bad then if d < tG2b then true else bad
      else if d < tB2g then false else bad
    (if bad then 1 else 0) :: fillLoop s tG2b tB2g (i + 1) bad' n

def ciGeFill (seed : UInt64) (pG2b pB2g : ℚ) (n : Nat) : List UInt8 :=
  let s := ciSplitmix64 seed
  fillLoop s (ciGeThreshold pG2b) (ciGeThreshold pB2g) 0 false n

structure CiGeState where
  seed : UInt64
  step : UInt64
  tG2b : UInt64
  tB2g : UInt64
  bad : Bool
  deriving DecidableEq

def ciGeStateInit (seed : UInt64) (pG2b pB2g : ℚ) : CiGeState where
  seed := ciSplitmix64 seed
  step := 0
  tG2b := ciGeThreshold pG2b
  tB2g := ciGeThreshold pB2g
  bad := false

/-- The chain after one transmission, and whether that transmission is dropped. -/
def ciGeStateStep (st : CiGeState) : CiGeState × Bool :=
  let drop := st.bad
  let d := ciDraw st.seed st.step
  let st := { st with step := st.step + 1 }
  if ¬ st.bad then
    if d < st.tG2b then ({ st with bad := true }, drop) else (st, drop)
  else
    if d < st.tB2g then ({ st with bad := false }, drop) else (st, drop)

/-- `n` transmissions in a row. -/
def transmit (st : CiGeState) (n : Nat) : CiGeState × List Bool :=
  run (fun st (_ : Unit) => ciGeStateStep st) st (List.replicate n ())

/-- An entry of the vector, read as a drop. -/
def isDrop (b : UInt8) : Bool := b = 1

theorem transmit_snoc (st : CiGeState) (n : Nat) :
    transmit st (n + 1) =
      ((ciGeStateStep (transmit st n).1).1,
        (transmit st n).2 ++ [(ciGeStateStep (transmit st n).1).2]) := by
  rw [transmit, List.replicate_succ', run_snoc]
  rfl

theorem fillLoop_length (s tG2b tB2g i : UInt64) (bad : Bool) (n : Nat) :
    (fillLoop s tG2b tB2g i bad n).length = n := by
  induction n generalizing i bad with
  | zero => rfl
  | succ n ih => simp [fillLoop, ih]

/-- From any state the two chain bodies emit the same drops. -/
theorem transmit_eq_fillLoop (st : CiGeState) (n : Nat) :
    (transmit st n).2 = (fillLoop st.seed st.tG2b st.tB2g st.step st.bad n).map isDrop := by
  induction n generalizing st with
  | zero => rfl
  | succ n ih =>
    have tail := ih (ciGeStateStep st).1
    simp only [transmit] at tail ⊢
    rw [List.replicate_succ, run_cons, tail, fillLoop, List.map_cons]
    rcases st with ⟨seed, step, tG2b, tB2g, bad⟩
    cases bad with
    | false => by_cases hd : ciDraw seed step < tG2b <;> simp [ciGeStateStep, isDrop, hd]
    | true => by_cases hd : ciDraw seed step < tB2g <;> simp [ciGeStateStep, isDrop, hd]

/-- Every 64-bit threshold is the threshold of a probability. -/
theorem ciGeThreshold_surjective : Function.Surjective ciGeThreshold := by
  intro t
  by_cases top : t = 0xFFFFFFFFFFFFFFFF
  · exact ⟨1, by rw [top]; rfl⟩
  · by_cases zero : t = 0
    · exact ⟨0, by rw [zero]; rfl⟩
    · have hpos : 0 < t.toNat := by
        have hne : t.toNat ≠ 0 := fun h => zero (UInt64.toNat_inj.mp h)
        omega
      have hlt := t.toNat_lt
      refine ⟨(t.toNat : ℚ) / 18446744073709551616, ?_⟩
      have hlow : ¬ (t.toNat : ℚ) / 18446744073709551616 ≤ 0 := by
        rw [not_le]
        exact div_pos (by exact_mod_cast hpos) (by norm_num)
      have hhigh : ¬ 1 ≤ (t.toNat : ℚ) / 18446744073709551616 := by
        rw [not_le, div_lt_one (by norm_num)]
        exact_mod_cast hlt
      have hfloor : ((t.toNat : ℚ)).floor = (t.toNat : Int) := by
        exact_mod_cast Rat.floor_intCast (t.toNat : Int)
      rw [ciGeThreshold, if_neg hlow, if_neg hhigh, scaledThreshold,
        div_mul_cancel₀ _ (by norm_num), hfloor]
      exact UInt64.ofNat_toNat

theorem transmit_eq_fill (seed : UInt64) (pG2b pB2g : ℚ) (n : Nat) :
    (transmit (ciGeStateInit seed pG2b pB2g) n).2 = (ciGeFill seed pG2b pB2g n).map isDrop :=
  transmit_eq_fillLoop _ n

/-- A shorter vector is a prefix of a longer one. -/
theorem fillLoop_take (s tG2b tB2g i : UInt64) (bad : Bool) (m n : Nat) :
    (fillLoop s tG2b tB2g i bad n).take m = fillLoop s tG2b tB2g i bad (min m n) := by
  induction n generalizing m i bad with
  | zero => simp [fillLoop]
  | succ n ih =>
    cases m with
    | zero => simp [fillLoop]
    | succ m => simp only [fillLoop, List.take_succ_cons, ih, Nat.add_min_add_right]

theorem fillLoop_bit (s tG2b tB2g i : UInt64) (bad : Bool) (n : Nat) (b : UInt8)
    (hb : b ∈ fillLoop s tG2b tB2g i bad n) : b = 0 ∨ b = 1 := by
  induction n generalizing i bad with
  | zero => simp [fillLoop] at hb
  | succ n ih =>
    rw [fillLoop] at hb
    rcases List.mem_cons.mp hb with rfl | htail
    · cases bad
      · exact Or.inl rfl
      · exact Or.inr rfl
    · exact ih _ _ htail

/-- Replaying the vector drops exactly its ones, and keeps what lies beyond it. -/
theorem replay_fill (r : CiDropRule) (seed : UInt64) (pG2b pB2g : ℚ) (n : Nat) (index : UInt64) :
    ciRuleDecide { r with replayVector := some (ciGeFill seed pG2b pB2g n) } index =
      ((ciGeFill seed pG2b pB2g n).map isDrop).getD index.toNat false := by
  simp only [ciRuleDecide, List.getD_eq_getElem?_getD, List.getElem?_map]
  by_cases beyond : (ciGeFill seed pG2b pB2g n).length ≤ index.toNat
  · simp [beyond]
  · have hlt : index.toNat < (ciGeFill seed pG2b pB2g n).length := by omega
    have hbit := fillLoop_bit _ _ _ _ _ _ _ (List.getElem_mem hlt)
    rw [if_neg beyond, List.getElem?_eq_getElem hlt]
    rcases hbit with hbit | hbit <;> simp [hbit, isDrop]

end CspLinksim.Ge
