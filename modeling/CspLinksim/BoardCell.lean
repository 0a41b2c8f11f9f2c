import CspLinksim.Lib.Streaks
import Mathlib.Data.List.Nodup

/-!
# A cell of the board sweep (`satdeploy-board-external-sweep`)

The push loop of one cell. A setup hard-error is tried again, and any other attempt counts as
a pass, also one whose injector leaves no log behind. What an attempt comes back with is an
input. The logs of the cell, the bus capture and the sleeps are left out.
-/

namespace CspLinksim.BoardCell

open Streaks

/-- What `awk` counts in the injector's log: its rows, and those of them that are drops. -/
structure Counts where
  rows : ℕ
  drops : ℕ
  drops_le : drops ≤ rows
  deriving DecidableEq

/-- The injector's log, if it left one, whether the tool says that it has deployed, and what
`agent_up` says where it is asked. -/
structure Pass where
  log : Option Counts
  deployed : Bool
  agentUp : Bool
  deriving DecidableEq

/-- `raw` in an arithmetic expansion; without a log it is empty and counts as 0 there. -/
def Pass.raw (p : Pass) : ℕ := (p.log.map Counts.rows).getD 0

def Pass.drp (p : Pass) : ℕ := (p.log.map Counts.drops).getD 0

/-- The claim that is recorded. -/
inductive Claim where
  | incomplete
  | deployed
  | agentDown
  | stuck
  | abort
  deriving DecidableEq

inductive Reason where
  | harness
  | agentDown
  | setupStuck
  | boardReset
  deriving DecidableEq

/-- `MAX_PASSES` and `SETUP_RETRIES`. -/
structure Limits where
  maxPasses : ℕ
  setupRetries : ℕ

/-- An injector that is started: the numbers in the name of its log, and its seed. -/
structure Start where
  pidx : ℕ
  attempt : ℕ
  pseed : ℕ
  deriving DecidableEq

structure Vars where
  totalInj : ℕ
  totalDrop : ℕ
  result : Claim
  passes : ℕ
  setupFails : ℕ
  attempt : ℕ
  invalid : Option Reason
  starts : List Start
  deriving DecidableEq

def Vars.init : Vars := ⟨0, 0, .incomplete, 0, 0, 0, none, []⟩

/-- Nothing was deployed and nothing was injected. Without a log `[ "" -eq 0 ]` fails. -/
def Pass.hardError (p : Pass) : Bool := !p.deployed && p.log.map Counts.rows = some 0

/-- An attempt, and whether it breaks the loop. -/
def body (l : Limits) (seed : ℕ) (v : Vars) (p : Pass) : Vars × Bool :=
  let v := { v with attempt := v.attempt + 1 }
  let pidx := v.passes + 1
  let pseed := seed * 1000 + pidx * 10 + v.setupFails
  let v := { v with starts := v.starts ++ [Start.mk pidx v.attempt pseed] }
  if p.hardError then
    if !p.agentUp then ({ v with result := .agentDown, invalid := some .agentDown }, true)
    else
      let v := { v with setupFails := v.setupFails + 1 }
      if v.setupFails ≥ l.setupRetries then
        ({ v with result := .stuck, invalid := some .setupStuck }, true)
      else (v, false)
  else
    let v :=
      { v with
        totalInj := v.totalInj + p.raw
        totalDrop := v.totalDrop + p.drp
        passes := v.passes + 1
        -- the rule counts hard-errors in a row
        setupFails := 0 }
    if p.deployed then ({ v with result := .deployed }, true) else (v, false)

/-- The loop; `pass` says what becomes of each attempt, by its number. -/
def loop (l : Limits) (seed : ℕ) (pass : ℕ → Pass) : ℕ → Vars → Option Vars
  | 0, v => if v.passes < l.maxPasses then none else some v
  | fuel + 1, v =>
    if v.passes < l.maxPasses then
      match body l seed v (pass (v.attempt + 1)) with
      | (v, true) => some v
      | (v, false) => loop l seed pass fuel v
    else some v

/-- So many hard-errors in a row are too many. -/
def Limits.tooMany (l : Limits) : ℕ := max 1 l.setupRetries

/-- Attempts that are enough for every cell. -/
def Limits.fuel (l : Limits) : ℕ := l.maxPasses * l.tooMany

/-- The cell, once the agent has answered. -/
def cell (l : Limits) (seed : ℕ) (pass : ℕ → Pass) : Option Vars := loop l seed pass l.fuel .init

def nextStart (seed : ℕ) (v : Vars) : Start where
  pidx := v.passes + 1
  attempt := v.attempt + 1
  pseed := seed * 1000 + (v.passes + 1) * 10 + v.setupFails

/-- A hard-error that does not end the cell. -/
def retried (seed : ℕ) (v : Vars) : Vars :=
  { v with
    attempt := v.attempt + 1
    setupFails := v.setupFails + 1
    starts := v.starts ++ [nextStart seed v] }

/-- A pass that is counted. -/
def counted (seed : ℕ) (v : Vars) (p : Pass) : Vars :=
  { v with
    totalInj := v.totalInj + p.raw
    totalDrop := v.totalDrop + p.drp
    passes := v.passes + 1
    setupFails := 0
    attempt := v.attempt + 1
    starts := v.starts ++ [nextStart seed v] }

theorem body_continues {l : Limits} {seed : ℕ} {v w : Vars} {p : Pass}
    (goesOn : body l seed v p = (w, false)) :
    (p.hardError = true ∧ p.agentUp = true ∧ v.setupFails + 1 < l.setupRetries ∧
        w = retried seed v) ∨
      (p.hardError = false ∧ p.deployed = false ∧ w = counted seed v p) := by
  rw [body] at goesOn
  cases hard : p.hardError with
  | true =>
    cases up : p.agentUp with
    | false => simp [hard, up] at goesOn
    | true =>
      by_cases many : v.setupFails + 1 ≥ l.setupRetries
      · simp [hard, up, many] at goesOn
      · refine .inl ⟨rfl, rfl, Nat.not_le.mp many, ?_⟩
        simpa [hard, up, many, retried, nextStart] using goesOn.symm
  | false =>
    cases done : p.deployed with
    | true => simp [hard, done] at goesOn
    | false =>
      refine .inr ⟨rfl, rfl, ?_⟩
      simpa [hard, done, counted, nextStart] using goesOn.symm

theorem body_breaks {l : Limits} {seed : ℕ} {v w : Vars} {p : Pass}
    (ends : body l seed v p = (w, true)) :
    (p.hardError = true ∧ p.agentUp = false ∧
        w = { retried seed v with
          setupFails := v.setupFails, result := .agentDown, invalid := some .agentDown }) ∨
      (p.hardError = true ∧ p.agentUp = true ∧ l.setupRetries ≤ v.setupFails + 1 ∧
        w = { retried seed v with result := .stuck, invalid := some .setupStuck }) ∨
      (p.hardError = false ∧ p.deployed = true ∧
        w = { counted seed v p with result := .deployed }) := by
  rw [body] at ends
  cases hard : p.hardError with
  | true =>
    cases up : p.agentUp with
    | false =>
      refine .inl ⟨rfl, rfl, ?_⟩
      simpa [hard, up, retried, nextStart] using ends.symm
    | true =>
      by_cases many : v.setupFails + 1 ≥ l.setupRetries
      · refine .inr (.inl ⟨rfl, rfl, many, ?_⟩)
        simpa [hard, up, many, retried, nextStart] using ends.symm
      · simp [hard, up, many] at ends
  | false =>
    cases done : p.deployed with
    | false => simp [hard, done] at ends
    | true =>
      refine .inr (.inr ⟨rfl, rfl, ?_⟩)
      simpa [hard, done, counted, nextStart] using ends.symm

theorem Pass.hardError_iff (p : Pass) :
    p.hardError = true ↔ p.deployed = false ∧ p.log.map Counts.rows = some 0 := by
  simp [Pass.hardError]

theorem Pass.raw_of_hardError {p : Pass} (hard : p.hardError = true) : p.raw = 0 := by
  rw [Pass.raw, (p.hardError_iff.mp hard).2]
  rfl

theorem Pass.drp_of_hardError {p : Pass} (hard : p.hardError = true) : p.drp = 0 := by
  obtain ⟨counts, log, rows⟩ := Option.map_eq_some_iff.mp (p.hardError_iff.mp hard).2
  have bound := counts.drops_le
  rw [Pass.drp, log]
  simp only [Option.map_some, Option.getD_some]
  omega

theorem Limits.one_le_tooMany (l : Limits) : 1 ≤ l.tooMany := Nat.le_max_left 1 l.setupRetries

/-- The loop has gone through these passes and has not ended. -/
structure Running (l : Limits) (seen : List Pass) (v : Vars) : Prop where
  attempt : v.attempt = seen.length
  claim : v.result = .incomplete
  valid : v.invalid = none
  inj : v.totalInj = (seen.map Pass.raw).sum
  drop : v.totalDrop = (seen.map Pass.drp).sum
  passes : v.passes = seen.countP fun p => !p.hardError
  noneDeployed : ∀ p ∈ seen, p.deployed = false
  answered : ∀ p ∈ seen, p.hardError = true → p.agentUp = true
  streak : ∃ worst, Longest Pass.hardError seen v.setupFails worst ∧ worst < l.tooMany
  bound : v.attempt ≤ v.passes * l.tooMany + v.setupFails

theorem running_init (l : Limits) : Running l [] .init where
  attempt := rfl
  claim := rfl
  valid := rfl
  inj := rfl
  drop := rfl
  passes := rfl
  noneDeployed := by simp
  answered := by simp
  streak := ⟨0, longest_nil _, l.one_le_tooMany⟩
  bound := Nat.zero_le _

theorem Running.fails_lt {l : Limits} {seen : List Pass} {v : Vars} (r : Running l seen v) :
    v.setupFails < l.tooMany := by
  obtain ⟨worst, longest, few⟩ := r.streak
  exact lt_of_le_of_lt longest.run_le few

/-- The counters of the loop after one more pass. -/
structure Sums (seen : List Pass) (v : Vars) : Prop where
  attempt : v.attempt = seen.length
  inj : v.totalInj = (seen.map Pass.raw).sum
  drop : v.totalDrop = (seen.map Pass.drp).sum
  passes : v.passes = seen.countP fun p => !p.hardError

theorem Running.retriedSums {l : Limits} {seen : List Pass} {v : Vars} (r : Running l seen v)
    (seed : ℕ) {p : Pass} (hard : p.hardError = true) : Sums (seen ++ [p]) (retried seed v) where
  attempt := by simp [BoardCell.retried, r.attempt]
  inj := by simp [BoardCell.retried, r.inj, Pass.raw_of_hardError hard]
  drop := by simp [BoardCell.retried, r.drop, Pass.drp_of_hardError hard]
  passes := by simp [BoardCell.retried, r.passes, hard]

theorem Running.countedSums {l : Limits} {seen : List Pass} {v : Vars} (r : Running l seen v)
    (seed : ℕ) {p : Pass} (carries : p.hardError = false) :
    Sums (seen ++ [p]) (counted seed v p) where
  attempt := by simp [BoardCell.counted, r.attempt]
  inj := by simp [BoardCell.counted, r.inj]
  drop := by simp [BoardCell.counted, r.drop]
  passes := by simp [BoardCell.counted, r.passes, carries]

theorem Running.retried {l : Limits} {seen : List Pass} {v : Vars} (r : Running l seen v)
    (seed : ℕ) {p : Pass} (hard : p.hardError = true) (up : p.agentUp = true)
    (lt : v.setupFails + 1 < l.setupRetries) :
    Running l (seen ++ [p]) (retried seed v) := by
  have notDeployed := (p.hardError_iff.mp hard).1
  have inTime : v.setupFails + 1 < l.tooMany := lt_of_lt_of_le lt (Nat.le_max_right _ _)
  have sums := r.retriedSums seed hard
  refine ⟨sums.attempt, r.claim, r.valid, sums.inj, sums.drop, sums.passes, ?_, ?_, ?_, ?_⟩
  · simpa [or_imp, forall_and] using ⟨r.noneDeployed, notDeployed⟩
  · intro q hq
    rcases List.mem_append.mp hq with early | last
    · exact r.answered q early
    · rw [List.mem_singleton.mp last]
      exact fun _ => up
  · obtain ⟨worst, longest, few⟩ := r.streak
    exact ⟨_, longest.snoc hard, Nat.max_lt.mpr ⟨few, inTime⟩⟩
  · have bound := r.bound
    simp only [BoardCell.retried]
    omega

theorem Running.counted {l : Limits} {seen : List Pass} {v : Vars} (r : Running l seen v)
    (seed : ℕ) {p : Pass} (carries : p.hardError = false) (notDeployed : p.deployed = false) :
    Running l (seen ++ [p]) (counted seed v p) := by
  have sums := r.countedSums seed carries
  refine ⟨sums.attempt, r.claim, r.valid, sums.inj, sums.drop, sums.passes, ?_, ?_, ?_, ?_⟩
  · simpa [or_imp, forall_and] using ⟨r.noneDeployed, notDeployed⟩
  · intro q hq hard
    rcases List.mem_append.mp hq with early | last
    · exact r.answered q early hard
    · rw [List.mem_singleton.mp last, carries] at hard
      cases hard
  · obtain ⟨worst, longest, few⟩ := r.streak
    exact ⟨_, longest.break carries, few⟩
  · have bound := r.bound
    have lt := r.fails_lt
    have grown : (v.passes + 1) * l.tooMany = v.passes * l.tooMany + l.tooMany :=
      Nat.succ_mul v.passes l.tooMany
    simp only [BoardCell.counted, grown]
    omega

/-- An attempt that does not end the loop. -/
theorem Running.body {l : Limits} {seen : List Pass} {v w : Vars} (r : Running l seen v)
    {seed : ℕ} {p : Pass} (goesOn : BoardCell.body l seed v p = (w, false)) :
    Running l (seen ++ [p]) w := by
  rcases body_continues goesOn with ⟨hard, up, lt, rfl⟩ | ⟨carries, notDeployed, rfl⟩
  · exact r.retried seed hard up lt
  · exact r.counted seed carries notDeployed

/-- The reason for which a claim excludes the cell. -/
def Claim.excluded : Claim → Option Reason
  | .agentDown => some .agentDown
  | .stuck => some .setupStuck
  | _ => none

/-- What the passes of a cell make of it. -/
structure Outcome (l : Limits) (seen : List Pass) (v : Vars) : Prop where
  attempt : v.attempt = seen.length
  inj : v.totalInj = (seen.map Pass.raw).sum
  drop : v.totalDrop = (seen.map Pass.drp).sum
  passes : v.passes = seen.countP fun p => !p.hardError
  passes_le : v.passes ≤ l.maxPasses
  bound : v.attempt ≤ l.fuel
  deployed : v.result = .deployed ↔ ∃ p ∈ seen, p.deployed = true
  agentDown : v.result = .agentDown ↔ ∃ p ∈ seen, p.hardError = true ∧ p.agentUp = false
  stuck : v.result = .stuck ↔ ∃ fails, fails <:+: seen ∧ fails.length = l.tooMany ∧
    ∀ p ∈ fails, p.hardError = true ∧ p.agentUp = true
  incomplete : v.result = .incomplete ↔
    v.passes = l.maxPasses ∧ ∀ p ∈ seen, p.deployed = false
  noAbort : v.result ≠ .abort
  invalid : v.invalid = v.result.excluded

theorem within_fuel {l : Limits} {passes fails : ℕ} (lt : passes < l.maxPasses)
    (few : fails < l.tooMany) : passes * l.tooMany + fails + 1 ≤ l.fuel := by
  have row : (passes + 1) * l.tooMany ≤ l.maxPasses * l.tooMany :=
    Nat.mul_le_mul_right l.tooMany lt
  rw [Nat.succ_mul] at row
  rw [Limits.fuel]
  omega

/-- Too many hard-errors in a row are not found in a cell whose last pass is not one of them. -/
theorem Running.notStuck {l : Limits} {seen : List Pass} {v : Vars} (r : Running l seen v)
    {p : Pass} (last : ¬ (p.hardError = true ∧ p.agentUp = true)) :
    ¬ ∃ fails, fails <:+: seen ++ [p] ∧ fails.length = l.tooMany ∧
      ∀ p ∈ fails, p.hardError = true ∧ p.agentUp = true := by
  rintro ⟨fails, within, length, all⟩
  have hard : ∀ q ∈ fails, q.hardError = true := fun q hq => (all q hq).1
  obtain ⟨worst, longest, few⟩ := r.streak
  have one := l.one_le_tooMany
  rcases List.infix_concat_iff.mp within with suffix | within
  · rcases streak_concat suffix hard with rfl | ⟨-, rest, rfl, -, -⟩
    · rw [← length] at one
      cases one
    · exact last (all p (by simp))
  · have short := longest.anywhere fails within hard
    omega

/-- With one more pass that answers, or is none of the hard-errors, no silent agent was met. -/
theorem Running.noneSilent {l : Limits} {seen : List Pass} {v : Vars} (r : Running l seen v)
    {p : Pass} (answers : p.hardError = true → p.agentUp = true) :
    ∀ q ∈ seen ++ [p], q.hardError = true → q.agentUp = true := by
  intro q hq hard
  rcases List.mem_append.mp hq with early | last
  · exact r.answered q early hard
  · rw [List.mem_singleton.mp last] at hard ⊢
    exact answers hard

/-- Too many hard-errors in a row stand at the end of a cell that the last one breaks. -/
theorem Running.stuckAtEnd {l : Limits} {seen : List Pass} {v : Vars} (r : Running l seen v)
    {p : Pass} (hard : p.hardError = true) (up : p.agentUp = true)
    (many : l.setupRetries ≤ v.setupFails + 1) :
    ∃ fails, fails <:+: seen ++ [p] ∧ fails.length = l.tooMany ∧
      ∀ p ∈ fails, p.hardError = true ∧ p.agentUp = true := by
  obtain ⟨worst, longest, -⟩ := r.streak
  obtain ⟨fails, suffix, all, length⟩ := (longest.snoc hard).ends
  have exactly : v.setupFails + 1 = l.tooMany := by
    have most := r.fails_lt
    have least := Nat.max_le.mpr ⟨Nat.succ_pos v.setupFails, many⟩
    exact Nat.le_antisymm most least
  refine ⟨fails, suffix.isInfix, length.trans exactly, fun q hq => ⟨all q hq, ?_⟩⟩
  exact r.noneSilent (fun _ => up) q (suffix.subset hq) (all q hq)

/-- The cell ends by a `break`. -/
theorem Running.breaks {l : Limits} {seen : List Pass} {v w : Vars} (r : Running l seen v)
    (lt : v.passes < l.maxPasses) {seed : ℕ} {p : Pass}
    (ends : BoardCell.body l seed v p = (w, true)) : Outcome l (seen ++ [p]) w := by
  have inFuel : v.attempt + 1 ≤ l.fuel := by
    have fuel := within_fuel lt r.fails_lt
    have bound := r.bound
    omega
  rcases body_breaks ends with ⟨hard, down, rfl⟩ | ⟨hard, up, many, rfl⟩ | ⟨carries, done, rfl⟩
  · have notDeployed := (p.hardError_iff.mp hard).1
    have sums := r.retriedSums seed hard
    refine ⟨sums.attempt, sums.inj, sums.drop, sums.passes, lt.le, inFuel, ?_, ?_, ?_, ?_,
      by simp, rfl⟩
    · simpa [or_imp, forall_and] using ⟨r.noneDeployed, notDeployed⟩
    · simpa using Or.inr ⟨hard, down⟩
    · have last : ¬ (p.hardError = true ∧ p.agentUp = true) := by simp [down]
      simpa using r.notStuck last
    · simp [BoardCell.retried, lt.ne]
  · have notDeployed := (p.hardError_iff.mp hard).1
    have sums := r.retriedSums seed hard
    refine ⟨sums.attempt, sums.inj, sums.drop, sums.passes, lt.le, inFuel, ?_, ?_, ?_, ?_,
      by simp, rfl⟩
    · simpa [or_imp, forall_and] using ⟨r.noneDeployed, notDeployed⟩
    · simpa [or_imp, forall_and] using r.noneSilent fun _ => up
    · exact iff_of_true rfl (r.stuckAtEnd hard up many)
    · simp [BoardCell.retried, lt.ne]
  · have sums := r.countedSums seed carries
    refine ⟨sums.attempt, sums.inj, sums.drop, sums.passes, lt, inFuel, ?_, ?_, ?_, ?_, by simp, ?_⟩
    · simpa using Or.inr done
    · have answers : p.hardError = true → p.agentUp = true := by simp [carries]
      simpa [or_imp, forall_and] using r.noneSilent answers
    · have last : ¬ (p.hardError = true ∧ p.agentUp = true) := by simp [carries]
      simpa using r.notStuck last
    · simp [done]
    · exact r.valid

/-- The cell ends because its passes are used up. -/
theorem Running.usedUp {l : Limits} {seen : List Pass} {v : Vars} (r : Running l seen v)
    (all : v.passes = l.maxPasses) (noFails : v.setupFails = 0) : Outcome l seen v := by
  refine ⟨r.attempt, r.inj, r.drop, r.passes, all.le, ?_, ?_, ?_, ?_, ?_, ?_, ?_⟩
  · have bound := r.bound
    rwa [all, noFails] at bound
  · simpa [r.claim] using r.noneDeployed
  · simp only [r.claim, reduceCtorEq, false_iff, not_exists, not_and, Bool.not_eq_false]
    exact r.answered
  · simp only [r.claim, reduceCtorEq, false_iff, not_exists, not_and]
    intro fails within length hard
    obtain ⟨worst, longest, few⟩ := r.streak
    have short := longest.anywhere fails within fun p hp => (hard p hp).1
    omega
  · simpa [r.claim, all] using r.noneDeployed
  · simp [r.claim]
  · rw [r.valid, r.claim]
    rfl

/-- The passes of the first attempts. -/
def firstPasses (pass : ℕ → Pass) (n : ℕ) : List Pass := (List.range n).map fun i => pass (i + 1)

theorem firstPasses_succ (pass : ℕ → Pass) (n : ℕ) :
    firstPasses pass (n + 1) = firstPasses pass n ++ [pass (n + 1)] := by
  simp [firstPasses, List.range_succ]

theorem loop_outcome {l : Limits} {seed : ℕ} {pass : ℕ → Pass} (fuel : ℕ) {v : Vars}
    (r : Running l (firstPasses pass v.attempt) v)
    (inside : v.passes < l.maxPasses ∨ v.passes = l.maxPasses ∧ v.setupFails = 0)
    (enough : l.fuel ≤ fuel + v.passes * l.tooMany + v.setupFails) :
    ∃ w, loop l seed pass fuel v = some w ∧ Outcome l (firstPasses pass w.attempt) w := by
  induction fuel generalizing v with
  | zero =>
    rcases inside with lt | ⟨all, noFails⟩
    · have more := within_fuel lt r.fails_lt
      omega
    · refine ⟨v, ?_, r.usedUp all noFails⟩
      rw [loop, if_neg (by omega)]
  | succ fuel ih =>
    rcases inside with lt | ⟨all, noFails⟩
    · rw [loop, if_pos lt]
      obtain ⟨w, stop, result⟩ : ∃ w stop, body l seed v (pass (v.attempt + 1)) = (w, stop) :=
        ⟨_, _, rfl⟩
      rw [result]
      cases stop with
      | true =>
        have outcome := r.breaks lt result
        have attempts : w.attempt = v.attempt + 1 := by
          rw [outcome.attempt, List.length_append, ← r.attempt, List.length_singleton]
        refine ⟨w, rfl, ?_⟩
        rwa [attempts, firstPasses_succ]
      | false =>
        have next := r.body result
        have attempts : w.attempt = v.attempt + 1 := by
          rw [next.attempt, List.length_append, ← r.attempt, List.length_singleton]
        rw [← firstPasses_succ, ← attempts] at next
        refine ih next ?_ ?_
        · rcases body_continues result with ⟨-, -, -, rfl⟩ | ⟨-, -, rfl⟩
          · exact .inl lt
          · rcases Nat.lt_or_eq_of_le (Nat.succ_le_of_lt lt) with more | last
            · exact .inl more
            · exact .inr ⟨last, rfl⟩
        · have few := r.fails_lt
          rcases body_continues result with ⟨-, -, -, rfl⟩ | ⟨-, -, rfl⟩
          · simp only [retried]
            omega
          · simp only [counted, Nat.succ_mul]
            omega
    · refine ⟨v, ?_, r.usedUp all noFails⟩
      rw [loop, if_neg (by omega)]

/-- Whatever the passes bring, the cell ends, after few attempts, and its claim, its exclusion and
its totals are what the rule makes of them. -/
theorem cell_outcome (l : Limits) (seed : ℕ) (pass : ℕ → Pass) :
    ∃ v, cell l seed pass = some v ∧ Outcome l (firstPasses pass v.attempt) v := by
  refine loop_outcome l.fuel (v := .init) (running_init l) ?_ (Nat.le_add_right _ _)
  rcases Nat.eq_zero_or_pos l.maxPasses with zero | positive
  · exact .inr ⟨zero.symm, rfl⟩
  · exact .inl positive

/-- The seeds grow, and stay with the thousand of the cell's own seed. -/
structure Seeded (l : Limits) (seed : ℕ) (starts : List Start) : Prop where
  sorted : (starts.map Start.pseed).Pairwise (· < ·)
  above : ∀ s ∈ starts, seed * 1000 < s.pseed
  below : ∀ s ∈ starts, s.pseed < seed * 1000 + l.maxPasses * 10 + 10

theorem Seeded.snoc {l : Limits} {seed : ℕ} {v : Vars} (f : Seeded l seed v.starts)
    (next : ∀ s ∈ v.starts, s.pseed < (nextStart seed v).pseed) (lt : v.passes < l.maxPasses)
    (digit : v.setupFails < 10) : Seeded l seed (v.starts ++ [nextStart seed v]) := by
  refine ⟨?_, ?_, ?_⟩
  · rw [List.map_append, List.pairwise_append]
    refine ⟨f.sorted, by simp, ?_⟩
    intro a ha b hb
    obtain ⟨s, hs, rfl⟩ := List.mem_map.mp ha
    obtain rfl : b = (nextStart seed v).pseed := by simpa using hb
    exact next s hs
  · intro s hs
    rcases List.mem_append.mp hs with early | last
    · exact f.above s early
    · rw [List.mem_singleton.mp last]
      simp only [nextStart]
      omega
  · intro s hs
    rcases List.mem_append.mp hs with early | last
    · exact f.below s early
    · rw [List.mem_singleton.mp last]
      simp only [nextStart]
      omega

def samplePass : Pass := ⟨some ⟨12, 3, by decide⟩, false, true⟩

end CspLinksim.BoardCell
