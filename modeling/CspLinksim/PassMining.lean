import CspLinksim.Lib.Streaks
import CspLinksim.Ge

/-!
# Channel statistics from session logs (`mine-pass-logs`)

The run-length loop keeps no list of outcomes: it counts a streak up and books it when it ends.
The fit at the end is in exact arithmetic, where it is the inverse of the injector's mapping.
-/

namespace CspLinksim.PassMining

open Streaks Ge

/-- What a log keeps of a ping: the node, and the milliseconds of a reply. -/
structure Ping where
  node : ℕ
  reply : Option ℕ
  deriving DecidableEq

structure Outcomes where
  ok : ℕ → ℕ
  miss : ℕ → ℕ
  rtt : ℕ → ℕ
  mx : ℕ → ℕ

def Outcomes.none : Outcomes := ⟨fun _ => 0, fun _ => 0, fun _ => 0, fun _ => 0⟩

/-- `a[i] += d`. -/
def bump (a : ℕ → ℕ) (i d : ℕ) : ℕ → ℕ := fun j => if j = i then a j + d else a j

def outcomeStep (t : Outcomes) (p : Ping) : Outcomes :=
  match p.reply with
  | .none => { t with miss := bump t.miss p.node 1 }
  | some ms =>
    { t with
      ok := bump t.ok p.node 1
      rtt := bump t.rtt p.node ms
      mx := if t.mx p.node < ms then fun j => if j = p.node then ms else t.mx j else t.mx }

def pingOutcomes (logs : List (List Ping)) : Outcomes := logs.flatten.foldl outcomeStep .none

/-- `K` and `L`. -/
inductive Outcome where
  | reply
  | lost
  deriving DecidableEq

inductive Line where
  | outcome (o : Outcome)
  | brk
  deriving DecidableEq

def Ping.outcome (p : Ping) : Outcome := if p.reply = .none then .lost else .reply

/-- The outcomes that a session has for the node. -/
def outcomesTo (sat : ℕ) (log : List Ping) : List Outcome :=
  (log.filter fun p => p.node = sat).map Ping.outcome

structure Vars where
  run : ℕ
  state : Option Outcome
  lr : ℕ → ℕ
  ln : ℕ
  ls : ℕ
  kr : ℕ → ℕ
  kn : ℕ
  ks : ℕ

def Vars.init : Vars := ⟨0, none, fun _ => 0, 0, 0, fun _ => 0, 0, 0⟩

def flush (v : Vars) : Vars :=
  let v :=
    if 0 < v.run then
      if v.state = some .lost then
        { v with lr := bump v.lr v.run 1, ln := v.ln + 1, ls := v.ls + v.run }
      else
        { v with kr := bump v.kr v.run 1, kn := v.kn + 1, ks := v.ks + v.run }
    else v
  { v with run := 0, state := none }

def line (v : Vars) : Line → Vars
  | .brk => flush v
  | .outcome o =>
    if some o = v.state then { v with run := v.run + 1 }
    else { flush v with state := some o, run := 1 }

/-- What the loop over the logs prints: the outcomes of each session, then `BREAK`. -/
def lines (sat : ℕ) (logs : List (List Ping)) : List Line :=
  logs.flatMap fun log => (outcomesTo sat log).map Line.outcome ++ [.brk]

/-- The variables after the flush of `END`. -/
def runLengths (sat : ℕ) (logs : List (List Ping)) : Vars :=
  flush ((lines sat logs).foldl line .init)

structure Fit where
  meanLoss : ℚ
  meanGood : ℚ
  pg2b : ℚ
  pb2g : ℚ
  stationaryLoss : ℚ
  burst : ℚ
  deriving DecidableEq

/-- The numbers that `END` prints, or `no runs found`. -/
def fit (v : Vars) : Option Fit :=
  if v.ln = 0 ∨ v.kn = 0 then none
  else
    let pg2b : ℚ := v.kn / v.ks
    let pb2g : ℚ := v.ln / v.ls
    some
      { meanLoss := v.ls / v.ln
        meanGood := v.ks / v.kn
        pg2b := pg2b
        pb2g := pb2g
        stationaryLoss := 100 * pg2b / (pg2b + pb2g)
        burst := v.ls / v.ln }

/-- A streak, booked. -/
def book (v : Vars) (r : Outcome × ℕ) : Vars :=
  match r.1 with
  | .lost => { v with lr := bump v.lr r.2 1, ln := v.ln + 1, ls := v.ls + r.2 }
  | .reply => { v with kr := bump v.kr r.2 1, kn := v.kn + 1, ks := v.ks + r.2 }

theorem flush_clean (v : Vars) (clean : v.run = 0) (idle : v.state = none) : flush v = v := by
  rcases v with ⟨run, state, lr, ln, ls, kr, kn, ks⟩
  subst clean idle
  rfl

/-- The end of a streak books it. -/
theorem flush_streak (v : Vars) (o : Outcome) (n : ℕ) (nonempty : 0 < n) :
    flush { flush v with state := some o, run := n } = book (flush v) (o, n) := by
  rw [flush]
  simp only [nonempty, if_true]
  cases o with
  | lost => simp [book, flush]
  | reply => simp [book, flush]

theorem line_repeat (v : Vars) (o : Outcome) (n : ℕ) (same : v.state = some o) :
    (List.replicate n (Line.outcome o)).foldl line v = { v with run := v.run + n } := by
  induction n generalizing v with
  | zero => rfl
  | succ n ih =>
    have step : line v (.outcome o) = { v with run := v.run + 1 } := by
      simp [line, same]
    rw [List.replicate_succ, List.foldl_cons, step, ih { v with run := v.run + 1 } same]
    simp [Nat.add_assoc, Nat.add_comm 1 n]

/-- A streak of another symbol ends the one before and is counted up. -/
theorem line_streak (v : Vars) (o : Outcome) (n : ℕ) (nonempty : 0 < n)
    (other : v.state ≠ some o) :
    (List.replicate n (Line.outcome o)).foldl line v =
      { flush v with state := some o, run := n } := by
  obtain ⟨m, rfl⟩ := Nat.exists_eq_succ_of_ne_zero nonempty.ne'
  have step : line v (.outcome o) = { flush v with state := some o, run := 1 } := by
    simp [line, Ne.symm other]
  rw [List.replicate_succ, List.foldl_cons, step,
    line_repeat { flush v with state := some o, run := 1 } o m rfl]
  simp [Nat.add_comm 1 m]

/-- Maximal streaks are booked one after the other. -/
theorem flush_expand (runs : List (Outcome × ℕ)) (positive : ∀ r ∈ runs, 0 < r.2)
    (apart : runs.IsChain fun r s => r.1 ≠ s.1) (v : Vars)
    (other : ∀ r ∈ runs.head?, v.state ≠ some r.1) :
    flush (((expand runs).map Line.outcome).foldl line v) = runs.foldl book (flush v) := by
  induction runs generalizing v with
  | nil => rfl
  | cons r runs ih =>
    obtain ⟨o, n⟩ := r
    have nonempty : 0 < n := positive (o, n) List.mem_cons_self
    have differs : v.state ≠ some o := other (o, n) rfl
    rw [expand_cons, List.map_append, List.map_replicate, List.foldl_append,
      line_streak v o n nonempty differs, List.foldl_cons, ← flush_streak v o n nonempty]
    refine ih (fun r later => positive r (List.mem_cons_of_mem _ later)) apart.tail _ ?_
    intro next first
    cases runs with
    | nil => simp at first
    | cons s rest =>
      obtain rfl : s = next := by simpa using first
      have ends : o ≠ s.1 := (List.isChain_cons_cons.mp apart).1
      simpa using ends

/-- A session is booked as its streaks, and no streak crosses into the next one. -/
theorem session_booked (log : List Outcome) (s : RunLengths Outcome)
    (expands : expand s.runs = log) (v : Vars) (clean : v.run = 0) (idle : v.state = none) :
    (log.map Line.outcome ++ [Line.brk]).foldl line v = s.runs.foldl book v := by
  have other : ∀ r ∈ s.runs.head?, v.state ≠ some r.1 := by
    intro r _
    rw [idle]
    exact Option.some_ne_none r.1 |>.symm
  have booked := flush_expand s.runs s.positive s.apart v other
  rw [flush_clean v clean idle, expands] at booked
  rw [List.foldl_append]
  exact booked

@[simp] theorem book_run (v : Vars) (r : Outcome × ℕ) : (book v r).run = v.run := by
  unfold book
  split <;> rfl

@[simp] theorem book_state (v : Vars) (r : Outcome × ℕ) : (book v r).state = v.state := by
  unfold book
  split <;> rfl

theorem booked_clean (runs : List (Outcome × ℕ)) (v : Vars) :
    (runs.foldl book v).run = v.run ∧ (runs.foldl book v).state = v.state := by
  induction runs generalizing v with
  | nil => exact ⟨rfl, rfl⟩
  | cons r runs ih =>
    rw [List.foldl_cons]
    simpa using ih (book v r)

/-- The sessions of all logs, each as its own maximal streaks. -/
theorem sessions_booked (sat : ℕ) (logs : List (List Ping)) (v : Vars) (clean : v.run = 0)
    (idle : v.state = none) :
    ∃ passes : List (RunLengths Outcome),
      passes.map (fun p => expand p.runs) = logs.map (outcomesTo sat) ∧
        (lines sat logs).foldl line v = (passes.flatMap RunLengths.runs).foldl book v := by
  induction logs generalizing v with
  | nil => exact ⟨[], rfl, rfl⟩
  | cons log logs ih =>
    obtain ⟨first, expands⟩ := exists_streaks (outcomesTo sat log)
    obtain ⟨stillClean, stillIdle⟩ := booked_clean first.runs v
    obtain ⟨passes, each, rest⟩ :=
      ih (first.runs.foldl book v) (stillClean.trans clean) (stillIdle.trans idle)
    refine ⟨first :: passes, by rw [List.map_cons, List.map_cons, expands, each], ?_⟩
    rw [lines, List.flatMap_cons, List.foldl_append,
      session_booked (outcomesTo sat log) first expands v clean idle, List.flatMap_cons,
      List.foldl_append]
    exact rest

/-- The counters are those of a list of streaks. -/
structure Booked (v : Vars) (runs : List (Outcome × ℕ)) : Prop where
  lr : ∀ k, v.lr k = runs.count (.lost, k)
  ln : v.ln = runs.countP fun r => r.1 = .lost
  ls : v.ls = (expand runs).count .lost
  kr : ∀ k, v.kr k = runs.count (.reply, k)
  kn : v.kn = runs.countP fun r => r.1 = .reply
  ks : v.ks = (expand runs).count .reply

theorem booked_init : Booked .init [] := ⟨fun _ => rfl, rfl, rfl, fun _ => rfl, rfl, rfl⟩

theorem bump_count {a : ℕ → ℕ} {o : Outcome} {runs : List (Outcome × ℕ)}
    (counts : ∀ k, a k = runs.count (o, k)) (n k : ℕ) :
    bump a n 1 k = (runs ++ [(o, n)]).count (o, k) := by
  rw [List.count_append, List.count_singleton, ← counts k, bump]
  by_cases same : k = n
  · simp [same]
  · simp [same, Ne.symm same]

theorem other_count {a : ℕ → ℕ} {o o' : Outcome} {runs : List (Outcome × ℕ)}
    (counts : ∀ k, a k = runs.count (o, k)) (differ : o' ≠ o) (n k : ℕ) :
    a k = (runs ++ [(o', n)]).count (o, k) := by
  rw [List.count_append, List.count_singleton, ← counts k]
  simp [differ]

theorem Booked.book {v : Vars} {runs : List (Outcome × ℕ)} (b : Booked v runs)
    (r : Outcome × ℕ) : Booked (book v r) (runs ++ [r]) := by
  obtain ⟨o, n⟩ := r
  cases o with
  | lost =>
    refine ⟨bump_count b.lr n, ?_, ?_, other_count b.kr (by simp) n, ?_, ?_⟩
    · simp [PassMining.book, b.ln]
    · simp [PassMining.book, b.ls]
    · simp [PassMining.book, b.kn]
    · simp [PassMining.book, b.ks, List.count_replicate]
  | reply =>
    refine ⟨other_count b.lr (by simp) n, ?_, ?_, bump_count b.kr n, ?_, ?_⟩
    · simp [PassMining.book, b.ln]
    · simp [PassMining.book, b.ls, List.count_replicate]
    · simp [PassMining.book, b.kn]
    · simp [PassMining.book, b.ks]

theorem Booked.foldl {v : Vars} {runs : List (Outcome × ℕ)} (b : Booked v runs)
    (more : List (Outcome × ℕ)) : Booked (more.foldl PassMining.book v) (runs ++ more) := by
  induction more generalizing v runs with
  | nil => simpa using b
  | cons r more ih => simpa using ih (b.book r)

/-- The two counts of a node in the table of all sessions. -/
theorem outcomes_fold (sat : ℕ) (pings : List Ping) (t : Outcomes) :
    (pings.foldl outcomeStep t).miss sat = t.miss sat + (outcomesTo sat pings).count .lost ∧
      (pings.foldl outcomeStep t).ok sat = t.ok sat + (outcomesTo sat pings).count .reply := by
  induction pings generalizing t with
  | nil => exact ⟨rfl, rfl⟩
  | cons p pings ih =>
    obtain ⟨misses, oks⟩ := ih (outcomeStep t p)
    obtain ⟨node, reply⟩ := p
    rw [List.foldl_cons, misses, oks]
    by_cases same : node = sat
    · cases reply with
      | none => simp [outcomeStep, outcomesTo, Ping.outcome, bump, same]; omega
      | some ms => simp [outcomeStep, outcomesTo, Ping.outcome, bump, same]; omega
    · cases reply with
      | none => simp [outcomeStep, outcomesTo, bump, same, Ne.symm same]
      | some ms => simp [outcomeStep, outcomesTo, bump, same, Ne.symm same]

theorem countP_not_lost (runs : List (Outcome × ℕ)) :
    runs.countP (fun r => r.1 ≠ .lost) = runs.countP fun r => r.1 = .reply := by
  refine List.countP_congr ?_
  rintro ⟨o, n⟩ -
  cases o <;> simp

theorem countP_not_reply (runs : List (Outcome × ℕ)) :
    runs.countP (fun r => r.1 ≠ .reply) = runs.countP fun r => r.1 = .lost := by
  refine List.countP_congr ?_
  rintro ⟨o, n⟩ -
  cases o <;> simp

/-- In one session the two kinds of streaks take turns. -/
theorem session_balanced (s : RunLengths Outcome) :
    s.runs.countP (fun r => r.1 = .lost) ≤ s.runs.countP (fun r => r.1 = .reply) + 1 ∧
      s.runs.countP (fun r => r.1 = .reply) ≤ s.runs.countP (fun r => r.1 = .lost) + 1 := by
  have losses := countP_le_others .lost s.runs s.apart
  have replies := countP_le_others .reply s.runs s.apart
  rw [countP_not_lost] at losses
  rw [countP_not_reply] at replies
  constructor
  · split at losses <;> omega
  · split at replies <;> omega

theorem sessions_balanced (passes : List (RunLengths Outcome)) :
    (passes.flatMap RunLengths.runs).countP (fun r => r.1 = .lost) ≤
        (passes.flatMap RunLengths.runs).countP (fun r => r.1 = .reply) + passes.length ∧
      (passes.flatMap RunLengths.runs).countP (fun r => r.1 = .reply) ≤
        (passes.flatMap RunLengths.runs).countP (fun r => r.1 = .lost) + passes.length := by
  induction passes with
  | nil => simp
  | cons s passes ih =>
    obtain ⟨losses, replies⟩ := session_balanced s
    obtain ⟨moreLosses, moreReplies⟩ := ih
    simp only [List.flatMap_cons, List.countP_append, List.length_cons]
    constructor <;> omega

theorem expand_sessions (passes : List (RunLengths Outcome)) :
    expand (passes.flatMap RunLengths.runs) = (passes.map fun p => expand p.runs).flatten := by
  induction passes with
  | nil => rfl
  | cons s passes ih => rw [List.flatMap_cons, expand_append, ih, List.map_cons, List.flatten_cons]

theorem outcomesTo_flatten (sat : ℕ) (logs : List (List Ping)) :
    outcomesTo sat logs.flatten = (logs.map (outcomesTo sat)).flatten := by
  induction logs with
  | nil => rfl
  | cons log logs ih =>
    rw [List.map_cons, List.flatten_cons, List.flatten_cons, ← ih, outcomesTo, outcomesTo,
      outcomesTo, List.filter_append, List.map_append]

/-- The final counters are those of the maximal streaks of every session. -/
theorem runLengths_booked (sat : ℕ) (logs : List (List Ping)) :
    ∃ passes : List (RunLengths Outcome),
      passes.map (fun p => expand p.runs) = logs.map (outcomesTo sat) ∧
        Booked (runLengths sat logs) (passes.flatMap RunLengths.runs) := by
  obtain ⟨passes, each, run⟩ := sessions_booked sat logs .init rfl rfl
  obtain ⟨clean, idle⟩ := booked_clean (passes.flatMap RunLengths.runs) .init
  refine ⟨passes, each, ?_⟩
  rw [runLengths, run, flush_clean _ clean idle]
  exact booked_init.foldl (passes.flatMap RunLengths.runs)

theorem totals_of_booked (sat : ℕ) (logs : List (List Ping)) (passes : List (RunLengths Outcome))
    (each : passes.map (fun p => expand p.runs) = logs.map (outcomesTo sat))
    (booked : Booked (runLengths sat logs) (passes.flatMap RunLengths.runs)) :
    (runLengths sat logs).ls = (pingOutcomes logs).miss sat ∧
      (runLengths sat logs).ks = (pingOutcomes logs).ok sat := by
  obtain ⟨misses, oks⟩ := outcomes_fold sat logs.flatten .none
  rw [booked.ls, booked.ks, expand_sessions, each, ← outcomesTo_flatten, pingOutcomes, misses, oks]
  exact ⟨(Nat.zero_add _).symm, (Nat.zero_add _).symm⟩

theorem positive_of_sessions (passes : List (RunLengths Outcome)) :
    ∀ r ∈ passes.flatMap RunLengths.runs, 0 < r.2 := by
  intro r hr
  obtain ⟨s, _, hs⟩ := List.mem_flatMap.mp hr
  exact s.positive r hs

/-- The histogram is the one of the maximal streaks of each session, the totals are those of the
table per node, and the two kinds of runs differ by one for each session at most. -/
theorem mined_runs (sat : ℕ) (logs : List (List Ping)) :
    ∃ passes : List (RunLengths Outcome),
      passes.map (fun p => expand p.runs) = logs.map (outcomesTo sat) ∧
        (∀ k, (runLengths sat logs).lr k = (passes.flatMap RunLengths.runs).count (.lost, k)) ∧
        (∀ k, (runLengths sat logs).kr k = (passes.flatMap RunLengths.runs).count (.reply, k)) ∧
        (runLengths sat logs).ls = (pingOutcomes logs).miss sat ∧
        (runLengths sat logs).ks = (pingOutcomes logs).ok sat ∧
        (runLengths sat logs).ln ≤ (runLengths sat logs).kn + logs.length ∧
        (runLengths sat logs).kn ≤ (runLengths sat logs).ln + logs.length ∧
        (fit (runLengths sat logs) = none ↔
          (pingOutcomes logs).miss sat = 0 ∨ (pingOutcomes logs).ok sat = 0) := by
  obtain ⟨passes, each, booked⟩ := runLengths_booked sat logs
  obtain ⟨losses, goods⟩ := totals_of_booked sat logs passes each booked
  obtain ⟨balanced, balanced'⟩ := sessions_balanced passes
  have sessions : passes.length = logs.length := by
    simpa using congrArg List.length each
  have noLoss := countP_pos_iff .lost _ (positive_of_sessions passes)
  have noGood := countP_pos_iff .reply _ (positive_of_sessions passes)
  refine ⟨passes, each, booked.lr, booked.kr, losses, goods, ?_, ?_, ?_⟩
  · rwa [booked.ln, booked.kn, ← sessions]
  · rwa [booked.ln, booked.kn, ← sessions]
  · rw [← losses, ← goods, booked.ls, booked.ks, ← noLoss, ← noGood, ← booked.ln, ← booked.kn, fit]
    split <;> simp_all

/-- The injector's mapping takes the stationary loss and the mean burst of a chain to it. -/
theorem params_of_chain {p r loss burst : ℚ} (p_pos : 0 < p) (p_le : p ≤ 1) (r_pos : 0 < r)
    (rate : loss = p / (p + r)) (long : ¬ burst < 1) (mean : 1 / burst = r) :
    ciGeParams id loss burst = (p, r) := by
  have sum_pos : 0 < p + r := add_pos p_pos r_pos
  have good : 1 - loss = r / (p + r) := by
    rw [rate, eq_div_iff sum_pos.ne', sub_mul, div_mul_cancel₀ p sum_pos.ne']
    ring
  have good_pos : 0 < 1 - loss := good ▸ div_pos r_pos sum_pos
  have loss_pos : 0 < loss := rate ▸ div_pos p_pos sum_pos
  have solves : r * loss / (1 - loss) = p := by
    rw [good, rate]
    field_simp
  simp only [ciGeParams, if_neg long, mean, id, if_neg (not_le.mpr loss_pos),
    if_neg (not_le.mpr (sub_pos.mp good_pos)), solves, if_neg (not_lt.mpr p_le)]

/-- The stationary loss of the fit is the observed one iff there are as many runs of each. -/
theorem stationary_iff {ln ls kn ks : ℕ} (ln_pos : (0 : ℚ) < ln) (kn_pos : (0 : ℚ) < kn)
    (ls_pos : (0 : ℚ) < ls) (ks_pos : (0 : ℚ) < ks) :
    (kn / ks : ℚ) / (kn / ks + ln / ls) = ls / (ls + ks) ↔ kn = ln := by
  have common : (kn / ks : ℚ) / (kn / ks + ln / ls) = kn * ls / (kn * ls + ln * ks) := by
    field_simp
  have sum_pos : (0 : ℚ) < kn * ls + ln * ks := by positivity
  have all_pos : (0 : ℚ) < ls + ks := by positivity
  rw [common, div_eq_div_iff sum_pos.ne' all_pos.ne']
  constructor
  · intro equal
    have cancelled : (ls * ks : ℚ) * kn = (ls * ks) * ln := by linarith
    exact_mod_cast mul_left_cancel₀ (mul_pos ls_pos ks_pos).ne' cancelled
  · rintro rfl
    ring

/-- A fit is two probabilities, and the injector maps its loss and burst back to them. -/
theorem fit_maps_back (v : Vars) (f : Fit) (fits : fit v = some f) (losses : v.ln ≤ v.ls)
    (goods : v.kn ≤ v.ks) :
    0 < f.pg2b ∧ f.pg2b ≤ 1 ∧ 0 < f.pb2g ∧ f.pb2g ≤ 1 ∧
      ciGeParams id (f.stationaryLoss / 100) f.burst = (f.pg2b, f.pb2g) ∧
      (f.stationaryLoss / 100 = v.ls / (v.ls + v.ks) ↔ v.kn = v.ln) := by
  rw [fit] at fits
  split at fits
  case isTrue => exact absurd fits (by simp)
  case isFalse someRuns =>
    obtain ⟨noLoss, noGood⟩ := not_or.mp someRuns
    obtain rfl := Option.some.inj fits
    have ln_pos : (0 : ℚ) < v.ln := by exact_mod_cast Nat.pos_of_ne_zero noLoss
    have kn_pos : (0 : ℚ) < v.kn := by exact_mod_cast Nat.pos_of_ne_zero noGood
    have ln_le : (v.ln : ℚ) ≤ v.ls := by exact_mod_cast losses
    have kn_le : (v.kn : ℚ) ≤ v.ks := by exact_mod_cast goods
    have ls_pos : (0 : ℚ) < v.ls := lt_of_lt_of_le ln_pos ln_le
    have ks_pos : (0 : ℚ) < v.ks := lt_of_lt_of_le kn_pos kn_le
    have p_pos : (0 : ℚ) < v.kn / v.ks := div_pos kn_pos ks_pos
    have r_pos : (0 : ℚ) < v.ln / v.ls := div_pos ln_pos ls_pos
    have p_le : (v.kn / v.ks : ℚ) ≤ 1 := (div_le_one ks_pos).mpr kn_le
    have r_le : (v.ln / v.ls : ℚ) ≤ 1 := (div_le_one ls_pos).mpr ln_le
    have burst : ¬ (v.ls / v.ln : ℚ) < 1 := not_lt.mpr ((one_le_div ln_pos).mpr ln_le)
    have rate : (100 * (v.kn / v.ks) / (v.kn / v.ks + v.ln / v.ls) : ℚ) / 100 =
        (v.kn / v.ks) / (v.kn / v.ks + v.ln / v.ls) := by ring
    refine ⟨p_pos, p_le, r_pos, r_le, ?_, ?_⟩
    · exact params_of_chain p_pos p_le r_pos rate burst (one_div_div _ _)
    · simp only [rate]
      exact stationary_iff ln_pos kn_pos ls_pos ks_pos

/-- What is fitted to the logs is a chain of two probabilities that the injector rebuilds from the
loss and the burst that are printed; its loss is the rate of the table iff the runs balance. -/
theorem mined_fit_maps_back (sat : ℕ) (logs : List (List Ping)) (f : Fit)
    (fits : fit (runLengths sat logs) = some f) :
    0 < f.pg2b ∧ f.pg2b ≤ 1 ∧ 0 < f.pb2g ∧ f.pb2g ≤ 1 ∧
      ciGeParams id (f.stationaryLoss / 100) f.burst = (f.pg2b, f.pb2g) ∧
      (f.stationaryLoss / 100 = (pingOutcomes logs).miss sat /
          ((pingOutcomes logs).miss sat + (pingOutcomes logs).ok sat) ↔
        (runLengths sat logs).kn = (runLengths sat logs).ln) := by
  obtain ⟨passes, each, booked⟩ := runLengths_booked sat logs
  obtain ⟨losses, goods⟩ := totals_of_booked sat logs passes each booked
  have positive := positive_of_sessions passes
  rw [← losses, ← goods]
  refine fit_maps_back _ f fits ?_ ?_
  · rw [booked.ln, booked.ls]
    exact countP_le_count .lost _ positive
  · rw [booked.kn, booked.ks]
    exact countP_le_count .reply _ positive

/-- Two sessions, four replies and three losses of which two are in a row. -/
def twoSessions : List (List Ping) :=
  [[⟨5386, some 900⟩, ⟨5386, none⟩, ⟨10, none⟩, ⟨5386, none⟩, ⟨5386, some 880⟩],
    [⟨5386, some 910⟩, ⟨5386, some 905⟩, ⟨5386, none⟩]]

theorem mined_fit_of_two_sessions :
    ciGeParams id (900 / 17 / 100) (3 / 2) = (3 / 4, 2 / 3) := by
  have counts : (runLengths 5386 twoSessions).ln = 2 ∧ (runLengths 5386 twoSessions).ls = 3 ∧
      (runLengths 5386 twoSessions).kn = 3 ∧ (runLengths 5386 twoSessions).ks = 4 := by decide
  obtain ⟨ln, ls, kn, ks⟩ := counts
  have fits : fit (runLengths 5386 twoSessions) =
      some ⟨3 / 2, 4 / 3, 3 / 4, 2 / 3, 900 / 17, 3 / 2⟩ := by
    rw [fit, ln, ls, kn, ks]
    norm_num
  exact (mined_fit_maps_back 5386 twoSessions _ fits).2.2.2.2.1

end CspLinksim.PassMining
