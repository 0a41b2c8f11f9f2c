import CspLinksim.BoardCell
import CspLinksim.ExternalVerdict
import CspLinksim.Lib.Columns
import Mathlib.Data.Rat.Defs

/-!
# The board sweep over many runs (`satdeploy-board-external-sweep`)

A sweep leaves two files behind: what the tool did in each cell, and what the external verdict
says of it. It may halt for the operator or be killed between two lines, and is started again on
the files as they are. One sweep runs at a time. The lines of the files are texts with commas,
and a cell is skipped if a fourth column is its label; the time stamps that end the lines are
left out.
-/

namespace CspLinksim.BoardSweep

open BoardCell ExternalVerdict Columns

structure Cell where
  arm : Text
  loss : Text
  seed : ℕ
  label : Text
  deriving DecidableEq

/-- What `record` writes. -/
structure Row where
  cell : Cell
  passes : ℕ
  totalInjected : ℕ
  totalDropped : ℕ
  overheadRatio : Text
  agentClaim : Claim
  wall : Option ℕ
  airtimeFwd : Text
  rateBps : ℕ
  deriving DecidableEq

/-- What the judge writes. -/
structure Judged where
  cell : Cell
  record : Rec
  deriving DecidableEq

def claimText : Claim → Text
  | .incomplete => "INCOMPLETE".toList
  | .deployed => "DEPLOYED".toList
  | .agentDown => "AGENT_DOWN".toList
  | .stuck => "STUCK".toList
  | .abort => "ABORT".toList

def verdictText : Verdict → Text
  | .pass => "PASS".toList
  | .failMismatch => "FAIL_MISMATCH".toList
  | .failAbsent => "FAIL_ABSENT".toList
  | .invalid => "INVALID".toList

def Row.columns (r : Row) : List Text :=
  [r.cell.arm, r.cell.loss, decimal r.cell.seed, r.cell.label, decimal r.passes,
    decimal r.totalInjected, decimal r.totalDropped, r.overheadRatio, claimText r.agentClaim,
    (r.wall.map decimal).getD "NA".toList, r.airtimeFwd, decimal r.rateBps]

def Judged.columns (j : Judged) : List Text :=
  [j.cell.label, j.cell.arm, j.cell.loss, decimal j.cell.seed, verdictText j.record.verdict,
    j.record.reason.getD [], j.record.extSha.getD [], (j.record.boardBytes.map decimal).getD [],
    j.record.groundtruthSha, decimal j.record.probesUsed]

/-- A line of `transfer.csv`. -/
def Row.text (r : Row) : Text := line r.columns

/-- A line of `verdicts.csv`. -/
def Judged.text (j : Judged) : Text := line j.columns

structure Files where
  transfer : List Row
  verdicts : List Judged
  deriving DecidableEq

/-- The first line of `transfer.csv`, but for its last column. -/
def transferHeader : Text :=
  ("arm,loss,seed,label,passes,total_injected,total_dropped,overhead_ratio,agent_claim," ++
    "wall_s,airtime_fwd_s,rate_bps").toList

/-- `awk -F, '$4==lb'` over `transfer.csv`. -/
def Files.recorded (f : Files) (label : Text) : Bool :=
  (transferHeader :: f.transfer.map Row.text).any fun l => column 4 l = label

def Files.labels (f : Files) : List Text := f.transfer.map fun r => r.cell.label

/-- A line that is appended to one of the files. -/
inductive Effect where
  | row (r : Row)
  | verdict (j : Judged)

def Effect.append (f : Files) : Effect → Files
  | .row r => { f with transfer := f.transfer ++ [r] }
  | .verdict j => { f with verdicts := f.verdicts ++ [j] }

def appendAll (f : Files) (es : List Effect) : Files := es.foldl Effect.append f

/-- The settings of a sweep; `printed n q` is what `awk` prints for `q` under `%.nf`. -/
structure Config where
  arm : Text
  suffix : Text
  tag : Text
  losses : List Text
  seeds : List ℕ
  limits : Limits
  total : ℕ
  paceUs : ℕ
  rateBps : ℕ
  refreshEvery : ℕ
  groundtruth : Text
  printed : ℕ → ℚ → Text

def Config.cellOf (c : Config) (loss : Text) (seed : ℕ) : Cell where
  arm := c.arm
  loss := loss
  seed := seed
  label := c.arm ++ "_L".toList ++ loss ++ "_s".toList ++ decimal seed ++ c.suffix

/-- A text without commas, line ends, quotes and backslashes. -/
def Plain (t : Text) : Prop := ∀ c ∈ t, c.toNat ∉ [0x0A, 0x0D, 0x22, 0x2C, 0x5C]

instance (t : Text) : Decidable (Plain t) := List.decidableBAll _ t

/-- The words of the settings are plain, and numbers are printed without a comma. -/
structure Config.Plain (c : Config) : Prop where
  arm : BoardSweep.Plain c.arm
  suffix : BoardSweep.Plain c.suffix
  losses : ∀ loss ∈ c.losses, BoardSweep.Plain loss
  groundtruth : BoardSweep.Plain c.groundtruth
  printed : ∀ n q, BoardSweep.Plain (c.printed n q)

/-- The cells in the order of the two loops. -/
def Config.cells (c : Config) : List Cell :=
  c.losses.flatMap fun loss => c.seeds.map fun seed => c.cellOf loss seed

/-- What a cell meets: a stray bridge, the agent, the uptimes, its passes, its wall clock, the
transcripts of the judge's probes, whether the judge comes to its line, and the agent after a
refresh. -/
structure World where
  stray : Bool
  agentUp : Bool
  up0 : Option ℕ
  up1 : Option ℕ
  pass : ℕ → Pass
  wall : ℕ
  console : ℕ → Text
  judges : Bool
  refreshed : Bool

def reasonText : Reason → Text
  | .harness => "HARNESS".toList
  | .agentDown => "AGENT_DOWN".toList
  | .setupStuck => "SETUP_STUCK".toList
  | .boardReset => "BOARD_RESET".toList

/-- The argument of `--invalid`. -/
def invalidText (reasons : List Reason) : Option Text :=
  if reasons = [] then none else some (['+'].intercalate (reasons.map reasonText))

/-- `record`. -/
def record (c : Config) (cell : Cell) (passes inj drop : ℕ) (claim : Claim) (wall : Option ℕ) :
    Row where
  cell := cell
  passes := passes
  totalInjected := inj
  totalDropped := drop
  overheadRatio := if c.total = 0 then "NA".toList else c.printed 2 (inj / c.total)
  agentClaim := claim
  wall := wall
  airtimeFwd := c.printed 1 (inj * c.paceUs / 1000000)
  rateBps := c.rateBps

/-- The file on the board. -/
def dest (c : Config) (cell : Cell) : Text :=
  "/home/root/sd_".toList ++ c.tag ++ cell.label ++ ".bin".toList

/-- `judge`, which asks for six probes. -/
def judge (c : Config) (cell : Cell) (w : World) (reasons : List Reason) : Judged where
  cell := cell
  record := cmdJudge c.groundtruth ⟨invalidText reasons, 6⟩ fun n =>
    runProbe (dest c cell) (w.console n)

/-- The lines of a cell: the row, and the verdict behind it. -/
def lines (c : Config) (cell : Cell) (w : World) (row : Row) (reasons : List Reason) :
    List Effect :=
  .row row :: if w.judges then [.verdict (judge c cell w reasons)] else []

/-- The variables of the cell at the end of its loop. -/
def ended (l : Limits) (seed : ℕ) (pass : ℕ → Pass) : Vars :=
  (BoardCell.cell l seed pass).get (by
    obtain ⟨v, ends, -⟩ := cell_outcome l seed pass
    rw [ends]
    rfl)

/-- The uptime went backwards. -/
def World.reset (w : World) : Bool :=
  match w.up0, w.up1 with
  | some up0, some up1 => up1 < up0
  | _, _ => false

/-- The lines that a cell appends, and the status with which it halts the sweep. -/
def runCell (c : Config) (cell : Cell) (w : World) : List Effect × Option ℕ :=
  if w.stray then (lines c cell w (record c cell 0 0 0 .abort none) [.harness], some 3)
  else if !w.agentUp then
    (lines c cell w (record c cell 0 0 0 .agentDown none) [.agentDown], some 2)
  else
    let v := ended c.limits cell.seed w.pass
    let invalid := v.invalid.toList ++ if w.reset then [.boardReset] else []
    let row := record c cell v.passes v.totalInj v.totalDrop v.result (some w.wall)
    (lines c cell w row invalid,
      if .agentDown ∈ invalid ∨ .boardReset ∈ invalid then some 2 else none)

/-- The loop over the cells, on the files as they are: the lines, and the status at the end. -/
def sweepFrom (c : Config) (world : Cell → World) : List Cell → Files → ℕ → List Effect × ℕ
  | [], _, _ => ([], 0)
  | cell :: cells, f, cellsDone =>
    if f.recorded cell.label then sweepFrom c world cells f cellsDone
    else
      match runCell c cell (world cell) with
      | (es, some status) => (es, status)
      | (es, none) =>
        if (cellsDone + 1) % c.refreshEvery = 0 ∧ (world cell).refreshed = false then (es, 2)
        else
          let rest := sweepFrom c world cells (appendAll f es) (cellsDone + 1)
          (es ++ rest.1, rest.2)

/-- What the checks before the loop find. -/
structure Preflight where
  runlog : Bool
  groundtruth : Bool
  payload : Bool
  symbol : Bool
  console : Bool
  broker : Bool
  candump : Bool
  stray : Bool
  agentUp : Bool

/-- The status of the check that fails. -/
def Preflight.status (p : Preflight) : Option ℕ :=
  if !p.runlog then some 1
  else if !p.groundtruth then some 1
  else if !p.payload then some 1
  else if !p.symbol then some 1
  else if !p.console then some 1
  else if !p.broker then some 1
  else if !p.candump then some 1
  else if p.stray then some 3
  else if !p.agentUp then some 2
  else none

/-- A run, and the number of lines after which it is killed, if it is. -/
structure Run where
  config : Config
  preflight : Preflight
  world : Cell → World
  killed : Option ℕ

/-- The lines of a run that is left alone, and its status. -/
def Run.lines (r : Run) (f : Files) : List Effect × ℕ :=
  match r.preflight.status with
  | some status => ([], status)
  | none => sweepFrom r.config r.world r.config.cells f 0

/-- The files after a run, and the status of a run that was not killed. -/
def Run.sweep (r : Run) (f : Files) : Files × Option ℕ :=
  match r.killed with
  | none => (appendAll f (r.lines f).1, some (r.lines f).2)
  | some k => (appendAll f ((r.lines f).1.take k), none)

/-- The files after some runs. -/
def sweeps (rs : List Run) (f : Files) : Files := rs.foldl (fun f r => (r.sweep f).1) f

theorem reasonText_ne (r : Reason) : reasonText r ≠ [] := by
  cases r <;> decide

theorem invalidText_cons (r : Reason) (rs : List Reason) :
    ∃ t, invalidText (r :: rs) = some t ∧ t ≠ [] := by
  refine ⟨_, if_neg (List.cons_ne_nil r rs), ?_⟩
  obtain ⟨a, as, eq⟩ := List.exists_cons_of_ne_nil (reasonText_ne r)
  cases rs with
  | nil => simp [List.intercalate, eq]
  | cons r' rs => simp [List.intercalate, eq]

/-- An excluded cell is never judged by the console. -/
theorem judge_excluded (c : Config) (cell : Cell) (w : World) {reasons : List Reason}
    (excluded : reasons ≠ []) : (judge c cell w reasons).record.verdict = .invalid := by
  obtain ⟨r, rs, rfl⟩ := List.exists_cons_of_ne_nil excluded
  obtain ⟨t, text, nonempty⟩ := invalidText_cons r rs
  have args : (JudgeArgs.mk (invalidText (r :: rs)) 6).excluded = some t := by
    rw [JudgeArgs.excluded, text]
    simp [nonempty]
  simp only [judge, cmdJudge, args]

theorem probeLoop_pass (want : Text) (ps : List Parsed) (s : Loop) (fresh : s.verdict = none)
    (passes : (probeLoop want ps s).verdict = some .pass) :
    (probeLoop want ps s).extSha = some want := by
  induction ps generalizing s with
  | nil =>
    rw [probeLoop, fresh] at passes
    cases passes
  | cons p ps ih =>
    rw [probeLoop] at passes ⊢
    split at passes
    case isTrue untrusted =>
      rw [if_pos untrusted]
      exact ih _ fresh passes
    case isFalse trusted =>
      rw [if_neg trusted]
      cases hash : p.hash with
      | some h =>
        simp only [hash] at passes ⊢
        split at passes
        case isTrue same => rw [same]
        case isFalse => cases passes
      | none =>
        simp only [hash] at passes ⊢
        cases absent : p.nofile with
        | false =>
          simp only [absent, Bool.false_eq_true, if_false] at passes ⊢
          exact ih _ fresh passes
        | true =>
          simp only [absent, if_true] at passes ⊢
          split at passes
          case isTrue => cases passes
          case isFalse once =>
            rw [if_neg once]
            exact ih _ fresh passes

/-- A pass was read off the board. -/
theorem judge_pass (c : Config) (cell : Cell) (w : World) (reasons : List Reason)
    (passes : (judge c cell w reasons).record.verdict = .pass) :
    (judge c cell w reasons).record.extSha = some c.groundtruth := by
  have read := probeLoop_pass c.groundtruth
    ((List.range (JudgeArgs.mk (invalidText reasons) 6).maxProbes).map
      fun i => runProbe (dest c cell) (w.console (i + 1))) ⟨none, none, none, 0, 0⟩ rfl
  simp only [judge, cmdJudge] at passes ⊢
  cases excluded : (JudgeArgs.mk (invalidText reasons) 6).excluded with
  | some t =>
    simp only [excluded] at passes
    cases passes
  | none =>
    simp only [excluded] at passes
    apply read
    cases found : (probeLoop c.groundtruth _ _).verdict with
    | none =>
      simp only [found] at passes
      cases passes
    | some v =>
      simp only [found] at passes
      rw [passes]

/-- The hash that a probe reads has no comma. -/
theorem probeLoop_hash (want : Text) (ps : List Parsed) (s : Loop)
    (digits : ∀ p ∈ ps, ∀ h, p.hash = some h → ',' ∉ h)
    (before : ',' ∉ s.extSha.getD []) : ',' ∉ (probeLoop want ps s).extSha.getD [] := by
  induction ps generalizing s with
  | nil => exact before
  | cons p ps ih =>
    have later := fun q hq => digits q (List.mem_cons_of_mem p hq)
    rw [probeLoop]
    split
    · exact ih _ later before
    · cases hash : p.hash with
      | some h => exact digits p List.mem_cons_self h hash
      | none =>
        simp only
        split
        · split
          · exact before
          · exact ih _ later before
        · exact ih _ later before

theorem runProbe_hash (dest raw : Text) {h : Text} (found : (runProbe dest raw).hash = some h) :
    ',' ∉ h := by
  have digits : hex64 h = true := by
    simp only [runProbe] at found
    exact List.find?_some found
  simp only [hex64, decide_eq_true_eq, List.all_eq_true] at digits
  intro comma
  exact absurd (digits.2 ',' comma) (by decide)

/-- No column of the line holds a comma. -/
def Readable (columns : List Text) : Prop := ∀ t ∈ columns, ',' ∉ t

theorem Plain.noComma {t : Text} (plain : Plain t) : ',' ∉ t :=
  fun comma => plain ',' comma (by decide)

/-- The words of a cell hold no comma, and its label is not the title of its column. -/
structure Cell.Named (cell : Cell) : Prop where
  arm : ',' ∉ cell.arm
  loss : ',' ∉ cell.loss
  label : ',' ∉ cell.label
  untitled : cell.label ≠ "label".toList

theorem Config.Plain.named {c : Config} (plain : c.Plain) {cell : Cell} (among : cell ∈ c.cells) :
    cell.Named := by
  obtain ⟨loss, hloss, among⟩ := List.mem_flatMap.mp among
  obtain ⟨seed, -, rfl⟩ := List.mem_map.mp among
  have arm := plain.arm.noComma
  have suffix := plain.suffix.noComma
  have word := (plain.losses loss hloss).noComma
  refine ⟨arm, word, ?_, ?_⟩
  · simp only [Config.cellOf, List.mem_append, not_or]
    exact ⟨⟨⟨⟨⟨arm, by decide⟩, word⟩, by decide⟩, comma_not_mem_decimal seed⟩, suffix⟩
  · intro titled
    have underscore : '_' ∈ (c.cellOf loss seed).label := by
      simp [Config.cellOf]
    rw [titled] at underscore
    exact absurd underscore (by decide)

theorem claimText_noComma (claim : Claim) : ',' ∉ claimText claim := by
  cases claim <;> decide

theorem record_readable {c : Config} (plain : c.Plain) {cell : Cell} (named : cell.Named)
    (passes inj drop : ℕ) (claim : Claim) (wall : Option ℕ) :
    Readable (record c cell passes inj drop claim wall).columns := by
  have ratio : ',' ∉ (record c cell passes inj drop claim wall).overheadRatio := by
    simp only [record]
    split
    · decide
    · exact (plain.printed _ _).noComma
  have time : ',' ∉ ((record c cell passes inj drop claim wall).wall.map decimal).getD
      "NA".toList := by
    cases wall with
    | none =>
      simp only [record, Option.map_none, Option.getD_none]
      decide
    | some n => exact comma_not_mem_decimal n
  simp only [Readable, Row.columns, List.forall_mem_cons]
  exact ⟨named.arm, named.loss, comma_not_mem_decimal _, named.label, comma_not_mem_decimal _,
    comma_not_mem_decimal _, comma_not_mem_decimal _, ratio, claimText_noComma claim, time,
    (plain.printed _ _).noComma, comma_not_mem_decimal _, by simp⟩

theorem invalidText_noComma (reasons : List Reason) : ',' ∉ (invalidText reasons).getD [] := by
  rw [invalidText]
  split
  · simp
  · simp only [Option.getD_some]
    intro comma
    have words : ∀ r : Reason, ',' ∉ reasonText r := by
      intro r
      cases r <;> decide
    induction reasons with
    | nil => contradiction
    | cons r rs ih =>
      cases rs with
      | nil => exact words r (by simpa [List.intercalate] using comma)
      | cons r' rs =>
        rw [List.map_cons, List.map_cons, List.intercalate_cons_cons] at comma
        simp only [List.mem_append] at comma
        rcases comma with (here | plus) | later
        · exact words r here
        · exact absurd plus (by decide)
        · exact ih (by simp) (by simpa using later)

theorem judge_readable {c : Config} (plain : c.Plain) {cell : Cell} (named : cell.Named)
    (w : World) (reasons : List Reason) : Readable (judge c cell w reasons).columns := by
  have sha : ',' ∉ (judge c cell w reasons).record.extSha.getD [] := by
    apply probeLoop_hash
    · intro p hp h hash
      obtain ⟨i, -, rfl⟩ := List.mem_map.mp hp
      exact runProbe_hash _ _ hash
    · simp
  have reason : ',' ∉ (judge c cell w reasons).record.reason.getD [] := by
    have given := invalidText_noComma reasons
    simp only [judge, cmdJudge, JudgeArgs.excluded]
    cases text : invalidText reasons with
    | none =>
      simp only [Option.filter_none]
      cases (probeLoop c.groundtruth _ _).verdict with
      | none =>
        simp only [Option.getD_some]
        decide
      | some v => simp
    | some t =>
      rw [text] at given
      by_cases empty : t = []
      · simp only [Option.filter, empty, ne_eq, not_true_eq_false, decide_false,
          Bool.false_eq_true, if_false]
        cases (probeLoop c.groundtruth _ _).verdict with
        | none =>
          simp only [Option.getD_some]
          decide
        | some v => simp
      · simpa [Option.filter, empty] using given
  have verdict : ∀ v, ',' ∉ verdictText v := by
    intro v
    cases v <;> decide
  have bytes : ',' ∉ ((judge c cell w reasons).record.boardBytes.map decimal).getD [] := by
    cases (judge c cell w reasons).record.boardBytes with
    | none => simp
    | some n => exact comma_not_mem_decimal n
  simp only [Readable, Judged.columns, List.forall_mem_cons]
  exact ⟨named.label, named.arm, named.loss, comma_not_mem_decimal _, verdict _, reason, sha, bytes,
    plain.groundtruth.noComma, comma_not_mem_decimal _, by simp⟩

/-- A line is read as it was written. -/
theorem Row.column_text {r : Row} (readable : Readable r.columns) (n : ℕ) :
    column n r.text = r.columns.getD (n - 1) [] :=
  column_line (List.cons_ne_nil _ _) readable n

theorem Judged.column_text {j : Judged} (readable : Readable j.columns) (n : ℕ) :
    column n j.text = j.columns.getD (n - 1) [] :=
  column_line (List.cons_ne_nil _ _) readable n

theorem transferHeader_label : column 4 transferHeader = "label".toList := by
  decide

theorem recorded_iff_row {f : Files} {label : Text} (untitled : label ≠ "label".toList) :
    f.recorded label = true ↔ ∃ r ∈ f.transfer, column 4 r.text = label := by
  simp only [Files.recorded, List.any_cons, transferHeader_label, List.any_map, Bool.or_eq_true,
    decide_eq_true_eq, List.any_eq_true, Function.comp_apply]
  exact or_iff_right fun titled => untitled titled.symm

/-- The fourth column of a readable row is its label. -/
theorem Row.column_label {r : Row} (readable : Readable r.columns) :
    column 4 r.text = r.cell.label :=
  Row.column_text readable 4

/-- Among readable rows a cell is found by its label. -/
theorem recorded_iff {f : Files} (readable : ∀ r ∈ f.transfer, Readable r.columns) {label : Text}
    (untitled : label ≠ "label".toList) : f.recorded label = true ↔ label ∈ f.labels := by
  rw [recorded_iff_row untitled, Files.labels, List.mem_map]
  constructor
  · rintro ⟨r, hr, same⟩
    exact ⟨r, hr, (Row.column_label (readable r hr)).symm.trans same⟩
  · rintro ⟨r, hr, same⟩
    exact ⟨r, hr, (Row.column_label (readable r hr)).trans same⟩

/-- The tool's own failures. -/
def Claim.failed (c : Claim) : Prop := c = .agentDown ∨ c = .stuck ∨ c = .abort

/-- A row and the verdict behind it: a failure of the tool or the bench is no verdict, and a pass
is the hash of the artifact. -/
structure Agree (r : Row) (j : Judged) : Prop where
  cell : r.cell = j.cell
  failed : Claim.failed r.agentClaim → j.record.verdict = .invalid
  pass : j.record.verdict = .pass → j.record.extSha = some j.record.groundtruthSha

/-- Readable lines of cells whose labels are new, with this many rows that have no verdict. -/
inductive Blocks : List Text → List Effect → ℕ → Prop where
  | nil (labels : List Text) : Blocks labels [] 0
  | row (r : Row) {labels : List Text} {es : List Effect} {n : ℕ}
      (readable : Readable r.columns) (fresh : r.cell.label ∉ labels)
      (rest : Blocks (labels ++ [r.cell.label]) es n) :
      Blocks labels (.row r :: es) (n + 1)
  | judged (r : Row) (j : Judged) {labels : List Text} {es : List Effect} {n : ℕ}
      (readable : Readable r.columns) (readable' : Readable j.columns)
      (fresh : r.cell.label ∉ labels) (agree : Agree r j)
      (rest : Blocks (labels ++ [r.cell.label]) es n) :
      Blocks labels (.row r :: .verdict j :: es) n

/-- A run that is killed between two lines leaves at most one more row without a verdict. -/
theorem Blocks.take {labels : List Text} {es : List Effect} {n : ℕ} (b : Blocks labels es n)
    (k : ℕ) : ∃ m, Blocks labels (es.take k) m ∧ m ≤ n + 1 := by
  induction b generalizing k with
  | nil labels =>
    rw [List.take_nil]
    exact ⟨0, .nil labels, Nat.zero_le _⟩
  | row r readable fresh rest ih =>
    cases k with
    | zero => exact ⟨0, .nil _, Nat.zero_le _⟩
    | succ k =>
      obtain ⟨m, blocks, few⟩ := ih k
      exact ⟨m + 1, .row r readable fresh blocks, by omega⟩
  | judged r j readable readable' fresh agree rest ih =>
    match k with
    | 0 => exact ⟨0, .nil _, Nat.zero_le _⟩
    | 1 => exact ⟨1, .row r readable fresh (.nil _), by omega⟩
    | k + 2 =>
      obtain ⟨m, blocks, few⟩ := ih k
      exact ⟨m, .judged r j readable readable' fresh agree blocks, few⟩

/-- The labels of the rows among some lines. -/
def rowLabels (es : List Effect) : List Text :=
  es.filterMap fun e =>
    match e with
    | .row r => some r.cell.label
    | .verdict _ => none

theorem appendAll_labels (f : Files) (es : List Effect) :
    (appendAll f es).labels = f.labels ++ rowLabels es := by
  induction es generalizing f with
  | nil => simp [appendAll, rowLabels]
  | cons e es ih =>
    rw [appendAll, List.foldl_cons, ← appendAll, ih]
    cases e with
    | row r => simp [Effect.append, Files.labels, rowLabels]
    | verdict j => simp [Effect.append, Files.labels, rowLabels]

theorem appendAll_grows (f : Files) (es : List Effect) :
    f.transfer <+: (appendAll f es).transfer ∧ f.verdicts <+: (appendAll f es).verdicts := by
  induction es generalizing f with
  | nil => exact ⟨List.prefix_refl _, List.prefix_refl _⟩
  | cons e es ih =>
    obtain ⟨rows, verdicts⟩ := ih (e.append f)
    rw [appendAll, List.foldl_cons, ← appendAll]
    cases e with
    | row r => exact ⟨(List.prefix_append _ _).trans rows, verdicts⟩
    | verdict j => exact ⟨rows, (List.prefix_append _ _).trans verdicts⟩

/-- What a cell appends. -/
theorem runCell_lines {c : Config} (plain : c.Plain) {cell : Cell} (named : cell.Named)
    (w : World) :
    ∃ r reasons, r.cell = cell ∧ Readable r.columns ∧
      (Claim.failed r.agentClaim → reasons ≠ []) ∧
      (runCell c cell w).1 = lines c cell w r reasons := by
  rw [runCell]
  split
  · exact ⟨_, _, rfl, record_readable plain named _ _ _ _ _, fun _ => by simp, rfl⟩
  · split
    · exact ⟨_, _, rfl, record_readable plain named _ _ _ _ _, fun _ => by simp, rfl⟩
    · refine ⟨_, _, rfl, record_readable plain named _ _ _ _ _, ?_, rfl⟩
      intro failed
      obtain ⟨v, ends, outcome⟩ := cell_outcome c.limits cell.seed w.pass
      have same : ended c.limits cell.seed w.pass = v := by simp [ended, ends]
      simp only [record, same] at failed ⊢
      rw [outcome.invalid]
      rcases failed with down | stuck | abort
      · simp [down, Claim.excluded]
      · simp [stuck, Claim.excluded]
      · exact absurd abort outcome.noAbort

theorem lines_blocks {c : Config} (plain : c.Plain) {cell : Cell} (named : cell.Named) {w : World}
    {r : Row} {reasons : List Reason} (same : r.cell = cell) (readable : Readable r.columns)
    (failed : Claim.failed r.agentClaim → reasons ≠ [])
    {labels : List Text} (fresh : cell.label ∉ labels) {es : List Effect} {n : ℕ}
    (rest : Blocks (labels ++ [cell.label]) es n) :
    Blocks labels (lines c cell w r reasons ++ es) (n + if w.judges then 0 else 1) := by
  subst same
  rw [lines]
  cases w.judges with
  | true =>
    refine .judged r (judge c r.cell w reasons) readable (judge_readable plain named w reasons)
      fresh ⟨rfl, ?_, judge_pass c r.cell w reasons⟩ rest
    exact fun claim => judge_excluded c r.cell w (failed claim)
  | false => exact .row r readable fresh rest

/-- The lines are read as they were written. -/
structure Legible (f : Files) : Prop where
  rows : ∀ r ∈ f.transfer, Readable r.columns
  judged : ∀ j ∈ f.verdicts, Readable j.columns

theorem Legible.row {f : Files} (l : Legible f) {r : Row} (readable : Readable r.columns) :
    Legible { f with transfer := f.transfer ++ [r] } := by
  refine ⟨?_, l.judged⟩
  intro r' hr'
  rcases List.mem_append.mp hr' with early | last
  · exact l.rows r' early
  · rwa [List.mem_singleton.mp last]

theorem Legible.verdict {f : Files} (l : Legible f) {j : Judged} (readable : Readable j.columns) :
    Legible { f with verdicts := f.verdicts ++ [j] } := by
  refine ⟨l.rows, ?_⟩
  intro j' hj'
  rcases List.mem_append.mp hj' with early | last
  · exact l.judged j' early
  · rwa [List.mem_singleton.mp last]

theorem Blocks.legible {labels : List Text} {es : List Effect} {n : ℕ} (b : Blocks labels es n)
    {f : Files} (l : Legible f) : Legible (appendAll f es) := by
  induction b generalizing f with
  | nil => exact l
  | row r readable fresh rest ih => exact ih (l.row readable)
  | judged r j readable readable' fresh agree rest ih =>
    exact ih ((l.row readable).verdict readable')

/-- Every row of a run is about a cell that had none. -/
theorem sweepFrom_blocks {c : Config} (plain : c.Plain) (world : Cell → World) {cells : List Cell}
    (named : ∀ cell ∈ cells, cell.Named) {f : Files} (legible : Legible f) (cellsDone : ℕ) :
    ∃ n, Blocks f.labels (sweepFrom c world cells f cellsDone).1 n ∧
      ((∀ cell, (world cell).judges = true) → n = 0) := by
  induction cells generalizing f cellsDone with
  | nil => exact ⟨0, .nil _, fun _ => rfl⟩
  | cons cell cells ih =>
    obtain ⟨this, later⟩ := List.forall_mem_cons.mp named
    have skips := recorded_iff legible.rows this.untitled
    rw [sweepFrom]
    by_cases known : f.recorded cell.label = true
    · rw [if_pos known]
      exact ih later legible cellsDone
    · rw [if_neg known]
      rw [skips] at known
      obtain ⟨r, reasons, same, readable, failed, eq⟩ := runCell_lines plain this (world cell)
      obtain ⟨es, status, ran⟩ : ∃ es status, runCell c cell (world cell) = (es, status) :=
        ⟨_, _, rfl⟩
      rw [ran] at eq ⊢
      have alone : Blocks f.labels es (0 + if (world cell).judges then 0 else 1) := by
        have blocks := lines_blocks (w := world cell) plain this same readable failed known (.nil _)
        rwa [List.append_nil, ← eq] at blocks
      cases status with
      | some status =>
        exact ⟨_, alone, fun all => by rw [all cell]; rfl⟩
      | none =>
        simp only
        split
        · exact ⟨_, alone, fun all => by rw [all cell]; rfl⟩
        · obtain ⟨n, blocks, judged⟩ := ih later (alone.legible legible) (cellsDone + 1)
          have labels : (appendAll f es).labels = f.labels ++ [cell.label] := by
            have written : es = lines c cell (world cell) r reasons := eq
            rw [appendAll_labels, written, lines]
            cases (world cell).judges <;> simp [rowLabels, same]
          rw [labels] at blocks
          refine ⟨_, eq ▸ lines_blocks plain this same readable failed known blocks, ?_⟩
          intro all
          rw [judged all, all cell]
          rfl

/-- One row for a cell, one verdict for a row, and the two agree. -/
structure Sound (f : Files) : Prop extends Legible f where
  once : f.labels.Nodup
  inOrder : (f.verdicts.map fun j => j.cell.label).Sublist f.labels
  agree : ∀ j ∈ f.verdicts, ∃ r ∈ f.transfer, Agree r j

theorem sound_empty : Sound ⟨[], []⟩ :=
  ⟨⟨by simp, by simp⟩, List.nodup_nil, List.nil_sublist _, by simp⟩

theorem labels_concat (f : Files) (r : Row) :
    ({ f with transfer := f.transfer ++ [r] } : Files).labels = f.labels ++ [r.cell.label] := by
  simp [Files.labels]

theorem nodup_concat {labels : List Text} (once : labels.Nodup) {l : Text}
    (fresh : l ∉ labels) : (labels ++ [l]).Nodup := by
  rw [List.nodup_append]
  refine ⟨once, by simp, ?_⟩
  intro a ha b hb same
  rw [List.mem_singleton.mp hb] at same
  exact fresh (same ▸ ha)

theorem Sound.row {f : Files} (s : Sound f) {r : Row} (readable : Readable r.columns)
    (fresh : r.cell.label ∉ f.labels) : Sound { f with transfer := f.transfer ++ [r] } := by
  refine ⟨s.toLegible.row readable, ?_, ?_, ?_⟩
  · rw [labels_concat]
    exact nodup_concat s.once fresh
  · rw [labels_concat]
    exact s.inOrder.trans (List.sublist_append_left _ _)
  · intro j hj
    obtain ⟨r', hr', agree⟩ := s.agree j hj
    exact ⟨r', List.mem_append_left [r] hr', agree⟩

theorem Sound.verdict {f : Files} (s : Sound f) {r : Row} {j : Judged}
    (readable : Readable r.columns) (readable' : Readable j.columns)
    (fresh : r.cell.label ∉ f.labels) (agree : Agree r j) :
    Sound ⟨f.transfer ++ [r], f.verdicts ++ [j]⟩ := by
  have before := s.row readable fresh
  refine ⟨before.toLegible.verdict readable', before.once, ?_, ?_⟩
  · rw [List.map_append, List.map_singleton, ← agree.cell]
    have labels := labels_concat f r
    simp only [Files.labels] at labels ⊢
    rw [labels]
    exact s.inOrder.append (List.Sublist.refl _)
  · intro j' hj'
    rcases List.mem_append.mp hj' with early | last
    · obtain ⟨r', hr', agree'⟩ := s.agree j' early
      exact ⟨r', List.mem_append_left [r] hr', agree'⟩
    · rw [List.mem_singleton.mp last]
      exact ⟨r, by simp, agree⟩

/-- The lines of a run keep the files sound. -/
theorem Blocks.sound {labels : List Text} {es : List Effect} {n : ℕ} (b : Blocks labels es n)
    {f : Files} (known : f.labels = labels) (s : Sound f) :
    Sound (appendAll f es) ∧
      (appendAll f es).transfer.length + f.verdicts.length =
        f.transfer.length + (appendAll f es).verdicts.length + n := by
  induction b generalizing f with
  | nil => exact ⟨s, rfl⟩
  | row r readable fresh rest ih =>
    subst known
    obtain ⟨sound, count⟩ := ih (labels_concat f r) (s.row readable fresh)
    refine ⟨sound, ?_⟩
    simp only [appendAll, List.foldl_cons, Effect.append] at count ⊢
    simp only [List.length_append, List.length_singleton] at count
    omega
  | judged r j readable readable' fresh agree rest ih =>
    subst known
    obtain ⟨sound, count⟩ := ih (f := ⟨f.transfer ++ [r], f.verdicts ++ [j]⟩)
      (labels_concat f r) (s.verdict readable readable' fresh agree)
    refine ⟨sound, ?_⟩
    simp only [appendAll, List.foldl_cons, Effect.append] at count ⊢
    simp only [List.length_append, List.length_singleton] at count
    omega

/-- A run appends such lines, whether it is killed or not. -/
theorem Run.sweep_blocks {r : Run} (plain : r.config.Plain) {f : Files} (legible : Legible f) :
    ∃ es n, (r.sweep f).1 = appendAll f es ∧ Blocks f.labels es n ∧
      ((∀ cell, (r.world cell).judges = true) → n ≤ if r.killed.isSome then 1 else 0) := by
  have whole : ∃ n, Blocks f.labels (r.lines f).1 n ∧
      ((∀ cell, (r.world cell).judges = true) → n = 0) := by
    rw [Run.lines]
    cases r.preflight.status with
    | some status => exact ⟨0, .nil _, fun _ => rfl⟩
    | none => exact sweepFrom_blocks plain r.world (fun _ => plain.named) legible 0
  obtain ⟨n, blocks, judged⟩ := whole
  rw [Run.sweep]
  cases r.killed with
  | none =>
    refine ⟨_, n, rfl, blocks, ?_⟩
    intro all
    rw [judged all]
    exact Nat.zero_le _
  | some k =>
    obtain ⟨m, cut, few⟩ := blocks.take k
    refine ⟨_, m, rfl, cut, ?_⟩
    intro all
    rw [judged all] at few
    exact few

theorem sweeps_sound {rs : List Run} (plain : ∀ r ∈ rs, r.config.Plain) {f : Files}
    (s : Sound f) :
    Sound (sweeps rs f) ∧ f.transfer <+: (sweeps rs f).transfer ∧
      f.verdicts <+: (sweeps rs f).verdicts := by
  induction rs generalizing f with
  | nil => exact ⟨s, List.prefix_refl _, List.prefix_refl _⟩
  | cons r rs ih =>
    obtain ⟨this, later⟩ := List.forall_mem_cons.mp plain
    obtain ⟨es, n, eq, blocks, -⟩ := r.sweep_blocks this s.toLegible
    have next := (blocks.sound rfl s).1
    obtain ⟨rows, verdicts⟩ := appendAll_grows f es
    rw [← eq] at next rows verdicts
    obtain ⟨sound, rows', verdicts'⟩ := ih later next
    exact ⟨sound, rows.trans rows', verdicts.trans verdicts'⟩

/-- Where every judge comes to its line, only a kill leaves a row without a verdict. -/
theorem sweeps_missing {rs : List Run} (plain : ∀ r ∈ rs, r.config.Plain)
    (judges : ∀ r ∈ rs, ∀ cell, (r.world cell).judges = true) {f : Files} (s : Sound f) :
    (sweeps rs f).transfer.length + f.verdicts.length ≤
      f.transfer.length + (sweeps rs f).verdicts.length +
        rs.countP fun r => r.killed.isSome := by
  induction rs generalizing f with
  | nil => exact Nat.le_refl _
  | cons r rs ih =>
    obtain ⟨this, later⟩ := List.forall_mem_cons.mp plain
    obtain ⟨es, n, eq, blocks, few⟩ := r.sweep_blocks this s.toLegible
    obtain ⟨sound, count⟩ := blocks.sound rfl s
    rw [← eq] at sound count
    have rest := ih later (fun r' hr' => judges r' (List.mem_cons_of_mem r hr')) sound
    have one := few (judges r List.mem_cons_self)
    rw [List.countP_cons]
    simp only [sweeps, List.foldl_cons] at rest ⊢
    omega

/-- However often the sweep is halted, killed and started again, with whatever plain settings: no
cell has two rows, a row never changes and is found by its label, verdicts are in the order of
their rows and agree with them, and only a kill costs a row its verdict. -/
theorem sweeps_never_reroll (rs : List Run) (plain : ∀ r ∈ rs, r.config.Plain) :
    (sweeps rs ⟨[], []⟩).labels.Nodup ∧
      (∀ r ∈ (sweeps rs ⟨[], []⟩).transfer, column 4 r.text = r.cell.label) ∧
      ((sweeps rs ⟨[], []⟩).verdicts.map fun j => j.cell.label).Sublist
        (sweeps rs ⟨[], []⟩).labels ∧
      (∀ j ∈ (sweeps rs ⟨[], []⟩).verdicts,
        ∃ r ∈ (sweeps rs ⟨[], []⟩).transfer, Agree r j) ∧
      (∀ k, (sweeps (rs.take k) ⟨[], []⟩).transfer <+: (sweeps rs ⟨[], []⟩).transfer ∧
        (sweeps (rs.take k) ⟨[], []⟩).verdicts <+: (sweeps rs ⟨[], []⟩).verdicts) ∧
      ((∀ r ∈ rs, ∀ cell, (r.world cell).judges = true) →
        (sweeps rs ⟨[], []⟩).transfer.length ≤
          (sweeps rs ⟨[], []⟩).verdicts.length + rs.countP fun r => r.killed.isSome) := by
  obtain ⟨sound, -, -⟩ := sweeps_sound plain sound_empty
  refine ⟨sound.once, fun r hr => Row.column_label (sound.rows r hr), sound.inOrder, sound.agree,
    ?_, ?_⟩
  · intro k
    have before : Sound (sweeps (rs.take k) ⟨[], []⟩) :=
      (sweeps_sound (fun r hr => plain r (List.mem_of_mem_take hr)) sound_empty).1
    have rest : ∀ r ∈ rs.drop k, r.config.Plain := fun r hr => plain r (List.mem_of_mem_drop hr)
    have later := (sweeps_sound rest before).2
    have whole : sweeps (rs.drop k) (sweeps (rs.take k) ⟨[], []⟩) = sweeps rs ⟨[], []⟩ := by
      rw [sweeps, sweeps, sweeps, ← List.foldl_append, List.take_append_drop]
    rwa [whole] at later
  · intro judges
    simpa using sweeps_missing plain judges sound_empty

def twoSeeds : Config where
  arm := "smart".toList
  suffix := []
  tag := []
  losses := ["0.02".toList]
  seeds := [1, 2]
  limits := ⟨12, 4⟩
  total := 1058
  paceUs := 213333
  rateBps := 9600
  refreshEvery := 8
  groundtruth := []
  printed := fun _ _ => "0.00".toList

theorem twoSeeds_plain : twoSeeds.Plain :=
  have word : BoardSweep.Plain "0.00".toList := by decide
  ⟨by decide, by decide, by decide, by decide, fun _ _ => word⟩

/-- The agent is down whenever a cell asks for it, which halts the sweep. -/
def agentDownRun : Run where
  config := twoSeeds
  preflight := ⟨true, true, true, true, true, true, true, false, true⟩
  world := fun _ => ⟨false, false, none, none, fun _ => samplePass, 0, fun _ => [], true, true⟩
  killed := none

theorem halted_sweep_never_rerolls :
    (sweeps [agentDownRun, { agentDownRun with killed := some 1 }] ⟨[], []⟩).labels.Nodup ∧
      (sweeps [agentDownRun, { agentDownRun with killed := some 1 }] ⟨[], []⟩).labels =
        ["smart_L0.02_s1".toList, "smart_L0.02_s2".toList] := by
  refine ⟨(sweeps_never_reroll _ ?_).1, by decide +kernel⟩
  intro r hr
  rcases List.mem_cons.mp hr with rfl | last
  · exact twoSeeds_plain
  · rw [List.mem_singleton.mp last]
    exact twoSeeds_plain

/-- The cells that are still to be recorded. -/
def remaining (c : Config) (f : Files) : ℕ := c.cells.countP fun cell => !f.recorded cell.label

/-- A run of this sweep that passes its checks and is left alone. -/
structure Run.Alone (r : Run) (c : Config) : Prop where
  config : r.config = c
  checked : r.preflight.status = none
  alone : r.killed = none

theorem Run.Alone.sweep {r : Run} {c : Config} (a : r.Alone c) (f : Files) :
    r.sweep f = (appendAll f (sweepFrom c r.world c.cells f 0).1,
      some (sweepFrom c r.world c.cells f 0).2) := by
  rw [Run.sweep, a.alone, Run.lines, a.checked, a.config]

end CspLinksim.BoardSweep
