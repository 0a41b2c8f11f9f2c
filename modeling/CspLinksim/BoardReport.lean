import CspLinksim.BoardSweep
import Mathlib.Data.List.Induction

/-!
# The report on a board sweep (`board-external-report.py`)

The two files of the sweep are joined by label into the agreement matrix. A line is read by its
columns, under the titles of the header that the sweep writes.
-/

namespace CspLinksim.BoardReport

open BoardCell BoardSweep ExternalVerdict Columns

/-- `read_csv`, with the label in this column: a dictionary keeps a key where it came first, with
its last line. -/
def readCsv (key : ℕ) (lines : List Text) : List (Text × Text) :=
  lines.foldl (fun d l =>
    if d.any fun e => e.1 = column key l then
      d.map fun e => if e.1 = column key l then (e.1, l) else e
    else d ++ [(column key l, l)]) []

/-- `get` of a dictionary. -/
def get (d : List (Text × Text)) (label : Text) : Option Text :=
  (d.find? fun e => e.1 = label).map Prod.snd

/-- A row of the report. -/
structure Line where
  label : Text
  arm : Text
  loss : Text
  seed : Text
  tool : Text
  external : Text
  reason : Text
  passes : Text
  injected : Text
  dropped : Text
  overhead : Text
  wallS : Text
  airtimeS : Text
  extSha : Text
  deriving DecidableEq

def lineOf (verdicts : List (Text × Text)) (e : Text × Text) : Line :=
  let v := get verdicts e.1
  { label := e.1
    arm := column 1 e.2
    loss := column 2 e.2
    seed := column 3 e.2
    tool := column 9 e.2
    external := (v.map (column 5)).getD "MISSING".toList
    reason := (v.map (column 6)).getD []
    passes := column 5 e.2
    injected := column 6 e.2
    dropped := column 7 e.2
    overhead := column 8 e.2
    wallS := column 10 e.2
    airtimeS := column 11 e.2
    extSha := ((v.map (column 7)).getD []).take 12 }

/-- `rows` of `main`. -/
def lines (f : Files) : List Line :=
  (readCsv 4 (f.transfer.map Row.text)).map (lineOf (readCsv 1 (f.verdicts.map Judged.text)))

/-- `GRID_SEEDS`. -/
def gridSeeds (arm : Text) : List Text :=
  if arm = "smart".toList then [1, 2, 3, 4, 5].map decimal
  else if arm = "naive".toList then [1, 2, 3].map decimal
  else []

def grid (f : Files) : List Line := (lines f).filter fun l => (gridSeeds l.arm).contains l.seed

/-- `mat`, the agreement matrix. -/
def mat (f : Files) (tool external : Text) : ℕ :=
  (grid f).countP fun l => l.tool = tool ∧ l.external = external

theorem readCsv_snoc (key : ℕ) (ls : List Text) (l : Text) :
    readCsv key (ls ++ [l]) =
      if (readCsv key ls).any fun e => e.1 = column key l then
        (readCsv key ls).map fun e => if e.1 = column key l then (e.1, l) else e
      else readCsv key ls ++ [(column key l, l)] := by
  rw [readCsv, List.foldl_append]
  rfl

/-- Lines with distinct labels are read as they are. -/
theorem readCsv_of_nodup (key : ℕ) (ls : List Text) (distinct : (ls.map (column key)).Nodup) :
    readCsv key ls = ls.map fun l => (column key l, l) := by
  induction ls using List.reverseRecOn with
  | nil => rfl
  | append_singleton ls l ih =>
    rw [List.map_append, List.nodup_append] at distinct
    obtain ⟨before, -, apart⟩ := distinct
    have new : ¬ ((readCsv key ls).any fun e => e.1 = column key l) = true := by
      rw [ih before, List.any_map, List.any_eq_true]
      rintro ⟨l', hl', same⟩
      exact apart (column key l') (List.mem_map_of_mem hl') (column key l) (by simp)
        (by simpa using same)
    rw [readCsv_snoc, if_neg new, ih before, List.map_append]
    rfl

/-- The verdict of a row, if the judge came to its line. -/
def verdictOf (f : Files) (r : Row) : Option Judged :=
  f.verdicts.find? fun j => j.cell.label = r.cell.label

/-- The line of a row, and of its verdict. -/
def rowLine (f : Files) (r : Row) : Line :=
  let v := verdictOf f r
  { label := r.cell.label
    arm := r.cell.arm
    loss := r.cell.loss
    seed := decimal r.cell.seed
    tool := claimText r.agentClaim
    external := (v.map fun j => verdictText j.record.verdict).getD "MISSING".toList
    reason := (v.bind fun j => j.record.reason).getD []
    passes := decimal r.passes
    injected := decimal r.totalInjected
    dropped := decimal r.totalDropped
    overhead := r.overheadRatio
    wallS := (r.wall.map decimal).getD "NA".toList
    airtimeS := r.airtimeFwd
    extSha := ((v.bind fun j => j.record.extSha).getD []).take 12 }

/-- The dictionary of the verdicts finds the verdict of a row. -/
theorem get_verdict (js : List Judged) (label : Text) :
    get (js.map fun j => (j.cell.label, j.text)) label =
      (js.find? fun j => j.cell.label = label).map Judged.text := by
  induction js with
  | nil => rfl
  | cons j js ih =>
    rw [get] at ih ⊢
    by_cases same : j.cell.label = label
    · simp [same]
    · rw [List.map_cons, List.find?_cons_of_neg (by simpa using same),
        List.find?_cons_of_neg (by simpa using same)]
      exact ih

theorem transfer_read {f : Files} (s : Sound f) :
    readCsv 4 (f.transfer.map Row.text) = f.transfer.map fun r => (r.cell.label, r.text) := by
  have labels : ∀ r ∈ f.transfer, column 4 r.text = r.cell.label :=
    fun r hr => Row.column_label (s.rows r hr)
  rw [readCsv_of_nodup, List.map_map]
  · refine List.map_congr_left fun r hr => ?_
    rw [Function.comp_apply, labels r hr]
  · rw [List.map_map, List.map_congr_left (g := fun r => r.cell.label) labels]
    exact s.once

theorem verdicts_read {f : Files} (s : Sound f) :
    readCsv 1 (f.verdicts.map Judged.text) =
      f.verdicts.map fun j => (j.cell.label, j.text) := by
  have labels : ∀ j ∈ f.verdicts, column 1 j.text = j.cell.label :=
    fun j hj => Judged.column_text (s.judged j hj) 1
  rw [readCsv_of_nodup, List.map_map]
  · refine List.map_congr_left fun j hj => ?_
    rw [Function.comp_apply, labels j hj]
  · rw [List.map_map, List.map_congr_left (g := fun j => j.cell.label) labels]
    exact s.inOrder.nodup s.once

/-- The columns of a row and of its verdict are the report's line. -/
theorem lineOf_row {f : Files} (s : Sound f) {r : Row} (hr : r ∈ f.transfer) :
    lineOf (f.verdicts.map fun j => (j.cell.label, j.text)) (r.cell.label, r.text) =
      rowLine f r := by
  have row := Row.column_text (s.rows r hr)
  have judged : ∀ j, verdictOf f r = some j → Readable j.columns :=
    fun j found => s.judged j (List.mem_of_find?_eq_some found)
  have found := get_verdict f.verdicts r.cell.label
  rw [← verdictOf] at found
  simp only [lineOf, rowLine, row, found]
  cases v : verdictOf f r with
  | none => rfl
  | some j =>
    have verdict := Judged.column_text (judged j v)
    simp only [Option.map_some, verdict]
    rfl

/-- The report has a line for each row. -/
theorem lines_of_sound {f : Files} (s : Sound f) : lines f = f.transfer.map (rowLine f) := by
  rw [lines, transfer_read s, verdicts_read s, List.map_map]
  exact List.map_congr_left fun r hr => lineOf_row s hr

/-- The verdict that is found for a row is the one that was written for it. -/
theorem verdict_of_row {f : Files} (s : Sound f) {r : Row} (hr : r ∈ f.transfer) {j : Judged}
    (found : verdictOf f r = some j) : Agree r j := by
  have same : j.cell.label = r.cell.label := by simpa using List.find?_some found
  obtain ⟨r', hr', agree⟩ := s.agree j (List.mem_of_find?_eq_some found)
  have equal : r' = r := by
    refine List.inj_on_of_nodup_map s.once hr' hr ?_
    rw [← same, ← agree.cell]
  exact equal ▸ agree

theorem claimText_injective {a b : Claim} (same : claimText a = claimText b) : a = b := by
  cases a <;> cases b <;> first | rfl | exact absurd same (by decide)

theorem verdictText_injective {a b : Verdict} (same : verdictText a = verdictText b) :
    a = b := by
  cases a <;> cases b <;> first | rfl | exact absurd same (by decide)

theorem verdictText_ne_missing (v : Verdict) : verdictText v ≠ "MISSING".toList := by
  cases v <;> decide

/-- A verdict that is shown is one that was written. -/
theorem external_eq {f : Files} {r : Row} {v : Verdict}
    (shows : (rowLine f r).external = verdictText v) :
    ∃ j, verdictOf f r = some j ∧ j.record.verdict = v := by
  simp only [rowLine] at shows
  cases found : verdictOf f r with
  | none =>
    rw [found] at shows
    exact absurd shows.symm (verdictText_ne_missing v)
  | some j =>
    rw [found] at shows
    exact ⟨j, rfl, verdictText_injective shows⟩

/-- Some of distinct labels, in order, leave the others. -/
theorem countP_missing {labels judged : List Text} (inOrder : judged.Sublist labels) :
    labels.countP (fun l => l ∉ judged) + judged.length ≤ labels.length := by
  have split := List.length_eq_countP_add_countP (fun l => decide (l ∈ judged)) (l := labels)
  have found : judged.length ≤ labels.countP fun l => decide (l ∈ judged) := by
    have all : judged.countP (fun l => decide (l ∈ judged)) = judged.length := by
      rw [List.countP_eq_length]
      intro l hl
      simpa using hl
    rw [← all]
    exact inOrder.countP_le
  have same : labels.countP (fun l => l ∉ judged) =
      labels.countP fun l => ¬ (decide (l ∈ judged)) = true := by
    simp
  omega

theorem external_missing (f : Files) (r : Row) :
    (rowLine f r).external = "MISSING".toList ↔
      r.cell.label ∉ f.verdicts.map fun j => j.cell.label := by
  have none_found : (rowLine f r).external = "MISSING".toList ↔ verdictOf f r = none := by
    simp only [rowLine]
    cases verdictOf f r with
    | none => exact iff_of_true rfl rfl
    | some j => exact iff_of_false (verdictText_ne_missing _) (Option.some_ne_none j)
  rw [none_found, verdictOf, List.find?_eq_none]
  simp only [decide_eq_true_eq, List.mem_map, not_exists, not_and]

theorem countP_missing_lines (f : Files) :
    (f.transfer.map (rowLine f)).countP (fun l => l.external = "MISSING".toList) =
      f.labels.countP fun l => l ∉ f.verdicts.map fun j => j.cell.label := by
  rw [Files.labels, List.countP_map, List.countP_map]
  refine List.countP_congr ?_
  intro r _
  simp only [Function.comp_apply, decide_eq_true_eq]
  exact external_missing f r

/-- After any sweeps with plain settings the report has a line for each row. A cell in which the
tool or the bench failed never shows a verdict of the board, a pass shows the hash of the artifact,
and no more cells are `MISSING` than runs were killed. -/
theorem report_of_sweeps (rs : List Run) (plain : ∀ r ∈ rs, r.config.Plain) :
    lines (sweeps rs ⟨[], []⟩) =
        (sweeps rs ⟨[], []⟩).transfer.map (rowLine (sweeps rs ⟨[], []⟩)) ∧
      (∀ tool, Claim.failed tool → ∀ verdict, verdict ≠ .invalid →
        mat (sweeps rs ⟨[], []⟩) (claimText tool) (verdictText verdict) = 0) ∧
      (∀ l ∈ lines (sweeps rs ⟨[], []⟩), l.external = "PASS".toList →
        ∃ j ∈ (sweeps rs ⟨[], []⟩).verdicts, j.cell.label = l.label ∧
          l.extSha = j.record.groundtruthSha.take 12) ∧
      ((∀ r ∈ rs, ∀ cell, (r.world cell).judges = true) →
        (lines (sweeps rs ⟨[], []⟩)).countP (fun l => l.external = "MISSING".toList) ≤
          rs.countP fun r => r.killed.isSome) := by
  obtain ⟨s, -, -⟩ := sweeps_sound plain sound_empty
  have missed := fun judges => sweeps_missing plain judges sound_empty
  generalize sweeps rs ⟨[], []⟩ = f at s missed ⊢
  have whole := lines_of_sound s
  refine ⟨whole, ?_, ?_, ?_⟩
  · intro tool failed verdict judged
    rw [mat, List.countP_eq_zero]
    intro l hl
    have among := (List.mem_filter.mp hl).1
    rw [whole] at among
    obtain ⟨r, hr, rfl⟩ := List.mem_map.mp among
    rintro shows
    obtain ⟨claim, external⟩ := of_decide_eq_true shows
    obtain ⟨j, found, eq⟩ := external_eq external
    have agree := verdict_of_row s hr found
    have recorded : r.agentClaim = tool := claimText_injective claim
    exact judged (eq ▸ agree.failed (recorded ▸ failed))
  · intro l among passes
    rw [whole] at among
    obtain ⟨r, hr, rfl⟩ := List.mem_map.mp among
    obtain ⟨j, found, eq⟩ := external_eq (v := .pass) passes
    have agree := verdict_of_row s hr found
    have same : j.cell.label = r.cell.label := by simpa using List.find?_some found
    refine ⟨j, List.mem_of_find?_eq_some found, same, ?_⟩
    simp only [rowLine, found, Option.bind_some, agree.pass eq, Option.getD_some]
  · intro judges
    have few := missed judges
    have left := countP_missing s.inOrder
    rw [whole, countP_missing_lines]
    simp only [Files.labels, List.length_map] at left few ⊢
    simp only [List.length_nil] at few
    omega

/-- The second run is killed before its verdict. -/
theorem report_of_halted_sweep :
    mat (sweeps [agentDownRun, { agentDownRun with killed := some 1 }] ⟨[], []⟩)
        "AGENT_DOWN".toList "PASS".toList = 0 ∧
      (lines (sweeps [agentDownRun, { agentDownRun with killed := some 1 }] ⟨[], []⟩)).map
        (fun l => (l.tool, l.external)) =
          [("AGENT_DOWN".toList, "INVALID".toList), ("AGENT_DOWN".toList, "MISSING".toList)] := by
  have plain : ∀ r ∈ [agentDownRun, { agentDownRun with killed := some 1 }], r.config.Plain := by
    intro r hr
    rcases List.mem_cons.mp hr with rfl | last
    · exact twoSeeds_plain
    · rw [List.mem_singleton.mp last]
      exact twoSeeds_plain
  have report := report_of_sweeps _ plain
  exact ⟨report.2.1 .agentDown (.inl rfl) .pass (by decide), by decide +kernel⟩

end CspLinksim.BoardReport
