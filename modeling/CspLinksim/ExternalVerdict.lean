import Mathlib.Data.List.DropRight
import Mathlib.Data.List.Infix

/-!
# The external verdict (`external-verdict.py`)

A probe reads the console transcript of the board, and the judge asks for probes until one of
its rules gives a verdict. A text is its list of characters.
-/

namespace CspLinksim.ExternalVerdict

abbrev Text := List Char

def esc : Char := Char.ofNat 0x1B

/-- The single characters that end a line for `str.splitlines`. -/
def isLineEnd (c : Char) : Bool :=
  c.toNat ∈ [0x0A, 0x0B, 0x0C, 0x0D, 0x1C, 0x1D, 0x1E, 0x85, 0x2028, 0x2029]

/-- `str.splitlines`: a carriage return and a line feed behind it end one line. -/
def splitlines : Text → List Text
  | [] => []
  | '\r' :: '\n' :: s => [] :: splitlines s
  | c :: s =>
    if isLineEnd c then [] :: splitlines s
    else
      match splitlines s with
      | [] => [[c]]
      | l :: ls => (c :: l) :: ls

def isParam (c : Char) : Bool := c.isDigit ∨ c = ';' ∨ c = '?'

/-- The length of a match of `ANSI_RE` at the head. -/
def ansiMatch : Text → Option ℕ
  | c :: '[' :: s =>
    if c = esc then
      let n := (s.takeWhile isParam).length
      match s.drop n with
      | letter :: _ => if letter.isAlpha then some (n + 3) else none
      | [] => none
    else none
  | _ => none

/-- `ANSI_RE.sub`, with `skip` characters of a match to go. -/
def ansiSub : ℕ → Text → Text
  | _, [] => []
  | skip + 1, _ :: s => ansiSub skip s
  | 0, c :: s =>
    match ansiMatch (c :: s) with
    | some n => ansiSub (n - 1) s
    | none => c :: ansiSub 0 s

/-- The lines as they are looked at. -/
def cleanLines (raw : Text) : List Text :=
  (splitlines raw).map fun ln => (ansiSub 0 ln).rdropWhile (· = '\r')

def isLowerHex (c : Char) : Bool := ('0' ≤ c ∧ c ≤ '9') ∨ ('a' ≤ c ∧ c ≤ 'f')

/-- `HEX64_RE`; a line has no line feed in it that `$` could stop at. -/
def hex64 (ln : Text) : Bool := ln.length = 64 ∧ ln.all isLowerHex

/-- `SIZE_RE`, and `int` of its group. -/
def sizeOf (ln : Text) : Option ℕ :=
  if "SIZE".toList <+: ln ∧ ln.drop 4 ≠ [] ∧ (ln.drop 4).all Char.isDigit then
    some ((ln.drop 4).foldl (fun n c => 10 * n + (c.toNat - '0'.toNat)) 0)
  else none

structure Parsed where
  canary : Bool
  pathOk : Bool
  hash : Option Text
  size : Option ℕ
  nofile : Bool
  deriving DecidableEq

/-- What `run_probe` makes of the transcript. -/
def runProbe (dest raw : Text) : Parsed :=
  let lines := cleanLines raw
  { canary := "CANARY_SD_OK".toList ∈ lines
    pathOk := lines.any fun ln => "PATH_".toList ++ dest <:+: ln
    hash := lines.find? hex64
    size := lines.findSome? sizeOf
    nofile := lines.any (· = "SD_NOFILE".toList) }

inductive Verdict where
  | pass
  | failMismatch
  | failAbsent
  | invalid
  deriving DecidableEq

/-- The variables of the loop of `cmd_judge`. -/
structure Loop where
  verdict : Option Verdict
  extSha : Option Text
  boardBytes : Option ℕ
  nofileSeen : ℕ
  probesUsed : ℕ
  deriving DecidableEq

def probeLoop (want : Text) : List Parsed → Loop → Loop
  | [], s => s
  | p :: ps, s =>
    let s := { s with probesUsed := s.probesUsed + 1 }
    if ¬ (p.canary ∧ p.pathOk) then probeLoop want ps s
    else
      match p.hash with
      | some h =>
        { s with
          extSha := some h
          boardBytes := p.size
          verdict := some (if h = want then .pass else .failMismatch) }
      | none =>
        if p.nofile then
          let s := { s with nofileSeen := s.nofileSeen + 1 }
          if s.nofileSeen ≥ 2 then { s with verdict := some .failAbsent } else probeLoop want ps s
        else probeLoop want ps s

structure JudgeArgs where
  invalid : Option Text
  probes : Int

/-- The auxiliary evidence of an excluded run. -/
structure Aux where
  auxSha : Option Text
  auxBytes : Option ℕ
  auxVerdict : Option Verdict
  deriving DecidableEq

structure Rec where
  verdict : Verdict
  reason : Option Text
  extSha : Option Text
  boardBytes : Option ℕ
  groundtruthSha : Text
  probesUsed : ℕ
  aux : Option Aux
  deriving DecidableEq

/-- The reason is given and not empty. -/
def JudgeArgs.excluded (args : JudgeArgs) : Option Text := args.invalid.filter (· ≠ [])

def JudgeArgs.maxProbes (args : JudgeArgs) : ℕ :=
  if args.excluded.isSome then 2 else args.probes.toNat

/-- `cmd_judge`; `probe` answers the probes by number. -/
def cmdJudge (want : Text) (args : JudgeArgs) (probe : ℕ → Parsed) : Rec :=
  let s := probeLoop want ((List.range args.maxProbes).map fun i => probe (i + 1))
    ⟨none, none, none, 0, 0⟩
  let (verdict, reason, aux) :=
    match args.excluded with
    | some r => (.invalid, some r, some ⟨s.extSha, s.boardBytes, s.verdict⟩)
    | none =>
      match s.verdict with
      | some v => (v, none, none)
      | none => (.invalid, some "CONSOLE_UNVERIFIED".toList, none)
  { verdict, reason, extSha := s.extSha, boardBytes := s.boardBytes, groundtruthSha := want,
    probesUsed := s.probesUsed, aux }

end CspLinksim.ExternalVerdict
