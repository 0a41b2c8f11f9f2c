import Mathlib.Data.List.Induction
import Mathlib.Data.List.TakeWhile
import CspLinksim.Lib.Columns
import CspLinksim.Lib.Terminated

/-!
# The bus check of `csp_loss` (`csp_loss_apm.c`)

When the injector is armed it looks through `/proc` for processes that spoil a cell. A command
line is read into a buffer of 512 bytes; what does not fit is cut off.
-/

namespace CspLinksim.BusCheck

open Columns Terminated

abbrev Text := List Char

def nul : Char := '\x00'

/-- An entry of `/proc`, and what its `cmdline` holds if it can be opened. -/
structure Dirent where
  dName : Text
  cmdline : Option Text

/-- The bytes read; the buffer has a NUL behind them. -/
def lossReadCmdline (e : Dirent) (buflen : Nat) : Text :=
  (e.cmdline.getD []).take (buflen - 1)

/-- The part of a string from the last `c` on. -/
def strrchr (c : Char) : Text → Option Text
  | [] => none
  | x :: xs => (strrchr c xs).or (if x = c then some (x :: xs) else none)

def lossArgv0Is (cmd want : Text) : Bool :=
  let argv0 := front nul cmd
  let base := match strrchr '/' argv0 with
    | some slash => slash.tail
    | none => argv0
  base = want

def lossHasArgFrom (buf want : Text) (n i : Nat) : Bool :=
  if i < n then
    if front nul (buf.drop i) = want then true
    else lossHasArgFrom buf want n (i + ((front nul (buf.drop i)).length + 1))
  else false
termination_by n - i

def lossHasArg (cmd want : Text) : Bool :=
  let buf := cmd ++ [nul]
  lossHasArgFrom buf want cmd.length ((front nul buf).length + 1)

structure LossScan where
  gsCan : Nat
  gsTotal : Nat
  otherInjectors : Nat
  gsCanCmd : Text
  deriving DecidableEq

/-- `atoi` of a name that begins with a digit. -/
def atoi (name : Text) : Nat := Nat.ofDigitChars 10 (name.takeWhile Char.isDigit) 0

/-- `pid %.10s: %.200s`, in a buffer of 256 bytes. -/
def pidAndCmd (name cmd : Text) : Text :=
  ("pid ".toList ++ name.take 10 ++ ": ".toList ++ (front nul cmd).take 200).take 255

def scanProcess (c : LossScan) (name cmd : Text) : LossScan :=
  let c :=
    if lossArgv0Is cmd "upload_gs-server".toList then
      let c := { c with gsTotal := c.gsTotal + 1 }
      if lossHasArg cmd "-c".toList then
        { c with
          gsCan := c.gsCan + 1
          gsCanCmd := if c.gsCanCmd = [] then pidAndCmd name cmd else c.gsCanCmd }
      else c
    else c
  if lossArgv0Is cmd "ci_inject_bridge".toList then
    { c with otherInjectors := c.otherInjectors + 1 }
  else c

def scanEntry (self : Nat) (c : LossScan) (e : Dirent) : LossScan :=
  if e.dName.head?.any Char.isDigit = false then c
  else if atoi e.dName = self then c
  else
    let cmd := lossReadCmdline e 512
    if cmd = [] then c else scanProcess c e.dName cmd

/-- What the check prints. -/
inductive Line where
  | bypass (gsCanCmd : Text)
  | servers (gsTotal : Nat)
  | injectors (otherInjectors : Nat)
  | clean (gsTotal : Nat)
  deriving DecidableEq

def LossScan.lines (c : LossScan) : List Line :=
  (if 0 < c.gsCan then [.bypass c.gsCanCmd] else []) ++
  (if 1 < c.gsTotal then [.servers c.gsTotal] else []) ++
  (if 0 < c.otherInjectors then [.injectors c.otherInjectors] else []) ++
  (if c.gsCan = 0 ∧ c.gsTotal ≤ 1 ∧ c.otherInjectors = 0 then [.clean c.gsTotal] else [])

/-- The check of the process `self`; nothing is printed where `/proc` cannot be opened. -/
def lossScanConflicts (self : Nat) (proc : Option (List Dirent)) : List Line :=
  match proc with
  | none => []
  | some entries => (entries.foldl (scanEntry self) ⟨0, 0, 0, []⟩).lines

/-- A process. Linux shows its arguments with a NUL behind each. -/
structure Process where
  pid : Nat
  argv : List Text
  nulFree : ∀ a ∈ argv, nul ∉ a

def Process.dirent (p : Process) : Dirent :=
  ⟨decimal p.pid, some (joined nul p.argv)⟩

/-- What `/proc` lists: processes, and files with other names. -/
inductive ProcFile where
  | process (p : Process)
  | file (e : Dirent) (named : e.dName.head?.any Char.isDigit = false)

def ProcFile.dirent : ProcFile → Dirent
  | process p => p.dirent
  | file e _ => e

def ProcFile.process? : ProcFile → Option Process
  | process p => some p
  | file _ _ => none

def others (self : Nat) (files : List ProcFile) : List Process :=
  (files.filterMap ProcFile.process?).filter (·.pid ≠ self)

/-- A path of the program `name`. -/
def RunsAs (name path : Text) : Prop := path = name ∨ '/' :: name <:+ path

instance (name path : Text) : Decidable (RunsAs name path) :=
  inferInstanceAs (Decidable (_ ∨ _))

def Runs (name : Text) (args : List Text) : Prop := ∃ argv0 ∈ args.head?, RunsAs name argv0

instance (name : Text) (args : List Text) : Decidable (Runs name args) :=
  inferInstanceAs (Decidable (∃ argv0 ∈ args.head?, _))

/-- A ground server. -/
def Server (args : List Text) : Prop := Runs "upload_gs-server".toList args

/-- A ground server on the bus. -/
def OnBus (args : List Text) : Prop := Server args ∧ "-c".toList ∈ args.tail

def Injector (args : List Text) : Prop := Runs "ci_inject_bridge".toList args

instance (args : List Text) : Decidable (Server args) := inferInstanceAs (Decidable (Runs _ _))

instance (args : List Text) : Decidable (OnBus args) := inferInstanceAs (Decidable (_ ∧ _))

instance (args : List Text) : Decidable (Injector args) := inferInstanceAs (Decidable (Runs _ _))

/-- The arguments that are in the buffer. -/
def Process.seen (p : Process) : List Text := cut 511 p.argv

def Process.shown (p : Process) : Text :=
  'p' :: 'i' :: 'd' :: ' ' :: (decimal p.pid).take 10 ++ ": ".toList ++ (p.argv.headD []).take 200

theorem lossHasArgFrom_iff (cmd want : Text) (i : Nat) :
    lossHasArgFrom (cmd ++ [nul]) want cmd.length i = true ↔ want ∈ strings nul (cmd.drop i) := by
  fun_induction lossHasArgFrom (cmd ++ [nul]) want cmd.length i with
  | case1 i inside found =>
    have text : cmd.drop i ≠ [] := by simpa using inside
    rw [List.drop_append_of_le_length (Nat.le_of_lt inside), front_append_stop] at found
    rw [strings_eq text, found]
    simp
  | case2 i inside other ih =>
    have text : cmd.drop i ≠ [] := by simpa using inside
    rw [ih, List.drop_append_of_le_length (Nat.le_of_lt inside), front_append_stop,
      strings_eq text, List.mem_cons, List.drop_drop]
    rw [List.drop_append_of_le_length (Nat.le_of_lt inside), front_append_stop] at other
    exact ⟨.inr, fun h => h.resolve_left fun e => other e.symm⟩
  | case3 i behind =>
    rw [List.drop_of_length_le (Nat.le_of_not_lt behind), strings]
    simp

theorem lossHasArg_iff (cmd want : Text) :
    lossHasArg cmd want = true ↔ want ∈ (strings nul cmd).tail := by
  rw [lossHasArg, lossHasArgFrom_iff, front_append_stop]
  by_cases empty : cmd = []
  · simp [empty, strings]
  · rw [strings_eq empty, List.tail_cons]

theorem strrchr_none {c : Char} {s : Text} (none : strrchr c s = none) : c ∉ s := by
  induction s with
  | nil => exact List.not_mem_nil
  | cons x xs ih =>
    rw [strrchr, Option.or_eq_none_iff] at none
    obtain ⟨behind, here⟩ := none
    rw [List.mem_cons, not_or]
    refine ⟨?_, ih behind⟩
    rintro rfl
    simp at here

theorem strrchr_some {c : Char} {s t : Text} (found : strrchr c s = some t) :
    t <:+ s ∧ ∃ base, t = c :: base ∧ c ∉ base := by
  induction s with
  | nil => cases found
  | cons x xs ih =>
    rw [strrchr, Option.or_eq_some_iff] at found
    rcases found with behind | ⟨none, here⟩
    · exact ⟨(ih behind).1.trans (List.suffix_cons x xs), (ih behind).2⟩
    · split at here
      · rename_i same
        obtain rfl := Option.some.inj here
        exact ⟨List.suffix_rfl, xs, by rw [same], strrchr_none none⟩
      · cases here

/-- Two names behind the last slash are the same. -/
theorem base_unique {c : Char} {s base base' : Text} (h : c :: base <:+ s) (h' : c :: base' <:+ s)
    (free : c ∉ base) (free' : c ∉ base') : base = base' := by
  rcases List.suffix_or_suffix_of_suffix h h' with le | le
  · rcases List.suffix_cons_iff.mp le with same | inner
    · exact (List.cons.inj same).2
    · exact absurd (inner.subset List.mem_cons_self) free'
  · rcases List.suffix_cons_iff.mp le with same | inner
    · exact (List.cons.inj same).2.symm
    · exact absurd (inner.subset List.mem_cons_self) free

theorem lossArgv0Is_iff {cmd want : Text} (plain : '/' ∉ want) :
    lossArgv0Is cmd want = true ↔ RunsAs want (front nul cmd) := by
  rw [lossArgv0Is, RunsAs]
  simp only [decide_eq_true_eq]
  cases found : strrchr '/' (front nul cmd) with
  | none =>
    have absent := strrchr_none found
    exact ⟨.inl, fun h => h.resolve_right fun suffix =>
      absent (suffix.subset List.mem_cons_self)⟩
  | some slash =>
    obtain ⟨suffix, base, rfl, free⟩ := strrchr_some found
    simp only [List.tail_cons]
    constructor
    · rintro rfl
      exact .inr suffix
    · rintro (same | suffix')
      · rw [same] at suffix
        exact absurd (suffix.subset List.mem_cons_self) plain
      · exact base_unique suffix suffix' free plain

theorem Process.read_eq (p : Process) : strings nul (lossReadCmdline p.dirent 512) = p.seen :=
  strings_take p.nulFree 511

/-- What a process adds to the counters. -/
def tally (c : LossScan) (p : Process) : LossScan where
  gsCan := c.gsCan + if OnBus p.seen then 1 else 0
  gsTotal := c.gsTotal + if Server p.seen then 1 else 0
  otherInjectors := c.otherInjectors + if Injector p.seen then 1 else 0
  gsCanCmd := if OnBus p.seen ∧ c.gsCanCmd = [] then p.shown else c.gsCanCmd

theorem runs_iff {cmd name : Text} (text : cmd ≠ []) (plain : '/' ∉ name) :
    Runs name (strings nul cmd) ↔ lossArgv0Is cmd name = true := by
  rw [lossArgv0Is_iff plain, Runs, strings_eq text]
  simp

/-- The first argument as it is shown, with room to spare in the buffer. -/
theorem Process.pidAndCmd_eq (p : Process) (text : lossReadCmdline p.dirent 512 ≠ []) :
    pidAndCmd (decimal p.pid) (lossReadCmdline p.dirent 512) = p.shown := by
  have first : front nul (lossReadCmdline p.dirent 512) = (p.argv.headD []).take 511 := by
    have read := p.read_eq
    rw [strings_eq text, Process.seen] at read
    cases args : p.argv with
    | nil => simp [args, cut] at read
    | cons a rest =>
      rw [args, cut, if_neg (by decide)] at read
      exact (List.cons.inj read).1
  rw [pidAndCmd, first, List.take_take]
  refine List.take_of_length_le ?_
  simp only [List.length_append, List.length_take, String.length_toList]
  have := (by decide : "pid ".length = 4)
  have := (by decide : ": ".length = 2)
  omega

theorem scanProcess_eq (c : LossScan) (p : Process) (text : lossReadCmdline p.dirent 512 ≠ []) :
    scanProcess c (decimal p.pid) (lossReadCmdline p.dirent 512) = tally c p := by
  have server : Server p.seen ↔ _ := p.read_eq ▸ runs_iff text (by decide)
  have injector : Injector p.seen ↔ _ := p.read_eq ▸ runs_iff text (by decide)
  have onBus : "-c".toList ∈ p.seen.tail ↔ _ := p.read_eq ▸ (lossHasArg_iff _ _).symm
  rw [scanProcess, tally, p.pidAndCmd_eq text]
  simp only [OnBus, server, injector, onBus]
  generalize lossArgv0Is _ "upload_gs-server".toList = isServer
  generalize lossHasArg _ "-c".toList = isOnBus
  generalize lossArgv0Is _ "ci_inject_bridge".toList = isInjector
  cases isServer <;> cases isOnBus <;> cases isInjector <;> simp

theorem atoi_decimal (n : Nat) : atoi (decimal n) = n := by
  have digits : (decimal n).takeWhile Char.isDigit = decimal n :=
    List.takeWhile_eq_self_iff.mpr fun _ hc => digit_of_decimal hc
  rw [atoi, digits]
  exact Nat.ofDigitChars_ten_toDigits

/-- One entry: files, and the process itself, count for nothing. -/
theorem scanEntry_eq (self : Nat) (c : LossScan) (f : ProcFile) :
    scanEntry self c f.dirent = (others self [f]).foldl tally c := by
  cases f with
  | file e named =>
    rw [ProcFile.dirent, scanEntry, if_pos named]
    rfl
  | process p =>
    have named : ¬ p.dirent.dName.head?.any Char.isDigit = false := by
      obtain ⟨d, rest, text, digit⟩ := decimal_head p.pid
      simp [Process.dirent, text, digit]
    rw [ProcFile.dirent, scanEntry, if_neg named]
    have number : atoi p.dirent.dName = p.pid := atoi_decimal p.pid
    rw [number]
    by_cases own : p.pid = self
    · simp [own, others, ProcFile.process?]
    · have other : others self [.process p] = [p] := by simp [own, others, ProcFile.process?]
      rw [if_neg own, other]
      simp only [List.foldl_cons, List.foldl_nil]
      split
      · rename_i empty
        have seen : p.seen = [] := by rw [← p.read_eq, empty, strings]
        simp [tally, seen, OnBus, Server, Injector, Runs]
      · rename_i text
        exact scanProcess_eq c p text

theorem scan_eq (self : Nat) (files : List ProcFile) (c : LossScan) :
    (files.map ProcFile.dirent).foldl (scanEntry self) c = (others self files).foldl tally c := by
  induction files generalizing c with
  | nil => rfl
  | cons f fs ih =>
    have split : others self (f :: fs) = others self [f] ++ others self fs := by
      cases f with
      | file e named => rfl
      | process p => by_cases own : p.pid = self <;> simp [own, others, ProcFile.process?]
    rw [List.map_cons, List.foldl_cons, scanEntry_eq, ih, split, List.foldl_append]

/-- The counters after some processes. -/
structure Tallied (ps : List Process) (c : LossScan) : Prop where
  gsCan : c.gsCan = ps.countP (OnBus ·.seen)
  gsTotal : c.gsTotal = ps.countP (Server ·.seen)
  otherInjectors : c.otherInjectors = ps.countP (Injector ·.seen)
  gsCanCmd : c.gsCanCmd = ((ps.find? (OnBus ·.seen)).map Process.shown).getD []

theorem tallied_tally {ps : List Process} {c : LossScan} (h : Tallied ps c) (p : Process) :
    Tallied (ps ++ [p]) (tally c p) where
  gsCan := by simp [tally, h.gsCan, List.countP_append, List.countP_cons]
  gsTotal := by simp [tally, h.gsTotal, List.countP_append, List.countP_cons]
  otherInjectors := by simp [tally, h.otherInjectors, List.countP_append, List.countP_cons]
  gsCanCmd := by
    rw [tally, h.gsCanCmd, List.find?_append]
    cases found : ps.find? (OnBus ·.seen) with
    | none => by_cases here : OnBus p.seen <;> simp [here]
    | some q => simp [Process.shown]

theorem tallied_all (ps : List Process) : Tallied ps (ps.foldl tally ⟨0, 0, 0, []⟩) := by
  induction ps using List.reverseRecOn with
  | nil => exact ⟨rfl, rfl, rfl, rfl⟩
  | append_singleton ps p ih =>
    rw [List.foldl_append]
    exact tallied_tally ih p

/-- What the lines say of the processes. -/
structure Tells (ps : List Process) (lines : List Line) : Prop where
  /-- The one shown is the first ground server on the bus. -/
  bypass : ∀ text, .bypass text ∈ lines ↔
    ∃ p, ps.find? (OnBus ·.seen) = some p ∧ text = p.shown
  servers : ∀ n, .servers n ∈ lines ↔ n = ps.countP (Server ·.seen) ∧ 1 < n
  injectors : ∀ n, .injectors n ∈ lines ↔ n = ps.countP (Injector ·.seen) ∧ 0 < n
  clean : ∀ n, lines = [.clean n] ↔
    (∀ p ∈ ps, ¬ OnBus p.seen ∧ ¬ Injector p.seen) ∧ n = ps.countP (Server ·.seen) ∧ n ≤ 1

theorem Tallied.tells {ps : List Process} {c : LossScan} (h : Tallied ps c) :
    Tells ps c.lines where
  bypass text := by
    have found : 0 < c.gsCan ↔ ∃ p, ps.find? (OnBus ·.seen) = some p := by
      rw [h.gsCan, List.countP_pos_iff, ← Option.isSome_iff_exists, List.find?_isSome]
    have shown : .bypass text ∈ c.lines ↔ 0 < c.gsCan ∧ text = c.gsCanCmd := by
      simp [LossScan.lines]
    rw [shown, found]
    constructor
    · rintro ⟨⟨p, hp⟩, rfl⟩
      exact ⟨p, hp, by rw [h.gsCanCmd, hp]; rfl⟩
    · rintro ⟨p, hp, rfl⟩
      exact ⟨⟨p, hp⟩, by rw [h.gsCanCmd, hp]; rfl⟩
  servers n := by
    have shown : .servers n ∈ c.lines ↔ 1 < c.gsTotal ∧ n = c.gsTotal := by simp [LossScan.lines]
    rw [shown, ← h.gsTotal]
    constructor
    · rintro ⟨many, rfl⟩
      exact ⟨rfl, many⟩
    · rintro ⟨rfl, many⟩
      exact ⟨many, rfl⟩
  injectors n := by
    have shown : .injectors n ∈ c.lines ↔ 0 < c.otherInjectors ∧ n = c.otherInjectors := by
      simp [LossScan.lines]
    rw [shown, ← h.otherInjectors]
    constructor
    · rintro ⟨pos, rfl⟩
      exact ⟨rfl, pos⟩
    · rintro ⟨rfl, pos⟩
      exact ⟨pos, rfl⟩
  clean n := by
    have quiet : (∀ p ∈ ps, ¬ OnBus p.seen ∧ ¬ Injector p.seen)
        ↔ c.gsCan = 0 ∧ c.otherInjectors = 0 := by
      rw [h.gsCan, h.otherInjectors, List.countP_eq_zero, List.countP_eq_zero, ← forall₂_and]
      simp
    rw [quiet, ← h.gsTotal]
    constructor
    · intro only
      have shown : .clean n ∈ c.lines := only ▸ List.mem_singleton_self _
      have rest : (c.gsCan = 0 ∧ c.gsTotal ≤ 1 ∧ c.otherInjectors = 0) ∧ n = c.gsTotal := by
        simpa [LossScan.lines] using shown
      obtain ⟨⟨noBus, few, noInjector⟩, rfl⟩ := rest
      exact ⟨⟨noBus, noInjector⟩, rfl, few⟩
    · rintro ⟨⟨noBus, noInjector⟩, rfl, few⟩
      have notMany : ¬ 1 < c.gsTotal := Nat.not_lt.mpr few
      simp [LossScan.lines, noBus, noInjector, notMany, few]

/-- What is seen of a command line. -/
structure Sees (p : Process) : Prop where
  whole : (joined nul p.argv).length ≤ 511 → p.seen = p.argv
  cutOff : ∃ seen unseen, p.argv = seen ++ unseen ∧ List.Forall₂ (· <+: ·) p.seen seen

/-- The check sees every process but its own, and reports exactly what their command lines say,
as far as they fit in the buffer. -/
theorem bus_check (self : Nat) (files : List ProcFile) :
    Tells (others self files) (lossScanConflicts self (some (files.map ProcFile.dirent))) ∧
    ∀ p : Process, Sees p := by
  refine ⟨?_, fun p => ⟨cut_of_fits, cut_prefix 511 p.argv⟩⟩
  rw [lossScanConflicts, scan_eq]
  exact (tallied_all _).tells

end CspLinksim.BusCheck
