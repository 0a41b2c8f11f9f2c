import Mathlib.Data.List.Basic
import Mathlib.Data.List.TakeWhile
import Mathlib.Tactic.Common

/-!
# The arguments of `csp_link test` (`csp_link_apm.c`)

The option parser of slash stops at the first argument that is not an option. So the command
puts the options, each with its value, in front of the other arguments before it parses them. The
parser is a parameter.
-/

namespace CspLinksim.LinkArguments

abbrev Arg := List Char

def linkValueOpts : List Arg :=
  ["-c", "--count", "-s", "--size", "-i", "--interval", "-t", "--timeout", "-I", "--iface"].map
    String.toList

def isDash (a : Arg) : Bool := a.head? = some '-'

/-- The first `nopt` places of `out`, and the first `npos` of `positional`. -/
structure Reordered where
  out : List Arg
  positional : List Arg

def Reordered.put (s : Reordered) (a : Arg) : Reordered := { s with out := s.out ++ [a] }

def Reordered.keep (s : Reordered) (a : Arg) : Reordered :=
  if s.positional.length < 4 then { s with positional := s.positional ++ [a] } else s

/-- The loop over the arguments; the last one has none behind it that could be its value. -/
def reorderLoop (max : ℕ) : List Arg → Reordered → Reordered
  | [], s => s
  | [a], s => if s.out.length < max then if isDash a then s.put a else s.keep a else s
  | a :: v :: rest, s =>
    if s.out.length < max then
      if isDash a then
        if linkValueOpts.contains a && (s.put a).out.length < max then
          reorderLoop max rest ((s.put a).put v)
        else reorderLoop max (v :: rest) (s.put a)
      else reorderLoop max (v :: rest) (s.keep a)
    else s

/-- What is written to `out`, and how many arguments are said to be there. -/
def linkReorderArgv (argv : List Arg) (max : ℕ) : List Arg × ℕ :=
  let s := reorderLoop max argv ⟨[], []⟩
  (s.out ++ s.positional.take (max - s.out.length), s.out.length + s.positional.length)

inductive Item where
  | flag (a : Arg)
  | valued (a v : Arg)
  | positional (a : Arg)
  deriving DecidableEq

/-- How a command line is meant: a value option takes the argument behind it, whatever that is. -/
def items : List Arg → List Item
  | [] => []
  | [a] => if isDash a then [.flag a] else [.positional a]
  | a :: v :: rest =>
    if isDash a then
      if linkValueOpts.contains a then .valued a v :: items rest else .flag a :: items (v :: rest)
    else .positional a :: items (v :: rest)

def Item.isOption : Item → Bool
  | flag _ => true
  | valued _ _ => true
  | positional _ => false

def Item.positional? : Item → Option Arg
  | flag _ => none
  | valued _ _ => none
  | positional a => some a

def Item.words : Item → List Arg
  | flag a => [a]
  | valued a v => [a, v]
  | positional a => [a]

/-- The options of a command line. -/
def options (argv : List Arg) : List Item := (items argv).filter Item.isOption

def positionals (argv : List Arg) : List Arg := (items argv).filterMap Item.positional?

/-- The option parser with the options of the command: `parse` gives the options it came to and
the arguments from the first on that is no option, and `accepts` says of an option whether it is
one of the command and of its value whether it can be read. -/
structure OptParse where
  parse : List Arg → Option (List Item × List Arg)
  accepts : Item → Bool
  parse_nil : parse [] = some ([], [])
  parse_argument : ∀ a rest, isDash a = false → parse (a :: rest) = some ([], a :: rest)
  parse_flag : ∀ a rest, linkValueOpts.contains a = false → accepts (.flag a) = true →
    parse (a :: rest) = (parse rest).map fun r => (.flag a :: r.1, r.2)
  parse_valued : ∀ a v rest, linkValueOpts.contains a = true → accepts (.valued a v) = true →
    parse (a :: v :: rest) = (parse rest).map fun r => (.valued a v :: r.1, r.2)
  parse_refused : ∀ a v rest, linkValueOpts.contains a = true → accepts (.valued a v) = false →
    parse (a :: v :: rest) = none
  parse_lacking : ∀ a, linkValueOpts.contains a = true → parse [a] = none

/-- An item that reads the same whatever stands behind it. -/
def Item.Closed : Item → Prop
  | flag a => isDash a = true ∧ linkValueOpts.contains a = false
  | valued a _ => isDash a = true ∧ linkValueOpts.contains a = true
  | positional a => isDash a = false

instance : DecidablePred Item.Closed
  | .flag _ => inferInstanceAs (Decidable (_ ∧ _))
  | .valued _ _ => inferInstanceAs (Decidable (_ ∧ _))
  | .positional _ => inferInstanceAs (Decidable (_ = _))

/-- The last argument is not an option that lacks its value. -/
def Complete (argv : List Arg) : Prop := ∀ i ∈ items argv, i.Closed

instance (argv : List Arg) : Decidable (Complete argv) :=
  inferInstanceAs (Decidable (∀ i ∈ items argv, i.Closed))

section

variable (a v : Arg) (is : List Item)

@[simp] theorem filter_flag :
    (Item.flag a :: is).filter Item.isOption = .flag a :: is.filter Item.isOption := rfl

@[simp] theorem filter_valued :
    (Item.valued a v :: is).filter Item.isOption = .valued a v :: is.filter Item.isOption := rfl

@[simp] theorem filter_positional :
    (Item.positional a :: is).filter Item.isOption = is.filter Item.isOption := rfl

@[simp] theorem filterMap_flag :
    (Item.flag a :: is).filterMap Item.positional? = is.filterMap Item.positional? := rfl

@[simp] theorem filterMap_valued :
    (Item.valued a v :: is).filterMap Item.positional? = is.filterMap Item.positional? := rfl

@[simp] theorem filterMap_positional :
    (Item.positional a :: is).filterMap Item.positional? = a :: is.filterMap Item.positional? := rfl

end

theorem words_items (argv : List Arg) : (items argv).flatMap Item.words = argv := by
  fun_induction items argv with
  | case1 => rfl
  | case2 a dash => rfl
  | case3 a plain => rfl
  | case4 a v rest dash takes ih => rw [List.flatMap_cons, ih]; rfl
  | case5 a v rest dash alone ih => rw [List.flatMap_cons, ih]; rfl
  | case6 a v rest plain ih => rw [List.flatMap_cons, ih]; rfl

theorem keep_take (s : Reordered) (a : Arg) (rest : List Arg) :
    (s.keep a).out = s.out ∧
      ((s.keep a).positional ++ rest).take 4 = (s.positional ++ a :: rest).take 4 := by
  rw [Reordered.keep]
  split
  case isTrue => simp
  case isFalse full =>
    refine ⟨rfl, ?_⟩
    rw [List.take_append_of_le_length (by omega), List.take_append_of_le_length (by omega)]

theorem keep_le {s : Reordered} (few : s.positional.length ≤ 4) (a : Arg) :
    (s.keep a).positional.length ≤ 4 := by
  rw [Reordered.keep]
  split
  case isTrue more =>
    rw [List.length_append, List.length_singleton]
    omega
  case isFalse => exact few

/-- With room for all arguments, the loop puts each where it belongs. -/
theorem reorderLoop_eq {max : ℕ} {argv : List Arg} {s : Reordered}
    (fits : s.out.length + argv.length ≤ max) (few : s.positional.length ≤ 4) :
    reorderLoop max argv s = ⟨s.out ++ (options argv).flatMap Item.words,
      (s.positional ++ positionals argv).take 4⟩ := by
  rw [options, positionals]
  fun_induction items argv generalizing s with
  | case1 => simp [reorderLoop, List.take_of_length_le few]
  | case2 a dash =>
    simp only [List.length_singleton] at fits
    rw [reorderLoop, if_pos (by omega), if_pos dash]
    simp [Reordered.put, Item.words, List.take_of_length_le few]
  | case3 a plain =>
    simp only [List.length_singleton] at fits
    obtain ⟨same, kept⟩ := keep_take s a []
    rw [List.append_nil, List.take_of_length_le (keep_le few a)] at kept
    rw [reorderLoop, if_pos (by omega), if_neg plain]
    simp [← kept, ← same]
  | case4 a v rest dash takes ih =>
    simp only [List.length_cons] at fits
    have second : (s.put a).out.length < max := by
      simp only [Reordered.put, List.length_append, List.length_singleton]
      omega
    have room : ((s.put a).put v).out.length + rest.length ≤ max := by
      simp only [Reordered.put, List.length_append, List.length_singleton]
      omega
    have few' : ((s.put a).put v).positional.length ≤ 4 := few
    rw [reorderLoop, if_pos (by omega), if_pos dash, takes, Bool.true_and,
      if_pos (decide_eq_true second), ih room few']
    simp [Reordered.put, Item.words]
  | case5 a v rest dash alone ih =>
    have room : (s.put a).out.length + (v :: rest).length ≤ max := by
      simp only [Reordered.put, List.length_append, List.length_cons, List.length_nil] at fits ⊢
      omega
    have few' : (s.put a).positional.length ≤ 4 := few
    simp only [List.length_cons] at fits
    rw [reorderLoop, if_pos (by omega), if_pos dash, Bool.eq_false_iff.mpr alone, Bool.false_and,
      if_neg Bool.false_ne_true, ih room few']
    simp [Reordered.put, Item.words]
  | case6 a v rest plain ih =>
    obtain ⟨same, kept⟩ := keep_take s a ((items (v :: rest)).filterMap Item.positional?)
    simp only [List.length_cons] at fits
    have room : (s.keep a).out.length + (v :: rest).length ≤ max := by
      rw [same, List.length_cons]
      omega
    rw [reorderLoop, if_pos (by omega), if_neg plain, ih room (keep_le few a), kept, same]
    simp

/-- Items that read the same whatever stands behind them, apart from a last option that lacks its
value. -/
def AllButLast (is : List Item) : Prop := ∃ front, (∀ i ∈ front, i.Closed) ∧
  (is = front ∨
    ∃ a, isDash a = true ∧ linkValueOpts.contains a = true ∧ is = front ++ [.flag a])

theorem allButLast_nil : AllButLast [] := ⟨[], by simp, .inl rfl⟩

theorem AllButLast.cons {is : List Item} (h : AllButLast is) {i : Item} (closed : i.Closed) :
    AllButLast (i :: is) := by
  obtain ⟨front, all, ends⟩ := h
  refine ⟨i :: front, List.forall_mem_cons.mpr ⟨closed, all⟩, ?_⟩
  simpa using ends

theorem items_allButLast (argv : List Arg) : AllButLast (items argv) := by
  fun_induction items argv with
  | case1 => exact allButLast_nil
  | case2 a dash =>
    cases takes : linkValueOpts.contains a with
    | true => exact ⟨[], by simp, .inr ⟨a, dash, takes, rfl⟩⟩
    | false => exact allButLast_nil.cons ⟨dash, takes⟩
  | case3 a plain => exact allButLast_nil.cons (Bool.eq_false_iff.mpr plain)
  | case4 a v rest dash takes ih => exact ih.cons ⟨dash, takes⟩
  | case5 a v rest dash alone ih => exact ih.cons ⟨dash, Bool.eq_false_iff.mpr alone⟩
  | case6 a v rest plain ih => exact ih.cons (Bool.eq_false_iff.mpr plain)

theorem positionals_words (is : List Item) :
    (is.filterMap Item.positional?).map Item.positional = is.filter fun i => !i.isOption := by
  induction is with
  | nil => rfl
  | cons i is ih =>
    rw [List.filterMap_cons, List.filter_cons, ← ih]
    cases i <;> rfl

theorem words_positional (ps : List Arg) : (ps.map Item.positional).flatMap Item.words = ps := by
  induction ps with
  | nil => rfl
  | cons p ps ih => rw [List.map_cons, List.flatMap_cons, ih]; rfl

/-- Nothing is lost but the arguments behind the fourth that is not an option. -/
theorem reordered_perm (argv : List Arg) :
    ((options argv).flatMap Item.words ++ positionals argv).Perm argv := by
  have parts := (List.filter_append_perm Item.isOption (items argv)).flatMap_right Item.words
  rwa [List.flatMap_append, ← positionals_words, words_positional, words_items] at parts

theorem linkReorderArgv_eq {argv : List Arg} {max : ℕ} (short : argv.length ≤ max) :
    linkReorderArgv argv max =
      ((options argv).flatMap Item.words ++ (positionals argv).take 4,
        ((options argv).flatMap Item.words ++ (positionals argv).take 4).length) := by
  have total := (reordered_perm argv).length_eq
  rw [List.length_append] at total
  rw [linkReorderArgv, reorderLoop_eq (s := ⟨[], []⟩) (by simpa using short) (by simp)]
  simp only [List.nil_append, List.length_append, Prod.mk.injEq, and_true]
  rw [List.take_of_length_le]
  rw [List.length_take]
  omega

theorem positionals_plain {argv : List Arg} {p : Arg} (hp : p ∈ positionals argv) :
    isDash p = false := by
  obtain ⟨i, hi, same⟩ := List.mem_filterMap.mp hp
  obtain ⟨front, closed, ends⟩ := items_allButLast argv
  cases i with
  | flag a => cases same
  | valued a v => cases same
  | positional a =>
    cases same
    rcases ends with eq | ⟨a, -, -, eq⟩
    · exact closed _ (eq ▸ hi)
    · rw [eq] at hi
      rcases List.mem_append.mp hi with inside | last
      · exact closed _ inside
      · cases List.mem_singleton.mp last

theorem options_isOption {argv : List Arg} : ∀ i ∈ options argv, i.isOption = true :=
  fun _ hi => List.of_mem_filter hi

namespace OptParse

variable (lib : OptParse)

/-- The parser stops in front of arguments that are no options. -/
theorem parse_plain {ps : List Arg} (plain : ∀ p ∈ ps, isDash p = false) :
    lib.parse ps = some ([], ps) := by
  cases ps with
  | nil => exact lib.parse_nil
  | cons p ps => exact lib.parse_argument p ps (plain p List.mem_cons_self)

/-- The parser comes to an option that has its value, and goes on. -/
theorem parse_option {i : Item} (option : i.isOption = true) (closed : i.Closed)
    (accepted : lib.accepts i = true) (rest : List Arg) :
    lib.parse (i.words ++ rest) = (lib.parse rest).map fun r => (i :: r.1, r.2) := by
  cases i with
  | flag a => exact lib.parse_flag a rest closed.2 accepted
  | valued a v => exact lib.parse_valued a v rest closed.2 accepted
  | positional a => cases option

theorem parse_options {is : List Item} (options : ∀ i ∈ is, i.isOption = true)
    (closed : ∀ i ∈ is, i.Closed) (accepted : ∀ i ∈ is, lib.accepts i = true)
    (rest : List Arg) :
    lib.parse (is.flatMap Item.words ++ rest) =
      (lib.parse rest).map fun r => (is ++ r.1, r.2) := by
  induction is with
  | nil => exact Option.map_id'.symm
  | cons i is ih =>
    obtain ⟨option, options⟩ := List.forall_mem_cons.mp options
    obtain ⟨whole, closed⟩ := List.forall_mem_cons.mp closed
    obtain ⟨this, accepted⟩ := List.forall_mem_cons.mp accepted
    rw [List.flatMap_cons, List.append_assoc, lib.parse_option option whole this,
      ih options closed accepted, Option.map_map]
    rfl

/-- An option that lacks its value is refused, or takes the first argument behind it. -/
theorem parse_taking {a : Arg} (takes : linkValueOpts.contains a = true) (ps : List Arg) :
    lib.parse (a :: ps) = none ∨
      ∃ p rest, lib.parse (a :: ps) = (lib.parse rest).map fun r => (.valued a p :: r.1, r.2) := by
  cases ps with
  | nil => exact .inl (lib.parse_lacking a takes)
  | cons p rest =>
    cases accepted : lib.accepts (.valued a p) with
    | true => exact .inr ⟨p, rest, lib.parse_valued a p rest takes accepted⟩
    | false => exact .inl (lib.parse_refused a p rest takes accepted)

end OptParse

/-- The options that have their values are read as they were meant. -/
theorem parse_complete (lib : OptParse) {argv : List Arg} (complete : Complete argv)
    (accepted : ∀ i ∈ options argv, lib.accepts i = true) {ps : List Arg}
    (plain : ∀ p ∈ ps, isDash p = false) :
    lib.parse ((options argv).flatMap Item.words ++ ps) = some (options argv, ps) := by
  have closed : ∀ i ∈ options argv, i.Closed := fun i hi => complete i (List.mem_of_mem_filter hi)
  rw [lib.parse_options options_isOption closed accepted, lib.parse_plain plain, Option.map_some,
    List.append_nil]

/-- One that lacks its value never is. -/
theorem parse_incomplete (lib : OptParse) {argv : List Arg} (lacks : ¬ Complete argv)
    (accepted : ∀ i ∈ options argv, i.Closed → lib.accepts i = true) (ps rest : List Arg) :
    lib.parse ((options argv).flatMap Item.words ++ ps) ≠ some (options argv, rest) := by
  obtain ⟨front, closed, ends⟩ := items_allButLast argv
  rcases ends with same | ⟨a, dash, takes, same⟩
  · exact absurd (fun i hi => closed i (same ▸ hi)) lacks
  · have opts : options argv = front.filter Item.isOption ++ [.flag a] := by
      rw [options, same, List.filter_append]
      rfl
    have whole : ∀ i ∈ front.filter Item.isOption, i.Closed :=
      fun i hi => closed i (List.mem_of_mem_filter hi)
    have before : ∀ i ∈ front.filter Item.isOption, lib.accepts i = true :=
      fun i hi => accepted i (opts ▸ List.mem_append_left _ hi) (whole i hi)
    have words : (options argv).flatMap Item.words ++ ps =
        (front.filter Item.isOption).flatMap Item.words ++ a :: ps := by
      rw [opts, List.flatMap_append, List.append_assoc]
      rfl
    rw [words, lib.parse_options (fun i hi => List.of_mem_filter hi) whole before, opts]
    intro reads
    rcases lib.parse_taking takes ps with refused | ⟨p, left, taken⟩
    · rw [refused] at reads
      cases reads
    · rw [taken, Option.map_map, Option.map_eq_some_iff] at reads
      obtain ⟨r, -, eq⟩ := reads
      cases List.append_cancel_left (Prod.mk.inj eq).1

/-- A command line of at most 24 arguments is reordered within the array: all that is said to be
there was written. The parser, if it has no objection to an option or a value, then comes to every
option as it was meant and stops at the node, exactly if the last argument is not an option that
lacks its value. -/
theorem test_arguments (lib : OptParse) {argv : List Arg} (short : argv.length ≤ 24)
    (accepted : ∀ i ∈ options argv, i.Closed → lib.accepts i = true) :
    ∃ args, linkReorderArgv argv 24 = (args, args.length) ∧
      ((positionals argv).length ≤ 4 → args.Perm argv) ∧
      (lib.parse args = some (options argv, (positionals argv).take 4) ↔ Complete argv) := by
  refine ⟨_, linkReorderArgv_eq short, fun few => ?_, ?_, fun complete => ?_⟩
  · rw [List.take_of_length_le few]
    exact reordered_perm argv
  · intro reads
    by_contra lacks
    exact parse_incomplete lib lacks accepted _ _ reads
  · have whole : ∀ i ∈ options argv, i.Closed :=
      fun i hi => complete i (List.mem_of_mem_filter hi)
    refine parse_complete lib complete (fun i hi => accepted i hi (whole i hi)) ?_
    exact fun p hp => positionals_plain (List.mem_of_mem_take hp)

/-- A parser that has no objection to any value. -/
def parseAll : List Arg → Option (List Item × List Arg)
  | [] => some ([], [])
  | [a] =>
    if linkValueOpts.contains a then none
    else if isDash a then some ([.flag a], []) else some ([], [a])
  | a :: v :: rest =>
    if linkValueOpts.contains a then
      (parseAll rest).map fun r => (.valued a v :: r.1, r.2)
    else if isDash a then (parseAll (v :: rest)).map fun r => (.flag a :: r.1, r.2)
    else some ([], a :: v :: rest)

theorem dash_of_valueOpt {a : Arg} (takes : linkValueOpts.contains a = true) : isDash a = true := by
  have all : ∀ o ∈ linkValueOpts, isDash o = true := by decide
  exact all a (by simpa using takes)

def acceptAll : OptParse where
  parse := parseAll
  accepts i := match i with
    | .flag a => isDash a
    | _ => true
  parse_nil := rfl
  parse_argument a rest plain := by
    have alone : linkValueOpts.contains a = false := by
      by_contra takes
      rw [dash_of_valueOpt (by simpa using takes)] at plain
      cases plain
    cases rest <;> simp only [parseAll, alone, plain, Bool.false_eq_true, if_false]
  parse_flag a rest alone dash := by
    cases rest with
    | nil =>
      simp only [parseAll, alone, Bool.false_eq_true, if_false]
      rw [if_pos dash]
      rfl
    | cons v rest =>
      simp only [parseAll, alone, Bool.false_eq_true, if_false]
      rw [if_pos dash]
  parse_valued a v rest takes _ := by
    rw [parseAll, if_pos takes]
  parse_refused a v rest _ refused := by cases refused
  parse_lacking a takes := by
    rw [parseAll, if_pos takes]

/-- A count that lacks its value takes the node. -/
example : parseAll (linkReorderArgv ["5425".toList, "-c".toList] 24).1 =
    some ([.valued "-c".toList "5425".toList], []) := by decide

/-- The node comes first. -/
def nodeFirst : List Arg :=
  ["5425".toList, "-c".toList, "50".toList, "--iface".toList, "CAN".toList]

theorem node_first_reads : ∃ args, linkReorderArgv nodeFirst 24 = (args, args.length) ∧
    acceptAll.parse args =
      some ([.valued "-c".toList "50".toList, .valued "--iface".toList "CAN".toList],
        ["5425".toList]) := by
  obtain ⟨args, written, -, reads⟩ := @test_arguments acceptAll nodeFirst (by decide)
    (by decide)
  exact ⟨args, written, reads.mpr (by decide)⟩

end CspLinksim.LinkArguments
