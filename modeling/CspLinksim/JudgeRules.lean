import CspLinksim.ExternalVerdict

/-!
# The trust rules of the judge

The verdict over every sequence of probes, against the rules of the script's header: the first
trusted hash decides, unless two `SD_NOFILE` answers in a row come before it. The counter of
the code is not reset by the answers in between.
-/

namespace CspLinksim.ExternalVerdict

/-- A trusted answer. -/
inductive Answer where
  | hash (h : Text)
  | nofile
  | neither
  deriving DecidableEq

def answerOf (p : Parsed) : Option Answer :=
  if p.canary ∧ p.pathOk then
    match p.hash with
    | some h => some (.hash h)
    | none => if p.nofile then some .nofile else some .neither
  else none

def Answer.hash? : Answer → Option Text
  | .hash h => some h
  | .nofile => none
  | .neither => none

/-- The trusted answers to the probes allowed. -/
def answers (args : JudgeArgs) (probe : ℕ → Parsed) : List Answer :=
  ((List.range args.probes.toNat).map fun i => probe (i + 1)).filterMap answerOf

def firstHash (as : List Answer) : Option Text := as.findSome? Answer.hash?

def beforeHash (as : List Answer) : List Answer := as.takeWhile fun a => a.hash?.isNone

/-- ABSENT is established. -/
def TwiceAbsent (as : List Answer) : Prop := [.nofile, .nofile] <:+: as

/-- A trusted hash comes first. -/
def HashFirst (as : List Answer) (h : Text) : Prop :=
  ∃ before after, as = before ++ .hash h :: after ∧ (∀ a ∈ before, a.hash? = none) ∧
    ¬ TwiceAbsent before

/-- Two `SD_NOFILE` answers in a row come first. -/
def AbsentFirst (as : List Answer) : Prop :=
  ∃ before after, as = before ++ .nofile :: .nofile :: after ∧ ∀ a ∈ before, a.hash? = none

/-- The verdict that the rules give. -/
structure FollowsRules (want : Text) (as : List Answer) (v : Verdict) : Prop where
  pass : v = .pass ↔ HashFirst as want
  failMismatch : v = .failMismatch ↔ ∃ h, h ≠ want ∧ HashFirst as h
  failAbsent : v = .failAbsent ↔ AbsentFirst as
  invalid : v = .invalid ↔ ¬ AbsentFirst as ∧ ∀ h, ¬ HashFirst as h

/-- The judge follows its rules on these probes. -/
structure Follows (want : Text) (args : JudgeArgs) (probe : ℕ → Parsed) : Prop where
  rules : args.invalid = none →
    FollowsRules want (answers args probe) (cmdJudge want args probe).verdict
  excluded : ∀ r, args.invalid = some r →
    (cmdJudge want args probe).verdict = .invalid ∧ (cmdJudge want args probe).reason = some r

def compare (want h : Text) : Verdict := if h = want then .pass else .failMismatch

/-- The loop without the probes it does not trust. -/
def ruled (want : Text) : List Answer → ℕ → Option Verdict
  | [], _ => none
  | .hash h :: _, _ => some (compare want h)
  | .nofile :: as, seen => if seen + 1 ≥ 2 then some .failAbsent else ruled want as (seen + 1)
  | .neither :: as, seen => ruled want as seen

theorem probeLoop_verdict (want : Text) (ps : List Parsed) (s : Loop) (fresh : s.verdict = none) :
    (probeLoop want ps s).verdict = ruled want (ps.filterMap answerOf) s.nofileSeen := by
  induction ps generalizing s with
  | nil => exact fresh
  | cons p ps ih =>
    by_cases trusted : p.canary = true ∧ p.pathOk = true
    · rw [probeLoop, if_neg (not_not.mpr trusted)]
      cases hash : p.hash with
      | some h =>
        have answer : answerOf p = some (.hash h) := by rw [answerOf, if_pos trusted, hash]
        rw [List.filterMap_cons_some answer, ruled]
        rfl
      | none =>
        cases nofile : p.nofile with
        | false =>
          have answer : answerOf p = some .neither := by
            rw [answerOf, if_pos trusted, hash, nofile]
            rfl
          rw [List.filterMap_cons_some answer, ruled]
          exact ih { s with probesUsed := s.probesUsed + 1 } fresh
        | true =>
          have answer : answerOf p = some .nofile := by
            rw [answerOf, if_pos trusted, hash, nofile]
            rfl
          rw [List.filterMap_cons_some answer, ruled]
          by_cases twice : s.nofileSeen + 1 ≥ 2
          · rw [if_pos twice]
            simp [twice]
          · rw [if_neg twice]
            simpa [twice] using
              ih { s with probesUsed := s.probesUsed + 1, nofileSeen := s.nofileSeen + 1 } fresh
    · have skipped : answerOf p = none := if_neg trusted
      rw [probeLoop, List.filterMap_cons_none skipped, if_pos trusted]
      exact ih _ fresh

@[simp] theorem firstHash_hash (h : Text) (as : List Answer) :
    firstHash (.hash h :: as) = some h := rfl

@[simp] theorem firstHash_nofile (as : List Answer) :
    firstHash (.nofile :: as) = firstHash as := rfl

@[simp] theorem firstHash_neither (as : List Answer) : firstHash (.neither :: as) = firstHash as :=
  rfl

@[simp] theorem beforeHash_hash (h : Text) (as : List Answer) :
    beforeHash (.hash h :: as) = [] := rfl

@[simp] theorem beforeHash_nofile (as : List Answer) :
    beforeHash (.nofile :: as) = .nofile :: beforeHash as := rfl

@[simp] theorem beforeHash_neither (as : List Answer) :
    beforeHash (.neither :: as) = .neither :: beforeHash as := rfl

/-- Before the first hash the loop counts. -/
theorem ruled_eq (want : Text) (as : List Answer) (seen : ℕ) (few : seen ≤ 1) :
    ruled want as seen =
      if 2 ≤ seen + (beforeHash as).count .nofile then some .failAbsent
      else (firstHash as).map (compare want) := by
  induction as generalizing seen with
  | nil => rw [if_neg (by simp [beforeHash]; omega)]; rfl
  | cons a as ih =>
    cases a with
    | hash h =>
      rw [if_neg (by simp; omega)]
      rfl
    | nofile =>
      rw [ruled, firstHash_nofile, beforeHash_nofile, List.count_cons_self]
      by_cases twice : seen + 1 ≥ 2
      · rw [if_pos twice, if_pos (by omega)]
      · rw [if_neg twice, ih (seen + 1) (by omega), Nat.add_right_comm, Nat.add_assoc seen]
    | neither =>
      rw [ruled, ih seen few, firstHash_neither, beforeHash_neither,
        List.count_cons_of_ne (by decide)]

theorem beforeHash_append {before after : List Answer} (none : ∀ a ∈ before, a.hash? = none) :
    beforeHash (before ++ after) = before ++ beforeHash after := by
  apply List.takeWhile_append_of_pos
  intro a mem
  rw [none a mem]
  rfl

theorem firstHash_append {before after : List Answer} (none : ∀ a ∈ before, a.hash? = none) :
    firstHash (before ++ after) = firstHash after := by
  have empty : firstHash before = Option.none := List.findSome?_eq_none_iff.mpr none
  rw [firstHash, List.findSome?_append]
  rw [firstHash] at empty
  rw [empty, Option.none_or]
  rfl

theorem beforeHash_clean (as : List Answer) : ∀ a ∈ beforeHash as, a.hash? = none := by
  intro a mem
  simpa using List.mem_takeWhile_imp mem

/-- A sequence at its first hash. -/
theorem split_at_hash (as : List Answer) :
    (firstHash as = none ∧ as = beforeHash as) ∨
      ∃ h after, firstHash as = some h ∧ as = beforeHash as ++ .hash h :: after := by
  induction as with
  | nil => exact Or.inl ⟨rfl, rfl⟩
  | cons a as ih =>
    cases a with
    | hash h => exact Or.inr ⟨h, as, rfl, rfl⟩
    | nofile =>
      rcases ih with ⟨none, same⟩ | ⟨h, after, some, same⟩
      · exact Or.inl ⟨none, congrArg _ same⟩
      · exact Or.inr ⟨h, after, some, congrArg _ same⟩
    | neither =>
      rcases ih with ⟨none, same⟩ | ⟨h, after, some, same⟩
      · exact Or.inl ⟨none, congrArg _ same⟩
      · exact Or.inr ⟨h, after, some, congrArg _ same⟩

theorem hashFirst_iff (as : List Answer) (h : Text) :
    HashFirst as h ↔ firstHash as = some h ∧ ¬ TwiceAbsent (beforeHash as) := by
  constructor
  · rintro ⟨before, after, rfl, clean, once⟩
    rw [firstHash_append clean, beforeHash_append clean, beforeHash_hash, List.append_nil]
    exact ⟨rfl, once⟩
  · rintro ⟨first, once⟩
    rcases split_at_hash as with ⟨none, -⟩ | ⟨h', after, some, same⟩
    · rw [none] at first
      cases first
    · obtain rfl := Option.some.inj (some.symm.trans first)
      exact ⟨beforeHash as, after, same, beforeHash_clean as, once⟩

theorem absentFirst_iff (as : List Answer) : AbsentFirst as ↔ TwiceAbsent (beforeHash as) := by
  constructor
  · rintro ⟨before, after, rfl, clean⟩
    refine ⟨before, beforeHash after, ?_⟩
    rw [beforeHash_append clean]
    simp
  · rintro ⟨u, w, two⟩
    have clean : ∀ a ∈ u, a.hash? = none := fun a mem =>
      beforeHash_clean as a (by rw [← two]; simp [mem])
    rcases split_at_hash as with ⟨-, same⟩ | ⟨h, after, -, same⟩
    · exact ⟨u, w, by rw [same, ← two]; simp, clean⟩
    · exact ⟨u, w ++ .hash h :: after, by rw [same, ← two]; simp, clean⟩

theorem count_of_twiceAbsent {as : List Answer} (twice : TwiceAbsent as) :
    2 ≤ as.count .nofile := by
  have count := twice.sublist.count_le .nofile
  simpa using count

/-- What a verdict counted to follows. -/
theorem followsRules_iff (want : Text) (as : List Answer) :
    FollowsRules want as ((ruled want as 0).getD .invalid) ↔
      (beforeHash as).count .nofile ≤ 1 ∨ TwiceAbsent (beforeHash as) := by
  rw [ruled_eq want as 0 (by omega), Nat.zero_add]
  constructor
  · intro follows
    by_contra bad
    obtain ⟨many, apart⟩ := not_or.mp bad
    rw [if_pos (by omega)] at follows
    exact apart ((absentFirst_iff as).mp (follows.failAbsent.mp rfl))
  · intro fits
    by_cases twice : TwiceAbsent (beforeHash as)
    · have no (h : Text) : ¬ HashFirst as h := fun first => ((hashFirst_iff as h).mp first).2 twice
      have absent := (absentFirst_iff as).mpr twice
      rw [if_pos (count_of_twiceAbsent twice)]
      refine ⟨?_, ?_, ?_, ?_⟩ <;> simp [no, absent]
    · have absent : ¬ AbsentFirst as := fun h => twice ((absentFirst_iff as).mp h)
      have few := fits.resolve_right twice
      have first (h : Text) : HashFirst as h ↔ firstHash as = some h := by
        rw [hashFirst_iff, and_iff_left twice]
      rw [if_neg (by omega)]
      cases some : firstHash as with
      | none =>
        refine ⟨?_, ?_, ?_, ?_⟩ <;> simp [first, some, absent]
      | some h =>
        by_cases same : h = want
        · refine ⟨?_, ?_, ?_, ?_⟩ <;> simp [first, some, absent, compare, same]
        · refine ⟨?_, ?_, ?_, ?_⟩ <;> simp [first, some, absent, compare, same]

theorem judge_verdict (want : Text) (args : JudgeArgs) (probe : ℕ → Parsed)
    (counts : args.excluded = none) :
    (cmdJudge want args probe).verdict = (ruled want (answers args probe) 0).getD .invalid := by
  have loop := probeLoop_verdict want ((List.range args.probes.toNat).map fun i => probe (i + 1))
    ⟨none, none, none, 0, 0⟩ rfl
  simp only [cmdJudge, JudgeArgs.maxProbes, counts, Option.isSome_none, Bool.false_eq_true,
    if_false]
  rw [answers, ← loop]
  cases (probeLoop want _ _).verdict <;> rfl

/-- A verdict that is not excluded has no reason but the console. -/
theorem unexcluded_reason (want : Text) (args : JudgeArgs) (probe : ℕ → Parsed)
    (counts : args.excluded = none) : (cmdJudge want args probe).reason ≠ some [] := by
  simp only [cmdJudge, counts]
  cases (probeLoop want _ _).verdict with
  | none => simp
  | some v => simp

/-- The judge follows its rules unless `SD_NOFILE` comes twice before the first hash and never
twice in a row, or the reason for the exclusion is empty. -/
theorem judge_follows_iff (want : Text) (args : JudgeArgs) (probe : ℕ → Parsed) :
    Follows want args probe ↔
      (args.invalid = none ∧ ((beforeHash (answers args probe)).count .nofile ≤ 1 ∨
        TwiceAbsent (beforeHash (answers args probe)))) ∨
      ∃ r, r ≠ [] ∧ args.invalid = some r := by
  cases given : args.invalid with
  | none =>
    have counts : args.excluded = none := by rw [JudgeArgs.excluded, given]; rfl
    have rules := followsRules_iff want (answers args probe)
    rw [← judge_verdict want args probe counts] at rules
    simp only [true_and, reduceCtorEq, and_false, exists_false, or_false, ← rules]
    exact ⟨fun follows => follows.rules given, fun rules => ⟨fun _ => rules, by simp [given]⟩⟩
  | some r =>
    constructor
    · intro follows
      obtain ⟨-, reason⟩ := follows.excluded r given
      refine Or.inr ⟨r, fun empty => ?_, rfl⟩
      have counts : args.excluded = none := by
        rw [JudgeArgs.excluded, given, empty]
        rfl
      have other := unexcluded_reason want args probe counts
      rw [reason, empty] at other
      exact other rfl
    · rintro (⟨none, -⟩ | ⟨r', some, same⟩)
      · cases none
      · obtain rfl := Option.some.inj same
        have counts : args.excluded = Option.some r := by
          simp [JudgeArgs.excluded, given, some]
        refine ⟨by simp [given], fun r' given' => ?_⟩
        obtain rfl := Option.some.inj (given.symm.trans given')
        simp [cmdJudge, counts]

/-- Two absences with a garbled answer between them are not two in a row, and are recorded as
ABSENT. -/
theorem absent_without_a_row :
    (cmdJudge [] ⟨none, 3⟩ fun i => ⟨true, true, none, none, i ≠ 2⟩).verdict = .failAbsent ∧
      ¬ Follows [] ⟨none, 3⟩ fun i => ⟨true, true, none, none, i ≠ 2⟩ := by
  refine ⟨by decide, fun follows => ?_⟩
  obtain ⟨before, after, same, -⟩ := (follows.rules rfl).failAbsent.mp (by decide)
  have three : answers ⟨none, 3⟩ (fun i => ⟨true, true, none, none, i ≠ 2⟩) =
      [.nofile, .neither, .nofile] := by decide
  rw [three] at same
  have row : TwiceAbsent [.nofile, .neither, .nofile] := ⟨before, after, by simp [same]⟩
  revert row
  unfold TwiceAbsent
  decide

end CspLinksim.ExternalVerdict
