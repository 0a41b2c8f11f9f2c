import Mathlib.Data.UInt
import Mathlib.Algebra.Order.Group.Abs
import Mathlib.Algebra.Order.Ring.Int

/-!
# The direction split of `csp_link test` (`csp_link_apm.c`)

The far end's interface counters are read before and after a burst of probes, with up to
three tries each, and the loss is split by their differences. What becomes of each query,
probe and reply is an input; there is no other traffic. Round-trip times are left out.
-/

namespace CspLinksim.Link

/-- The counters of the interface at the far end. -/
structure FarEnd where
  tx : UInt32
  rx : UInt32
  deriving DecidableEq

/-- How far a packet and its reply get. -/
inductive Exchange where
  | lostOut
  | unanswered
  | lostBack
  | returned
  deriving DecidableEq

namespace Exchange

def arrives (e : Exchange) : Bool := e ≠ .lostOut

def replied (e : Exchange) : Bool := e = .lostBack ∨ e = .returned

/-- `rx` counts the packet when it comes in, `tx` the reply after it has gone out. -/
def count (e : Exchange) (f : FarEnd) : FarEnd :=
  ⟨if e.replied then f.tx + 1 else f.tx, if e.arrives then f.rx + 1 else f.rx⟩

end Exchange

structure LinkSnap where
  tx : UInt32
  rx : UInt32
  attempts : Nat
  ok : Bool
  deriving DecidableEq

def LinkSnap.none : LinkSnap := ⟨0, 0, 0, false⟩

/-- The loop of `link_snap`, try by try. A reply that comes back holds the query in `rx` and
not itself in `tx`. -/
def snapLoop (tries : Nat → Exchange) : Nat → FarEnd → LinkSnap → LinkSnap × FarEnd
  | 0, f, s => (s, f)
  | n + 1, f, s =>
    if s.ok then (s, f)
    else
      let e := tries s.attempts
      let s := { s with attempts := s.attempts + 1 }
      let s := if e = .returned then { s with tx := f.tx, rx := f.rx + 1, ok := true } else s
      snapLoop tries n (e.count f) s

def linkSnapTries : Nat := 3

def linkSnap (tries : Nat → Exchange) (f : FarEnd) : LinkSnap × FarEnd :=
  snapLoop tries linkSnapTries f .none

/-- What the probe loop has counted. -/
structure Tally where
  ok : Nat
  lost : Nat
  run : Nat
  worstRun : Nat
  deriving DecidableEq

def probeStep (s : Tally × FarEnd) (e : Exchange) : Tally × FarEnd :=
  let t := s.1
  let t :=
    if e = .returned then { t with ok := t.ok + 1, run := 0 }
    else { t with lost := t.lost + 1, run := t.run + 1, worstRun := max t.worstRun (t.run + 1) }
  (t, e.count s.2)

/-- The numbers behind the `direction` lines. -/
structure Split where
  arrived : Int
  replies : Int
  approx : Bool
  deriving DecidableEq

/-- The differences less the snapshot's own packets, and the four clamps in order. -/
def directionSplit (count ok : Nat) (before after : LinkSnap) : Split :=
  let arrived : Int := (after.rx - before.rx).toNat - after.attempts
  let replies : Int := (after.tx - before.tx).toNat - after.attempts
  let approx : Bool := after.attempts > 1 ∨ before.attempts > 1
  let (arrived, approx) := if arrived > count then ((count : Int), true) else (arrived, approx)
  let (arrived, approx) := if arrived < ok then ((ok : Int), true) else (arrived, approx)
  let (replies, approx) := if replies > arrived then (arrived, true) else (replies, approx)
  let (replies, approx) := if replies < ok then ((ok : Int), true) else (replies, approx)
  ⟨arrived, replies, approx⟩

inductive Verdict where
  | downlinkDead
  | uplinkDead
  | bothBad
  deriving DecidableEq

/-- The verdict on a burst of which no reply came back, from the difference as it is. -/
def blackout (count : Nat) (before after : LinkSnap) : Verdict :=
  let arrived : Int := (after.rx - before.rx).toNat - after.attempts
  if arrived ≥ count then .downlinkDead else if arrived ≤ 0 then .uplinkDead else .bothBad

/-- What is printed about the direction. -/
inductive Direction where
  | off
  | noBefore
  | unknown
  | split (s : Split)
  deriving DecidableEq

def linkMaxProbes : Nat := 1000

/-- The options, and what becomes of each exchange. -/
structure LinkTest where
  count : Nat
  node : Nat
  iface : Bool
  before : Nat → Exchange
  probes : Nat → Exchange
  after : Nat → Exchange

inductive Refusal where
  | countOutOfRange
  | nodeOutOfRange
  deriving DecidableEq

structure LinkReport where
  tally : Tally
  before : LinkSnap
  after : LinkSnap
  direction : Direction
  verdict : Option Verdict
  deriving DecidableEq

/-- The exchanges of the probe loop. -/
def LinkTest.burst (t : LinkTest) : List Exchange := (List.range t.count).map t.probes

def cspLinkTest (t : LinkTest) (f : FarEnd) : Except Refusal LinkReport :=
  if t.count = 0 ∨ t.count > linkMaxProbes then .error .countOutOfRange
  else if t.node > 65535 then .error .nodeOutOfRange
  else
    let opening := if t.iface then linkSnap t.before f else (.none, f)
    let before := opening.1
    let wantDir := t.iface && before.ok
    let burst := t.burst.foldl probeStep (⟨0, 0, 0, 0⟩, opening.2)
    let tally := burst.1
    let after := if wantDir then (linkSnap t.after burst.2).1 else .none
    let direction :=
      if wantDir && after.ok then .split (directionSplit t.count tally.ok before after)
      else if wantDir then .unknown
      else if t.iface then .noBefore
      else .off
    let verdict :=
      if tally.ok = 0 ∧ (wantDir && after.ok) then some (blackout t.count before after) else none
    .ok { tally, before, after, direction, verdict }

/-- The packets of some exchanges that arrive, and the replies to them that go out. -/
def arrivals (es : List Exchange) : Nat := es.countP Exchange.arrives
def answers (es : List Exchange) : Nat := es.countP Exchange.replied

theorem count_eq (e : Exchange) (f : FarEnd) :
    e.count f = ⟨f.tx + UInt32.ofNat (answers [e]), f.rx + UInt32.ofNat (arrivals [e])⟩ := by
  cases e <;> simp [Exchange.count, Exchange.replied, Exchange.arrives, answers, arrivals]

theorem add_counts (x : UInt32) (m n : Nat) :
    x + UInt32.ofNat m + UInt32.ofNat n = x + UInt32.ofNat (m + n) := by
  rw [UInt32.ofNat_add, UInt32.add_assoc]

/-- The burst, probe by probe: the counters of the far end and the returned replies. -/
theorem burst_counts (es : List Exchange) (t : Tally) (f : FarEnd) :
    (es.foldl probeStep (t, f)).2 =
      ⟨f.tx + UInt32.ofNat (answers es), f.rx + UInt32.ofNat (arrivals es)⟩ ∧
    (es.foldl probeStep (t, f)).1.ok = t.ok + es.count .returned := by
  induction es generalizing t f with
  | nil =>
    constructor
    · simp [answers, arrivals]
    · rfl
  | cons e es ih =>
    obtain ⟨counters, ok⟩ := ih (probeStep (t, f) e).1 (e.count f)
    have step : probeStep (t, f) e = ((probeStep (t, f) e).1, e.count f) := rfl
    rw [List.foldl_cons, step]
    constructor
    · rw [counters, count_eq]
      simp only [add_counts, answers, arrivals, ← List.countP_append, List.singleton_append]
    · rw [ok, List.count_cons]
      cases e
      all_goals
        simp [probeStep]
      omega

/-- The last try is the one that came back; of the `m` tries before it some queries
arrived and some replies went out. -/
structure Snapped (s : LinkSnap) (f f' : FarEnd) (m queries replies : Nat) : Prop where
  attempts : s.attempts = m + 1
  queries_le : queries ≤ m
  replies_le : replies ≤ m
  rx : s.rx = f.rx + UInt32.ofNat (queries + 1)
  tx : s.tx = f.tx + UInt32.ofNat replies
  far : f' = ⟨f.tx + UInt32.ofNat (replies + 1), f.rx + UInt32.ofNat (queries + 1)⟩

theorem snapLoop_ok (tries : Nat → Exchange) (n : Nat) {f f₀ : FarEnd} {s : LinkSnap}
    {queries replies : Nat} (fresh : s.ok = false) (queries_le : queries ≤ s.attempts)
    (replies_le : replies ≤ s.attempts)
    (far : f = ⟨f₀.tx + UInt32.ofNat replies, f₀.rx + UInt32.ofNat queries⟩)
    (ok : (snapLoop tries n f s).1.ok = true) :
    ∃ m queries' replies', Snapped (snapLoop tries n f s).1 f₀ (snapLoop tries n f s).2 m
      queries' replies' := by
  induction n generalizing f s queries replies with
  | zero =>
    rw [snapLoop, fresh] at ok
    cases ok
  | succ n ih =>
    obtain ⟨e, he⟩ : ∃ e, e = tries s.attempts := ⟨_, rfl⟩
    rw [snapLoop, fresh, if_neg Bool.false_ne_true, ← he] at ok ⊢
    by_cases back : e = .returned
    · have done : ∀ k (f : FarEnd) (s : LinkSnap), s.ok = true → snapLoop tries k f s = (s, f) := by
        intro k f s hs
        cases k with
        | zero => rfl
        | succ k => rw [snapLoop, if_pos hs]
      simp only [if_pos back, done]
      refine ⟨s.attempts, queries, replies, rfl, queries_le, replies_le, ?_, ?_, ?_⟩
      · simp only [far]
        exact add_counts _ _ 1
      · simp only [far]
      · rw [back, far]
        simp only [Exchange.count, Exchange.replied, Exchange.arrives]
        exact congrArg₂ FarEnd.mk (add_counts _ _ 1) (add_counts _ _ 1)
    · simp only [if_neg back] at ok ⊢
      have one : ∀ p : Exchange → Bool, [e].countP p ≤ 1 := by
        intro p
        exact List.countP_le_length
      have next : e.count f = ⟨f₀.tx + UInt32.ofNat (replies + answers [e]),
          f₀.rx + UInt32.ofNat (queries + arrivals [e])⟩ := by
        rw [count_eq, far]
        simp only [add_counts]
      exact ih rfl (Nat.add_le_add queries_le (one _)) (Nat.add_le_add replies_le (one _)) next ok

theorem linkSnap_ok {tries : Nat → Exchange} {f : FarEnd} (ok : (linkSnap tries f).1.ok = true) :
    ∃ m queries replies, Snapped (linkSnap tries f).1 f (linkSnap tries f).2 m queries replies :=
  snapLoop_ok tries linkSnapTries rfl (Nat.zero_le 0) (Nat.zero_le 0) (by simp) ok

/-- A burst of `count` probes of which `A` arrived, `R` were answered and `ok` came back,
and the differences of two snapshots, the second at try `m + 1`. -/
structure Measured (count ok A R m queries replies : Nat) (before after : LinkSnap) : Prop where
  returned : ok ≤ R
  answered : R ≤ A
  arrived : A ≤ count
  attempts : after.attempts = m + 1
  queries_le : queries ≤ m
  replies_le : replies ≤ m
  rx : (after.rx - before.rx).toNat = A + (queries + 1)
  tx : (after.tx - before.tx).toNat = 1 + R + replies

section

variable {count ok A R m queries replies : Nat} {before after : LinkSnap}
  (h : Measured count ok A R m queries replies before after)
include h

/-- The clamps move a number that is too low by at most `m` no further from the truth. -/
theorem split_bounds :
    (ok : Int) ≤ (directionSplit count ok before after).replies ∧
    (directionSplit count ok before after).replies ≤
      (directionSplit count ok before after).arrived ∧
    (directionSplit count ok before after).arrived ≤ count ∧
    |(directionSplit count ok before after).arrived - A| ≤ m ∧
    |(directionSplit count ok before after).replies - R| ≤ m := by
  obtain ⟨returned, answered, arrived, attempts, queries_le, replies_le, rx, tx⟩ := h
  rw [abs_le, abs_le]
  simp only [directionSplit, rx, tx, attempts]
  have first : ¬ ((A + (queries + 1) : Nat) : Int) - ((m + 1 : Nat) : Int) > count := by omega
  rw [if_neg first]
  by_cases low : ((A + (queries + 1) : Nat) : Int) - ((m + 1 : Nat) : Int) < ok
  · simp only [if_pos low]
    by_cases many : ((1 + R + replies : Nat) : Int) - ((m + 1 : Nat) : Int) > ok
    · simp only [if_pos many, if_neg (Int.lt_irrefl _)]
      omega
    · simp only [if_neg many]
      split <;> omega
  · simp only [if_neg low]
    by_cases many : ((1 + R + replies : Nat) : Int) - ((m + 1 : Nat) : Int) >
        ((A + (queries + 1) : Nat) : Int) - ((m + 1 : Nat) : Int)
    · simp only [if_pos many, if_neg low]
      omega
    · simp only [if_neg many]
      split <;> omega

/-- Without a retry no clamp applies. -/
theorem split_exact (firstBefore : before.attempts = 1) (firstAfter : after.attempts = 1) :
    directionSplit count ok before after = ⟨A, R, false⟩ := by
  obtain ⟨returned, answered, arrived, attempts, queries_le, replies_le, rx, tx⟩ := h
  have arrivedEq : ((A + (queries + 1) : Nat) : Int) - ((1 : Nat) : Int) = A := by omega
  have repliesEq : ((1 + R + replies : Nat) : Int) - ((1 : Nat) : Int) = R := by omega
  simp only [directionSplit, rx, tx, firstBefore, firstAfter, arrivedEq, repliesEq]
  simp only [if_neg (show ¬ (A : Int) > count by omega),
    if_neg (show ¬ (A : Int) < ok by omega), if_neg (show ¬ (R : Int) > A by omega),
    if_neg (show ¬ (R : Int) < ok by omega)]
  rfl

end

/-- Two counters with this difference, whatever they started from. -/
theorem toNat_add_sub (x : UInt32) {n : Nat} (small : n < 4294967296) :
    (x + UInt32.ofNat n - x).toNat = n := by
  have hx : x + UInt32.ofNat n - x = UInt32.ofNat n := by
    grind
  rw [hx, UInt32.toNat_ofNat']
  omega

theorem count_returned_le (es : List Exchange) : es.count .returned ≤ answers es := by
  apply List.countP_mono_left
  intro e _ he
  rw [eq_of_beq he]
  rfl

theorem answers_le (es : List Exchange) : answers es ≤ arrivals es := by
  apply List.countP_mono_left
  intro e _ he
  cases e <;> first | rfl | cases he

/-- With the interface named and two good snapshots the loss is split, and only then. -/
theorem split_reported {t : LinkTest} {f : FarEnd} {r : LinkReport}
    (done : cspLinkTest t f = .ok r) :
    (∃ s, r.direction = .split s) ↔
      t.iface = true ∧ r.before.ok = true ∧ r.after.ok = true := by
  by_cases range : t.count = 0 ∨ t.count > linkMaxProbes
  · rw [cspLinkTest, if_pos range] at done
    cases done
  by_cases address : t.node > 65535
  · rw [cspLinkTest, if_neg range, if_pos address] at done
    cases done
  rw [cspLinkTest, if_neg range, if_neg address] at done
  have hr := Except.ok.inj done
  rw [← hr]
  cases iface : t.iface with
  | false => simp
  | true =>
    cases beforeOk : (linkSnap t.before f).1.ok with
    | false => simp [beforeOk]
    | true =>
      cases afterOk : (linkSnap t.after
          (t.burst.foldl probeStep (⟨0, 0, 0, 0⟩, (linkSnap t.before f).2)).2).1.ok with
      | false => simp [beforeOk, afterOk]
      | true => simp [beforeOk, afterOk]

/-- A test that splits the loss has two good snapshots around its burst. -/
theorem test_split {t : LinkTest} {f : FarEnd} {r : LinkReport} {s : Split}
    (done : cspLinkTest t f = .ok r) (splits : r.direction = .split s) :
    t.count ≤ linkMaxProbes ∧ ∃ b p a : FarEnd,
      linkSnap t.before f = (r.before, b) ∧ r.before.ok = true ∧
      t.burst.foldl probeStep (⟨0, 0, 0, 0⟩, b) = (r.tally, p) ∧
      linkSnap t.after p = (r.after, a) ∧ r.after.ok = true ∧
      s = directionSplit t.count r.tally.ok r.before r.after := by
  by_cases range : t.count = 0 ∨ t.count > linkMaxProbes
  · rw [cspLinkTest, if_pos range] at done
    cases done
  by_cases address : t.node > 65535
  · rw [cspLinkTest, if_neg range, if_pos address] at done
    cases done
  rw [cspLinkTest, if_neg range, if_neg address] at done
  have hr := Except.ok.inj done
  cases iface : t.iface with
  | false =>
    simp only [iface, Bool.false_and, Bool.false_eq_true, if_false] at hr
    rw [← hr] at splits
    cases splits
  | true =>
    cases beforeOk : (linkSnap t.before f).1.ok with
    | false =>
      simp only [iface, beforeOk, if_true, Bool.true_and, Bool.false_and, Bool.false_eq_true,
        if_false] at hr
      rw [← hr] at splits
      cases splits
    | true =>
      simp only [iface, beforeOk, if_true, Bool.true_and] at hr
      rw [← hr] at splits ⊢
      simp only at splits ⊢
      split at splits
      · rename_i afterOk
        refine ⟨by omega, _, _, _, rfl, beforeOk, rfl, rfl, afterOk, ?_⟩
        exact (Direction.split.inj splits).symm
      · cases splits

theorem snapLoop_attempts (tries : Nat → Exchange) (n : Nat) (f : FarEnd) (s : LinkSnap) :
    (snapLoop tries n f s).1.attempts ≤ s.attempts + n := by
  induction n generalizing f s with
  | zero => exact Nat.le_refl _
  | succ n ih =>
    rw [snapLoop]
    split
    · exact Nat.le_add_right _ _
    · by_cases back : tries s.attempts = .returned
      · simp only [if_pos back]
        exact Nat.le_trans (ih _ _) (by simp only; omega)
      · simp only [if_neg back]
        exact Nat.le_trans (ih _ _) (by simp only; omega)

/-- What it has measured. -/
theorem test_measured {t : LinkTest} {f : FarEnd} {r : LinkReport} {s : Split}
    (done : cspLinkTest t f = .ok r) (splits : r.direction = .split s) :
    r.tally.ok = t.burst.count .returned ∧
    s = directionSplit t.count r.tally.ok r.before r.after ∧
    ∃ m queries replies, Measured t.count r.tally.ok (arrivals t.burst) (answers t.burst) m
      queries replies r.before r.after := by
  obtain ⟨small, b, p, a, before, beforeOk, burst, after, afterOk, split⟩ := test_split done splits
  obtain ⟨counters, ok⟩ := burst_counts t.burst ⟨0, 0, 0, 0⟩ b
  have hok : r.tally.ok = t.burst.count .returned := by simpa [burst] using ok
  have far : p = ⟨b.tx + UInt32.ofNat (answers t.burst), b.rx + UInt32.ofNat (arrivals t.burst)⟩ :=
      by
    simpa only [burst] using counters
  obtain ⟨m₀, q₀, s₀, opened⟩ :=
    linkSnap_ok (show (linkSnap t.before f).1.ok = true by rwa [before])
  obtain ⟨m, q, s', closed⟩ := linkSnap_ok (show (linkSnap t.after p).1.ok = true by rwa [after])
  have first : Snapped r.before f b m₀ q₀ s₀ := by simpa only [before] using opened
  have second : Snapped r.after p a m q s' := by simpa only [after] using closed
  have tries : r.after.attempts ≤ LinkSnap.none.attempts + linkSnapTries := by
    have bound := snapLoop_attempts t.after linkSnapTries p .none
    rwa [← linkSnap, after] at bound
  have attempts := second.attempts
  have queries_le := second.queries_le
  have replies_le := second.replies_le
  have length : t.burst.length = t.count := by simp [LinkTest.burst]
  have arrived : arrivals t.burst ≤ t.count := length ▸ List.countP_le_length
  have answered := answers_le t.burst
  have limit : linkMaxProbes = 1000 := rfl
  have three : LinkSnap.none.attempts + linkSnapTries = 3 := rfl
  have queried : b.rx = r.before.rx := by
    rw [first.rx, first.far]
  have replied : b.tx = r.before.tx + UInt32.ofNat 1 := by
    rw [first.tx, first.far, add_counts]
  refine ⟨hok, split, m, q, s', ?_, answered, arrived, attempts, queries_le, replies_le, ?_, ?_⟩
  · exact hok ▸ count_returned_le t.burst
  · have few : arrivals t.burst + (q + 1) < 4294967296 := by omega
    rw [second.rx, far, queried, add_counts]
    exact toNat_add_sub _ few
  · have few : 1 + answers t.burst + s' < 4294967296 := by omega
    rw [second.tx, far, replied, add_counts, add_counts, ← Nat.add_assoc]
    exact toNat_add_sub _ few

/-- Whatever is lost, a test whose snapshots succeed reports a split, within the retries of
the closing one, and exact without retries. -/
theorem link_split_right {t : LinkTest} {f : FarEnd} {r : LinkReport}
    (done : cspLinkTest t f = .ok r) :
    ((∃ s, r.direction = .split s) ↔
      t.iface = true ∧ r.before.ok = true ∧ r.after.ok = true) ∧
    ∀ s, r.direction = .split s →
      r.tally.ok = t.burst.count .returned ∧
      (r.tally.ok : Int) ≤ s.replies ∧ s.replies ≤ s.arrived ∧ s.arrived ≤ t.count ∧
      |s.arrived - arrivals t.burst| ≤ r.after.attempts - 1 ∧
      |s.replies - answers t.burst| ≤ r.after.attempts - 1 ∧
      (r.before.attempts = 1 → r.after.attempts = 1 →
        s = ⟨arrivals t.burst, answers t.burst, false⟩) := by
  refine ⟨split_reported done, ?_⟩
  intro s splits
  obtain ⟨ok, split, m, q, s', measured⟩ := test_measured done splits
  obtain ⟨h1, h2, h3, h4, h5⟩ := split_bounds measured
  have attempts := measured.attempts
  have tries : (r.after.attempts : Int) - 1 = m := by omega
  rw [split, tries]
  exact ⟨ok, h1, h2, h3, h4, h5, split_exact measured⟩

/-- Three probes, one lost each way, and a closing query that is asked again. -/
def sampleTest : LinkTest where
  count := 3
  node := 5425
  iface := true
  before := fun _ => .returned
  probes := fun i => if i = 0 then .lostOut else if i = 1 then .lostBack else .returned
  after := fun i => if i = 0 then .lostOut else .returned

theorem link_split_right_sample : ∃ r, cspLinkTest sampleTest ⟨4294967295, 7⟩ = .ok r ∧
    ∃ s, r.direction = .split s ∧
      |s.arrived - arrivals sampleTest.burst| ≤ r.after.attempts - 1 := by
  have done : cspLinkTest sampleTest ⟨4294967295, 7⟩ = .ok
      ⟨⟨1, 2, 0, 2⟩, ⟨4294967295, 8, 1, true⟩, ⟨2, 11, 2, true⟩, .split ⟨1, 1, true⟩, none⟩ := by
    decide
  obtain ⟨reported, bounds⟩ := link_split_right done
  obtain ⟨s, splits⟩ := reported.mpr ⟨rfl, rfl, rfl⟩
  exact ⟨_, done, s, splits, (bounds s splits).2.2.2.2.1⟩

end CspLinksim.Link
