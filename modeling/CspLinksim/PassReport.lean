import Mathlib.Data.UInt
import Mathlib.Algebra.BigOperators.Intervals
import Mathlib.Algebra.Order.BigOperators.Group.List
import Mathlib.Data.Rat.Defs
import Mathlib.Tactic.Ring

/-!
# The report of `pass-logger`

The awk program differences the cumulative counters of each key from one answered sample to
the next, and the direction section joins the intervals of the two ends on the time at which
they end. A capture is a pattern of answered samples; the traffic between the samples is
arbitrary. Error and drop columns and the count of missed samples are left out.
-/

namespace CspLinksim.PassLog

variable {κ : Type} [DecidableEq κ]

/-- One row of the CSV; no sample if its status is not `ok`. -/
structure Line (κ : Type) where
  tHost : Int
  key : κ
  sample : Option (UInt32 × UInt32)

/-- `pt`, `ptx` and `prx` of a key. -/
structure Prev where
  t : Int
  tx : UInt32
  rx : UInt32
  deriving DecidableEq

structure Report (κ : Type) where
  prev : κ → Option Prev
  ttx : κ → Option (Int × Int)
  series : κ → Int → Option (Int × Int)
  seen : List Int

def Report.start : Report κ := ⟨fun _ => none, fun _ => none, fun _ _ => none, []⟩

def delta (a b : UInt32) : Int :=
  let d : Int := b.toNat - a.toNat
  if d < 0 then d + 4294967296 else d

/-- The totals of a key and its series gain the interval from `p` to the row. -/
def Report.record (s : Report κ) (k : κ) (t : Int) (dtx drx : Int) : Report κ :=
  { s with
    ttx := Function.update s.ttx k
      (some (((s.ttx k).getD (0, 0)).1 + dtx, ((s.ttx k).getD (0, 0)).2 + drx))
    series := Function.update s.series k (Function.update (s.series k) t (some (dtx, drx)))
    seen := if t ∈ s.seen then s.seen else s.seen ++ [t] }

def Report.keep (s : Report κ) (k : κ) (p : Prev) : Report κ :=
  { s with prev := Function.update s.prev k (some p) }

/-- One row. A row that is not later than the last one of its key is skipped. -/
def Report.row (s : Report κ) (l : Line κ) : Report κ :=
  match l.sample with
  | none => s
  | some (tx, rx) =>
    match s.prev l.key with
    | none => s.keep l.key ⟨l.tHost, tx, rx⟩
    | some p =>
      if l.tHost - p.t ≤ 0 then s
      else (s.record l.key l.tHost (delta p.tx tx) (delta p.rx rx)).keep l.key ⟨l.tHost, tx, rx⟩

/-- The four sums of the direction section. -/
structure Direction where
  upOff : Int
  upDel : Int
  dnOff : Int
  dnDel : Int
  deriving DecidableEq

/-- The series of both ends at the times at which both have one. -/
def Report.aligned (s : Report κ) (ks kg : κ) : List ((Int × Int) × (Int × Int)) :=
  s.seen.filterMap fun t =>
    match s.series ks t, s.series kg t with
    | some sat, some gnd => some (sat, gnd)
    | _, _ => none

/-- Nothing is reported if one of the ends has no interval. -/
def Report.direction (s : Report κ) (ks kg : κ) : Option Direction :=
  if (s.ttx ks).isSome ∧ (s.ttx kg).isSome then
    some ⟨((s.aligned ks kg).map fun x => x.2.1).sum, ((s.aligned ks kg).map fun x => x.1.2).sum,
      ((s.aligned ks kg).map fun x => x.1.1).sum, ((s.aligned ks kg).map fun x => x.2.2).sum⟩
  else none

/-- The loss in percent. -/
def loss (off del : Int) : ℚ := if off = 0 then 0 else 100 * (1 - del / off)

inductive End where
  | sat
  | gnd
  deriving DecidableEq

/-- The rounds of `record`: the stamp of a round, and which end answered in it. -/
structure Capture where
  rounds : Nat
  start : Int
  gap : Nat → Nat
  ok : End → Nat → Bool

/-- A round is stamped at least one second after the one before it. -/
def Capture.time (c : Capture) : Nat → Int
  | 0 => c.start
  | i + 1 => c.time i + c.gap i + 1

/-- The counters at the first round, and how many packets each end sends and receives between
a round and the next. -/
structure History where
  tx₀ : End → UInt32
  rx₀ : End → UInt32
  sent : End → Nat → Nat
  received : End → Nat → Nat

def History.tx (h : History) (k : End) (i : Nat) : UInt32 :=
  h.tx₀ k + UInt32.ofNat (∑ j ∈ Finset.range i, h.sent k j)

def History.rx (h : History) (k : End) (i : Nat) : UInt32 :=
  h.rx₀ k + UInt32.ofNat (∑ j ∈ Finset.range i, h.received k j)

/-- Everything that one end sends between two rounds is received by the other. -/
def History.Lossless (h : History) : Prop :=
  ∀ i, h.received .sat i = h.sent .gnd i ∧ h.received .gnd i = h.sent .sat i

/-- The row of an end in a round. -/
def Capture.line (c : Capture) (h : History) (i : Nat) (k : End) : Line End :=
  ⟨c.time i, k, if c.ok k i then some (h.tx k i, h.rx k i) else none⟩

def Capture.lines (c : Capture) (h : History) : Nat → List (Line End)
  | 0 => []
  | i + 1 => c.lines h i ++ [c.line h i .sat, c.line h i .gnd]

/-- The state of the program behind the last row. -/
def Capture.report (c : Capture) (h : History) : Report End :=
  (c.lines h c.rounds).foldl Report.row .start

/-- The last answered round before `n`. -/
def lastOk (ok : Nat → Bool) : Nat → Option Nat
  | 0 => none
  | n + 1 => if ok n then some n else lastOk ok n

/-- Where the interval of an end that ends at round `i` starts. -/
def Capture.span (c : Capture) (k : End) (i : Nat) : Option Nat :=
  if c.ok k i then lastOk (c.ok k) i else none

/-- What a uint32 counter shows of the packets between two rounds. -/
def counted (f : Nat → Nat) (a b : Nat) : Int := ((∑ j ∈ Finset.Ico a b, f j) % 2 ^ 32 : Nat)

theorem lastOk_spec {ok : Nat → Bool} {n a : Nat} (h : lastOk ok n = some a) :
    a < n ∧ ok a = true ∧ ∀ j, a < j → j < n → ok j = false := by
  induction n with
  | zero => cases h
  | succ n ih =>
    rw [lastOk] at h
    split at h
    · rename_i answered
      cases h
      exact ⟨by omega, answered, fun j hj hn => by omega⟩
    · rename_i missed
      obtain ⟨lt, answered, between⟩ := ih h
      refine ⟨by omega, answered, fun j hj hn => ?_⟩
      rcases Nat.lt_succ_iff_lt_or_eq.mp hn with hn | rfl
      · exact between j hj hn
      · simpa using missed

theorem span_spec {c : Capture} {k : End} {i a : Nat} (h : c.span k i = some a) :
    c.ok k i = true ∧ a < i ∧ c.ok k a = true ∧ ∀ j, a < j → j < i → c.ok k j = false := by
  rw [Capture.span] at h
  split at h
  · rename_i answered
    exact ⟨answered, lastOk_spec h⟩
  · cases h

/-- Two intervals of one end do not overlap. -/
theorem span_apart {c : Capture} {k : End} {i j a b : Nat} (hi : c.span k i = some a)
    (hj : c.span k j = some b) (lt : i < j) : i ≤ b := by
  obtain ⟨answered, -⟩ := span_spec hi
  obtain ⟨-, -, -, between⟩ := span_spec hj
  by_contra h
  have missed := between i (by omega) lt
  rw [answered] at missed
  cases missed

/-- Later rounds have later stamps. -/
theorem time_lt (c : Capture) {i j : Nat} (lt : i < j) : c.time i < c.time j := by
  induction j with
  | zero => exact absurd lt (Nat.not_lt_zero i)
  | succ j ih =>
    rw [Capture.time]
    rcases Nat.lt_succ_iff_lt_or_eq.mp lt with before | rfl
    · have := ih before
      omega
    · omega

/-- The wrap of the program is the wrap of the counter. -/
theorem delta_eq (base : UInt32) {m n : Nat} (le : m ≤ n) :
    delta (base + UInt32.ofNat m) (base + UInt32.ofNat n) = ((n - m) % 2 ^ 32 : Nat) := by
  simp only [delta, UInt32.toNat_add, UInt32.toNat_ofNat']
  split <;> omega

theorem delta_counted (base : UInt32) (f : Nat → Nat) {a b : Nat} (le : a ≤ b) :
    delta (base + UInt32.ofNat (∑ j ∈ Finset.range a, f j))
      (base + UInt32.ofNat (∑ j ∈ Finset.range b, f j)) = counted f a b := by
  have sum := Finset.sum_range_add_sum_Ico f le
  rw [delta_eq base (by omega), counted]
  congr 2
  omega

theorem counted_nonneg (f : Nat → Nat) (a b : Nat) : 0 ≤ counted f a b := Int.natCast_nonneg _

section row

variable {s : Report κ} {k : κ} {l : Line κ}

/-- A row bears on its own key only. -/
theorem row_other (ne : k ≠ l.key) :
    (s.row l).prev k = s.prev k ∧ (s.row l).series k = s.series k ∧ (s.row l).ttx k = s.ttx k := by
  rw [Report.row]
  rcases l.sample with - | ⟨tx, rx⟩
  · exact ⟨rfl, rfl, rfl⟩
  · rcases s.prev l.key with - | p
    · exact ⟨Function.update_of_ne ne .., rfl, rfl⟩
    · dsimp only
      split
      · exact ⟨rfl, rfl, rfl⟩
      · exact ⟨Function.update_of_ne ne .., Function.update_of_ne ne ..,
          Function.update_of_ne ne ..⟩

end row

/-- What the program has of an end after `n` rounds. -/
structure Follows (c : Capture) (h : History) (k : End) (n : Nat) (s : Report End) : Prop where
  prev : s.prev k = (lastOk (c.ok k) n).map fun a => ⟨c.time a, h.tx k a, h.rx k a⟩
  series : ∀ i < n, s.series k (c.time i) =
    (c.span k i).map fun a => (counted (h.sent k) a i, counted (h.received k) a i)
  later : ∀ i, n ≤ i → s.series k (c.time i) = none
  ttx : (s.ttx k).isSome ↔ ∃ i < n, (c.span k i).isSome

variable {c : Capture} {h : History} {k : End} {n : Nat} {s : Report End}

theorem follows_start (k : End) : Follows c h k 0 .start :=
  ⟨rfl, by omega, fun _ _ => rfl, by simp [Report.start]⟩

theorem follows_other {i : Nat} {k' : End} (f : Follows c h k n s) (ne : k ≠ k') :
    Follows c h k n (s.row (c.line h i k')) := by
  obtain ⟨prev, series, ttx⟩ := row_other (s := s) (l := c.line h i k') ne
  constructor
  · rw [prev, f.prev]
  · intro j hj
    rw [series, f.series j hj]
  · intro j hj
    rw [series, f.later j hj]
  · rw [ttx, f.ttx]

theorem ttx_succ : (∃ i < n + 1, (c.span k i).isSome) ↔
    (c.span k n).isSome ∨ ∃ i < n, (c.span k i).isSome := by
  constructor
  · rintro ⟨i, lt, some⟩
    rcases Nat.lt_succ_iff_lt_or_eq.mp lt with lt | rfl
    · exact Or.inr ⟨i, lt, some⟩
    · exact Or.inl some
  · rintro (some | ⟨i, lt, some⟩)
    · exact ⟨n, n.lt_succ_self, some⟩
    · exact ⟨i, by omega, some⟩

/-- An own row without an interval behind it. -/
theorem own_row_none (f : Follows c h k n s) (none : c.span k n = none) :
    s.row (c.line h n k) = s ∧ c.ok k n = false ∨
      s.row (c.line h n k) = s.keep k ⟨c.time n, h.tx k n, h.rx k n⟩ ∧ c.ok k n = true := by
  cases answered : c.ok k n with
  | false =>
    refine Or.inl ⟨?_, rfl⟩
    simp [Report.row, Capture.line, answered]
  | true =>
    have first : lastOk (c.ok k) n = Option.none := by simpa [Capture.span, answered] using none
    refine Or.inr ⟨?_, rfl⟩
    simp [Report.row, Capture.line, answered, f.prev, first]

/-- An own row that ends an interval. -/
theorem own_row_some {a : Nat} (f : Follows c h k n s) (span : c.span k n = some a) :
    s.row (c.line h n k) =
      (s.record k (c.time n) (counted (h.sent k) a n) (counted (h.received k) a n)).keep k
        ⟨c.time n, h.tx k n, h.rx k n⟩ := by
  obtain ⟨answered, lt, -⟩ := span_spec span
  have last : lastOk (c.ok k) n = some a := by simpa [Capture.span, answered] using span
  have later : ¬ c.time n - c.time a ≤ 0 := by
    have := time_lt c lt
    omega
  rw [← delta_counted (h.tx₀ k) (h.sent k) lt.le, ← delta_counted (h.rx₀ k) (h.received k) lt.le]
  simp only [Report.row, Capture.line, answered, f.prev, last, if_true, Option.map_some, later,
    if_false]
  rfl

theorem follows_own (f : Follows c h k n s) : Follows c h k (n + 1) (s.row (c.line h n k)) := by
  cases span : c.span k n with
  | none =>
    have old : ∀ i < n + 1, s.series k (c.time i) =
        (c.span k i).map fun a => (counted (h.sent k) a i, counted (h.received k) a i) := by
      intro i hi
      rcases Nat.lt_succ_iff_lt_or_eq.mp hi with hi | rfl
      · exact f.series i hi
      · rw [f.later i le_rfl, span]
        rfl
    have ttx : (s.ttx k).isSome ↔ ∃ i < n + 1, (c.span k i).isSome := by
      rw [f.ttx, ttx_succ, span]
      simp
    rcases own_row_none f span with ⟨same, missed⟩ | ⟨same, answered⟩
    · rw [same]
      refine ⟨?_, old, fun i hi => f.later i (by omega), ttx⟩
      rw [f.prev, lastOk, missed]
      rfl
    · rw [same]
      refine ⟨?_, old, fun i hi => f.later i (by omega), ttx⟩
      rw [lastOk, answered]
      exact Function.update_self ..
  | some a =>
    obtain ⟨answered, -⟩ := span_spec span
    have series : ((s.record k (c.time n) (counted (h.sent k) a n)
        (counted (h.received k) a n)).keep k ⟨c.time n, h.tx k n, h.rx k n⟩).series k =
        Function.update (s.series k) (c.time n)
          (some (counted (h.sent k) a n, counted (h.received k) a n)) := Function.update_self ..
    rw [own_row_some f span]
    constructor
    · rw [lastOk, answered]
      exact Function.update_self ..
    · intro i hi
      rw [series]
      rcases Nat.lt_succ_iff_lt_or_eq.mp hi with hi | rfl
      · rw [Function.update_of_ne (Int.ne_of_lt (time_lt c hi)), f.series i hi]
      · rw [Function.update_self, span]
        rfl
    · intro i hi
      rw [series, Function.update_of_ne (Int.ne_of_gt (time_lt c hi)), f.later i (by omega)]
    · rw [ttx_succ, span]
      simp [Report.keep, Report.record]

/-- An own row adds its time once. -/
theorem own_seen (f : Follows c h k n s) : (s.row (c.line h n k)).seen =
    if (c.span k n).isSome ∧ c.time n ∉ s.seen then s.seen ++ [c.time n] else s.seen := by
  cases span : c.span k n with
  | none =>
    rcases own_row_none f span with ⟨same, -⟩ | ⟨same, -⟩
    · rw [same]
      rfl
    · rw [same]
      rfl
  | some a =>
    rw [own_row_some f span]
    by_cases old : c.time n ∈ s.seen
    · simp [Report.keep, Report.record, old]
    · simp [Report.keep, Report.record, old]

/-- Whether an interval of either end ends at a round. -/
def Capture.closes (c : Capture) (i : Nat) : Bool :=
  (c.span .sat i).isSome || (c.span .gnd i).isSome

/-- The state after `n` rounds. -/
structure Joins (c : Capture) (h : History) (n : Nat) (s : Report End) : Prop where
  sat : Follows c h .sat n s
  gnd : Follows c h .gnd n s
  seen : s.seen = ((List.range n).filter c.closes).map c.time

theorem joins_round (j : Joins c h n s) :
    Joins c h (n + 1) ((s.row (c.line h n .sat)).row (c.line h n .gnd)) := by
  have sat := follows_own j.sat
  have gnd : Follows c h .gnd n (s.row (c.line h n .sat)) := follows_other j.gnd (by decide)
  refine ⟨follows_other sat (by decide), follows_own gnd, ?_⟩
  have new : c.time n ∉ ((List.range n).filter c.closes).map c.time := by
    intro mem
    obtain ⟨i, hi, same⟩ := List.mem_map.mp mem
    have lt := List.mem_range.mp (List.mem_filter.mp hi).1
    exact absurd same (Int.ne_of_lt (time_lt c lt))
  rw [own_seen gnd, own_seen j.sat, j.seen, List.range_succ, List.filter_append, List.map_append]
  cases closesSat : (c.span .sat n).isSome <;> cases closesGnd : (c.span .gnd n).isSome <;>
    simp [Capture.closes, closesSat, closesGnd, new]

theorem joins_lines (c : Capture) (h : History) (n : Nat) :
    Joins c h n ((c.lines h n).foldl Report.row .start) := by
  induction n with
  | zero => exact ⟨follows_start .sat, follows_start .gnd, rfl⟩
  | succ n ih =>
    rw [Capture.lines, List.foldl_append]
    exact joins_round ih

/-- The start of the interval of either end, and the round at which both end. -/
structure Joined where
  sat : Nat
  gnd : Nat
  stop : Nat

def Capture.joinedAt (c : Capture) (i : Nat) : Option Joined :=
  match c.span .sat i, c.span .gnd i with
  | some a, some b => some ⟨a, b, i⟩
  | _, _ => none

def Capture.joined (c : Capture) : List Joined := (List.range c.rounds).filterMap c.joinedAt

theorem joinedAt_some {c : Capture} {i : Nat} {x : Joined} :
    c.joinedAt i = some x ↔
      c.span .sat i = some x.sat ∧ c.span .gnd i = some x.gnd ∧ x.stop = i := by
  rcases x with ⟨a, b, stop⟩
  rw [Capture.joinedAt]
  cases c.span .sat i <;> cases c.span .gnd i <;> simp [eq_comm]

theorem mem_joined {c : Capture} {x : Joined} : x ∈ c.joined ↔
    x.stop < c.rounds ∧ c.span .sat x.stop = some x.sat ∧ c.span .gnd x.stop = some x.gnd := by
  rw [Capture.joined, List.mem_filterMap]
  constructor
  · rintro ⟨i, mem, found⟩
    obtain ⟨sat, gnd, rfl⟩ := joinedAt_some.mp found
    exact ⟨List.mem_range.mp mem, sat, gnd⟩
  · rintro ⟨lt, sat, gnd⟩
    exact ⟨x.stop, List.mem_range.mpr lt, joinedAt_some.mpr ⟨sat, gnd, rfl⟩⟩

/-- What the program joins of a history. -/
theorem aligned_eq (c : Capture) (h : History) : (c.report h).aligned .sat .gnd =
    c.joined.map fun x =>
      ((counted (h.sent .sat) x.sat x.stop, counted (h.received .sat) x.sat x.stop),
        (counted (h.sent .gnd) x.gnd x.stop, counted (h.received .gnd) x.gnd x.stop)) := by
  have j := joins_lines c h c.rounds
  rw [Report.aligned, Capture.report, j.seen, List.filterMap_map, List.filterMap_filter,
    Capture.joined, List.map_filterMap]
  refine List.filterMap_congr fun i mem => ?_
  have lt := List.mem_range.mp mem
  simp only [Function.comp_apply, j.sat.series i lt, j.gnd.series i lt, Capture.closes,
    Capture.joinedAt]
  cases c.span .sat i <;> cases c.span .gnd i <;> rfl

/-- The four sums are over the intervals `spans`. -/
structure Compares (h : History) (spans : List (Nat × Nat)) (d : Direction) : Prop where
  upOff : d.upOff = (spans.map fun x => counted (h.sent .gnd) x.1 x.2).sum
  upDel : d.upDel = (spans.map fun x => counted (h.received .sat) x.1 x.2).sum
  dnOff : d.dnOff = (spans.map fun x => counted (h.sent .sat) x.1 x.2).sum
  dnDel : d.dnDel = (spans.map fun x => counted (h.received .gnd) x.1 x.2).sum

/-- Nothing is reported as lost. -/
def Direction.Clean (d : Direction) : Prop :=
  d.upOff = d.upDel ∧ d.dnOff = d.dnDel ∧ loss d.upOff d.upDel = 0 ∧ loss d.dnOff d.dnDel = 0

/-- The ends are compared over one set of intervals, which do not overlap, whatever the
traffic is, and a lossless link is reported as one. -/
def Capture.Faithful (c : Capture) : Prop :=
  ∃ spans : List (Nat × Nat), spans.Pairwise (fun x y => x.2 ≤ y.1) ∧
    ∀ h d, (c.report h).direction .sat .gnd = some d →
      Compares h spans d ∧ (h.Lossless → d.Clean)

/-- Whenever both ends answer in a round and both have answered before, the last round in
which they answered is the same. -/
def Capture.SameStart (c : Capture) : Prop :=
  ∀ i < c.rounds, ∀ a b, c.span .sat i = some a → c.span .gnd i = some b → a = b

theorem direction_some {d : Direction}
    (reported : (c.report h).direction .sat .gnd = some d) :
    d.upOff = (c.joined.map fun x => counted (h.sent .gnd) x.gnd x.stop).sum ∧
    d.upDel = (c.joined.map fun x => counted (h.received .sat) x.sat x.stop).sum ∧
    d.dnOff = (c.joined.map fun x => counted (h.sent .sat) x.sat x.stop).sum ∧
    d.dnDel = (c.joined.map fun x => counted (h.received .gnd) x.gnd x.stop).sum := by
  rw [Report.direction, aligned_eq] at reported
  split at reported
  · cases Option.some.inj reported
    simp only [List.map_map]
    exact ⟨rfl, rfl, rfl, rfl⟩
  · cases reported

/-- An end that is joined is reported. -/
theorem direction_isSome (h : History) {x : Joined} (mem : x ∈ c.joined) :
    ∃ d, (c.report h).direction .sat .gnd = some d := by
  have j := joins_lines c h c.rounds
  obtain ⟨lt, sat, gnd⟩ := mem_joined.mp mem
  have both : ((c.report h).ttx .sat).isSome ∧ ((c.report h).ttx .gnd).isSome :=
    ⟨j.sat.ttx.mpr ⟨x.stop, lt, by rw [sat]; rfl⟩, j.gnd.ttx.mpr ⟨x.stop, lt, by rw [gnd]; rfl⟩⟩
  exact ⟨_, if_pos both⟩

theorem loss_self (n : Int) : loss n n = 0 := by
  rw [loss]
  split
  · rfl
  · rename_i ne
    have : (n : ℚ) ≠ 0 := Int.cast_ne_zero.mpr ne
    rw [div_self this]
    ring

theorem clean_of_eq {d : Direction} (up : d.upOff = d.upDel) (dn : d.dnOff = d.dnDel) :
    d.Clean := by
  refine ⟨up, dn, ?_, ?_⟩
  · rw [up, loss_self]
  · rw [dn, loss_self]

/-- The intervals of the satellite that are joined. -/
def Capture.spans (c : Capture) : List (Nat × Nat) := c.joined.map fun x => (x.sat, x.stop)

theorem spans_apart (c : Capture) : c.spans.Pairwise fun x y => x.2 ≤ y.1 := by
  rw [Capture.spans, List.pairwise_map, Capture.joined, List.pairwise_filterMap]
  refine List.pairwise_lt_range.imp fun {i j} lt x hx y hy => ?_
  obtain ⟨sat, -, stop⟩ := joinedAt_some.mp hx
  obtain ⟨sat', -, -⟩ := joinedAt_some.mp hy
  rw [stop]
  exact span_apart sat sat' lt

theorem faithful_of_sameStart (same : c.SameStart) : c.Faithful := by
  refine ⟨c.spans, spans_apart c, fun h d reported => ?_⟩
  obtain ⟨upOff, upDel, dnOff, dnDel⟩ := direction_some reported
  -- Where both ends start together it does not matter whose start is taken.
  have ground : ∀ f, c.joined.map (fun x => counted f x.gnd x.stop) =
      c.joined.map fun x => counted f x.sat x.stop := fun f =>
    List.map_congr_left fun x mem => by
      obtain ⟨lt, sat, gnd⟩ := mem_joined.mp mem
      rw [same x.stop lt x.sat x.gnd sat gnd]
  rw [ground] at upOff dnDel
  constructor
  · constructor <;> simpa only [Capture.spans, List.map_map]
  · intro lossless
    have up : h.received .sat = h.sent .gnd := funext fun i => (lossless i).1
    have dn : h.received .gnd = h.sent .sat := funext fun i => (lossless i).2
    apply clean_of_eq
    · rw [upOff, upDel, up]
    · rw [dnOff, dnDel, dn]

/-- One packet each way crosses between round `j` and the next. -/
def oneAt (j : Nat) : History :=
  ⟨fun _ => 0, fun _ => 0, fun _ i => if i = j then 1 else 0, fun _ i => if i = j then 1 else 0⟩

theorem oneAt_lossless (j : Nat) : (oneAt j).Lossless := fun _ => ⟨rfl, rfl⟩

theorem counted_one (j a b : Nat) :
    counted (fun i => if i = j then 1 else 0) a b = if a ≤ j ∧ j < b then 1 else 0 := by
  simp only [counted, Finset.sum_ite_eq', Finset.mem_Ico]
  split <;> rfl

/-- The packet in front of the later start is in none of the intervals joined of that end: the
interval that holds it ends where the other end has missed the sample. -/
theorem narrow_misses {wide narrow : End} {i a b i' a' b' : Nat}
    (hw : c.span wide i = some a) (hn : c.span narrow i = some b) (lt : a < b)
    (hw' : c.span wide i' = some a') (hn' : c.span narrow i' = some b') :
    ¬ (b' ≤ b - 1 ∧ b - 1 < i') := by
  rintro ⟨le, after⟩
  obtain ⟨-, bi, answered, -⟩ := span_spec hn
  obtain ⟨-, -, -, missed⟩ := span_spec hw
  rcases Nat.lt_or_eq_of_le (show b ≤ i' by omega) with later | rfl
  · have between := (span_spec hn').2.2.2 b (by omega) later
    rw [answered] at between
    cases between
  · have between := missed b lt bi
    rw [(span_spec hw').1] at between
    cases between

def Joined.start (x : Joined) : End → Nat
  | .sat => x.sat
  | .gnd => x.gnd

theorem span_start {x : Joined} (mem : x ∈ c.joined) (k : End) :
    c.span k x.stop = some (x.start k) := by
  obtain ⟨-, sat, gnd⟩ := mem_joined.mp mem
  cases k
  · exact sat
  · exact gnd

/-- A packet in front of the later start is counted at the end that started earlier, and
nowhere at the other. -/
theorem uneven_counts {x : Joined} (mem : x ∈ c.joined) (wide narrow : End)
    (lt : x.start wide < x.start narrow) :
    (c.joined.map fun y => counted (fun i => if i = x.start narrow - 1 then 1 else 0)
      (y.start narrow) y.stop).sum = 0 ∧
    1 ≤ (c.joined.map fun y => counted (fun i => if i = x.start narrow - 1 then 1 else 0)
      (y.start wide) y.stop).sum := by
  have hw := span_start mem wide
  have hn := span_start mem narrow
  constructor
  · refine List.sum_eq_zero fun z hz => ?_
    obtain ⟨y, hy, rfl⟩ := List.mem_map.mp hz
    exact (counted_one ..).trans
      (if_neg (narrow_misses hw hn lt (span_start hy wide) (span_start hy narrow)))
  · have before := (span_spec hn).2.1
    have one := (counted_one (x.start narrow - 1) (x.start wide) x.stop).trans
      (if_pos (by omega))
    refine one.symm.trans_le (List.single_le_sum ?_ _ (List.mem_map_of_mem mem))
    intro z hz
    obtain ⟨y, -, rfl⟩ := List.mem_map.mp hz
    exact counted_nonneg ..

theorem sameStart_of_faithful (faithful : c.Faithful) : c.SameStart := by
  obtain ⟨spans, -, reports⟩ := faithful
  intro i lt a b sat gnd
  have mem : (⟨a, b, i⟩ : Joined) ∈ c.joined := mem_joined.mpr ⟨lt, sat, gnd⟩
  rcases Nat.lt_trichotomy a b with later | same | later
  · obtain ⟨d, reported⟩ := direction_isSome (oneAt (b - 1)) mem
    obtain ⟨up, -⟩ := (reports _ d reported).2 (oneAt_lossless _)
    obtain ⟨upOff, upDel, -⟩ := direction_some reported
    obtain ⟨none, some⟩ := uneven_counts mem .sat .gnd later
    have : (0 : Int) = _ := none.symm.trans (upOff.symm.trans (up.trans upDel))
    exact absurd (some.trans_eq this.symm) (by decide)
  · exact same
  · obtain ⟨d, reported⟩ := direction_isSome (oneAt (a - 1)) mem
    obtain ⟨-, dn, -⟩ := (reports _ d reported).2 (oneAt_lossless _)
    obtain ⟨-, -, dnOff, dnDel⟩ := direction_some reported
    obtain ⟨none, some⟩ := uneven_counts mem .gnd .sat later
    have : (0 : Int) = _ := none.symm.trans (dnOff.symm.trans (dn.trans dnDel))
    exact absurd (some.trans_eq this.symm) (by decide)

/-- The report is right for every traffic exactly if the missed samples never leave the ends
with different intervals. -/
theorem report_faithful_iff (c : Capture) : c.Faithful ↔ c.SameStart :=
  ⟨sameStart_of_faithful, faithful_of_sameStart⟩

/-- Four rounds ten seconds apart; the ground end does not answer in round 1. -/
def patchy : Capture where
  rounds := 4
  start := 0
  gap _ := 9
  ok k i := k = .sat ∨ i ≠ 1

/-- A hundred packets are sent up between each two rounds, and all are received. -/
def steady : History where
  tx₀ _ := 0
  rx₀ _ := 0
  sent k _ := if k = .gnd then 100 else 0
  received k _ := if k = .sat then 100 else 0

/-- Nothing is lost, and a third of the uplink is reported as lost. -/
theorem patchy_report_wrong : steady.Lossless ∧
    (patchy.report steady).direction .sat .gnd = some ⟨300, 200, 0, 0⟩ ∧
    loss 300 200 = 100 / 3 := by
  refine ⟨fun _ => ⟨rfl, rfl⟩, by decide +kernel, ?_⟩
  norm_num [loss]

end CspLinksim.PassLog
