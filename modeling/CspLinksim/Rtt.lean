import Mathlib.Data.UInt
import CspLinksim.Lib.Ring
import CspLinksim.Lib.Runs

/-!
# The RTT pairing (`ci_meas.c`)

A ring of 256 data records, searched backwards when an ACK comes. The abstract side is the
list of all records with a mark on those that an ACK has consumed, of which only the last
256 can still be found. The cursor counts modulo 2^32, which 256 divides.
-/

namespace CspLinksim.Rtt

open Runs Window

def ciRttRing : Nat := 256

structure CiRttPairing where
  seq : Vector UInt16 256
  tMs : Vector UInt32 256
  valid : Vector UInt8 256
  head : UInt32
  deriving DecidableEq

def ciRttInit : CiRttPairing where
  seq := Vector.replicate 256 0
  tMs := Vector.replicate 256 0
  valid := Vector.replicate 256 0
  head := 0

/-- The index of a cursor. -/
def ringIndex (cursor : UInt32) : Fin 256 :=
  ⟨cursor.toNat % ciRttRing, Nat.mod_lt _ (by decide)⟩

def ciRttOnData (p : CiRttPairing) (seq : UInt16) (tMs : UInt32) : CiRttPairing :=
  let i := ringIndex p.head
  { seq := p.seq.set i seq
    tMs := p.tMs.set i tMs
    valid := p.valid.set i 1
    head := p.head + 1 }

/-- `n` passes of the loop of `ci_rtt_on_ack` from `k` on: the index it stops at. -/
def ackLoop (p : CiRttPairing) (ackNr : UInt16) : Nat → Nat → Option (Fin 256)
  | _, 0 => none
  | k, n + 1 =>
    let i := ringIndex (p.head - 1 - UInt32.ofNat k)
    if p.valid.get i ≠ 0 ∧ p.seq.get i = ackNr then some i else ackLoop p ackNr (k + 1) n

/-- `ci_rtt_on_ack`: the time is `none` if it returns 0. -/
def ciRttOnAck (p : CiRttPairing) (ackNr : UInt16) (tMs : UInt32) : CiRttPairing × Option UInt32 :=
  match ackLoop p ackNr 0 ciRttRing with
  | some i => ({ p with valid := p.valid.set i 0 }, some (tMs - p.tMs.get i))
  | none => (p, none)

/-- A call of the pairing. -/
inductive RttOp where
  | data (seq : UInt16) (tMs : UInt32)
  | ack (ackNr : UInt16) (tMs : UInt32)
  deriving DecidableEq

def rttStep (p : CiRttPairing) : RttOp → CiRttPairing × Option UInt32
  | .data seq tMs => (ciRttOnData p seq tMs, none)
  | .ack ackNr tMs => ciRttOnAck p ackNr tMs

/-- A data record, and whether an ACK has consumed it. -/
structure Record where
  seq : UInt16
  tMs : UInt32
  used : Bool
  deriving DecidableEq

def Record.use (r : Record) : Record := { r with used := true }

def Record.answers (ackNr : UInt16) (r : Record) : Bool := r.seq = ackNr ∧ r.used = false

/-- The place of the newest record that an ACK can consume, the newest record first. -/
def newest (log : List Record) (ackNr : UInt16) : Option Nat :=
  (log.take ciRttRing).findIdx? (Record.answers ackNr)

/-- The records after a call, and the number of the record it consumed with the time; the
first record has number 0. -/
def recordStep (log : List Record) : RttOp → List Record × Option (Nat × UInt32)
  | .data seq tMs => (⟨seq, tMs, false⟩ :: log, none)
  | .ack ackNr tMs =>
    match newest log ackNr with
    | some k =>
      (log.modify k Record.use, log[k]?.map fun r => (log.length - 1 - k, tMs - r.tMs))
    | none => (log, none)

/-- What a slot of the ring still has of its record. -/
def Record.entry (r : Record) : Option (UInt16 × UInt32) :=
  if r.used then none else some (r.seq, r.tMs)

def slots (p : CiRttPairing) (i : Nat) : Option (UInt16 × UInt32) :=
  if h : i < 256 then
    if p.valid.get ⟨i, h⟩ ≠ 0 then some (p.seq.get ⟨i, h⟩, p.tMs.get ⟨i, h⟩) else none
  else none

/-- The ring stands for the records. -/
structure Stands (p : CiRttPairing) (log : List Record) : Prop where
  head : p.head = UInt32.ofNat log.length
  holds : Ring.Holds ciRttRing (slots p) (log.map Record.entry)

theorem ringIndex_head (n : Nat) : (ringIndex (UInt32.ofNat n)).val = slotOf ciRttRing n := by
  simp only [ringIndex, slotOf, ciRttRing, UInt32.toNat_ofNat']
  omega

/-- The wrap of the cursor does not move a slot. -/
theorem ringIndex_back (n k : Nat) (hk : k < 256) :
    (ringIndex (UInt32.ofNat n - 1 - UInt32.ofNat k)).val =
      slotOf ciRttRing ((n : Int) - 1 - k) := by
  simp only [ringIndex, slotOf, ciRttRing, UInt32.toNat_sub, UInt32.toNat_ofNat',
    UInt32.toNat_one]
  omega

theorem get_set {β : Type} (v : Vector β 256) (i j : Fin 256) (x : β) :
    (v.set i x).get j = if i.val = j.val then x else v.get j :=
  Vector.getElem_set i.isLt j.isLt

theorem slots_onData (p : CiRttPairing) (seq : UInt16) (tMs : UInt32) :
    slots (ciRttOnData p seq tMs) =
      Function.update (slots p) (ringIndex p.head).val (some (seq, tMs)) := by
  funext j
  by_cases h : j < 256
  · simp only [slots, dif_pos h, ciRttOnData, get_set]
    by_cases same : (ringIndex p.head).val = j
    · simp [same]
    · rw [Function.update_of_ne (Ne.symm same), slots, dif_pos h]
      simp only [if_neg same]
  · have apart : j ≠ (ringIndex p.head).val := by
      have := (ringIndex p.head).isLt
      omega
    rw [Function.update_of_ne apart]
    simp [slots, h]

theorem slots_consume (p : CiRttPairing) (i : Fin 256) :
    slots { p with valid := p.valid.set i 0 } = Function.update (slots p) i.val none := by
  funext j
  by_cases h : j < 256
  · simp only [slots, dif_pos h, get_set]
    by_cases same : i.val = j
    · simp [same]
    · rw [Function.update_of_ne (Ne.symm same), slots, dif_pos h]
      simp only [if_neg same]
  · have apart : j ≠ i.val := by
      have := i.isLt
      omega
    rw [Function.update_of_ne apart]
    simp [slots, h]

theorem stands_init : Stands ciRttInit [] where
  head := rfl
  holds := by
    have empty : slots ciRttInit = fun _ => none := by
      funext i
      by_cases h : i < 256
      · have invalid : (Vector.replicate 256 (0 : UInt8)).get ⟨i, h⟩ = 0 :=
          Vector.getElem_replicate h
        simp [slots, ciRttInit, h, invalid]
      · simp [slots, h]
    simp only [List.map_nil, empty]
    exact Ring.holds_nil ciRttRing

theorem Stands.onData {p : CiRttPairing} {log : List Record} (h : Stands p log) (seq : UInt16)
    (tMs : UInt32) : Stands (ciRttOnData p seq tMs) (⟨seq, tMs, false⟩ :: log) where
  head := by
    simp only [ciRttOnData, h.head, List.length_cons, UInt32.ofNat_add, UInt32.ofNat_one]
  holds := by
    have next := h.holds.push (seq, tMs)
    rw [List.length_map] at next
    rw [slots_onData, h.head, ringIndex_head]
    exact next

theorem Stands.consume {p : CiRttPairing} {log : List Record} (h : Stands p log) {k : Nat}
    (hk : k < 256) {i : Fin 256} (hi : i.val = slotOf ciRttRing ((log.length : Int) - 1 - k)) :
    Stands { p with valid := p.valid.set i 0 } (log.modify k Record.use) where
  head := by
    simp only [h.head, List.length_modify]
  holds := by
    have next := h.holds.take (k := k) hk
    have marked : (log.modify k Record.use).map Record.entry =
        (log.map Record.entry).set k none := by
      apply List.ext_getElem?
      intro j
      rw [List.getElem?_map, List.getElem?_modify, List.getElem?_set, List.getElem?_map]
      by_cases same : k = j
      · subst same
        by_cases inside : k < log.length
        · simp [inside, Record.entry, Record.use]
        · simp [inside]
      · cases log[j]? <;> simp [same]
    rw [List.length_map, ← hi] at next
    rw [slots_consume, marked]
    exact next

/-- The loop stops where the search of the slots does. -/
theorem ackLoop_eq {p : CiRttPairing} {n : Nat} (head : p.head = UInt32.ofNat n) (ackNr : UInt16)
    (m k : Nat) (bound : k + m ≤ 256) :
    (ackLoop p ackNr k m).map Fin.val =
      (Ring.search ciRttRing (slots p) ((n : Int) - 1) (fun e => e.1 = ackNr) k m).map
        fun k : Nat => slotOf ciRttRing ((n : Int) - 1 - k) := by
  induction m generalizing k with
  | zero => rfl
  | succ m ih =>
    have index := ringIndex_back n k (by omega)
    obtain ⟨i, hi⟩ : ∃ i, i = ringIndex (p.head - 1 - UInt32.ofNat k) := ⟨_, rfl⟩
    rw [← head, ← hi] at index
    have slot : slots p i.val =
        if p.valid.get i ≠ 0 then some (p.seq.get i, p.tMs.get i) else none := by
      rw [slots, dif_pos i.isLt]
    rw [ackLoop, Ring.search, ← index, slot, ← hi]
    by_cases valid : p.valid.get i ≠ 0
    · by_cases same : p.seq.get i = ackNr
      · simp [valid, same, index]
      · simp [valid, same, ih (k + 1) (by omega)]
    · simp [valid, ih (k + 1) (by omega)]

theorem ackLoop_newest {p : CiRttPairing} {log : List Record} (h : Stands p log)
    (ackNr : UInt16) : (ackLoop p ackNr 0 ciRttRing).map Fin.val =
      (newest log ackNr).map fun k : Nat => slotOf ciRttRing ((log.length : Int) - 1 - k) := by
  have found := Ring.search_newest h.holds fun e => e.1 = ackNr
  have same : (Option.any (fun e : UInt16 × UInt32 => decide (e.1 = ackNr))) ∘ Record.entry =
      Record.answers ackNr := by
    funext r
    cases used : r.used <;> simp [Record.entry, Record.answers, used]
  rw [ackLoop_eq h.head ackNr ciRttRing 0 (by decide)]
  rw [List.length_map, ← List.map_take, List.findIdx?_map, same] at found
  rw [found, newest]

/-- Record `k` is the newest of the last 256 that an ACK can consume. -/
structure Newest (log : List Record) (ackNr : UInt16) (k : Nat) (r : Record) : Prop where
  recent : k < 256
  place : log[k]? = some r
  seq : r.seq = ackNr
  unused : r.used = false
  newer : ∀ j < k, ∀ r', log[j]? = some r' → r'.seq = ackNr → r'.used = true

theorem answers_iff (ackNr : UInt16) (r : Record) :
    r.answers ackNr = true ↔ r.seq = ackNr ∧ r.used = false := by
  simp [Record.answers]

theorem newest_eq_some {log : List Record} {ackNr : UInt16} {k : Nat} :
    newest log ackNr = some k ↔ ∃ r, Newest log ackNr k r := by
  have size : ciRttRing = 256 := rfl
  rw [newest, List.findIdx?_eq_some_iff_getElem]
  constructor
  · rintro ⟨inside, hit, before⟩
    rw [List.length_take] at inside
    rw [List.getElem_take, answers_iff] at hit
    refine ⟨log[k], by omega, List.getElem?_eq_getElem (by omega), hit.1, hit.2, ?_⟩
    intro j hj r' place seq
    obtain ⟨hlt, hr⟩ := List.getElem?_eq_some_iff.mp place
    have miss := before j hj
    rw [List.getElem_take, hr, answers_iff] at miss
    cases used : r'.used with
    | true => rfl
    | false => exact absurd ⟨seq, used⟩ miss
  · rintro ⟨r, recent, place, seq, unused, newer⟩
    obtain ⟨inside, hr⟩ := List.getElem?_eq_some_iff.mp place
    refine ⟨by rw [List.length_take]; omega, ?_, ?_⟩
    · rw [List.getElem_take, hr, answers_iff]
      exact ⟨seq, unused⟩
    · intro j hj hit
      rw [List.getElem_take, answers_iff] at hit
      have used := newer j hj log[j] (List.getElem?_eq_getElem (by omega)) hit.1
      rw [hit.2] at used
      cases used

theorem newest_eq_none {log : List Record} {ackNr : UInt16} :
    newest log ackNr = none ↔ ∀ r ∈ log.take 256, r.seq = ackNr → r.used = true := by
  have size : ciRttRing = 256 := rfl
  rw [newest, List.findIdx?_eq_none_iff, size]
  constructor
  · intro h r hr seq
    have miss := h r hr
    cases used : r.used with
    | true => rfl
    | false =>
      rw [(answers_iff ackNr r).mpr ⟨seq, used⟩] at miss
      cases miss
  · intro h r hr
    by_contra hit
    obtain ⟨seq, unused⟩ := (answers_iff ackNr r).mp (by simpa using hit)
    rw [h r hr seq] at unused
    cases unused

/-- The slot of a record that was not consumed has its time. -/
theorem Stands.time {p : CiRttPairing} {log : List Record} (h : Stands p log) {ackNr : UInt16}
    {k : Nat} {r : Record} (new : Newest log ackNr k r) {i : Fin 256}
    (hi : i.val = slotOf ciRttRing ((log.length : Int) - 1 - k)) : p.tMs.get i = r.tMs := by
  have entry := h.holds k new.recent
  rw [List.length_map, ← hi, List.getElem?_map, new.place] at entry
  simp only [slots, dif_pos i.isLt, Option.map_some, Option.join_some, Record.entry, new.unused,
    Bool.false_eq_true, if_false] at entry
  split at entry
  · exact (Prod.mk.inj (Option.some.inj entry)).2
  · cases entry

/-- An ACK that finds a record consumes the newest one. -/
theorem onAck_newest {p : CiRttPairing} {log : List Record} (h : Stands p log) {ackNr : UInt16}
    (tMs : UInt32) {k : Nat} {r : Record} (new : Newest log ackNr k r) :
    (ciRttOnAck p ackNr tMs).2 = some (tMs - r.tMs) ∧
    Stands (ciRttOnAck p ackNr tMs).1 (log.modify k Record.use) := by
  have found := ackLoop_newest h ackNr
  rw [newest_eq_some.mpr ⟨r, new⟩] at found
  obtain ⟨i, stops, hi⟩ := Option.map_eq_some_iff.mp found
  simp only [ciRttOnAck, stops]
  exact ⟨by rw [h.time new hi], h.consume new.recent hi⟩

theorem onAck_none {p : CiRttPairing} {log : List Record} (h : Stands p log) {ackNr : UInt16}
    (tMs : UInt32) (none_ : newest log ackNr = none) : ciRttOnAck p ackNr tMs = (p, none) := by
  have found := ackLoop_newest h ackNr
  rw [none_, Option.map_none, Option.map_eq_none_iff] at found
  simp only [ciRttOnAck, found]

/-- The step lemma: the ring answers as the records do and stands for them. -/
theorem stands_step {p : CiRttPairing} {log : List Record} (h : Stands p log) (op : RttOp) :
    Stands (rttStep p op).1 (recordStep log op).1 ∧
    (rttStep p op).2 = (recordStep log op).2.map Prod.snd := by
  cases op with
  | data seq tMs => exact ⟨h.onData seq tMs, rfl⟩
  | ack ackNr tMs =>
    cases found : newest log ackNr with
    | none =>
      simp only [rttStep, recordStep, found, onAck_none h tMs found]
      exact ⟨h, rfl⟩
    | some k =>
      obtain ⟨r, new⟩ := newest_eq_some.mp found
      obtain ⟨time, stands⟩ := onAck_newest h tMs new
      simp only [rttStep, recordStep, found, new.place, Option.map_some]
      exact ⟨stands, time⟩

theorem stands_run (ops : List RttOp) :
    Stands (run rttStep ciRttInit ops).1 (run recordStep [] ops).1 ∧
    (run rttStep ciRttInit ops).2 = (run recordStep [] ops).2.map (Option.map Prod.snd) := by
  obtain ⟨stands, answers⟩ := run_lockstep rttStep recordStep Stands
    (fun o o' => o = o'.map Prod.snd) (fun p log op h => stands_step h op) stands_init ops
  refine ⟨stands, ?_⟩
  rw [← List.forall₂_eq_eq_eq, List.forall₂_map_right_iff]
  exact answers

/-- The numbers of the records that were consumed. -/
def consumed (outs : List (Option (Nat × UInt32))) : List Nat := (outs.filterMap id).map Prod.fst

/-- Every number that was given out is that of a record with its mark. -/
structure Marked (log : List Record) (outs : List (Option (Nat × UInt32))) : Prop where
  once : (consumed outs).Nodup
  marked : ∀ n ∈ consumed outs, n < log.length ∧
    ∃ r, log[log.length - 1 - n]? = some r ∧ r.used = true

theorem consumed_snoc (outs : List (Option (Nat × UInt32))) (o : Option (Nat × UInt32)) :
    consumed (outs ++ [o]) = consumed outs ++ (o.map Prod.fst).toList := by
  cases o <;> simp [consumed]

theorem marked_step {log : List Record} {outs : List (Option (Nat × UInt32))}
    (h : Marked log outs) (op : RttOp) :
    Marked (recordStep log op).1 (outs ++ [(recordStep log op).2]) := by
  cases op with
  | data seq tMs =>
    simp only [recordStep]
    refine ⟨by simpa [consumed_snoc] using h.once, ?_⟩
    intro n hn
    obtain ⟨hlt, r, place, used⟩ := h.marked n (by simpa [consumed_snoc] using hn)
    refine ⟨Nat.lt_succ_of_lt hlt, r, ?_, used⟩
    rw [List.length_cons, show log.length + 1 - 1 - n = log.length - 1 - n + 1 by omega,
      List.getElem?_cons_succ]
    exact place
  | ack ackNr tMs =>
    cases found : newest log ackNr with
    | none =>
      simp only [recordStep, found]
      refine ⟨by simpa [consumed_snoc] using h.once, ?_⟩
      intro n hn
      exact h.marked n (by simpa [consumed_snoc] using hn)
    | some k =>
      obtain ⟨r, new⟩ := newest_eq_some.mp found
      obtain ⟨inside, hr⟩ := List.getElem?_eq_some_iff.mp new.place
      simp only [recordStep, found, new.place, Option.map_some]
      constructor
      · rw [consumed_snoc]
        apply List.nodup_append.mpr
        refine ⟨h.once, by simp, ?_⟩
        intro n hn m hm same
        have hm' : m = log.length - 1 - k := by simpa using hm
        obtain ⟨hlt, r', place, used⟩ := h.marked n hn
        rw [same, hm', show log.length - 1 - (log.length - 1 - k) = k by omega, new.place] at place
        cases place
        rw [new.unused] at used
        cases used
      · intro n hn
        rw [List.length_modify]
        rw [consumed_snoc] at hn
        rcases List.mem_append.mp hn with old | this
        · obtain ⟨hlt, r', place, used⟩ := h.marked n old
          refine ⟨hlt, ?_⟩
          rw [List.getElem?_modify, place]
          by_cases same : k = log.length - 1 - n
          · exact ⟨r'.use, by simp [same], rfl⟩
          · exact ⟨r', by simp [same], used⟩
        · have hn' : n = log.length - 1 - k := by simpa using this
          refine ⟨by omega, r.use, ?_, rfl⟩
          rw [List.getElem?_modify, hn', show log.length - 1 - (log.length - 1 - k) = k by omega,
            new.place]
          simp

/-- The ring against the records, over any run. -/
theorem rtt_ring_refines (ops : List RttOp) :
    (run rttStep ciRttInit ops).2 = (run recordStep [] ops).2.map (Option.map Prod.snd) ∧
    (consumed (run recordStep [] ops).2).Nodup ∧
    ∀ ackNr tMs,
      ((ciRttOnAck (run rttStep ciRttInit ops).1 ackNr tMs).2.isSome ↔
        ∃ r ∈ (run recordStep [] ops).1.take 256, r.seq = ackNr ∧ r.used = false) ∧
      (∀ k r, Newest (run recordStep [] ops).1 ackNr k r →
        (ciRttOnAck (run rttStep ciRttInit ops).1 ackNr tMs).2 = some (tMs - r.tMs) ∧
        Stands (ciRttOnAck (run rttStep ciRttInit ops).1 ackNr tMs).1
          ((run recordStep [] ops).1.modify k Record.use)) ∧
      ((ciRttOnAck (run rttStep ciRttInit ops).1 ackNr tMs).2 = none →
        (ciRttOnAck (run rttStep ciRttInit ops).1 ackNr tMs).1 =
          (run rttStep ciRttInit ops).1) := by
  obtain ⟨stands, answers⟩ := stands_run ops
  have empty : Marked [] [] := ⟨List.nodup_nil, fun n hn => by cases hn⟩
  have marked := run_history recordStep (fun log _ outs => Marked log outs)
    (fun log _ outs op h => marked_step h op) empty ops
  refine ⟨answers, marked.once, ?_⟩
  intro ackNr tMs
  cases found : newest (run recordStep [] ops).1 ackNr with
  | none =>
    rw [onAck_none stands tMs found]
    refine ⟨?_, ?_, fun _ => rfl⟩
    · constructor
      · intro some_
        cases some_
      · rintro ⟨r, hr, seq, unused⟩
        have used := newest_eq_none.mp found r hr seq
        rw [unused] at used
        cases used
    · intro k r new
      rw [newest_eq_some.mpr ⟨r, new⟩] at found
      cases found
  | some k =>
    obtain ⟨r, new⟩ := newest_eq_some.mp found
    obtain ⟨time, after_⟩ := onAck_newest stands tMs new
    obtain ⟨inside, hr⟩ := List.getElem?_eq_some_iff.mp new.place
    have recent := new.recent
    refine ⟨?_, fun k' r' new' => onAck_newest stands tMs new', ?_⟩
    · constructor
      · intro _
        have member := List.getElem_mem (l := (run recordStep [] ops).1.take 256) (n := k)
          (by rw [List.length_take]; omega)
        rw [List.getElem_take, hr] at member
        exact ⟨r, member, new.seq, new.unused⟩
      · intro _
        rw [time]
        rfl
    · intro none_
      rw [time] at none_
      cases none_

end CspLinksim.Rtt
