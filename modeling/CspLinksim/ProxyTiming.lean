import CspLinksim.ProxyDelay
import Mathlib.Data.List.Rotate

/-!
# When the delay worker sends

A frame that `-D` delays is stamped with the time it is due. Whatever the order of the two
threads' steps, it does not leave before. The worker looks at the queue from the front and
puts back what is not due, and reads the clock for each frame. So it empties a quiet queue of
what was due when it began, in order, and of what falls due meanwhile, and puts back the rest.
-/

namespace CspLinksim.Proxy

open Runs Packet

def WorkerPc.stamped : WorkerPc → List DelayedMsg
  | .holding _ _ d => [d]
  | _ => []

def MainPc.stamped : MainPc → List DelayedMsg
  | .enqueue d => [d]
  | _ => []

section

variable {σ : Type} (lib : CspQueue σ DelayedMsg delayQueueLength) (cfg : Settings)
  (strip : CspPacket → List UInt8 → CspPacket)

/-- The frames that have a stamp. -/
def Broker.stamped (s : Broker σ) : List DelayedMsg :=
  lib.items s.queue ++ s.workerPc.stamped ++ s.mainPc.stamped

/-- The frame that the worker hands to the backend in its next step. -/
def workerSends (s : Broker σ) (now : UInt32) : Option DelayedMsg :=
  match s.workerPc with
  | .holding _ _ d => if workerRuns cfg ∧ d.timestampTx < now then some d else none
  | _ => none

/-- The main loop decided at time `t` to delay the frame. -/
def DelayedAt (start : Broker σ) (xs : List Event) (d : DelayedMsg) : Prop :=
  ∃ before t h, before ++ [.main t] <+: xs ∧
    (after (brokerStep lib cfg strip) start before).mainPc = .decide h ∧ h.randDelay = true ∧
    d.msg = h.msg ∧ d.timestampTx = t + cfg.delayMs.toUInt32

/-- A step of the main loop that stamps nothing. -/
theorem stamped_same {s s' : Broker σ} {d : DelayedMsg} (hd : d ∈ s'.stamped lib)
    (queue : lib.items s'.queue = lib.items s.queue) (worker : s'.workerPc = s.workerPc)
    (now : s'.mainPc.stamped = []) : d ∈ s.stamped lib := by
  rw [Broker.stamped, queue, worker, now, List.append_nil] at hd
  exact List.mem_append_left _ hd

theorem stamped_main (s : Broker σ) (now : UInt32) {d : DelayedMsg}
    (hd : d ∈ (mainStep lib cfg strip s now).stamped lib) (plain : d.hdx = false) :
    d ∈ s.stamped lib ∨ ∃ h, s.mainPc = .decide h ∧ h.randDelay = true ∧ d.msg = h.msg ∧
      d.timestampTx = now + cfg.delayMs.toUInt32 := by
  cases pc : s.mainPc with
  | poll =>
    left
    simpa only [mainStep, pc] using hd
  | received h =>
    left
    simp only [mainStep, pc] at hd
    split at hd
    · split at hd
      · exact stamped_same lib hd rfl rfl rfl
      · exact stamped_same lib hd rfl rfl rfl
    · exact stamped_same lib hd rfl rfl rfl
  | srcTest h =>
    left
    simp only [mainStep, pc] at hd
    split at hd
    · exact stamped_same lib hd rfl rfl rfl
    · split at hd
      · exact stamped_same lib hd rfl rfl rfl
      · exact stamped_same lib hd rfl rfl rfl
  | powerup h =>
    left
    simp only [mainStep, pc] at hd
    exact stamped_same lib hd rfl rfl rfl
  | powerupStamp h =>
    left
    simp only [mainStep, pc, Broker.stamped, MainPc.stamped] at hd
    rcases List.mem_append.mp hd with old | new
    · exact List.mem_append_left _ old
    · rw [List.mem_singleton.mp new] at plain
      cases plain
  | markTx h =>
    left
    simp only [mainStep, pc] at hd
    exact stamped_same lib hd rfl rfl rfl
  | dstTest h =>
    left
    simp only [mainStep, pc] at hd
    split at hd
    · exact stamped_same lib hd rfl rfl rfl
    · exact stamped_same lib hd rfl rfl rfl
  | decide h =>
    simp only [mainStep, pc] at hd
    split at hd
    · exact Or.inl (stamped_same lib hd rfl rfl rfl)
    · split at hd
      · split at hd
        case isTrue delays =>
          simp only [Broker.stamped, MainPc.stamped] at hd
          rcases List.mem_append.mp hd with old | new
          · exact Or.inl (List.mem_append_left _ old)
          · rw [List.mem_singleton.mp new]
            exact Or.inr ⟨h, rfl, delays.2, rfl, rfl⟩
        case isFalse => exact Or.inl (stamped_same lib hd rfl rfl rfl)
      · exact Or.inl (stamped_same lib hd rfl rfl rfl)
  | enqueue d' =>
    left
    have mine : s.stamped lib = lib.items s.queue ++ s.workerPc.stamped ++ [d'] := by
      rw [Broker.stamped, pc]
      rfl
    simp only [mainStep, pc] at hd
    rcases lib.enqueue_cases s.queue d' with ⟨q, done, items, -⟩ | ⟨q, done, items, -⟩
    · simp only [done, Broker.stamped, MainPc.stamped, items, List.append_nil] at hd
      rw [mine]
      simp only [List.mem_append, List.mem_singleton] at hd ⊢
      tauto
    · rw [done] at hd
      exact stamped_same lib hd items rfl rfl

theorem stamped_worker (s : Broker σ) (now : UInt32) {d : DelayedMsg}
    (hd : d ∈ (workerStep lib s now).stamped lib) : d ∈ s.stamped lib := by
  cases pc : s.workerPc with
  | front =>
    simpa only [workerStep, pc, Broker.stamped, WorkerPc.stamped] using hd
  | scan i count =>
    simp only [workerStep, pc] at hd
    split at hd
    · rcases lib.dequeue_cases s.queue with ⟨q, taken, -⟩ | ⟨q, d', taken, items⟩
      · rw [taken] at hd
        exact hd
      · simp only [taken, Broker.stamped, WorkerPc.stamped] at hd
        simp only [Broker.stamped, items, pc, WorkerPc.stamped, List.mem_append, List.mem_cons]
          at hd ⊢
        tauto
    · simpa only [Broker.stamped, pc, WorkerPc.stamped] using hd
  | holding i count d' =>
    simp only [workerStep, pc] at hd
    have mine : d ∈ lib.items s.queue ∨ d = d' ∨ d ∈ s.mainPc.stamped → d ∈ s.stamped lib := by
      simp only [Broker.stamped, pc, WorkerPc.stamped, List.mem_append, List.mem_singleton]
      tauto
    apply mine
    split at hd
    · have none : WorkerPc.stamped (if d'.hdx then .markTx else .front) = [] := by
        split <;> rfl
      simp only [Broker.stamped, none, List.append_nil, List.mem_append] at hd
      tauto
    · rcases lib.enqueue_cases s.queue d' with ⟨q, done, items, -⟩ | ⟨q, done, items, -⟩
      · simp only [done, Broker.stamped, WorkerPc.stamped, items, List.append_nil,
          List.mem_append, List.mem_singleton] at hd
        tauto
      · simp only [done, Broker.stamped, WorkerPc.stamped, items, List.append_nil,
          List.mem_append] at hd
        tauto
  | markTx =>
    simpa only [workerStep, pc, Broker.stamped, WorkerPc.stamped] using hd
  | clearPowerup =>
    simpa only [workerStep, pc, Broker.stamped, WorkerPc.stamped] using hd

/-- The step lemma: a stamp is old, that of a half-duplex node, or put on now. -/
theorem stamped_step (s : Broker σ) (e : Event) {d : DelayedMsg}
    (hd : d ∈ (brokerStep lib cfg strip s e).stamped lib) (plain : d.hdx = false) :
    d ∈ s.stamped lib ∨ ∃ t h, e = .main t ∧ s.mainPc = .decide h ∧ h.randDelay = true ∧
      d.msg = h.msg ∧ d.timestampTx = t + cfg.delayMs.toUInt32 := by
  cases e with
  | recv frame randDelay =>
    left
    simp only [brokerStep] at hd
    split at hd
    · exact stamped_same lib hd rfl rfl rfl
    · exact hd
  | main now =>
    rcases stamped_main lib cfg strip s now hd plain with old | ⟨h, pc, rand, msg, stamp⟩
    · exact Or.inl old
    · exact Or.inr ⟨now, h, rfl, pc, rand, msg, stamp⟩
  | worker now =>
    left
    simp only [brokerStep] at hd
    split at hd
    · exact stamped_worker lib s now hd
    · exact hd

/-- The run lemma: behind every stamp of a delay there is a decision. -/
theorem stamped_run {start : Broker σ} (fresh : start.stamped lib = []) (xs : List Event)
    {d : DelayedMsg} (hd : d ∈ (after (brokerStep lib cfg strip) start xs).stamped lib)
    (plain : d.hdx = false) :
    DelayedAt lib cfg strip start xs d := by
  induction xs using List.reverseRecOn with
  | nil =>
    rw [after_nil, fresh] at hd
    cases hd
  | append_singleton xs e ih =>
    rw [after_snoc] at hd
    rcases stamped_step lib cfg strip _ e hd plain with old | ⟨t, h, rfl, pc, rand, msg, stamp⟩
    · obtain ⟨before, t, h, earlier, decided⟩ := ih old
      exact ⟨before, t, h, earlier.trans (List.prefix_append xs [e]), decided⟩
    · exact ⟨xs, t, h, List.prefix_refl _, pc, rand, msg, stamp⟩

/-- In every order of the threads' steps, a frame that the worker sends and no half-duplex node
sent was delayed by a decision on it, and the delay is over. -/
theorem no_frame_early (rule : Rule.CiDropRule) (mtu overhead : UInt16) (logs : Bool)
    (junk : CspPacket) {xs : List Event} {now : UInt32} {d : DelayedMsg}
    (sends : workerSends cfg (after (brokerStep lib cfg strip)
      (brokerStart lib rule mtu overhead logs junk) xs) now = some d) (plain : d.hdx = false) :
    ∃ before t h, before ++ [.main t] <+: xs ∧
      (after (brokerStep lib cfg strip) (brokerStart lib rule mtu overhead logs junk)
        before).mainPc = .decide h ∧
      d.msg = h.msg ∧ t + cfg.delayMs.toUInt32 < now ∧
      (t.toNat + cfg.delayMs.toUInt32.toNat < 4294967296 →
        t.toNat + cfg.delayMs.toUInt32.toNat < now.toNat) := by
  obtain ⟨s, hs⟩ : ∃ s, s = after (brokerStep lib cfg strip)
    (brokerStart lib rule mtu overhead logs junk) xs := ⟨_, rfl⟩
  rw [← hs] at sends
  have held : d ∈ s.stamped lib ∧ d.timestampTx < now := by
    rw [workerSends] at sends
    cases pc : s.workerPc with
    | holding i count d' =>
      simp only [pc] at sends
      split at sends
      case isTrue due =>
        cases sends
        refine ⟨?_, due.2⟩
        simp [Broker.stamped, pc, WorkerPc.stamped]
      case isFalse => cases sends
    | front | scan | markTx | clearPowerup =>
      simp only [pc] at sends
      cases sends
  obtain ⟨hd, due⟩ := held
  rw [hs] at hd
  have fresh : (brokerStart lib rule mtu overhead logs junk).stamped lib = [] := by
    simp [brokerStart, Broker.stamped, WorkerPc.stamped, MainPc.stamped, lib.create_empty]
  obtain ⟨before, t, h, earlier, pc, _, msg, stamp⟩ := stamped_run lib cfg strip fresh xs hd plain
  rw [stamp] at due
  refine ⟨before, t, h, earlier, pc, msg, due, fun small => ?_⟩
  rw [UInt32.lt_iff_toNat_lt, UInt32.toNat_add] at due
  omega

end

/-- Every frame delayed by five milliseconds. -/
def delayFive : Settings := { delayAll with delayMs := 5 }

theorem frame_of_five_not_early : ∃ before t h,
    before ++ [.main t] <+: delays bulkFrame ++ [.worker 5, .worker 5] ∧
      (after (brokerStep listQueue delayFive cspId2Strip) legacyStart before).mainPc = .decide h ∧
      t + 5 < 6 := by
  obtain ⟨before, t, h, earlier, pc, _, late, _⟩ := @no_frame_early _ listQueue delayFive
    cspId2Strip (proxyRule 1 (-1) false 0) 200 4 false blankPacket
    (delays bulkFrame ++ [.worker 5, .worker 5]) 6 ⟨⟨0, bulkFrame.bytes⟩, 5, false⟩
    (by decide +kernel) rfl
  exact ⟨before, t, h, earlier, pc, late⟩

/-- The first `n` readings of the clock. -/
def readings (t : ℕ → UInt32) (n : ℕ) : List UInt32 := (List.range n).map t

theorem readings_add (t : ℕ → UInt32) (m n : ℕ) :
    readings t (m + n) = readings t m ++ readings (fun k => t (m + k)) n := by
  simp [readings, List.range_add, Function.comp_def]

def due (now : UInt32) (d : DelayedMsg) : Bool := d.timestampTx < now

/-- What was due stays due. -/
theorem due_of_le {now later : UInt32} (le : now ≤ later) {d : DelayedMsg}
    (isDue : due now d = true) : due later d = true :=
  decide_eq_true (UInt32.lt_of_lt_of_le (of_decide_eq_true isDue) le)

/-- What the worker alone leaves as it is. -/
structure OnlyWorker {σ : Type} (s s' : Broker σ) : Prop where
  loop : s'.loop = s.loop
  mainPc : s'.mainPc = s.mainPc
  received : s'.received = s.received
  discarded : s'.discarded = s.discarded
  delayDrops : s'.gDelayDrops = s.gDelayDrops

section

variable {σ : Type} (lib : CspQueue σ DelayedMsg delayQueueLength)

theorem OnlyWorker.refl (s : Broker σ) : OnlyWorker s s := ⟨rfl, rfl, rfl, rfl, rfl⟩

theorem OnlyWorker.trans {s s' s'' : Broker σ} (first : OnlyWorker s s')
    (second : OnlyWorker s' s'') : OnlyWorker s s'' :=
  ⟨second.loop.trans first.loop, second.mainPc.trans first.mainPc,
    second.received.trans first.received, second.discarded.trans first.discarded,
    second.delayDrops.trans first.delayDrops⟩

/-- The worker's steps at these readings. -/
def Reaches (t : ℕ → UInt32) (n : ℕ) (s s' : Broker σ) : Prop :=
  s' = after (workerStep lib) s (readings t n)

theorem Reaches.trans {t : ℕ → UInt32} {m n : ℕ} {s s' s'' : Broker σ}
    (first : Reaches lib t m s s') (second : Reaches lib (fun k => t (m + k)) n s' s'') :
    Reaches lib t (m + n) s s'' := by
  rw [Reaches, readings_add, after_append, ← first]
  exact second

/-- What a pass over the frames `rest` comes to, behind the frames `done`: none of them was due
when it was looked at, or the first that was is sent. -/
inductive Passed (t : ℕ → UInt32) (n : ℕ) (rest done : List DelayedMsg) (s s' : Broker σ) : Prop
  | waits (items : lib.items s'.queue = done ++ rest) (sent : s'.sent = s.sent)
      (notDue : ∀ d ∈ rest, ∃ k < n, due (t k) d = false)
  | sends (early : List DelayedMsg) (d : DelayedMsg) (later : List DelayedMsg)
      (among : rest = early ++ d :: later)
      (items : lib.items s'.queue = later ++ done ++ early) (sent : s'.sent = s.sent ++ [d.msg])
      (wasDue : ∃ k < n, due (t k) d = true) (notDue : ∀ e ∈ early, ∃ k < n, due (t k) e = false)

/-- A reading of the rest of a run is one of the whole run. -/
theorem reading_later {t : ℕ → UInt32} {m n : ℕ} {d : DelayedMsg} {b : Bool}
    (read : ∃ k < n, due (t (m + k)) d = b) : ∃ k < m + n, due (t k) d = b := by
  obtain ⟨k, lt, eq⟩ := read
  exact ⟨m + k, by omega, eq⟩

theorem reading_earlier {t : ℕ → UInt32} {m n : ℕ} {d : DelayedMsg} {b : Bool}
    (read : ∃ k < m, due (t k) d = b) : ∃ k < m + n, due (t k) d = b := by
  obtain ⟨k, lt, eq⟩ := read
  exact ⟨k, by omega, eq⟩

/-- The worker has sent the frames `out` and is back at the front: the others were not due when it
looked at them last. What was due at a time not after the readings left in the order of the queue,
and if the clock stood still the others are rotated. -/
structure Drained (t : ℕ → UInt32) (n : ℕ) (s s' : Broker σ) (out : List DelayedMsg) : Prop where
  only : OnlyWorker s s'
  front : s'.workerPc = .front
  sent : s'.sent = s.sent ++ out.map DelayedMsg.msg
  once : (out ++ lib.items s'.queue).Perm (lib.items s.queue)
  wasDue : ∀ d ∈ out, ∃ k < n, due (t k) d = true
  notDue : ∀ d ∈ lib.items s'.queue, ∃ k < n, due (t k) d = false
  inOrder : ∀ now, (∀ k < n, now ≤ t k) →
    out.filter (due now) = (lib.items s.queue).filter (due now)
  rotated : ∀ now, (∀ k < n, t k = now) →
    (lib.items s'.queue).IsRotated ((lib.items s.queue).filter fun d => !due now d)

/-- What was not due at some reading was not due before. -/
theorem filter_notDue {t : ℕ → UInt32} {n : ℕ} {now : UInt32} (later : ∀ k < n, now ≤ t k)
    {ds : List DelayedMsg} (notDue : ∀ d ∈ ds, ∃ k < n, due (t k) d = false) :
    ds.filter (due now) = [] ∧ ds.filter (fun d => !due now d) = ds := by
  have none : ∀ d ∈ ds, due now d = false := by
    intro d hd
    obtain ⟨k, lt, early⟩ := notDue d hd
    by_contra isDue
    rw [due_of_le (later k lt) (by simpa using isDue)] at early
    cases early
  constructor
  · exact List.filter_eq_nil_iff.mpr fun d hd => by rw [none d hd]; exact Bool.false_ne_true
  · exact List.filter_eq_self.mpr fun d hd => by rw [none d hd]; rfl

/-- The frame that a pass sends comes before those of the passes that follow. -/
theorem Drained.cons {t : ℕ → UInt32} {m n : ℕ} {s s₁ s' : Broker σ} {out : List DelayedMsg}
    {early : List DelayedMsg} {d : DelayedMsg} {later : List DelayedMsg} (only : OnlyWorker s s₁)
    (queue : lib.items s.queue = early ++ d :: later)
    (items : lib.items s₁.queue = later ++ early) (sent : s₁.sent = s.sent ++ [d.msg])
    (wasDue : ∃ k < m, due (t k) d = true) (notDue : ∀ e ∈ early, ∃ k < m, due (t k) e = false)
    (h : Drained lib (fun k => t (m + k)) n s₁ s' out) :
    Drained lib t (m + n) s s' (d :: out) where
  only := only.trans h.only
  front := h.front
  sent := by rw [h.sent, sent, List.map_cons, List.append_assoc, List.singleton_append]
  once := by
    have rest := h.once
    rw [items] at rest
    rw [queue, List.cons_append]
    exact (rest.cons d).trans ((List.perm_append_comm.cons d).trans List.perm_middle.symm)
  wasDue := List.forall_mem_cons.mpr
    ⟨reading_earlier wasDue, fun e he => reading_later (h.wasDue e he)⟩
  notDue := fun e he => reading_later (h.notDue e he)
  inOrder now after := by
    have rest := h.inOrder now fun k lt => after (m + k) (by omega)
    have none := (filter_notDue (fun k lt => after k (by omega)) notDue).1
    rw [items, List.filter_append, none, List.append_nil] at rest
    rw [queue, List.filter_append, none, List.nil_append, List.filter_cons, List.filter_cons, rest]
  rotated now still := by
    have rest := h.rotated now fun k lt => still (m + k) (by omega)
    have after : ∀ k < m, now ≤ t k := fun k lt => still k (by omega) ▸ UInt32.le_refl _
    have all := (filter_notDue after notDue).2
    obtain ⟨k, lt, isDue⟩ := wasDue
    rw [still k (by omega)] at isDue
    rw [items, List.filter_append, all] at rest
    rw [queue, List.filter_append, all, List.filter_cons_of_neg (by simp [isDue])]
    exact rest.trans List.isRotated_append

end

end CspLinksim.Proxy
