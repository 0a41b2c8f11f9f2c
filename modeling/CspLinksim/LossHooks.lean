import Mathlib.Data.Fintype.Card
import CspLinksim.Lib.Hooks
import CspLinksim.Lib.Runs
import CspLinksim.LossApm

/-!
# Hooking and unhooking under traffic (`csp_loss_apm.c`)

A transmission reads a pointer and calls it; in `loss_nexthop` it decides, sleeps for its
airtime, and reads the next pointer only then. Between any two of these steps a command
runs, the other module hooks or unhooks, or another transmission takes a step of its own.
-/

namespace CspLinksim.LossApm

open Runs Hooks Packet Rule Ge DropIface

instance : Fintype Nexthop :=
  ⟨{.driver, .lossNexthop, .otherNexthop}, fun f => by cases f <;> decide⟩

/-- Where a transmission stands: about to call the pointer it has read, behind the decision
of `loss_nexthop`, where a paced frame sleeps, or ended. -/
inductive Stage where
  | calls (p : Option Nexthop)
  | decided (drop : Bool)
  | ended (o : Outcome)
  deriving DecidableEq

/-- A transmission on its way; `pass` counts its passes through the shim, `steps` its steps. -/
structure Flight where
  tx : Transmission
  pass : Nat
  stage : Stage
  steps : Nat

/-- What the interface is handed calls the nexthop installed at that moment. -/
def handOver (w : World) (tx : Transmission) : Flight where
  tx := tx
  pass := 0
  stage := .calls w.nexthop
  steps := 0

def Flight.goes (f : Flight) (stage : Stage) : Flight :=
  { f with stage := stage, steps := f.steps + 1 }

/-- The next step of a transmission. -/
def advance (w : World) (f : Flight) : World × Flight :=
  match f.stage with
  | .ended _ => (w, f)
  | .calls none => (w, f.goes (.ended .nullCall))
  | .calls (some .driver) =>
    (w, f.goes (.ended (.disposed (.targetNexthop f.tx.via f.tx.packet f.tx.fromMe))))
  | .calls (some .otherNexthop) => (w, f.goes (.calls w.otherSaved))
  | .calls (some .lossNexthop) =>
    let (l, drop) := lossDecide w.loss f.tx f.pass
    ({ w with loss := { l with lossSent := l.lossSent + 1 } }, f.goes (.decided drop))
  | .decided true =>
    ({ w with
        loss := { w.loss with lossDropped := w.loss.lossDropped + 1 }
        drop := w.drop + 1 }, f.goes (.ended (.disposed (.bufferFree f.tx.packet))))
  -- the pointer is read here, after the sleep
  | .decided false =>
    (w, { f.goes (.calls w.loss.lossRealNexthop) with pass := f.pass + 1 })

theorem advance_ended {w : World} {f : Flight} {o : Outcome} (h : f.stage = .ended o) :
    advance w f = (w, f) := by
  rw [advance, h]

theorem advance_null {w : World} {f : Flight} (h : f.stage = .calls none) :
    advance w f = (w, f.goes (.ended .nullCall)) := by
  rw [advance, h]

theorem advance_driver {w : World} {f : Flight} (h : f.stage = .calls (some .driver)) :
    advance w f =
      (w, f.goes (.ended (.disposed (.targetNexthop f.tx.via f.tx.packet f.tx.fromMe)))) := by
  rw [advance, h]

theorem advance_other {w : World} {f : Flight} (h : f.stage = .calls (some .otherNexthop)) :
    advance w f = (w, f.goes (.calls w.otherSaved)) := by
  rw [advance, h]

theorem advance_loss {w : World} {f : Flight} (h : f.stage = .calls (some .lossNexthop)) :
    advance w f =
      ({ w with loss := { (lossDecide w.loss f.tx f.pass).1 with
          lossSent := (lossDecide w.loss f.tx f.pass).1.lossSent + 1 } },
        f.goes (.decided (lossDecide w.loss f.tx f.pass).2)) := by
  rw [advance, h]

theorem advance_dropped {w : World} {f : Flight} (h : f.stage = .decided true) :
    advance w f =
      ({ w with
          loss := { w.loss with lossDropped := w.loss.lossDropped + 1 }
          drop := w.drop + 1 }, f.goes (.ended (.disposed (.bufferFree f.tx.packet)))) := by
  rw [advance, h]

theorem advance_kept {w : World} {f : Flight} (h : f.stage = .decided false) :
    advance w f = (w, { f.goes (.calls w.loss.lossRealNexthop) with pass := f.pass + 1 }) := by
  rw [advance, h]

/-- `n` steps of a transmission with nothing between them. -/
def drain : Nat → World → Flight → World × Flight
  | 0, w, f => (w, f)
  | n + 1, w, f => drain n (advance w f).1 (advance w f).2

/-- The interface, and the transmissions it was handed, in order. -/
structure Traffic where
  world : World
  flights : List Flight

def Traffic.start : Traffic where
  world := World.start
  flights := []

/-- The other module installs its hook, unless it is installed already. -/
def otherHook (w : World) : World :=
  if w.otherHooked then w
  else { w with nexthop := some .otherNexthop, otherHooked := true, otherSaved := w.nexthop }

/-- It restores what it saved if its own function is still the installed one; a call of that
function that has not run yet finds the saved pointer where it was. -/
def otherRestore (w : World) : World :=
  if w.otherHooked ∧ w.nexthop = some .otherNexthop then
    { w with nexthop := w.otherSaved, otherHooked := false }
  else w

/-- A command, the other module, a new transmission, or a step of one that is on its way. -/
inductive Action where
  | start (args : StartArgs)
  | stop
  | hook
  | restore
  | transmit (tx : Transmission)
  | advance (i : Nat)

def step (fl : ℚ → ℚ) (s : Traffic) : Action → Traffic
  | .start args => { s with world := (cspLossStart fl s.world args).1 }
  | .stop => { s with world := cspLossStop s.world }
  | .hook => { s with world := otherHook s.world }
  | .restore => { s with world := otherRestore s.world }
  | .transmit tx => { s with flights := s.flights ++ [handOver s.world tx] }
  | .advance i =>
    match s.flights[i]? with
    | none => s
    | some f => ⟨(LossApm.advance s.world f).1, s.flights.set i (LossApm.advance s.world f).2⟩

/-- A transmission that nothing interrupts makes the calls of `transmit`. -/
theorem drain_callNexthop {tx : Transmission} {n pass : Nat} {w w' : World}
    {p : Option Nexthop} {o : Outcome} (h : callNexthop tx n pass w p = some (w', o))
    (steps : Nat) :
    ∃ k pass' steps', drain k w ⟨tx, pass, .calls p, steps⟩ =
      (w', ⟨tx, pass', .ended o, steps'⟩) := by
  induction n generalizing pass w p steps with
  | zero =>
    cases p with
    | none =>
      cases h
      exact ⟨1, _, _, rfl⟩
    | some f => cases h
  | succ n ih =>
    cases p with
    | none =>
      cases h
      exact ⟨1, _, _, rfl⟩
    | some f =>
      cases f with
      | driver =>
        cases h
        exact ⟨1, _, _, rfl⟩
      | otherNexthop =>
        obtain ⟨k, pass', steps', run⟩ := @ih pass w w.otherSaved h (steps + 1)
        exact ⟨k + 1, pass', steps', run⟩
      | lossNexthop =>
        rw [callNexthop_loss] at h
        cases hdrop : (lossDecide w.loss tx pass).2 with
        | true =>
          rw [hdrop, if_pos rfl] at h
          cases h
          exact ⟨2, pass, steps + 2, by simp only [drain, advance, Flight.goes, hdrop]⟩
        | false =>
          rw [hdrop, if_neg Bool.false_ne_true] at h
          obtain ⟨k, pass', steps', run⟩ := ih h (steps + 2)
          refine ⟨k + 2, pass', steps', ?_⟩
          simp only [drain, advance, Flight.goes, hdrop]
          exact run

theorem drain_transmit {w w' : World} {tx : Transmission} {o : Outcome}
    (h : transmit w tx = some (w', o)) :
    ∃ k pass steps, drain k w (handOver w tx) = (w', ⟨tx, pass, .ended o, steps⟩) :=
  drain_callNexthop h 0

/-- The pointer a function calls. -/
def savedPointer (w : World) : Nexthop → Option Nexthop
  | .driver => none
  | .lossNexthop => w.loss.lossRealNexthop
  | .otherNexthop => w.otherSaved

/-- From the pointer `p` the hooks `fs` are passed, and then the driver. -/
structure Leads (w : World) (p : Option Nexthop) (fs : List Nexthop) : Prop where
  linked : Linked (savedPointer w) p fs .driver
  nodup : (.driver :: fs).Nodup

/-- From the interface down, `fs` are the installed hooks. -/
structure Stacked (w : World) (fs : List Nexthop) : Prop where
  leads : Leads w w.nexthop fs
  active : .lossNexthop ∈ fs ↔ w.loss.active = true
  hooked : .otherNexthop ∈ fs ↔ w.otherHooked = true

/-- A module that is not active holds nothing back from before. -/
structure Idle (l : Loss) : Prop where
  noNexthop : l.lossRealNexthop = none
  noLoss : l.lossProb = 0
  noLog : l.lossLog = none

structure Inv (w : World) : Prop where
  stacked : ∃ fs, Stacked w fs
  idle : w.loss.active = false → Idle w.loss

theorem Leads.noDriver {w : World} {p : Option Nexthop} {fs : List Nexthop}
    (h : Leads w p fs) : .driver ∉ fs :=
  (List.nodup_cons.mp h.nodup).1

theorem Leads.congr {w w' : World} {p : Option Nexthop} {fs : List Nexthop} (h : Leads w p fs)
    (same : ∀ f ∈ fs, savedPointer w' f = savedPointer w f) : Leads w' p fs :=
  ⟨h.linked.congr same, h.nodup⟩

theorem Leads.tail {w : World} {p : Option Nexthop} {f : Nexthop} {fs : List Nexthop}
    (h : Leads w p (f :: fs)) : Leads w (savedPointer w f) fs := by
  have noDriver := h.noDriver
  have hooks := (List.nodup_cons.mp h.nodup).2
  exact ⟨h.linked.2, List.nodup_cons.mpr ⟨fun m => noDriver (List.mem_cons_of_mem f m),
    (List.nodup_cons.mp hooks).2⟩⟩

/-- The hooks below one of the chain. -/
theorem Leads.below {w : World} {p : Option Nexthop} {fs : List Nexthop} {f : Nexthop}
    (h : Leads w p fs) (mem : f ∈ fs) :
    ∃ rest, Leads w (savedPointer w f) rest ∧ f ∉ rest ∧ ∀ g ∈ rest, g ∈ fs := by
  obtain ⟨above, rest, rfl, linked⟩ := h.linked.below mem
  have noDriver := h.noDriver
  have hooks := (List.nodup_cons.mp h.nodup).2
  have tail := List.nodup_cons.mp (List.nodup_append.mp hooks).2.1
  refine ⟨rest, ⟨linked, List.nodup_cons.mpr ⟨?_, tail.2⟩⟩, tail.1, ?_⟩
  · intro mem'
    exact noDriver (List.mem_append_right above (List.mem_cons_of_mem f mem'))
  · intro g hg
    exact List.mem_append_right above (List.mem_cons_of_mem f hg)

/-- A hook at the top of the chain is at the head of the list. -/
theorem Leads.head {w : World} {f : Nexthop} {fs : List Nexthop} (h : Leads w (some f) fs)
    (hook : f ≠ .driver) : ∃ gs, fs = f :: gs := by
  have pointer := h.linked.pointer
  cases fs with
  | nil => exact absurd (Option.some.inj pointer) hook
  | cons g gs =>
    cases pointer
    exact ⟨gs, rfl⟩

/-- Below an active shim there is a chain without it. -/
theorem Stacked.below {w : World} {fs : List Nexthop} (h : Stacked w fs)
    (active : w.loss.active = true) :
    ∃ rest, Leads w w.loss.lossRealNexthop rest ∧ .lossNexthop ∉ rest ∧ ∀ g ∈ rest, g ∈ fs :=
  h.leads.below (h.active.mpr active)

/-- A transmission is in `loss_nexthop`, or has read a pointer that leads there. -/
def ThroughShim (w : World) : Stage → Prop
  | .calls p => p = some .lossNexthop ∨ p = some .otherNexthop ∧ w.otherSaved = some .lossNexthop
  | .decided _ => True
  | .ended _ => False

/-- A transmission that was dropped, or was handed to the driver as it was. -/
def DisposedOnce (tx : Transmission) (o : Outcome) : Prop :=
  o = .disposed (.bufferFree tx.packet) ∨
    o = .disposed (.targetNexthop tx.via tx.packet tx.fromMe)

/-- The steps a transmission can still take. A shim that was put over the other hook can lead
to it, and the other hook, put back over the shim, once more to the shim. -/
def stepsLeft (w : World) : Stage → Nat
  | .calls (some .lossNexthop) =>
    if w.loss.lossRealNexthop = some .otherNexthop then 6 else 3
  | .decided _ => if w.loss.lossRealNexthop = some .otherNexthop then 5 else 2
  | .calls (some .otherNexthop) => 4
  | .calls _ => 1
  | .ended _ => 0

/-- A transmission whose next pointers lead to the driver. -/
structure OnCourse (w : World) (f : Flight) : Prop where
  few : f.steps + stepsLeft w f.stage ≤ 6
  calling : ∀ p, f.stage = .calls p → ∃ fs, Leads w p fs ∧
    (.lossNexthop ∈ fs → w.loss.active = true)
  inside : ∀ drop, f.stage = .decided drop → w.loss.active = true
  result : ∀ o, f.stage = .ended o → DisposedOnce f.tx o

/-- The states of the interface and all that is on its way. -/
structure Sound (s : Traffic) : Prop where
  world : Inv s.world
  flights : ∀ f ∈ s.flights, OnCourse s.world f

theorem stepsLeft_le (w : World) (stage : Stage) : stepsLeft w stage ≤ 6 := by
  unfold stepsLeft
  split <;> (try split) <;> omega

/-- What is on its way looks at the saved pointers only, and at whether the shim is active. -/
theorem OnCourse.congr {w w' : World} {f : Flight} (h : OnCourse w f)
    (pointers : savedPointer w' = savedPointer w) (active : w'.loss.active = w.loss.active) :
    OnCourse w' f := by
  have real : w'.loss.lossRealNexthop = w.loss.lossRealNexthop :=
    congrFun pointers .lossNexthop
  have left : stepsLeft w' f.stage = stepsLeft w f.stage := by
    unfold stepsLeft
    rw [real]
  refine ⟨left ▸ h.few, ?_, ?_, h.result⟩
  · intro p hp
    obtain ⟨fs, leads, shim⟩ := h.calling p hp
    exact ⟨fs, leads.congr fun g _ => congrFun pointers g, fun m => active ▸ shim m⟩
  · intro drop hdrop
    exact active ▸ h.inside drop hdrop

theorem SameHooks.pointers {w w' : World} (h : SameHooks w w') :
    savedPointer w' = savedPointer w := by
  funext f
  cases f with
  | driver => rfl
  | lossNexthop => exact h.real
  | otherNexthop => exact h.otherSaved

theorem SameHooks.inv {w w' : World} (h : SameHooks w w') (inv : Inv w) : Inv w' := by
  obtain ⟨fs, leads, active, hooked⟩ := inv.stacked
  refine ⟨⟨fs, ?_, h.active ▸ active, h.otherHooked ▸ hooked⟩, ?_⟩
  · rw [h.nexthop]
    exact leads.congr fun g _ => congrFun h.pointers g
  · intro inactive
    have idle := inv.idle (h.active ▸ inactive)
    exact ⟨h.real.trans idle.noNexthop, h.prob.trans idle.noLoss, h.log idle.noLog⟩

theorem SameHooks.onCourse {w w' : World} (h : SameHooks w w') {f : Flight}
    (course : OnCourse w f) : OnCourse w' f :=
  course.congr h.pointers h.active

theorem onCourse_handOver {w : World} (inv : Inv w) (tx : Transmission) :
    OnCourse w (handOver w tx) := by
  obtain ⟨fs, stacked⟩ := inv.stacked
  refine ⟨?_, ?_, ?_, ?_⟩
  · have few := stepsLeft_le w (handOver w tx).stage
    simp only [handOver] at few ⊢
    omega
  · intro p hp
    cases hp
    exact ⟨fs, stacked.leads, stacked.active.mp⟩
  · intro drop hdrop
    cases hdrop
  · intro o ho
    cases ho

/-- A step that leads on, with fewer steps left. -/
theorem OnCourse.goes {w : World} {f : Flight} (h : OnCourse w f) (stage : Stage) (pass : Nat)
    (less : stepsLeft w stage < stepsLeft w f.stage)
    (calling : ∀ p, stage = .calls p → ∃ fs, Leads w p fs ∧
      (.lossNexthop ∈ fs → w.loss.active = true))
    (inside : ∀ drop, stage = .decided drop → w.loss.active = true)
    (result : ∀ o, stage = .ended o → DisposedOnce f.tx o) :
    OnCourse w { f.goes stage with pass := pass } := by
  refine ⟨?_, calling, inside, result⟩
  have few := h.few
  simp only [Flight.goes]
  omega

/-- What one step of a transmission leaves. -/
structure Advanced (w : World) (f : Flight) (r : World × Flight) : Prop where
  same : SameHooks w r.1
  course : OnCourse r.1 r.2
  less : stepsLeft w r.2.stage < stepsLeft w f.stage
  tx : r.2.tx = f.tx

/-- Where the other hook leads, it does not come by a second time. -/
theorem Leads.short {w : World} {fs : List Nexthop} (h : Leads w w.otherSaved fs)
    (apart : .otherNexthop ∉ fs) : stepsLeft w (.calls w.otherSaved) < 4 := by
  have pointer := h.linked.pointer
  cases fs with
  | nil =>
    rw [show w.otherSaved = some .driver from pointer]
    simp only [stepsLeft]
    omega
  | cons g gs =>
    rw [show w.otherSaved = some g from pointer]
    cases g with
    | driver => exact absurd List.mem_cons_self h.noDriver
    | otherNexthop => exact absurd List.mem_cons_self apart
    | lossNexthop =>
      have straight : w.loss.lossRealNexthop ≠ some .otherNexthop := by
        intro back
        have next : w.loss.lossRealNexthop = some (gs.headD .driver) := h.linked.2.pointer
        rw [back] at next
        cases gs with
        | nil => cases next
        | cons g' _ =>
          cases next
          exact apart (List.mem_cons_of_mem _ List.mem_cons_self)
      simp only [stepsLeft, if_neg straight]
      omega

/-- Nor does the shim. -/
theorem Leads.shorter {w : World} {fs : List Nexthop} {drop : Bool}
    (h : Leads w w.loss.lossRealNexthop fs) (apart : .lossNexthop ∉ fs) :
    stepsLeft w (.calls w.loss.lossRealNexthop) < stepsLeft w (.decided drop) := by
  have pointer := h.linked.pointer
  cases fs with
  | nil =>
    have real : w.loss.lossRealNexthop = some .driver := pointer
    simp only [stepsLeft, real]
    decide
  | cons g gs =>
    cases g with
    | driver => exact absurd List.mem_cons_self h.noDriver
    | lossNexthop => exact absurd List.mem_cons_self apart
    | otherNexthop =>
      have real : w.loss.lossRealNexthop = some .otherNexthop := pointer
      simp only [stepsLeft, real]
      decide

/-- A call: the head of the chain is called, and the rest of it lies behind. -/
theorem advance_calls {w : World} {f : Flight} (h : OnCourse w f) {p : Option Nexthop}
    (stage : f.stage = .calls p) : Advanced w f (advance w f) := by
  obtain ⟨fs, leads, shim⟩ := h.calling p stage
  have refl : SameHooks w w := ⟨rfl, rfl, rfl, rfl, rfl, rfl, id⟩
  have pointer := leads.linked.pointer
  cases fs with
  | nil =>
    have here : f.stage = .calls (some .driver) := stage.trans (congrArg Stage.calls pointer)
    have less : stepsLeft w (.ended (.disposed (.targetNexthop f.tx.via f.tx.packet
        f.tx.fromMe))) < stepsLeft w f.stage := by
      rw [here]
      exact Nat.zero_lt_one
    rw [advance_driver here]
    refine ⟨refl, h.goes _ f.pass less ?_ ?_ ?_, less, rfl⟩
    · intro p' hp'
      cases hp'
    · intro drop hdrop
      cases hdrop
    · intro o ho
      cases ho
      exact Or.inr rfl
  | cons g gs =>
    have here : f.stage = .calls (some g) := stage.trans (congrArg Stage.calls pointer)
    obtain ⟨rest, below, apart, within⟩ := leads.below List.mem_cons_self
    cases g with
    | driver => exact absurd List.mem_cons_self leads.noDriver
    | otherNexthop =>
      -- the shim below this hook does not lead back to it
      have less : stepsLeft w (.calls w.otherSaved) < stepsLeft w f.stage := by
        rw [here]
        exact below.short apart
      rw [advance_other here]
      refine ⟨refl, h.goes _ f.pass less ?_ ?_ ?_, less, rfl⟩
      · intro p' hp'
        cases hp'
        exact ⟨rest, below, fun m => shim (within _ m)⟩
      · intro drop hdrop
        cases hdrop
      · intro o ho
        cases ho
    | lossNexthop =>
      have decided := lossDecide_same w f.tx f.pass
      have same : SameHooks w { w with loss := { (lossDecide w.loss f.tx f.pass).1 with
          lossSent := (lossDecide w.loss f.tx f.pass).1.lossSent + 1 } } :=
        ⟨rfl, rfl, rfl, decided.active, decided.real, decided.prob, decided.log⟩
      have less : stepsLeft w (.decided (lossDecide w.loss f.tx f.pass).2) <
          stepsLeft w f.stage := by
        rw [here]
        simp only [stepsLeft]
        split <;> omega
      rw [advance_loss here]
      refine ⟨same, same.onCourse (h.goes _ f.pass less ?_ ?_ ?_), less, rfl⟩
      · intro p' hp'
        cases hp'
      · intro drop _
        exact shim List.mem_cons_self
      · intro o ho
        cases ho

/-- Behind the decision: the packet is freed, or the saved pointer is read. -/
theorem advance_decided {w : World} (inv : Inv w) {f : Flight} (h : OnCourse w f) {drop : Bool}
    (stage : f.stage = .decided drop) : Advanced w f (advance w f) := by
  obtain ⟨fs, stacked⟩ := inv.stacked
  have active := h.inside drop stage
  obtain ⟨rest, below, apart, within⟩ := stacked.below active
  cases drop with
  | true =>
    have less : stepsLeft w (.ended (.disposed (.bufferFree f.tx.packet))) <
        stepsLeft w f.stage := by
      rw [stage]
      simp only [stepsLeft]
      split <;> omega
    have same : SameHooks w { w with
        loss := { w.loss with lossDropped := w.loss.lossDropped + 1 }, drop := w.drop + 1 } :=
      ⟨rfl, rfl, rfl, rfl, rfl, rfl, id⟩
    rw [advance_dropped stage]
    refine ⟨same, same.onCourse (h.goes _ f.pass less ?_ ?_ ?_), less, rfl⟩
    · intro p' hp'
      cases hp'
    · intro drop hdrop
      cases hdrop
    · intro o ho
      cases ho
      exact Or.inl rfl
  | false =>
    have less : stepsLeft w (.calls w.loss.lossRealNexthop) < stepsLeft w f.stage := by
      rw [stage]
      exact below.shorter apart
    rw [advance_kept stage]
    refine ⟨⟨rfl, rfl, rfl, rfl, rfl, rfl, id⟩, h.goes _ (f.pass + 1) less ?_ ?_ ?_, less, rfl⟩
    · intro p' hp'
      cases hp'
      exact ⟨rest, below, fun _ => active⟩
    · intro drop hdrop
      cases hdrop
    · intro o ho
      cases ho

/-- The step lemma of a transmission. -/
theorem advance_onCourse {w : World} (inv : Inv w) {f : Flight} (h : OnCourse w f) :
    SameHooks w (advance w f).1 ∧ OnCourse (advance w f).1 (advance w f).2 ∧
      (advance w f).2.tx = f.tx ∧
      stepsLeft w (advance w f).2.stage ≤ stepsLeft w f.stage - 1 := by
  cases hs : f.stage with
  | ended o =>
    rw [advance_ended hs, hs]
    exact ⟨⟨rfl, rfl, rfl, rfl, rfl, rfl, id⟩, h, rfl, Nat.zero_le _⟩
  | calls p =>
    have next := advance_calls h hs
    have less := next.less
    rw [hs] at less
    exact ⟨next.same, next.course, next.tx, by omega⟩
  | decided drop =>
    have next := advance_decided inv h hs
    have less := next.less
    rw [hs] at less
    exact ⟨next.same, next.course, next.tx, by omega⟩

/-- What a transmission needs of the shim: nothing, unless it goes through it. -/
theorem OnCourse.apart {w : World} {f : Flight} (h : OnCourse w f) {p : Option Nexthop}
    (stage : f.stage = .calls p) (clear : ¬ ThroughShim w f.stage) :
    ∃ fs, Leads w p fs ∧ .lossNexthop ∉ fs := by
  obtain ⟨fs, leads, _⟩ := h.calling p stage
  rw [stage] at clear
  refine ⟨fs, leads, ?_⟩
  intro mem
  apply clear
  have pointer := leads.linked.pointer
  cases fs with
  | nil => cases mem
  | cons g gs =>
    cases g with
    | driver => exact absurd List.mem_cons_self leads.noDriver
    | lossNexthop => exact Or.inl pointer
    | otherNexthop =>
      refine Or.inr ⟨pointer, ?_⟩
      have next : w.otherSaved = some (gs.headD .driver) := leads.linked.2.pointer
      cases gs with
      | nil => simp at mem
      | cons g' _ =>
        have distinct := (List.nodup_cons.mp (List.nodup_cons.mp leads.nodup).2).1
        cases g' with
        | driver => exact absurd (List.mem_cons_of_mem _ List.mem_cons_self) leads.noDriver
        | lossNexthop => exact next
        | otherNexthop => exact absurd List.mem_cons_self distinct

/-- What goes through the shim finds it active. -/
theorem OnCourse.shim_active {w : World} {f : Flight} (h : OnCourse w f)
    (through : ThroughShim w f.stage) : w.loss.active = true := by
  cases hs : f.stage with
  | ended o =>
    rw [hs] at through
    cases through
  | decided drop => exact h.inside drop hs
  | calls p =>
    obtain ⟨fs, leads, shim⟩ := h.calling p hs
    rw [hs] at through
    rcases through with rfl | ⟨rfl, saved⟩
    · obtain ⟨gs, rfl⟩ := leads.head (by decide)
      exact shim List.mem_cons_self
    · obtain ⟨gs, rfl⟩ := leads.head (by decide)
      have below : Leads w (some .lossNexthop) gs := saved ▸ leads.tail
      obtain ⟨hs, rfl⟩ := below.head (by decide)
      exact shim (List.mem_cons_of_mem _ List.mem_cons_self)

/-- A change of the shim alone is nothing to a transmission that does not go through it. -/
theorem OnCourse.clear {w w' : World} {f : Flight} (h : OnCourse w f)
    (clear : ¬ ThroughShim w f.stage) (saved : w'.otherSaved = w.otherSaved) : OnCourse w' f := by
  cases hs : f.stage with
  | ended o =>
    refine ⟨?_, ?_, ?_, h.result⟩
    · have few := h.few
      rw [hs] at few ⊢
      exact few
    · intro p hp
      cases hs.symm.trans hp
    · intro drop hdrop
      cases hs.symm.trans hdrop
  | decided drop =>
    rw [hs] at clear
    exact absurd trivial clear
  | calls p =>
    obtain ⟨fs, leads, apart⟩ := h.apart hs clear
    have left : stepsLeft w' (.calls p) = stepsLeft w (.calls p) := by
      have pointer := leads.linked.pointer
      rw [pointer]
      cases fs with
      | nil => rfl
      | cons g gs =>
        cases g with
        | driver => rfl
        | otherNexthop => rfl
        | lossNexthop => exact absurd List.mem_cons_self apart
    refine ⟨?_, ?_, ?_, h.result⟩
    · have few := h.few
      rw [hs] at few ⊢
      rwa [left]
    · intro p' hp'
      cases hs.symm.trans hp'
      refine ⟨fs, leads.congr ?_, fun m => absurd m apart⟩
      intro g hg
      cases g with
      | driver => rfl
      | otherNexthop => exact saved
      | lossNexthop => exact absurd hg apart
    · intro drop hdrop
      cases hs.symm.trans hdrop

theorem start_active {w : World} (active : w.loss.active = true) (args : StartArgs) :
    startRefused w args = some .usage ∨ startRefused w args = some .alreadyActive := by
  rw [startRefused]
  by_cases parses : args.parses = true
  · right
    rw [if_neg (not_not.mpr parses), if_pos active]
  · left
    rw [if_pos parses]

theorem start_refused_same (fl : ℚ → ℚ) {w : World} (inv : Inv w) {args : StartArgs}
    (fails : (cspLossStart fl w args).2 ≠ none) : (cspLossStart fl w args).1 = w := by
  rw [cspLossStart] at fails ⊢
  cases hr : startRefused w args with
  | none => simp [hr] at fails
  | some r =>
    cases r with
    | logNotOpened =>
      have inactive : w.loss.active = false := by
        by_contra active
        rcases start_active (by simpa using active) args with h | h <;> cases hr.symm.trans h
      have hlog := (inv.idle inactive).noLog
      simp only
      rw [← hlog]
    | _ => rfl

/-- The steps that keep the hooks stacked and what is on its way on course. -/
def Allowed (s : Traffic) : Action → Prop
  | .stop => s.world.loss.active = true →
    s.world.nexthop = some .lossNexthop ∧ ∀ f ∈ s.flights, ¬ ThroughShim s.world f.stage
  | _ => True

theorem inactive_of_accepted {w : World} {args : StartArgs}
    (accepted : startRefused w args = none) : w.loss.active = false := by
  by_contra active
  rcases start_active (by simpa using active) args with h | h <;> cases accepted.symm.trans h

theorem inv_cspLossStart (fl : ℚ → ℚ) {w : World} (inv : Inv w) {args : StartArgs}
    (accepted : startRefused w args = none) : Inv (cspLossStart fl w args).1 := by
  have inactive := inactive_of_accepted accepted
  obtain ⟨fs, stacked⟩ := inv.stacked
  have fresh : .lossNexthop ∉ fs := by
    rw [stacked.active, inactive]
    simp
  simp only [cspLossStart, accepted]
  refine ⟨⟨.lossNexthop :: fs, ⟨?_, ?_⟩, ?_, ?_⟩, ?_⟩
  · apply stacked.leads.linked.push
    · rfl
    · intro g hg
      cases g with
      | driver => rfl
      | otherNexthop => rfl
      | lossNexthop => exact absurd hg fresh
  · have hooks := List.nodup_cons.mp stacked.leads.nodup
    simp [fresh, hooks.1, hooks.2]
  · simp
  · simpa using stacked.hooked
  · intro contra
    cases contra

theorem sound_cspLossStart (fl : ℚ → ℚ) {s : Traffic} (sound : Sound s) (args : StartArgs) :
    Sound (step fl s (.start args)) := by
  by_cases fails : (cspLossStart fl s.world args).2 ≠ none
  · simp only [step, start_refused_same fl sound.world fails]
    exact sound
  · cases hr : startRefused s.world args with
    | some r =>
      rw [cspLossStart, hr] at fails
      cases r <;> simp at fails
    | none =>
      refine ⟨inv_cspLossStart fl sound.world hr, ?_⟩
      intro f hf
      have course := sound.flights f hf
      apply course.clear
      · intro through
        have inactive := inactive_of_accepted hr
        rw [course.shim_active through] at inactive
        cases inactive
      · simp only [step, cspLossStart, hr]

theorem inv_otherHook {w : World} (inv : Inv w) : Inv (otherHook w) := by
  rw [otherHook]
  split
  · exact inv
  · rename_i free
    obtain ⟨fs, stacked⟩ := inv.stacked
    have fresh : .otherNexthop ∉ fs := by
      rw [stacked.hooked]
      exact free
    refine ⟨⟨.otherNexthop :: fs, ⟨?_, ?_⟩, ?_, ?_⟩, inv.idle⟩
    · apply stacked.leads.linked.push
      · rfl
      · intro g hg
        cases g with
        | driver => rfl
        | lossNexthop => rfl
        | otherNexthop => exact absurd hg fresh
    · have hooks := List.nodup_cons.mp stacked.leads.nodup
      simp [fresh, hooks.1, hooks.2]
    · simpa using stacked.active
    · simp

/-- A call of the other hook from before it was restored leads through what it saves now. -/
theorem onCourse_otherHook {w : World} (inv : Inv w) {f : Flight} (course : OnCourse w f) :
    OnCourse (otherHook w) f := by
  rw [otherHook]
  split
  · exact course
  · rename_i free
    obtain ⟨installed, stacked⟩ := inv.stacked
    have fresh : .otherNexthop ∉ installed := by
      rw [stacked.hooked]
      exact free
    refine ⟨course.few, ?_, course.inside, course.result⟩
    intro p hp
    obtain ⟨fs, leads, shim⟩ := course.calling p hp
    have keep : .otherNexthop ∉ fs → ∃ gs, Leads { w with
        nexthop := some .otherNexthop, otherHooked := true, otherSaved := w.nexthop } p gs ∧
        (.lossNexthop ∈ gs → w.loss.active = true) := by
      intro apart
      refine ⟨fs, leads.congr ?_, shim⟩
      intro g hg
      cases g with
      | driver => rfl
      | lossNexthop => rfl
      | otherNexthop => exact absurd hg apart
    cases fs with
    | nil => exact keep (by simp)
    | cons g gs =>
      cases g with
      | driver => exact absurd List.mem_cons_self leads.noDriver
      | otherNexthop =>
        have hooks := List.nodup_cons.mp stacked.leads.nodup
        refine ⟨.otherNexthop :: installed, ⟨⟨leads.linked.1, ?_⟩, ?_⟩, ?_⟩
        · apply stacked.leads.linked.congr
          intro g hg
          cases g with
          | driver => rfl
          | lossNexthop => rfl
          | otherNexthop => exact absurd hg fresh
        · simp [fresh, hooks.1, hooks.2]
        · intro mem
          exact stacked.active.mp (by simpa using mem)
      | lossNexthop =>
        -- below an active shim are the installed hooks, and the other one is not among them
        obtain ⟨rest, below, _, within⟩ := stacked.below (shim List.mem_cons_self)
        have same := leads.tail.linked.unique below.linked leads.tail.noDriver below.noDriver
        subst same
        apply keep
        intro mem
        rcases List.mem_cons.mp mem with other | mem
        · cases other
        · exact fresh (within _ mem)

theorem inv_otherRestore {w : World} (inv : Inv w) : Inv (otherRestore w) := by
  rw [otherRestore]
  split
  · rename_i restored
    obtain ⟨fs, stacked⟩ := inv.stacked
    have top := stacked.leads
    rw [restored.2] at top
    obtain ⟨gs, rfl⟩ := top.head (by decide)
    have distinct := (List.nodup_cons.mp (List.nodup_cons.mp top.nodup).2).1
    refine ⟨⟨gs, top.tail.congr fun g _ => rfl, ?_, ?_⟩, inv.idle⟩
    · simpa using stacked.active
    · simpa using distinct
  · exact inv

theorem onCourse_otherRestore {w : World} {f : Flight} (course : OnCourse w f) :
    OnCourse (otherRestore w) f := by
  rw [otherRestore]
  split
  · exact course.congr rfl rfl
  · exact course

theorem cspLossStop_inactive {w : World} (inactive : ¬ w.loss.active = true) :
    cspLossStop w = w := by
  rw [cspLossStop, if_pos inactive]

theorem inv_cspLossStop {w : World} (inv : Inv w) (active : w.loss.active = true)
    (top : w.nexthop = some .lossNexthop) : Inv (cspLossStop w) := by
  obtain ⟨fs, stacked⟩ := inv.stacked
  have leads := stacked.leads
  rw [top] at leads
  obtain ⟨gs, rfl⟩ := leads.head (by decide)
  have distinct := (List.nodup_cons.mp (List.nodup_cons.mp leads.nodup).2).1
  rw [cspLossStop, if_neg (not_not.mpr active)]
  simp only [top, ne_eq, not_true_eq_false, if_false]
  refine ⟨⟨gs, leads.tail.congr ?_, ?_, ?_⟩, fun _ => ⟨rfl, rfl, rfl⟩⟩
  · intro g hg
    cases g with
    | driver => rfl
    | lossNexthop => exact absurd hg distinct
    | otherNexthop => rfl
  · simpa using distinct
  · simpa using stacked.hooked

theorem sound_cspLossStop (fl : ℚ → ℚ) {s : Traffic} (sound : Sound s)
    (allowed : Allowed s .stop) : Sound (step fl s .stop) := by
  by_cases active : s.world.loss.active = true
  · obtain ⟨top, clear⟩ := allowed active
    refine ⟨inv_cspLossStop sound.world active top, ?_⟩
    intro f hf
    apply (sound.flights f hf).clear (clear f hf)
    simp only [step, cspLossStop, if_neg (not_not.mpr active)]
  · simp only [step, cspLossStop_inactive active]
    exact sound

theorem sound_advance (fl : ℚ → ℚ) {s : Traffic} (sound : Sound s) (i : Nat) :
    Sound (step fl s (.advance i)) := by
  rw [step]
  split
  · exact sound
  · rename_i f hf
    obtain ⟨same, course, _, _⟩ :=
      advance_onCourse sound.world (sound.flights f (List.mem_of_getElem? hf))
    refine ⟨same.inv sound.world, ?_⟩
    intro g hg
    rcases List.mem_or_eq_of_mem_set hg with there | rfl
    · exact same.onCourse (sound.flights g there)
    · exact course

theorem sound_step (fl : ℚ → ℚ) (s : Traffic) (a : Action) (sound : Sound s)
    (allowed : Allowed s a) : Sound (step fl s a) := by
  cases a with
  | start args => exact sound_cspLossStart fl sound args
  | stop => exact sound_cspLossStop fl sound allowed
  | hook =>
    exact ⟨inv_otherHook sound.world,
      fun f hf => onCourse_otherHook sound.world (sound.flights f hf)⟩
  | restore =>
    exact ⟨inv_otherRestore sound.world, fun f hf => onCourse_otherRestore (sound.flights f hf)⟩
  | advance i => exact sound_advance fl sound i
  | transmit tx =>
    refine ⟨sound.world, ?_⟩
    intro f hf
    rcases List.mem_append.mp hf with there | new
    · exact sound.flights f there
    · rw [List.mem_singleton.mp new]
      exact onCourse_handOver sound.world tx

/-- A step of a transmission counts one packet or one drop, if any. -/
theorem advance_counters (w : World) (f : Flight) :
    (advance w f).1.loss.lossSent ≤ w.loss.lossSent + 1 ∧
    (advance w f).1.loss.lossDropped ≤ w.loss.lossDropped + 1 := by
  cases hs : f.stage with
  | ended o =>
    rw [advance_ended hs]
    exact ⟨Nat.le_succ _, Nat.le_succ _⟩
  | decided drop =>
    cases drop with
    | true =>
      rw [advance_dropped hs]
      exact ⟨Nat.le_succ _, Nat.le_refl _⟩
    | false =>
      rw [advance_kept hs]
      exact ⟨Nat.le_succ _, Nat.le_succ _⟩
  | calls p =>
    rcases p with _ | _ | _ | _
    · rw [advance_null hs]
      exact ⟨Nat.le_succ _, Nat.le_succ _⟩
    · rw [advance_driver hs]
      exact ⟨Nat.le_succ _, Nat.le_succ _⟩
    · obtain ⟨sent, dropped⟩ := lossDecide_counters w.loss f.tx f.pass
      rw [advance_loss hs]
      exact ⟨by simp only [sent, Nat.le_refl], by simp only [dropped, Nat.le_succ]⟩
    · rw [advance_other hs]
      exact ⟨Nat.le_succ _, Nat.le_succ _⟩

theorem step_counters (fl : ℚ → ℚ) (s : Traffic) (a : Action) :
    (step fl s a).world.loss.lossSent ≤ s.world.loss.lossSent + 1 ∧
    (step fl s a).world.loss.lossDropped ≤ s.world.loss.lossDropped + 1 := by
  have keeps : ∀ l : Loss, l.lossSent ≤ l.lossSent + 1 ∧ l.lossDropped ≤ l.lossDropped + 1 :=
    fun l => ⟨Nat.le_succ _, Nat.le_succ _⟩
  cases a with
  | start args =>
    rw [step, cspLossStart]
    split
    · exact keeps _
    · exact keeps _
    · exact ⟨Nat.zero_le _, Nat.zero_le _⟩
  | stop =>
    rw [step, cspLossStop]
    split <;> exact keeps _
  | hook =>
    rw [step, otherHook]
    split <;> exact keeps _
  | restore =>
    rw [step, otherRestore]
    split <;> exact keeps _
  | transmit tx => exact keeps _
  | advance i =>
    rw [step]
    split
    · exact keeps _
    · exact advance_counters s.world _

/-- The counters do not run ahead of the steps. -/
theorem counters_le (fl : ℚ → ℚ) (actions : List Action) :
    (after (step fl) Traffic.start actions).world.loss.lossSent ≤ actions.length ∧
    (after (step fl) Traffic.start actions).world.loss.lossDropped ≤ actions.length := by
  induction actions using List.reverseRecOn with
  | nil => exact ⟨Nat.le_refl _, Nat.le_refl _⟩
  | append_singleton actions a ih =>
    obtain ⟨sent, dropped⟩ := step_counters fl (after (step fl) Traffic.start actions) a
    rw [after_snoc, List.length_append, List.length_singleton]
    omega

/-- Any packet, sent while `rand()` returns `RAND_MAX`. -/
def probe : Transmission where
  via := 0
  packet := { src := 1, dst := 2, dport := 9, flags := 0, data := [], fits := Nat.zero_le _ }
  fromMe := 1
  nowMs := 0
  rand := fun _ => 1

theorem ThroughShim.stop {w : World} {stage : Stage} (h : ThroughShim w stage) :
    ThroughShim (cspLossStop w) stage := by
  have saved : (cspLossStop w).otherSaved = w.otherSaved := by
    rw [cspLossStop]
    split <;> rfl
  cases stage with
  | calls p =>
    rw [ThroughShim, saved]
    exact h
  | decided drop => trivial
  | ended o => exact h

end CspLinksim.LossApm
