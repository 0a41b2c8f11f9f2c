import Mathlib.Data.UInt
import CspLinksim.Lib.Runs

/-!
# The direction verdict of the monitor (`csp_monitor_apm.c`)

`mon_poller` asks the far ends for their interface counters, one target after the other,
and `mon_print_verdict` compares those of the first target with the counters of the local
interface. A poll is stepped here from the query to the bookkeeping, with other traffic,
reboots and lost packets in between. The verdict copies the records under the lock of the
poller and reads the counters and the baselines after it, while the poller goes on. There
is a first target and a local interface: without either no verdict is printed. Names, the
other columns of a reply and the percentages are left out.
-/

namespace CspLinksim.Poller

open Runs

/-- The records of one `-r` target. -/
structure MonRemote where
  haveBase : Bool
  baseTx : UInt32
  baseRx : UInt32
  tx : UInt32
  rx : UInt32
  samples : UInt32
  misses : UInt32
  reboots : UInt32
  deriving DecidableEq

/-- The counters of the interface at the far end. -/
structure FarEnd where
  tx : UInt32
  rx : UInt32
  deriving DecidableEq

structure Target where
  remote : MonRemote
  far : FarEnd
  deriving DecidableEq

/-- Where `mon_poller` is: target 0 is the first one, target `j + 1` is `others[j]`. -/
inductive PollPc where
  | next (i : Nat)
  | sent (i : Nat)
  | answered (i : Nat) (tx rx : UInt32)
  | received (i : Nat) (tx rx : UInt32)
  deriving DecidableEq

/-- What the verdict is about, counted without wrap: the packets of the local interface, the
polls to the other targets and their replies. -/
structure Traffic where
  tx : Nat
  rx : Nat
  othersSent : Nat
  othersReplied : Nat
  deriving DecidableEq

/-- The monitor, the far ends, and the traffic so far and up to the baseline of the first
target. -/
structure Monitor where
  first : Target
  others : List Target
  localTx : UInt32
  localRx : UInt32
  monLocalBaseTx : UInt32
  monLocalBaseRx : UInt32
  pc : PollPc
  traffic : Traffic
  base : Traffic
  deriving DecidableEq

/-- A poll goes from `poll` to `record`, or to `miss` if its query or its reply is lost. -/
inductive Event where
  | poll
  | arrive
  | receive
  | record
  | miss
  | otherTx
  | otherRx
  | farTx (i : Nat)
  | farRx (i : Nat)
  | reboot (i : Nat)

/-- The counters went backwards, and not by a wrap. -/
def rebooted (r : MonRemote) (tx rx : UInt32) : Bool :=
  r.haveBase ∧ (tx < r.tx ∨ rx < r.rx) ∧ r.tx - tx < 0x80000000 ∧ r.rx - rx < 0x80000000

/-- A reply sets the baseline. -/
def rebases (r : MonRemote) (tx rx : UInt32) : Bool := ¬ r.haveBase ∨ rebooted r tx rx

namespace MonRemote

def reply (r : MonRemote) (tx rx : UInt32) : MonRemote :=
  let reboot := rebooted r tx rx
  let s := { r with samples := r.samples + 1 }
  let s :=
    if rebases r tx rx then
      { s with
        baseTx := tx
        baseRx := rx
        haveBase := true
        reboots := if reboot then s.reboots + 1 else s.reboots }
    else s
  { s with tx := tx, rx := rx }

def timeout (r : MonRemote) : MonRemote :=
  { r with samples := r.samples + 1, misses := r.misses + 1 }

end MonRemote

namespace FarEnd

/-- The query is in the counters of the reply, the reply is not. -/
def answer (f : FarEnd) : FarEnd := ⟨f.tx + 1, f.rx + 1⟩

end FarEnd

namespace Monitor

def atTarget (s : Monitor) (i : Nat) (f : Target → Target) : Monitor :=
  { s with
    first := if i = 0 then f s.first else s.first
    others := if i = 0 then s.others else s.others.modify (i - 1) f }

def atRemote (s : Monitor) (i : Nat) (f : MonRemote → MonRemote) : Monitor :=
  s.atTarget i fun t => { t with remote := f t.remote }

def atFar (s : Monitor) (i : Nat) (f : FarEnd → FarEnd) : Monitor :=
  s.atTarget i fun t => { t with far := f t.far }

def target (s : Monitor) : Nat → Option Target
  | 0 => some s.first
  | j + 1 => s.others[j]?

/-- The poller goes on to the target behind `i`, or waits for the next round. -/
def advance (s : Monitor) (i : Nat) : Monitor :=
  { s with pc := .next (if i < s.others.length then i + 1 else 0) }

/-- The packets sent since the baseline that are not polls to the other targets. -/
def offered (s : Monitor) : Nat :=
  (s.traffic.tx - s.base.tx) - (s.traffic.othersSent - s.base.othersSent)

/-- The packets received since the baseline that are not replies of the other targets. -/
def delivered (s : Monitor) : Nat :=
  (s.traffic.rx - s.base.rx) - (s.traffic.othersReplied - s.base.othersReplied)

end Monitor

def pollStep (s : Monitor) : Event → Monitor
  | .poll =>
    match s.pc with
    | .next i =>
      { s with
        localTx := s.localTx + 1
        pc := .sent i
        traffic := { s.traffic with
          tx := s.traffic.tx + 1
          othersSent := if i = 0 then s.traffic.othersSent else s.traffic.othersSent + 1 } }
    | _ => s
  | .arrive =>
    match s.pc with
    | .sent i =>
      match s.target i with
      | some t => { s.atFar i FarEnd.answer with pc := .answered i t.far.tx (t.far.rx + 1) }
      | none => s
    | _ => s
  | .receive =>
    match s.pc with
    | .answered i tx rx =>
      { s with
        localRx := s.localRx + 1
        pc := .received i tx rx
        traffic := { s.traffic with
          rx := s.traffic.rx + 1
          othersReplied :=
            if i = 0 then s.traffic.othersReplied else s.traffic.othersReplied + 1 } }
    | _ => s
  | .record =>
    match s.pc with
    | .received i tx rx =>
      let s :=
        if i = 0 ∧ rebases s.first.remote tx rx then
          { s with monLocalBaseTx := s.localTx, monLocalBaseRx := s.localRx, base := s.traffic }
        else s
      (s.atRemote i fun r => r.reply tx rx).advance i
    | _ => s
  | .miss =>
    match s.pc with
    | .sent i | .answered i _ _ => (s.atRemote i MonRemote.timeout).advance i
    | _ => s
  | .otherTx =>
    { s with
      localTx := s.localTx + 1
      traffic := { s.traffic with tx := s.traffic.tx + 1 } }
  | .otherRx =>
    { s with
      localRx := s.localRx + 1
      traffic := { s.traffic with rx := s.traffic.rx + 1 } }
  | .farTx i => s.atFar i fun f => { f with tx := f.tx + 1 }
  | .farRx i => s.atFar i fun f => { f with rx := f.rx + 1 }
  | .reboot i => s.atFar i fun _ => ⟨0, 0⟩

/-- The four numbers of the verdict. -/
structure Verdict where
  upOff : UInt32
  upDel : UInt32
  dnOff : UInt32
  dnDel : UInt32
  deriving DecidableEq

def othersQ (others : List Target) : UInt32 := (others.map fun t => t.remote.samples).sum

def othersR (others : List Target) : UInt32 :=
  (others.map fun t => t.remote.samples - t.remote.misses).sum

/-- What happens while the verdict is read: behind the copy of the records, and behind the
counters of the local interface. -/
structure Between where
  beforeCounters : List Event
  beforeBases : List Event

def Between.atCounters (b : Between) (s : Monitor) : Monitor := after pollStep s b.beforeCounters

def Between.atBases (b : Between) (s : Monitor) : Monitor :=
  after pollStep (b.atCounters s) b.beforeBases

/-- `s` is the state in which the records are copied. -/
def monPrintVerdict (s : Monitor) (b : Between) : Option Verdict :=
  let far := s.first.remote
  let ltx := (b.atCounters s).localTx - othersQ s.others
  let lrx := (b.atCounters s).localRx - othersR s.others
  if ¬ far.haveBase then none
  else
    some
      { upOff := ltx - (b.atBases s).monLocalBaseTx
        upDel := far.rx - far.baseRx
        dnOff := far.tx - far.baseTx
        dnDel := lrx - (b.atBases s).monLocalBaseRx }

/-- A target before its first poll. -/
def Target.start (far : FarEnd) : Target where
  remote :=
    { haveBase := false, baseTx := 0, baseRx := 0, tx := 0, rx := 0
      samples := 0, misses := 0, reboots := 0 }
  far := far

/-- The monitor as `csp_monitor start` leaves it, all counters at any value. -/
def pollStart (first : FarEnd) (others : List FarEnd) (localTx localRx : UInt32) : Monitor where
  first := .start first
  others := others.map Target.start
  localTx := localTx
  localRx := localRx
  monLocalBaseTx := localTx
  monLocalBaseRx := localRx
  pc := .next 0
  traffic := ⟨localTx.toNat, localRx.toNat, 0, 0⟩
  base := ⟨localTx.toNat, localRx.toNat, 0, 0⟩

theorem poll_or_idle (s : Monitor) : (∃ i, s.pc = .next i) ∨ pollStep s .poll = s := by
  cases pc : s.pc <;> simp [pollStep, pc]

theorem arrive_or_idle (s : Monitor) : (∃ i, s.pc = .sent i) ∨ pollStep s .arrive = s := by
  cases pc : s.pc <;> simp [pollStep, pc]

theorem receive_or_idle (s : Monitor) :
    (∃ i tx rx, s.pc = .answered i tx rx) ∨ pollStep s .receive = s := by
  cases pc : s.pc <;> simp [pollStep, pc]

theorem record_or_idle (s : Monitor) :
    (∃ i tx rx, s.pc = .received i tx rx) ∨ pollStep s .record = s := by
  cases pc : s.pc <;> simp [pollStep, pc]

/-- Queries to the other targets that are not in their records yet. -/
def PollPc.othersAsked : PollPc → Nat
  | .next _ => 0
  | .sent i | .answered i _ _ | .received i _ _ => if i = 0 then 0 else 1

def PollPc.othersHeard : PollPc → Nat
  | .received i _ _ => if i = 0 then 0 else 1
  | _ => 0

def PollPc.index : PollPc → Nat
  | .next i | .sent i | .answered i _ _ | .received i _ _ => i

/-- The 32-bit counters against the traffic, and the traffic since the baseline. -/
structure Counted (s : Monitor) : Prop where
  index : s.pc.index ≤ s.others.length
  localTx : s.localTx = UInt32.ofNat s.traffic.tx
  localRx : s.localRx = UInt32.ofNat s.traffic.rx
  baseTx : s.first.remote.haveBase → s.monLocalBaseTx = UInt32.ofNat s.base.tx
  baseRx : s.first.remote.haveBase → s.monLocalBaseRx = UInt32.ofNat s.base.rx
  asked : othersQ s.others + UInt32.ofNat s.pc.othersAsked = UInt32.ofNat s.traffic.othersSent
  heard : othersR s.others + UInt32.ofNat s.pc.othersHeard = UInt32.ofNat s.traffic.othersReplied
  sent_le : s.base.othersSent ≤ s.traffic.othersSent
  replied_le : s.base.othersReplied ≤ s.traffic.othersReplied
  own_tx : s.base.tx + (s.traffic.othersSent - s.base.othersSent) ≤ s.traffic.tx
  own_rx : s.base.rx + (s.traffic.othersReplied - s.base.othersReplied) ≤ s.traffic.rx

theorem map_modify_same {β : Type} {g : Target → β} {f : Target → Target}
    (same : ∀ t, g (f t) = g t) (l : List Target) (j : Nat) : (l.modify j f).map g = l.map g := by
  induction l generalizing j with
  | nil => simp
  | cons t l ih =>
    cases j with
    | zero => simp [same]
    | succ j => simp [ih]

/-- A sum after one entry has grown. -/
theorem sum_modify {l : List Target} {g : Target → UInt32} {f : Target → Target} {d : UInt32}
    (grows : ∀ t, g (f t) = g t + d) {j : Nat} (hj : j < l.length) :
    ((l.modify j f).map g).sum = (l.map g).sum + d := by
  induction l generalizing j with
  | nil => simp at hj
  | cons t l ih =>
    cases j with
    | zero =>
      simp only [List.modify_zero_cons, List.map_cons, List.sum_cons, grows]
      grind
    | succ j =>
      simp only [List.length_cons, Nat.add_lt_add_iff_right] at hj
      simp only [List.modify_succ_cons, List.map_cons, List.sum_cons, ih hj]
      grind

section

variable {s : Monitor}

theorem othersQ_far (f : FarEnd → FarEnd) (i : Nat) :
    othersQ (s.atFar i f).others = othersQ s.others ∧
    othersR (s.atFar i f).others = othersR s.others := by
  simp only [Monitor.atFar, Monitor.atTarget, othersQ, othersR]
  split
  · exact ⟨rfl, rfl⟩
  · constructor
    · apply congrArg List.sum
      exact map_modify_same (by simp) s.others (i - 1)
    · apply congrArg List.sum
      exact map_modify_same (by simp) s.others (i - 1)

/-- What happens at a far end is not in the local counters. -/
theorem Counted.far (h : Counted s) (i : Nat) (f : FarEnd → FarEnd) : Counted (s.atFar i f) := by
  obtain ⟨asked, heard⟩ := @othersQ_far s f i
  have first : (s.atFar i f).first.remote = s.first.remote := by
    simp only [Monitor.atFar, Monitor.atTarget]
    split <;> rfl
  have length : (s.atFar i f).others.length = s.others.length := by
    simp only [Monitor.atFar, Monitor.atTarget]
    split <;> simp
  exact ⟨length ▸ h.index, h.localTx, h.localRx, fun base => h.baseTx (first ▸ base),
    fun base => h.baseRx (first ▸ base), asked ▸ h.asked, heard ▸ h.heard, h.sent_le,
    h.replied_le, h.own_tx, h.own_rx⟩

/-- The records of a target after its poll: one more sample, and a miss or a reply. -/
theorem othersQ_remote {f : MonRemote → MonRemote} {d : UInt32}
    (samples : ∀ r, (f r).samples = r.samples + 1)
    (replies : ∀ r, (f r).samples - (f r).misses = r.samples - r.misses + d) {i : Nat}
    (index : i ≤ s.others.length) :
    othersQ (s.atRemote i f).others = othersQ s.others + (if i = 0 then 0 else 1) ∧
    othersR (s.atRemote i f).others = othersR s.others + (if i = 0 then 0 else d) := by
  simp only [Monitor.atRemote, Monitor.atTarget, othersQ, othersR]
  split
  · simp
  · have inside : i - 1 < s.others.length := by omega
    exact ⟨sum_modify (fun t => samples t.remote) inside,
      sum_modify (fun t => replies t.remote) inside⟩

@[simp] theorem reply_samples (r : MonRemote) (tx rx : UInt32) :
    (r.reply tx rx).samples = r.samples + 1 := by
  simp only [MonRemote.reply]
  split <;> rfl

@[simp] theorem reply_misses (r : MonRemote) (tx rx : UInt32) :
    (r.reply tx rx).misses = r.misses := by
  simp only [MonRemote.reply]
  split <;> rfl

@[simp] theorem reply_haveBase (r : MonRemote) (tx rx : UInt32) :
    (r.reply tx rx).haveBase = true := by
  simp only [MonRemote.reply, rebases]
  split
  · rfl
  · simp_all

theorem Counted.poll (h : Counted s) {i : Nat} (pc : s.pc = .next i) :
    Counted (pollStep s .poll) := by
  obtain ⟨index, localTx, localRx, baseTx, baseRx, asked, heard, sent_le, replied_le, own_tx,
    own_rx⟩ := h
  simp only [pc, PollPc.index, PollPc.othersAsked, PollPc.othersHeard] at index asked heard
  simp only [pollStep, pc]
  refine ⟨index, ?_, localRx, baseTx, baseRx, ?_, heard, ?_, replied_le, ?_, own_rx⟩
  · simp [localTx]
  · simp only [PollPc.othersAsked]
    split <;> simp_all
  · simp only
    split <;> omega
  · simp only
    split <;> omega

theorem Counted.arrive (h : Counted s) {i : Nat} (pc : s.pc = .sent i) :
    Counted (pollStep s .arrive) := by
  simp only [pollStep, pc]
  cases found : s.target i with
  | none => exact h
  | some t =>
    obtain ⟨index, localTx, localRx, baseTx, baseRx, asked, heard, sent_le, replied_le, own_tx,
      own_rx⟩ := h.far i FarEnd.answer
    have pc' : (s.atFar i FarEnd.answer).pc = .sent i := pc
    simp only [pc', PollPc.index, PollPc.othersAsked, PollPc.othersHeard] at index asked heard
    exact ⟨index, localTx, localRx, baseTx, baseRx, asked, heard, sent_le, replied_le, own_tx,
      own_rx⟩

theorem Counted.receive (h : Counted s) {i : Nat} {tx rx : UInt32}
    (pc : s.pc = .answered i tx rx) : Counted (pollStep s .receive) := by
  obtain ⟨index, localTx, localRx, baseTx, baseRx, asked, heard, sent_le, replied_le, own_tx,
    own_rx⟩ := h
  simp only [pc, PollPc.index, PollPc.othersAsked, PollPc.othersHeard] at index asked heard
  simp only [pollStep, pc]
  refine ⟨index, localTx, ?_, baseTx, baseRx, asked, ?_, sent_le, ?_, own_tx, ?_⟩
  · simp [localRx]
  · simp only [PollPc.othersHeard]
    split <;> simp_all
  · simp only
    split <;> omega
  · simp only
    split <;> omega

/-- The end of a poll: the records of its target count one more sample. -/
theorem Counted.close (h : Counted s) {i d : Nat} {f : MonRemote → MonRemote}
    (index : s.pc.index = i) (asked : s.pc.othersAsked = if i = 0 then 0 else 1)
    (heard : s.pc.othersHeard = if i = 0 then 0 else d)
    (samples : ∀ r, (f r).samples = r.samples + 1)
    (replies : ∀ r, (f r).samples - (f r).misses = r.samples - r.misses + UInt32.ofNat d)
    (based : i = 0 → (f s.first.remote).haveBase → s.monLocalBaseTx = UInt32.ofNat s.base.tx ∧
      s.monLocalBaseRx = UInt32.ofNat s.base.rx) :
    Counted ((s.atRemote i f).advance i) := by
  have inside : i ≤ s.others.length := index ▸ h.index
  obtain ⟨queries, answers⟩ := othersQ_remote samples replies inside
  have first : (s.atRemote i f).first.remote =
      if i = 0 then f s.first.remote else s.first.remote := by
    simp only [Monitor.atRemote, Monitor.atTarget]
    split <;> rfl
  have length : (s.atRemote i f).others.length = s.others.length := by
    simp only [Monitor.atRemote, Monitor.atTarget]
    split <;> simp
  have based' : (s.atRemote i f).first.remote.haveBase →
      s.monLocalBaseTx = UInt32.ofNat s.base.tx ∧ s.monLocalBaseRx = UInt32.ofNat s.base.rx := by
    rw [first]
    split
    · rename_i first
      exact based first
    · exact fun base => ⟨h.baseTx base, h.baseRx base⟩
  refine ⟨?_, h.localTx, h.localRx, fun base => (based' base).1, fun base => (based' base).2,
    ?_, ?_, h.sent_le, h.replied_le, h.own_tx, h.own_rx⟩
  · simp only [Monitor.advance, PollPc.index, length]
    split <;> omega
  · have before := h.asked
    have same : (s.atRemote i f).traffic = s.traffic := rfl
    simp only [asked] at before
    simp only [Monitor.advance, PollPc.othersAsked, queries, same, ← before]
    split <;> simp
  · have before := h.heard
    have same : (s.atRemote i f).traffic = s.traffic := rfl
    simp only [heard] at before
    simp only [Monitor.advance, PollPc.othersHeard, answers, same, ← before]
    split <;> simp

theorem Counted.record (h : Counted s) {i : Nat} {tx rx : UInt32} (pc : s.pc = .received i tx rx) :
    Counted (pollStep s .record) := by
  have replies : ∀ r : MonRemote, (r.reply tx rx).samples - (r.reply tx rx).misses =
      r.samples - r.misses + UInt32.ofNat 1 := by
    intro r
    simp only [reply_samples, reply_misses, UInt32.ofNat_one]
    grind
  obtain ⟨index, localTx, localRx, baseTx, baseRx, asked, heard, sent_le, replied_le, own_tx,
    own_rx⟩ := h
  simp only [pc] at index asked heard
  simp only [pollStep, pc]
  split
  · have rebased : Counted { s with
        monLocalBaseTx := s.localTx, monLocalBaseRx := s.localRx, base := s.traffic
        pc := .received i tx rx } :=
      ⟨index, localTx, localRx, fun _ => localTx, fun _ => localRx, asked, heard,
        Nat.le_refl _, Nat.le_refl _, by simp, by simp⟩
    exact @Counted.close _ rebased i 1 _ rfl rfl rfl (fun r => reply_samples r tx rx) replies
      fun _ _ => ⟨localTx, localRx⟩
  · rename_i stays
    have unchanged : Counted { s with pc := .received i tx rx } :=
      ⟨index, localTx, localRx, baseTx, baseRx, asked, heard, sent_le, replied_le, own_tx, own_rx⟩
    apply @Counted.close _ unchanged i 1 _ rfl rfl rfl (fun r => reply_samples r tx rx) replies
    intro first _
    have based : s.first.remote.haveBase = true := by
      by_contra none_
      exact stays ⟨first, by simp [rebases, none_]⟩
    exact ⟨baseTx based, baseRx based⟩

theorem Counted.miss (h : Counted s) : Counted (pollStep s .miss) := by
  have replies : ∀ r : MonRemote, r.timeout.samples - r.timeout.misses =
      r.samples - r.misses + UInt32.ofNat 0 := by
    intro r
    have zero : UInt32.ofNat 0 = 0 := rfl
    simp only [MonRemote.timeout, zero]
    grind
  have based : ∀ i, i = 0 → s.first.remote.timeout.haveBase →
      s.monLocalBaseTx = UInt32.ofNat s.base.tx ∧ s.monLocalBaseRx = UInt32.ofNat s.base.rx :=
    fun _ _ base => ⟨h.baseTx base, h.baseRx base⟩
  cases pc : s.pc with
  | next i => simpa only [pollStep, pc] using h
  | sent i =>
    simp only [pollStep, pc]
    exact @Counted.close _ h i 0 _ (by rw [pc]; rfl) (by rw [pc]; rfl)
      (by simp [pc, PollPc.othersHeard]) (fun _ => rfl) replies (based i)
  | answered i tx rx =>
    simp only [pollStep, pc]
    exact @Counted.close _ h i 0 _ (by rw [pc]; rfl) (by rw [pc]; rfl)
      (by simp [pc, PollPc.othersHeard]) (fun _ => rfl) replies (based i)
  | received i tx rx => simpa only [pollStep, pc] using h

theorem Counted.step (h : Counted s) (e : Event) : Counted (pollStep s e) := by
  cases e with
  | poll =>
    rcases poll_or_idle s with ⟨i, pc⟩ | idle
    · exact h.poll pc
    · exact idle.symm ▸ h
  | arrive =>
    rcases arrive_or_idle s with ⟨i, pc⟩ | idle
    · exact h.arrive pc
    · exact idle.symm ▸ h
  | receive =>
    rcases receive_or_idle s with ⟨i, tx, rx, pc⟩ | idle
    · exact h.receive pc
    · exact idle.symm ▸ h
  | record =>
    rcases record_or_idle s with ⟨i, tx, rx, pc⟩ | idle
    · exact h.record pc
    · exact idle.symm ▸ h
  | miss => exact h.miss
  | otherTx =>
    obtain ⟨index, localTx, localRx, baseTx, baseRx, asked, heard, sent_le, replied_le, own_tx,
      own_rx⟩ := h
    exact ⟨index, by simp [pollStep, localTx], localRx, baseTx, baseRx, asked, heard, sent_le,
      replied_le, Nat.le_succ_of_le own_tx, own_rx⟩
  | otherRx =>
    obtain ⟨index, localTx, localRx, baseTx, baseRx, asked, heard, sent_le, replied_le, own_tx,
      own_rx⟩ := h
    exact ⟨index, localTx, by simp [pollStep, localRx], baseTx, baseRx, asked, heard, sent_le,
      replied_le, own_tx, Nat.le_succ_of_le own_rx⟩
  | farTx i => simpa only [pollStep] using h.far i _
  | farRx i => simpa only [pollStep] using h.far i _
  | reboot i => simpa only [pollStep] using h.far i _

end

theorem counted (first : FarEnd) (others : List FarEnd) (localTx localRx : UInt32)
    (events : List Event) :
    Counted (after pollStep (pollStart first others localTx localRx) events) := by
  apply after_invariant Counted (fun s e h => h.step e)
  have none_ : ∀ (g : Target → UInt32), (∀ far, g (.start far) = 0) →
      ((others.map Target.start).map g).sum = 0 := by
    intro g zero
    induction others with
    | nil => rfl
    | cons far others ih =>
      simp only [List.map_cons, List.sum_cons, zero, ih]
      rfl
  refine ⟨Nat.zero_le _, ?_, ?_,
    by simp [pollStart, Target.start], by simp [pollStart, Target.start],
    ?_, ?_, Nat.le_refl _, Nat.le_refl _, by simp [pollStart], by simp [pollStart]⟩
  · simp [pollStart]
  · simp [pollStart]
  · have silent := none_ (fun t => t.remote.samples) fun _ => rfl
    simp only [pollStart, othersQ, PollPc.othersAsked, silent]
    rfl
  · have silent := none_ (fun t => t.remote.samples - t.remote.misses) (by simp [Target.start])
    simp only [pollStart, othersR, PollPc.othersHeard, silent]
    rfl

/-- What only grows while the monitor runs. -/
structure Later (s s' : Monitor) : Prop where
  tx : s.traffic.tx ≤ s'.traffic.tx
  rx : s.traffic.rx ≤ s'.traffic.rx
  baseTx : s.base.tx ≤ s'.base.tx
  baseRx : s.base.rx ≤ s'.base.rx
  haveBase : s.first.remote.haveBase = true → s'.first.remote.haveBase = true

theorem Later.refl (s : Monitor) : Later s s :=
  ⟨Nat.le_refl _, Nat.le_refl _, Nat.le_refl _, Nat.le_refl _, id⟩

theorem Later.trans {s t u : Monitor} (h : Later s t) (h' : Later t u) : Later s u :=
  ⟨Nat.le_trans h.tx h'.tx, Nat.le_trans h.rx h'.rx, Nat.le_trans h.baseTx h'.baseTx,
    Nat.le_trans h.baseRx h'.baseRx, h'.haveBase ∘ h.haveBase⟩

theorem atFar_later (s : Monitor) (i : Nat) (f : FarEnd → FarEnd) : Later s (s.atFar i f) := by
  refine ⟨Nat.le_refl _, Nat.le_refl _, Nat.le_refl _, Nat.le_refl _, ?_⟩
  intro base
  simp only [Monitor.atFar, Monitor.atTarget]
  split <;> exact base

theorem atRemote_later (s : Monitor) (i : Nat) {f : MonRemote → MonRemote}
    (keeps : ∀ r : MonRemote, r.haveBase = true → (f r).haveBase = true) :
    Later s ((s.atRemote i f).advance i) := by
  refine ⟨Nat.le_refl _, Nat.le_refl _, Nat.le_refl _, Nat.le_refl _, ?_⟩
  intro base
  simp only [Monitor.advance, Monitor.atRemote, Monitor.atTarget]
  split
  · exact keeps _ base
  · exact base

theorem pollStep_later {s : Monitor} (h : Counted s) (e : Event) : Later s (pollStep s e) := by
  have ownTx := h.own_tx
  have ownRx := h.own_rx
  cases e with
  | poll =>
    rcases poll_or_idle s with ⟨i, pc⟩ | idle
    · simp only [pollStep, pc]
      exact ⟨Nat.le_succ _, Nat.le_refl _, Nat.le_refl _, Nat.le_refl _, id⟩
    · exact idle.symm ▸ Later.refl s
  | arrive =>
    rcases arrive_or_idle s with ⟨i, pc⟩ | idle
    · simp only [pollStep, pc]
      split
      · exact ⟨Nat.le_refl _, Nat.le_refl _, Nat.le_refl _, Nat.le_refl _,
          (atFar_later s i FarEnd.answer).haveBase⟩
      · exact Later.refl s
    · exact idle.symm ▸ Later.refl s
  | receive =>
    rcases receive_or_idle s with ⟨i, tx, rx, pc⟩ | idle
    · simp only [pollStep, pc]
      exact ⟨Nat.le_refl _, Nat.le_succ _, Nat.le_refl _, Nat.le_refl _, id⟩
    · exact idle.symm ▸ Later.refl s
  | record =>
    rcases record_or_idle s with ⟨i, tx, rx, pc⟩ | idle
    · simp only [pollStep, pc]
      split
      · have rebased : Later s { s with
            monLocalBaseTx := s.localTx, monLocalBaseRx := s.localRx, base := s.traffic
            pc := .received i tx rx } :=
          ⟨Nat.le_refl _, Nat.le_refl _, by simp only; omega, by simp only; omega, id⟩
        exact rebased.trans (atRemote_later _ i fun r _ => reply_haveBase r tx rx)
      · exact atRemote_later s i fun r _ => reply_haveBase r tx rx
    · exact idle.symm ▸ Later.refl s
  | miss =>
    cases pc : s.pc with
    | next i =>
      simp only [pollStep, pc]
      exact Later.refl s
    | sent i =>
      simp only [pollStep, pc]
      exact atRemote_later s i fun _ base => base
    | answered i tx rx =>
      simp only [pollStep, pc]
      exact atRemote_later s i fun _ base => base
    | received i tx rx =>
      simp only [pollStep, pc]
      exact Later.refl s
  | otherTx => exact ⟨Nat.le_succ _, Nat.le_refl _, Nat.le_refl _, Nat.le_refl _, id⟩
  | otherRx => exact ⟨Nat.le_refl _, Nat.le_succ _, Nat.le_refl _, Nat.le_refl _, id⟩
  | farTx i => simpa only [pollStep] using atFar_later s i _
  | farRx i => simpa only [pollStep] using atFar_later s i _
  | reboot i => simpa only [pollStep] using atFar_later s i _

theorem Counted.after {s : Monitor} (h : Counted s) (events : List Event) :
    Counted (after pollStep s events) ∧ Later s (Runs.after pollStep s events) := by
  apply after_invariant (fun t => Counted t ∧ Later s t)
  · rintro t e ⟨counted, later⟩
    exact ⟨counted.step e, later.trans (pollStep_later counted e)⟩
  · exact ⟨h, Later.refl s⟩

/-- The packets sent between the copy of the records and the reading of the counter. -/
def Between.sent (b : Between) (s : Monitor) : Nat :=
  (b.atCounters s).traffic.tx - s.traffic.tx

def Between.received (b : Between) (s : Monitor) : Nat :=
  (b.atCounters s).traffic.rx - s.traffic.rx

/-- How far a reply that was recorded in the meantime moves the baseline. -/
def Between.movedTx (b : Between) (s : Monitor) : Nat := (b.atBases s).base.tx - s.base.tx

def Between.movedRx (b : Between) (s : Monitor) : Nat := (b.atBases s).base.rx - s.base.rx

/-- No poll to another target before the baseline, none under way, nothing while the verdict
is read, or as much of one as of the other; and no wrap since the baseline. -/
structure Aligned (s : Monitor) (b : Between) : Prop where
  asked : (s.base.othersSent + b.movedTx s) % 2 ^ 32 = (s.pc.othersAsked + b.sent s) % 2 ^ 32
  heard : (s.base.othersReplied + b.movedRx s) % 2 ^ 32 =
    (s.pc.othersHeard + b.received s) % 2 ^ 32
  offered : s.offered < 2 ^ 32
  delivered : s.delivered < 2 ^ 32

/-- The two numbers that are taken from the local counters, as of the copy of the records. -/
def LocalExact (s : Monitor) (v : Verdict) : Prop :=
  v.upOff.toNat = s.offered ∧ v.dnDel.toNat = s.delivered

/-- A number that is off by what came before the baseline and what is under way. -/
theorem toNat_shifted_iff (n a b : Nat) :
    (UInt32.ofNat n + UInt32.ofNat a - UInt32.ofNat b).toNat = n ↔
      b % 2 ^ 32 = a % 2 ^ 32 ∧ n < 2 ^ 32 := by
  have whole : (UInt32.ofNat n + UInt32.ofNat a - UInt32.ofNat b).toNat =
      (2 ^ 32 - b % 2 ^ 32 + (n % 2 ^ 32 + a % 2 ^ 32) % 2 ^ 32) % 2 ^ 32 := by
    simp [UInt32.toNat_sub, UInt32.toNat_add]
  rw [whole]
  omega

/-- The number since the baseline, out of the four counts it is taken from. -/
theorem since_base {total base own ownBase : Nat} (own_le : ownBase ≤ own)
    (le : base + (own - ownBase) ≤ total) :
    UInt32.ofNat total - UInt32.ofNat own - UInt32.ofNat base =
      UInt32.ofNat ((total - base) - (own - ownBase)) - UInt32.ofNat ownBase := by
  rw [UInt32.ofNat_sub (by omega), UInt32.ofNat_sub own_le, UInt32.ofNat_sub (by omega)]
  grind

/-- The same when the total has grown by `d`, the base by `e`, and `a` of the own packets are
not subtracted yet. -/
theorem printed_number {total base own ownBase counted since a d e : UInt32}
    (exact_ : total - own - base = since - ownBase) (recorded : counted + a = own) :
    total + d - counted - (base + e) = since + (a + d) - (ownBase + e) := by
  grind

theorem ofNat_grown {m n : Nat} (le : m ≤ n) :
    UInt32.ofNat n = UInt32.ofNat m + UInt32.ofNat (n - m) := by
  rw [← UInt32.ofNat_add]
  congr 1
  omega

section

variable {s : Monitor} {b : Between} {v : Verdict}

theorem monPrintVerdict_some (printed : monPrintVerdict s b = some v) :
    s.first.remote.haveBase = true ∧
    v = { upOff := (b.atCounters s).localTx - othersQ s.others - (b.atBases s).monLocalBaseTx
          upDel := s.first.remote.rx - s.first.remote.baseRx
          dnOff := s.first.remote.tx - s.first.remote.baseTx
          dnDel := (b.atCounters s).localRx - othersR s.others -
            (b.atBases s).monLocalBaseRx } := by
  simp only [monPrintVerdict] at printed
  split at printed
  · cases printed
  · rename_i base
    exact ⟨by simpa using base, (Option.some.inj printed).symm⟩

/-- The local numbers, with what may be wrong with them. -/
theorem Counted.local_numbers (h : Counted s) (printed : monPrintVerdict s b = some v) :
    v.upOff = UInt32.ofNat s.offered + UInt32.ofNat (s.pc.othersAsked + b.sent s) -
      UInt32.ofNat (s.base.othersSent + b.movedTx s) ∧
    v.dnDel = UInt32.ofNat s.delivered + UInt32.ofNat (s.pc.othersHeard + b.received s) -
      UInt32.ofNat (s.base.othersReplied + b.movedRx s) := by
  obtain ⟨base, rfl⟩ := monPrintVerdict_some printed
  obtain ⟨counters, counted⟩ := h.after b.beforeCounters
  obtain ⟨bases, read⟩ := counters.after b.beforeBases
  have later := counted.trans read
  have up := since_base h.sent_le h.own_tx
  have down := since_base h.replied_le h.own_rx
  have localTx : (b.atCounters s).localTx = UInt32.ofNat s.traffic.tx + UInt32.ofNat (b.sent s) :=
    counters.localTx.trans (ofNat_grown counted.tx)
  have localRx : (b.atCounters s).localRx =
      UInt32.ofNat s.traffic.rx + UInt32.ofNat (b.received s) :=
    counters.localRx.trans (ofNat_grown counted.rx)
  have baseTx : (b.atBases s).monLocalBaseTx =
      UInt32.ofNat s.base.tx + UInt32.ofNat (b.movedTx s) :=
    (bases.baseTx (later.haveBase base)).trans (ofNat_grown later.baseTx)
  have baseRx : (b.atBases s).monLocalBaseRx =
      UInt32.ofNat s.base.rx + UInt32.ofNat (b.movedRx s) :=
    (bases.baseRx (later.haveBase base)).trans (ofNat_grown later.baseRx)
  simp only [localTx, localRx, baseTx, baseRx, UInt32.ofNat_add]
  exact ⟨printed_number up h.asked, printed_number down h.heard⟩

theorem Counted.local_exact_iff (h : Counted s) (printed : monPrintVerdict s b = some v) :
    LocalExact s v ↔ Aligned s b := by
  obtain ⟨up, down⟩ := h.local_numbers printed
  have upward := toNat_shifted_iff s.offered (s.pc.othersAsked + b.sent s)
    (s.base.othersSent + b.movedTx s)
  have downward := toNat_shifted_iff s.delivered (s.pc.othersHeard + b.received s)
    (s.base.othersReplied + b.movedRx s)
  rw [LocalExact, up, down, upward, downward]
  constructor
  · rintro ⟨⟨asked, offered⟩, heard, delivered⟩
    exact ⟨asked, heard, offered, delivered⟩
  · rintro ⟨asked, heard, offered, delivered⟩
    exact ⟨⟨asked, offered⟩, heard, delivered⟩

end

/-- Nothing is lost and nothing else is sent. -/
def Event.Clean : Event → Prop
  | .miss | .otherTx | .otherRx | .farTx _ | .farRx _ => False
  | _ => True

/-- Where the poll of the first target is. -/
inductive Leg where
  | idle
  | asked
  | answered (tx rx : UInt32)
  | received (tx rx : UInt32)

def PollPc.leg : PollPc → Leg
  | .sent 0 => .asked
  | .answered 0 tx rx => .answered tx rx
  | .received 0 tx rx => .received tx rx
  | _ => .idle

/-- The counters in the last reply of the first target. -/
def lastReply (r : MonRemote) : Leg → Option (UInt32 × UInt32)
  | .answered tx rx | .received tx rx => some (tx, rx)
  | _ => if r.haveBase then some (r.tx, r.rx) else none

/-- If the far end reboots behind the reply `last`, its next one goes backwards. -/
def showsReboot (last : UInt32 × UInt32) : Bool :=
  (0 < last.1 ∨ 1 < last.2) ∧ last.1 < 0x80000000 ∧ last.2 - 1 < 0x80000000

/-- Reboots of the first target do not escape the poller. -/
def Visible (s : Monitor) : Event → Prop
  | .reboot 0 => ∀ last ∈ lastReply s.first.remote s.pc.leg, showsReboot last
  | _ => True

def Leg.askedCount : Leg → Nat
  | .idle => 0
  | _ => 1

def Leg.heardCount : Leg → Nat
  | .received _ _ => 1
  | _ => 0

/-- What holds then of the records of the first target, its far end and the two truths. -/
structure Clear (r : MonRemote) (f : FarEnd) (leg : Leg) (offered delivered : Nat) : Prop where
  far : ∀ last ∈ lastReply r leg, f = ⟨last.1 + 1, last.2⟩ ∨ (f = ⟨0, 0⟩ ∧ showsReboot last)
  reply : ∀ tx rx, leg = .answered tx rx ∨ leg = .received tx rx → r.haveBase →
    (tx, rx) = (r.tx + 1, r.rx + 1) ∨ ((tx, rx) = (0, 1) ∧ showsReboot (r.tx, r.rx))
  counts : r.haveBase → ∃ k, r.rx - r.baseRx = UInt32.ofNat k ∧ r.tx - r.baseTx = UInt32.ofNat k ∧
    offered = k + leg.askedCount ∧ delivered = k + leg.heardCount

theorem rebooted_shows {r : MonRemote} (base : r.haveBase = true)
    (shows : showsReboot (r.tx, r.rx) = true) : rebooted r 0 1 = true := by
  simpa [rebooted, showsReboot, base] using shows

section

variable {r : MonRemote} {f : FarEnd} {offered delivered : Nat} {tx rx : UInt32}

theorem Clear.ask (h : Clear r f .idle offered delivered) :
    Clear r f .asked (offered + 1) delivered where
  far := h.far
  reply := by simp
  counts := by
    intro base
    obtain ⟨k, up, down, sent, heard⟩ := h.counts base
    exact ⟨k, up, down, congrArg (· + 1) sent, heard⟩

theorem Clear.answer (h : Clear r f .asked offered delivered) :
    Clear r f.answer (.answered f.tx (f.rx + 1)) offered delivered where
  far := by simp [lastReply, FarEnd.answer]
  reply := by
    rintro tx rx (same | same) base
    · cases same
      have last := h.far (r.tx, r.rx) (by simp [lastReply, base])
      rcases last with rfl | ⟨rfl, shows⟩
      · exact .inl rfl
      · exact .inr ⟨rfl, shows⟩
    · cases same
  counts := h.counts

theorem Clear.receive (h : Clear r f (.answered tx rx) offered delivered) :
    Clear r f (.received tx rx) offered (delivered + 1) where
  far := h.far
  reply := by
    rintro tx' rx' (same | same) base
    · cases same
    · cases same
      exact h.reply tx rx (.inl rfl) base
  counts := by
    intro base
    obtain ⟨k, up, down, sent, heard⟩ := h.counts base
    exact ⟨k, up, down, sent, congrArg (· + 1) heard⟩

theorem Clear.reboot {leg : Leg} (h : Clear r f leg offered delivered)
    (visible : ∀ last ∈ lastReply r leg, showsReboot last) :
    Clear r ⟨0, 0⟩ leg offered delivered where
  far := fun last hl => .inr ⟨rfl, visible last hl⟩
  reply := h.reply
  counts := h.counts

theorem reply_rebased (set : rebases r tx rx = true) :
    (r.reply tx rx).tx = tx ∧ (r.reply tx rx).rx = rx ∧
    (r.reply tx rx).baseTx = tx ∧ (r.reply tx rx).baseRx = rx := by
  simp [MonRemote.reply, set]

theorem reply_kept (set : ¬ rebases r tx rx = true) :
    (r.reply tx rx).tx = tx ∧ (r.reply tx rx).rx = rx ∧
    (r.reply tx rx).baseTx = r.baseTx ∧ (r.reply tx rx).baseRx = r.baseRx := by
  simp [MonRemote.reply, set]

/-- The reply is recorded: it sets the baseline, or it is one more. -/
theorem Clear.record (h : Clear r f (.received tx rx) offered delivered) :
    Clear (r.reply tx rx) f .idle (if rebases r tx rx then 0 else offered)
      (if rebases r tx rx then 0 else delivered) := by
  by_cases set : rebases r tx rx = true
  · obtain ⟨hTx, hRx, hBaseTx, hBaseRx⟩ := reply_rebased set
    refine ⟨?_, by simp, ?_⟩
    · simpa only [lastReply, reply_haveBase, if_true, hTx, hRx] using h.far
    · intro _
      refine ⟨0, ?_, ?_, ?_, ?_⟩
      · simp [hRx, hBaseRx]
      · simp [hTx, hBaseTx]
      · simp [set, Leg.askedCount]
      · simp [set, Leg.heardCount]
  · obtain ⟨hTx, hRx, hBaseTx, hBaseRx⟩ := reply_kept set
    obtain ⟨base, same⟩ : r.haveBase = true ∧ rebooted r tx rx = false := by
      simpa [rebases] using set
    refine ⟨?_, by simp, ?_⟩
    · simpa only [lastReply, reply_haveBase, if_true, hTx, hRx] using h.far
    · intro _
      obtain ⟨k, up, down, sent, heard⟩ := h.counts base
      rcases h.reply tx rx (.inr rfl) base with next | ⟨fresh, shows⟩
      · cases next
        refine ⟨k + 1, ?_, ?_, ?_, ?_⟩
        · rw [hRx, hBaseRx, UInt32.ofNat_add, ← up, UInt32.ofNat_one]
          grind
        · rw [hTx, hBaseTx, UInt32.ofNat_add, ← down, UInt32.ofNat_one]
          grind
        · simp [set, sent, Leg.askedCount]
        · simp [set, heard, Leg.heardCount]
      · cases fresh
        simp [rebooted_shows base shows] at same

end

/-- The invariant at the monitor's own state. -/
def ClearAt (s : Monitor) : Prop :=
  Clear s.first.remote s.first.far s.pc.leg s.offered s.delivered

section

variable {s : Monitor}

theorem ClearAt.poll (counted : Counted s) (h : ClearAt s) {i : Nat} (pc : s.pc = .next i) :
    ClearAt (pollStep s .poll) := by
  have own := counted.own_tx
  have le := counted.sent_le
  simp only [ClearAt, pc, PollPc.leg] at h
  simp only [pollStep, pc]
  cases i with
  | zero =>
    have sent : s.traffic.tx + 1 - s.base.tx - (s.traffic.othersSent - s.base.othersSent) =
        s.offered + 1 := by
      simp only [Monitor.offered]
      omega
    have asked := h.ask
    rw [← sent] at asked
    exact asked
  | succ j =>
    have sent : s.traffic.tx + 1 - s.base.tx - (s.traffic.othersSent + 1 - s.base.othersSent) =
        s.offered := by
      simp only [Monitor.offered]
      omega
    rw [← sent] at h
    exact h

theorem ClearAt.arrive (h : ClearAt s) {i : Nat} (pc : s.pc = .sent i) :
    ClearAt (pollStep s .arrive) := by
  cases i with
  | zero =>
    simp only [ClearAt, pc, PollPc.leg] at h
    simp only [pollStep, pc, Monitor.target]
    exact h.answer
  | succ j =>
    cases found : s.target (j + 1) with
    | none => simpa only [pollStep, pc, found] using h
    | some t =>
      simp only [ClearAt, pc, PollPc.leg] at h
      simp only [pollStep, pc, found]
      exact h

theorem ClearAt.receive (counted : Counted s) (h : ClearAt s) {i : Nat} {tx rx : UInt32}
    (pc : s.pc = .answered i tx rx) : ClearAt (pollStep s .receive) := by
  have own := counted.own_rx
  have le := counted.replied_le
  cases i with
  | zero =>
    simp only [ClearAt, pc, PollPc.leg] at h
    simp only [pollStep, pc]
    have heard : s.traffic.rx + 1 - s.base.rx - (s.traffic.othersReplied - s.base.othersReplied) =
        s.delivered + 1 := by
      simp only [Monitor.delivered]
      omega
    have received := h.receive
    rw [← heard] at received
    exact received
  | succ j =>
    simp only [ClearAt, pc, PollPc.leg] at h
    simp only [pollStep, pc]
    have heard : s.traffic.rx + 1 - s.base.rx -
        (s.traffic.othersReplied + 1 - s.base.othersReplied) = s.delivered := by
      simp only [Monitor.delivered]
      omega
    rw [← heard] at h
    exact h

theorem ClearAt.record (h : ClearAt s) {i : Nat} {tx rx : UInt32} (pc : s.pc = .received i tx rx) :
    ClearAt (pollStep s .record) := by
  cases i with
  | zero =>
    simp only [ClearAt, pc, PollPc.leg] at h
    simp only [pollStep, pc]
    have recorded := h.record
    by_cases set : rebases s.first.remote tx rx = true
    · simpa [set, ClearAt, Monitor.advance, Monitor.atRemote, Monitor.atTarget, Monitor.offered,
        Monitor.delivered, PollPc.leg] using recorded
    · simpa [set, ClearAt, Monitor.advance, Monitor.atRemote, Monitor.atTarget, Monitor.offered,
        Monitor.delivered, PollPc.leg] using recorded
  | succ j =>
    simp only [ClearAt, pc, PollPc.leg] at h
    simp only [pollStep, pc, Nat.succ_ne_zero, false_and, if_false]
    exact h

theorem ClearAt.step (counted : Counted s) (h : ClearAt s) (e : Event)
    (clean : e.Clean) (visible : Visible s e) : ClearAt (pollStep s e) := by
  cases e with
  | poll =>
    rcases poll_or_idle s with ⟨i, pc⟩ | idle
    · exact h.poll counted pc
    · exact idle.symm ▸ h
  | arrive =>
    rcases arrive_or_idle s with ⟨i, pc⟩ | idle
    · exact h.arrive pc
    · exact idle.symm ▸ h
  | receive =>
    rcases receive_or_idle s with ⟨i, tx, rx, pc⟩ | idle
    · exact h.receive counted pc
    · exact idle.symm ▸ h
  | record =>
    rcases record_or_idle s with ⟨i, tx, rx, pc⟩ | idle
    · exact h.record pc
    · exact idle.symm ▸ h
  | miss => exact clean.elim
  | otherTx => exact clean.elim
  | otherRx => exact clean.elim
  | farTx i => exact clean.elim
  | farRx i => exact clean.elim
  | reboot i =>
    cases i with
    | zero => exact Clear.reboot h visible
    | succ j => exact h

end

/-- The four numbers when nothing is lost: each direction is at most one packet apart. -/
def Close (v : Verdict) : Prop :=
  (v.upOff.toNat ≤ v.upDel.toNat + 1 ∧ v.upDel.toNat ≤ v.upOff.toNat + 1) ∧
  (v.dnOff.toNat ≤ v.dnDel.toNat + 1 ∧ v.dnDel.toNat ≤ v.dnOff.toNat + 1)

theorem ClearAt.close {s : Monitor} {b : Between} {v : Verdict} (h : ClearAt s)
    (printed : monPrintVerdict s b = some v) (local_ : LocalExact s v) (aligned : Aligned s b) :
    Close v := by
  obtain ⟨base, hv⟩ := monPrintVerdict_some printed
  obtain ⟨k, up, down, sent, heard⟩ := Clear.counts h base
  obtain ⟨offered, delivered⟩ := local_
  have less : k < UInt32.size := Nat.lt_of_le_of_lt (by omega) aligned.offered
  have asked : s.pc.leg.askedCount ≤ 1 := by
    cases s.pc.leg <;> simp [Leg.askedCount]
  have answered : s.pc.leg.heardCount ≤ 1 := by
    cases s.pc.leg <;> simp [Leg.heardCount]
  have hUp : v.upDel.toNat = k := by
    rw [hv]
    simp only [up]
    exact UInt32.toNat_ofNat_of_lt' less
  have hDown : v.dnOff.toNat = k := by
    rw [hv]
    simp only [down]
    exact UInt32.toNat_ofNat_of_lt' less
  unfold Close
  omega

/-- The verdict counts the traffic of the first target. -/
structure Right (s : Monitor) (events : List Event) (v : Verdict) : Prop where
  local_ : LocalExact s v
  close : (∀ e ∈ events, e.Clean) → Close v

/-- The verdict is right exactly if no other target was polled before the baseline and nothing
came between its reads, or the one makes up for the other. -/
theorem verdict_right_iff (first : FarEnd) (others : List FarEnd) (localTx localRx : UInt32)
    (events : List Event) (b : Between)
    (visible : (∀ e ∈ events, e.Clean) →
      Guarded pollStep Visible (pollStart first others localTx localRx) events)
    {v : Verdict}
    (printed : monPrintVerdict
      (after pollStep (pollStart first others localTx localRx) events) b = some v) :
    Right (after pollStep (pollStart first others localTx localRx) events) events v ↔
      Aligned (after pollStep (pollStart first others localTx localRx) events) b := by
  have iff := (counted first others localTx localRx events).local_exact_iff printed
  refine ⟨fun right => iff.mp right.local_, fun aligned => ⟨iff.mpr aligned, fun clean => ?_⟩⟩
  have both : Counted (after pollStep (pollStart first others localTx localRx) events) ∧
      ClearAt (after pollStep (pollStart first others localTx localRx) events) := by
    apply @guarded_invariant _ _ pollStep (fun s e => e.Clean ∧ Visible s e)
      (fun s => Counted s ∧ ClearAt s)
    · rintro s e ⟨hs, h⟩ ⟨clean, visible⟩
      exact ⟨hs.step e, h.step hs e clean visible⟩
    · exact ⟨counted first others localTx localRx [], by simp [pollStart, Target.start, PollPc.leg,
        lastReply], by simp [pollStart, Target.start], by simp [pollStart, Target.start]⟩
    · intro ys e le
      exact ⟨clean e (le.subset (by simp)), visible clean ys e le⟩
  exact both.2.close printed (iff.mpr aligned) aligned

/-- A poll that is answered. -/
def answered : List Event := [.poll, .arrive, .receive, .record]

/-- A radio on the way to the first target: two rounds in which every poll is answered, and
the next query while the verdict is printed. -/
theorem two_answered_rounds :
    Right (after pollStep (pollStart ⟨7, 9⟩ [⟨0, 0⟩] 100 200)
        (answered ++ answered ++ answered ++ answered))
      (answered ++ answered ++ answered ++ answered) ⟨1, 1, 1, 1⟩ := by
  apply (verdict_right_iff ⟨7, 9⟩ [⟨0, 0⟩] 100 200 (answered ++ answered ++ answered ++ answered)
    ⟨[.farRx 0], [.poll]⟩ ?_ (by decide +kernel)).mpr
  · exact ⟨by decide +kernel, by decide +kernel, by decide +kernel, by decide +kernel⟩
  · intro _ ys e le
    have never : ∀ i, e ≠ .reboot i := by
      rintro i rfl
      have mem := le.subset (List.mem_append_right ys (List.mem_singleton_self _))
      simp [answered] at mem
    cases e with
    | reboot i => exact absurd rfl (never i)
    | _ => trivial

/-- The first poll is lost, and the baseline falls behind one poll of the other target: no packet
is offered since, and 2^32 - 1 are printed. -/
theorem late_baseline_wraps :
    let s := after pollStep (pollStart ⟨7, 9⟩ [⟨0, 0⟩] 100 200)
      ([.poll, .miss] ++ answered ++ answered)
    monPrintVerdict s ⟨[], []⟩ = some ⟨4294967295, 0, 0, 4294967295⟩ ∧ s.offered = 0 ∧
    s.delivered = 0 ∧ ¬ LocalExact s ⟨4294967295, 0, 0, 4294967295⟩ := by
  refine ⟨by decide +kernel, by decide +kernel, by decide +kernel, ?_⟩
  intro exact_
  exact absurd exact_.1 (by decide +kernel)

end CspLinksim.Poller
