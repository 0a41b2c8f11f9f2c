import Mathlib.Data.UInt
import Mathlib.Data.List.Basic

/-!
# Starting and stopping the monitor (`csp_monitor_start_cmd`, `csp_monitor_stop_cmd`)

A start goes through its checks, takes over the settings, turns the promiscuous mode of
libcsp on, opens the CSV and starts its threads, and it can fail at each of these. What is
around it is an input: the default interface, what the library, `fopen` and
`pthread_create` answer, and the packets cloned meanwhile. The header of the CSV, the
records of a target (all zero after its entry is read) and the texts are left out.
-/

namespace CspLinksim.Start

/-- The promiscuous mode of libcsp, as far as the monitor relies on it. While it is enabled
every packet is cloned into a queue; `clone` is a packet for which there is room, and `enable`
a call that succeeds. -/
structure Promisc (σ π : Type) where
  enabled : σ → Bool
  queue : σ → List π
  enable : σ → σ
  disable : σ → σ
  clone : π → σ → σ
  read : σ → Option π × σ
  enable_on : ∀ p, enabled (enable p) = true
  enable_queue : ∀ p, queue (enable p) = queue p
  disable_off : ∀ p, enabled (disable p) = false
  disable_queue : ∀ p, queue (disable p) = queue p
  clone_enabled : ∀ x p, enabled (clone x p) = enabled p
  clone_on : ∀ x p, enabled p = true → queue (clone x p) = queue p ++ [x]
  clone_off : ∀ x p, enabled p = false → queue (clone x p) = queue p
  read_enabled : ∀ p, enabled (read p).2 = enabled p
  read_first : ∀ p, (read p).1 = (queue p).head?
  read_rest : ∀ p, queue (read p).2 = (queue p).tail

/-- What `csp_promisc_enable` returns. -/
inductive CspErr where
  | none
  | used
  | other
  deriving DecidableEq

inductive Slash where
  | success
  | einval
  | eio
  | enomem
  deriving DecidableEq

/-- A `-r` target. -/
structure MonRemote where
  node : UInt16
  iface : List UInt8
  deriving DecidableEq

/-- The default interface and its counters. -/
structure CspIface where
  id : Nat
  tx : UInt32
  rx : UInt32
  deriving DecidableEq

/-- The options given; `parses` is whether `optparse_parse` accepts them. -/
structure StartArgs where
  parses : Bool
  out : Option (List UInt8)
  dport : Option Int
  window : Option UInt32
  mtu : Option UInt32
  overhead : Option UInt32
  remotes : Option (List UInt8)
  pollsec : Option UInt32
  polltmo : Option UInt32
  deriving DecidableEq

/-- What is around a start, in the order in which it comes up. -/
structure Surroundings (π : Type) where
  dfl : Option CspIface
  promiscRc : CspErr
  cloned : List π
  csvOpens : Bool
  drainerStarts : Bool
  pollerStarts : Bool

/-- The statics of the monitor and the promiscuous mode. `monRemotes` is the first
`mon_n_remotes` entries, and the local interface goes with its baseline. -/
structure Monitor (σ : Type) where
  monRunning : Bool
  monCsv : Option (List UInt8)
  monCsvPath : List UInt8
  monMatchDport : Int
  monWindowMs : UInt32
  monMtu : UInt16
  monDtpOverhead : UInt16
  monRemotes : List MonRemote
  monPollPeriodS : UInt32
  monPollTimeoutMs : UInt32
  monPollRunning : Bool
  monLocalIface : Option CspIface
  promisc : σ
  deriving DecidableEq

variable {σ π : Type}

/-- Packets come in, in this order. -/
def Promisc.cloneAll (lib : Promisc σ π) (xs : List π) (p : σ) : σ :=
  xs.foldl (fun p x => lib.clone x p) p

/-- The value of `strtol` in base 10, which is not bounded here. -/
def digits : List UInt8 → Nat → Nat
  | [], n => n
  | c :: s, n => if 0x30 ≤ c ∧ c ≤ 0x39 then digits s (10 * n + (c.toNat - 0x30)) else n

def isspace (c : UInt8) : Bool := c = 0x20 ∨ (0x09 ≤ c ∧ c ≤ 0x0D)

def strtol (s : List UInt8) : Int :=
  match s.dropWhile isspace with
  | [] => 0
  | c :: rest =>
    if c = 0x2D then -digits rest 0
    else if c = 0x2B then digits rest 0
    else digits (c :: rest) 0

def comma : UInt8 := 0x2C

def colon : UInt8 := 0x3A

/-- The tokens of `strtok_r`, none of which is empty. -/
def tokens (buf : List UInt8) : List (List UInt8) := (buf.splitOn comma).filter (· ≠ [])

def cspCmpRouteIfaceLen : Nat := 11

def monMaxRemotes : Nat := 8

/-- One entry `node:iface`. -/
def target (tok : List UInt8) : Option MonRemote :=
  match tok.idxOf? colon with
  | none => none
  | some i =>
    let node := strtol tok
    if tok.drop (i + 1) = [] ∨ node ≤ 0 ∨ node > 65535 then none
    else some ⟨UInt16.ofNat node.toNat, (tok.drop (i + 1)).take (cspCmpRouteIfaceLen - 1)⟩

/-- The loop over the tokens, and whether it gets to their end. -/
def addTargets : List (List UInt8) → List MonRemote → List MonRemote × Bool
  | [], rs => (rs, true)
  | tok :: toks, rs =>
    match target tok with
    | none => (rs, false)
    | some r => if rs.length ≥ monMaxRemotes then (rs, false) else addTargets toks (rs ++ [r])

namespace StartArgs

/-- The settings that are not given are those of the last start. -/
def pathOr (a : StartArgs) (s : Monitor σ) : List UInt8 :=
  (a.out.map (·.take 255)).getD s.monCsvPath
def dportOr (a : StartArgs) (s : Monitor σ) : Int := a.dport.getD s.monMatchDport
def windowOr (a : StartArgs) (s : Monitor σ) : UInt32 := a.window.getD s.monWindowMs
def mtuOr (a : StartArgs) (s : Monitor σ) : UInt32 := a.mtu.getD s.monMtu.toUInt32
def overheadOr (a : StartArgs) (s : Monitor σ) : UInt32 := a.overhead.getD s.monDtpOverhead.toUInt32

def period (a : StartArgs) : UInt32 := a.pollsec.getD 10

/-- The entries of `-r`, as they fit into the buffer. -/
def entries (remotes : List UInt8) : List (List UInt8) := tokens (remotes.take 255)

end StartArgs

/-- The check of the overhead against the MTU. -/
def overheadFits (a : StartArgs) (s : Monitor σ) : Bool :=
  ¬ (a.overheadOr s < 4 ∨ a.overheadOr s ≥ a.mtuOr s)

/-- The part under `-r`: the state, and whether the start goes on. -/
def readRemotes (s : Monitor σ) (a : StartArgs) (dfl : Option CspIface) : Monitor σ × Bool :=
  let s := { s with monRemotes := [] }
  match a.remotes with
  | none => (s, true)
  | some remotes =>
    if a.period = 0 then (s, false)
    else
      let (rs, ok) := addTargets (StartArgs.entries remotes) []
      let s := { s with monRemotes := rs }
      if ¬ ok then (s, false)
      else
        match dfl with
        | none => ({ s with monLocalIface := none }, false)
        | some i =>
          ({ s with
              monLocalIface := some i
              monPollPeriodS := a.period
              monPollTimeoutMs := a.polltmo.getD 3000 }, true)

/-- The settings that the next start falls back on. -/
def takeOver (s : Monitor σ) (a : StartArgs) : Monitor σ :=
  { s with
    monCsvPath := a.pathOr s
    monMatchDport := a.dportOr s
    monWindowMs := a.windowOr s
    monMtu := (a.mtuOr s).toUInt16
    monDtpOverhead := (a.overheadOr s).toUInt16 }

/-- The checks that come before the promiscuous mode. -/
def prepare (s : Monitor σ) (a : StartArgs) (dfl : Option CspIface) : Monitor σ × Bool :=
  if ¬ a.parses then (s, false)
  else if ¬ overheadFits a s then (s, false)
  else
    match readRemotes s a dfl with
    | (s, false) => (s, false)
    | (s, true) => (takeOver s a, true)

/-- The threads. A poller that does not start is only warned of. -/
def startThreads (lib : Promisc σ π) (s : Monitor σ) (w : Surroundings π) : Monitor σ × Slash :=
  let s := { s with monRunning := true }
  if ¬ w.drainerStarts then
    ({ s with monRunning := false, promisc := lib.disable s.promisc, monCsv := none }, .enomem)
  else if s.monRemotes ≠ [] then
    if w.pollerStarts then ({ s with monPollRunning := true }, .success)
    else ({ s with monPollRunning := false, monRemotes := [] }, .success)
  else (s, .success)

/-- From `csp_promisc_enable` on. The packets that come in before the exit are cloned. -/
def openCapture (lib : Promisc σ π) (s : Monitor σ) (w : Surroundings π) : Monitor σ × Slash :=
  if w.promiscRc = .other then (s, .einval)
  else
    let s := { s with promisc := lib.cloneAll w.cloned (lib.enable s.promisc) }
    if ¬ w.csvOpens then ({ s with monCsv := none }, .eio)
    else startThreads lib { s with monCsv := some s.monCsvPath } w

def cspMonitorStart (lib : Promisc σ π) (s : Monitor σ) (a : StartArgs) (w : Surroundings π) :
    Monitor σ × Slash :=
  if s.monRunning then (s, .success)
  else
    match prepare s a w.dfl with
    | (s, false) => (s, .einval)
    | (s, true) => openCapture lib s w

/-- The loop of `mon_drain_residual` with fuel, and the number of clones freed. -/
def monDrainResidual (lib : Promisc σ π) : Nat → σ → Nat → σ × Nat
  | 0, p, freed => (p, freed)
  | fuel + 1, p, freed =>
    match lib.read p with
    | (some _, p) => monDrainResidual lib fuel p (freed + 1)
    | (none, p) => (p, freed)

def cspMonitorStop (lib : Promisc σ π) (s : Monitor σ) : Monitor σ :=
  if ¬ s.monRunning then s
  else
    let p := lib.disable s.promisc
    { s with
      monPollRunning := false
      monRunning := false
      promisc := (monDrainResidual lib ((lib.queue p).length + 1) p 0).1
      monCsv := none }

namespace Promisc

variable (lib : Promisc σ π)

theorem cloneAll_on (xs : List π) (p : σ) (on : lib.enabled p = true) :
    lib.enabled (lib.cloneAll xs p) = true ∧ lib.queue (lib.cloneAll xs p) = lib.queue p ++ xs := by
  induction xs generalizing p with
  | nil => exact ⟨on, (List.append_nil _).symm⟩
  | cons x xs ih =>
    obtain ⟨still, rest⟩ := ih (lib.clone x p) (by rwa [lib.clone_enabled])
    refine ⟨still, rest.trans ?_⟩
    rw [lib.clone_on x p on, List.append_assoc]
    rfl

theorem cloneAll_off (xs : List π) (p : σ) (off : lib.enabled p = false) :
    lib.queue (lib.cloneAll xs p) = lib.queue p := by
  induction xs generalizing p with
  | nil => rfl
  | cons x xs ih =>
    exact (ih (lib.clone x p) (by rwa [lib.clone_enabled])).trans (lib.clone_off x p off)

/-- The promiscuous mode as `openCapture` leaves it. -/
theorem opened (xs : List π) (p : σ) : lib.enabled (lib.cloneAll xs (lib.enable p)) = true ∧
    lib.queue (lib.cloneAll xs (lib.enable p)) = lib.queue p ++ xs := by
  obtain ⟨on, queue⟩ := lib.cloneAll_on xs _ (lib.enable_on p)
  exact ⟨on, queue.trans (congrArg (· ++ xs) (lib.enable_queue p))⟩

end Promisc

/-- Enough fuel for the queue and for the read that finds it empty. -/
theorem monDrainResidual_empties (lib : Promisc σ π) (fuel : Nat) (p : σ) (freed : Nat)
    (enough : (lib.queue p).length < fuel) :
    let (q, n) := monDrainResidual lib fuel p freed
    lib.queue q = [] ∧ lib.enabled q = lib.enabled p ∧ n = freed + (lib.queue p).length := by
  induction fuel generalizing p freed with
  | zero => omega
  | succ fuel ih =>
    have first := lib.read_first p
    have rest := lib.read_rest p
    have same := lib.read_enabled p
    rcases hr : lib.read p with ⟨_ | x, q⟩
    · rw [hr] at first rest same
      have empty := List.head?_eq_none_iff.mp first.symm
      simp only [monDrainResidual, hr]
      rw [empty] at rest ⊢
      exact ⟨rest, same, rfl⟩
    · rw [hr] at first rest same
      obtain ⟨xs, split⟩ := List.head?_eq_some_iff.mp first.symm
      rw [split] at rest enough ⊢
      have shorter : (lib.queue q).length < fuel := by
        rw [rest]
        simpa using enough
      obtain ⟨empty, still, freed⟩ := ih q (freed + 1) shorter
      simp only [monDrainResidual, hr]
      refine ⟨empty, still.trans same, freed.trans ?_⟩
      rw [rest]
      simp only [List.tail_cons, List.length_cons]
      omega

/-- A stop leaves nothing behind. -/
theorem stop_leaves_nothing (lib : Promisc σ π) (s : Monitor σ) (running : s.monRunning = true) :
    let t := cspMonitorStop lib s
    lib.enabled t.promisc = false ∧ lib.queue t.promisc = [] ∧ t.monRunning = false ∧
      t.monCsv = none := by
  obtain ⟨empty, still, -⟩ := monDrainResidual_empties lib _ (lib.disable s.promisc) 0
    (Nat.lt_succ_self _)
  simp only [cspMonitorStop, running, not_true_eq_false, if_false]
  exact ⟨still.trans (lib.disable_off _), empty, trivial, trivial⟩

/-- What the targets given and the default interface must be like. -/
def RemotesFit (a : StartArgs) (dfl : Option CspIface) : Prop :=
  ∀ remotes, a.remotes = some remotes →
    a.period ≠ 0 ∧ (StartArgs.entries remotes).length ≤ monMaxRemotes ∧
    (∀ tok ∈ StartArgs.entries remotes, (target tok).isSome) ∧ dfl.isSome

theorem addTargets_ok (toks : List (List UInt8)) (rs : List MonRemote)
    (room : rs.length ≤ monMaxRemotes) : (addTargets toks rs).2 = true ↔
      rs.length + toks.length ≤ monMaxRemotes ∧ ∀ tok ∈ toks, (target tok).isSome := by
  induction toks generalizing rs with
  | nil => simpa [addTargets] using room
  | cons tok toks ih =>
    rw [addTargets]
    cases entry : target tok with
    | none => simp [entry]
    | some r =>
      dsimp only
      split
      · simp only [Bool.false_eq_true, List.length_cons, false_iff]
        omega
      · have one : (rs ++ [r]).length = rs.length + 1 := by simp
        rw [ih _ (by omega), one]
        simp only [List.length_cons, List.forall_mem_cons, entry, Option.isSome_some, true_and]
        rw [Nat.add_right_comm, Nat.add_assoc]

theorem readRemotes_ok (s : Monitor σ) (a : StartArgs) (dfl : Option CspIface) :
    (readRemotes s a dfl).2 = true ↔ RemotesFit a dfl := by
  rw [readRemotes, RemotesFit]
  cases given : a.remotes with
  | none => simp
  | some remotes =>
    have ok := addTargets_ok (StartArgs.entries remotes) [] (Nat.zero_le _)
    simp only [List.length_nil, Nat.zero_add] at ok
    simp only [Option.some.injEq, forall_eq']
    by_cases zero : a.period = 0
    · simp [zero]
    · simp only [zero, if_false, ne_eq, not_false_eq_true, true_and, ← and_assoc]
      rw [← ok]
      cases (addTargets (StartArgs.entries remotes) []).2
      · simp
      · cases dfl <;> simp

/-- The checks that all come before the promiscuous mode. -/
def Checks (s : Monitor σ) (a : StartArgs) (dfl : Option CspIface) : Prop :=
  a.parses = true ∧ overheadFits a s = true ∧ RemotesFit a dfl

theorem prepare_ok (s : Monitor σ) (a : StartArgs) (dfl : Option CspIface) :
    (prepare s a dfl).2 = true ↔ Checks s a dfl := by
  rw [Checks, ← readRemotes_ok s a dfl, prepare]
  cases a.parses
  · simp
  · cases overheadFits a s
    · simp
    · rcases readRemotes s a dfl with ⟨t, _ | _⟩ <;> simp

/-- The settings that a start comes to. -/
structure SameSettings (a : StartArgs) (s t : Monitor σ) : Prop where
  path : a.pathOr s = a.pathOr t
  dport : a.dportOr s = a.dportOr t
  window : a.windowOr s = a.windowOr t
  mtu : a.mtuOr s = a.mtuOr t
  overhead : a.overheadOr s = a.overheadOr t

/-- What is outside the settings: the threads, the file and the promiscuous mode. -/
structure SameHandles (lib : Promisc σ π) (s t : Monitor σ) : Prop where
  running : s.monRunning = t.monRunning
  csv : s.monCsv = t.monCsv
  polling : s.monPollRunning = t.monPollRunning
  enabled : lib.enabled s.promisc = lib.enabled t.promisc
  queue : lib.queue s.promisc = lib.queue t.promisc

theorem SameHandles.symm {lib : Promisc σ π} {s t : Monitor σ} (h : SameHandles lib s t) :
    SameHandles lib t s :=
  ⟨h.running.symm, h.csv.symm, h.polling.symm, h.enabled.symm, h.queue.symm⟩

theorem SameHandles.trans {lib : Promisc σ π} {s t u : Monitor σ} (h : SameHandles lib s t)
    (h' : SameHandles lib t u) : SameHandles lib s u :=
  ⟨h.running.trans h'.running, h.csv.trans h'.csv, h.polling.trans h'.polling,
    h.enabled.trans h'.enabled, h.queue.trans h'.queue⟩

/-- What the threads of a capture read. The local interface and the poll times are read by
the poller only. -/
structure SameCapture (s t : Monitor σ) : Prop where
  path : s.monCsvPath = t.monCsvPath
  dport : s.monMatchDport = t.monMatchDport
  window : s.monWindowMs = t.monWindowMs
  mtu : s.monMtu = t.monMtu
  overhead : s.monDtpOverhead = t.monDtpOverhead
  remotes : s.monRemotes = t.monRemotes
  polls : s.monRemotes ≠ [] → s.monLocalIface = t.monLocalIface ∧
    s.monPollPeriodS = t.monPollPeriodS ∧ s.monPollTimeoutMs = t.monPollTimeoutMs

/-- Two starts behave alike. -/
structure SameOutcome (lib : Promisc σ π) (x y : Monitor σ × Slash) : Prop where
  code : x.2 = y.2
  handles : SameHandles lib x.1 y.1
  capture : x.2 = .success → SameCapture x.1 y.1

theorem readRemotes_frame (s : Monitor σ) (a : StartArgs) (d : Option CspIface) :
    ∃ rs l p t, (readRemotes s a d).1 =
      { s with
        monRemotes := rs
        monLocalIface := l
        monPollPeriodS := p
        monPollTimeoutMs := t } := by
  rw [readRemotes]
  cases a.remotes with
  | none => exact ⟨_, _, _, _, rfl⟩
  | some remotes =>
    dsimp only
    split
    · exact ⟨_, _, _, _, rfl⟩
    · split
      · exact ⟨_, _, _, _, rfl⟩
      · cases d <;> exact ⟨_, _, _, _, rfl⟩

/-- The targets are read from the arguments alone. -/
theorem readRemotes_same (s t : Monitor σ) (a : StartArgs) (d : Option CspIface) :
    let x := readRemotes s a d
    let y := readRemotes t a d
    x.2 = y.2 ∧ x.1.monRemotes = y.1.monRemotes ∧
      (x.2 = true → x.1.monRemotes ≠ [] → x.1.monLocalIface = y.1.monLocalIface ∧
        x.1.monPollPeriodS = y.1.monPollPeriodS ∧ x.1.monPollTimeoutMs = y.1.monPollTimeoutMs) := by
  simp only [readRemotes]
  cases a.remotes with
  | none => exact ⟨rfl, rfl, fun _ given => absurd rfl given⟩
  | some remotes =>
    dsimp only
    split
    · exact ⟨rfl, rfl, fun ok => nomatch ok⟩
    · split
      · exact ⟨rfl, rfl, fun ok => nomatch ok⟩
      · cases d with
        | none => exact ⟨rfl, rfl, fun ok => nomatch ok⟩
        | some i => exact ⟨rfl, rfl, fun _ _ => ⟨rfl, rfl, rfl⟩⟩

/-- The checks leave the handles as they are, and the settings at what they come to. -/
theorem prepare_frame (lib : Promisc σ π) (s : Monitor σ) (a : StartArgs) (d : Option CspIface) :
    SameHandles lib (prepare s a d).1 s ∧ SameSettings a (prepare s a d).1 s := by
  rw [prepare]
  split
  · exact ⟨⟨rfl, rfl, rfl, rfl, rfl⟩, ⟨rfl, rfl, rfl, rfl, rfl⟩⟩
  · split
    · exact ⟨⟨rfl, rfl, rfl, rfl, rfl⟩, ⟨rfl, rfl, rfl, rfl, rfl⟩⟩
    · obtain ⟨rs, l, p, t, read⟩ := readRemotes_frame s a d
      generalize readRemotes s a d = x at read ⊢
      rcases x with ⟨u, _ | _⟩
      · obtain rfl : u = _ := read
        exact ⟨⟨rfl, rfl, rfl, rfl, rfl⟩, ⟨rfl, rfl, rfl, rfl, rfl⟩⟩
      · obtain rfl : u = _ := read
        refine ⟨⟨rfl, rfl, rfl, rfl, rfl⟩, ?_⟩
        constructor <;> simp only [takeOver, StartArgs.pathOr, StartArgs.dportOr,
          StartArgs.windowOr, StartArgs.mtuOr, StartArgs.overheadOr]
        · cases a.out <;> rfl
        · cases a.dport <;> rfl
        · cases a.window <;> rfl
        · cases a.mtu <;> simp
        · cases a.overhead <;> simp

/-- From states that come to the same settings the checks have the same result, and what
they pass is the same to a capture. -/
theorem prepare_same {s t : Monitor σ} {a : StartArgs} (same : SameSettings a s t)
    (d : Option CspIface) : (prepare s a d).2 = (prepare t a d).2 ∧
      ((prepare s a d).2 = true → SameCapture (prepare s a d).1 (prepare t a d).1) := by
  have fits : overheadFits a s = overheadFits a t := by
    rw [overheadFits, overheadFits, same.mtu, same.overhead]
  rw [prepare, prepare, fits]
  split
  · exact ⟨rfl, fun ok => nomatch ok⟩
  · split
    · exact ⟨rfl, fun ok => nomatch ok⟩
    · obtain ⟨ok, targets, polls⟩ := readRemotes_same s t a d
      obtain ⟨rs, l, p, m, fs⟩ := readRemotes_frame s a d
      obtain ⟨rs', l', p', m', ft⟩ := readRemotes_frame t a d
      generalize readRemotes s a d = x at ok targets polls fs ⊢
      generalize readRemotes t a d = y at ok targets polls ft ⊢
      rcases x with ⟨u, g⟩
      rcases y with ⟨v, g'⟩
      obtain rfl : u = _ := fs
      obtain rfl : v = _ := ft
      obtain rfl : g = g' := ok
      cases g with
      | false => exact ⟨rfl, fun ok => nomatch ok⟩
      | true =>
        refine ⟨rfl, fun _ => ?_⟩
        constructor
        · exact same.path
        · exact same.dport
        · exact same.window
        · exact congrArg UInt32.toUInt16 same.mtu
        · exact congrArg UInt32.toUInt16 same.overhead
        · exact targets
        · exact polls rfl

theorem openCapture_same {lib : Promisc σ π} {s t : Monitor σ} (handles : SameHandles lib s t)
    (capture : SameCapture s t) (w : Surroundings π) :
    SameOutcome lib (openCapture lib s w) (openCapture lib t w) := by
  obtain ⟨on, queue⟩ := lib.opened w.cloned s.promisc
  obtain ⟨on', queue'⟩ := lib.opened w.cloned t.promisc
  have enabled := on.trans on'.symm
  have queues := queue.trans ((congrArg (· ++ w.cloned) handles.queue).trans queue'.symm)
  rw [openCapture, openCapture]
  split
  · exact ⟨rfl, handles, fun ok => nomatch ok⟩
  · split
    · exact ⟨rfl, ⟨handles.running, rfl, handles.polling, enabled, queues⟩, fun ok => nomatch ok⟩
    · have csv := congrArg some capture.path
      have given : (s.monRemotes ≠ []) = (t.monRemotes ≠ []) := by rw [capture.remotes]
      simp only [startThreads, given]
      split
      · refine ⟨rfl, ⟨rfl, rfl, handles.polling, ?_, ?_⟩, fun ok => nomatch ok⟩
        · exact (lib.disable_off _).trans (lib.disable_off _).symm
        · exact (lib.disable_queue _).trans (queues.trans (lib.disable_queue _).symm)
      · split
        · split
          · exact ⟨rfl, ⟨rfl, csv, rfl, enabled, queues⟩, fun _ => { capture with }⟩
          · refine ⟨rfl, ⟨rfl, csv, rfl, enabled, queues⟩, fun _ => ?_⟩
            exact { capture with remotes := rfl, polls := fun some => absurd rfl some }
        · exact ⟨rfl, ⟨rfl, csv, handles.polling, enabled, queues⟩, fun _ => { capture with }⟩

/-- Two starts with the same arguments behave alike if the states have the same handles and
come to the same settings. -/
theorem start_same {lib : Promisc σ π} {s t : Monitor σ} {a : StartArgs}
    (handles : SameHandles lib s t) (settings : SameSettings a s t) (stopped : s.monRunning = false)
    (w : Surroundings π) :
    SameOutcome lib (cspMonitorStart lib s a w) (cspMonitorStart lib t a w) := by
  have stopped' : t.monRunning = false := handles.running.symm.trans stopped
  obtain ⟨ok, capture⟩ := prepare_same settings w.dfl
  obtain ⟨hs, -⟩ := prepare_frame lib s a w.dfl
  obtain ⟨ht, -⟩ := prepare_frame lib t a w.dfl
  have between : SameHandles lib (prepare s a w.dfl).1 (prepare t a w.dfl).1 :=
    hs.trans (handles.trans ht.symm)
  rw [cspMonitorStart, cspMonitorStart, stopped, stopped']
  generalize prepare s a w.dfl = x at ok capture between ⊢
  generalize prepare t a w.dfl = y at ok capture between ⊢
  rcases x with ⟨u, g⟩
  rcases y with ⟨v, g'⟩
  obtain rfl : g = g' := ok
  cases g with
  | false => exact ⟨rfl, between, fun ok => nomatch ok⟩
  | true => exact openCapture_same between (capture rfl) w

/-- The monitor is stopped and the promiscuous mode off. -/
structure Stopped (lib : Promisc σ π) (s : Monitor σ) : Prop where
  running : s.monRunning = false
  csv : s.monCsv = none
  off : lib.enabled s.promisc = false

/-- A start leaves nothing behind: the monitor is stopped again, packets that come in are
not cloned, and the next start with the same arguments behaves as it would have. -/
structure Undone (lib : Promisc σ π) (s : Monitor σ) (a : StartArgs) (w : Surroundings π) :
    Prop where
  stopped : Stopped lib (cspMonitorStart lib s a w).1
  quiet : ∀ xs, lib.queue (lib.cloneAll xs (cspMonitorStart lib s a w).1.promisc) =
    lib.queue (cspMonitorStart lib s a w).1.promisc
  again : ∀ w', SameOutcome lib (cspMonitorStart lib (cspMonitorStart lib s a w).1 a w')
    (cspMonitorStart lib s a w')

theorem undone_of_same {lib : Promisc σ π} {s : Monitor σ} {a : StartArgs} {w : Surroundings π}
    (stopped : Stopped lib s) (handles : SameHandles lib (cspMonitorStart lib s a w).1 s)
    (settings : SameSettings a (cspMonitorStart lib s a w).1 s) : Undone lib s a w := by
  have off := handles.enabled.trans stopped.off
  have running := handles.running.trans stopped.running
  exact ⟨⟨running, handles.csv.trans stopped.csv, off⟩, fun xs => lib.cloneAll_off xs _ off,
    start_same handles settings running⟩

section exits

variable {lib : Promisc σ π} {s : Monitor σ} {a : StartArgs} {w : Surroundings π}

theorem start_stays (stopped : Stopped lib s) (fails : ¬ Checks s a w.dfl) :
    cspMonitorStart lib s a w = ((prepare s a w.dfl).1, .einval) := by
  have fails := Bool.eq_false_iff.mpr (mt (prepare_ok s a w.dfl).mp fails)
  rw [cspMonitorStart, stopped.running]
  generalize prepare s a w.dfl = x at fails ⊢
  obtain ⟨u, g⟩ := x
  obtain rfl : g = false := fails
  rfl

theorem start_goes (stopped : Stopped lib s) (checks : Checks s a w.dfl) :
    cspMonitorStart lib s a w = openCapture lib (prepare s a w.dfl).1 w := by
  have ok := (prepare_ok s a w.dfl).mpr checks
  rw [cspMonitorStart, stopped.running]
  generalize prepare s a w.dfl = x at ok ⊢
  obtain ⟨u, g⟩ := x
  obtain rfl : g = true := ok
  rfl

theorem openCapture_no_csv (rc : w.promiscRc ≠ .other) (shut : w.csvOpens = false) :
    openCapture lib s w =
      ({ s with
          monCsv := none
          promisc := lib.cloneAll w.cloned (lib.enable s.promisc) }, .eio) := by
  simp [openCapture, rc, shut]

theorem openCapture_success (rc : w.promiscRc ≠ .other) (opens : w.csvOpens = true)
    (starts : w.drainerStarts = true) : (openCapture lib s w).2 = .success := by
  simp only [openCapture, startThreads, rc, opens, starts, not_true_eq_false, if_false]
  split
  · split <;> rfl
  · rfl

theorem openCapture_no_drainer (rc : w.promiscRc ≠ .other) (opens : w.csvOpens = true)
    (fails : w.drainerStarts = false) : openCapture lib s w =
      ({ s with
          monRunning := false
          promisc := lib.disable (lib.cloneAll w.cloned (lib.enable s.promisc))
          monCsv := none }, .enomem) := by
  simp [openCapture, startThreads, rc, opens, fails]

/-- A start that gets to the drainer's thread, and no further. -/
theorem start_no_drainer (stopped : Stopped lib s) (checks : Checks s a w.dfl)
    (rc : w.promiscRc ≠ .other) (opens : w.csvOpens = true) (fails : w.drainerStarts = false) :
    let t := (cspMonitorStart lib s a w).1
    t.monRunning = false ∧ t.monCsv = none ∧ t.monPollRunning = s.monPollRunning ∧
      lib.enabled t.promisc = false ∧ lib.queue t.promisc = lib.queue s.promisc ++ w.cloned ∧
      SameSettings a t s := by
  obtain ⟨handles, settings⟩ := prepare_frame lib s a w.dfl
  rw [start_goes stopped checks, openCapture_no_drainer rc opens fails]
  refine ⟨rfl, rfl, handles.polling, lib.disable_off _, ?_, { settings with }⟩
  exact (lib.disable_queue _).trans
    ((lib.opened ..).2.trans (congrArg (· ++ w.cloned) handles.queue))

end exits

/-- A start that fails leaves nothing behind exactly if it does not get as far as the
promiscuous mode, or the CSV opens and nothing has been cloned when the thread fails. -/
theorem failed_start_undone_iff (lib : Promisc σ π) (s : Monitor σ) (a : StartArgs)
    (w : Surroundings π) (stopped : Stopped lib s)
    (failed : (cspMonitorStart lib s a w).2 ≠ .success) :
    Undone lib s a w ↔
      (Checks s a w.dfl → w.promiscRc ≠ .other → w.csvOpens = true ∧ w.cloned = []) := by
  obtain ⟨handles, settings⟩ := prepare_frame lib s a w.dfl
  have early (h : (cspMonitorStart lib s a w).1 = (prepare s a w.dfl).1) : Undone lib s a w :=
    undone_of_same stopped (h ▸ handles) (h ▸ settings)
  by_cases checks : Checks s a w.dfl
  · have goes := start_goes stopped checks
    by_cases rc : w.promiscRc = .other
    · exact iff_of_true (early (by rw [goes, openCapture, if_pos rc])) fun _ h => absurd rc h
    · cases opens : w.csvOpens with
      | false =>
        refine iff_of_false (fun undone => ?_) fun h => nomatch (h checks rc).1
        have on := (lib.opened w.cloned (prepare s a w.dfl).1.promisc).1
        have off := undone.stopped.off
        rw [goes, openCapture_no_csv rc opens] at off
        exact absurd (on.symm.trans off) (by decide)
      | true =>
        cases starts : w.drainerStarts with
        | true =>
          exact absurd ((congrArg Prod.snd goes).trans (openCapture_success rc opens starts)) failed
        | false =>
          obtain ⟨running, csv, polling, off, queue, same⟩ :=
            start_no_drainer stopped checks rc opens starts
          constructor
          · intro undone _ _
            refine ⟨rfl, ?_⟩
            -- The same start once more has the clones of the first in its queue as well.
            have ok := (prepare_same same w.dfl).1.trans ((prepare_ok s a w.dfl).mpr checks)
            obtain ⟨-, -, -, -, queue', -⟩ :=
              start_no_drainer undone.stopped ((prepare_ok _ _ _).mp ok) rc opens starts
            have twice := queue'.symm.trans ((undone.again w).handles.queue.trans queue)
            rw [queue] at twice
            exact List.append_right_eq_self.mp twice
          · intro clean
            have same_queue := queue.trans
              ((congrArg (lib.queue s.promisc ++ ·) (clean checks rc).2).trans (List.append_nil _))
            exact undone_of_same stopped ⟨running.trans stopped.running.symm,
              csv.trans stopped.csv.symm, polling, off.trans stopped.off.symm, same_queue⟩ same
  · exact iff_of_true (early (congrArg Prod.fst (start_stays stopped checks)))
      fun h => absurd h checks

/-- A flag and a queue. -/
def flagQueue : Promisc (Bool × List Nat) Nat where
  enabled p := p.1
  queue p := p.2
  enable p := (true, p.2)
  disable p := (false, p.2)
  clone x p := (p.1, if p.1 then p.2 ++ [x] else p.2)
  read p := (p.2.head?, (p.1, p.2.tail))
  enable_on _ := rfl
  enable_queue _ := rfl
  disable_off _ := rfl
  disable_queue _ := rfl
  clone_enabled _ _ := rfl
  clone_on _ _ on := if_pos on
  clone_off _ _ off := if_neg (Bool.eq_false_iff.mp off)
  read_enabled _ := rfl
  read_first _ := rfl
  read_rest _ := rfl

/-- The monitor before its first start, with an empty path for the default one. -/
def fresh : Monitor (Bool × List Nat) where
  monRunning := false
  monCsv := none
  monCsvPath := []
  monMatchDport := 13
  monWindowMs := 1000
  monMtu := 200
  monDtpOverhead := 4
  monRemotes := []
  monPollPeriodS := 10
  monPollTimeoutMs := 3000
  monPollRunning := false
  monLocalIface := none
  promisc := (false, [])

/-- A start with `-o /x`. -/
def toX : StartArgs := ⟨true, some [0x2F, 0x78], none, none, none, none, none, none, none⟩

/-- The CSV opens, and the drainer's thread does not start. -/
def noThread (cloned : List Nat) : Surroundings Nat := ⟨none, .none, cloned, true, false, false⟩

def unwritable : Surroundings Nat := ⟨none, .none, [], false, true, true⟩

def goodStart : Surroundings Nat := ⟨none, .used, [], true, true, true⟩

theorem failed_start_undone_iff_thread : Undone flagQueue fresh toX (noThread []) :=
  (failed_start_undone_iff flagQueue fresh toX (noThread []) ⟨rfl, rfl, rfl⟩ (by decide)).mpr
    fun _ _ => ⟨rfl, rfl⟩

/-- Behind a CSV that does not open the packets 7 and 8 are cloned, `stop` does nothing about
it, and the next start finds them in its queue. A drainer that does not start leaves the
packet cloned before it. -/
theorem failed_start_keeps_cloning :
    let s := (cspMonitorStart flagQueue fresh toX unwritable).1
    let t := { s with promisc := flagQueue.cloneAll [7, 8] s.promisc }
    (cspMonitorStart flagQueue fresh toX unwritable).2 = .eio ∧
    flagQueue.enabled s.promisc = true ∧
    cspMonitorStop flagQueue t = t ∧
    flagQueue.queue (cspMonitorStart flagQueue t toX goodStart).1.promisc = [7, 8] ∧
    (cspMonitorStart flagQueue fresh toX (noThread [7])).2 = .enomem ∧
    flagQueue.queue (cspMonitorStart flagQueue (cspMonitorStart flagQueue
      fresh toX (noThread [7])).1
      toX goodStart).1.promisc = [7] ∧
    flagQueue.queue (cspMonitorStart flagQueue fresh toX goodStart).1.promisc = [] := by
  decide

end CspLinksim.Start
