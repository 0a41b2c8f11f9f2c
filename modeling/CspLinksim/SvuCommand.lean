import CspLinksim.SvuDaemon

/-!
# The `svu` command of csh (`svu_apm.c`)

A session of commands to any number of nodes, each of which runs the daemon. The target is read
the way `cp` and `scp` do: a node is named only by a colon in front of the first slash.
-/

namespace CspLinksim.Svu

/-- What csh knows: the default node, and the addresses of hosts. -/
structure Shell where
  slashDflNode : UInt32
  getHostByAddrOrName : CString → Option Int

inductive TargetError where
  | badNode
  | unknownNode
  | noNode
  | emptyPath
  deriving DecidableEq

def slash : UInt8 := 0x2F

/-- The colon behind a node. -/
def nodeColon (target : CString) : Option Nat :=
  match target.bytes.idxOf? colon, target.bytes.idxOf? slash with
  | some c, some s => if c < s then some c else none
  | some c, none => some c
  | none, _ => none

/-- The destination: `nlen` characters in front of the colon, or the default node. -/
def svuCmdTarget (sh : Shell) (target : CString) : Except TargetError (UInt16 × CString) :=
  match nodeColon target with
  | some nlen =>
    if nlen = 0 ∨ nlen ≥ 64 then .error .badNode
    else
      match sh.getHostByAddrOrName (target.take nlen) with
      | none => .error .unknownNode
      | some nodeAddr =>
        let destpath := target.drop (nlen + 1)
        if destpath.bytes = [] then .error .emptyPath else .ok (UInt16.ofInt nodeAddr, destpath)
  | none =>
    if sh.slashDflNode = 0 then .error .noNode
    else if target.bytes = [] then .error .emptyPath
    else .ok (sh.slashDflNode.toUInt16, target)

/-- The arguments of a command, what its file and the network do, and what the daemon of its node
meets when it pulls. -/
structure Command where
  block : Int
  preserve : Bool
  target : CString
  file : Option (List UInt8)
  stMode : Option UInt32
  serves : Bool
  connects : Bool
  announceBuffer : Bool
  announced : Bool
  envs : List RoundEnv
  ops : FileOps
  createMode : UInt32
  chmodOk : Bool
  respBuffer : Bool
  replied : Bool

def Command.mode (c : Command) : UInt32 :=
  if c.preserve then
    match c.stMode with
    | some m => m &&& 0o7777
    | none => 0
  else 0

/-- The connection that the daemon takes. -/
def Command.push (c : Command) (file : List UInt8) (path : CString) : Push where
  source := serveFile file (UInt32.ofInt c.block)
  announce := svuAnnounceEncode c.mode path 250
  envs := c.envs
  ops := c.ops
  createMode := c.createMode
  chmodOk := c.chmodOk
  respBuffer := c.respBuffer

/-- What the command returns. -/
inductive SlashResult where
  | success
  | einval
  | eio
  deriving DecidableEq

/-- The files of every node. -/
abbrev Network : Type := UInt16 → Files

def setNode (net : Network) (node : UInt16) (fs : Files) : Network :=
  fun n => if n = node then fs else net n

def svuCmd (sh : Shell) (net : Network) (c : Command) : Except Fault (Network × SlashResult) :=
  if c.block ≤ 0 then .ok (net, .einval)
  else
    match svuCmdTarget sh c.target with
    | .error _ => .ok (net, .einval)
    | .ok (node, path) =>
      match c.file with
      | none => .ok (net, .eio)
      | some file =>
        if (svuLoadFile file).2 = 0 then .ok (net, .eio)
        else if !(c.serves && c.connects && c.announceBuffer && c.announced) then .ok (net, .eio)
        else
          match svuDaemonPush (net node) (c.push file path) with
          | .error e => .error e
          | .ok (fs, o) =>
            let ok := svuPushOk (if c.replied then o.resp else none)
            .ok (setNode net node fs, if ok then .success else .eio)

/-- The commands of a session, and what each of them returns. -/
def svuSession (sh : Shell) : Network → List Command → Except Fault (Network × List SlashResult)
  | net, [] => .ok (net, [])
  | net, c :: cs =>
    match svuCmd sh net c with
    | .error e => .error e
    | .ok (net, r) =>
      match svuSession sh net cs with
      | .error e => .error e
      | .ok (net, rs) => .ok (net, r :: rs)

/-- The command is about this path of this node. -/
def Lands (sh : Shell) (c : Command) (node : UInt16) (path : List UInt8) : Prop :=
  ∃ p, svuCmdTarget sh c.target = .ok (node, p) ∧ p.bytes = path

/-- Where the command comes to push, its push is one of an upload. -/
def Honest (sh : Shell) (c : Command) : Prop :=
  ∀ node path file, svuCmdTarget sh c.target = .ok (node, path) → c.file = some file →
    Sent ⟨file, UInt32.ofInt c.block, c.mode, path⟩ (c.push file path)

/-- The file of the command is on the node, with its mode if that was set. -/
def Uploaded (sh : Shell) (net : Network) (c : Command) : Prop :=
  ∃ node path file mode, svuCmdTarget sh c.target = .ok (node, path) ∧ c.file = some file ∧
    net node path.bytes = some ⟨file, mode⟩ ∧
    (c.mode ≠ 0 → c.chmodOk = true → mode = c.mode &&& 0o7777)

/-- The command leaves a path alone, or puts its whole file there. -/
def LeavesWhole (sh : Shell) (net net' : Network) (c : Command) : Prop :=
  ∀ node path, net' node path = net node path ∨
    Lands sh c node path ∧ ∃ file mode, c.file = some file ∧ net' node path = some ⟨file, mode⟩

theorem leavesWhole_refl (sh : Shell) (net : Network) (c : Command) : LeavesWhole sh net net c :=
  fun _ _ => .inl rfl

section

variable {sh : Shell} {net : Network} {c : Command} {node : UInt16} {path : CString}
  {file : List UInt8} {fs : Files} {o : Outcome}

theorem Pushed.leavesWhole
    (pushed : Pushed (net node) ⟨file, UInt32.ofInt c.block, c.mode, path⟩ (c.push file path) fs o)
    (lands : Lands sh c node path.bytes) (loaded : c.file = some file) :
    LeavesWhole sh net (setNode net node fs) c := by
  intro n q
  by_cases same : n = node
  · subst same
    simp only [setNode, if_true]
    cases pushed with
    | verified mode resp chmoded =>
      by_cases there : q = path.bytes
      · subst there
        exact .inr ⟨lands, file, mode, loaded, putFile_self _ _ _⟩
      · exact .inl (putFile_other _ _ there)
    | failed => exact .inl rfl
  · exact .inl (by simp [setNode, same])

/-- A daemon that reports success has put the file there. -/
theorem Pushed.uploaded
    (pushed : Pushed (net node) ⟨file, UInt32.ofInt c.block, c.mode, path⟩ (c.push file path) fs o)
    (read : svuCmdTarget sh c.target = .ok (node, path)) (loaded : c.file = some file)
    (told : svuPushOk (if c.replied then o.resp else none) = true) :
    Uploaded sh (setNode net node fs) c := by
  cases pushed with
  | verified mode resp chmoded =>
    refine ⟨node, path, file, mode, read, loaded, ?_, chmoded⟩
    simp [setNode]
  | failed resp refuses =>
    cases hreply : c.replied with
    | false =>
      rw [hreply] at told
      cases told
    | true =>
      rw [hreply, if_pos rfl, refuses] at told
      cases told

end

/-- The step lemma. -/
theorem svuCmd_spec {sh : Shell} (net : Network) {c : Command} (honest : Honest sh c) :
    ∃ net' r, svuCmd sh net c = .ok (net', r) ∧ LeavesWhole sh net net' c ∧
      (r = .success → Uploaded sh net' c) := by
  have refused : ∀ r, r ≠ SlashResult.success →
      ∃ net' r', Except.ok (net, r) = (Except.ok (net', r') : Except Fault _) ∧
        LeavesWhole sh net net' c ∧ (r' = .success → Uploaded sh net' c) :=
    fun r fails => ⟨net, r, rfl, leavesWhole_refl sh net c, fun h => absurd h fails⟩
  rw [svuCmd]
  split
  · exact refused .einval (by decide)
  cases read : svuCmdTarget sh c.target with
  | error e => exact refused .einval (by decide)
  | ok dest =>
    obtain ⟨node, path⟩ := dest
    cases loaded : c.file with
    | none => exact refused .eio (by decide)
    | some file =>
      simp only
      split
      · exact refused .eio (by decide)
      split
      · exact refused .eio (by decide)
      obtain ⟨fs, o, pushed, outcome⟩ := push_spec (honest node path file read loaded) (net node)
      simp only [pushed]
      refine ⟨_, _, rfl, outcome.leavesWhole ⟨path, read, rfl⟩ loaded, fun success => ?_⟩
      apply outcome.uploaded read loaded
      by_contra fails
      rw [if_neg fails] at success
      cases success

/-- Over any session of commands to any nodes: each of them returns, a path of a node holds what it
held before or the whole file of a command to it, and a command that returned success finds its
file on its node as long as no later one is about the same path. -/
theorem svu_session_keeps (sh : Shell) {cs : List Command} (honest : ∀ c ∈ cs, Honest sh c)
    (net : Network) :
    ∃ net' rs, svuSession sh net cs = .ok (net', rs) ∧ rs.length = cs.length ∧
      (∀ node path, net' node path = net node path ∨
        ∃ c ∈ cs, Lands sh c node path ∧
          ∃ file mode, c.file = some file ∧ net' node path = some ⟨file, mode⟩) ∧
      ∀ before c after, cs.zip rs = before ++ (c, .success) :: after →
        (∀ x ∈ after, ∀ node path, Lands sh c node path → ¬ Lands sh x.1 node path) →
        Uploaded sh net' c := by
  induction cs generalizing net with
  | nil =>
    refine ⟨net, [], rfl, rfl, fun _ _ => .inl rfl, ?_⟩
    intro before c after split
    simp at split
  | cons c cs ih =>
    obtain ⟨net₁, r, ran, whole, told⟩ := svuCmd_spec net (honest c List.mem_cons_self)
    obtain ⟨net', rs, rest, length, later, kept⟩ :=
      ih (fun c' hc' => honest c' (List.mem_cons_of_mem c hc')) net₁
    refine ⟨net', r :: rs, ?_, by rw [List.length_cons, List.length_cons, length], ?_, ?_⟩
    · simp only [svuSession, ran, rest]
    · intro node path
      rcases later node path with same | ⟨c', among, lands⟩
      · rw [same]
        rcases whole node path with untouched | ⟨lands, file, mode, loaded, put⟩
        · exact .inl untouched
        · exact .inr ⟨c, List.mem_cons_self, lands, file, mode, loaded, put⟩
      · exact .inr ⟨c', List.mem_cons_of_mem c among, lands⟩
    · intro before c' after split quiet
      cases before with
      | nil =>
        obtain ⟨first, rfl⟩ := List.cons.inj split
        obtain ⟨rfl, rfl⟩ := Prod.mk.inj first
        obtain ⟨node, path, file, mode, read, loaded, there, chmoded⟩ := told rfl
        refine ⟨node, path, file, mode, read, loaded, ?_, chmoded⟩
        rcases later node path.bytes with same | ⟨c', among, lands, -⟩
        · rw [same, there]
        · rw [← List.map_fst_zip length.ge] at among
          obtain ⟨x, paired, rfl⟩ := List.mem_map.mp among
          exact absurd lands (quiet x paired node path.bytes ⟨path, read, rfl⟩)
      | cons y before =>
        obtain ⟨-, split⟩ := List.cons.inj split
        exact kept before c' after split quiet

def dflShell : Shell := ⟨5426, fun _ => none⟩

def threeByteCommand (envs : List RoundEnv) : Command :=
  ⟨2, false, pathA, some [7, 8, 9], none, true, true, true, true, envs, threeByteOps, 0o644, true,
    true, true⟩

/-- The default node gets three bytes as `a`. -/
theorem session_of_three_bytes : ∃ envs net',
    svuSession dflShell (fun _ _ => none) [threeByteCommand envs] = .ok (net', [.success]) ∧
      Uploaded dflShell net' (threeByteCommand envs) := by
  have small : (serveFile [7, 8, 9] 2).nblocks.toNat ≤ 134217725 := by decide
  obtain ⟨envs, r, link, unique, hrun⟩ := @lossless_run [7, 8, 9] 2 (by decide) small 256 4096 499
    threeByteOps rfl none
  obtain ⟨e, hloop, hrecv, _⟩ := clientRun_end hrun
  have carried : Carries 0 pathA := by decide
  have dest : svuCmdTarget dflShell pathA = .ok (5426, pathA) := rfl
  have sent : Sent ⟨[7, 8, 9], 2, 0, pathA⟩ ((threeByteCommand envs).push [7, 8, 9] pathA) := by
    refine ⟨rfl, rfl, carried, small, Or.inr (Or.inr ⟨by simp, Nat.le_refl 3⟩), link, ?_⟩
    intro e' hloop' r' hr'
    cases hloop.symm.trans hloop'
    cases hrecv.trans hr'
    exact unique
  have honest : Honest dflShell (threeByteCommand envs) := by
    intro node path file read loaded
    obtain rfl := Option.some.inj loaded
    obtain ⟨rfl, rfl⟩ := Prod.mk.inj (Except.ok.inj (dest.symm.trans read))
    exact sent
  have silent : pushMode ((threeByteCommand envs).push [7, 8, 9] pathA) = 0 := sent.decoded.1
  obtain ⟨fs, hpush⟩ : ∃ fs, svuDaemonPush (fun _ => none)
      ((threeByteCommand envs).push [7, 8, 9] pathA) = .ok (fs, ⟨0, some [0]⟩) := by
    simp only [svuDaemonPush, silent, Option.map_none]
    have run : svuClientRun ((threeByteCommand envs).push [7, 8, 9] pathA).source 4096 256 500
        ((threeByteCommand envs).push [7, 8, 9] pathA).envs
        ((threeByteCommand envs).push [7, 8, 9] pathA).ops none = _ := hrun
    rw [run]
    exact ⟨_, rfl⟩
  have succeeds : svuCmd dflShell (fun _ _ => none) (threeByteCommand envs) =
      .ok (setNode (fun _ _ => none) 5426 fs, .success) := by
    have positive : ¬ (threeByteCommand envs).block ≤ 0 := by simp [threeByteCommand]
    rw [svuCmd, if_neg positive]
    have read : svuCmdTarget dflShell (threeByteCommand envs).target = .ok (5426, pathA) := dest
    have loaded : (threeByteCommand envs).file = some [7, 8, 9] := rfl
    simp only [read, loaded, hpush]
    rfl
  obtain ⟨net', rs, ran, -, -, kept⟩ := @svu_session_keeps dflShell [threeByteCommand envs]
    (by simpa using honest) (fun _ _ => none)
  have returned : rs = [.success] := by
    simp only [svuSession, succeeds] at ran
    exact (Prod.mk.inj (Except.ok.inj ran)).2.symm
  subst returned
  exact ⟨envs, net', ran, kept [] _ [] rfl (by simp)⟩

end CspLinksim.Svu
