import CspLinksim.SvuAnnounce
import CspLinksim.SvuUpload

/-!
# The daemon over many pushes (`svu_daemon.c`, `svu_push.c`)

Each pass of the daemon's loop pulls one file and writes it to the announced path. Over any
sequence of passes a path holds the file of the last push to it that was verified, and what
an operator was told is true until then.
-/

namespace CspLinksim.Svu

open Packet

structure FileNode where
  content : List UInt8
  mode : UInt32
  deriving DecidableEq

/-- The files of the receiver by their paths; two texts are two paths. -/
abbrev Files : Type := List UInt8 → Option FileNode

def putFile (fs : Files) (path : List UInt8) (node : Option FileNode) : Files :=
  fun q => if q = path then node else fs q

/-- `chmod`. -/
def chmodFile (fs : Files) (path : List UInt8) (mode : UInt32) : Files :=
  putFile fs path ((fs path).map fun node => { node with mode := mode &&& 0o7777 })

/-- A connection that brings a packet: who serves, what the link and the file system do, the
mode of a file that `fopen` creates, and whether there is a buffer for the reply. -/
structure Push where
  source : Source
  announce : Payload
  envs : List RoundEnv
  ops : FileOps
  createMode : UInt32
  chmodOk : Bool
  respBuffer : Bool

/-- A pass of the loop: no connection, no packet on it, or a push. -/
inductive Pass where
  | noConn
  | noPacket
  | push (p : Push)

/-- What is printed about a push, and the packet that is sent back. -/
structure Outcome where
  rc : Int
  resp : Option Payload
  deriving DecidableEq

/-- The path that the daemon works with. -/
def pushPath (p : Push) : List UInt8 := stringAt (svuAnnounceDecode p.announce 256).2

def pushMode (p : Push) : UInt32 := (svuAnnounceDecode p.announce 256).1

def svuDaemonPush (fs : Files) (p : Push) : Except Fault (Files × Outcome) :=
  let path := pushPath p
  match svuClientRun p.source 4096 256 500 p.envs p.ops ((fs path).map (·.content)) with
  | .error e => .error e
  | .ok res =>
    let written := putFile fs path (res.file.map fun content =>
      { content, mode := ((fs path).map (·.mode)).getD p.createMode })
    let fs :=
      if res.rc = 0 ∧ pushMode p ≠ 0 then
        if p.chmodOk then chmodFile written path (pushMode p) else written
      else written
    .ok (fs, { rc := res.rc, resp := if p.respBuffer then some [svuDaemonReply res.rc] else none })

def svuDaemonPass (fs : Files) : Pass → Except Fault (Files × Option Outcome)
  | .noConn => .ok (fs, none)
  | .noPacket => .ok (fs, none)
  | .push p =>
    match svuDaemonPush fs p with
    | .error e => .error e
    | .ok (fs, o) => .ok (fs, some o)

/-- The loop of `main`. -/
def svuDaemonRun : Files → List Pass → Except Fault (Files × List (Option Outcome))
  | fs, [] => .ok (fs, [])
  | fs, x :: xs =>
    match svuDaemonPass fs x with
    | .error e => .error e
    | .ok (fs, o) =>
      match svuDaemonRun fs xs with
      | .error e => .error e
      | .ok (fs, os) => .ok (fs, o :: os)

/-- `ok` of `svu`, for the packet it reads back. -/
def svuPushOk (rp : Option Payload) : Bool :=
  match rp with
  | some packet => 1 ≤ packet.length ∧ packet.getD 0 1 = 0
  | none => false

/-- What an operator asks for. -/
structure Upload where
  file : List UInt8
  block : UInt32
  mode : UInt32
  path : CString

/-- The push of an upload: the path can be carried, the manifest and the disk have room, the
control link is sound, and the verdict meets no two blocks of one digest. -/
structure Sent (u : Upload) (p : Push) : Prop where
  source : p.source = serveFile u.file u.block
  announce : p.announce = svuAnnounceEncode u.mode u.path 250
  carried : Carries u.mode u.path
  room : p.source.nblocks.toNat ≤ 134217725
  disk : p.source.nblocks = 0 ∨ ¬ p.ops.opens ∨
    u.file.length < 4294967296 ∧ u.file.length ≤ p.ops.flushed
  link : LinkOk p.source p.envs
  unique : ∀ e, roundLoop p.source 256 4096 500 sessionStart p.envs = .ok e →
    ∀ r, e.session.recv = some r → NoCollision u.file r

theorem Sent.decoded {u : Upload} {p : Push} (h : Sent u p) :
    pushMode p = u.mode ∧ pushPath p = u.path.bytes := by
  have announced : (pushMode p, pushPath p) = svuAnnounced u.mode u.path := by
    rw [pushMode, pushPath, h.announce]
    rfl
  have carried := h.carried
  rw [Carries] at carried
  apply Prod.mk.inj
  rw [announced]
  by_cases alone : u.mode = 0
  · rw [if_pos alone] at carried
    rw [alone, announced_alone, if_neg carried.2, List.take_of_length_le carried.1]
  · rw [if_neg alone] at carried
    rw [announced_framed _ _ alone, List.take_of_length_le carried]

/-- How a run ends: its tracker is that of the rounds. -/
theorem clientRun_end {s : Source} {blockSize mtu : UInt32} {n : Nat} {envs : List RoundEnv}
    {ops : FileOps} {old : Option (List UInt8)} {res : RunResult}
    (h : svuClientRun s blockSize mtu n envs ops old = .ok res) :
    ∃ e, roundLoop s mtu blockSize n sessionStart envs = .ok e ∧ res.recv = e.session.recv ∧
      (res.rc = 0 ∨ res.rc = -1) := by
  rw [svuClientRun] at h
  cases hloop : roundLoop s mtu blockSize n sessionStart envs with
  | error e =>
    rw [hloop] at h
    cases h
  | ok e =>
    rw [hloop] at h
    refine ⟨e, rfl, ?_⟩
    cases e with
    | done sess =>
      cases h
      exact ⟨rfl, Or.inr rfl⟩
    | verdict sess =>
      cases hrecv : sess.recv with
      | none =>
        simp only [hrecv] at h
        cases h
        exact ⟨hrecv.symm, Or.inr rfl⟩
      | some r =>
        simp only [hrecv] at h
        split at h
        case isTrue =>
          cases h
          exact ⟨hrecv.symm, Or.inr rfl⟩
        case isFalse =>
          split at h
          case isTrue =>
            cases h
            exact ⟨hrecv.symm, Or.inr rfl⟩
          case isFalse =>
            cases h
            exact ⟨hrecv.symm, Or.inl rfl⟩

@[simp] theorem putFile_self (fs : Files) (path : List UInt8) (node : Option FileNode) :
    putFile fs path node path = node := if_pos rfl

theorem putFile_other (fs : Files) {path q : List UInt8} (node : Option FileNode) (h : q ≠ path) :
    putFile fs path node q = fs q := if_neg h

/-- A file that is left alone is written back as it was. -/
theorem putFile_unchanged (fs : Files) (path : List UInt8) (createMode : UInt32) :
    putFile fs path (((fs path).map (·.content)).map fun content =>
      { content, mode := ((fs path).map (·.mode)).getD createMode }) = fs := by
  funext q
  by_cases same : q = path
  · rw [same, putFile_self]
    cases fs path <;> rfl
  · rw [putFile_other fs _ same]

/-- What a push does to the files, by what is printed about it. -/
inductive Pushed (fs : Files) (u : Upload) (p : Push) : Files → Outcome → Prop where
  | verified (mode : UInt32) (resp : Option Payload)
    (chmoded : u.mode ≠ 0 → p.chmodOk = true → mode = u.mode &&& 0o7777) :
    Pushed fs u p (putFile fs u.path.bytes (some ⟨u.file, mode⟩)) ⟨0, resp⟩
  | failed (resp : Option Payload) (told : svuPushOk resp = false) : Pushed fs u p fs ⟨-1, resp⟩

/-- The step lemma. -/
theorem push_spec {u : Upload} {p : Push} (h : Sent u p) (fs : Files) :
    ∃ fs' o, svuDaemonPush fs p = .ok (fs', o) ∧ Pushed fs u p fs' o := by
  obtain ⟨mode, path⟩ := h.decoded
  obtain ⟨res, hrun, promise⟩ := rightBytes_of_condition (h.source ▸ h.room) (h.source ▸ h.disk)
    (h.source ▸ h.link) 256 4096 500 ((fs (pushPath p)).map (·.content))
  rw [← h.source] at hrun
  obtain ⟨e, hloop, hrecv, rc⟩ := clientRun_end hrun
  obtain ⟨_, whole, alone⟩ := promise fun r hr => h.unique e hloop r (hrecv ▸ hr)
  simp only [svuDaemonPush, hrun]
  rcases rc with zero | minus
  · rw [whole zero, zero, path, mode]
    simp only [Option.map_some, true_and]
    by_cases silent : u.mode = 0
    · rw [if_neg (by simp [silent])]
      exact ⟨_, _, rfl, .verified _ _ fun set => absurd silent set⟩
    · rw [if_pos silent]
      cases hchmod : p.chmodOk with
      | false =>
        refine ⟨_, _, rfl, .verified _ _ fun _ ok => ?_⟩
        rw [hchmod] at ok
        cases ok
      | true =>
        refine ⟨_, _, rfl, ?_⟩
        have chmoded : chmodFile (putFile fs u.path.bytes (some
            ⟨u.file, ((fs u.path.bytes).map (·.mode)).getD p.createMode⟩)) u.path.bytes u.mode =
            putFile fs u.path.bytes (some ⟨u.file, u.mode &&& 0o7777⟩) := by
          funext q
          by_cases same : q = u.path.bytes
          · rw [same, chmodFile, putFile_self, putFile_self, putFile_self]
            rfl
          · rw [chmodFile, putFile_other _ _ same, putFile_other _ _ same, putFile_other _ _ same]
        rw [if_pos rfl, chmoded]
        exact .verified _ _ fun _ _ => rfl
  · rw [alone minus, minus, putFile_unchanged]
    simp only [Int.reduceNeg, neg_eq_zero, one_ne_zero, false_and, if_false]
    refine ⟨_, _, rfl, .failed _ ?_⟩
    cases p.respBuffer <;> rfl

theorem Pushed.told {fs fs' : Files} {u : Upload} {p : Push} {o : Outcome}
    (h : Pushed fs u p fs' o) : svuPushOk o.resp = true → o.rc = 0 := by
  intro ok
  cases h with
  | verified => rfl
  | failed resp told =>
    rw [told] at ok
    cases ok

/-- The pass wrote a verified file to the path. -/
def storedAt (path : List UInt8) : Pass × Option Outcome → Bool
  | (.push p, some o) => o.rc = 0 ∧ pushPath p = path
  | _ => false

theorem Pushed.elsewhere {fs fs' : Files} {u : Upload} {p : Push} {o : Outcome}
    (h : Pushed fs u p fs' o) (sent : Sent u p) {path : List UInt8}
    (other : storedAt path (.push p, some o) = false) : fs' path = fs path := by
  cases h with
  | verified mode resp =>
    apply putFile_other
    rintro rfl
    simp [storedAt, sent.decoded.2] at other
  | failed => rfl

/-- The file of the upload, with its mode if `chmod` set it. -/
def Holds (fs : Files) (u : Upload) (p : Push) : Prop :=
  ∃ mode, fs u.path.bytes = some ⟨u.file, mode⟩ ∧
    (u.mode ≠ 0 → p.chmodOk = true → mode = u.mode &&& 0o7777)

/-- One pass, whatever it is. -/
theorem pass_spec (fs : Files) {x : Pass} (honest : ∀ p, x = .push p → ∃ u, Sent u p) :
    ∃ fs' o, svuDaemonPass fs x = .ok (fs', o) ∧
      (∀ path, storedAt path (x, o) = false → fs' path = fs path) ∧
      ∀ p o' u, x = .push p → o = some o' → Sent u p →
        (svuPushOk o'.resp = true → o'.rc = 0) ∧ (o'.rc = 0 → Holds fs' u p) := by
  cases x with
  | noConn =>
    refine ⟨fs, none, rfl, fun _ _ => rfl, ?_⟩
    intro p o' u push
    cases push
  | noPacket =>
    refine ⟨fs, none, rfl, fun _ _ => rfl, ?_⟩
    intro p o' u push
    cases push
  | push p =>
    obtain ⟨u, sent⟩ := honest p rfl
    obtain ⟨fs', o, hpush, pushed⟩ := push_spec sent fs
    refine ⟨fs', some o, ?_, fun path other => pushed.elsewhere sent other, ?_⟩
    · simp only [svuDaemonPass, hpush]
    · intro p' o' u' push outcome sent'
      cases push
      cases outcome
      obtain ⟨fs₂, o₂, hpush', pushed'⟩ := push_spec sent' fs
      cases hpush.symm.trans hpush'
      refine ⟨pushed'.told, fun zero => ?_⟩
      cases pushed' with
      | verified mode resp chmoded => exact ⟨mode, putFile_self _ _ _, chmoded⟩
      | failed => cases zero

/-- Over any sequence of passes every path holds the file of the last verified push to it,
byte for byte, and no other push changes it. Who was told that his file is verified finds it
there until then. -/
theorem daemon_keeps_verified (fs : Files) {passes : List Pass}
    (honest : ∀ p, Pass.push p ∈ passes → ∃ u, Sent u p) :
    ∃ fs' os, svuDaemonRun fs passes = .ok (fs', os) ∧ os.length = passes.length ∧
      (∀ path, (∀ x ∈ passes.zip os, storedAt path x = false) → fs' path = fs path) ∧
      ∀ before p o after u, passes.zip os = before ++ (.push p, some o) :: after → Sent u p →
        (svuPushOk o.resp = true → o.rc = 0) ∧
        (o.rc = 0 → (∀ x ∈ after, storedAt u.path.bytes x = false) → Holds fs' u p) := by
  induction passes generalizing fs with
  | nil =>
    refine ⟨fs, [], rfl, rfl, fun _ _ => rfl, ?_⟩
    intro before p o after u split
    simp at split
  | cons x passes ih =>
    obtain ⟨fs₁, o, hpass, elsewhere, now⟩ := pass_spec fs fun p hx =>
      honest p (hx ▸ List.mem_cons_self)
    obtain ⟨fs', os, hrun, hlen, same, kept⟩ := ih fs₁ fun p hp =>
      honest p (List.mem_cons_of_mem _ hp)
    refine ⟨fs', o :: os, ?_, by rw [List.length_cons, List.length_cons, hlen], ?_, ?_⟩
    · simp only [svuDaemonRun, hpass, hrun]
    · intro path none
      rw [same path fun y hy => none y (List.mem_cons_of_mem _ hy)]
      exact elsewhere path (none _ List.mem_cons_self)
    · intro before p o' after u split sent
      cases before with
      | nil =>
        obtain ⟨first, rfl⟩ := List.cons.inj split
        obtain ⟨told, holds⟩ := now p o' u (congrArg Prod.fst first) (congrArg Prod.snd first) sent
        refine ⟨told, fun zero quiet => ?_⟩
        rw [Holds, same _ quiet]
        exact holds zero
      | cons y before =>
        obtain ⟨_, split⟩ := List.cons.inj split
        exact kept before p o' after u split sent

def pathA : CString := ⟨[0x61], by decide⟩

def threeByteOps : FileOps := ⟨true, 3, true, 3, by decide, by decide⟩

/-- Three bytes are pushed to `a`, and after an idle pass they are there. -/
theorem daemon_keeps_three_bytes : ∃ p fs',
    svuDaemonRun (fun _ => none) [.push p, .noConn] = .ok (fs', [some ⟨0, some [0]⟩, none]) ∧
      Holds fs' ⟨[7, 8, 9], 2, 0, pathA⟩ p := by
  have small : (serveFile [7, 8, 9] 2).nblocks.toNat ≤ 134217725 := by decide
  obtain ⟨envs, r, link, unique, hrun⟩ := @lossless_run [7, 8, 9] 2 (by decide) small 256 4096 499
    threeByteOps rfl none
  obtain ⟨e, hloop, hrecv, _⟩ := clientRun_end hrun
  obtain ⟨p, hp⟩ : ∃ p : Push, p = ⟨serveFile [7, 8, 9] 2, svuAnnounceEncode 0 pathA 250, envs,
    threeByteOps, 0o644, true, true⟩ := ⟨_, rfl⟩
  have sent : Sent ⟨[7, 8, 9], 2, 0, pathA⟩ p := by
    rw [hp]
    refine ⟨rfl, rfl, by decide, small, Or.inr (Or.inr ⟨by decide, Nat.le_refl 3⟩), link, ?_⟩
    intro e' hloop' r' hr'
    cases hloop.symm.trans hloop'
    cases hrecv.trans hr'
    exact unique
  have silent : pushMode p = 0 := sent.decoded.1
  obtain ⟨fs, hpush⟩ : ∃ fs, svuDaemonPush (fun _ => none) p = .ok (fs, ⟨0, some [0]⟩) := by
    rw [hp] at silent ⊢
    simp only [svuDaemonPush, hrun, Option.map_none, silent]
    exact ⟨_, rfl⟩
  obtain ⟨fs', os, run, _, _, kept⟩ := @daemon_keeps_verified (fun _ => none) [.push p, .noConn] (by
    intro q hq
    cases List.mem_cons.mp hq with
    | inl first =>
      cases first
      exact ⟨_, sent⟩
    | inr second => cases List.mem_singleton.mp second)
  have outcomes : os = [some ⟨0, some [0]⟩, none] := by
    simp only [svuDaemonRun, svuDaemonPass, hpush] at run
    cases run
    rfl
  rw [outcomes] at run kept
  refine ⟨p, fs', run, (kept [] p _ [(.noConn, none)] _ rfl sent).2 rfl ?_⟩
  intro x hx
  rw [List.mem_singleton.mp hx]
  rfl

end CspLinksim.Svu
