import CspLinksim.SvuServe

/-!
# The receiver (`svu_session.c`)

A round asks for ranges, collects the manifest of the answer, feeds data frames to the
tracker until the link is quiet, and verifies. What the link, the allocator and the
file system do is an input of the run, one record for each place where they act.
-/

namespace CspLinksim.Svu

open Packet

/-- One control exchange from outside: which calls succeed, whether the request reaches
the sender, and which packets of its answer arrive (packets past the list are lost). -/
structure Attempt where
  connects : Bool
  hasBuffer : Bool
  hasHeap : Bool
  reached : Bool
  kept : List Bool

/-- The packets that were kept, in the order sent. -/
def arrivals : List Bool → List Payload → List Payload
  | _, [] => []
  | [], _ :: _ => []
  | true :: ks, p :: ps => p :: arrivals ks ps
  | false :: ks, _ :: ps => arrivals ks ps

/-- What `ctrl_exchange` hands out. -/
structure CtrlReply where
  total : UInt32
  block : UInt32
  nblocks : UInt32
  manifest : List UInt8
  deriving DecidableEq

/-- The loop of `ctrl_exchange` with `got` bytes in a buffer of `manBytes`; `none` is a
read that times out. -/
def readManifest (manBytes : UInt32) :
    List UInt8 → UInt32 → List Payload → Except Fault (Option (List UInt8))
  | manifest, got, [] => if got < manBytes then .ok none else .ok (some manifest)
  | manifest, got, mp :: rest =>
    if got < manBytes then
      -- as in the sender, the sum that decides about the clamp can wrap
      let len := UInt32.ofNat mp.length
      let take := if got + len > manBytes then manBytes - got else len
      if got.toNat + take.toNat ≤ manBytes.toNat then
        readManifest manBytes (manifest ++ mp.take take.toNat) (got + take) rest
      else .error .outOfBounds
    else .ok (some manifest)

/-- One exchange, of which the packets `rx` arrive; `none` is the return value -1. -/
def ctrlExchange (a : Attempt) (rx : List Payload) : Except Fault (Option CtrlReply) :=
  if ¬ a.connects then .ok none
  else if ¬ a.hasBuffer then .ok none
  else
    match rx with
    | [] => .ok none
    | hp :: rest =>
      if hp.length < svuRespHdr ∨ svuGet32 hp 0 ≠ svuMagicResp then .ok none
      else
        let total := svuGet32 hp 8
        let block := svuGet32 hp 12
        let nblocks := svuGet32 hp 16
        let manBytes := nblocks * UInt32.ofNat ciSvuHashLen
        if ¬ a.hasHeap then .ok none
        else
          match readManifest manBytes [] 0 rest with
          | .error e => .error e
          | .ok none => .ok none
          | .ok (some manifest) => .ok (some { total, block, nblocks, manifest })

/-- The exchange with the sender `s` for the request `req`. -/
def exchange (s : Source) (req : Payload) (a : Attempt) : Except Fault (Option CtrlReply) :=
  if a.connects ∧ a.hasBuffer ∧ a.reached then
    match svuServeControl s req with
    | .error e => .error e
    | .ok pkts => ctrlExchange a (arrivals a.kept pkts)
  else ctrlExchange a []

/-- The loop over the attempts. -/
def attemptLoop (s : Source) (req : Payload) : List Attempt → Except Fault (Option CtrlReply)
  | [] => .ok none
  | a :: as =>
    match exchange s req a with
    | .error e => .error e
    | .ok (some reply) => .ok (some reply)
    | .ok none => attemptLoop s req as

/-- One frame of a drain; the count of accepted frames is a natural number. -/
def drainFrame (acc : CiSvu × Nat) (pkt : Payload) : CiSvu × Nat :=
  if pkt.length > svuDataHdr then
    ((ciSvuAccept acc.1 ⟨svuGet32 pkt 0, pkt.drop svuDataHdr⟩).1, acc.2 + 1)
  else acc

/-- The frames that arrive before the link is idle. -/
def drainData (recv : CiSvu) (frames : List Payload) : CiSvu × Nat :=
  frames.foldl drainFrame (recv, 0)

/-- Drain and verify until verified, or until a drain brings nothing; past the list the
link is silent. -/
def drainLoop (recv : CiSvu) : List (List Payload) → CiSvu × CiSvuStatus × IntervalOut
  | [] => (recv, ciSvuVerify recv svuMaxIntervals)
  | frames :: drains =>
    let (recv, got) := drainData recv frames
    let verdict := ciSvuVerify recv svuMaxIntervals
    if verdict.1 = .completeVerified ∨ got = 0 then (recv, verdict)
    else drainLoop recv drains

/-- What the link and the allocator do in one round. -/
structure RoundEnv where
  attempts : List Attempt
  hasHeap : Bool
  drains : List (List Payload)

/-- The state between rounds: the tracker, the ranges to ask for, the last verdict. -/
structure Session where
  recv : Option CiSvu
  ivs : List CiSvuInterval
  nreq : UInt32
  st : CiSvuStatus

def sessionStart : Session where
  recv := none
  ivs := []
  nreq := 0
  st := .incomplete

def roundRequest (mtu blockSize : UInt32) (sess : Session) : SvuReq where
  magic := svuMagicReq
  sessionId := 1
  mtu := mtu
  blockSize := blockSize
  nofIntervals := sess.nreq
  clientAddr := 0
  intervals := sess.ivs.take sess.nreq.toNat

/-- A round that goes to `done` leaves the session; any other has a verdict. -/
inductive RoundEnd where
  | done (sess : Session)
  | verdict (sess : Session)

/-- The rest of a round, once it has a tracker. -/
def finishRound (recv : CiSvu) (sess : Session) (drains : List (List Payload)) : Session :=
  let (recv, st, out) := drainLoop recv drains
  if st = .completeVerified then { recv := some recv, ivs := out.written, nreq := sess.nreq, st }
  else
    { recv := some recv
      ivs := out.written
      nreq := if out.nout < svuMaxIntervals then out.nout else svuMaxIntervals
      st }

/-- One round of `svu_client_run` against the sender `s`. -/
def clientRound (s : Source) (mtu blockSize : UInt32) (sess : Session) (env : RoundEnv) :
    Except Fault RoundEnd :=
  match attemptLoop s (svuReqEncode (roundRequest mtu blockSize sess)) (env.attempts.take 8) with
  | .error e => .error e
  | .ok none => .ok (.done sess)
  | .ok (some reply) =>
    match sess.recv with
    | some recv => .ok (.verdict (finishRound recv sess env.drains))
    | none =>
      match ciSvuNew env.hasHeap reply.total reply.block reply.manifest reply.nblocks with
      | .error e => .error e
      | .ok none => .ok (.done sess)
      | .ok (some recv) => .ok (.verdict (finishRound recv sess env.drains))

/-- A round in which nothing answers. -/
def silentRound : RoundEnv where
  attempts := []
  hasHeap := true
  drains := []

/-- At most `n` rounds; past the list of environments nothing answers. -/
def roundLoop (s : Source) (mtu blockSize : UInt32) :
    Nat → Session → List RoundEnv → Except Fault RoundEnd
  | 0, sess, _ => .ok (.verdict sess)
  | n + 1, sess, envs =>
    match clientRound s mtu blockSize sess (envs.headD silentRound) with
    | .error e => .error e
    | .ok (.done sess) => .ok (.done sess)
    | .ok (.verdict sess) =>
      if sess.st = .completeVerified then .ok (.verdict sess)
      else roundLoop s mtu blockSize n sess envs.tail

/-- What the file system does: `flushed` bytes reach the disk, at most what `fwrite`
took, and all of that if `fclose` reports no error. -/
structure FileOps where
  opens : Bool
  fwriteRet : Nat
  fcloseOk : Bool
  flushed : Nat
  flushed_le : flushed ≤ fwriteRet
  flushed_eq : fcloseOk = true → flushed = fwriteRet

/-- The return value, the file at the destination afterwards, and the last tracker. -/
structure RunResult where
  rc : Int
  file : Option (List UInt8)
  recv : Option CiSvu

/-- `svu_client_run`, with the file `old` at the destination before. Neither the return
value of `fwrite` nor that of `fclose` is looked at. -/
def svuClientRun (s : Source) (blockSize mtu : UInt32) (maxRounds : Nat) (envs : List RoundEnv)
    (ops : FileOps) (old : Option (List UInt8)) : Except Fault RunResult :=
  match roundLoop s mtu blockSize maxRounds sessionStart envs with
  | .error e => .error e
  | .ok (.done sess) => .ok { rc := -1, file := old, recv := sess.recv }
  | .ok (.verdict sess) =>
    match sess.recv with
    | none => .ok { rc := -1, file := old, recv := none }
    | some recv =>
      if sess.st ≠ .completeVerified then .ok { rc := -1, file := old, recv := some recv }
      else if ¬ ops.opens then .ok { rc := -1, file := old, recv := some recv }
      else
        -- from here on nothing is checked: 0 is returned whatever reached the disk
        .ok
          { rc := 0
            file := some (((ciSvuData recv).take recv.total.toNat).take ops.flushed)
            recv := some recv }

/-- The status byte `svu_daemon` replies with; 0 makes `svu` print VERIFIED. -/
def svuDaemonReply (rc : Int) : UInt8 := if rc = 0 then 0 else 1

end CspLinksim.Svu
