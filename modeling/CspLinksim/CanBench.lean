import CspLinksim.FlowOrder
import CspLinksim.MonRows
import CspLinksim.ShimRuns
import CspLinksim.SvuProto
import Mathlib.Data.List.TakeWhile

/-!
# The two-oracle bench on CAN (`ci_inject_can.c`, `scripts/can0-bench`)

The injector sends numbered frames through the shim, which logs the fate of each. The
monitor logs the frames it captures on the bus. The script reads the two logs as text and
counts how often they name the same frame.
-/

namespace CspLinksim.CanBench

open Runs Columns Packet Rule Ge DropIface ShimRuns Tap MachineWords FlowOrder

abbrev Text := List Char

/-- The arguments of `ci_inject_can`; `count` is the number of frames it got a buffer for. -/
structure InjectArgs where
  addr : UInt16
  dst : UInt16
  dport : UInt16
  count : Nat
  mtu : UInt16
  loss : ℚ
  seed : UInt64
  burst : ℚ

def ciRdpAck : UInt8 := 0x04

/-- The data of frame `i`: an offset and a filler, or a filler and an RDP trailer. -/
def injectData (a : InjectArgs) (i : Nat) : List UInt8 :=
  if a.dport = ciDtpDataPort then
    let step := a.mtu.toUInt32 - 4
    let off := UInt32.ofNat i * step
    [(off &&& 0xFF).toUInt8, ((off >>> 8) &&& 0xFF).toUInt8, ((off >>> 16) &&& 0xFF).toUInt8,
      ((off >>> 24) &&& 0xFF).toUInt8, 0xDE, 0xAD, 0xBE, 0xEF]
  else
    let seq := UInt16.ofNat i
    [0xDE, 0xAD, 0xBE, ciRdpAck, (seq >>> 8).toUInt8, (seq &&& 0xFF).toUInt8, 0, 0]

theorem injectData_length (a : InjectArgs) (i : Nat) : (injectData a i).length = 8 := by
  rw [injectData]
  split <;> rfl

def injectPacket (a : InjectArgs) (i : Nat) : CspPacket where
  src := a.addr
  dst := a.dst
  dport := a.dport
  flags := if a.dport = ciDtpDataPort then 0 else ciCspFrdp
  data := injectData a i
  fits := by rw [injectData_length]; decide

def injectRule (a : InjectArgs) : CiDropRule where
  seed := a.seed
  matchDport := a.dport.toNat
  matchRdpSyn := false
  dropProbability := a.loss
  replayVector := none

def injectShim (fl : ℚ → ℚ) (a : InjectArgs) : CiDropIface :=
  shim (injectRule a) a.mtu ciDtpOverheadDipp true
    (if 0 < a.burst then
      .perAttempt (ciGeParams fl a.loss a.burst).1 (ciGeParams fl a.loss a.burst).2
    else .identity)

/-- The call for frame `i`; the clock and the driver's answer come from outside. -/
def injectCall (a : InjectArgs) (world : Nat → UInt32 × Int) (i : Nat) : NexthopCall where
  packet := injectPacket a i
  via := a.dst
  fromMe := 1
  tMs := (world i).1
  targetRc := (world i).2

/-- The loop of `main`. -/
def inject (fl : ℚ → ℚ) (a : InjectArgs) (world : Nat → UInt32 × Int) :
    CiDropIface × List Reply :=
  run ciDropIfaceNexthop (injectShim fl a) ((List.range a.count).map (injectCall a world))

/-- The number of every frame can be read off it. -/
def Numbered (a : InjectArgs) : Prop :=
  if a.dport = ciDtpDataPort then
    4 < a.mtu.toNat ∧ (a.count - 1) * (a.mtu.toNat - 4) < 4294967296
  else a.count ≤ 65536

instance (a : InjectArgs) : Decidable (Numbered a) := by
  unfold Numbered
  infer_instance

theorem be16_bytes (seq : UInt16) (pre post : List UInt8) :
    be16 (pre ++ (seq >>> 8).toUInt8 :: (seq &&& 0xFF).toUInt8 :: post) pre.length = seq := by
  have hlt := seq.toNat_lt
  have h8 : UInt16.toNat 8 % 16 = 8 := rfl
  have high : (pre ++ (seq >>> 8).toUInt8 :: (seq &&& 0xFF).toUInt8 :: post).getD pre.length 0 =
      (seq >>> 8).toUInt8 := by
    simp
  have low : (pre ++ (seq >>> 8).toUInt8 :: (seq &&& 0xFF).toUInt8 :: post).getD
      (pre.length + 1) 0 = (seq &&& 0xFF).toUInt8 := by
    simp
  have hhigh : (seq >>> 8).toUInt8.toNat = seq.toNat / 256 := by
    rw [UInt16.toNat_toUInt8, UInt16.toNat_shiftRight, h8, Nat.shiftRight_eq_div_pow]
    omega
  have hlow : (seq &&& 0xFF).toUInt8.toNat = seq.toNat % 256 := by
    have mask : (seq &&& 0xFF).toNat = seq.toNat % 256 := by
      rw [UInt16.toNat_and]
      exact Nat.and_two_pow_sub_one_eq_mod seq.toNat 8
    rw [UInt16.toNat_toUInt8, mask]
    omega
  have hshift : (seq.toNat / 256) <<< 8 % 2 ^ 16 = (seq.toNat / 256) <<< 8 := by
    rw [Nat.shiftLeft_eq]
    omega
  apply UInt16.toNat_inj.mp
  rw [be16, high, low, UInt16.toNat_or, UInt16.toNat_shiftLeft, UInt8.toNat_toUInt16,
    UInt8.toNat_toUInt16, hhigh, hlow, h8, hshift, ← Nat.shiftLeft_add_eq_or_of_lt (by omega),
    Nat.shiftLeft_eq]
  omega

/-- A bulk frame carries its offset, of which its number is the quotient. -/
theorem bulk_number {a : InjectArgs} (bulk : a.dport = ciDtpDataPort) (numbered : Numbered a)
    {i : Nat} (hi : i < a.count) :
    ∃ off frag, ciDtpParseOffset (injectData a i) = some off ∧
      ciDtpFragmentIndexOvh off a.mtu ciDtpOverheadDipp = some frag ∧ frag.toNat = i := by
  rw [Numbered, if_pos bulk] at numbered
  obtain ⟨above, small⟩ := numbered
  have hmtu := a.mtu.toNat_lt
  have hdipp : ciDtpOverheadDipp.toNat = 4 := rfl
  have hfour : UInt32.toNat 4 = 4 := rfl
  have hstep : (a.mtu.toUInt32 - 4).toNat = a.mtu.toNat - 4 := by
    rw [UInt32.toNat_sub_of_le _ _ (by rw [UInt32.le_iff_toNat_le, UInt16.toNat_toUInt32]; omega),
      UInt16.toNat_toUInt32, hfour]
  have hdiv : (a.mtu - ciDtpOverheadDipp).toNat = a.mtu.toNat - 4 := by
    rw [UInt16.toNat_sub_of_le _ _ (by rw [UInt16.le_iff_toNat_le]; omega), hdipp]
  have hle : i * (a.mtu.toNat - 4) ≤ (a.count - 1) * (a.mtu.toNat - 4) :=
    Nat.mul_le_mul_right _ (by omega)
  have hi' : i ≤ i * (a.mtu.toNat - 4) := Nat.le_mul_of_pos_right i (by omega)
  have hoff : (UInt32.ofNat i * (a.mtu.toUInt32 - 4)).toNat = i * (a.mtu.toNat - 4) := by
    rw [UInt32.toNat_mul, hstep, UInt32.toNat_ofNat_of_lt' (by rw [UInt32.size]; omega),
      Nat.mod_eq_of_lt (by omega)]
  have parses : ciDtpParseOffset (injectData a i) =
      some (UInt32.ofNat i * (a.mtu.toUInt32 - 4)) := by
    have word := Svu.get32_putWords [UInt32.ofNat i * (a.mtu.toUInt32 - 4)] 0 (by simp)
      [0xDE, 0xAD, 0xBE, 0xEF]
    rw [ciDtpParseOffset, injectData_length, if_neg (by decide), injectData, if_pos bulk]
    exact congrArg some word
  refine ⟨_, UInt32.ofNat i * (a.mtu.toUInt32 - 4) / (a.mtu - ciDtpOverheadDipp).toUInt32, parses,
    if_neg (by rw [UInt16.le_iff_toNat_le]; omega), ?_⟩
  · rw [UInt32.toNat_div, UInt16.toNat_toUInt32, hdiv, hoff, Nat.mul_div_cancel i (by omega)]

/-- An RDP frame carries its number in the trailer. -/
theorem rdp_number {a : InjectArgs} (rdp : a.dport ≠ ciDtpDataPort) (i : Nat) :
    ciRdpParseTrailer (injectData a i) ciCspFrdp = some ⟨ciRdpAck, UInt16.ofNat i, 0⟩ := by
  have seq := be16_bytes (UInt16.ofNat i) [ciRdpAck] [0, 0]
  have noCrc : ciCspFrdp &&& ciCspFcrc32 = 0 := by decide
  have hack : ciRdpAck &&& ciRdpFlagMask = ciRdpAck := by decide
  have hseq : be16 ([ciRdpAck, (UInt16.ofNat i >>> 8).toUInt8, (UInt16.ofNat i &&& 0xFF).toUInt8,
      0, 0] : List UInt8) 1 = UInt16.ofNat i := seq
  have hzero : be16 ([ciRdpAck, (UInt16.ofNat i >>> 8).toUInt8, (UInt16.ofNat i &&& 0xFF).toUInt8,
      0, 0] : List UInt8) 3 = 0 := by simp [be16]
  rw [ciRdpParseTrailer, injectData_length, injectData, if_neg rdp, noCrc]
  simp only [ne_eq, not_true_eq_false, if_false, ciRdpHeaderSize, Nat.add_zero, Nat.reduceLT,
    Nat.reduceSub, List.drop_succ_cons, List.drop_zero, hseq, hzero, List.getD_cons_zero, hack]

theorem inject_isRdp (a : InjectArgs) (i : Nat) :
    (frameOf (injectPacket a i)).isRdp = decide (a.dport ≠ ciDtpDataPort) := by
  by_cases bulk : a.dport = ciDtpDataPort
  · simp [frameOf, ciFrameFromFields, injectPacket, bulk]
  · have flag : ¬ ciCspFrdp = 0 := by decide
    simp [frameOf, ciFrameFromFields, injectPacket, bulk, flag]

theorem ofInt_port (p : UInt16) : UInt16.ofInt (p.toNat : Int) = p := by
  have hlt := p.toNat_lt
  have hmod : ((p.toNat : Int) % 2 ^ 16).toNat = p.toNat := by omega
  rw [UInt16.ofInt, hmod, UInt16.ofNat_toNat]

theorem inject_inScope (a : InjectArgs) (world : Nat → UInt32 × Int) (i : Nat) :
    inScope (injectRule a) (injectCall a world i) = true := by
  have port := ofInt_port a.dport
  simp [inScope, ciRuleMatch, injectRule, injectCall, injectPacket, frameOf, ciFrameFromFields,
    port]

/-- The tracker when frame `i` is up. -/
structure Ready (a : InjectArgs) (t : CiFlowTracker) (i : Nat) : Prop where
  mtu : t.dtpMtu = a.mtu
  overhead : t.dtpOverhead = ciDtpOverheadDipp
  epoch : t.epoch = 0
  last : t.haveLastSeq = true → t.lastSeq.toNat < i

theorem ready_key {a : InjectArgs} (numbered : Numbered a) {t : CiFlowTracker} {i : Nat}
    (hi : i < a.count) (ready : Ready a t i) :
    (ciFlowIndex t (frameOf (injectPacket a i)) (injectData a i)).2.toNat = i ∧
      Ready a (ciFlowIndex t (frameOf (injectPacket a i)) (injectData a i)).1 (i + 1) := by
  have isRdp := inject_isRdp a i
  by_cases bulk : a.dport = ciDtpDataPort
  · obtain ⟨off, frag, parses, index, number⟩ := bulk_number bulk numbered hi
    have plain : (frameOf (injectPacket a i)).isRdp = false := by simp [isRdp, bulk]
    rw [ciFlowIndex, plain, if_neg Bool.false_ne_true]
    simp only [parses, ready.mtu, ready.overhead, index, UInt32.toNat_toUInt64, number, true_and]
    exact ⟨ready.mtu, ready.overhead, ready.epoch, fun have' => by
      have := ready.last have'
      omega⟩
  · have rdp : (frameOf (injectPacket a i)).isRdp = true := by simp [isRdp, bulk]
    have flags : (frameOf (injectPacket a i)).cspFlags = ciCspFrdp := by
      simp [frameOf, ciFrameFromFields, injectPacket, bulk]
    rw [Numbered, if_neg bulk] at numbered
    have hseq : (UInt16.ofNat i).toNat = i :=
      UInt16.toNat_ofNat_of_lt' (by rw [UInt16.size]; omega)
    -- the numbers only grow, so the wrap test never fires
    have quiet : ¬ (t.haveLastSeq = true ∧ ciRdpSeqIsWrap t.lastSeq (UInt16.ofNat i) = true) := by
      rintro ⟨have', wrap⟩
      have := ready.last have'
      rw [ciRdpSeqIsWrap_iff, hseq] at wrap
      omega
    rw [ciFlowIndex, rdp, if_pos rfl, flags]
    simp only [rdp_number bulk i, if_neg quiet]
    refine ⟨?_, ready.mtu, ready.overhead, ready.epoch, fun _ => ?_⟩
    · rw [ciFlowIndexRdp_toNat, ready.epoch, hseq]
      simp
    · simp only [hseq]
      omega

/-- The shim and its log after `n` frames. -/
structure Injected (a : InjectArgs) (n : Nat) (s : CiDropIface) (replies : List Reply)
    (rows : List DropRow) : Prop where
  rule : s.rule = injectRule a
  ready : Ready a s.tracker n
  log : s.dropLog = some rows
  keys : rows.map (fun r => r.index.toNat) = List.range n
  received : replies.flatMap received =
    (rows.filter fun r => !r.dropped).map fun r => injectPacket a r.index.toNat
  drops : s.injectedDrops = (rows.filter fun r => r.dropped).length
  forwards : s.forwarded = (rows.filter fun r => !r.dropped).length

/-- The step lemma: frame `n` gets row `n`, which tells its fate. -/
theorem injected_step {a : InjectArgs} (numbered : Numbered a) (world : Nat → UInt32 × Int)
    {n : Nat} (hn : n < a.count) {s : CiDropIface} {replies : List Reply} {rows : List DropRow}
    (h : Injected a n s replies rows) :
    Injected a (n + 1) (ciDropIfaceNexthop s (injectCall a world n)).1
      (replies ++ [(ciDropIfaceNexthop s (injectCall a world n)).2])
      (rows ++ [rowOf s (injectCall a world n)]) := by
  obtain ⟨key, ready⟩ := ready_key numbered hn h.ready
  have scope := inject_inScope a world n
  have index : (rowOf s (injectCall a world n)).index.toNat = n := key
  have fate : (rowOf s (injectCall a world n)).dropped =
    (verdict s (injectCall a world n)).2.2.2 := rfl
  have keys : (rows ++ [rowOf s (injectCall a world n)]).map (fun r => r.index.toNat) =
      List.range (n + 1) := by
    rw [List.map_append, h.keys, List.range_succ, List.map_singleton, index]
  have log : (logged s (injectCall a world n)).dropLog =
      some (rows ++ [rowOf s (injectCall a world n)]) := by
    rw [logged, h.log]
    rfl
  rcases nexthop_cases s (injectCall a world n) with ⟨outside, _⟩ | ⟨_, drop, eq⟩ | ⟨_, pass, eq⟩
  · rw [h.rule, scope] at outside
    cases outside
  · rw [drop] at fate
    rw [eq]
    refine ⟨h.rule, ready, log, keys, ?_, ?_, ?_⟩
    · rw [List.flatMap_append, h.received, List.filter_append, List.filter_singleton, fate]
      simp [ShimRuns.received]
    · rw [List.filter_append, List.filter_singleton, fate, List.length_append, ← h.drops]
      rfl
    · rw [List.filter_append, List.filter_singleton, fate, List.length_append, ← h.forwards]
      rfl
  · rw [pass] at fate
    rw [eq]
    refine ⟨h.rule, ready, log, keys, ?_, ?_, ?_⟩
    · rw [List.flatMap_append, h.received, List.filter_append, List.filter_singleton, fate]
      simp only [List.flatMap_singleton, List.map_append, Bool.not_false, cond_true,
        List.map_singleton, index]
      rfl
    · rw [List.filter_append, List.filter_singleton, fate, List.length_append, ← h.drops]
      rfl
    · rw [List.filter_append, List.filter_singleton, fate, List.length_append, ← h.forwards]
      rfl

theorem injected_run (fl : ℚ → ℚ) {a : InjectArgs} (numbered : Numbered a)
    (world : Nat → UInt32 × Int) :
    ∃ rows, Injected a a.count (inject fl a world).1 (inject fl a world).2 rows := by
  have start : Injected a 0 (injectShim fl a) [] [] := by
    have ready : Ready a (ciFlowTrackerInitOvh a.mtu ciDtpOverheadDipp) 0 :=
      ⟨rfl, rfl, rfl, fun have' => by cases have'⟩
    rw [injectShim]
    split
    · exact ⟨rfl, ready, rfl, rfl, rfl, rfl, rfl⟩
    · exact ⟨rfl, ready, rfl, rfl, rfl, rfl, rfl⟩
  have upTo : ∀ n ≤ a.count, ∃ rows, Injected a n
      (run ciDropIfaceNexthop (injectShim fl a) ((List.range n).map (injectCall a world))).1
      (run ciDropIfaceNexthop (injectShim fl a) ((List.range n).map (injectCall a world))).2
      rows := by
    intro n
    induction n with
    | zero => exact fun _ => ⟨[], start⟩
    | succ n ih =>
      intro hn
      obtain ⟨rows, before⟩ := ih (by omega)
      rw [List.range_succ, List.map_append, List.map_singleton, run_snoc]
      exact ⟨_, injected_step numbered world (by omega) before⟩
  exact upTo a.count (Nat.le_refl _)

def dropHeader : Text := "# t_ms,src,dport,csp_flags,is_rdp,index,epoch,dropped".toList

/-- The drop log as text. -/
def dropFile (rows : List DropRow) : List Text := dropHeader :: rows.map (line ∘ dropColumns)

/-- `awk -F, '$8==v{print $6}'`. -/
def dropIndices (v : Nat) (drop : List Text) : List Text :=
  (drop.filter (columnIs 8 v)).map (column 6)

/-- The lines of the monitor's file that the script takes for frames of `src`. -/
def awkTakes (dport : UInt16) (src : Nat) (l : Text) : Bool :=
  !isComment l &&
    if dport = ciDtpDataPort then columnIs 6 0 l && (columnIs 4 8 l && columnIs 2 src l)
    else columnIs 6 1 l && columnIs 2 src l

/-- `sort -n`. -/
def sortN (ls : List Text) : List Text :=
  ls.mergeSort fun a b => (number? a).getD 0 ≤ (number? b).getD 0

def observedIndices (dport : UInt16) (src : Nat) (apm : List Text) : List Text :=
  sortN ((apm.filter (awkTakes dport src)).map (column (if dport = ciDtpDataPort then 11 else 8)))

def isBlank (c : Char) : Bool := c = ' ' ∨ c = '\t'

/-- `$1` where blanks separate the columns. -/
def firstField (l : Text) : Text := (l.dropWhile isBlank).takeWhile fun c => !isBlank c

/-- The variables of the script that counts the lines of the second file in the first. -/
structure InVars where
  a : List Text
  c : Nat

/-- `FNR==NR{a[$1]=1;next} ($1 in a){c++}` on a record with its `NR` and `FNR`. -/
def inStep (v : InVars) (r : Nat × Nat × Text) : InVars :=
  if r.2.1 = r.1 then { v with a := firstField r.2.2 :: v.a }
  else if v.a.contains (firstField r.2.2) then { v with c := v.c + 1 }
  else v

/-- The records of a file behind `nr` others. -/
def numberedLines (nr : Nat) (file : List Text) : List (Nat × Nat × Text) :=
  file.mapIdx fun i l => (nr + i + 1, i + 1, l)

def countIn (file1 file2 : List Text) : Nat :=
  ((numberedLines 0 file1 ++ numberedLines file1.length file2).foldl inStep ⟨[], 0⟩).c

/-- `grep -c .`. -/
def countLines (file : List Text) : Nat := file.countP fun l => l ≠ []

inductive Verdict where
  | inconclusive
  | pass
  | fail
  deriving DecidableEq

/-- The numbers that are printed, and the verdict. -/
structure Result where
  dropped : Nat
  kept : Nat
  observed : Nat
  overlap : Nat
  keptObs : Nat
  verdict : Verdict
  deriving DecidableEq

/-- `can0-bench` from its step 4 on. -/
def can0Bench (dport : UInt16) (src : Nat) (drop apm : List Text) : Result :=
  let obs := observedIndices dport src apm
  let drp := dropIndices 1 drop
  let kpt := dropIndices 0 drop
  let dropped := countLines drp
  let kept := countLines kpt
  let observed := countLines obs
  let overlap := countIn drp obs
  let keptObs := countIn kpt obs
  { dropped, kept, observed, overlap, keptObs
    verdict :=
      if dropped < 10 then .inconclusive
      else if observed = 0 then .inconclusive
      else if overlap = 0 ∧ 100 ≤ kept ∧ kept * 80 / 100 ≤ keptObs then .pass
      else .fail }

theorem foldl_first (file : List Text) (v : InVars) (k : Nat) :
    (file.mapIdx fun i l => ((0 : Nat) + (k + i) + 1, k + i + 1, l)).foldl inStep v =
      { v with a := (file.map firstField).reverse ++ v.a } := by
  induction file generalizing v k with
  | nil => rfl
  | cons l ls ih =>
    rw [List.mapIdx_cons, List.foldl_cons, inStep, if_pos (by simp)]
    have tail := ih { v with a := firstField l :: v.a } (k + 1)
    simp only [Nat.add_assoc, Nat.add_comm 1, List.map_cons, List.reverse_cons, List.append_assoc,
      List.singleton_append] at tail ⊢
    exact tail

theorem foldl_second {nr : Nat} (behind : 0 < nr) (file : List Text) (v : InVars) (k : Nat) :
    (file.mapIdx fun i l => (nr + (k + i) + 1, k + i + 1, l)).foldl inStep v =
      { v with c := v.c + file.countP (firstField · ∈ v.a) } := by
  induction file generalizing v k with
  | nil => rfl
  | cons l ls ih =>
    rw [List.mapIdx_cons, List.foldl_cons]
    have tail := fun v' : InVars => ih v' (k + 1)
    simp only [Nat.add_assoc, Nat.add_comm 1] at tail ⊢
    rw [tail, inStep, if_neg (by simp only; omega), List.countP_cons]
    by_cases mem : firstField l ∈ v.a
    · simp [mem]
      omega
    · simp [mem]

/-- Behind an empty file the second one is taken for the first, and nothing is counted. -/
theorem countIn_eq (file1 file2 : List Text) :
    countIn file1 file2 =
      if file1 = [] then 0 else file2.countP (firstField · ∈ file1.map firstField) := by
  have first := foldl_first file1 ⟨[], 0⟩ 0
  simp only [Nat.zero_add] at first
  rw [countIn, List.foldl_append, numberedLines, numberedLines]
  by_cases none : file1 = []
  · subst file1
    have again := foldl_first file2 ⟨[], 0⟩ 0
    simp only [Nat.zero_add] at again
    simp [again]
  · have second := foldl_second (List.length_pos_of_ne_nil none) file2
      ⟨(file1.map firstField).reverse, 0⟩ 0
    simp only [Nat.zero_add] at second ⊢
    rw [first, if_neg none]
    simp [second]

theorem firstField_decimal (n : Nat) : firstField (decimal n) = decimal n := by
  have digits : ∀ c ∈ decimal n, isBlank c = false := by
    intro c hc
    have digit := digit_of_decimal hc
    rw [isBlank, decide_eq_false_iff_not]
    rintro (rfl | rfl)
    · exact absurd digit (by decide)
    · exact absurd digit (by decide)
  have first : (decimal n).dropWhile isBlank = decimal n := by
    cases eq : decimal n with
    | nil => rfl
    | cons c cs => exact List.dropWhile_cons_of_neg (by simp [digits c (eq ▸ List.mem_cons_self)])
  rw [firstField, first, List.takeWhile_eq_self_iff]
  intro c hc
  simp [digits c hc]

/-- The numbers of one file that stand in another. -/
theorem countIn_decimal (ms ns : List Nat) :
    countIn (ms.map decimal) (ns.map decimal) = ns.countP (· ∈ ms) := by
  have mem : ∀ n, decimal n ∈ ms.map decimal ↔ n ∈ ms := fun n =>
    List.mem_map_of_injective decimal_injective
  have fields : ∀ ks : List Nat, (ks.map decimal).map firstField = ks.map decimal := by
    intro ks
    simp only [List.map_map, Function.comp_def, firstField_decimal]
  rw [countIn_eq, fields, List.countP_map]
  split
  case isTrue none => simp [List.map_eq_nil_iff.mp none]
  case isFalse => simp only [Function.comp_def, firstField_decimal, mem]

/-- What the two patterns on the drop log print. -/
theorem dropIndices_dropFile (rows : List DropRow) (b : Bool) :
    dropIndices b.toNat (dropFile rows) =
      (rows.filter fun r => r.dropped = b).map fun r => decimal r.index.toNat := by
  have header : columnIs 8 b.toNat dropHeader = false := by cases b <;> decide +kernel
  have reads : ∀ r : DropRow,
      columnIs 8 b.toNat (line (dropColumns r)) = decide (r.dropped = b) := by
    intro r
    rw [columnIs, column_drop]
    cases hd : r.dropped <;> cases b <;> simp [dropColumns, flagText, hd]
  have prints : ∀ r : DropRow, column 6 (line (dropColumns r)) = decimal r.index.toNat := by
    intro r
    rw [column_drop]
    rfl
  rw [dropIndices, dropFile, List.filter_cons_of_neg (by simp [header]), List.filter_map,
    List.map_map]
  simp only [Function.comp_def, reads, prints]

theorem countLines_decimal (ns : List Nat) : countLines (ns.map decimal) = ns.length := by
  rw [countLines, List.countP_eq_length.mpr, List.length_map]
  intro l hl
  obtain ⟨n, _, rfl⟩ := List.mem_map.mp hl
  exact decide_eq_true Nat.toDigits_ne_nil

/-- The columns of a row by which the script chooses. -/
theorem awkTakes_row (dport : UInt16) (src : Nat) (r : PacketRow) :
    awkTakes dport src (line (packetColumns r)) =
      match r with
      | .rdp r => decide (dport ≠ ciDtpDataPort ∧ r.src.toNat = src)
      | .bulk h _ _ => decide (dport = ciDtpDataPort ∧ h.dport.toNat = 8 ∧ h.src.toNat = src)
      | .presence h => decide (dport = ciDtpDataPort ∧ h.dport.toNat = 8 ∧ h.src.toNat = src) := by
  rw [awkTakes, packet_not_comment]
  simp only [columnIs, column_packet]
  by_cases bulk : dport = ciDtpDataPort
  · cases r <;> simp [bulk, packetColumns, headColumns, RdpRow.head]
  · cases r <;> simp [bulk, packetColumns, headColumns, RdpRow.head]

theorem awkTakes_src {dport : UInt16} {src : Nat} {r : PacketRow}
    (taken : awkTakes dport src (line (packetColumns r)) = true) : r.head.src.toNat = src := by
  rw [awkTakes_row] at taken
  cases r with
  | rdp r => exact (of_decide_eq_true taken).2
  | bulk h off frag => exact (of_decide_eq_true taken).2.2
  | presence h => exact (of_decide_eq_true taken).2.2

/-- A captured frame of the injector has a row from which its number is read. -/
theorem row_of_inject {a : InjectArgs} (numbered : Numbered a) {i : Nat} (hi : i < a.count)
    {cfg : Settings} (watches : cfg.matchDport = a.dport.toNat) (p : Rtt.CiRttPairing)
    (t : UInt32) :
    ∃ p' row, monDrainerRow cfg ⟨a.mtu, ciDtpOverheadDipp⟩ p (injectPacket a i) t = (p', some row) ∧
      awkTakes a.dport a.addr.toNat (line (packetColumns row)) = true ∧
      column (if a.dport = ciDtpDataPort then 11 else 8) (line (packetColumns row)) =
        decimal i := by
  have port : UInt16.ofInt cfg.matchDport = a.dport := watches ▸ ofInt_port a.dport
  have matched : cfg.matchDport < 0 ∨ (injectPacket a i).dport = UInt16.ofInt cfg.matchDport :=
    Or.inr port.symm
  have isRdp := inject_isRdp a i
  rw [monDrainerRow, if_pos matched]
  by_cases bulk : a.dport = ciDtpDataPort
  · obtain ⟨off, frag, parses, index, number⟩ := bulk_number bulk numbered hi
    have plain : (frameOf (injectPacket a i)).isRdp = false := by simp [isRdp, bulk]
    have isBulk : (injectPacket a i).dport = ciDtpDataPort ∨
      (injectPacket a i).dport = monSvuDataPort := Or.inl bulk
    have parses' : ciDtpParseOffset (injectPacket a i).data = some off := parses
    simp only [plain, Bool.false_eq_true, if_false, if_pos isBulk, parses', index]
    refine ⟨_, _, rfl, ?_, ?_⟩
    · rw [awkTakes_row]
      exact decide_eq_true ⟨bulk, congrArg UInt16.toNat bulk, rfl⟩
    · rw [if_pos bulk, column_packet]
      exact congrArg decimal number
  · have rdp : (frameOf (injectPacket a i)).isRdp = true := by simp [isRdp, bulk]
    have flags : (injectPacket a i).flags = ciCspFrdp := if_neg bulk
    have hdata : (injectPacket a i).data = injectData a i := rfl
    rw [Numbered, if_neg bulk] at numbered
    have hseq : (UInt16.ofNat i).toNat = i :=
      UInt16.toNat_ofNat_of_lt' (by rw [UInt16.size]; omega)
    simp only [rdp, if_true, monDrainerRdp, if_pos matched, flags, hdata, rdp_number bulk i,
      Option.map_some]
    refine ⟨_, _, rfl, ?_, ?_⟩
    · rw [awkTakes_row]
      exact decide_eq_true ⟨bulk, rfl⟩
    · rw [if_neg bulk, column_packet]
      exact congrArg decimal hseq

/-- The row of any other captured frame is not taken. -/
theorem row_of_other {a : InjectArgs} {cfg : Settings} (watches : cfg.matchDport = a.dport.toNat)
    (ix : Indexing) (p : Rtt.CiRttPairing) {pk : CspPacket} (t : UInt32)
    (other : ¬ (pk.src = a.addr ∧ pk.dport = a.dport)) {row : PacketRow}
    (h : (monDrainerRow cfg ix p pk t).2 = some row) :
    awkTakes a.dport a.addr.toNat (line (packetColumns row)) = false := by
  obtain ⟨matched, head⟩ := row_head h
  rw [watches, ofInt_port] at matched
  have port : pk.dport = a.dport := matched.resolve_left (by omega)
  by_contra taken
  have same := awkTakes_src (Bool.eq_true_of_not_eq_false taken)
  rw [head] at same
  exact other ⟨UInt16.toNat_inj.mp same, port⟩

theorem sortN_decimal (ns : List Nat) :
    ∃ ms : List Nat, sortN (ns.map decimal) = ms.map decimal ∧ ms.Perm ns := by
  refine ⟨ns.mergeSort fun a b => a ≤ b, ?_, List.mergeSort_perm _ _⟩
  rw [sortN, List.map_mergeSort]
  intro m _ n _
  simp

/-- A captured frame that claims to be the injector's. -/
def fromInjector (a : InjectArgs) (x : CspPacket × UInt32) : Bool :=
  x.1.src = a.addr ∧ x.1.dport = a.dport

/-- The numbers that are read off the monitor's rows are those of the captured frames. -/
theorem observed_numbers {a : InjectArgs} (numbered : Numbered a) {cfg : Settings}
    (watches : cfg.matchDport = a.dport.toNat) {kept : Nat → Prop}
    (caps : List (CspPacket × UInt32)) (ring : Rtt.CiRttPairing)
    (own : ∀ x ∈ caps, fromInjector a x = true →
      ∃ i < a.count, kept i ∧ x.1 = injectPacket a i) :
    ∃ ns : List Nat,
      (((packetRows cfg ⟨a.mtu, ciDtpOverheadDipp⟩ ring caps).map (line ∘ packetColumns)).filter
        (awkTakes a.dport a.addr.toNat)).map
          (column (if a.dport = ciDtpDataPort then 11 else 8)) = ns.map decimal ∧
      ns.length = caps.countP (fromInjector a) ∧
      ∀ n ∈ ns, kept n := by
  induction caps generalizing ring with
  | nil => exact ⟨[], rfl, rfl, by simp⟩
  | cons x caps ih =>
    obtain ⟨pk, t⟩ := x
    obtain ⟨ns, prints, count, all⟩ :=
      ih (monDrainerRow cfg ⟨a.mtu, ciDtpOverheadDipp⟩ ring pk t).1
        fun y hy => own y (List.mem_cons_of_mem _ hy)
    rw [packetRows_cons]
    by_cases ours : fromInjector a (pk, t) = true
    · obtain ⟨i, hi, hkept, rfl⟩ := own (pk, t) List.mem_cons_self ours
      obtain ⟨ring', row, eq, taken, shows⟩ := row_of_inject numbered hi watches ring t
      refine ⟨i :: ns, ?_, ?_, List.forall_mem_cons.mpr ⟨hkept, all⟩⟩
      · rw [eq] at prints ⊢
        rw [Option.toList_some, List.singleton_append, List.map_cons, Function.comp_apply,
          List.filter_cons_of_pos taken, List.map_cons, List.map_cons, prints, shows]
      · rw [List.countP_cons_of_pos ours, List.length_cons, count]
    · refine ⟨ns, ?_, ?_, all⟩
      · cases eq : (monDrainerRow cfg ⟨a.mtu, ciDtpOverheadDipp⟩ ring pk t).2 with
        | none => rw [Option.toList_none, List.nil_append, prints]
        | some row =>
          have skipped := row_of_other watches _ ring t (by simpa [fromInjector] using ours) eq
          rw [Option.toList_some, List.singleton_append, List.map_cons, Function.comp_apply,
            List.filter_cons_of_neg (by simp [skipped]), prints]
      · rw [List.countP_cons_of_neg ours, count]

/-- The script's numbers, for a file the monitor wrote. -/
theorem observed_eq {a : InjectArgs} {rows : List PacketRow} {apm : List Text}
    (written : (apm.filter fun l => !isComment l) = rows.map (line ∘ packetColumns)) :
    observedIndices a.dport a.addr.toNat apm = sortN
      (((rows.map (line ∘ packetColumns)).filter (awkTakes a.dport a.addr.toNat)).map
        (column (if a.dport = ciDtpDataPort then 11 else 8))) := by
  rw [observedIndices, ← written, List.filter_filter]
  congr 2
  apply List.filter_congr
  intro l _
  cases comment : isComment l <;> simp [awkTakes, comment]

/-- Whatever the bus does with the frames, and whatever else it carries, no frame that was
dropped is observed, every observed one was kept, and the script passes exactly if enough
were dropped, kept and captured. -/
theorem bench_agrees (fl : ℚ → ℚ) {a : InjectArgs} (numbered : Numbered a)
    (world : Nat → UInt32 × Int) {cfg : Settings} (watches : cfg.matchDport = a.dport.toNat)
    (ring : Rtt.CiRttPairing) {caps : List (CspPacket × UInt32)}
    (own : ∀ x ∈ caps, fromInjector a x = true →
      x.1 ∈ (inject fl a world).2.flatMap received)
    {apm : List Text} (written : (apm.filter fun l => !isComment l) =
      (packetRows cfg ⟨a.mtu, ciDtpOverheadDipp⟩ ring caps).map (line ∘ packetColumns)) :
    ∃ rows, (inject fl a world).1.dropLog = some rows ∧
      ∀ b seen, b = can0Bench a.dport a.addr.toNat (dropFile rows) apm →
        seen = caps.countP (fromInjector a) →
        b.dropped = (inject fl a world).1.injectedDrops ∧
        b.kept = (inject fl a world).1.forwarded ∧ b.dropped + b.kept = a.count ∧
        b.overlap = 0 ∧ b.observed = seen ∧ b.keptObs = seen ∧
        (b.verdict = .pass ↔
          10 ≤ b.dropped ∧ 100 ≤ b.kept ∧ 0 < seen ∧ b.kept * 80 / 100 ≤ seen) := by
  obtain ⟨rows, h⟩ := injected_run fl numbered world
  refine ⟨rows, h.log, ?_⟩
  rintro b seen rfl rfl
  have nodup : (rows.map fun r => r.index.toNat).Nodup := h.keys ▸ List.nodup_range
  have below : ∀ r ∈ rows, r.index.toNat < a.count := by
    intro r hr
    have mem : r.index.toNat ∈ rows.map fun r => r.index.toNat := List.mem_map_of_mem hr
    rw [h.keys] at mem
    exact List.mem_range.mp mem
  obtain ⟨ns, prints, count, all⟩ := @observed_numbers a numbered cfg watches
    (fun n => ∃ r ∈ rows, r.dropped = false ∧ r.index.toNat = n) caps ring (by
      intro x hx ours
      have sent := own x hx ours
      rw [h.received] at sent
      obtain ⟨r, hr, eq⟩ := List.mem_map.mp sent
      obtain ⟨hr, pass⟩ := List.mem_filter.mp hr
      exact ⟨_, below r hr, ⟨r, hr, by simpa using pass, rfl⟩, eq.symm⟩)
  obtain ⟨ms, sorted, perm⟩ := sortN_decimal ns
  have obs : observedIndices a.dport a.addr.toNat apm = ms.map decimal := by
    rw [observed_eq written, prints, sorted]
  have drp : dropIndices 1 (dropFile rows) =
      ((rows.filter fun r => r.dropped).map fun r => r.index.toNat).map decimal := by
    rw [List.map_map]
    simpa [Function.comp_def] using dropIndices_dropFile rows true
  have kpt : dropIndices 0 (dropFile rows) =
      ((rows.filter fun r => !r.dropped).map fun r => r.index.toNat).map decimal := by
    rw [List.map_map]
    simpa [Function.comp_def] using dropIndices_dropFile rows false
  have keptAll : ∀ n ∈ ms, ∃ r ∈ rows, r.dropped = false ∧ r.index.toNat = n :=
    fun n hn => all n (perm.mem_iff.mp hn)
  have overlap : ms.countP
      (· ∈ (rows.filter fun r => r.dropped).map fun r => r.index.toNat) = 0 := by
    rw [List.countP_eq_zero]
    intro n hn both
    obtain ⟨r, hr, pass, rfl⟩ := keptAll n hn
    obtain ⟨r', hr', same⟩ := List.mem_map.mp (of_decide_eq_true both)
    obtain ⟨hr', drop⟩ := List.mem_filter.mp hr'
    rw [List.inj_on_of_nodup_map nodup hr' hr same, pass] at drop
    cases drop
  have keptObs : ms.countP
      (· ∈ (rows.filter fun r => !r.dropped).map fun r => r.index.toNat) = ms.length := by
    rw [List.countP_eq_length]
    intro n hn
    obtain ⟨r, hr, pass, rfl⟩ := keptAll n hn
    exact decide_eq_true (List.mem_map_of_mem (List.mem_filter.mpr ⟨hr, by simp [pass]⟩))
  have total : (rows.filter fun r => r.dropped).length + (rows.filter fun r => !r.dropped).length =
      a.count := by
    have keys := congrArg List.length h.keys
    rw [List.length_map, List.length_range] at keys
    rw [← keys, ← List.length_eq_length_filter_add]
  have seen : ms.length = caps.countP (fromInjector a) :=
    perm.length_eq.trans count
  simp only [can0Bench, obs, drp, kpt, countIn_decimal, countLines_decimal, List.length_map,
    overlap, keptObs, seen, h.drops, h.forwards, true_and, total]
  clear overlap keptObs
  generalize (rows.filter fun r => r.dropped).length = drops at total ⊢
  generalize (rows.filter fun r => !r.dropped).length = keeps at total ⊢
  generalize caps.countP (fromInjector a) = seen
  split
  case isTrue few => simp; omega
  case isFalse enough =>
    split
    case isTrue none => simp [none]
    case isFalse some =>
      split
      case isTrue ok => simp; omega
      case isFalse bad => simp; omega

/-- Of two frames the rule drops the first. -/
def twoFrames : InjectArgs := ⟨7, 1, 8, 2, 44, 1 / 2, 3, 0⟩

def watchBulk : Settings := { matchDport := 8, ours := fun _ => false }

/-- The kept frame of the injector and a frame of another node. -/
def busCaptures : List (CspPacket × UInt32) :=
  [(injectPacket { twoFrames with addr := 9 } 0, 20), (injectPacket twoFrames 1, 21)]

def busFile : List Text :=
  "# t_ms,src".toList ::
    (packetRows watchBulk ⟨44, ciDtpOverheadDipp⟩ Rtt.ciRttInit busCaptures).map
      (line ∘ packetColumns)

theorem bench_of_two_frames : ∃ rows,
    (inject id twoFrames fun _ => (5, 0)).1.dropLog = some rows ∧
      (can0Bench 8 7 (dropFile rows) busFile).dropped = 1 ∧
      (can0Bench 8 7 (dropFile rows) busFile).observed = 1 ∧
      (can0Bench 8 7 (dropFile rows) busFile).overlap = 0 := by
  obtain ⟨rows, log, counts⟩ := @bench_agrees id twoFrames (by decide) (fun _ => (5, 0)) watchBulk
    rfl Rtt.ciRttInit busCaptures (by decide +kernel) busFile (by decide +kernel)
  obtain ⟨dropped, _, _, apart, observed, _, _⟩ := counts _ _ rfl rfl
  refine ⟨rows, log, dropped.trans ?_, observed.trans ?_, apart⟩
  · decide +kernel
  · decide +kernel

end CspLinksim.CanBench
