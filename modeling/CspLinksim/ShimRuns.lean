import CspLinksim.DropIface

/-!
# What the shim does with its traffic

Each packet is owned once: freed by the shim or delegated to its target. The log
and the counters describe that partition, and in the per-attempt mode the in-scope
packets meet the channel in transmission order, whatever they carry.
-/

namespace CspLinksim.ShimRuns

open Runs Packet Rule Ge DropIface

/-- A call disposes of its packet once; a drop is not an error. -/
inductive Owned : NexthopCall → Reply → Prop where
  | freed (c : NexthopCall) : Owned c ⟨[.bufferFree c.packet], cspErrNone⟩
  | delegated (c : NexthopCall) :
    Owned c ⟨[.targetNexthop c.via c.packet c.fromMe], c.targetRc⟩

/-- Whether a call freed its packet. -/
def drops (r : Reply) : Bool :=
  r.disposals.any fun
    | .bufferFree _ => true
    | .targetNexthop _ _ _ => false

/-- The packets a call handed to the target. -/
def received (r : Reply) : List CspPacket :=
  r.disposals.filterMap fun
    | .bufferFree _ => none
    | .targetNexthop _ p _ => some p

/-- The in-scope calls with their replies, in order. -/
def inScopeCalls (rule : CiDropRule) (calls : List NexthopCall) (replies : List Reply) :
    List (NexthopCall × Reply) :=
  (calls.zip replies).filter fun x => inScope rule x.1

/-- The drop pattern by transmission number. -/
def pattern (rule : CiDropRule) (calls : List NexthopCall) (replies : List Reply) : List Bool :=
  (inScopeCalls rule calls replies).map fun x => drops x.2

/-- A log row is about the call and tells whether its packet was freed. -/
structure Logs (x : NexthopCall × Reply) (row : DropRow) : Prop where
  tMs : row.tMs = x.1.tMs
  src : row.src = x.1.packet.src
  dport : row.dport = x.1.packet.dport
  flags : row.cspFlags = x.1.packet.flags
  rdp : row.isRdp = (frameOf x.1.packet).isRdp
  dropped : row.dropped = drops x.2

/-- The flow index of a packet, and the epoch the tracker is in behind it. -/
def trackKey (t : CiFlowTracker) (p : CspPacket) : CiFlowTracker × UInt64 × UInt32 :=
  ((ciFlowIndex t (frameOf p) p.data).1, (ciFlowIndex t (frameOf p) p.data).2,
    (ciFlowIndex t (frameOf p) p.data).1.epoch)

/-- The packets in scope, in order. -/
def inScopePackets (rule : CiDropRule) (calls : List NexthopCall) : List CspPacket :=
  (calls.filter (inScope rule)).map (·.packet)

/-- The partition of the traffic, with the rows the log holds if it is open. Their keys and
epochs are those of one tracker over the packets in scope. -/
structure Partition (rule : CiDropRule) (first : CiFlowTracker) (isLogged : Bool)
    (s : CiDropIface) (calls : List NexthopCall) (replies : List Reply) (rows : List DropRow) :
    Prop where
  owned : List.Forall₂ Owned calls replies
  received : replies.flatMap received =
    ((calls.zip replies).filter fun x => !drops x.2).map fun x => x.1.packet
  counted : s.injectedDrops + s.forwarded + s.passthrough = calls.length
  injected : s.injectedDrops = replies.countP drops
  refused : s.nexthopErrors ≤ s.forwarded
  log : s.dropLog = if isLogged then some rows else none
  logs : List.Forall₂ Logs (inScopeCalls rule calls replies) rows
  tracker : s.tracker = (run trackKey first (inScopePackets rule calls)).1
  keys : rows.map (fun row => (row.index, row.epoch)) =
    (run trackKey first (inScopePackets rule calls)).2
  keyed : s.perAttempt = false → ∀ row ∈ rows, row.dropped = ciRuleDecide rule row.index

theorem zip_snoc {calls : List NexthopCall} {replies : List Reply}
    (h : calls.length = replies.length) (c : NexthopCall) (r : Reply) :
    (calls ++ [c]).zip (replies ++ [r]) = calls.zip replies ++ [(c, r)] := by
  rw [List.zip_append h]
  rfl

theorem inScopeCalls_snoc (rule : CiDropRule) {calls : List NexthopCall} {replies : List Reply}
    (h : calls.length = replies.length) (c : NexthopCall) (r : Reply) :
    inScopeCalls rule (calls ++ [c]) (replies ++ [r]) =
      inScopeCalls rule calls replies ++ if inScope rule c then [(c, r)] else [] := by
  rw [inScopeCalls, zip_snoc h, List.filter_append, List.filter_singleton]
  cases inScope rule c <;> rfl

theorem inScopePackets_snoc (rule : CiDropRule) (calls : List NexthopCall) (c : NexthopCall) :
    inScopePackets rule (calls ++ [c]) =
      inScopePackets rule calls ++ if inScope rule c then [c.packet] else [] := by
  rw [inScopePackets, List.filter_append, List.filter_singleton, List.map_append]
  cases inScope rule c <;> rfl

theorem forall₂_snoc {α β : Type} {R : α → β → Prop} {xs : List α} {ys : List β}
    (h : List.Forall₂ R xs ys) {x : α} {y : β} (hxy : R x y) :
    List.Forall₂ R (xs ++ [x]) (ys ++ [y]) :=
  List.rel_append h (.cons hxy .nil)

/-- In identity mode the verdict is the rule's decision on the logged key. -/
theorem rowOf_keyed (s : CiDropIface) (c : NexthopCall) (identity : s.perAttempt = false) :
    (rowOf s c).dropped = ciRuleDecide s.rule (rowOf s c).index := by
  simp only [rowOf, verdict, identity, Bool.false_eq_true, if_false]

/-- An out-of-scope packet touches one counter. -/
theorem partition_passthrough {rule : CiDropRule} {first : CiFlowTracker} {isLogged : Bool}
    {s : CiDropIface} {calls : List NexthopCall} {replies : List Reply} {rows : List DropRow}
    (h : Partition rule first isLogged s calls replies rows) (c : NexthopCall)
    (outside : inScope rule c = false) :
    Partition rule first isLogged { s with passthrough := s.passthrough + 1 } (calls ++ [c])
      (replies ++ [⟨[.targetNexthop c.via c.packet c.fromMe], c.targetRc⟩]) rows := by
  have hlen := h.owned.length_eq
  have hcounted := h.counted
  have packets : inScopePackets rule (calls ++ [c]) = inScopePackets rule calls := by
    rw [inScopePackets_snoc, outside]
    exact List.append_nil _
  refine ⟨forall₂_snoc h.owned (.delegated c), ?_, ?_, ?_, h.refused, h.log, ?_, ?_, ?_, h.keyed⟩
  · rw [List.flatMap_append, h.received, zip_snoc hlen]
    simp [received, drops]
  · simp only [List.length_append, List.length_singleton]
    omega
  · rw [List.countP_append, h.injected]
    simp [drops]
  · rw [inScopeCalls_snoc rule hlen, outside]
    simpa using h.logs
  · rw [packets]
    exact h.tracker
  · rw [packets]
    exact h.keys

/-- An in-scope packet is logged with its fate, freed or delegated. -/
theorem partition_logged {rule : CiDropRule} {first : CiFlowTracker} {isLogged : Bool}
    {s : CiDropIface} {calls : List NexthopCall} {replies : List Reply} {rows : List DropRow}
    (h : Partition rule first isLogged s calls replies rows) (hrule : s.rule = rule)
    (c : NexthopCall)
    (inside : inScope rule c = true) {t : CiDropIface} {r : Reply} (owned : Owned c r)
    (fate : drops r = (verdict s c).2.2.2) (hlog : t.dropLog = (logged s c).dropLog)
    (htracker : t.tracker = (verdict s c).1) (hmode : t.perAttempt = s.perAttempt)
    (counted : t.injectedDrops + t.forwarded + t.passthrough =
      s.injectedDrops + s.forwarded + s.passthrough + 1)
    (injected : t.injectedDrops = s.injectedDrops + if drops r then 1 else 0)
    (refused : t.nexthopErrors ≤ t.forwarded) :
    Partition rule first isLogged t (calls ++ [c]) (replies ++ [r]) (rows ++ [rowOf s c]) := by
  have hlen := h.owned.length_eq
  have hcounted := h.counted
  have next : run trackKey first (inScopePackets rule (calls ++ [c])) =
      ((trackKey s.tracker c.packet).1, rows.map (fun row => (row.index, row.epoch)) ++
        [(trackKey s.tracker c.packet).2]) := by
    rw [inScopePackets_snoc, inside, if_pos rfl, run_snoc, h.tracker, h.keys]
  refine ⟨forall₂_snoc h.owned owned, ?_, ?_, ?_, refused, ?_, ?_, ?_, ?_, ?_⟩
  · rw [List.flatMap_append, h.received, zip_snoc hlen]
    cases owned <;> simp [received, drops]
  · simp only [List.length_append, List.length_singleton]
    omega
  · rw [List.countP_append, injected, h.injected]
    simp [List.countP_cons]
  · rw [hlog, logged, h.log]
    cases isLogged <;> rfl
  · rw [inScopeCalls_snoc rule hlen, inside]
    exact forall₂_snoc h.logs ⟨rfl, rfl, rfl, rfl, rfl, fate.symm⟩
  · rw [next, htracker]
    rfl
  · rw [next, List.map_append]
    rfl
  · intro identity row hrow
    rw [hmode] at identity
    rcases List.mem_append.mp hrow with hold | hnew
    · exact h.keyed identity row hold
    · rw [List.mem_singleton.mp hnew, ← hrule]
      exact rowOf_keyed s c identity

/-- The step lemma: every call keeps the partition, the rule and the mode. -/
theorem partition_step {rule : CiDropRule} {first : CiFlowTracker} {isLogged : Bool}
    {s : CiDropIface} {calls : List NexthopCall} {replies : List Reply} {rows : List DropRow}
    (h : Partition rule first isLogged s calls replies rows) (hrule : s.rule = rule)
    (c : NexthopCall) :
    (ciDropIfaceNexthop s c).1.rule = rule ∧
    (ciDropIfaceNexthop s c).1.perAttempt = s.perAttempt ∧
    ∃ rows', Partition rule first isLogged (ciDropIfaceNexthop s c).1 (calls ++ [c])
      (replies ++ [(ciDropIfaceNexthop s c).2]) rows' := by
  rcases nexthop_cases s c with ⟨scope, eq⟩ | ⟨scope, fate, eq⟩ | ⟨scope, fate, eq⟩
  · rw [hrule] at scope
    rw [eq]
    exact ⟨hrule, rfl, rows, partition_passthrough h c scope⟩
  · rw [hrule] at scope
    rw [eq]
    refine ⟨hrule, rfl, rows ++ [rowOf s c], ?_⟩
    refine partition_logged h hrule c scope (.freed c) ?_ rfl rfl rfl ?_ ?_ h.refused
    · rw [fate]
      rfl
    · simp only [logged]
      omega
    · simp [drops]
  · rw [hrule] at scope
    rw [eq]
    refine ⟨hrule, rfl, rows ++ [rowOf s c], ?_⟩
    refine partition_logged h hrule c scope (.delegated c) ?_ rfl rfl rfl ?_ ?_ ?_
    · rw [fate]
      rfl
    · simp only [logged]
      omega
    · simp [drops, logged]
    · have := h.refused
      show s.nexthopErrors + (if c.targetRc ≠ cspErrNone then 1 else 0) ≤ s.forwarded + 1
      split <;> omega

theorem partition_run (rule : CiDropRule) (isLogged : Bool) (s : CiDropIface)
    (hrule : s.rule = rule) (start : Partition rule s.tracker isLogged s [] [] [])
    (calls : List NexthopCall) :
    (run ciDropIfaceNexthop s calls).1.perAttempt = s.perAttempt ∧
    ∃ rows, Partition rule s.tracker isLogged (run ciDropIfaceNexthop s calls).1 calls
      (run ciDropIfaceNexthop s calls).2 rows := by
  have inv := run_history ciDropIfaceNexthop
    (fun t calls replies => t.rule = rule ∧ t.perAttempt = s.perAttempt ∧
      ∃ rows, Partition rule s.tracker isLogged t calls replies rows)
    (by
      rintro t calls replies c ⟨ht, hmode, rows, h⟩
      obtain ⟨hrule', hmode', next⟩ := partition_step h ht c
      exact ⟨hrule', hmode'.trans hmode, next⟩)
    ⟨hrule, rfl, [], start⟩ calls
  exact inv.2

theorem shim_start (rule : CiDropRule) (dtpMtu dtpOverhead : UInt16) (isLogged : Bool)
    (mode : DropMode) :
    (shim rule dtpMtu dtpOverhead isLogged mode).rule = rule ∧
    Partition rule (shim rule dtpMtu dtpOverhead isLogged mode).tracker isLogged
      (shim rule dtpMtu dtpOverhead isLogged mode) [] [] [] := by
  cases mode with
  | identity =>
    exact ⟨rfl, .nil, rfl, rfl, rfl, le_rfl, rfl, .nil, rfl, rfl,
      fun _ row hrow => by cases hrow⟩
  | perAttempt pG2b pB2g =>
    exact ⟨rfl, .nil, rfl, rfl, rfl, le_rfl, rfl, .nil, rfl, rfl,
      fun _ row hrow => by cases hrow⟩

theorem shim_tracker (rule : CiDropRule) (dtpMtu dtpOverhead : UInt16) (isLogged : Bool)
    (mode : DropMode) :
    (shim rule dtpMtu dtpOverhead isLogged mode).tracker =
      ciFlowTrackerInitOvh dtpMtu dtpOverhead := by
  cases mode <;> rfl

/-- No counter runs ahead of the calls. -/
theorem Partition.counters_le {rule : CiDropRule} {first : CiFlowTracker} {isLogged : Bool}
    {s : CiDropIface} {calls : List NexthopCall} {replies : List Reply} {rows : List DropRow}
    (h : Partition rule first isLogged s calls replies rows) :
    s.injectedDrops ≤ calls.length ∧ s.forwarded ≤ calls.length ∧
      s.passthrough ≤ calls.length ∧ s.nexthopErrors ≤ calls.length := by
  have counted := h.counted
  have refused := h.refused
  omega

/-- In every run the traffic is partitioned, and in identity mode one flow index has
one fate. -/
theorem nexthop_partitions (rule : CiDropRule) (dtpMtu dtpOverhead : UInt16) (isLogged : Bool)
    (mode : DropMode) (calls : List NexthopCall) :
    ∃ rows,
      Partition rule (ciFlowTrackerInitOvh dtpMtu dtpOverhead) isLogged
        (run ciDropIfaceNexthop (shim rule dtpMtu dtpOverhead isLogged mode) calls).1 calls
        (run ciDropIfaceNexthop (shim rule dtpMtu dtpOverhead isLogged mode) calls).2 rows ∧
      (mode = .identity → ∀ row ∈ rows, ∀ row' ∈ rows,
        row.index = row'.index → row.dropped = row'.dropped) := by
  obtain ⟨hrule, start⟩ := shim_start rule dtpMtu dtpOverhead isLogged mode
  obtain ⟨hmode, rows, h⟩ := partition_run rule isLogged _ hrule start calls
  rw [shim_tracker] at h
  refine ⟨rows, h, ?_⟩
  rintro rfl row hrow row' hrow' same
  have identity := hmode.trans (rfl : (shim rule dtpMtu dtpOverhead isLogged .identity).perAttempt
    = false)
  rw [h.keyed identity row hrow, h.keyed identity row' hrow', same]

theorem count_snoc (rule : CiDropRule) (calls : List NexthopCall) (c : NexthopCall) :
    ((calls ++ [c]).filter (inScope rule)).length =
      (calls.filter (inScope rule)).length + if inScope rule c then 1 else 0 := by
  rw [List.filter_append, List.length_append, List.filter_singleton]
  cases inScope rule c <;> rfl

/-- The chain has made one step for each in-scope packet, and only for those. -/
structure InStep (rule : CiDropRule) (g : CiGeState) (s : CiDropIface)
    (calls : List NexthopCall) (replies : List Reply) : Prop where
  scope : s.rule = rule
  mode : s.perAttempt = true
  length : calls.length = replies.length
  chain : s.ge = (transmit g (calls.filter (inScope rule)).length).1
  bits : pattern rule calls replies = (transmit g (calls.filter (inScope rule)).length).2

theorem inStep_step {rule : CiDropRule} {g : CiGeState} {s : CiDropIface}
    {calls : List NexthopCall} {replies : List Reply} (h : InStep rule g s calls replies)
    (c : NexthopCall) :
    InStep rule g (ciDropIfaceNexthop s c).1 (calls ++ [c])
      (replies ++ [(ciDropIfaceNexthop s c).2]) := by
  have hlen : (calls ++ [c]).length = (replies ++ [(ciDropIfaceNexthop s c).2]).length := by
    simp [h.length]
  have hchannel : (verdict s c).2.2 = ciGeStateStep s.ge := by
    simp only [verdict, h.mode, if_true]
  have outside : inScope rule c = false →
      (calls ++ [c]).filter (inScope rule) = calls.filter (inScope rule) := by
    intro scope
    simp [scope]
  have inside : inScope rule c = true → ((calls ++ [c]).filter (inScope rule)).length =
      (calls.filter (inScope rule)).length + 1 := by
    intro scope
    rw [count_snoc, scope]
    rfl
  rcases nexthop_cases s c with ⟨scope, eq⟩ | ⟨scope, fate, eq⟩ | ⟨scope, fate, eq⟩
  · rw [h.scope] at scope
    refine ⟨?_, ?_, hlen, ?_, ?_⟩
    · rw [eq, h.scope]
    · rw [eq, h.mode]
    · rw [eq, outside scope, h.chain]
    · rw [pattern, inScopeCalls_snoc rule h.length, scope, outside scope, ← h.bits]
      simp [pattern]
  all_goals
    rw [h.scope] at scope
    have hstep : ciGeStateStep (transmit g (calls.filter (inScope rule)).length).1 =
      (verdict s c).2.2 := by rw [hchannel, h.chain]
    refine ⟨?_, ?_, hlen, ?_, ?_⟩
    · rw [eq]
      exact h.scope
    · rw [eq]
      exact h.mode
    · rw [eq, inside scope, transmit_snoc, hstep]
      rfl
    · rw [pattern, inScopeCalls_snoc rule h.length, scope, inside scope, transmit_snoc, hstep,
        fate, ← h.bits, eq]
      simp [pattern, drops]

/-- Dropped by transmission number exactly as the vector for the channel says. -/
theorem pattern_eq_fill (rule : CiDropRule) (pG2b pB2g : ℚ) (dtpMtu dtpOverhead : UInt16)
    (isLogged : Bool) (calls : List NexthopCall) :
    pattern rule calls
        (run ciDropIfaceNexthop
          (shim rule dtpMtu dtpOverhead isLogged (.perAttempt pG2b pB2g)) calls).2 =
      (ciGeFill rule.seed pG2b pB2g (calls.filter (inScope rule)).length).map isDrop := by
  have inv := run_history ciDropIfaceNexthop (InStep rule (ciGeStateInit rule.seed pG2b pB2g))
    (fun _ _ _ c h => inStep_step h c)
    (s := shim rule dtpMtu dtpOverhead isLogged (.perAttempt pG2b pB2g))
    ⟨rfl, rfl, rfl, rfl, rfl⟩ calls
  rw [inv.bits, transmit_eq_fill]

/-- One channel three ways: the chain stepped once for each transmission, the vector,
the vector replayed, and the shim under any two uploads. -/
theorem one_channel (rule : CiDropRule) (pG2b pB2g : ℚ) :
    Function.Surjective ciGeThreshold ∧
    (∀ n, (transmit (ciGeStateInit rule.seed pG2b pB2g) n).2 =
      (ciGeFill rule.seed pG2b pB2g n).map isDrop) ∧
    (∀ m n, (ciGeFill rule.seed pG2b pB2g n).take m =
      ciGeFill rule.seed pG2b pB2g (min m n)) ∧
    (∀ n index,
      ciRuleDecide { rule with replayVector := some (ciGeFill rule.seed pG2b pB2g n) } index =
        ((transmit (ciGeStateInit rule.seed pG2b pB2g) n).2).getD index.toNat false) ∧
    (∀ dtpMtu dtpOverhead isLogged calls,
      pattern rule calls
          (run ciDropIfaceNexthop
            (shim rule dtpMtu dtpOverhead isLogged (.perAttempt pG2b pB2g)) calls).2 =
        (ciGeFill rule.seed pG2b pB2g (calls.filter (inScope rule)).length).map isDrop) ∧
    (∀ dtpMtu dtpOverhead isLogged calls calls',
      let upload := pattern rule calls (run ciDropIfaceNexthop
        (shim rule dtpMtu dtpOverhead isLogged (.perAttempt pG2b pB2g)) calls).2
      let upload' := pattern rule calls' (run ciDropIfaceNexthop
        (shim rule dtpMtu dtpOverhead isLogged (.perAttempt pG2b pB2g)) calls').2
      upload.take upload'.length = upload'.take upload.length) := by
  refine ⟨ciGeThreshold_surjective, transmit_eq_fill rule.seed pG2b pB2g, ?_, ?_, ?_, ?_⟩
  · intro m n
    exact fillLoop_take _ _ _ _ _ m n
  · intro n index
    rw [transmit_eq_fill]
    exact replay_fill rule rule.seed pG2b pB2g n index
  · intro dtpMtu dtpOverhead isLogged calls
    exact pattern_eq_fill rule pG2b pB2g dtpMtu dtpOverhead isLogged calls
  · intro dtpMtu dtpOverhead isLogged calls calls'
    simp only [pattern_eq_fill, List.length_map, ← List.map_take]
    simp only [ciGeFill, fillLoop_length, fillLoop_take, Nat.min_comm]

end CspLinksim.ShimRuns
