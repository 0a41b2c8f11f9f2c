import CspLinksim.CanBench
import CspLinksim.Proxy

/-!
# The broker under test (`ci_gen.c`, `determinism.sh`, `two_oracle.sh`)

The generator sends numbered RDP frames through the broker, which logs the fate of each. Some
may be lost before they come to it. One script compares the logs of two such runs, the other
one the log of a run and the file of a monitor behind the broker.
-/

namespace CspLinksim.BrokerBench

open Runs Columns Packet Rule DropIface ShimRuns Proxy FlowOrder CanBench Tap

def genData (i : Nat) : List UInt8 :=
  let seq := UInt16.ofNat i
  [0xDE, 0xAD, 0xBE, ciRdpAck, (seq >>> 8).toUInt8, (seq &&& 0xFF).toUInt8, 0, 0]

/-- Frame `i` of `ci_gen`. -/
def genPacket (dport : UInt16) (i : Nat) : CspPacket where
  src := 10
  dst := 20
  dport := dport
  flags := ciCspFrdp
  data := genData i
  fits := by simp [genData, cspBufferSize]

/-- A frame that comes to the broker, with the broker's clock and `rand`. -/
structure Heard where
  no : Nat
  tMs : UInt32
  randDrop : Bool
  deriving DecidableEq

def Heard.frame (dport : UInt16) (h : Heard) : WireFrame :=
  ⟨genPacket dport h.no, h.tMs, h.randDrop⟩

/-- `-M dport -L loss -S seed`. -/
def testRule (dport : UInt16) (loss : ℚ) (seed : UInt64) : CiDropRule :=
  proxyRule seed dport.toNat false loss

def broker (dport : UInt16) (rule : CiDropRule) (mtu overhead : UInt16) (hs : List Heard) :
    Globals × List (List CspPacket) :=
  run (zmqProxyLossy true) (proxyStart rule mtu overhead) (hs.map (Heard.frame dport))

/-- Frames may be lost, but not so many in a row that the numbers are mistaken. -/
def InOrder (nos : List Nat) : Prop :=
  (∀ n ∈ nos.head?, n < 65536) ∧ nos.IsChain fun m n => m < n ∧ Follows m n

instance (nos : List Nat) : Decidable (InOrder nos) := inferInstanceAs (Decidable (_ ∧ _))

theorem gen_parses (i : Nat) :
    ciRdpParseTrailer (genData i) ciCspFrdp = some ⟨ciRdpAck, UInt16.ofNat i, 0⟩ :=
  @rdp_number ⟨10, 20, 13, 0, 200, 0, 0, 0⟩ (by decide) i

def arrival (dport : UInt16) (i : Nat) : Arrival where
  pos := i
  packet := genPacket dport i
  rdp := (by decide : ciCspFrdp &&& ciCspFrdp ≠ 0)
  seq := by
    have parses := gen_parses i
    simp only [genPacket, parses, Option.map_some]

/-- The broker keys a frame as the tracker does. -/
theorem proxy_key (g : Globals) (dport : UInt16) (i : Nat) :
    feed (trackerOf g) (arrival dport i) =
      (trackerOf (proxyFlowIndex g (genPacket dport i) (frameOf (genPacket dport i))).1,
        (proxyFlowIndex g (genPacket dport i) (frameOf (genPacket dport i))).2) :=
  ciFlowIndex_trackerOf g (genPacket dport i)

theorem test_inScope (dport : UInt16) (loss : ℚ) (seed : UInt64) (i : Nat) :
    ciRuleMatch (testRule dport loss seed) (frameOf (genPacket dport i)) = true := by
  have port := ofInt_port dport
  simp [ciRuleMatch, testRule, proxyRule, frameOf, ciFrameFromFields, genPacket, port]

/-- The numbers of the rows with one fate. -/
def numbers (rows : List DropRow) (fate : Bool) : List Nat :=
  (rows.filter fun r => r.dropped = fate).map fun r => r.index.toNat

theorem numbers_snoc (rows : List DropRow) (r : DropRow) (fate : Bool) :
    numbers (rows ++ [r]) fate =
      numbers rows fate ++ if r.dropped = fate then [r.index.toNat] else [] := by
  rw [numbers, List.filter_append, List.filter_singleton, List.map_append, numbers]
  by_cases same : r.dropped = fate <;> simp [same]

theorem numbers_length (rows : List DropRow) :
    (numbers rows true).length + (numbers rows false).length = rows.length := by
  induction rows using List.reverseRecOn with
  | nil => rfl
  | append_singleton rows r ih =>
    rw [numbers_snoc, numbers_snoc, List.length_append, List.length_append, List.length_append]
    cases r.dropped <;> simp <;> omega

/-- The broker after it has heard some frames. -/
structure Decided (dport : UInt16) (rule : CiDropRule) (hs : List Heard) (g : Globals)
    (sent : List (List CspPacket)) (rows : List DropRow) : Prop where
  ruled : g.gRule = rule
  fresh : hs = [] → trackerOf g = ciFlowTrackerInitOvh g.gDtpMtu g.gDtpOverhead
  keyed : ∀ h ∈ hs.getLast?, Keyed (trackerOf g) h.no
  log : g.gDropLog = some rows
  keys : rows.map (fun r => r.index.toNat) = hs.map Heard.no
  fates : ∀ r ∈ rows, r.dropped = ciRuleDecide rule r.index
  sent : sent.flatten = (numbers rows false).map (genPacket dport)
  kept : g.gKept = (numbers rows false).length
  drops : g.gDrops = (numbers rows true).length

/-- The next frame suits those that were heard. -/
def Suits (hs : List Heard) (h : Heard) : Prop :=
  (hs = [] → h.no < 65536) ∧ ∀ l ∈ hs.getLast?, l.no < h.no ∧ Follows l.no h.no

theorem inOrder_snoc {hs : List Heard} {h : Heard} :
    InOrder ((hs ++ [h]).map Heard.no) ↔ InOrder (hs.map Heard.no) ∧ Suits hs h := by
  rw [InOrder, InOrder, Suits, List.map_append, List.isChain_append, List.getLast?_map]
  cases hs with
  | nil => simp
  | cons g gs => simp [and_assoc]

theorem suits_key {dport : UInt16} {rule : CiDropRule} {hs : List Heard} {g : Globals}
    {sent : List (List CspPacket)} {rows : List DropRow} (d : Decided dport rule hs g sent rows)
    {h : Heard} (suits : Suits hs h) :
    (proxyRow g (h.frame dport)).index.toNat = h.no ∧
      Keyed (trackerOf (proxyFlowIndex g (genPacket dport h.no)
        (frameOf (genPacket dport h.no))).1) h.no := by
  have key := proxy_key g dport h.no
  have index : (proxyRow g (h.frame dport)).index =
      (feed (trackerOf g) (arrival dport h.no)).2 := by rw [key]; rfl
  have next : trackerOf (proxyFlowIndex g (genPacket dport h.no)
      (frameOf (genPacket dport h.no))).1 = (feed (trackerOf g) (arrival dport h.no)).1 := by
    rw [key]
  rw [index, next]
  cases last : hs.getLast? with
  | none =>
    have empty : hs = [] := List.getLast?_eq_none_iff.mp last
    have first := feed_first g.gDtpMtu g.gDtpOverhead (arrival dport h.no)
    rw [d.fresh empty]
    exact ⟨first.1.mpr (suits.1 empty), first.2 (suits.1 empty)⟩
  | some l =>
    obtain ⟨below, follows⟩ := suits.2 l last
    have step := feed_keyed (d.keyed l last) (arrival dport h.no)
      (show l.no < h.no + 32768 by omega)
    exact ⟨step.1.mpr follows, step.2 follows⟩

/-- What a frame in scope changes, whatever its fate. -/
structure HeardOne (g g' : Globals) (x : WireFrame) (sent : List CspPacket) : Prop where
  ruled : g'.gRule = g.gRule
  tracker : trackerOf g' = trackerOf (proxyFlowIndex g x.packet (frameOf x.packet)).1
  log : g'.gDropLog = g.gDropLog.map (· ++ [proxyRow g x])
  sent : sent = if (proxyRow g x).dropped = false then [x.packet] else []
  kept : g'.gKept = g.gKept + if (proxyRow g x).dropped = false then 1 else 0
  drops : g'.gDrops = g.gDrops + if (proxyRow g x).dropped = true then 1 else 0

theorem heardOne {g : Globals} (gated : 0 ≤ g.gRule.matchDport) {x : WireFrame}
    (scope : ciRuleMatch g.gRule (frameOf x.packet) = true) :
    HeardOne g (zmqProxyLossy true g x).1 x (zmqProxyLossy true g x).2 := by
  obtain ⟨lastSeq, haveLastSeq, epoch, keeps⟩ :=
    proxyFlowIndex_keeps g x.packet (frameOf x.packet)
  rw [zmqProxyLossy_inside true gated scope]
  have tracker : ∀ drops kept, trackerOf
      { proxyLogged g x with gDrops := drops, gKept := kept } =
        trackerOf (proxyFlowIndex g x.packet (frameOf x.packet)).1 := fun _ _ => rfl
  cases fate : (proxyRow g x).dropped with
  | true =>
    rw [if_pos rfl]
    exact ⟨by rw [proxyLogged, keeps], tracker _ _, rfl, by simp [fate],
      by simp [fate, proxyLogged, keeps], by simp [fate, proxyLogged, keeps]⟩
  | false =>
    rw [if_neg Bool.false_ne_true]
    exact ⟨by rw [proxyLogged, keeps], tracker _ _, rfl, by simp [fate],
      by simp [fate, proxyLogged, keeps], by simp [fate, proxyLogged, keeps]⟩

/-- The step lemma: one more frame gets one more row, which tells its number and its fate. -/
theorem decided_step {dport : UInt16} {loss : ℚ} {seed : UInt64} {hs : List Heard} {g : Globals}
    {sent : List (List CspPacket)} {rows : List DropRow}
    (d : Decided dport (testRule dport loss seed) hs g sent rows) {h : Heard}
    (suits : Suits hs h) :
    Decided dport (testRule dport loss seed) (hs ++ [h])
      (zmqProxyLossy true g (h.frame dport)).1
      (sent ++ [(zmqProxyLossy true g (h.frame dport)).2])
      (rows ++ [proxyRow g (h.frame dport)]) := by
  obtain ⟨key, keyed⟩ := suits_key d suits
  have gated : 0 ≤ g.gRule.matchDport := by
    rw [d.ruled]
    exact Int.natCast_nonneg _
  have scope : ciRuleMatch g.gRule (frameOf (h.frame dport).packet) = true := by
    rw [d.ruled]
    exact test_inScope dport loss seed h.no
  have one := heardOne gated scope
  have fate : (proxyRow g (h.frame dport)).dropped =
      ciRuleDecide (testRule dport loss seed) (proxyRow g (h.frame dport)).index := by
    rw [← d.ruled]
    rfl
  constructor
  case ruled => rw [one.ruled, d.ruled]
  case fresh => simp
  case keyed =>
    rintro l hl
    rw [List.getLast?_concat] at hl
    cases hl
    rw [one.tracker]
    exact keyed
  case log =>
    rw [one.log, d.log]
    rfl
  case keys =>
    rw [List.map_append, List.map_append, d.keys, List.map_singleton, key, List.map_singleton]
  case fates =>
    intro r hr
    rcases List.mem_append.mp hr with old | new
    · exact d.fates r old
    · rw [List.mem_singleton.mp new]
      exact fate
  case sent =>
    rw [List.flatten_append, d.sent, numbers_snoc, List.map_append, one.sent, key]
    split <;> simp [Heard.frame]
  case kept =>
    rw [one.kept, d.kept, numbers_snoc, List.length_append]
    split <;> simp
  case drops =>
    rw [one.drops, d.drops, numbers_snoc, List.length_append]
    split <;> simp

theorem decided_run (dport : UInt16) (loss : ℚ) (seed : UInt64) (mtu overhead : UInt16)
    {hs : List Heard} (inOrder : InOrder (hs.map Heard.no)) :
    ∃ rows, Decided dport (testRule dport loss seed) hs
      (broker dport (testRule dport loss seed) mtu overhead hs).1
      (broker dport (testRule dport loss seed) mtu overhead hs).2 rows := by
  induction hs using List.reverseRecOn with
  | nil => exact ⟨[], rfl, fun _ => rfl, by simp, rfl, rfl, by simp, rfl, rfl, rfl⟩
  | append_singleton hs h ih =>
    obtain ⟨before, suits⟩ := inOrder_snoc.mp inOrder
    obtain ⟨rows, d⟩ := ih before
    rw [broker, List.map_append, List.map_singleton, run_snoc]
    exact ⟨_, decided_step d suits⟩

/-- `a[k] = v`. -/
def assign (a : List (Text × Text)) (k v : Text) : List (Text × Text) :=
  (k, v) :: a.filter fun kv => kv.1 ≠ k

/-- A line of nothing but white space. -/
def isSpace (l : Text) : Bool := l.all Char.isWhitespace

structure Arrays where
  a : List (Text × Text)
  b : List (Text × Text)

/-- The two rules of the script on a record with its `NR` and `FNR`. -/
def compareStep (v : Arrays) (r : Nat × Nat × Text) : Arrays :=
  let l := r.2.2
  if isComment l ∨ isSpace l then v
  else if r.2.1 = r.1 then { v with a := assign v.a (column 6 l) (column 8 l) }
  else { v with b := assign v.b (column 6 l) (column 8 l) }

/-- `x != y` of two fields. -/
def differ (x y : Text) : Bool :=
  match number? x, number? y with
  | some m, some n => m ≠ n
  | _, _ => x ≠ y

/-- What the script prints; the last is its success. -/
inductive Comparison where
  | fewCommon (common : Nat)
  | nonDeterministic (mism common : Nat)
  | ok (common drops : Nat)
  deriving DecidableEq

/-- `determinism.sh` on two drop logs. -/
def determinism (log1 log2 : List Text) : Comparison :=
  let v := (numberedLines 0 log1 ++ numberedLines log1.length log2).foldl compareStep ⟨[], []⟩
  let inBoth := v.a.filter fun kv => (v.b.lookup kv.1).isSome
  let common := inBoth.length
  let mism := inBoth.countP fun kv => (v.b.lookup kv.1).any (differ kv.2)
  let drops := (inBoth.map fun kv => (number? kv.2).getD 0).sum
  if common < 200 then .fewCommon common
  else if 0 < mism then .nonDeterministic mism common
  else .ok common drops

/-- What the array holds of a row. -/
def entry (r : DropRow) : Text × Text := (decimal r.index.toNat, flagText r.dropped)

theorem dropRow_taken (r : DropRow) :
    isComment (line (dropColumns r)) = false ∧ isSpace (line (dropColumns r)) = false := by
  obtain ⟨d, ds, digits, isDigit⟩ := decimal_head r.tMs.toNat
  have head : (line (dropColumns r)).head? = some d := by
    rw [dropColumns, digits, line_head]
  have mem : d ∈ line (dropColumns r) := List.mem_of_mem_head? head
  constructor
  · rw [isComment, head, decide_eq_false_iff_not]
    intro hash
    rw [Option.some.inj hash] at isDigit
    exact absurd isDigit (by decide)
  · rw [isSpace, List.all_eq_false]
    refine ⟨d, mem, ?_⟩
    rw [Char.isWhitespace]
    intro white
    simp only [Bool.or_eq_true, decide_eq_true_eq] at white
    rcases white with ((rfl | rfl) | rfl) | rfl <;> exact absurd isDigit (by decide)

/-- A rule of the script for a line of the first file, or of the second. -/
def compareLine (first : Bool) (v : Arrays) (l : Text) : Arrays :=
  if isComment l ∨ isSpace l then v
  else if first then { v with a := assign v.a (column 6 l) (column 8 l) }
  else { v with b := assign v.b (column 6 l) (column 8 l) }

/-- Rules that ask which file a record is of, on the lines of a file behind `nr` others. -/
theorem foldl_numbered {σ : Type} {step : σ → Nat × Nat × Text → σ} {rule : Bool → σ → Text → σ}
    (asks : ∀ v r, step v r = rule (r.2.1 = r.1) v r.2.2) (nr : Nat) (file : List Text) (v : σ) :
    (numberedLines nr file).foldl step v = file.foldl (rule (nr = 0)) v := by
  have steps : ∀ (v : σ) (l : Text) (i : Nat),
      step v (nr + i + 1, i + 1, l) = rule (nr = 0) v l := by
    intro v l i
    have same : i + 1 = nr + i + 1 ↔ nr = 0 := by omega
    simp only [asks, same]
  rw [numberedLines, List.mapIdx_eq_zipIdx_map, List.foldl_map]
  simp only [steps]
  conv_rhs => rw [← List.zipIdx_map_fst 0 file, List.foldl_map]

theorem compareStep_eq (v : Arrays) (r : Nat × Nat × Text) :
    compareStep v r = compareLine (r.2.1 = r.1) v r.2.2 := by
  simp only [compareStep, compareLine, decide_eq_true_eq]

theorem compareLine_row (first : Bool) (v : Arrays) (r : DropRow) :
    compareLine first v (line (dropColumns r)) =
      if first then { v with a := assign v.a (entry r).1 (entry r).2 }
      else { v with b := assign v.b (entry r).1 (entry r).2 } := by
  obtain ⟨row, text⟩ := dropRow_taken r
  rw [compareLine, row, text, column_drop, column_drop]
  rfl

theorem assign_rows {rows : List DropRow} (distinct : (rows.map fun r => r.index.toNat).Nodup) :
    rows.foldl (fun a r => assign a (entry r).1 (entry r).2) [] = (rows.map entry).reverse := by
  induction rows using List.reverseRecOn with
  | nil => rfl
  | append_singleton rows r ih =>
    rw [List.map_append, List.nodup_append] at distinct
    obtain ⟨before, -, apart⟩ := distinct
    have fresh : ∀ kv ∈ (rows.map entry).reverse, kv.1 ≠ (entry r).1 := by
      intro kv hkv same
      obtain ⟨q, hq, rfl⟩ := List.mem_map.mp (List.mem_reverse.mp hkv)
      exact apart _ (List.mem_map_of_mem hq) _ (by simp) (decimal_injective same)
    rw [List.foldl_append, ih before, List.foldl_cons, List.foldl_nil, assign,
      List.filter_eq_self.mpr fun kv hkv => by simpa using fresh kv hkv]
    simp

theorem foldl_compareLine (first : Bool) (rows : List DropRow) (v : Arrays) :
    rows.foldl (fun v r => compareLine first v (line (dropColumns r))) v =
      if first then { v with a := rows.foldl (fun a r => assign a (entry r).1 (entry r).2) v.a }
      else { v with b := rows.foldl (fun b r => assign b (entry r).1 (entry r).2) v.b } := by
  induction rows generalizing v with
  | nil => cases first <;> rfl
  | cons r rows ih =>
    rw [List.foldl_cons, ih, compareLine_row]
    cases first <;> rfl

/-- What the script has read of the two logs. -/
theorem arrays_read {rows rows' : List DropRow}
    (distinct : (rows.map fun r => r.index.toNat).Nodup)
    (distinct' : (rows'.map fun r => r.index.toNat).Nodup) :
    (numberedLines 0 (dropFile rows) ++ numberedLines (dropFile rows).length (dropFile rows')).foldl
      compareStep ⟨[], []⟩ = ⟨(rows.map entry).reverse, (rows'.map entry).reverse⟩ := by
  have header : ∀ first v, compareLine first v dropHeader = v := by
    intro first v
    exact if_pos (.inl (by decide))
  rw [List.foldl_append, foldl_numbered compareStep_eq, foldl_numbered compareStep_eq, dropFile,
    dropFile, List.foldl_cons, List.foldl_cons, header, header, List.foldl_map, List.foldl_map]
  simp only [Function.comp_apply, decide_true, List.length_cons, Nat.add_eq_zero_iff, one_ne_zero,
    and_false, decide_false, foldl_compareLine, if_true, Bool.false_eq_true, if_false,
    assign_rows distinct, assign_rows distinct']

/-- The value of a key that stands once in an array. -/
theorem lookup_of_mem {a : List (Text × Text)} (distinct : (a.map Prod.fst).Nodup) {k v : Text}
    (mem : (k, v) ∈ a) : a.lookup k = some v := by
  induction a with
  | nil => cases mem
  | cons kv a ih =>
    rw [List.map_cons, List.nodup_cons] at distinct
    rcases List.mem_cons.mp mem with rfl | later
    · rw [List.lookup_cons_self]
    · have apart : (k == kv.1) = false := by
        rw [beq_eq_false_iff_ne]
        rintro rfl
        exact distinct.1 (List.mem_map.mpr ⟨_, later, rfl⟩)
      rw [List.lookup_cons, apart]
      exact ih distinct.2 later

theorem lookup_entry {rows : List DropRow} (distinct : (rows.map fun r => r.index.toNat).Nodup)
    {r : DropRow} (hr : r ∈ rows) :
    (rows.map entry).reverse.lookup (decimal r.index.toNat) = some (flagText r.dropped) := by
  have keys : ((rows.map entry).reverse.map Prod.fst).Nodup := by
    rw [List.map_reverse, List.nodup_reverse, List.map_map]
    have := distinct.map decimal_injective
    rwa [List.map_map] at this
  exact lookup_of_mem keys (List.mem_reverse.mpr (List.mem_map_of_mem hr))

theorem lookup_isSome {rows : List DropRow} (n : Nat) :
    ((rows.map entry).reverse.lookup (decimal n)).isSome =
      decide (n ∈ rows.map fun r => r.index.toNat) := by
  rw [Bool.eq_iff_iff, List.lookup_isSome_iff, decide_eq_true_eq, List.mem_map]
  constructor
  · rintro ⟨kv, hkv, same⟩
    obtain ⟨r, hr, rfl⟩ := List.mem_map.mp (List.mem_reverse.mp hkv)
    exact ⟨r, hr, decimal_injective (eq_of_beq same).symm⟩
  · rintro ⟨r, hr, rfl⟩
    exact ⟨entry r, List.mem_reverse.mpr (List.mem_map_of_mem hr), BEq.refl _⟩

theorem InOrder.nodup {nos : List Nat} (inOrder : InOrder nos) : nos.Nodup := by
  have grows : nos.IsChain (· < ·) := inOrder.2.imp fun _ _ h => h.1
  exact (List.isChain_iff_pairwise.mp grows).imp fun h => Nat.ne_of_lt h

theorem differ_self (b : Bool) : differ (flagText b) (flagText b) = false := by
  simp [differ, flagText]

/-- Rows with the same fates are not told apart. -/
theorem determinism_eq {rows rows' : List DropRow}
    (distinct : (rows.map fun r => r.index.toNat).Nodup)
    (distinct' : (rows'.map fun r => r.index.toNat).Nodup)
    (agree : ∀ r ∈ rows, ∀ r' ∈ rows', r.index.toNat = r'.index.toNat → r.dropped = r'.dropped) :
    ∀ both, both = rows.filter (fun r => r.index.toNat ∈ rows'.map fun r' => r'.index.toNat) →
    determinism (dropFile rows) (dropFile rows') =
      if both.length < 200 then .fewCommon both.length
      else .ok both.length (both.countP fun r => r.dropped) := by
  rintro both rfl
  have inBoth : ((rows.map entry).reverse.filter fun kv =>
      ((rows'.map entry).reverse.lookup kv.1).isSome) =
      ((rows.filter fun r => r.index.toNat ∈ rows'.map fun r' => r'.index.toNat).map
        entry).reverse := by
    rw [List.filter_reverse, List.filter_map]
    simp only [Function.comp_def, entry, lookup_isSome]
  have none : ∀ r ∈ rows.filter fun r => r.index.toNat ∈ rows'.map fun r' => r'.index.toNat,
      ((rows'.map entry).reverse.lookup (entry r).1).any (differ (entry r).2) = false := by
    intro r hr
    obtain ⟨hr, mem⟩ := List.mem_filter.mp hr
    obtain ⟨r', hr', same⟩ := List.mem_map.mp (of_decide_eq_true mem)
    rw [entry, ← same, lookup_entry distinct' hr', Option.any_some, agree r hr r' hr' same.symm,
      differ_self]
  have drops : ∀ rs : List DropRow,
      ((rs.map entry).map fun kv => (number? kv.2).getD 0).sum = rs.countP fun r => r.dropped := by
    intro rs
    induction rs with
    | nil => rfl
    | cons r rs ih =>
      rw [List.map_cons, List.map_cons, List.sum_cons, ih, List.countP_cons]
      cases hd : r.dropped <;> simp [entry, flagText, hd, Nat.add_comm]
  rw [determinism]
  simp only [arrays_read distinct distinct', inBoth]
  generalize rows.filter (fun r => r.index.toNat ∈ rows'.map fun r' => r'.index.toNat) = both
    at none
  have same : (both.map entry).reverse.countP (fun kv =>
      ((rows'.map entry).reverse.lookup kv.1).any (differ kv.2)) = 0 := by
    rw [List.countP_eq_zero]
    intro kv hkv
    obtain ⟨r, hr, rfl⟩ := List.mem_map.mp (List.mem_reverse.mp hkv)
    rw [none r hr]
    exact Bool.false_ne_true
  rw [same, List.map_reverse, List.sum_reverse, drops, List.length_reverse, List.length_map,
    if_neg (Nat.lt_irrefl 0)]

/-- Two runs of the broker over the same stream, each with losses of its own, decide the same
about every frame that both heard, and the script finds it. -/
theorem runs_agree (dport : UInt16) (loss : ℚ) (seed : UInt64)
    (mtu overhead mtu' overhead' : UInt16) {hs hs' : List Heard}
    (inOrder : InOrder (hs.map Heard.no))
    (inOrder' : InOrder (hs'.map Heard.no)) :
    ∃ rows rows',
      (broker dport (testRule dport loss seed) mtu overhead hs).1.gDropLog = some rows ∧
      (broker dport (testRule dport loss seed) mtu' overhead' hs').1.gDropLog = some rows' ∧
      ∀ both, both = (hs.map Heard.no).filter (· ∈ hs'.map Heard.no) →
      determinism (dropFile rows) (dropFile rows') =
        if both.length < 200 then .fewCommon both.length
        else .ok both.length
          (both.countP fun n => ciRuleDecide (testRule dport loss seed) (UInt64.ofNat n)) := by
  obtain ⟨rows, d⟩ := decided_run dport loss seed mtu overhead inOrder
  obtain ⟨rows', d'⟩ := decided_run dport loss seed mtu' overhead' inOrder'
  refine ⟨rows, rows', d.log, d'.log, ?_⟩
  rintro both rfl
  have agree : ∀ r ∈ rows, ∀ r' ∈ rows', r.index.toNat = r'.index.toNat →
      r.dropped = r'.dropped := by
    intro r hr r' hr' same
    rw [d.fates r hr, d'.fates r' hr', UInt64.toNat_inj.mp same]
  have number : ∀ r : DropRow, UInt64.ofNat r.index.toNat = r.index := fun r => UInt64.ofNat_toNat
  have fates : ∀ r ∈ rows.filter fun r => r.index.toNat ∈ hs'.map Heard.no,
      r.dropped = ciRuleDecide (testRule dport loss seed) (UInt64.ofNat r.index.toNat) := by
    intro r hr
    rw [number]
    exact d.fates r (List.mem_of_mem_filter hr)
  rw [determinism_eq (d.keys ▸ inOrder.nodup) (d'.keys ▸ inOrder'.nodup) agree _ rfl, ← d.keys,
    List.filter_map, List.length_map, List.countP_map, d'.keys]
  simp only [Function.comp_def]
  rw [List.countP_congr fun r hr => by rw [fates r hr]]

def lossyEnds : List Heard := [⟨0, 5, false⟩, ⟨2, 6, false⟩]

def lossyStart : List Heard := [⟨2, 9, true⟩, ⟨3, 9, true⟩]

theorem one_common_frame : ∃ rows rows',
    (broker 13 (testRule 13 (3 / 10) 1) 200 4 lossyEnds).1.gDropLog = some rows ∧
    (broker 13 (testRule 13 (3 / 10) 1) 200 4 lossyStart).1.gDropLog = some rows' ∧
    determinism (dropFile rows) (dropFile rows') = .fewCommon 1 := by
  obtain ⟨rows, rows', log, log', script⟩ :=
    @runs_agree 13 (3 / 10) 1 200 4 200 4 lossyEnds lossyStart (by decide) (by decide)
  exact ⟨rows, rows', log, log', script [2] (by decide)⟩

/-- `awk -F, '/^#/{next} $6==1{print $8}' | sort -n`. -/
def observedRdp (apm : List Text) : List Text :=
  sortN ((apm.filter fun l => !isComment l && columnIs 6 1 l).map (column 8))

structure JoinVars where
  dropped : List Text
  nd : Nat
  observed : List Text
  no : Nat

/-- The two rules of the join on a record with its `NR` and `FNR`. -/
def joinStep (v : JoinVars) (r : Nat × Nat × Text) : JoinVars :=
  if r.2.1 = r.1 then
    { v with dropped := v.dropped.insert (firstField r.2.2), nd := v.nd + 1 }
  else { v with observed := v.observed.insert (firstField r.2.2), no := v.no + 1 }

/-- The variables of the join. -/
def joined (dropped observed : List Text) : JoinVars :=
  (numberedLines 0 dropped ++ numberedLines dropped.length observed).foldl joinStep ⟨[], 0, [], 0⟩

/-- What the script prints; the last is its success. -/
inductive LoopVerdict where
  | nothingDropped
  | nothingObserved
  | disagree (overlap : Nat)
  | fewKept
  | missed
  | pass
  deriving DecidableEq

/-- `two_oracle.sh` on the drop log and the monitor's file. -/
def twoOracle (drop apm : List Text) : LoopVerdict :=
  let dropped := sortN (dropIndices 1 drop)
  let kept := sortN (dropIndices 0 drop)
  let observed := observedRdp apm
  let v := joined dropped observed
  let overlap := v.dropped.countP v.observed.contains
  if v.nd = 0 then .nothingDropped
  else if v.no = 0 then .nothingObserved
  else if 0 < overlap then .disagree overlap
  else if kept.length < 100 then .fewKept
  else if countIn kept observed < kept.length * 90 / 100 then .missed
  else .pass

/-- Captures of the watched port. -/
def onPort (dport : UInt16) (x : CspPacket × UInt32) : Bool := x.1.dport = dport

theorem gen_row (dport : UInt16) {i : Nat} (low : i < 65536) {cfg : Tap.Settings}
    (watches : cfg.matchDport = dport.toNat) (ix : Indexing) (p : Rtt.CiRttPairing) (t : UInt32) :
    ∃ p' row, monDrainerRow cfg ix p (genPacket dport i) t = (p', some row) ∧
      columnIs 6 1 (line (packetColumns row)) = true ∧
      column 8 (line (packetColumns row)) = decimal i := by
  have port : UInt16.ofInt cfg.matchDport = dport := watches ▸ ofInt_port dport
  have matched : cfg.matchDport < 0 ∨ (genPacket dport i).dport = UInt16.ofInt cfg.matchDport :=
    Or.inr port.symm
  have rdp : (frameOf (genPacket dport i)).isRdp = true := by
    have flag : ¬ ciCspFrdp = 0 := by decide
    simp [frameOf, ciFrameFromFields, genPacket, flag]
  have parses : ciRdpParseTrailer (genPacket dport i).data (genPacket dport i).flags = _ :=
    gen_parses i
  have hseq : (UInt16.ofNat i).toNat = i := UInt16.toNat_ofNat_of_lt' low
  rw [monDrainerRow, if_pos matched]
  simp only [rdp, if_true, monDrainerRdp, if_pos matched, parses, Option.map_some]
  refine ⟨_, _, rfl, ?_, ?_⟩
  · rw [columnIs, column_packet]
    exact decide_eq_true (number?_decimal 1)
  · rw [column_packet]
    exact congrArg decimal hseq

/-- The numbers in the monitor's file are those of the captured frames. -/
theorem gen_numbers (dport : UInt16) {cfg : Tap.Settings} (watches : cfg.matchDport = dport.toNat)
    (ix : Indexing) {kept : Nat → Prop} (caps : List (CspPacket × UInt32)) (ring : Rtt.CiRttPairing)
    (own : ∀ x ∈ caps, onPort dport x = true → ∃ i < 65536, kept i ∧ x.1 = genPacket dport i) :
    ∃ ns : List Nat,
      (((packetRows cfg ix ring caps).map (line ∘ packetColumns)).filter (columnIs 6 1)).map
        (column 8) = ns.map decimal ∧
      ns.length = caps.countP (onPort dport) ∧ ∀ n ∈ ns, kept n := by
  induction caps generalizing ring with
  | nil => exact ⟨[], rfl, rfl, by simp⟩
  | cons x caps ih =>
    obtain ⟨pk, t⟩ := x
    obtain ⟨ns, prints, count, all⟩ :=
      ih (monDrainerRow cfg ix ring pk t).1 fun y hy => own y (List.mem_cons_of_mem _ hy)
    rw [packetRows_cons]
    by_cases ours : onPort dport (pk, t) = true
    · obtain ⟨i, low, hkept, rfl⟩ := own (pk, t) List.mem_cons_self ours
      obtain ⟨ring', row, eq, taken, shows⟩ := gen_row dport low watches ix ring t
      refine ⟨i :: ns, ?_, ?_, List.forall_mem_cons.mpr ⟨hkept, all⟩⟩
      · rw [eq] at prints ⊢
        rw [Option.toList_some, List.singleton_append, List.map_cons, Function.comp_apply,
          List.filter_cons_of_pos taken, List.map_cons, List.map_cons, prints, shows]
      · rw [List.countP_cons_of_pos ours, List.length_cons, count]
    · refine ⟨ns, ?_, ?_, all⟩
      · have none : (monDrainerRow cfg ix ring pk t).2 = none := by
          by_contra some
          obtain ⟨row, eq⟩ := Option.ne_none_iff_exists'.mp some
          obtain ⟨matched, -⟩ := row_head eq
          rw [watches, ofInt_port] at matched
          exact ours (decide_eq_true (matched.resolve_left (by omega)))
        rw [none, Option.toList_none, List.nil_append, prints]
      · rw [List.countP_cons_of_neg ours, count]

/-- A rule of the join for a line of the first file, or of the second. -/
def joinLine (first : Bool) (v : JoinVars) (l : Text) : JoinVars :=
  if first then { v with dropped := v.dropped.insert (firstField l), nd := v.nd + 1 }
  else { v with observed := v.observed.insert (firstField l), no := v.no + 1 }

theorem joinStep_eq (v : JoinVars) (r : Nat × Nat × Text) :
    joinStep v r = joinLine (r.2.1 = r.1) v r.2.2 := by
  simp only [joinStep, joinLine, decide_eq_true_eq]

/-- The keys of an array after the lines of a file. -/
def keysAfter (keys file : List Text) : List Text :=
  file.foldl (fun keys l => keys.insert (firstField l)) keys

theorem mem_keysAfter {keys file : List Text} {k : Text} :
    k ∈ keysAfter keys file ↔ k ∈ keys ∨ k ∈ file.map firstField := by
  rw [keysAfter]
  induction file generalizing keys with
  | nil => simp
  | cons l file ih =>
    rw [List.foldl_cons, ih, List.mem_insert_iff, List.map_cons, List.mem_cons]
    tauto

theorem foldl_joinLine (first : Bool) (file : List Text) (v : JoinVars) :
    file.foldl (joinLine first) v =
      if first then { v with dropped := keysAfter v.dropped file, nd := v.nd + file.length }
      else { v with observed := keysAfter v.observed file, no := v.no + file.length } := by
  induction file generalizing v with
  | nil => cases first <;> rfl
  | cons l file ih =>
    rw [List.foldl_cons, ih]
    cases first <;> simp [joinLine, keysAfter, Nat.add_assoc, Nat.add_comm 1]

/-- Behind an empty file the second one is taken for the first. -/
theorem joined_lossless (observed : List Text) :
    (joined [] observed).nd = observed.length ∧ (joined [] observed).no = 0 := by
  have all : joined [] observed = ⟨keysAfter [] observed, 0 + observed.length, [], 0⟩ := by
    rw [joined, List.foldl_append, foldl_numbered joinStep_eq, foldl_numbered joinStep_eq]
    exact foldl_joinLine true observed ⟨[], 0, [], 0⟩
  rw [all]
  exact ⟨Nat.zero_add _, rfl⟩

theorem joined_read {dropped : List Text} (lossy : dropped ≠ []) (observed : List Text) :
    (joined dropped observed).nd = dropped.length ∧
    (joined dropped observed).no = observed.length ∧
    (∀ k, k ∈ (joined dropped observed).dropped ↔ k ∈ dropped.map firstField) ∧
    ∀ k, k ∈ (joined dropped observed).observed ↔ k ∈ observed.map firstField := by
  have behind : ¬ dropped.length = 0 := mt List.length_eq_zero_iff.mp lossy
  have all : joined dropped observed =
      ⟨keysAfter [] dropped, 0 + dropped.length, keysAfter [] observed, 0 + observed.length⟩ := by
    rw [joined, List.foldl_append, foldl_numbered joinStep_eq, foldl_numbered joinStep_eq,
      decide_eq_false behind, foldl_joinLine, foldl_joinLine]
    rfl
  rw [all]
  exact ⟨Nat.zero_add _, Nat.zero_add _, fun k => by simp [mem_keysAfter],
    fun k => by simp [mem_keysAfter]⟩

theorem dropIndices_numbers (rows : List DropRow) (fate : Bool) :
    dropIndices fate.toNat (dropFile rows) = (numbers rows fate).map decimal := by
  rw [dropIndices_dropFile, numbers, List.map_map]
  rfl

theorem numbers_apart {rows : List DropRow} (distinct : (rows.map fun r => r.index.toNat).Nodup)
    {n : Nat} (drop : n ∈ numbers rows true) : n ∉ numbers rows false := by
  intro keep
  obtain ⟨r, hr, rfl⟩ := List.mem_map.mp drop
  obtain ⟨r', hr', same⟩ := List.mem_map.mp keep
  obtain ⟨hr, dropped⟩ := List.mem_filter.mp hr
  obtain ⟨hr', kept⟩ := List.mem_filter.mp hr'
  obtain rfl := List.inj_on_of_nodup_map distinct hr' hr same
  simp_all

theorem firstField_map (ns : List Nat) : (ns.map decimal).map firstField = ns.map decimal := by
  simp only [List.map_map, Function.comp_def, firstField_decimal]

/-- The script on the logs of two oracles that agree. -/
theorem twoOracle_eq {rows : List DropRow} {apm : List Text} {observed : List Nat}
    (reads : observedRdp apm = observed.map decimal)
    (agree : ∀ n ∈ observed, n ∈ numbers rows false)
    (distinct : (rows.map fun r => r.index.toNat).Nodup) :
    (∀ overlap, twoOracle (dropFile rows) apm ≠ .disagree overlap) ∧
    (twoOracle (dropFile rows) apm = .pass ↔
      0 < (numbers rows true).length ∧ 0 < observed.length ∧ 100 ≤ (numbers rows false).length ∧
        (numbers rows false).length * 90 / 100 ≤ observed.length) := by
  obtain ⟨ds, sortedD, permD⟩ := sortN_decimal (numbers rows true)
  obtain ⟨ks, sortedK, permK⟩ := sortN_decimal (numbers rows false)
  have hd : sortN (dropIndices 1 (dropFile rows)) = ds.map decimal :=
    (congrArg sortN (dropIndices_numbers rows true)).trans sortedD
  have hk : sortN (dropIndices 0 (dropFile rows)) = ks.map decimal :=
    (congrArg sortN (dropIndices_numbers rows false)).trans sortedK
  have seen : countIn (ks.map decimal) (observed.map decimal) = observed.length := by
    rw [countIn_decimal, List.countP_eq_length]
    intro n hn
    exact decide_eq_true (permK.mem_iff.mpr (agree n hn))
  rw [← permD.length_eq, ← permK.length_eq]
  simp only [twoOracle, hd, hk, reads, seen, List.length_map]
  by_cases lossless : ds = []
  · obtain ⟨nd, no⟩ := joined_lossless (observed.map decimal)
    subst lossless
    rw [List.map_nil, nd, no]
    split
    case isTrue => exact ⟨fun overlap => by simp, by simp⟩
    case isFalse => exact ⟨fun overlap => by simp, by simp⟩
  · obtain ⟨nd, no, inD, inO⟩ :=
      joined_read (mt List.map_eq_nil_iff.mp lossless) (observed.map decimal)
    have overlap : (joined (ds.map decimal) (observed.map decimal)).dropped.countP
        (joined (ds.map decimal) (observed.map decimal)).observed.contains = 0 := by
      rw [List.countP_eq_zero]
      intro k hk' both
      rw [inD, firstField_map] at hk'
      obtain ⟨n, hn, rfl⟩ := List.mem_map.mp hk'
      have mem := (inO _).mp (List.contains_iff_mem.mp both)
      rw [firstField_map, List.mem_map_of_injective decimal_injective] at mem
      exact numbers_apart distinct (permD.mem_iff.mp hn) (agree n mem)
    rw [nd, no, overlap, List.length_map, List.length_map]
    have some : 0 < ds.length := List.length_pos_of_ne_nil lossless
    rw [if_neg (Nat.ne_of_gt some)]
    split
    case isTrue none => simp [none]
    case isFalse captured =>
      rw [if_neg (Nat.lt_irrefl 0)]
      split
      case isTrue few =>
        exact ⟨fun overlap => by simp, by simp; omega⟩
      case isFalse enough =>
        split
        case isTrue missed => exact ⟨fun overlap => by simp, by simp; omega⟩
        case isFalse covered => exact ⟨fun overlap => by simp, by simp; omega⟩

/-- Whatever the broker hears of a stream of at most 65536 frames, and whatever becomes of what it
sends, the two oracles do not disagree, and the loop passes exactly if enough frames were
dropped, kept and captured. -/
theorem two_oracle_loop (dport : UInt16) (loss : ℚ) (seed : UInt64) (mtu overhead : UInt16)
    {hs : List Heard} (inOrder : InOrder (hs.map Heard.no)) (low : ∀ h ∈ hs, h.no < 65536)
    {cfg : Tap.Settings} (watches : cfg.matchDport = dport.toNat) (ix : Indexing)
    (ring : Rtt.CiRttPairing) {caps : List (CspPacket × UInt32)}
    (own : ∀ x ∈ caps, onPort dport x = true →
      x.1 ∈ (broker dport (testRule dport loss seed) mtu overhead hs).2.flatten)
    {apm : List Text} (written : (apm.filter fun l => !isComment l) =
      (packetRows cfg ix ring caps).map (line ∘ packetColumns)) :
    ∃ rows g, g = (broker dport (testRule dport loss seed) mtu overhead hs).1 ∧
      g.gDropLog = some rows ∧ g.gDrops + g.gKept = hs.length ∧
      (∀ overlap, twoOracle (dropFile rows) apm ≠ .disagree overlap) ∧
      (twoOracle (dropFile rows) apm = .pass ↔
        0 < g.gDrops ∧ 0 < caps.countP (onPort dport) ∧ 100 ≤ g.gKept ∧
          g.gKept * 90 / 100 ≤ caps.countP (onPort dport)) := by
  obtain ⟨rows, d⟩ := decided_run dport loss seed mtu overhead inOrder
  have distinct : (rows.map fun r => r.index.toNat).Nodup := d.keys ▸ inOrder.nodup
  have total : rows.length = hs.length := by simpa using congrArg List.length d.keys
  have below : ∀ n ∈ numbers rows false, n < 65536 := by
    intro n hn
    obtain ⟨r, hr, rfl⟩ := List.mem_map.mp hn
    have mem : r.index.toNat ∈ hs.map Heard.no :=
      d.keys ▸ List.mem_map_of_mem (List.mem_of_mem_filter hr)
    obtain ⟨h, hh, eq⟩ := List.mem_map.mp mem
    exact eq ▸ low h hh
  obtain ⟨ns, prints, count, all⟩ := @gen_numbers dport cfg watches ix (· ∈ numbers rows false)
    caps ring (by
      intro x hx ours
      have sent := own x hx ours
      rw [d.sent] at sent
      obtain ⟨n, hn, eq⟩ := List.mem_map.mp sent
      exact ⟨n, below n hn, hn, eq.symm⟩)
  obtain ⟨observed, sorted, perm⟩ := sortN_decimal ns
  have reads : observedRdp apm = observed.map decimal := by
    rw [observedRdp, ← sorted, ← prints, ← written, List.filter_filter]
    congr 2
    apply List.filter_congr
    intro l _
    exact Bool.and_comm _ _
  have script := twoOracle_eq reads (fun n hn => all n (perm.mem_iff.mp hn)) distinct
  rw [← d.kept, ← d.drops, perm.length_eq, count] at script
  exact ⟨rows, _, rfl, d.log, by rw [d.drops, d.kept, numbers_length, total], script⟩

def watchRdp : Tap.Settings := { matchDport := 13, ours := fun _ => false }

/-- The second frame twice, and a frame of another port; the first frame was dropped. -/
def loopCaptures : List (CspPacket × UInt32) :=
  [(genPacket 13 2, 20), (genPacket 8 0, 21), (genPacket 13 2, 22)]

def loopFile : List Text :=
  "# t_ms,src".toList ::
    (packetRows watchRdp ⟨200, 4⟩ Rtt.ciRttInit loopCaptures).map (line ∘ packetColumns)

theorem loop_of_two_frames : ∃ rows,
    (broker 13 (testRule 13 (1 / 2) 3) 200 4 lossyEnds).1.gDropLog = some rows ∧
    (broker 13 (testRule 13 (1 / 2) 3) 200 4 lossyEnds).1.gDrops = 1 ∧
      twoOracle (dropFile rows) loopFile ≠ .disagree 1 := by
  obtain ⟨rows, g, rfl, log, -, agree, -⟩ := @two_oracle_loop 13 (1 / 2) 3 200 4 lossyEnds
    (by decide) (by decide) watchRdp rfl ⟨200, 4⟩ Rtt.ciRttInit loopCaptures (by decide +kernel)
    loopFile (by decide +kernel)
  exact ⟨rows, log, by decide +kernel, agree 1⟩

end CspLinksim.BrokerBench
