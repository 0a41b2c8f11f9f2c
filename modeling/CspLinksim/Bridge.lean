import CspLinksim.DropIface

/-!
# The split-horizon bridge (`ci_inject_bridge.c`)

The pump forwards by source address, so that it never forwards what it sent itself. Each
medium may hand back a frame that was sent on it, as often and as late as it likes, and
in another representation as long as the source address is the same.
-/

namespace CspLinksim.Bridge

open Runs Packet Rule DropIface

def cspNoViaAddress : UInt16 := 0xFFFF

/-- The interface a frame is read from. -/
inductive Side where
  | ingress
  | egress
  deriving DecidableEq

/-- The variables of `main` that the pump reads or writes. -/
structure Pump where
  srcAddr : UInt16
  gDedupOn : Bool
  shim : CiDropIface
  gDupIn : Nat
  gDupOut : Nat
  gEchoIn : Nat
  gEchoOut : Nat
  gReverseFrames : Nat
  deriving DecidableEq

/-- What is outside the pump in one pass: the answer of `csp_dedup_is_duplicate`, the clock,
and what the egress interface answers if it is asked. -/
structure Env where
  isDuplicate : Bool
  tMs : UInt32
  targetRc : Int
  deriving DecidableEq

/-- What a pass does with its frame. -/
inductive Fate where
  | freed
  | toShim (reply : Reply)
  | toIngress
  deriving DecidableEq

/-- One pass of the loop of `main`. `csp_send_direct_iface` is the one call of the nexthop of
its interface; airtime and pacing only delay it. -/
def pump (b : Pump) (iface : Side) (packet : CspPacket) (env : Env) : Pump × Fate :=
  if b.gDedupOn ∧ env.isDuplicate then
    if iface = .ingress then ({ b with gDupIn := b.gDupIn + 1 }, .freed)
    else ({ b with gDupOut := b.gDupOut + 1 }, .freed)
  else if iface = .ingress then
    if packet.src ≠ b.srcAddr then ({ b with gEchoIn := b.gEchoIn + 1 }, .freed)
    else
      let (shim, reply) := ciDropIfaceNexthop b.shim
        { packet, via := cspNoViaAddress, fromMe := 0, tMs := env.tMs, targetRc := env.targetRc }
      ({ b with shim }, .toShim reply)
  else
    if packet.src = b.srcAddr then ({ b with gEchoOut := b.gEchoOut + 1 }, .freed)
    else ({ b with gReverseFrames := b.gReverseFrames + 1 }, .toIngress)

/-- The counters a frame can end up in. -/
inductive Counter where
  | dupIn
  | dupOut
  | echoIn
  | echoOut
  | reverseFrames
  | injectedDrops
  | forwarded
  | passthrough
  deriving DecidableEq

def Pump.count (b : Pump) : Counter → Nat
  | .dupIn => b.gDupIn
  | .dupOut => b.gDupOut
  | .echoIn => b.gEchoIn
  | .echoOut => b.gEchoOut
  | .reverseFrames => b.gReverseFrames
  | .injectedDrops => b.shim.injectedDrops
  | .forwarded => b.shim.forwarded
  | .passthrough => b.shim.passthrough

/-- A frame with the number of its genuine arrival. -/
structure Frame where
  token : Nat
  packet : CspPacket
  deriving DecidableEq

/-- The pump and the traffic so far: the genuine arrivals on each side, and what the bridge
handed to the shim, what the shim passed on to the egress, and what was sent back. -/
structure Media where
  bridge : Pump
  read : Nat
  arrivedIn : List Frame
  arrivedOut : List Frame
  toShim : List Frame
  onEgress : List Frame
  toIngress : List Frame

/-- A frame the pump reads. -/
inductive Arrival where
  | genuine (iface : Side) (packet : CspPacket) (env : Env)
  | reflected (iface : Side) (frame : Frame) (env : Env)

def Arrival.isReflected : Arrival → Bool
  | .genuine _ _ _ => false
  | .reflected _ _ _ => true

/-- What the media can deliver: frames of the source on the ingress side, other frames on the
egress side, and on both sides what the bridge sent there. -/
def Possible (m : Media) : Arrival → Prop
  | .genuine .ingress packet _ => packet.src = m.bridge.srcAddr
  | .genuine .egress packet _ => packet.src ≠ m.bridge.srcAddr
  | .reflected .ingress frame _ =>
    ∃ g ∈ m.toIngress, g.token = frame.token ∧ g.packet.src = frame.packet.src
  | .reflected .egress frame _ =>
    ∃ g ∈ m.onEgress, g.token = frame.token ∧ g.packet.src = frame.packet.src

instance (m : Media) : (a : Arrival) → Decidable (Possible m a)
  | .genuine .ingress packet _ => inferInstanceAs (Decidable (packet.src = m.bridge.srcAddr))
  | .genuine .egress packet _ => inferInstanceAs (Decidable (packet.src ≠ m.bridge.srcAddr))
  | .reflected .ingress frame _ => inferInstanceAs (Decidable
      (∃ g ∈ m.toIngress, g.token = frame.token ∧ g.packet.src = frame.packet.src))
  | .reflected .egress frame _ => inferInstanceAs (Decidable
      (∃ g ∈ m.onEgress, g.token = frame.token ∧ g.packet.src = frame.packet.src))

/-- The shim asked the egress interface to send the packet. -/
def delegated (reply : Reply) : Bool :=
  reply.disposals.any fun
    | .bufferFree _ => false
    | .targetNexthop _ _ _ => true

/-- The pass for a frame, with its traffic. -/
def pass (m : Media) (iface : Side) (frame : Frame) (env : Env) : Media :=
  match pump m.bridge iface frame.packet env with
  | (bridge, .freed) => { m with bridge, read := m.read + 1 }
  | (bridge, .toShim reply) =>
    { m with
      bridge
      read := m.read + 1
      toShim := m.toShim ++ [frame]
      onEgress := m.onEgress ++ if delegated reply then [frame] else [] }
  | (bridge, .toIngress) =>
    { m with bridge, read := m.read + 1, toIngress := m.toIngress ++ [frame] }

def step (m : Media) : Arrival → Media
  | .genuine iface packet env =>
    let frame := ⟨m.arrivedIn.length + m.arrivedOut.length, packet⟩
    let m :=
      match iface with
      | .ingress => { m with arrivedIn := m.arrivedIn ++ [frame] }
      | .egress => { m with arrivedOut := m.arrivedOut ++ [frame] }
    pass m iface frame env
  | .reflected iface frame env => pass m iface frame env

/-- The bridge as `main` sets it up, before the first frame. -/
def start (srcAddr : UInt16) (gDedupOn : Bool) (shim : CiDropIface) : Media where
  bridge :=
    { srcAddr, gDedupOn, shim, gDupIn := 0, gDupOut := 0, gEchoIn := 0, gEchoOut := 0,
      gReverseFrames := 0 }
  read := 0
  arrivedIn := []
  arrivedOut := []
  toShim := []
  onEgress := []
  toIngress := []

/-- One counter goes up by one, and the others stay. -/
def CountsOne (b b' : Pump) : Prop :=
  ∃ c, ∀ d, b'.count d = b.count d + if d = c then 1 else 0

/-- A pass frees its frame, or forwards it in the direction its source address allows. -/
inductive Passed (b : Pump) (packet : CspPacket) : Side → Fate → Prop where
  | freed (iface : Side) : Passed b packet iface .freed
  | toShim (own : packet.src = b.srcAddr) (reply : Reply) :
    Passed b packet .ingress (.toShim reply)
  | toIngress (other : packet.src ≠ b.srcAddr) : Passed b packet .egress .toIngress

theorem shim_counts (b : Pump) (c : NexthopCall) :
    CountsOne b { b with shim := (ciDropIfaceNexthop b.shim c).1 } := by
  rcases nexthop_cases b.shim c with ⟨_, eq⟩ | ⟨_, _, eq⟩ | ⟨_, _, eq⟩
  · rw [eq]
    exact ⟨.passthrough, fun d => by cases d <;> rfl⟩
  · rw [eq]
    exact ⟨.injectedDrops, fun d => by cases d <;> rfl⟩
  · rw [eq]
    exact ⟨.forwarded, fun d => by cases d <;> rfl⟩

/-- The spec of the pump. -/
theorem pump_spec (b : Pump) (iface : Side) (packet : CspPacket) (env : Env) :
    (pump b iface packet env).1.srcAddr = b.srcAddr ∧
    CountsOne b (pump b iface packet env).1 ∧
    Passed b packet iface (pump b iface packet env).2 := by
  rw [pump]
  by_cases dup : b.gDedupOn ∧ env.isDuplicate
  · rw [if_pos dup]
    cases iface with
    | ingress => exact ⟨rfl, ⟨.dupIn, fun d => by cases d <;> rfl⟩, .freed _⟩
    | egress => exact ⟨rfl, ⟨.dupOut, fun d => by cases d <;> rfl⟩, .freed _⟩
  · rw [if_neg dup]
    cases iface with
    | ingress =>
      by_cases own : packet.src = b.srcAddr
      · simp only [if_true, ne_eq, own, not_true_eq_false, if_false]
        exact ⟨trivial, shim_counts b _, .toShim own _⟩
      · simp only [if_true, ne_eq, own, not_false_eq_true]
        exact ⟨trivial, ⟨.echoIn, fun d => by cases d <;> rfl⟩, .freed _⟩
    | egress =>
      by_cases own : packet.src = b.srcAddr
      · simp only [reduceCtorEq, if_false, if_pos own]
        exact ⟨trivial, ⟨.echoOut, fun d => by cases d <;> rfl⟩, .freed _⟩
      · simp only [reduceCtorEq, if_false, if_neg own]
        exact ⟨trivial, ⟨.reverseFrames, fun d => by cases d <;> rfl⟩, .toIngress own⟩

/-- What a pass does to the traffic. -/
inductive Moved (m m' : Media) (frame : Frame) : Side → Prop where
  | freed (iface : Side) (toShim : m'.toShim = m.toShim) (onEgress : m'.onEgress = m.onEgress)
    (toIngress : m'.toIngress = m.toIngress) : Moved m m' frame iface
  | toShim (own : frame.packet.src = m.bridge.srcAddr) (sent : List Frame)
    (toShim : m'.toShim = m.toShim ++ [frame]) (onEgress : m'.onEgress = m.onEgress ++ sent)
    (only : sent.Sublist [frame]) (toIngress : m'.toIngress = m.toIngress) :
    Moved m m' frame .ingress
  | toIngress (other : frame.packet.src ≠ m.bridge.srcAddr) (toShim : m'.toShim = m.toShim)
    (onEgress : m'.onEgress = m.onEgress) (toIngress : m'.toIngress = m.toIngress ++ [frame]) :
    Moved m m' frame .egress

structure PassSpec (m m' : Media) (iface : Side) (frame : Frame) : Prop where
  srcAddr : m'.bridge.srcAddr = m.bridge.srcAddr
  counts : CountsOne m.bridge m'.bridge
  read : m'.read = m.read + 1
  arrivedIn : m'.arrivedIn = m.arrivedIn
  arrivedOut : m'.arrivedOut = m.arrivedOut
  moved : Moved m m' frame iface

theorem pass_spec (m : Media) (iface : Side) (frame : Frame) (env : Env) :
    PassSpec m (pass m iface frame env) iface frame := by
  obtain ⟨same, counts, passed⟩ := pump_spec m.bridge iface frame.packet env
  rw [pass]
  cases hpump : pump m.bridge iface frame.packet env with
  | mk bridge fate =>
    rw [hpump] at same counts passed
    cases passed with
    | freed => exact ⟨same, counts, rfl, rfl, rfl, .freed iface rfl rfl rfl⟩
    | toShim own reply =>
      refine ⟨same, counts, rfl, rfl, rfl, .toShim own _ rfl rfl ?_ rfl⟩
      cases delegated reply with
      | true => exact List.Sublist.refl _
      | false => exact List.nil_sublist _
    | toIngress other => exact ⟨same, counts, rfl, rfl, rfl, .toIngress other rfl rfl rfl⟩

/-- The sum of the eight counters. -/
def Pump.total (b : Pump) : Nat :=
  b.count .dupIn + b.count .dupOut + b.count .echoIn + b.count .echoOut +
    b.count .reverseFrames + b.count .injectedDrops + b.count .forwarded + b.count .passthrough

theorem CountsOne.total {b b' : Pump} (h : CountsOne b b') : b'.total = b.total + 1 := by
  obtain ⟨c, counts⟩ := h
  simp only [Pump.total, counts]
  cases c <;> simp <;> omega

/-- The traffic of the bridge: every frame it sent is a genuine arrival of the other side,
and the arrivals have different numbers. -/
structure Split (m : Media) : Prop where
  forward : m.toShim.Sublist m.arrivedIn
  egress : m.onEgress.Sublist m.toShim
  reverse : m.toIngress.Sublist m.arrivedOut
  own : ∀ f ∈ m.arrivedIn, f.packet.src = m.bridge.srcAddr
  other : ∀ f ∈ m.arrivedOut, f.packet.src ≠ m.bridge.srcAddr
  numbered : ∀ f ∈ m.arrivedIn ++ m.arrivedOut,
    f.token < m.arrivedIn.length + m.arrivedOut.length
  distinctIn : (m.arrivedIn.map Frame.token).Nodup
  distinctOut : (m.arrivedOut.map Frame.token).Nodup
  counted : m.bridge.total = m.read

theorem split_start (srcAddr : UInt16) (gDedupOn : Bool) {s : CiDropIface}
    (fresh : s.injectedDrops + s.forwarded + s.passthrough = 0) :
    Split (start srcAddr gDedupOn s) where
  forward := List.Sublist.refl _
  egress := List.Sublist.refl _
  reverse := List.Sublist.refl _
  own := by
    intro f hf
    cases hf
  other := by
    intro f hf
    cases hf
  numbered := by
    intro f hf
    cases hf
  distinctIn := List.nodup_nil
  distinctOut := List.nodup_nil
  counted := by
    simp only [Pump.total, Pump.count, start]
    omega

/-- A pass keeps the split if the frame it may forward is a new arrival of its side. -/
theorem split_pass {m : Media} (h : Split m) {iface : Side} {frame : Frame} (env : Env)
    (inward : iface = .ingress → frame.packet.src = m.bridge.srcAddr →
      (m.toShim ++ [frame]).Sublist m.arrivedIn)
    (outward : iface = .egress → frame.packet.src ≠ m.bridge.srcAddr →
      (m.toIngress ++ [frame]).Sublist m.arrivedOut) : Split (pass m iface frame env) := by
  obtain ⟨srcAddr, counts, read, arrivedIn, arrivedOut, moved⟩ := pass_spec m iface frame env
  refine ⟨?_, ?_, ?_, ?_, ?_, ?_, ?_, ?_, ?_⟩
  · cases moved with
    | freed _ toShim => simpa only [toShim, arrivedIn] using h.forward
    | toShim own _ toShim => simpa only [toShim, arrivedIn] using inward rfl own
    | toIngress _ toShim => simpa only [toShim, arrivedIn] using h.forward
  · cases moved with
    | freed _ toShim onEgress => simpa only [toShim, onEgress] using h.egress
    | toShim _ _ toShim onEgress only =>
      simpa only [toShim, onEgress] using h.egress.append only
    | toIngress _ toShim onEgress => simpa only [toShim, onEgress] using h.egress
  · cases moved with
    | freed _ _ _ toIngress => simpa only [toIngress, arrivedOut] using h.reverse
    | toShim _ _ _ _ _ toIngress => simpa only [toIngress, arrivedOut] using h.reverse
    | toIngress other _ _ toIngress =>
      simpa only [toIngress, arrivedOut] using outward rfl other
  · simpa only [arrivedIn, srcAddr] using h.own
  · simpa only [arrivedOut, srcAddr] using h.other
  · simpa only [arrivedIn, arrivedOut] using h.numbered
  · simpa only [arrivedIn] using h.distinctIn
  · simpa only [arrivedOut] using h.distinctOut
  · rw [counts.total, read, h.counted]

/-- A frame that comes back does not have the source address its side forwards. -/
theorem reflected_source {m : Media} (h : Split m) {iface : Side} {frame : Frame} {env : Env}
    (possible : Possible m (.reflected iface frame env)) :
    (iface = .ingress → frame.packet.src ≠ m.bridge.srcAddr) ∧
      (iface = .egress → frame.packet.src = m.bridge.srcAddr) := by
  cases iface with
  | ingress =>
    obtain ⟨g, hg, _, same⟩ := possible
    refine ⟨fun _ => ?_, fun h => by cases h⟩
    rw [← same]
    exact h.other g (h.reverse.subset hg)
  | egress =>
    obtain ⟨g, hg, _, same⟩ := possible
    refine ⟨fun h => by (cases h), fun _ => ?_⟩
    rw [← same]
    exact h.own g (h.forward.subset (h.egress.subset hg))

/-- It is freed. -/
theorem reflected_freed {m : Media} (h : Split m) {iface : Side} {frame : Frame} {env : Env}
    (possible : Possible m (.reflected iface frame env)) :
    (pass m iface frame env).toShim = m.toShim ∧
      (pass m iface frame env).toIngress = m.toIngress := by
  obtain ⟨inward, outward⟩ := reflected_source h possible
  cases (pass_spec m iface frame env).moved with
  | freed _ toShim _ toIngress => exact ⟨toShim, toIngress⟩
  | toShim own => exact absurd own (inward rfl)
  | toIngress other => exact absurd (outward rfl) other

/-- A new number is not among the old ones. -/
theorem nodup_snoc_token {fs : List Frame} (distinct : (fs.map Frame.token).Nodup) {f : Frame}
    (fresh : ∀ g ∈ fs, g.token < f.token) : ((fs ++ [f]).map Frame.token).Nodup := by
  rw [List.map_append, List.nodup_append]
  refine ⟨distinct, by simp, ?_⟩
  intro a ha b hb
  obtain ⟨g, hg, rfl⟩ := List.mem_map.mp ha
  rw [List.map_singleton, List.mem_singleton] at hb
  have := fresh g hg
  omega

/-- A genuine arrival of the ingress side, before its pass. -/
theorem split_arriveIn {m : Media} (h : Split m) {packet : CspPacket}
    (own : packet.src = m.bridge.srcAddr) :
    Split { m with arrivedIn :=
      m.arrivedIn ++ [⟨m.arrivedIn.length + m.arrivedOut.length, packet⟩] } where
  forward := h.forward.trans (List.sublist_append_left _ _)
  egress := h.egress
  reverse := h.reverse
  own := by
    intro f hf
    rcases List.mem_append.mp hf with old | new
    · exact h.own f old
    · rw [List.mem_singleton.mp new]
      exact own
  other := h.other
  numbered := by
    intro f hf
    have numbered := h.numbered f
    simp only [List.mem_append, List.mem_singleton, List.length_append,
      List.length_singleton] at hf numbered ⊢
    rcases hf with (old | rfl) | old
    · have := numbered (Or.inl old)
      omega
    · simp only
      omega
    · have := numbered (Or.inr old)
      omega
  distinctIn := nodup_snoc_token h.distinctIn fun g hg =>
    h.numbered g (List.mem_append.mpr (Or.inl hg))
  distinctOut := h.distinctOut
  counted := h.counted

/-- The same on the egress side. -/
theorem split_arriveOut {m : Media} (h : Split m) {packet : CspPacket}
    (other : packet.src ≠ m.bridge.srcAddr) :
    Split { m with arrivedOut :=
      m.arrivedOut ++ [⟨m.arrivedIn.length + m.arrivedOut.length, packet⟩] } where
  forward := h.forward
  egress := h.egress
  reverse := h.reverse.trans (List.sublist_append_left _ _)
  own := h.own
  other := by
    intro f hf
    rcases List.mem_append.mp hf with old | new
    · exact h.other f old
    · rw [List.mem_singleton.mp new]
      exact other
  numbered := by
    intro f hf
    have numbered := h.numbered f
    simp only [List.mem_append, List.mem_singleton, List.length_append,
      List.length_singleton] at hf numbered ⊢
    rcases hf with old | old | rfl
    · have := numbered (Or.inl old)
      omega
    · have := numbered (Or.inr old)
      omega
    · simp only
      omega
  distinctIn := h.distinctIn
  distinctOut := nodup_snoc_token h.distinctOut fun g hg =>
    h.numbered g (List.mem_append.mpr (Or.inr hg))
  counted := h.counted

/-- The step lemma. -/
theorem split_step (m : Media) (a : Arrival) (h : Split m) (possible : Possible m a) :
    Split (step m a) := by
  cases a with
  | genuine iface packet env =>
    cases iface with
    | ingress =>
      apply split_pass (split_arriveIn h possible) env
      · intro _ _
        exact h.forward.append (List.Sublist.refl _)
      · intro contra
        cases contra
    | egress =>
      apply split_pass (split_arriveOut h possible) env
      · intro contra
        cases contra
      · intro _ _
        exact h.reverse.append (List.Sublist.refl _)
  | reflected iface frame env =>
    obtain ⟨inward, outward⟩ := reflected_source h possible
    exact split_pass h env (fun side own => absurd own (inward side))
      (fun side other => absurd (outward side) other)

theorem step_read (m : Media) (a : Arrival) : (step m a).read = m.read + 1 := by
  cases a with
  | genuine iface packet env =>
    cases iface <;> exact (pass_spec _ _ _ env).read
  | reflected iface frame env => exact (pass_spec m iface frame env).read

theorem step_counts (m : Media) (a : Arrival) : CountsOne m.bridge (step m a).bridge := by
  cases a with
  | genuine iface packet env =>
    cases iface <;> exact (pass_spec _ _ _ env).counts
  | reflected iface frame env => exact (pass_spec m iface frame env).counts

theorem after_read (m : Media) (arrivals : List Arrival) :
    (after step m arrivals).read = m.read + arrivals.length := by
  induction arrivals using List.reverseRecOn with
  | nil => rfl
  | append_singleton as a ih =>
    rw [after_snoc, step_read, ih, List.length_append, List.length_singleton, Nat.add_assoc]

/-- What the bridge has forwarded after some arrivals. -/
structure ForwardedOnce (m : Media) : Prop where
  forward : m.toShim.Sublist m.arrivedIn
  forwardOnce : (m.toShim.map Frame.token).Nodup
  forwardLe : m.toShim.length ≤ m.arrivedIn.length
  reverse : m.toIngress.Sublist m.arrivedOut
  reverseOnce : (m.toIngress.map Frame.token).Nodup
  reverseLe : m.toIngress.length ≤ m.arrivedOut.length

theorem forwardedOnce_of_split {m : Media} (h : Split m) : ForwardedOnce m where
  forward := h.forward
  forwardOnce := (h.forward.map Frame.token).nodup h.distinctIn
  forwardLe := h.forward.length_le
  reverse := h.reverse
  reverseOnce := (h.reverse.map Frame.token).nodup h.distinctOut
  reverseLe := h.reverse.length_le

/-- Whatever the media hand back: each genuine arrival is forwarded at most once and nothing
else is, no frame that comes back is forwarded, and each frame read is counted once. -/
theorem bridge_splits_horizon (srcAddr : UInt16) (gDedupOn : Bool) (rule : CiDropRule)
    (dtpMtu dtpOverhead : UInt16) (isLogged : Bool) (mode : DropMode) (arrivals : List Arrival)
    (possible : Guarded step Possible
      (start srcAddr gDedupOn (shim rule dtpMtu dtpOverhead isLogged mode)) arrivals) :
    let run := after step (start srcAddr gDedupOn (shim rule dtpMtu dtpOverhead isLogged mode))
    ForwardedOnce (run arrivals) ∧ (run arrivals).bridge.total = arrivals.length ∧
    ∀ before a, before ++ [a] <+: arrivals →
      CountsOne (run before).bridge (run (before ++ [a])).bridge ∧
      (a.isReflected = true → (run (before ++ [a])).toShim = (run before).toShim ∧
        (run (before ++ [a])).toIngress = (run before).toIngress) := by
  have fresh : (shim rule dtpMtu dtpOverhead isLogged mode).injectedDrops +
      (shim rule dtpMtu dtpOverhead isLogged mode).forwarded +
      (shim rule dtpMtu dtpOverhead isLogged mode).passthrough = 0 := by
    cases mode <;> rfl
  have split : ∀ as, as <+: arrivals → Split (after step
      (start srcAddr gDedupOn (shim rule dtpMtu dtpOverhead isLogged mode)) as) := fun as le =>
    guarded_invariant Split split_step (split_start srcAddr gDedupOn fresh) as
      (possible.of_prefix le)
  have all := split arrivals (List.prefix_refl _)
  refine ⟨forwardedOnce_of_split all, ?_, ?_⟩
  · rw [all.counted, after_read]
    exact Nat.zero_add _
  · intro before a le
    simp only [after_snoc]
    refine ⟨step_counts _ a, ?_⟩
    intro reflected
    cases a with
    | genuine iface packet env => cases reflected
    | reflected iface frame env =>
      exact reflected_freed (split before ((List.prefix_append before [_]).trans le))
        (possible before _ le)

def quiet : Env where
  isDuplicate := false
  tMs := 0
  targetRc := cspErrNone

def plainPacket (src dst : UInt16) : CspPacket where
  src := src
  dst := dst
  dport := 8
  flags := 0
  data := []
  fits := Nat.zero_le _

/-- A frame in each direction, and each of them handed back. -/
def lapped : List Arrival :=
  [.genuine .ingress (plainPacket 5424 9) quiet, .reflected .egress ⟨0, plainPacket 5424 9⟩ quiet,
    .genuine .egress (plainPacket 9 5424) quiet, .reflected .ingress ⟨1, plainPacket 9 5424⟩ quiet]

/-- A shim whose rule drops nothing. -/
def openRule : CiDropRule where
  seed := 0
  matchDport := 8
  matchRdpSyn := false
  dropProbability := 0
  replayVector := none

theorem lapped_splits_horizon :
    let run := after step (start 5424 true (shim openRule 1024 4 false .identity))
    ForwardedOnce (run lapped) ∧ (run lapped).bridge.total = lapped.length ∧
    ∀ before a, before ++ [a] <+: lapped →
      CountsOne (run before).bridge (run (before ++ [a])).bridge ∧
      (a.isReflected = true → (run (before ++ [a])).toShim = (run before).toShim ∧
        (run (before ++ [a])).toIngress = (run before).toIngress) := by
  apply bridge_splits_horizon
  simp only [lapped, guarded_cons, guarded_nil, and_true]
  decide +kernel

end CspLinksim.Bridge
