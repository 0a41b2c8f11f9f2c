import CspLinksim.Bridge

/-!
# Airtime on the bridge (`charge_airtime`)

With a link rate the pump sleeps after each frame it forwards, for as long as the frame
would be on the air, in either direction and also when the shim dropped it. A sleep that a
signal interrupts is resumed, unless the signal stops the run.
-/

namespace CspLinksim.Bridge

open Runs Packet DropIface

structure Timespec where
  tvSec : Nat
  tvNsec : Nat
  deriving DecidableEq

def Timespec.ns (ts : Timespec) : Nat := ts.tvSec * 1000000000 + ts.tvNsec

/-- A return of `nanosleep`: the time that it took, what is left of the interval if it was
interrupted, and `g_stop`. -/
structure Wake where
  elapsedNs : Nat
  left : Option Timespec
  gStop : Bool
  deriving DecidableEq

/-- The loop around `nanosleep`, as the time it takes. -/
def sleepLoop : List Wake → Nat
  | [] => 0
  | w :: ws =>
    match w.left with
    | none => w.elapsedNs
    | some _ => if w.gStop then w.elapsedNs else w.elapsedNs + sleepLoop ws

def airtimeNs (frameBytes : UInt32) (rateBps : Int64) : UInt64 :=
  frameBytes.toUInt64 * 8 * 1000000000 / rateBps.toUInt64

/-- The first interval that is asked for. -/
def airtimeSpec (frameBytes : UInt32) (rateBps : Int64) : Timespec :=
  let ns := airtimeNs frameBytes rateBps
  ⟨(ns / 1000000000).toNat, (ns % 1000000000).toNat⟩

/-- `charge_airtime`, as the time it takes. -/
def chargeAirtime (rateBps : Int64) (wakes : List Wake) : Nat :=
  if rateBps ≤ 0 then 0 else sleepLoop wakes

/-- What `nanosleep` promises for an interval and those that are asked for after it. -/
def Sleeps : Timespec → List Wake → Prop
  | _, [] => False
  | ts, w :: ws =>
    match w.left with
    | none => ts.ns ≤ w.elapsedNs
    | some rest => ts.ns ≤ w.elapsedNs + rest.ns ∧ (w.gStop = false → Sleeps rest ws)

/-- The arguments that set the airtime. -/
structure Air where
  overhead : Int32
  hdRate : Int64

def onAir (cfg : Air) (packet : CspPacket) : UInt32 :=
  UInt32.ofNat packet.data.length + cfg.overhead.toUInt32

/-- The time outside the pump's own code in one pass, and `g_stop` after it. -/
structure Pacing where
  waitNs : Nat
  sendNs : Nat
  wakes : List Wake
  paceNs : Nat
  gStop : Bool

/-- A frame on the channel. -/
structure Hold where
  side : Side
  frame : Frame
  startNs : Nat

structure Timed where
  media : Media
  nowNs : Nat
  gStop : Bool
  holds : List Hold

def Arrival.side : Arrival → Side
  | .genuine iface _ _ => iface
  | .reflected iface _ _ => iface

def Arrival.packet : Arrival → CspPacket
  | .genuine _ packet _ => packet
  | .reflected _ frame _ => frame.packet

def Arrival.env : Arrival → Env
  | .genuine _ _ env => env
  | .reflected _ _ env => env

/-- The frame with its number. -/
def Arrival.frame (m : Media) : Arrival → Frame
  | .genuine _ packet _ => ⟨m.arrivedIn.length + m.arrivedOut.length, packet⟩
  | .reflected _ frame _ => frame

/-- A pass of the loop of `main` with its clock; the loop ends at `g_stop`. -/
def timedPass (cfg : Air) (s : Timed) (x : Arrival × Pacing) : Timed :=
  if s.gStop then s
  else
    let readNs := s.nowNs + x.2.waitNs
    let media := step s.media x.1
    let hold : Hold := ⟨x.1.side, x.1.frame s.media, readNs⟩
    let airtime := chargeAirtime cfg.hdRate x.2.wakes
    match (pump s.media.bridge x.1.side x.1.packet x.1.env).2 with
    | .freed => { media, nowNs := readNs, gStop := x.2.gStop, holds := s.holds }
    | .toShim _ =>
      { media, nowNs := readNs + x.2.sendNs + airtime + x.2.paceNs, gStop := x.2.gStop,
        holds := s.holds ++ [hold] }
    | .toIngress =>
      { media, nowNs := readNs + x.2.sendNs + airtime, gStop := x.2.gStop,
        holds := s.holds ++ [hold] }

/-- `nanosleep` keeps its promise for the frame of the pass, and `g_stop` is never reset. -/
structure Sound (cfg : Air) (x : Arrival × Pacing) : Prop where
  sleeps : Sleeps (airtimeSpec (onAir cfg x.1.packet) cfg.hdRate) x.2.wakes
  stays : ∀ w ∈ x.2.wakes, w.gStop = true → x.2.gStop = true

/-- A sleep that nobody stops lasts as long as was asked for. -/
theorem sleepLoop_long {ts : Timespec} {wakes : List Wake} (h : Sleeps ts wakes)
    (on : ∀ w ∈ wakes, w.gStop = false) : ts.ns ≤ sleepLoop wakes := by
  induction wakes generalizing ts with
  | nil => cases h
  | cons w ws ih =>
    cases hleft : w.left with
    | none =>
      simp only [Sleeps, hleft] at h
      simpa only [sleepLoop, hleft] using h
    | some rest =>
      simp only [Sleeps, hleft] at h
      have hw := on w List.mem_cons_self
      have later := ih (h.2 hw) fun w' hw' => on w' (List.mem_cons_of_mem _ hw')
      simp only [sleepLoop, hleft, hw, Bool.false_eq_true, if_false]
      omega

theorem airtimeSpec_ns (frameBytes : UInt32) (rateBps : Int64) :
    (airtimeSpec frameBytes rateBps).ns = (airtimeNs frameBytes rateBps).toNat := by
  have size : UInt64.toNat 1000000000 = 1000000000 := rfl
  simp only [airtimeSpec, Timespec.ns, UInt64.toNat_div, UInt64.toNat_mod, size]
  omega

/-- The length of a frame on the air, for every overhead that the command accepts. -/
theorem onAir_toNat {cfg : Air} (accepted : 4 ≤ cfg.overhead.toInt) (packet : CspPacket) :
    (onAir cfg packet).toNat = packet.data.length + cfg.overhead.toInt.toNat := by
  have fits := packet.fits
  have buffer : cspBufferSize = 2048 := rfl
  have high := cfg.overhead.toInt_lt
  have low : (0 : Int32) ≤ cfg.overhead := by
    rw [Int32.le_iff_toInt_le, Int32.toInt_zero]
    omega
  have hover : cfg.overhead.toUInt32.toNat = cfg.overhead.toInt.toNat :=
    Int32.toNat_toUInt32_of_le low
  have hlen : (UInt32.ofNat packet.data.length).toNat = packet.data.length :=
    UInt32.toNat_ofNat_of_lt' (by rw [UInt32.size]; omega)
  rw [onAir, UInt32.toNat_add, hlen, hover]
  omega

/-- The product under the division stays below 2^64. -/
theorem airtimeNs_toNat {cfg : Air} (accepted : 4 ≤ cfg.overhead.toInt) (rate : 0 < cfg.hdRate)
    (packet : CspPacket) :
    (airtimeNs (onAir cfg packet) cfg.hdRate).toNat =
      (onAir cfg packet).toNat * 8000000000 / cfg.hdRate.toInt.toNat := by
  have fits := packet.fits
  have buffer : cspBufferSize = 2048 := rfl
  have high := cfg.overhead.toInt_lt
  have length := onAir_toNat accepted packet
  have small : (onAir cfg packet).toNat * 8000000000 < 18446744073709551616 := by omega
  have hrate : cfg.hdRate.toUInt64.toNat = cfg.hdRate.toInt.toNat :=
    Int64.toNat_toUInt64_of_le (Int64.le_of_lt rate)
  have eight : UInt64.toNat 8 = 8 := rfl
  have giga : UInt64.toNat 1000000000 = 1000000000 := rfl
  rw [airtimeNs, UInt64.toNat_div, UInt64.toNat_mul, UInt64.toNat_mul, UInt32.toNat_toUInt64, eight,
    giga, hrate]
  congr 1
  omega

/-- What a pass with this fate adds to the traffic. -/
theorem step_fate (m : Media) (a : Arrival) :
    (step m a).toShim = m.toShim ++
      (match (pump m.bridge a.side a.packet a.env).2 with
      | .toShim _ => [a.frame m]
      | _ => []) ∧
    (step m a).toIngress = m.toIngress ++
      match (pump m.bridge a.side a.packet a.env).2 with
      | .toIngress => [a.frame m]
      | _ => [] := by
  have passes : ∀ (m' : Media) (frame : Frame), m'.bridge = m.bridge → frame.packet = a.packet →
      (pass m' a.side frame a.env).toShim = m'.toShim ++
        (match (pump m.bridge a.side a.packet a.env).2 with
        | .toShim _ => [frame]
        | _ => []) ∧
      (pass m' a.side frame a.env).toIngress = m'.toIngress ++
        match (pump m.bridge a.side a.packet a.env).2 with
        | .toIngress => [frame]
        | _ => [] := by
    intro m' frame bridge packet
    rw [pass, bridge, packet]
    cases pump m.bridge a.side a.packet a.env with
    | mk b fate => cases fate <;> simp
  cases a with
  | genuine iface packet env =>
    cases iface with
    | ingress => exact passes { m with arrivedIn := _ } _ rfl rfl
    | egress => exact passes { m with arrivedOut := _ } _ rfl rfl
  | reflected iface frame env => exact passes m frame rfl rfl

theorem frame_packet (m : Media) (a : Arrival) : (a.frame m).packet = a.packet := by
  cases a <;> rfl

/-- The time a frame is on the air. -/
def holdNs (cfg : Air) (h : Hold) : Nat := (airtimeNs (onAir cfg h.frame.packet) cfg.hdRate).toNat

/-- One frame at a time: a frame starts when the airtime of every earlier one is over, and
what was on the channel is what was forwarded. -/
structure OneAtATime (cfg : Air) (s : Timed) : Prop where
  apart : s.holds.Pairwise fun a b => a.startNs + holdNs cfg a ≤ b.startNs
  ended : s.gStop = false → ∀ h ∈ s.holds, h.startNs + holdNs cfg h ≤ s.nowNs
  forward : (s.holds.filter fun h => h.side = .ingress).map Hold.frame = s.media.toShim
  back : (s.holds.filter fun h => h.side = .egress).map Hold.frame = s.media.toIngress

theorem oneAtATime_forwarded {cfg : Air} {s : Timed} (h : OneAtATime cfg s) (on : s.gStop = false)
    {hold : Hold} {media : Media} {nowNs : Nat} {gStop : Bool} (later : s.nowNs ≤ hold.startNs)
    (held : gStop = false → hold.startNs + holdNs cfg hold ≤ nowNs)
    (forward : media.toShim = s.media.toShim ++ if hold.side = .ingress then [hold.frame] else [])
    (back : media.toIngress = s.media.toIngress ++
      if hold.side = .egress then [hold.frame] else []) :
    OneAtATime cfg { media, nowNs, gStop, holds := s.holds ++ [hold] } := by
  refine ⟨?_, ?_, ?_, ?_⟩
  · rw [List.pairwise_append]
    refine ⟨h.apart, List.pairwise_singleton _ _, ?_⟩
    intro a ha b hb
    rw [List.mem_singleton.mp hb]
    exact (h.ended on a ha).trans later
  · intro still a ha
    rcases List.mem_append.mp ha with old | new
    · have := h.ended on a old
      have := held still
      simp only at this ⊢
      omega
    · rw [List.mem_singleton.mp new]
      exact held still
  · rw [List.filter_append, List.map_append, h.forward, forward]
    by_cases side : hold.side = .ingress <;> simp [side]
  · rw [List.filter_append, List.map_append, h.back, back]
    by_cases side : hold.side = .egress <;> simp [side]

/-- The step lemma. -/
theorem timedPass_keeps {cfg : Air} (rate : 0 < cfg.hdRate) {s : Timed} (h : OneAtATime cfg s)
    {x : Arrival × Pacing} (sound : Sound cfg x) : OneAtATime cfg (timedPass cfg s x) := by
  rw [timedPass]
  by_cases stopped : s.gStop = true
  · rw [if_pos stopped]
    exact h
  · rw [if_neg stopped]
    have on : s.gStop = false := Bool.eq_false_iff.mpr stopped
    obtain ⟨toShim, toIngress⟩ := step_fate s.media x.1
    obtain ⟨_, _, passed⟩ := pump_spec s.media.bridge x.1.side x.1.packet x.1.env
    have long : x.2.gStop = false → holdNs cfg ⟨x.1.side, x.1.frame s.media, s.nowNs⟩ ≤
        chargeAirtime cfg.hdRate x.2.wakes := by
      intro on'
      have slept := sleepLoop_long sound.sleeps (by
        intro w hw
        by_contra stops
        rw [sound.stays w hw (Bool.eq_true_of_not_eq_false stops)] at on'
        cases on')
      rw [airtimeSpec_ns] at slept
      rw [chargeAirtime, if_neg (Int64.not_le.mpr rate), holdNs, frame_packet]
      exact slept
    cases fate : (pump s.media.bridge x.1.side x.1.packet x.1.env).2 with
    | freed =>
      rw [fate] at toShim toIngress
      simp only [List.append_nil] at toShim toIngress
      refine ⟨h.apart, ?_, by rw [toShim]; exact h.forward, by rw [toIngress]; exact h.back⟩
      intro _ a ha
      exact (h.ended on a ha).trans (Nat.le_add_right _ _)
    | toShim reply =>
      rw [fate] at toShim toIngress passed
      have side : x.1.side = .ingress := by
        cases hside : x.1.side with
        | ingress => rfl
        | egress =>
          rw [hside] at passed
          cases passed
      apply oneAtATime_forwarded h on (Nat.le_add_right _ _)
      · intro on'
        have := long on'
        simp only [holdNs] at this ⊢
        omega
      · simp [toShim, side]
      · simp [toIngress, side]
    | toIngress =>
      rw [fate] at toShim toIngress passed
      have side : x.1.side = .egress := by
        cases hside : x.1.side with
        | egress => rfl
        | ingress =>
          rw [hside] at passed
          cases passed
      apply oneAtATime_forwarded h on (Nat.le_add_right _ _)
      · intro on'
        have := long on'
        simp only [holdNs] at this ⊢
        omega
      · simp [toShim, side]
      · simp [toIngress, side]

/-- The airtimes from a frame up to a later one fit between their starts. -/
theorem airtimes_fit {cfg : Air} {first last : Hold} {between : List Hold}
    (apart : (first :: (between ++ [last])).Pairwise fun a b =>
      a.startNs + holdNs cfg a ≤ b.startNs) :
    first.startNs + ((first :: between).map (holdNs cfg)).sum ≤ last.startNs := by
  induction between generalizing first with
  | nil =>
    rw [List.pairwise_cons] at apart
    simpa using apart.1 last (by simp)
  | cons second between ih =>
    rw [List.cons_append, List.pairwise_cons] at apart
    have next := ih apart.2
    have := apart.1 second (by simp)
    rw [List.map_cons, List.sum_cons]
    omega

/-- Rounding the airtime down loses less than a nanosecond of each frame. -/
theorem bits_le {cfg : Air} (accepted : 4 ≤ cfg.overhead.toInt) (rate : 0 < cfg.hdRate)
    (holds : List Hold) :
    (holds.map fun h => (onAir cfg h.frame.packet).toNat).sum * 8000000000 ≤
      cfg.hdRate.toInt.toNat * ((holds.map (holdNs cfg)).sum + holds.length) := by
  have pos : 0 < cfg.hdRate.toInt.toNat := by
    rw [Int64.lt_iff_toInt_lt, Int64.toInt_zero] at rate
    omega
  induction holds with
  | nil => simp
  | cons h holds ih =>
    have rounded := Nat.lt_mul_div_succ ((onAir cfg h.frame.packet).toNat * 8000000000) pos
    have exact_ns : holdNs cfg h =
        (onAir cfg h.frame.packet).toNat * 8000000000 / cfg.hdRate.toInt.toNat :=
      airtimeNs_toNat accepted rate h.frame.packet
    rw [← exact_ns] at rounded
    rw [List.map_cons, List.sum_cons, List.map_cons, List.sum_cons, List.length_cons]
    calc ((onAir cfg h.frame.packet).toNat +
          (holds.map fun h => (onAir cfg h.frame.packet).toNat).sum) * 8000000000
        = (onAir cfg h.frame.packet).toNat * 8000000000 +
          (holds.map fun h => (onAir cfg h.frame.packet).toNat).sum * 8000000000 :=
            Nat.add_mul _ _ _
      _ ≤ cfg.hdRate.toInt.toNat * (holdNs cfg h + 1) +
          cfg.hdRate.toInt.toNat * ((holds.map (holdNs cfg)).sum + holds.length) :=
            Nat.add_le_add rounded.le ih
      _ = _ := by
        rw [← Nat.mul_add]
        congr 1
        omega

/-- The bridge at the start of the clock. -/
def timedStart (srcAddr : UInt16) (gDedupOn : Bool) (shim : CiDropIface) (nowNs : Nat) : Timed where
  media := start srcAddr gDedupOn shim
  nowNs := nowNs
  gStop := false
  holds := []

/-- Whatever arrives on either side, however often it is reflected, and however often the
sleeps are interrupted: the channel carries one frame at a time, the forwarded frames of both
directions, and on no stretch of the run more bits than the rate allows. -/
theorem half_duplex {cfg : Air} (accepted : 4 ≤ cfg.overhead.toInt) (rate : 0 < cfg.hdRate)
    (srcAddr : UInt16) (gDedupOn : Bool) (shim : CiDropIface) (nowNs : Nat)
    {xs : List (Arrival × Pacing)} (sound : ∀ x ∈ xs, Sound cfg x) :
    ∀ s, s = after (timedPass cfg) (timedStart srcAddr gDedupOn shim nowNs) xs →
      OneAtATime cfg s ∧
      ∀ before first between last later,
        s.holds = before ++ first :: (between ++ last :: later) →
        ((first :: between).map fun h =>
            h.frame.packet.data.length + cfg.overhead.toInt.toNat).sum * 8000000000 ≤
          cfg.hdRate.toInt.toNat * (last.startNs - first.startNs + (between.length + 1)) := by
  rintro s rfl
  have channel : OneAtATime cfg
      (after (timedPass cfg) (timedStart srcAddr gDedupOn shim nowNs) xs) := by
    induction xs using List.reverseRecOn with
    | nil => exact ⟨List.Pairwise.nil, fun _ _ none => (List.not_mem_nil none).elim, rfl, rfl⟩
    | append_singleton xs x ih =>
      rw [after_snoc]
      exact timedPass_keeps rate (ih fun y hy => sound y (List.mem_append_left _ hy))
        (sound x (by simp))
  refine ⟨channel, ?_⟩
  intro before first between last later split
  have apart := channel.apart
  rw [split] at apart
  have stretch : (first :: (between ++ [last])).Sublist
      (before ++ first :: (between ++ last :: later)) := by
    apply List.Sublist.trans _ (List.sublist_append_right _ _)
    apply List.Sublist.cons_cons
    exact (List.Sublist.refl between).append ((List.nil_sublist later).cons_cons last)
  have fit := airtimes_fit (apart.sublist stretch)
  have bits := bits_le accepted rate (first :: between)
  have lengths : ((first :: between).map fun h => (onAir cfg h.frame.packet).toNat) =
      (first :: between).map fun h => h.frame.packet.data.length + cfg.overhead.toInt.toNat :=
    List.map_congr_left fun h _ => onAir_toNat accepted h.frame.packet
  rw [lengths] at bits
  apply bits.trans
  apply Nat.mul_le_mul_left
  rw [List.length_cons]
  omega

def slowLink : Air := ⟨4, 4800⟩

/-- A data frame and an answer; the sleep for the first one is interrupted. -/
def dataAndAnswer : List (Arrival × Pacing) :=
  [(.genuine .ingress (plainPacket 7 1) quiet,
      ⟨10, 0, [⟨5000000, some ⟨0, 2000000⟩, false⟩, ⟨2000000, none, false⟩], 0, false⟩),
    (.genuine .egress (plainPacket 1 7) quiet, ⟨10, 0, [⟨7000000, none, false⟩], 0, false⟩)]

theorem half_duplex_of_two_frames :
    let s := after (timedPass slowLink)
      (timedStart 7 false (shim openRule 200 4 false .identity) 0) dataAndAnswer
    OneAtATime slowLink s ∧ s.holds.length = 2 := by
  refine ⟨(@half_duplex slowLink (by decide) (by decide) 7 false
    (shim openRule 200 4 false .identity) 0 dataAndAnswer ?_ _ rfl).1, by decide +kernel⟩
  intro x hx
  rcases List.mem_cons.mp hx with rfl | hx
  · refine ⟨⟨by decide +kernel, fun _ => ?_⟩, by decide⟩
    exact show 2000000 ≤ 2000000 from Nat.le_refl _
  · rw [List.mem_singleton.mp hx]
    refine ⟨?_, by decide⟩
    exact show (airtimeSpec _ _).ns ≤ 7000000 by decide +kernel

end CspLinksim.Bridge
