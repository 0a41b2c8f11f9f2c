import CspLinksim.MonPoller

/-!
# Reboots of a far end

`mon_poller` takes a counter that went backwards for a reboot of the far end and sets its
baseline again. A target is followed here from reply to reply: the far end counts on, or
it starts again at any value, and the packets since the baseline are counted beside it.
-/

namespace CspLinksim.Poller

open Runs

/-- What a far end did since the reply before: it counted on, or it counted some packets
more, started again and has counted `tx` and `rx` since. -/
inductive FarSample where
  | counted (tx rx : Nat)
  | restarted (lostTx lostRx tx rx : Nat)

/-- The packets of a sample, on both sides of a restart. -/
def FarSample.packets : FarSample → Nat × Nat
  | .counted tx rx => (tx, rx)
  | .restarted lostTx lostRx tx rx => (lostTx + tx, lostRx + rx)

/-- The records of a target, the counters of its far end without wrap, and its packets
since the sample that set the baseline. -/
structure Followed where
  remote : MonRemote
  farTx : Nat
  farRx : Nat
  sinceTx : Nat
  sinceRx : Nat
  deriving DecidableEq

namespace Followed

/-- The counters of the far end at a sample. -/
def counters (s : Followed) : FarSample → Nat × Nat
  | .counted tx rx => (s.farTx + tx, s.farRx + rx)
  | .restarted _ _ tx rx => (tx, rx)

/-- The counters as the reply carries them. -/
def replyTx (s : Followed) (x : FarSample) : UInt32 := UInt32.ofNat (s.counters x).1
def replyRx (s : Followed) (x : FarSample) : UInt32 := UInt32.ofNat (s.counters x).2

/-- A target before its first reply, the counters of the far end at any value. -/
def start (farTx farRx : Nat) : Followed where
  remote := (Target.start ⟨UInt32.ofNat farTx, UInt32.ofNat farRx⟩).remote
  farTx := farTx
  farRx := farRx
  sinceTx := 0
  sinceRx := 0

end Followed

def follow (s : Followed) (x : FarSample) : Followed :=
  let fresh := rebases s.remote (s.replyTx x) (s.replyRx x)
  { remote := s.remote.reply (s.replyTx x) (s.replyRx x)
    farTx := (s.counters x).1
    farRx := (s.counters x).2
    sinceTx := if fresh then 0 else s.sinceTx + x.packets.1
    sinceRx := if fresh then 0 else s.sinceRx + x.packets.2 }

/-- A counter is lower than before, and by less than half its range. -/
def Fell (before now : UInt32) : Prop := now < before ∧ before - now < 0x80000000

instance (before now : UInt32) : Decidable (Fell before now) := inferInstanceAs (Decidable (_ ∧ _))

/-- One of the counters of a sample fell. -/
def OneFell (s : Followed) (x : FarSample) : Prop :=
  Fell s.remote.tx (s.replyTx x) ∨ Fell s.remote.rx (s.replyRx x)

instance (s : Followed) (x : FarSample) : Decidable (OneFell s x) :=
  inferInstanceAs (Decidable (_ ∨ _))

def FarSample.restart : FarSample → Prop
  | .counted _ _ => False
  | .restarted _ _ _ _ => True

/-- A restart behind the baseline shows in one of the counters. -/
def Observable (s : Followed) (x : FarSample) : Prop :=
  x.restart → s.remote.haveBase → OneFell s x

/-- If a restart shows in one counter, then neither counter rose, and neither fell by half
its range or more. -/
def FellTogether (s : Followed) (x : FarSample) : Prop :=
  x.restart → s.remote.haveBase → OneFell s x →
    s.remote.tx - s.replyTx x < 0x80000000 ∧ s.remote.rx - s.replyRx x < 0x80000000

/-- What is to happen at a sample behind the baseline: two counters that advance by less
than half their range are left alone, and a restart that shows sets the baseline. -/
structure Detects (s : Followed) (x : FarSample) : Prop where
  kept : s.remote.haveBase → s.replyTx x - s.remote.tx < 0x80000000 →
    s.replyRx x - s.remote.rx < 0x80000000 →
    rebooted s.remote (s.replyTx x) (s.replyRx x) = false ∧
    (follow s x).remote.baseTx = s.remote.baseTx ∧ (follow s x).remote.baseRx = s.remote.baseRx
  reset : x.restart → s.remote.haveBase → OneFell s x →
    rebooted s.remote (s.replyTx x) (s.replyRx x) = true ∧
    (follow s x).remote.baseTx = s.replyTx x ∧ (follow s x).remote.baseRx = s.replyRx x

/-- The differences to the baseline are the packets since then. -/
def Since (s : Followed) : Prop :=
  s.remote.haveBase → s.remote.tx - s.remote.baseTx = UInt32.ofNat s.sinceTx ∧
    s.remote.rx - s.remote.baseRx = UInt32.ofNat s.sinceRx

theorem eq_of_both_small {a b : UInt32} (h : a - b < 0x80000000) (h' : b - a < 0x80000000) :
    a = b := by
  have ha := a.toNat_lt
  have hb := b.toNat_lt
  rw [UInt32.lt_iff_toNat_lt, UInt32.toNat_sub] at h h'
  apply UInt32.toNat_inj.mp
  have bound : (0x80000000 : UInt32).toNat = 2147483648 := rfl
  omega

/-- Counters that only advance are not taken for a reboot. -/
theorem rebooted_advance {r : MonRemote} {tx rx : UInt32} (htx : tx - r.tx < 0x80000000)
    (hrx : rx - r.rx < 0x80000000) : rebooted r tx rx = false := by
  by_contra flagged
  simp only [rebooted, Bool.not_eq_false, decide_eq_true_eq] at flagged
  obtain ⟨-, lower, smallTx, smallRx⟩ := flagged
  have sameTx := eq_of_both_small smallTx htx
  have sameRx := eq_of_both_small smallRx hrx
  rcases lower with h | h
  · exact UInt32.lt_irrefl _ (sameTx ▸ h)
  · exact UInt32.lt_irrefl _ (sameRx ▸ h)

theorem rebooted_iff {s : Followed} {x : FarSample} (base : s.remote.haveBase = true)
    (fell : OneFell s x) : rebooted s.remote (s.replyTx x) (s.replyRx x) = true ↔
      s.remote.tx - s.replyTx x < 0x80000000 ∧ s.remote.rx - s.replyRx x < 0x80000000 := by
  have lower : s.replyTx x < s.remote.tx ∨ s.replyRx x < s.remote.rx :=
    fell.imp And.left And.left
  simp only [rebooted, decide_eq_true_eq]
  exact ⟨fun h => h.2.2, fun h => ⟨base, lower, h⟩⟩

theorem follow_kept {s : Followed} {x : FarSample} (base : s.remote.haveBase = true)
    (same : rebooted s.remote (s.replyTx x) (s.replyRx x) = false) :
    (follow s x).remote.tx = s.replyTx x ∧ (follow s x).remote.rx = s.replyRx x ∧
    (follow s x).remote.baseTx = s.remote.baseTx ∧ (follow s x).remote.baseRx = s.remote.baseRx ∧
    (follow s x).sinceTx = s.sinceTx + x.packets.1 ∧
    (follow s x).sinceRx = s.sinceRx + x.packets.2 := by
  have stays : ¬ rebases s.remote (s.replyTx x) (s.replyRx x) = true := by
    simp [rebases, base, same]
  obtain ⟨htx, hrx, hbaseTx, hbaseRx⟩ := reply_kept stays
  exact ⟨htx, hrx, hbaseTx, hbaseRx, if_neg stays, if_neg stays⟩

theorem follow_rebased {s : Followed} {x : FarSample}
    (fresh : rebases s.remote (s.replyTx x) (s.replyRx x) = true) :
    (follow s x).remote.tx = s.replyTx x ∧ (follow s x).remote.rx = s.replyRx x ∧
    (follow s x).remote.baseTx = s.replyTx x ∧ (follow s x).remote.baseRx = s.replyRx x ∧
    (follow s x).sinceTx = 0 ∧ (follow s x).sinceRx = 0 := by
  obtain ⟨htx, hrx, hbaseTx, hbaseRx⟩ := reply_rebased fresh
  exact ⟨htx, hrx, hbaseTx, hbaseRx, if_pos fresh, if_pos fresh⟩

/-- A sample is treated rightly exactly if its counters fell together. -/
theorem detects_iff (s : Followed) (x : FarSample) : Detects s x ↔ FellTogether s x := by
  constructor
  · intro h restart base fell
    exact (rebooted_iff base fell).mp (h.reset restart base fell).1
  · intro together
    constructor
    · intro base htx hrx
      have same := rebooted_advance htx hrx
      obtain ⟨-, -, hbaseTx, hbaseRx, -, -⟩ := follow_kept base same
      exact ⟨same, hbaseTx, hbaseRx⟩
    · intro restart base fell
      have flagged := (rebooted_iff base fell).mpr (together restart base fell)
      have fresh : rebases s.remote (s.replyTx x) (s.replyRx x) = true := by
        simp [rebases, flagged]
      obtain ⟨-, -, hbaseTx, hbaseRx, -, -⟩ := follow_rebased fresh
      exact ⟨flagged, hbaseTx, hbaseRx⟩

/-- The records hold the counters of the last reply, and the differences are right. -/
structure Tracks (s : Followed) : Prop where
  tx : s.remote.haveBase → s.remote.tx = UInt32.ofNat s.farTx
  rx : s.remote.haveBase → s.remote.rx = UInt32.ofNat s.farRx
  since : Since s

/-- The step lemma: a sample keeps the differences right, if its restart shows and shows in
both counters. -/
theorem tracks_follow {s : Followed} {x : FarSample} (h : Tracks s)
    (allowed : FellTogether s x ∧ Observable s x) : Tracks (follow s x) := by
  obtain ⟨together, seen⟩ := allowed
  by_cases fresh : rebases s.remote (s.replyTx x) (s.replyRx x) = true
  · obtain ⟨htx, hrx, hbaseTx, hbaseRx, hsinceTx, hsinceRx⟩ := follow_rebased fresh
    refine ⟨fun _ => htx, fun _ => hrx, fun _ => ?_⟩
    constructor
    · rw [htx, hbaseTx, hsinceTx, UInt32.sub_self]
      rfl
    · rw [hrx, hbaseRx, hsinceRx, UInt32.sub_self]
      rfl
  · obtain ⟨base, same⟩ : s.remote.haveBase = true ∧
        rebooted s.remote (s.replyTx x) (s.replyRx x) = false := by
      simpa [rebases] using fresh
    obtain ⟨htx, hrx, hbaseTx, hbaseRx, hsinceTx, hsinceRx⟩ := follow_kept base same
    refine ⟨fun _ => htx, fun _ => hrx, fun _ => ?_⟩
    obtain ⟨sinceTx, sinceRx⟩ := h.since base
    cases x with
    | counted tx rx =>
      have nextTx : s.replyTx (.counted tx rx) = s.remote.tx + UInt32.ofNat tx := by
        rw [h.tx base, ← UInt32.ofNat_add]
        rfl
      have nextRx : s.replyRx (.counted tx rx) = s.remote.rx + UInt32.ofNat rx := by
        rw [h.rx base, ← UInt32.ofNat_add]
        rfl
      rw [htx, hrx, hbaseTx, hbaseRx, hsinceTx, hsinceRx, nextTx, nextRx, UInt32.ofNat_add,
        UInt32.ofNat_add, ← sinceTx, ← sinceRx]
      constructor
      · simp only [FarSample.packets]
        grind
      · simp only [FarSample.packets]
        grind
    | restarted lostTx lostRx tx rx =>
      have fell := seen True.intro base
      have flagged := (rebooted_iff base fell).mpr (together True.intro base fell)
      rw [same] at flagged
      cases flagged

theorem tracks_start (farTx farRx : Nat) : Tracks (.start farTx farRx) :=
  ⟨fun base => absurd base Bool.false_ne_true, fun base => absurd base Bool.false_ne_true,
    fun base => absurd base Bool.false_ne_true⟩

/-- Reboots are found as they should and the differences are right as long as every
restart shows, exactly in the runs in which the counters always fall together. -/
theorem reboots_found_iff (farTx farRx : Nat) (xs : List FarSample) :
    (Guarded follow Detects (.start farTx farRx) xs ∧
      ∀ ys, ys <+: xs → Guarded follow Observable (.start farTx farRx) ys →
        Since (after follow (.start farTx farRx) ys)) ↔
    Guarded follow FellTogether (.start farTx farRx) xs := by
  constructor
  · rintro ⟨detects, -⟩ ys x le
    exact (detects_iff _ x).mp (detects ys x le)
  · intro together
    constructor
    · intro ys x le
      exact (detects_iff _ x).mpr (together ys x le)
    · intro ys le seen
      have inv := guarded_invariant Tracks (fun s x h allowed => tracks_follow h allowed)
        (tracks_start farTx farRx) ys
        fun zs x hz => ⟨together zs x (hz.trans le), seen zs x hz⟩
      exact inv.since

/-- The far end sent 100 packets and received 5, started again, sent 3 and received 9: the
restart is not flagged, and the packets since the baseline come out as the difference of
unrelated numbers. -/
theorem mixed_restart_missed :
    let xs := [.counted 100 5, .restarted 0 0 3 9]
    let s := after follow (.start 0 0) [.counted 100 5]
    OneFell s (.restarted 0 0 3 9) ∧
    rebooted s.remote (s.replyTx (.restarted 0 0 3 9)) (s.replyRx (.restarted 0 0 3 9)) = false ∧
    (after follow (.start 0 0) xs).remote.tx - (after follow (.start 0 0) xs).remote.baseTx =
      4294967199 ∧
    (after follow (.start 0 0) xs).sinceTx = 3 := by
  decide

end CspLinksim.Poller
