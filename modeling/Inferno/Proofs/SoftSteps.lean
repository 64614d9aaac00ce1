import Inferno.Proofs.AnchorSteps
import Inferno.Proofs.ClockLoop
import Mathlib.Data.Nat.Count

/-! Soft playout steps of the media clock over every run. The count of ticks out of band is
cleared by a tick inside the band and by a step, and by nothing else: an unlocked tick, a
re-anchor or a failed clock reading leaves it standing. -/

namespace Inferno

open Lib

variable (prof : RateProfile)

/-- The error a tick measures, if it gets as far as measuring one. -/
def tickErr (c : MediaClock) : ClockEvent → Option ℤ
  | .tick i =>
    if !i.ptp.locked then none
    else if i.ptp.stepCount ≠ c.lastPtpSteps then none
    else if !c.g.anchored then none
    else (mclkNowSamples prof i).map fun now => phaseErr prof i now c
  | _ => none

def ClockEvent.isTick : ClockEvent → Bool
  | .tick _ => true
  | _ => false

def OutOfBand (c : MediaClock) (err : ℤ) : Prop := err > stepBand c ∨ err < -stepBand c

instance (c : MediaClock) (err : ℤ) : Decidable (OutOfBand c err) := inferInstanceAs (Decidable (_ ∨ _))

def beyondBand (c : MediaClock) (e : ClockEvent) : Bool := (tickErr prof c e).any fun err => decide (OutOfBand c err)

/-- The playout is stepped for an error of at most `AP_MCLK_RESET_FRAMES`. -/
def SoftStepped (c : MediaClock) (e : ClockEvent) : Prop :=
  (∃ err, tickErr prof c e = some err ∧ |err| ≤ AP_MCLK_RESET_FRAMES) ∧
    (clockStep prof c e).g.resetSteps ≠ c.g.resetSteps

def Reanchored (c : MediaClock) (e : ClockEvent) : Prop := (clockStep prof c e).g.anchors ≠ c.g.anchors

/-- A tick that measures nothing, or a re-anchor: what the evidence of a step must not
reach across. -/
def Interrupts (c : MediaClock) (e : ClockEvent) : Prop :=
  (e.isTick = true ∧ tickErr prof c e = none) ∨ Reanchored prof c e

theorem stepBand_le (c : MediaClock) : stepBand c ≤ AP_MCLK_RESET_FRAMES := by
  simp only [stepBand, AP_MCLK_RESET_FRAMES]
  split_ifs <;> omega

/-- What one event does to the count of ticks out of band. -/
inductive BandStep (c : MediaClock) (e : ClockEvent) (c' : MediaClock) : Prop
  | idle (hm : tickErr prof c e = none) (ho : c'.outOfBand = c.outOfBand) (hs : c'.g.resetSteps = c.g.resetSteps)
  | inside (err : ℤ) (hm : tickErr prof c e = some err) (hb : ¬ OutOfBand c err) (ho : c'.outOfBand = 0)
      (hs : c'.g.resetSteps = c.g.resetSteps) (ha : c'.g.anchors = c.g.anchors)
  | counted (err : ℤ) (hm : tickErr prof c e = some err) (hb : OutOfBand c err)
      (hn : c.outOfBand + 1 < AP_MCLK_UPDATE_HZ / 2) (ho : c'.outOfBand = c.outOfBand + 1)
      (hs : c'.g.resetSteps = c.g.resetSteps) (ha : c'.g.anchors = c.g.anchors)
  | stepped (err : ℤ) (hm : tickErr prof c e = some err) (hb : OutOfBand c err)
      (hn : |err| ≤ AP_MCLK_RESET_FRAMES → AP_MCLK_UPDATE_HZ / 2 ≤ c.outOfBand + 1) (ho : c'.outOfBand = 0)
      (hs : c'.g.resetSteps ≠ c.g.resetSteps) (ha : c'.g.anchors = c.g.anchors)

theorem outOfBand_anchor (i : ClockIn) (c : MediaClock) :
    (mclkAnchor prof i c).outOfBand = c.outOfBand ∧ (mclkAnchor prof i c).g.resetSteps = c.g.resetSteps := by
  unfold mclkAnchor
  split_ifs
  · exact ⟨rfl, rfl⟩
  · cases mclkNowSamples prof i <;> exact ⟨rfl, rfl⟩

theorem outOfBand_applyLatency (i : ClockIn) (c : MediaClock) :
    (applyLatency prof i c).outOfBand = c.outOfBand ∧ (applyLatency prof i c).g.resetSteps = c.g.resetSteps := by
  unfold applyLatency
  dsimp only
  split_ifs
  · exact ⟨rfl, rfl⟩
  · exact outOfBand_anchor prof i _

theorem bandStep_phase {c c₁ : MediaClock} {e : ClockEvent} {err : ℤ} (hm : tickErr prof c e = some err)
    (hc : c₁.g.latencyFrames = c.g.latencyFrames ∧ c₁.outOfBand = c.outOfBand ∧ c₁.g.resetSteps = c.g.resetSteps ∧
      c₁.g.anchors = c.g.anchors) : BandStep prof c e (mclkPhase err c₁) := by
  obtain ⟨hl, ho, hs, ha⟩ := hc
  have hband : stepBand c₁ = stepBand c := by rw [stepBand, hl, stepBand]
  have hle := stepBand_le c
  set n : ℤ := if err > stepBand c ∨ err < -stepBand c then c.outOfBand + 1 else 0 with hn
  have hrun : mclkPhase err c₁ =
      if (err > AP_MCLK_RESET_FRAMES ∨ err < -AP_MCLK_RESET_FRAMES) ∨ n ≥ AP_MCLK_UPDATE_HZ / 2 then
        { measured err 0 c₁ with
          jb := jbStepPlayout err c₁.jb
          g := { (measured err 0 c₁).g with integral := 0, resetSteps := u32 (c₁.g.resetSteps + 1) } }
      else if !c₁.g.armed then measured err n c₁ else mclkSteer err (measured err n c₁) := by
    rw [hn, ← hband, ← ho]
    rfl
  have hkeep (h : ¬ ((err > AP_MCLK_RESET_FRAMES ∨ err < -AP_MCLK_RESET_FRAMES) ∨ n ≥ AP_MCLK_UPDATE_HZ / 2)) :
      (mclkPhase err c₁).outOfBand = n ∧ (mclkPhase err c₁).g.resetSteps = c.g.resetSteps ∧
        (mclkPhase err c₁).g.anchors = c.g.anchors := by
    rw [hrun, if_neg h]
    split_ifs
    · exact ⟨rfl, hs, ha⟩
    · exact ⟨rfl, hs, ha⟩
  by_cases hb : OutOfBand c err
  · have hone : n = c.outOfBand + 1 := if_pos hb
    by_cases hstep : (err > AP_MCLK_RESET_FRAMES ∨ err < -AP_MCLK_RESET_FRAMES) ∨ n ≥ AP_MCLK_UPDATE_HZ / 2
    · rw [hrun, if_pos hstep]
      refine .stepped err hm hb (fun hsoft => ?_) rfl (hs ▸ u32_succ_ne _) ha
      rw [abs_le] at hsoft
      omega
    · obtain ⟨h1, h2, h3⟩ := hkeep hstep
      exact .counted err hm hb (by omega) (h1.trans hone) h2 h3
  · have hzero : n = 0 := if_neg hb
    have hin : ¬ ((err > AP_MCLK_RESET_FRAMES ∨ err < -AP_MCLK_RESET_FRAMES) ∨ n ≥ AP_MCLK_UPDATE_HZ / 2) := by
      simp only [OutOfBand, AP_MCLK_RESET_FRAMES] at hb hle
      simp only [hzero, AP_MCLK_RESET_FRAMES, AP_MCLK_UPDATE_HZ]
      omega
    obtain ⟨h1, h2, h3⟩ := hkeep hin
    exact .inside err hm hb (h1.trans hzero) h2 h3

theorem bandStep_tick (c : MediaClock) (i : ClockIn) : BandStep prof c (.tick i) (mclkTick prof i c) := by
  by_cases hlock : i.ptp.locked = true
  · set ff := clamp (-AP_MCLK_FF_PPB_MAX) AP_MCLK_FF_PPB_MAX i.ptp.ratePpb
    set c₁ : MediaClock := ({ c with g := { c.g with ppbFf := ff } } : MediaClock).apply with hc₁
    have hrun : mclkTick prof i c = mclkFollow prof i c₁ := by
      simp only [mclkTick, hlock, Bool.not_true, Bool.false_eq_true, if_false]
      rfl
    have hanchor : tickErr prof c (.tick i) = none → BandStep prof c (.tick i) (mclkAnchor prof i c₁) := fun h =>
      .idle h (outOfBand_anchor prof i c₁).1 (outOfBand_anchor prof i c₁).2
    rw [hrun]
    by_cases hsteps : i.ptp.stepCount = c.lastPtpSteps
    · cases ha : c.g.anchored with
      | false =>
        have hgo : mclkFollow prof i c₁ = mclkAnchor prof i c₁ := by
          have ha₁ : c₁.g.anchored = false := ha
          have hs₁ : i.ptp.stepCount = c₁.lastPtpSteps := hsteps
          simp only [mclkFollow, hs₁, ne_eq, not_true_eq_false, if_false, ha₁, Bool.not_false, if_true]
        rw [hgo]
        exact hanchor (by simp [tickErr, ha])
      | true =>
        have ha₁ : c₁.g.anchored = true := ha
        have hs₁ : i.ptp.stepCount = c₁.lastPtpSteps := hsteps
        simp only [mclkFollow, hs₁, ne_eq, not_true_eq_false, if_false, ha₁, Bool.not_true, Bool.false_eq_true]
        cases hnow : mclkNowSamples prof i with
        | none => exact .idle (by simp [tickErr, hnow]) rfl rfl
        | some now =>
          refine bandStep_phase prof ?_ ⟨rfl, rfl, rfl, rfl⟩
          have herr : phaseErr prof i now c₁ = phaseErr prof i now c := rfl
          simp [tickErr, hlock, hsteps, ha, hnow, herr]
    · have hgo : mclkFollow prof i c₁ = mclkAnchor prof i c₁ := if_pos hsteps
      rw [hgo]
      exact hanchor (by simp [tickErr, hsteps])
  · have hrun : mclkTick prof i c = c := by simp [mclkTick, hlock]
    rw [hrun]
    exact .idle (by simp [tickErr, hlock]) rfl rfl

theorem bandStep (c : MediaClock) (e : ClockEvent) : BandStep prof c e (clockStep prof c e) := by
  cases e with
  | tick i => exact bandStep_tick prof c i
  | anchor i => exact .idle rfl (outOfBand_anchor prof i c).1 (outOfBand_anchor prof i c).2
  | setLatency i us =>
    have h := fun c' => outOfBand_applyLatency prof i c'
    refine .idle rfl ((h _).1.trans ?_) ((h _).2.trans ?_) <;> split_ifs <;> rfl
  | setFloor i us => exact .idle rfl (outOfBand_applyLatency prof i _).1 (outOfBand_applyLatency prof i _).2
  | force i us => exact .idle rfl (outOfBand_applyLatency prof i _).1 (outOfBand_applyLatency prof i _).2
  | arm on => cases on <;> exact .idle rfl rfl rfl
  | ring jb => exact .idle rfl rfl rfl

/-- A tick that measures a soft error out of band and finds the count one short of full. -/
def Completes (c : MediaClock) (e : ClockEvent) : Prop :=
  ∃ err, tickErr prof c e = some err ∧ |err| ≤ AP_MCLK_RESET_FRAMES ∧ OutOfBand c err ∧
    AP_MCLK_UPDATE_HZ / 2 ≤ c.outOfBand + 1

theorem softStepped_iff (c : MediaClock) (e : ClockEvent) : SoftStepped prof c e ↔ Completes prof c e := by
  constructor
  · rintro ⟨⟨err, herr, hsoft⟩, hstep⟩
    cases bandStep prof c e with
    | idle hm ho hs => exact absurd hs hstep
    | inside err' hm hb ho hs ha => exact absurd hs hstep
    | counted err' hm hb hn ho hs ha => exact absurd hs hstep
    | stepped err' hm hb hn ho hs ha =>
      obtain rfl : err = err' := Option.some.inj (herr.symm.trans hm)
      exact ⟨err, hm, hsoft, hb, hn hsoft⟩
  · rintro ⟨err, herr, hsoft, hout, hfull⟩
    refine ⟨⟨err, herr, hsoft⟩, ?_⟩
    cases bandStep prof c e with
    | idle hm ho hs => rw [herr] at hm; cases hm
    | inside err' hm hb ho hs ha =>
      obtain rfl : err = err' := Option.some.inj (herr.symm.trans hm)
      exact absurd hout hb
    | counted err' hm hb hn ho hs ha => omega
    | stepped err' hm hb hn ho hs ha => exact hs

def clockAt (c₀ : MediaClock) (l : List ClockEvent) (k : ℕ) : MediaClock := before (clockStep prof) c₀ l k

def tickAt (l : List ClockEvent) (k : ℕ) : Bool := l[k]?.any ClockEvent.isTick

/-- Event `k` is a tick that measures an error outside the band. -/
def beyondAt (c₀ : MediaClock) (l : List ClockEvent) (k : ℕ) : Bool :=
  l[k]?.any (beyondBand prof (clockAt prof c₀ l k))

/-- Half a second of evidence: from event `j` through `n` there are `AP_MCLK_UPDATE_HZ / 2`
ticks, each of them measured an error outside the band, and nothing re-anchored. -/
def Evidence (c₀ : MediaClock) (l : List ClockEvent) (n : ℕ) : Prop :=
  ∃ j ≤ n, (Nat.count (fun k => tickAt l k = true) (n + 1) : ℤ) =
      Nat.count (fun k => tickAt l k = true) j + AP_MCLK_UPDATE_HZ / 2 ∧
    ∀ k (hk : k < l.length), j ≤ k → k ≤ n →
      (l[k].isTick = true → beyondBand prof (clockAt prof c₀ l k) l[k] = true) ∧
        ¬ Reanchored prof (clockAt prof c₀ l k) l[k]

section
variable {prof}
variable {c₀ c : MediaClock} {e : ClockEvent} {l : List ClockEvent} {a b n : ℕ}

theorem clockAt_succ (hn : n < l.length) :
    clockAt prof c₀ l (n + 1) = clockStep prof (clockAt prof c₀ l n) l[n] := before_succ (clockStep prof) c₀ l hn

theorem tickAt_eq (hn : n < l.length) : tickAt l n = l[n].isTick := by
  simp [tickAt, hn]

theorem beyondAt_eq (hn : n < l.length) : beyondAt prof c₀ l n = beyondBand prof (clockAt prof c₀ l n) l[n] := by
  simp [beyondAt, hn]

theorem beyondBand_of {err : ℤ} (hm : tickErr prof c e = some err) : beyondBand prof c e = decide (OutOfBand c err) := by
  rw [beyondBand, hm, Option.any_some]

theorem isTick_of_beyond (h : beyondBand prof c e = true) : e.isTick = true := by
  cases e with
  | tick i => rfl
  | anchor | setLatency | setFloor | force | arm | ring => cases h

theorem outOfBand_range (h0 : c₀.outOfBand = 0) (hb : b ≤ l.length) :
    0 ≤ (clockAt prof c₀ l b).outOfBand ∧ (clockAt prof c₀ l b).outOfBand < AP_MCLK_UPDATE_HZ / 2 := by
  induction b with
  | zero => exact ⟨h0.ge, h0.trans_lt (by decide)⟩
  | succ b ih =>
    obtain ⟨hlow, hhigh⟩ := ih (Nat.le_of_succ_le hb)
    rw [clockAt_succ hb]
    cases bandStep prof (clockAt prof c₀ l b) l[b] with
    | idle hm ho hs => exact ⟨ho ▸ hlow, ho ▸ hhigh⟩
    | inside err hm hi ho hs ha => exact ⟨ho.ge, ho.trans_lt (by decide)⟩
    | counted err hm hi hn ho hs ha => exact ⟨by omega, by omega⟩
    | stepped err hm hi hn ho hs ha => exact ⟨ho.ge, ho.trans_lt (by decide)⟩

/-- As long as it is not cleared, the count is one of the ticks out of band. -/
theorem outOfBand_counts (hab : a ≤ b) (hb : b ≤ l.length)
    (hkept : ∀ k, a < k → k ≤ b → (clockAt prof c₀ l k).outOfBand ≠ 0) :
    (clockAt prof c₀ l b).outOfBand + Nat.count (fun k => beyondAt prof c₀ l k = true) a =
      (clockAt prof c₀ l a).outOfBand + Nat.count (fun k => beyondAt prof c₀ l k = true) b := by
  induction b, hab using Nat.le_induction with
  | base => rfl
  | succ b hab ih =>
    have hbl : b < l.length := hb
    have hprev := ih hbl.le fun k h1 h2 => hkept k h1 (by omega)
    have hne := hkept (b + 1) (by omega) le_rfl
    rw [clockAt_succ hbl] at hne
    rw [clockAt_succ hbl, Nat.count_succ, beyondAt_eq hbl]
    cases bandStep prof (clockAt prof c₀ l b) l[b] with
    | idle hm ho hs =>
      have hno : beyondBand prof (clockAt prof c₀ l b) l[b] = false := by rw [beyondBand, hm, Option.any_none]
      rw [ho, if_neg (by rw [hno]; decide), Nat.add_zero]
      exact hprev
    | inside err hm hi ho hs ha => exact absurd ho hne
    | counted err hm hi hn ho hs ha =>
      rw [ho, beyondBand_of hm, if_pos (decide_eq_true hi)]
      push_cast
      omega
    | stepped err hm hi hn ho hs ha => exact absurd ho hne

/-- Where every tick is one out of band, counting the ones counts the others. -/
theorem count_ticks (hab : a ≤ b) (h : ∀ k, a ≤ k → k < b → tickAt l k = beyondAt prof c₀ l k) :
    Nat.count (fun k => tickAt l k = true) b + Nat.count (fun k => beyondAt prof c₀ l k = true) a =
      Nat.count (fun k => tickAt l k = true) a + Nat.count (fun k => beyondAt prof c₀ l k = true) b := by
  induction b, hab using Nat.le_induction with
  | base => rw [Nat.add_comm]
  | succ b hab ih =>
    have hprev := ih fun k h1 h2 => h k h1 (by omega)
    rw [Nat.count_succ, Nat.count_succ, h b hab (Nat.lt_succ_self b)]
    omega

theorem tickAt_eq_beyondAt (hn : n < l.length)
    (h : l[n].isTick = true → beyondBand prof (clockAt prof c₀ l n) l[n] = true) :
    tickAt l n = beyondAt prof c₀ l n := by
  rw [tickAt_eq hn, beyondAt_eq hn]
  rcases hb : beyondBand prof (clockAt prof c₀ l n) l[n] with _ | _
  · rw [Bool.eq_false_iff]
    intro ht
    rw [h ht] at hb
    cases hb
  · exact isTick_of_beyond hb

/-- With nothing but ticks out of band from `a` through `n`, and the count not cleared, the
ticks are what the count went up by. -/
theorem ticks_counted (ha : a ≤ n) (hn : n < l.length) (hlast : beyondBand prof (clockAt prof c₀ l n) l[n] = true)
    (hkept : ∀ k, a < k → k ≤ n → (clockAt prof c₀ l k).outOfBand ≠ 0)
    (hbeyond : ∀ k (hk : k < l.length), a ≤ k → k ≤ n → l[k].isTick = true →
      beyondBand prof (clockAt prof c₀ l k) l[k] = true) :
    (Nat.count (fun k => tickAt l k = true) (n + 1) : ℤ) + (clockAt prof c₀ l a).outOfBand =
      Nat.count (fun k => tickAt l k = true) a + (clockAt prof c₀ l n).outOfBand + 1 := by
  have hsame : ∀ k, a ≤ k → k < n + 1 → tickAt l k = beyondAt prof c₀ l k := fun k h1 h2 =>
    tickAt_eq_beyondAt (by omega) (hbeyond k (by omega) h1 (by omega))
  have hcount := outOfBand_counts ha hn.le hkept
  have hticks := count_ticks (by omega : a ≤ n + 1) hsame
  rw [Nat.count_succ (p := fun k => beyondAt prof c₀ l k = true), beyondAt_eq hn, if_pos hlast] at hticks
  omega

theorem Completes.beyond (h : Completes prof c e) : beyondBand prof c e = true := by
  obtain ⟨err, herr, -, hout, -⟩ := h
  rw [beyondBand_of herr]
  exact decide_eq_true hout

/-- Nothing between the last clearing of the count and the step but ticks out of band and
events that do not interrupt. -/
theorem evidence_of_kept (h0 : c₀.outOfBand = 0) (hn : n < l.length) (hc : Completes prof (clockAt prof c₀ l n) l[n])
    (hkept : ∀ k (hk : k < l.length), k < n → Interrupts prof (clockAt prof c₀ l k) l[k] →
      ∃ j, k < j ∧ j ≤ n ∧ (clockAt prof c₀ l j).outOfBand = 0) : Evidence prof c₀ l n := by
  have hlast := hc.beyond
  obtain ⟨err, herr, hsoft, hout, hfull⟩ := hc
  -- the last time the count stood at zero
  set z := Nat.findGreatest (fun j => (clockAt prof c₀ l j).outOfBand = 0) n with hz
  have hzn : z ≤ n := Nat.findGreatest_le n
  have hz0 : (clockAt prof c₀ l z).outOfBand = 0 :=
    Nat.findGreatest_spec (P := fun j => (clockAt prof c₀ l j).outOfBand = 0) (Nat.zero_le n) h0
  have hafter : ∀ k, z < k → k ≤ n → (clockAt prof c₀ l k).outOfBand ≠ 0 := fun k h1 h2 =>
    Nat.findGreatest_is_greatest h1 h2
  -- no event since then interrupts, and no tick since then measured inside the band
  have hfree : ∀ k (hk : k < l.length), z ≤ k → k < n → ¬ Interrupts prof (clockAt prof c₀ l k) l[k] := by
    intro k hk hzk hkn hint
    obtain ⟨j, hkj, hjn, hj0⟩ := hkept k hk hkn hint
    exact hafter j (by omega) hjn hj0
  have hbeyond : ∀ k (hk : k < l.length), z ≤ k → k ≤ n → l[k].isTick = true →
      beyondBand prof (clockAt prof c₀ l k) l[k] = true := by
    intro k hk hzk hkn htick
    rcases Nat.lt_or_eq_of_le hkn with hlt | rfl
    · have hne := hafter (k + 1) (by omega) hlt
      rw [clockAt_succ hk] at hne
      cases bandStep prof (clockAt prof c₀ l k) l[k] with
      | idle hm ho hs => exact absurd (.inl ⟨htick, hm⟩) (hfree k hk hzk hlt)
      | inside err hm hi ho hs ha => exact absurd ho hne
      | counted err hm hi hn ho hs ha =>
        rw [beyondBand_of hm]
        exact decide_eq_true hi
      | stepped err hm hi hn ho hs ha => exact absurd ho hne
    · exact hlast
  refine ⟨z, hzn, ?_, fun k hk h1 h2 => ⟨hbeyond k hk h1 h2, ?_⟩⟩
  · have hticks := ticks_counted hzn hn hlast hafter hbeyond
    have hrange : (clockAt prof c₀ l n).outOfBand < AP_MCLK_UPDATE_HZ / 2 := (outOfBand_range h0 hn.le).2
    omega
  · rcases Nat.lt_or_eq_of_le h2 with hlt | rfl
    · exact fun hr => hfree k hk h1 hlt (.inr hr)
    · cases bandStep prof (clockAt prof c₀ l k) l[k] with
      | idle hm ho hs => rw [herr] at hm; cases hm
      | inside err hm hi ho hs ha => exact fun hr => hr ha
      | counted err hm hi hn ho hs ha => exact fun hr => hr ha
      | stepped err hm hi hn ho hs ha => exact fun hr => hr ha

theorem kept_of_evidence (h0 : c₀.outOfBand = 0) (hn : n < l.length) (hc : Completes prof (clockAt prof c₀ l n) l[n])
    (he : Evidence prof c₀ l n) {k : ℕ} (hk : k < l.length) (hkn : k < n)
    (hint : Interrupts prof (clockAt prof c₀ l k) l[k]) :
    ∃ j, k < j ∧ j ≤ n ∧ (clockAt prof c₀ l j).outOfBand = 0 := by
  obtain ⟨j, hjn, hticks, hall⟩ := he
  have hkj : k < j := by
    by_contra hle
    obtain ⟨hb, hr⟩ := hall k hk (by omega) hkn.le
    rcases hint with ⟨htick, hm⟩ | hre
    · have := hb htick
      rw [beyondBand, hm, Option.any_none] at this
      cases this
    · exact hr hre
  by_contra hnone
  have hafter : ∀ i, k < i → i ≤ n → (clockAt prof c₀ l i).outOfBand ≠ 0 := fun i h1 h2 h3 => hnone ⟨i, h1, h2, h3⟩
  have hcounted := ticks_counted hjn hn hc.beyond (fun i h1 h2 => hafter i (by omega) h2)
    fun i hi h1 h2 => (hall i hi h1 h2).1
  have hlow : 0 ≤ (clockAt prof c₀ l j).outOfBand := (outOfBand_range h0 (hjn.trans hn.le)).1
  have hhigh : (clockAt prof c₀ l n).outOfBand < AP_MCLK_UPDATE_HZ / 2 := (outOfBand_range h0 hn.le).2
  exact hafter j hkj hjn (by omega)

end

/-- Every soft step rests on half a second of evidence, in exactly the runs where a tick
that completes the count comes after no interruption that found the count above zero and
that nothing has cleared since. -/
theorem soft_step_evidence_iff (nvsUs : Option ℕ) (jb : JitterBuf) (hw : MclkHw) (l : List ClockEvent) :
    (∀ n (hn : n < l.length), SoftStepped prof (clockAt prof (mclkInit prof nvsUs jb hw) l n) l[n] →
      Evidence prof (mclkInit prof nvsUs jb hw) l n) ↔
    ∀ n (hn : n < l.length), Completes prof (clockAt prof (mclkInit prof nvsUs jb hw) l n) l[n] →
      ∀ k (hk : k < l.length), k < n → Interrupts prof (clockAt prof (mclkInit prof nvsUs jb hw) l k) l[k] →
        ∃ j, k < j ∧ j ≤ n ∧ (clockAt prof (mclkInit prof nvsUs jb hw) l j).outOfBand = 0 := by
  have h0 : (mclkInit prof nvsUs jb hw).outOfBand = 0 := rfl
  constructor
  · intro h n hn hc k hk hkn hint
    exact kept_of_evidence h0 hn hc (h n hn ((softStepped_iff prof _ _).mpr hc)) hk hkn hint
  · intro h n hn hstep
    have hc := (softStepped_iff prof _ _).mp hstep
    exact evidence_of_kept h0 hn hc (h n hn hc)

/-- A tick on a slave that has a master, `ns` past the first second. -/
def tickAfter (locked : Bool) (ns : ℕ) : ClockEvent :=
  .tick ⟨{ ptpv1State0 with locked := locked, haveMaster := true }, some ⟨1, ns⟩, 0⟩

/-- An anchor, four ticks 60 frames out of band, one without lock, and one more out of band. -/
def lockLostInCount : List ClockEvent :=
  [tickAfter true 0, tickAfter true 1250000, tickAfter true 1250000, tickAfter true 1250000, tickAfter true 1250000,
    tickAfter false 1250000, tickAfter true 1250000]

/-- The tick after the lock comes back steps the playout on four ticks from before the
loss and its own reading. -/
theorem soft_step_across_lock_loss :
    ∃ (n : ℕ) (hn : n < lockLostInCount.length),
      SoftStepped rate48k (clockAt rate48k learnedClock lockLostInCount n) lockLostInCount[n] ∧
        ¬ Evidence rate48k learnedClock lockLostInCount n := by
  refine ⟨6, by decide, ⟨⟨60, by decide +kernel, by decide⟩, by decide +kernel⟩, ?_⟩
  rintro ⟨j, hj, hcount, hall⟩
  rcases Nat.lt_or_eq_of_le hj with hlt | rfl
  · -- the tick without lock measured nothing
    exact absurd ((hall 5 (by decide) (by omega) (by decide)).1 (by decide)) (by decide +kernel)
  · exact absurd hcount (by decide)

end Inferno
