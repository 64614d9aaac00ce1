import Inferno.Lib.Control
import Inferno.Lib.Trace
import Inferno.Spec.MediaClock

/-! The phase loop of the media clock over every run: no history of locks, steps,
re-anchors and arming winds the integral past what the clamp lets it ask for, and the
actuator is never asked for more than it renders. -/

namespace Inferno

open Lib

variable (prof : RateProfile)

/-- What holds of the loop between events. -/
structure LoopInv (c : MediaClock) : Prop where
  integral : |c.g.integral * AP_MCLK_KI_NUM| < AP_MCLK_PPB_CLAMP * 1000
  applied : |c.g.ppbApplied| ≤ AP_MCLK_PPB_CLAMP
  ff : |c.g.ppbFf| ≤ AP_MCLK_FF_PPB_MAX
  cmds : ∀ q ∈ c.cmds, |q| ≤ AP_MCLK_TOTAL_PPB_MAX
  rendered : ∀ q, c.cmds.getLast? = some q → c.hw.ppb = q

theorem loopInv_init (nvsUs : Option ℕ) (jb : JitterBuf) (hw : MclkHw) : LoopInv (mclkInit prof nvsUs jb hw) :=
  ⟨show |(0 : ℤ) * AP_MCLK_KI_NUM| < AP_MCLK_PPB_CLAMP * 1000 by decide,
    show |(0 : ℤ)| ≤ AP_MCLK_PPB_CLAMP by decide, show |(0 : ℤ)| ≤ AP_MCLK_FF_PPB_MAX by decide,
    fun q hq => absurd hq List.not_mem_nil, fun q hq => by cases hq⟩

theorem LoopInv.of_eq {c c' : MediaClock} (hi : LoopInv c)
    (hint : c'.g.integral = c.g.integral ∨ c'.g.integral = 0) (happ : c'.g.ppbApplied = c.g.ppbApplied)
    (hff : c'.g.ppbFf = c.g.ppbFf) (hcmds : c'.cmds = c.cmds) (hhw : c'.hw = c.hw) : LoopInv c' := by
  refine ⟨?_, happ ▸ hi.applied, hff ▸ hi.ff, hcmds ▸ hi.cmds, fun q hq => ?_⟩
  · rcases hint with h | h
    · exact h ▸ hi.integral
    · rw [h]
      decide
  · rw [hhw]
    exact hi.rendered q (hcmds ▸ hq)

theorem total_mem {ff applied : ℤ} (hff : |ff| ≤ AP_MCLK_FF_PPB_MAX) (happ : |applied| ≤ AP_MCLK_PPB_CLAMP) :
    |ff + applied| ≤ AP_MCLK_TOTAL_PPB_MAX :=
  (abs_add_le ff applied).trans (add_le_add hff happ)

theorem clamp_total {q : ℤ} (hq : |q| ≤ AP_MCLK_TOTAL_PPB_MAX) :
    clamp (-AP_MCLK_TOTAL_PPB_MAX) AP_MCLK_TOTAL_PPB_MAX q = q :=
  clamp_of_mem (abs_le.mp hq).1 (abs_le.mp hq).2

theorem LoopInv.apply {c : MediaClock} (hint : |c.g.integral * AP_MCLK_KI_NUM| < AP_MCLK_PPB_CLAMP * 1000)
    (happ : |c.g.ppbApplied| ≤ AP_MCLK_PPB_CLAMP) (hff : |c.g.ppbFf| ≤ AP_MCLK_FF_PPB_MAX)
    (hcmds : ∀ q ∈ c.cmds, |q| ≤ AP_MCLK_TOTAL_PPB_MAX) : LoopInv c.apply := by
  have htotal := total_mem hff happ
  refine ⟨hint, happ, hff, fun q hq => ?_, fun q hq => ?_⟩
  · rcases List.mem_append.mp hq with h | h
    · exact hcmds q h
    · rw [List.mem_singleton.mp h]
      exact htotal
  · have hlast : c.apply.cmds.getLast? = some (c.g.ppbFf + c.g.ppbApplied) := List.getLast?_concat
    rw [hlast, Option.some.injEq] at hq
    rw [← hq]
    exact clamp_total htotal

/-- Anti-windup at the loop's gains: an error taken in leaves the integral term inside
the clamp, far from the integral's own. -/
theorem integral_windup {err integral : ℤ} (hi : |integral * AP_MCLK_KI_NUM| < AP_MCLK_PPB_CLAMP * 1000)
    (hout : |phasePpb err integral| < AP_MCLK_PPB_CLAMP) :
    |(integral + err) * AP_MCLK_KI_NUM| < AP_MCLK_PPB_CLAMP * 1000 := by
  rw [phasePpb, mul_comm err] at hout
  exact antiWindup (by decide) (by decide) (by decide) hout hi

theorem integral_bound {integral : ℤ} (hi : |integral * AP_MCLK_KI_NUM| < AP_MCLK_PPB_CLAMP * 1000) :
    |integral| ≤ 666666 := by
  simp only [abs_lt, AP_MCLK_KI_NUM, AP_MCLK_PPB_CLAMP] at hi
  rw [abs_le]
  omega

theorem steer_spec {c : MediaClock} (hi : LoopInv c) (err : ℤ) :
    LoopInv (mclkSteer err c) ∧
      |(mclkSteer err c).g.ppbApplied - c.g.ppbApplied| ≤ AP_MCLK_SLEW_PPB_PER_S / AP_MCLK_UPDATE_HZ := by
  set c' := mclkSteer err c with hc'
  set t := c'.g.ppbTarget
  have ht : |t| ≤ AP_MCLK_PPB_CLAMP := abs_clamp_le (by decide) _
  set d := clamp (-10) 10 (t - c.g.ppbApplied) with hd
  have hd10 : |d| ≤ 10 := abs_clamp_le (by decide) _
  have happ : c'.g.ppbApplied = c.g.ppbApplied + d := rfl
  -- the slew goes toward the target and not past it, so it stays inside the clamp
  have hin : |c.g.ppbApplied + d| ≤ AP_MCLK_PPB_CLAMP := by
    have h := hi.applied
    simp only [abs_le, AP_MCLK_PPB_CLAMP] at h ht ⊢
    simp only [hd, clamp]
    split_ifs <;> omega
  refine ⟨?_, ?_⟩
  · rw [hc', mclkSteer]
    refine LoopInv.apply ?_ hin hi.ff hi.cmds
    dsimp only
    split_ifs with hout
    · -- taken in: the integral's own clamp has nothing to do
      have hwind := integral_windup hi.integral (abs_lt.mpr ⟨hout.2, hout.1⟩)
      have hb := abs_le.mp (integral_bound hwind)
      rwa [clamp_of_mem (by omega) (by omega)]
    · exact hi.integral
  · rw [happ, add_sub_cancel_left]
    exact hd10

/-- An operation that keeps the loop's invariant and leaves the phase term alone, or
moves it by no more than one slew. -/
def Slewed (c c' : MediaClock) : Prop :=
  LoopInv c' ∧ |c'.g.ppbApplied - c.g.ppbApplied| ≤ AP_MCLK_SLEW_PPB_PER_S / AP_MCLK_UPDATE_HZ

theorem Slewed.of_same {c c' : MediaClock} (hi : LoopInv c') (h : c'.g.ppbApplied = c.g.ppbApplied) :
    Slewed c c' := by
  refine ⟨hi, ?_⟩
  rw [h, sub_self]
  decide

theorem slewed_anchor {c : MediaClock} (hi : LoopInv c) (i : ClockIn) : Slewed c (mclkAnchor prof i c) := by
  unfold mclkAnchor
  split_ifs
  · exact Slewed.of_same hi rfl
  · cases mclkNowSamples prof i with
    | none => exact Slewed.of_same hi rfl
    | some now => exact Slewed.of_same (hi.of_eq (.inr rfl) rfl rfl rfl rfl) rfl

theorem loopInv_anchor {c : MediaClock} (hi : LoopInv c) (i : ClockIn) : LoopInv (mclkAnchor prof i c) :=
  (slewed_anchor prof hi i).1

def measured (err : ℤ) (n : ℤ) (c : MediaClock) : MediaClock :=
  { c with g := { c.g with errorFrames := Int.bmod err (2 ^ 32) }, outOfBand := n }

theorem mclkPhase_cases (err : ℤ) (c : MediaClock) : ∃ n,
    mclkPhase err c = { measured err 0 c with
        jb := jbStepPlayout err c.jb
        g := { (measured err 0 c).g with integral := 0, resetSteps := u32 (c.g.resetSteps + 1) } } ∨
      mclkPhase err c = measured err n c ∨ mclkPhase err c = mclkSteer err (measured err n c) := by
  set n : ℤ := if err > stepBand c ∨ err < -stepBand c then c.outOfBand + 1 else 0 with hn
  have hrun : mclkPhase err c =
      if (err > AP_MCLK_RESET_FRAMES ∨ err < -AP_MCLK_RESET_FRAMES) ∨ n ≥ AP_MCLK_UPDATE_HZ / 2 then
        { measured err 0 c with
          jb := jbStepPlayout err c.jb
          g := { (measured err 0 c).g with integral := 0, resetSteps := u32 (c.g.resetSteps + 1) } }
      else if !c.g.armed then measured err n c else mclkSteer err (measured err n c) := rfl
  refine ⟨n, ?_⟩
  rw [hrun]
  split_ifs
  · exact .inl rfl
  · exact .inr (.inl rfl)
  · exact .inr (.inr rfl)

theorem slewed_phase {c : MediaClock} (hi : LoopInv c) (err : ℤ) : Slewed c (mclkPhase err c) := by
  have hm : ∀ n, LoopInv (measured err n c) := fun n => hi.of_eq (.inl rfl) rfl rfl rfl rfl
  obtain ⟨n, h | h | h⟩ := mclkPhase_cases err c
  · rw [h]
    exact Slewed.of_same (hi.of_eq (.inr rfl) rfl rfl rfl rfl) rfl
  · rw [h]
    exact Slewed.of_same (hm n) rfl
  · rw [h]
    exact steer_spec (hm n) err

theorem slewed_follow {c : MediaClock} (hi : LoopInv c) (i : ClockIn) : Slewed c (mclkFollow prof i c) := by
  unfold mclkFollow
  split_ifs
  · exact slewed_anchor prof hi i
  · exact slewed_anchor prof hi i
  · cases mclkNowSamples prof i with
    | none => exact Slewed.of_same hi rfl
    | some now => exact slewed_phase hi _

theorem slewed_tick {c : MediaClock} (hi : LoopInv c) (i : ClockIn) : Slewed c (mclkTick prof i c) := by
  unfold mclkTick
  split_ifs
  · exact Slewed.of_same hi rfl
  · set c₁ : MediaClock :=
      { c with g := { c.g with ppbFf := clamp (-AP_MCLK_FF_PPB_MAX) AP_MCLK_FF_PPB_MAX i.ptp.ratePpb } }
    have hff : |c₁.g.ppbFf| ≤ AP_MCLK_FF_PPB_MAX := abs_clamp_le (by decide) _
    have h₁ : LoopInv c₁.apply := LoopInv.apply hi.integral hi.applied hff hi.cmds
    exact slewed_follow prof h₁ i

theorem loopInv_applyLatency {c : MediaClock} (hi : LoopInv c) (i : ClockIn) :
    LoopInv (applyLatency prof i c) := by
  unfold applyLatency
  dsimp only
  split_ifs
  · exact hi
  · refine loopInv_anchor prof ?_ i
    exact hi.of_eq (.inl rfl) rfl rfl rfl rfl

theorem loopInv_step {c : MediaClock} (hi : LoopInv c) (e : ClockEvent) : LoopInv (clockStep prof c e) := by
  cases e with
  | tick i => exact (slewed_tick prof hi i).1
  | anchor i => exact (slewed_anchor prof hi i).1
  | setLatency i us =>
    refine loopInv_applyLatency prof ?_ i
    split_ifs <;> exact hi.of_eq (.inl rfl) rfl rfl rfl rfl
  | setFloor i us =>
    have h : LoopInv { c with floorUs := us } := hi.of_eq (.inl rfl) rfl rfl rfl rfl
    exact loopInv_applyLatency prof h i
  | force i us =>
    have h : LoopInv { c with forceUs := us } := hi.of_eq (.inl rfl) rfl rfl rfl rfl
    exact loopInv_applyLatency prof h i
  | arm on =>
    cases on with
    | true => exact hi.of_eq (.inl rfl) rfl rfl rfl rfl
    | false => exact LoopInv.apply hi.integral (show |(0 : ℤ)| ≤ AP_MCLK_PPB_CLAMP by decide) hi.ff hi.cmds
  | ring jb => exact hi.of_eq (.inl rfl) rfl rfl rfl rfl

def clockRun (nvsUs : Option ℕ) (jb : JitterBuf) (hw : MclkHw) (l : List ClockEvent) : MediaClock :=
  l.foldl (clockStep prof) (mclkInit prof nvsUs jb hw)

theorem loopInv_run (nvsUs : Option ℕ) (jb : JitterBuf) (hw : MclkHw) (l : List ClockEvent) :
    LoopInv (clockRun prof nvsUs jb hw l) :=
  run_induct (clockStep prof) (P := fun _ c => LoopInv c) (loopInv_init prof nvsUs jb hw)
    (fun _ e hi => loopInv_step prof hi e) l

/-- Over every run: the integral stays within a third of its clamp and its term within
the output clamp, whatever error a tick takes in; the phase term stays in the clamp and a
tick moves it by one slew at most; and every rate commanded is rendered as commanded. -/
theorem media_clock_loop (nvsUs : Option ℕ) (jb : JitterBuf) (hw : MclkHw) (l : List ClockEvent) :
    |(clockRun prof nvsUs jb hw l).g.integral| ≤ 666666 ∧
    |((clockRun prof nvsUs jb hw l).g.integral * AP_MCLK_KI_NUM).tdiv 1000| ≤ AP_MCLK_PPB_CLAMP ∧
    (∀ err, |phasePpb err (clockRun prof nvsUs jb hw l).g.integral| < AP_MCLK_PPB_CLAMP →
      |(clockRun prof nvsUs jb hw l).g.integral + err| ≤ 666666) ∧
    |(clockRun prof nvsUs jb hw l).g.ppbApplied| ≤ AP_MCLK_PPB_CLAMP ∧
    (∀ i, |(mclkTick prof i (clockRun prof nvsUs jb hw l)).g.ppbApplied -
      (clockRun prof nvsUs jb hw l).g.ppbApplied| ≤ AP_MCLK_SLEW_PPB_PER_S / AP_MCLK_UPDATE_HZ) ∧
    (∀ q ∈ (clockRun prof nvsUs jb hw l).cmds, clamp (-AP_MCLK_TOTAL_PPB_MAX) AP_MCLK_TOTAL_PPB_MAX q = q) ∧
    (∀ q, (clockRun prof nvsUs jb hw l).cmds.getLast? = some q → (clockRun prof nvsUs jb hw l).hw.ppb = q) := by
  have hi := loopInv_run prof nvsUs jb hw l
  refine ⟨integral_bound hi.integral, abs_tdiv_le (by decide) hi.integral.le, fun err hout => ?_, hi.applied,
    fun i => (slewed_tick prof hi i).2, fun q hq => clamp_total (hi.cmds q hq), hi.rendered⟩
  exact integral_bound (integral_windup hi.integral hout)

end Inferno
