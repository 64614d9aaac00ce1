import Inferno.Lib.Control
import Inferno.Proofs.ServoLock

/-! The rate of the PTP servo over every run from reset. Between calls the rate is the
clamped readout of the integral at the gain of the present lock state; every change of
gain reseeds the integral with the rate it stands for, and both gains divide the
denominator, so no change of gain moves the rate. -/

namespace Inferno

open Lib

variable {D : Type} (A : Dbl D)

def PtpServo.ki (s : PtpServo D) : ℤ := if s.locked then KI_NUM else KI_ACQ_NUM

def propPpb (s : PtpServo D) (f : ℤ) : ℤ :=
  let big := f > 1000 ∨ f < -1000
  let pNum := if s.locked then if big then KP_FAST_NUM else KP_NUM
    else if big then KP_ACQ_FAST_NUM else KP_ACQ_NUM
  clamp (-50000) 50000 ((-(f * pNum)).tdiv KP_DEN)

/-- What holds of the rate between calls. -/
structure RateInv (s : PtpServo D) : Prop where
  rate : |s.ratePpb| ≤ 100000
  applied : |s.appliedPpb| ≤ 150000
  integral : |s.integralNs| ≤ INTEGRAL_MAX
  reads : s.estDone = true → s.ratePpb = clamp (-100000) 100000 (readout s.ki KI_DEN s.integralNs)

theorem rateInv_init : RateInv (ptpServoInit A) :=
  ⟨show |(0 : ℤ)| ≤ 100000 by decide, show |(0 : ℤ)| ≤ 150000 by decide,
    show |(0 : ℤ)| ≤ INTEGRAL_MAX by decide, fun h => Bool.noConfusion h⟩

theorem ki_cases {k : ℤ} (hk : k = KI_NUM ∨ k = KI_ACQ_NUM) : 0 < k ∧ k ∣ KI_DEN ∧ |KI_DEN / k| ≤ 50 := by
  rcases hk with rfl | rfl <;> decide

theorem PtpServo.ki_eq (s : PtpServo D) : s.ki = KI_NUM ∨ s.ki = KI_ACQ_NUM := by
  unfold PtpServo.ki
  split_ifs
  · exact .inl rfl
  · exact .inr rfl

/-- Reseeding the integral for another gain keeps the rate it reads as, and stays far
inside the integral clamp. -/
theorem seed_reads {r k : ℤ} (hk : k = KI_NUM ∨ k = KI_ACQ_NUM) (hr : |r| ≤ 100000) :
    r = clamp (-100000) 100000 (readout k KI_DEN (seed k KI_DEN r)) ∧
      |seed k KI_DEN r| ≤ INTEGRAL_MAX := by
  obtain ⟨hpos, hdvd, hq⟩ := ki_cases hk
  refine ⟨?_, ?_⟩
  · rw [readout_seed hpos.ne' (by decide) hdvd]
    exact (clamp_of_mem (abs_le.mp hr).1 (abs_le.mp hr).2).symm
  · rw [abs_seed hpos.ne' hdvd]
    calc |r| * |KI_DEN / k| ≤ 100000 * 50 := mul_le_mul hr hq (abs_nonneg _) (by decide)
      _ ≤ INTEGRAL_MAX := by decide

theorem RateInv.of_eq {s s' : PtpServo D} (hi : RateInv s) (hr : s'.ratePpb = s.ratePpb)
    (ha : s'.appliedPpb = s.appliedPpb ∨ s'.appliedPpb = s.ratePpb)
    (hn : s'.integralNs = s.integralNs) (hl : s'.locked = s.locked) (hd : s'.estDone = s.estDone) :
    RateInv s' := by
  refine ⟨hr ▸ hi.rate, ?_, hn ▸ hi.integral, fun h => ?_⟩
  · rcases ha with ha | ha
    · exact ha ▸ hi.applied
    · have := hi.rate
      rw [ha]
      omega
  · have := hi.reads (hd ▸ h)
    rwa [hr, hn, show s'.ki = s.ki by rw [PtpServo.ki, hl, PtpServo.ki]]

theorem RateInv.of_seed {s s' : PtpServo D} (hi : RateInv s) (hr : s'.ratePpb = s.ratePpb)
    (ha : |s'.appliedPpb| ≤ 150000) (hn : s'.integralNs = seed s'.ki KI_DEN s.ratePpb) : RateInv s' := by
  obtain ⟨h1, h2⟩ := seed_reads s'.ki_eq hi.rate
  exact ⟨hr ▸ hi.rate, ha, hn ▸ h2, fun _ => by rw [hr, hn]; exact h1⟩

theorem rateInv_front {s : PtpServo D} (hi : RateInv s) (o t : ℤ) :
    RateInv (frontState s o t) ∧ (frontState s o t).ratePpb = s.ratePpb := by
  have hc : ∀ p : PtpServo D, (compensate p t).ratePpb = p.ratePpb ∧ (compensate p t).appliedPpb = p.appliedPpb ∧
      (compensate p t).integralNs = p.integralNs := fun p => by
    unfold compensate
    split_ifs <;> exact ⟨rfl, rfl, rfl⟩
  obtain ⟨hr, ha, hn⟩ := hc { s with offsetNs := o }
  exact ⟨hi.of_eq hr (.inl ha) hn (congrArg Ctl.locked (ctl_frontState s o t)) (estDone_frontState s o t), hr⟩

/-- The jump check hands on the same rate, reseeded if it took the lock away. -/
theorem rateInv_jumpCheck {s : PtpServo D} (hi : RateInv s) (f t : ℤ) :
    (∀ p step, jumpCheck s f t = .hold p step →
      RateInv p ∧ p.ratePpb = s.ratePpb ∧ p.filteredNs = s.filteredNs) ∧
    (∀ p, jumpCheck s f t = .go p →
      RateInv p ∧ p.ratePpb = s.ratePpb ∧ p.filteredNs = s.filteredNs ∧ p.estDone = s.estDone) := by
  by_cases hl : s.locked = true
  · by_cases hf : |f| > PS_JUMP_NS
    · by_cases hrun : u8 (s.jumpRun + 1) < PS_JUMP_N
      · simp only [jumpCheck, if_pos hl, if_pos hf, if_pos hrun, Jumped.hold.injEq, reduceCtorEq, false_implies,
          implies_true, and_true]
        rintro p step ⟨rfl, rfl⟩
        exact ⟨hi.of_eq rfl (.inr rfl) rfl rfl rfl, rfl, rfl⟩
      · by_cases hs : strikes s t < PS_JUMP_STRIKES
        · simp only [jumpCheck, if_pos hl, if_pos hf, if_neg hrun, if_pos hs, Jumped.hold.injEq, reduceCtorEq,
            false_implies, implies_true, and_true]
          rintro p step ⟨rfl, rfl⟩
          exact ⟨hi.of_eq rfl (.inr rfl) rfl rfl rfl, rfl, rfl⟩
        · simp only [jumpCheck, if_pos hl, if_pos hf, if_neg hrun, if_neg hs, Jumped.go.injEq, reduceCtorEq,
            false_implies, implies_true, true_and]
          rintro p rfl
          exact ⟨hi.of_seed rfl hi.applied rfl, rfl, rfl, rfl⟩
    · simp only [jumpCheck, if_pos hl, if_neg hf, Jumped.go.injEq, reduceCtorEq, false_implies, implies_true, true_and]
      rintro p rfl
      exact ⟨hi.of_eq rfl (.inl rfl) rfl rfl rfl, rfl, rfl, rfl⟩
  · simp only [jumpCheck, if_neg hl, Jumped.go.injEq, reduceCtorEq, false_implies, implies_true, true_and]
    rintro p rfl
    exact ⟨hi, rfl, rfl, rfl⟩

/-- The output is the rate plus the phase term: the clamp around the sum has nothing to do. -/
theorem piUpdate_out (s : PtpServo D) (f : ℤ) :
    (piUpdate s f).2 = (piUpdate s f).1.ratePpb + propPpb s f ∧ |(piUpdate s f).1.ratePpb| ≤ 100000 ∧
      |(piUpdate s f).2| ≤ 150000 := by
  have hr : |(piUpdate s f).1.ratePpb| ≤ 100000 := abs_clamp_le (by decide) _
  have hp : |propPpb s f| ≤ 50000 := abs_clamp_le (by decide) _
  have he : (piUpdate s f).2 = clamp (-200000) 200000 ((piUpdate s f).1.ratePpb + propPpb s f) := rfl
  have hsum := abs_add_le (piUpdate s f).1.ratePpb (propPpb s f)
  have hin := abs_le.mp (hsum.trans (add_le_add hr hp))
  rw [clamp_of_mem (by omega) (by omega)] at he
  exact ⟨he, hr, he ▸ abs_le.mpr ⟨by omega, by omega⟩⟩

theorem rateInv_piUpdate {s : PtpServo D} (hi : RateInv s) (f : ℤ) : RateInv (piUpdate s f).1 :=
  ⟨(piUpdate_out s f).2.1, hi.applied, abs_clamp_le (by decide) _, fun _ => rfl⟩

/-- One PI update moves the rate by the error times the gain, up to one unit. -/
theorem piUpdate_bumpless {s : PtpServo D} (hi : RateInv s) (hd : s.estDone = true) (f : ℤ) :
    |(piUpdate s f).1.ratePpb - s.ratePpb| * KI_DEN ≤ |f| * s.ki + KI_DEN := by
  have hk := (ki_cases s.ki_eq).1.le
  set i' := clamp (-INTEGRAL_MAX) INTEGRAL_MAX (s.integralNs + f) with hi'
  have hr : (piUpdate s f).1.ratePpb = clamp (-100000) 100000 (readout s.ki KI_DEN i') := rfl
  have hstep : |i' - s.integralNs| ≤ |f| := by
    have hin := abs_le.mp hi.integral
    have h := abs_clamp_sub_le (-INTEGRAL_MAX) INTEGRAL_MAX (s.integralNs + f) s.integralNs
    rwa [clamp_of_mem hin.1 hin.2, add_sub_cancel_left] at h
  rw [hr, hi.reads hd]
  calc |clamp (-100000) 100000 (readout s.ki KI_DEN i') -
        clamp (-100000) 100000 (readout s.ki KI_DEN s.integralNs)| * KI_DEN
      ≤ |readout s.ki KI_DEN i' - readout s.ki KI_DEN s.integralNs| * KI_DEN :=
        mul_le_mul_of_nonneg_right (abs_clamp_sub_le _ _ _ _) (by decide)
    _ ≤ |i' - s.integralNs| * s.ki + KI_DEN := readout_sub_le _ _ hk (by decide)
    _ ≤ |f| * s.ki + KI_DEN := by
        have := mul_le_mul_of_nonneg_right hstep hk
        omega

theorem rateInv_hysteresis {s : PtpServo D} (hi : RateInv s) (f : ℤ) :
    RateInv (hysteresis s f) ∧ (hysteresis s f).ratePpb = s.ratePpb := by
  simp only [hysteresis]
  split_ifs with hl hf hu hf hk
  · exact ⟨hi.of_seed rfl hi.applied rfl, rfl⟩
  · exact ⟨hi.of_eq rfl (.inl rfl) rfl rfl rfl, rfl⟩
  · exact ⟨hi.of_eq rfl (.inl rfl) rfl rfl rfl, rfl⟩
  · exact ⟨hi.of_seed rfl hi.applied rfl, rfl⟩
  · exact ⟨hi.of_eq rfl (.inl rfl) rfl rfl rfl, rfl⟩
  · exact ⟨hi.of_eq rfl (.inl rfl) rfl rfl rfl, rfl⟩

theorem rateInv_back {s : PtpServo D} (hi : RateInv s) (hd : s.estDone = true) (f : ℤ) :
    RateInv (servoBack s f).s ∧ |(servoBack s f).ppb| ≤ 150000 ∧
      |(servoBack s f).s.ratePpb - s.ratePpb| * KI_DEN ≤ |f| * s.ki + KI_DEN := by
  obtain ⟨hh, hr⟩ := rateInv_hysteresis (rateInv_piUpdate hi f) f
  have hout := (piUpdate_out s f).2.2
  have hrate : (servoBack s f).s.ratePpb = (piUpdate s f).1.ratePpb := hr
  exact ⟨⟨hh.rate, hout, hh.integral, hh.reads⟩, hout, hrate ▸ piUpdate_bumpless hi hd f⟩

/-- The estimate either leaves rate and integral alone or seeds both from its slope. -/
theorem rateInv_estimate {s : PtpServo D} (hi : RateInv s) (hl : s.locked = false) (o t : ℤ) : RateInv (estimate A s o t) := by
  have hadd : RateInv (estimateAdd A s o t) ∧ (estimateAdd A s o t).locked = false := by
    unfold estimateAdd
    split_ifs <;> exact ⟨hi.of_eq rfl (.inl rfl) rfl rfl rfl, hl⟩
  obtain ⟨ha, hla⟩ := hadd
  simp only [estimate]
  split_ifs with h1 h2
  · exact ha
  · exact ha
  · set total := clamp (-100000) 100000
      ((estimateAdd A s o t).appliedPpb - A.toInt (estimateSlope A (estimateAdd A s o t)))
    have ht : |total| ≤ 100000 := abs_clamp_le (by decide) _
    obtain ⟨hreads, hmax⟩ := seed_reads (.inr rfl) ht
    refine ⟨ht, ht.trans (by decide), hmax, fun _ => ?_⟩
    simp only [PtpServo.ki, hla, Bool.false_eq_true, if_false]
    exact hreads

/-- The integral gain a call that reaches the PI path works with: the gain of the state
the jump check hands on. -/
def kiInForce (s : PtpServo D) (c : ServoCall) : ℤ :=
  match (servoFront (c.entry s) c.offsetNs c.tNs).1 with
  | .hold p _ => p.ki
  | .go p => p.ki

theorem rateInv_entry {s : PtpServo D} (hi : RateInv s) (c : ServoCall) :
    RateInv (c.entry s) ∧ (c.entry s).ratePpb = s.ratePpb := by
  unfold ServoCall.entry
  split_ifs
  · exact ⟨hi.of_eq rfl (.inl rfl) rfl rfl rfl, rfl⟩
  · exact ⟨hi, rfl⟩

/-- What one call does to the rate. -/
structure RateStep (s : PtpServo D) (c : ServoCall) (u : Upd D) : Prop where
  inv : RateInv u.s
  out : |u.ppb| ≤ 150000
  bumpless : s.estDone = true → ¬ c.coarse →
    |u.s.ratePpb - s.ratePpb| * KI_DEN ≤ |u.s.filteredNs| * kiInForce s c + KI_DEN

theorem rateStep_pi {s : PtpServo D} {c : ServoCall} (hi : RateInv s) (hc : ¬ c.coarse)
    (hd : s.estDone = true) : RateStep s c (ptpServoUpdate A (c.entry s) c.offsetNs c.tNs) := by
  obtain ⟨he, her⟩ := rateInv_entry hi c
  obtain ⟨hfr, hfrr⟩ := rateInv_front he c.offsetNs c.tNs
  set f := lowEdge (c.entry s) c.offsetNs c.tNs with hf
  have hfil : (frontState (c.entry s) c.offsetNs c.tNs).filteredNs = f := rfl
  have hfd : (frontState (c.entry s) c.offsetNs c.tNs).estDone = true := by
    rw [estDone_frontState, estDone_entry, hd]
  obtain ⟨hhold, hgo⟩ := rateInv_jumpCheck hfr f c.tNs
  have hrun : ptpServoUpdate A (c.entry s) c.offsetNs c.tNs =
      match jumpCheck (frontState (c.entry s) c.offsetNs c.tNs) f c.tNs with
      | .hold p step => { s := p, ppb := p.appliedPpb, stepNs := step }
      | .go p => servoBack p f := by
    unfold ServoCall.coarse at hc
    simp only [ptpServoUpdate, if_neg hc, estDone_entry, hd, Bool.not_true, Bool.false_eq_true, if_false,
      servoFront_eq, ← hf]
    cases jumpCheck (frontState (c.entry s) c.offsetNs c.tNs) f c.tNs <;> rfl
  have hki : kiInForce s c = match jumpCheck (frontState (c.entry s) c.offsetNs c.tNs) f c.tNs with
      | .hold p _ => p.ki
      | .go p => p.ki := by
    rw [kiInForce, servoFront_eq, ← hf]
  cases hj : jumpCheck (frontState (c.entry s) c.offsetNs c.tNs) f c.tNs with
  | hold p step =>
    obtain ⟨hp, hpr, hpf⟩ := hhold p step hj
    rw [hj] at hrun hki
    rw [hrun]
    refine ⟨hp, hp.applied, fun _ _ => ?_⟩
    have hz : p.ratePpb - s.ratePpb = 0 := by rw [hpr, hfrr, her, sub_self]
    have hnn : 0 ≤ |p.filteredNs| * kiInForce s c :=
      mul_nonneg (abs_nonneg _) (by rw [hki]; exact (ki_cases p.ki_eq).1.le)
    simp only [hz, abs_zero, zero_mul]
    exact add_nonneg hnn (by decide)
  | go p =>
    obtain ⟨hp, hpr, hpf, hpd⟩ := hgo p hj
    rw [hj] at hrun hki
    rw [hrun]
    obtain ⟨h1, h2, h3⟩ := rateInv_back hp (hpd.trans hfd) f
    refine ⟨h1, h2, fun _ _ => ?_⟩
    rw [hki, (servoBack_frame p f).2.2.2.2.1, hpf, hfil, ← her, ← hfrr, ← hpr]
    exact h3

theorem rateStep {s : PtpServo D} (c : ServoCall) (hi : RateInv s) (hl : LockInv s) :
    RateStep s c (ptpServoUpdate A (c.entry s) c.offsetNs c.tNs) := by
  obtain ⟨he, -⟩ := rateInv_entry hi c
  by_cases hc : c.coarse
  · have hrun : ptpServoUpdate A (c.entry s) c.offsetNs c.tNs =
        { s := coarseStep { c.entry s with offsetNs := c.offsetNs }, ppb := (c.entry s).ratePpb,
          stepNs := -c.offsetNs } := if_pos hc
    rw [hrun]
    have hr := he.rate.trans (show (100000 : ℤ) ≤ 150000 by decide)
    have hz : |(0 : ℤ)| ≤ INTEGRAL_MAX := by decide
    exact ⟨⟨he.rate, hr, hz, fun h => Bool.noConfusion h⟩, hr, fun _ h => absurd hc h⟩
  · cases hd : s.estDone with
    | true => exact rateStep_pi A hi hc hd
    | false =>
      have hed : (c.entry s).estDone = false := (estDone_entry c s).trans hd
      have hel : (c.entry s).locked = false := (congrArg Ctl.locked (ctl_entry c s)).trans (hl.est hd).1
      have hrun : ptpServoUpdate A (c.entry s) c.offsetNs c.tNs =
          { s := estimate A { c.entry s with offsetNs := c.offsetNs } c.offsetNs c.tNs,
            ppb := (estimate A { c.entry s with offsetNs := c.offsetNs } c.offsetNs c.tNs).appliedPpb,
            stepNs := 0 } := by
        unfold ServoCall.coarse at hc
        simp only [ptpServoUpdate, if_neg hc, hed, Bool.not_false, if_true]
      have hest := rateInv_estimate A (s := { c.entry s with offsetNs := c.offsetNs })
        (he.of_eq rfl (.inl rfl) rfl rfl rfl) hel c.offsetNs c.tNs
      rw [hrun]
      exact ⟨hest, hest.applied, fun h => by cases hd.symm.trans h⟩

theorem servoAt_rateInv (l : List ServoCall) (n : ℕ) : RateInv (servoAt A l n) := by
  have h : ∀ l : List ServoCall, RateInv (l.foldl (servoStep A) (ptpServoInit A)) := fun l =>
    run_induct (servoStep A) (P := fun _ s => RateInv s) (rateInv_init A)
      (fun l c hi => (rateStep A c hi (lockStreak_eq A l).1).inv) l
  exact h (l.take n)

/-- Over every run from reset: the rate and the output stay bounded, the output is the
rate plus the phase term with no clamp in force, and past the estimate no update but a
coarse step moves the rate by more than its error times the gain in force. -/
theorem ptp_rate_bumpless (l : List ServoCall) (n : ℕ) (hn : n < l.length) :
    |(servoAt A l (n + 1)).ratePpb| ≤ 100000 ∧
    |(ptpServoUpdate A (l[n].entry (servoAt A l n)) l[n].offsetNs l[n].tNs).ppb| ≤ 150000 ∧
    (∀ p f, servoFront (l[n].entry (servoAt A l n)) l[n].offsetNs l[n].tNs = (.go p, f) →
      (piUpdate p f).2 = (piUpdate p f).1.ratePpb + propPpb p f) ∧
    ((servoAt A l n).estDone = true → ¬ l[n].coarse →
      |(servoAt A l (n + 1)).ratePpb - (servoAt A l n).ratePpb| * 1000000 ≤
        |(servoAt A l (n + 1)).filteredNs| * kiInForce (servoAt A l n) l[n] + 1000000) := by
  have hstep := rateStep A l[n] (servoAt_rateInv A l n) (servoAt_inv A l n)
  rw [servoAt_succ A l hn]
  exact ⟨hstep.inv.rate, hstep.out, fun p f _ => (piUpdate_out p f).1, hstep.bumpless⟩

/-- The update that gains the lock, and with it the other gain. -/
theorem ptp_rate_bumpless_lock :
    19 < steadySyncs.length ∧
      |(servoAt flatDbl steadySyncs 20).ratePpb - (servoAt flatDbl steadySyncs 19).ratePpb| * 1000000 ≤
        |(servoAt flatDbl steadySyncs 20).filteredNs| * kiInForce (servoAt flatDbl steadySyncs 19) steadySyncs[19] +
          1000000 := by
  have hn : 19 < steadySyncs.length := by decide
  have hcoarse : ¬ (ServoCall.mk false 0 10000000000).coarse := by decide
  exact ⟨hn, (ptp_rate_bumpless flatDbl steadySyncs 19 hn).2.2.2 (by decide) hcoarse⟩

end Inferno
