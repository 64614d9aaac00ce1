import Inferno.Spec.PtpServo
import Inferno.Lib.Trace

/-! What one update of the servo can do to the fields that decide lock. The window,
the pre-estimate and the PI controller leave those fields alone, so each is dealt
with once here. -/

namespace Inferno

variable {D : Type} (A : Dbl D)

/-- The fields that decide lock and jumps. -/
structure Ctl where
  locked : Bool
  lockStreak : ℕ
  unlockStreak : ℕ
  jumpRun : ℕ
  jumpStrikes : ℕ
  lastJumpTNs : ℤ

def PtpServo.ctl (s : PtpServo D) : Ctl :=
  ⟨s.locked, s.lockStreak, s.unlockStreak, s.jumpRun, s.jumpStrikes, s.lastJumpTNs⟩

theorem ctl_compensate (s : PtpServo D) (t : ℤ) : (compensate s t).ctl = s.ctl := by
  unfold compensate
  split_ifs <;> rfl

theorem estDone_compensate (s : PtpServo D) (t : ℤ) : (compensate s t).estDone = s.estDone := by
  unfold compensate
  split_ifs <;> rfl

theorem ctl_estimateAdd (s : PtpServo D) (o t : ℤ) : (estimateAdd A s o t).ctl = s.ctl := by
  unfold estimateAdd
  split_ifs <;> rfl

theorem ctl_estimate (s : PtpServo D) (o t : ℤ) : (estimate A s o t).ctl = s.ctl := by
  rw [← ctl_estimateAdd A s o t]
  simp only [estimate]
  split_ifs <;> rfl

/-- The window and the compensation do not touch what the jump check reads. -/
def frontState (s : PtpServo D) (o t : ℤ) : PtpServo D :=
  let p := windowPush (compensate { s with offsetNs := o } t) o
  { p.1 with filteredNs := p.2 }

def lowEdge (s : PtpServo D) (o t : ℤ) : ℤ :=
  (windowPush (compensate { s with offsetNs := o } t) o).2

theorem servoFront_eq (s : PtpServo D) (o t : ℤ) :
    servoFront s o t = (jumpCheck (frontState s o t) (lowEdge s o t) t, lowEdge s o t) := rfl

@[simp] theorem ctl_frontState (s : PtpServo D) (o t : ℤ) : (frontState s o t).ctl = s.ctl := by
  have h : (frontState s o t).ctl = (compensate { s with offsetNs := o } t).ctl := rfl
  rw [h, ctl_compensate]
  rfl

@[simp] theorem estDone_frontState (s : PtpServo D) (o t : ℤ) :
    (frontState s o t).estDone = s.estDone := by
  have h : (frontState s o t).estDone = (compensate { s with offsetNs := o } t).estDone := rfl
  rw [h, estDone_compensate]

/-- A jump confirmed by this update for the third time in a row strikes the lock out. -/
def strikesOut (s : PtpServo D) (f t : ℤ) : Prop :=
  |f| > PS_JUMP_NS ∧ PS_JUMP_N ≤ s.jumpRun + 1 ∧ PS_JUMP_STRIKES ≤ strikes s t

/-- What the jump check leaves, by cases: an unlocked servo passes; a locked one
passes inside the jump band, is held, or is struck out. -/
theorem jumpCheck_cases (s : PtpServo D) (f t : ℤ) (hr : s.jumpRun < PS_JUMP_N) :
    (s.locked = false ∧ jumpCheck s f t = .go s) ∨
    (s.locked = true ∧ |f| ≤ PS_JUMP_NS ∧ jumpCheck s f t = .go { s with jumpRun := 0 }) ∨
    (s.locked = true ∧ |f| > PS_JUMP_NS ∧ ¬ strikesOut s f t ∧
      ∃ s' step, jumpCheck s f t = .hold s' step ∧ s'.locked = true ∧ s'.estDone = s.estDone ∧
        s'.unlockStreak = s.unlockStreak ∧ s'.filteredNs = s.filteredNs ∧
        s'.jumpRun < PS_JUMP_N ∧ (s'.jumpStrikes = s.jumpStrikes ∨ s'.jumpStrikes < PS_JUMP_STRIKES)) ∨
    (s.locked = true ∧ strikesOut s f t ∧
      ∃ s', jumpCheck s f t = .go s' ∧ s'.locked = false ∧ s'.lockStreak = 0 ∧
        s'.estDone = s.estDone ∧ s'.unlockStreak = s.unlockStreak ∧ s'.filteredNs = s.filteredNs ∧
        s'.jumpRun = 0 ∧ s'.jumpStrikes = 0) := by
  by_cases hl : s.locked = true
  · have hu : u8 (s.jumpRun + 1) = s.jumpRun + 1 := by
      simp only [u8, PS_JUMP_N] at hr ⊢
      omega
    by_cases hf : |f| > PS_JUMP_NS
    · by_cases hrun : u8 (s.jumpRun + 1) < PS_JUMP_N
      · right; right; left
        have he : jumpCheck s f t =
            .hold { s with jumpRun := u8 (s.jumpRun + 1), appliedPpb := s.ratePpb } 0 := by
          simp only [jumpCheck, if_pos hl, if_pos hf, if_pos hrun]
        have hn : ¬ strikesOut s f t := fun h => by
          have := h.2.1
          omega
        exact ⟨hl, hf, hn, _, _, he, hl, rfl, rfl, rfl, hrun, .inl rfl⟩
      · by_cases hs : strikes s t < PS_JUMP_STRIKES
        · right; right; left
          have he : jumpCheck s f t = .hold { ptpServoClearFilter s with
              jumpRun := 0, jumpStrikes := strikes s t, lastJumpTNs := t,
              shifts := u32 (s.shifts + 1), appliedPpb := s.ratePpb } (-f) := by
            simp only [jumpCheck, if_pos hl, if_pos hf, if_neg hrun, if_pos hs]
          have hn : ¬ strikesOut s f t := fun h => by
            have := h.2.2
            omega
          exact ⟨hl, hf, hn, _, _, he, hl, rfl, rfl, rfl, (by decide : 0 < PS_JUMP_N), .inr hs⟩
        · right; right; right
          have he : jumpCheck s f t = .go { s with
              jumpRun := 0, jumpStrikes := 0, lastJumpTNs := t, locked := false, lockStreak := 0,
              integralNs := rescale s KI_ACQ_NUM } := by
            simp only [jumpCheck, if_pos hl, if_pos hf, if_neg hrun, if_neg hs]
          exact ⟨hl, ⟨hf, by omega, by omega⟩, _, he, rfl, rfl, rfl, rfl, rfl, rfl, rfl⟩
    · right; left
      exact ⟨hl, by omega, by simp only [jumpCheck, if_pos hl, if_neg hf]⟩
  · left
    exact ⟨by simpa using hl, by simp only [jumpCheck, if_neg hl]⟩

theorem hysteresis_locked {s : PtpServo D} {f : ℤ} (hl : s.locked = true) (hf : |f| ≤ PS_UNLOCK_NS) :
    hysteresis s f = { s with unlockStreak := 0 } := by
  simp only [hysteresis, if_pos hl, if_neg (not_lt.mpr hf)]

/-- The hysteresis of an unlocked update counts the hit and locks on the eighth. -/
theorem hysteresis_unlocked_hit {s : PtpServo D} {f : ℤ} (hl : s.locked = false) (hf : |f| < PS_LOCK_NS)
    (hs : s.lockStreak < PS_LOCK_STREAK) :
    ((hysteresis s f).locked = decide (PS_LOCK_STREAK ≤ s.lockStreak + 1)) ∧
      (hysteresis s f).lockStreak = s.lockStreak + 1 := by
  have hu : u8 (s.lockStreak + 1) = s.lockStreak + 1 := by
    simp only [u8, PS_LOCK_STREAK] at hs ⊢
    omega
  by_cases h : PS_LOCK_STREAK ≤ s.lockStreak + 1 <;>
    simp [hysteresis, hl, hf, hu, h]

theorem hysteresis_unlocked_miss {s : PtpServo D} {f : ℤ} (hl : s.locked = false) (hf : ¬ |f| < PS_LOCK_NS) :
    hysteresis s f = { s with lockStreak := 0 } := by
  simp [hysteresis, hl, hf]

theorem unlockStreak_hysteresis {s : PtpServo D} {f : ℤ} (hu : s.unlockStreak = 0)
    (hb : ¬ unlockBranch s f) : (hysteresis s f).unlockStreak = 0 := by
  by_cases hl : s.locked = true
  · rw [hysteresis_locked hl (not_lt.mp fun h => hb ⟨hl, h⟩)]
  · by_cases hf : |f| < PS_LOCK_NS
    · simp only [hysteresis, if_neg hl, if_pos hf]
      split_ifs <;> simp [hu]
    · rw [hysteresis_unlocked_miss (by simpa using hl) hf]
      exact hu

theorem hysteresis_frame (s : PtpServo D) (f : ℤ) :
    (hysteresis s f).estDone = s.estDone ∧ (hysteresis s f).filteredNs = s.filteredNs ∧
      (hysteresis s f).jumpRun = s.jumpRun ∧ (hysteresis s f).jumpStrikes = s.jumpStrikes := by
  simp only [hysteresis]
  split_ifs <;> exact ⟨rfl, rfl, rfl, rfl⟩

end Inferno
