import Inferno.Sanity.Servo

/-! Lock transitions of the PTP servo over every run from reset: lock is granted by
exactly the eighth consecutive unlocked hit, and taken away by exactly a coarse step
or a strike-out. The unlock streak of the hysteresis never moves. -/

namespace Inferno

open Lib

variable {D : Type} (A : Dbl D)

/-- A call of `ptp_servo_update`, and whether `ptp_servo_clear_filter` ran before it. -/
structure ServoCall where
  cleared : Bool
  offsetNs : ℤ
  tNs : ℤ
  deriving DecidableEq, Repr

def ServoCall.entry (c : ServoCall) (s : PtpServo D) : PtpServo D :=
  if c.cleared then ptpServoClearFilter s else s

def ServoCall.coarse (c : ServoCall) : Prop := c.offsetNs > PS_STEP_NS ∨ c.offsetNs < -PS_STEP_NS

instance (c : ServoCall) : Decidable c.coarse := inferInstanceAs (Decidable (_ ∨ _))

def servoStep (s : PtpServo D) (c : ServoCall) : PtpServo D :=
  (ptpServoUpdate A (c.entry s) c.offsetNs c.tNs).s

/-- An unlocked PI update with the low edge inside the lock band. -/
def lockHit (s : PtpServo D) (c : ServoCall) : Bool :=
  !s.locked && s.estDone && !decide c.coarse && decide (|(servoStep A s c).filteredNs| < PS_LOCK_NS)

def StrikeOut (s : PtpServo D) (c : ServoCall) : Prop :=
  s.estDone = true ∧ ¬ c.coarse ∧ strikesOut s (servoStep A s c).filteredNs c.tNs

@[simp] theorem ctl_entry (c : ServoCall) (s : PtpServo D) : (c.entry s).ctl = s.ctl := by
  unfold ServoCall.entry
  split_ifs <;> rfl

@[simp] theorem estDone_entry (c : ServoCall) (s : PtpServo D) : (c.entry s).estDone = s.estDone := by
  unfold ServoCall.entry
  split_ifs <;> rfl

/-- What the jump check of a call reads is what the servo had before the call. -/
theorem ctl_front (c : ServoCall) (s : PtpServo D) : (frontState (c.entry s) c.offsetNs c.tNs).ctl = s.ctl :=
  (ctl_frontState (c.entry s) c.offsetNs c.tNs).trans (ctl_entry c s)

/-- What holds of the lock fields between calls. -/
structure LockInv (s : PtpServo D) : Prop where
  streak_lt : s.locked = false → s.lockStreak < PS_LOCK_STREAK
  unlock : s.unlockStreak = 0
  run_lt : s.jumpRun < PS_JUMP_N
  strikes_lt : s.jumpStrikes < PS_JUMP_STRIKES
  est : s.estDone = false → s.locked = false ∧ s.lockStreak = 0

theorem lockInv_init : LockInv (ptpServoInit A) :=
  ⟨fun _ => show 0 < PS_LOCK_STREAK by decide, rfl, show 0 < PS_JUMP_N by decide,
    show 0 < PS_JUMP_STRIKES by decide, fun _ => ⟨rfl, rfl⟩⟩

/-- What one call does to the lock fields. -/
inductive LockStep (s : PtpServo D) (c : ServoCall) (s' : PtpServo D) : Prop
  | coarse (hc : c.coarse) (hl : s'.locked = false) (hs : s'.lockStreak = 0)
  | estimate (hc : ¬ c.coarse) (he : s.estDone = false) (hl : s'.locked = s.locked)
      (hs : s'.lockStreak = s.lockStreak)
  | hit (hc : ¬ c.coarse) (he : s.estDone = true) (hl : s.locked = false) (hf : |s'.filteredNs| < PS_LOCK_NS)
      (hl' : s'.locked = decide (PS_LOCK_STREAK ≤ s.lockStreak + 1)) (hs : s'.lockStreak = s.lockStreak + 1)
  | miss (hc : ¬ c.coarse) (he : s.estDone = true) (hl : s.locked = false) (hf : ¬ |s'.filteredNs| < PS_LOCK_NS)
      (hl' : s'.locked = false) (hs : s'.lockStreak = 0)
  | keep (hc : ¬ c.coarse) (he : s.estDone = true) (hl : s.locked = true)
      (hn : ¬ strikesOut s s'.filteredNs c.tNs) (hl' : s'.locked = true)
  | strike (hc : ¬ c.coarse) (he : s.estDone = true) (hl : s.locked = true)
      (hn : strikesOut s s'.filteredNs c.tNs) (hl' : s'.locked = false) (hs : s'.lockStreak = 0)

/-- The PI path and the hysteresis from a state the jump check let through. -/
theorem servoBack_frame (s : PtpServo D) (f : ℤ) :
    (servoBack s f).s.locked = (hysteresis (piUpdate s f).1 f).locked ∧
    (servoBack s f).s.lockStreak = (hysteresis (piUpdate s f).1 f).lockStreak ∧
    (servoBack s f).s.unlockStreak = (hysteresis (piUpdate s f).1 f).unlockStreak ∧
    (servoBack s f).s.estDone = s.estDone ∧ (servoBack s f).s.filteredNs = s.filteredNs ∧
    (servoBack s f).s.jumpRun = s.jumpRun ∧ (servoBack s f).s.jumpStrikes = s.jumpStrikes :=
  ⟨rfl, rfl, rfl, hysteresis_frame (piUpdate s f).1 f⟩

theorem estDone_update {s : PtpServo D} {o t : ℤ} (hd : s.estDone = true) (hc : ¬ (o > PS_STEP_NS ∨ o < -PS_STEP_NS)) :
    (ptpServoUpdate A s o t).s.estDone = true := by
  have hf : (frontState s o t).estDone = true := (estDone_frontState s o t).trans hd
  simp only [ptpServoUpdate, if_neg hc, hd, Bool.not_true, Bool.false_eq_true, if_false, servoFront_eq, jumpCheck]
  split_ifs
  · exact hf
  · exact hf
  · exact (servoBack_frame _ _).2.2.2.1.trans hf
  · exact (servoBack_frame _ _).2.2.2.1.trans hf
  · exact (servoBack_frame _ _).2.2.2.1.trans hf

theorem servoBack_locked {s : PtpServo D} {f : ℤ} (hl : s.locked = true) (hf : |f| ≤ PS_UNLOCK_NS) :
    (servoBack s f).s.locked = true ∧ (servoBack s f).s.unlockStreak = 0 := by
  have hb := servoBack_frame s f
  rw [hysteresis_locked (s := (piUpdate s f).1) hl hf] at hb
  exact ⟨hb.1.trans hl, hb.2.2.1⟩

theorem servoBack_unlocked {s : PtpServo D} {f : ℤ} (hl : s.locked = false) (hs : s.lockStreak < PS_LOCK_STREAK)
    (hu : s.unlockStreak = 0) :
    (servoBack s f).s.unlockStreak = 0 ∧
    (|f| < PS_LOCK_NS → (servoBack s f).s.locked = decide (PS_LOCK_STREAK ≤ s.lockStreak + 1) ∧
      (servoBack s f).s.lockStreak = s.lockStreak + 1) ∧
    (¬ |f| < PS_LOCK_NS → (servoBack s f).s.locked = false ∧ (servoBack s f).s.lockStreak = 0) := by
  have hb := servoBack_frame s f
  refine ⟨?_, fun hf => ?_, fun hf => ?_⟩
  · have hnb : ¬ unlockBranch (piUpdate s f).1 f := fun h => by
      have hp : (piUpdate s f).1.locked = s.locked := rfl
      have := h.1
      rw [hp, hl] at this
      exact Bool.false_ne_true this
    exact hb.2.2.1.trans (unlockStreak_hysteresis (s := (piUpdate s f).1) hu hnb)
  · have hh := hysteresis_unlocked_hit (s := (piUpdate s f).1) hl hf hs
    exact ⟨hb.1.trans hh.1, hb.2.1.trans hh.2⟩
  · rw [hysteresis_unlocked_miss (s := (piUpdate s f).1) hl hf] at hb
    exact ⟨hb.1.trans hl, hb.2.1⟩

theorem servoStep_coarse {s : PtpServo D} {c : ServoCall} (hi : LockInv s) (hc : c.coarse) :
    LockStep s c (servoStep A s c) ∧ LockInv (servoStep A s c) := by
  have he : servoStep A s c = coarseStep { c.entry s with offsetNs := c.offsetNs } := by
    unfold ServoCall.coarse at hc
    simp only [servoStep, ptpServoUpdate, if_pos hc]
  have hctl : (servoStep A s c).unlockStreak = s.unlockStreak ∧ (servoStep A s c).jumpRun = s.jumpRun ∧
      (servoStep A s c).jumpStrikes = s.jumpStrikes := by
    rw [he]
    exact ⟨congrArg Ctl.unlockStreak (ctl_entry c s), congrArg Ctl.jumpRun (ctl_entry c s),
      congrArg Ctl.jumpStrikes (ctl_entry c s)⟩
  obtain ⟨hu, hr, hk⟩ := hctl
  refine ⟨.coarse hc (by rw [he]; rfl) (by rw [he]; rfl), ?_, hu.trans hi.unlock, hr ▸ hi.run_lt,
    hk ▸ hi.strikes_lt, ?_⟩
  · intro _
    rw [he]
    exact (by decide : 0 < PS_LOCK_STREAK)
  · intro _
    rw [he]
    exact ⟨rfl, rfl⟩

theorem servoStep_estimate {s : PtpServo D} {c : ServoCall} (hi : LockInv s) (hc : ¬ c.coarse)
    (hd : s.estDone = false) : LockStep s c (servoStep A s c) ∧ LockInv (servoStep A s c) := by
  have he : servoStep A s c =
      estimate A { c.entry s with offsetNs := c.offsetNs } c.offsetNs c.tNs := by
    unfold ServoCall.coarse at hc
    simp only [servoStep, ptpServoUpdate, if_neg hc, estDone_entry, hd, Bool.not_false, if_true]
  have hctl : (servoStep A s c).ctl = s.ctl := by
    rw [he, ctl_estimate]
    exact ctl_entry c s
  have hl : (servoStep A s c).locked = s.locked := congrArg Ctl.locked hctl
  have hs : (servoStep A s c).lockStreak = s.lockStreak := congrArg Ctl.lockStreak hctl
  have hu : (servoStep A s c).unlockStreak = s.unlockStreak := congrArg Ctl.unlockStreak hctl
  have hr : (servoStep A s c).jumpRun = s.jumpRun := congrArg Ctl.jumpRun hctl
  have hk : (servoStep A s c).jumpStrikes = s.jumpStrikes := congrArg Ctl.jumpStrikes hctl
  have h0 := hi.est hd
  refine ⟨.estimate hc hd hl hs, fun h => ?_, hu.trans hi.unlock, hr ▸ hi.run_lt, hk ▸ hi.strikes_lt,
    fun _ => ⟨hl.trans h0.1, hs.trans h0.2⟩⟩
  rw [hs]
  exact hi.streak_lt (hl ▸ h)

/-- A PI update is the back end run on what the jump check lets through. -/
theorem servoStep_go {s s' : PtpServo D} {c : ServoCall} (hc : ¬ c.coarse) (hd : s.estDone = true)
    (hj : jumpCheck (frontState (c.entry s) c.offsetNs c.tNs) (lowEdge (c.entry s) c.offsetNs c.tNs) c.tNs
      = .go s') : servoStep A s c = (servoBack s' (lowEdge (c.entry s) c.offsetNs c.tNs)).s := by
  unfold ServoCall.coarse at hc
  simp only [servoStep, ptpServoUpdate, if_neg hc, estDone_entry, hd, Bool.not_true, Bool.false_eq_true,
    if_false, servoFront_eq, hj]

theorem servoStep_hold {s s' : PtpServo D} {c : ServoCall} {step : ℤ} (hc : ¬ c.coarse)
    (hd : s.estDone = true)
    (hj : jumpCheck (frontState (c.entry s) c.offsetNs c.tNs) (lowEdge (c.entry s) c.offsetNs c.tNs) c.tNs
      = .hold s' step) : servoStep A s c = s' := by
  unfold ServoCall.coarse at hc
  simp only [servoStep, ptpServoUpdate, if_neg hc, estDone_entry, hd, Bool.not_true, Bool.false_eq_true,
    if_false, servoFront_eq, hj]

theorem strikesOut_front (s : PtpServo D) (c : ServoCall) (f : ℤ) :
    strikesOut (frontState (c.entry s) c.offsetNs c.tNs) f c.tNs ↔ strikesOut s f c.tNs := by
  have hctl := ctl_front c s
  have hr : (frontState (c.entry s) c.offsetNs c.tNs).jumpRun = s.jumpRun := congrArg Ctl.jumpRun hctl
  have hk : (frontState (c.entry s) c.offsetNs c.tNs).jumpStrikes = s.jumpStrikes :=
    congrArg Ctl.jumpStrikes hctl
  have ht : (frontState (c.entry s) c.offsetNs c.tNs).lastJumpTNs = s.lastJumpTNs :=
    congrArg Ctl.lastJumpTNs hctl
  simp only [strikesOut, strikes, hr, hk, ht]

theorem servoStep_pi {s : PtpServo D} {c : ServoCall} (hi : LockInv s) (hc : ¬ c.coarse)
    (hd : s.estDone = true) : LockStep s c (servoStep A s c) ∧ LockInv (servoStep A s c) := by
  set p := frontState (c.entry s) c.offsetNs c.tNs with hp
  set f := lowEdge (c.entry s) c.offsetNs c.tNs with hf
  have hctl : p.ctl = s.ctl := ctl_front c s
  have hpl : p.locked = s.locked := congrArg Ctl.locked hctl
  have hps : p.lockStreak = s.lockStreak := congrArg Ctl.lockStreak hctl
  have hpu : p.unlockStreak = 0 := (congrArg Ctl.unlockStreak hctl).trans hi.unlock
  have hpr : p.jumpRun = s.jumpRun := congrArg Ctl.jumpRun hctl
  have hpk : p.jumpStrikes = s.jumpStrikes := congrArg Ctl.jumpStrikes hctl
  have hpd : p.estDone = true := by rw [hp, estDone_frontState, estDone_entry, hd]
  have hpf : p.filteredNs = f := rfl
  have hso := strikesOut_front s c f
  rcases jumpCheck_cases p f c.tNs (hpr ▸ hi.run_lt) with
    ⟨hl, hj⟩ | ⟨hl, hb, hj⟩ | ⟨hl, hb, hn, s', step, hj, hl', hd', hu', hf', hr', hk'⟩ |
    ⟨hl, hn, s', hj, hl', hs', hd', hu', hf', hr', hk'⟩
  · -- unlocked: the hysteresis counts a hit or a miss
    rw [servoStep_go A hc hd hj]
    have hsl : s.locked = false := hpl ▸ hl
    have hlt : p.lockStreak < PS_LOCK_STREAK := hps ▸ hi.streak_lt hsl
    obtain ⟨hbu, hhit, hmiss⟩ := servoBack_unlocked hl hlt hpu
    have hbf := servoBack_frame p f
    have hfil : (servoBack p f).s.filteredNs = f := hbf.2.2.2.2.1
    have hinv (hstr : (servoBack p f).s.locked = false → (servoBack p f).s.lockStreak < PS_LOCK_STREAK) :
        LockInv (servoBack p f).s :=
      ⟨hstr, hbu, by rw [hbf.2.2.2.2.2.1, hpr]; exact hi.run_lt,
        by rw [hbf.2.2.2.2.2.2, hpk]; exact hi.strikes_lt,
        fun h => by rw [hbf.2.2.2.1, hpd] at h; cases h⟩
    by_cases hlo : |f| < PS_LOCK_NS
    · obtain ⟨h1, h2⟩ := hhit hlo
      rw [hps] at h1 h2
      refine ⟨.hit hc hd hsl (hfil ▸ hlo) h1 h2, hinv fun h => ?_⟩
      rw [h1, decide_eq_false_iff_not] at h
      omega
    · obtain ⟨h1, h2⟩ := hmiss hlo
      refine ⟨.miss hc hd hsl (hfil ▸ hlo) h1 h2, hinv fun _ => ?_⟩
      rw [h2]
      decide
  · -- locked and inside the jump band: the unlock band is wider
    rw [servoStep_go A hc hd hj]
    have hw : |f| ≤ PS_UNLOCK_NS := hb.trans (by decide)
    obtain ⟨h1, h2⟩ := servoBack_locked (s := { p with jumpRun := 0 }) hl hw
    have hbf := servoBack_frame { p with jumpRun := 0 } f
    have hfil : (servoBack { p with jumpRun := 0 } f).s.filteredNs = f := hbf.2.2.2.2.1
    have hn : ¬ strikesOut s (servoBack { p with jumpRun := 0 } f).s.filteredNs c.tNs := fun h => by
      rw [hfil] at h
      exact absurd h.1 (not_lt.mpr hb)
    refine ⟨.keep hc hd (hpl ▸ hl) hn h1, fun h => absurd (h1.symm.trans h) (by decide), h2, ?_, ?_, fun h => ?_⟩
    · rw [hbf.2.2.2.2.2.1]
      exact (by decide : 0 < PS_JUMP_N)
    · rw [hbf.2.2.2.2.2.2]
      exact hpk ▸ hi.strikes_lt
    · rw [hbf.2.2.2.1] at h
      exact absurd (hpd.symm.trans h) (by decide)
  · -- a jump not yet confirmed, or corrected with the lock kept
    rw [servoStep_hold A hc hd hj]
    have hn' : ¬ strikesOut s s'.filteredNs c.tNs := by
      rw [hf', hpf]
      exact fun h => hn (hso.mpr h)
    refine ⟨.keep hc hd (hpl ▸ hl) hn' hl', fun h => absurd (hl'.symm.trans h) (by decide), hu'.trans hpu,
      hr', ?_, fun h => absurd ((hd'.trans hpd).symm.trans h) (by decide)⟩
    rcases hk' with hk' | hk'
    · rw [hk', hpk]
      exact hi.strikes_lt
    · exact hk'
  · -- struck out: the update goes on as an unlocked one far outside the lock band
    rw [servoStep_go A hc hd hj]
    have hfar : ¬ |f| < PS_LOCK_NS := fun h => by
      have hj := hn.1
      simp only [PS_LOCK_NS, PS_JUMP_NS] at h hj
      omega
    have hlt : s'.lockStreak < PS_LOCK_STREAK := by rw [hs']; decide
    obtain ⟨hbu, -, hmiss⟩ := servoBack_unlocked hl' hlt (hu'.trans hpu)
    obtain ⟨h1, h2⟩ := hmiss hfar
    have hbf := servoBack_frame s' f
    have hfil : (servoBack s' f).s.filteredNs = f := hbf.2.2.2.2.1.trans (hf'.trans hpf)
    have hn' : strikesOut s (servoBack s' f).s.filteredNs c.tNs := by
      rw [hfil]
      exact hso.mp hn
    refine ⟨.strike hc hd (hpl ▸ hl) hn' h1 h2, fun _ => by rw [h2]; decide, hbu, ?_, ?_, fun h => ?_⟩
    · rw [hbf.2.2.2.2.2.1, hr']
      decide
    · rw [hbf.2.2.2.2.2.2, hk']
      decide
    · rw [hbf.2.2.2.1, hd', hpd] at h
      cases h

theorem servoStep_lock {s : PtpServo D} (c : ServoCall) (hi : LockInv s) :
    LockStep s c (servoStep A s c) ∧ LockInv (servoStep A s c) := by
  by_cases hc : c.coarse
  · exact servoStep_coarse A hi hc
  · cases hd : s.estDone with
    | false => exact servoStep_estimate A hi hc hd
    | true => exact servoStep_pi A hi hc hd

/-- The servo before the `k`-th call of a run from reset. -/
def servoAt (l : List ServoCall) (k : ℕ) : PtpServo D := before (servoStep A) (ptpServoInit A) l k

/-- While unlocked, the lock streak is the number of hits since the last call that
was none. -/
theorem lockStreak_eq (l : List ServoCall) :
    LockInv (l.foldl (servoStep A) (ptpServoInit A)) ∧
      ((l.foldl (servoStep A) (ptpServoInit A)).locked = false →
        (l.foldl (servoStep A) (ptpServoInit A)).lockStreak =
          streak (trace (servoStep A) (lockHit A) (ptpServoInit A) l)) := by
  refine run_induct (servoStep A) (P := fun l s => LockInv s ∧ (s.locked = false →
    s.lockStreak = streak (trace (servoStep A) (lockHit A) (ptpServoInit A) l)))
    ⟨lockInv_init A, fun _ => rfl⟩ ?_ l
  intro l c ⟨hi, hst⟩
  set s := l.foldl (servoStep A) (ptpServoInit A) with hs
  obtain ⟨hstep, hi'⟩ := servoStep_lock A c hi
  refine ⟨hi', fun hl' => ?_⟩
  rw [trace_concat, streak_concat, ← hs]
  cases hstep with
  | coarse hc hl hz => simp [lockHit, hc, hz]
  | estimate hc he hl hz => simp [lockHit, he, hz, (hi.est he).2]
  | hit hc he hl hf hl'' hz => simp [lockHit, hc, he, hl, hf, hz, hst hl]
  | miss hc he hl hf hl'' hz => simp [lockHit, hf, hz]
  | keep hc he hl hn hl'' => rw [hl''] at hl'; cases hl'
  | strike hc he hl hn hl'' hz => simp [lockHit, hl, hz]

theorem servoAt_inv (l : List ServoCall) (k : ℕ) : LockInv (servoAt A l k) :=
  (lockStreak_eq A (l.take k)).1

theorem servoAt_succ (l : List ServoCall) {n : ℕ} (hn : n < l.length) :
    servoAt A l (n + 1) = servoStep A (servoAt A l n) l[n] :=
  before_succ (servoStep A) (ptpServoInit A) l hn

/-- An unlocked servo has seen at least `m` hits in a row exactly when its streak says so. -/
theorem le_lockStreak_iff (l : List ServoCall) {k : ℕ} (hk : k ≤ l.length)
    (hl : (servoAt A l k).locked = false) (m : ℕ) :
    m ≤ (servoAt A l k).lockStreak ↔
      m ≤ k ∧ ∀ j (hj : j < l.length), j < k → k ≤ j + m → lockHit A (servoAt A l j) l[j] = true := by
  rw [show (servoAt A l k).lockStreak = _ from (lockStreak_eq A (l.take k)).2 hl]
  exact le_streak_trace_iff (servoStep A) (lockHit A) (ptpServoInit A) l hk m

/-- Lock is granted by exactly the eighth hit in a row. -/
theorem lock_granted_iff (l : List ServoCall) {n : ℕ} (hn : n < l.length) :
    ((servoAt A l n).locked = false ∧ (servoAt A l (n + 1)).locked = true) ↔
      PS_LOCK_STREAK ≤ n + 1 ∧ ∀ k (hk : k < l.length), k ≤ n → n < k + PS_LOCK_STREAK →
        lockHit A (servoAt A l k) l[k] = true := by
  have hi := servoAt_inv A l n
  obtain ⟨hstep, -⟩ := servoStep_lock A l[n] hi
  rw [servoAt_succ A l hn]
  constructor
  · rintro ⟨hl, hl'⟩
    cases hstep with
    | coarse hc h0 hz => rw [h0] at hl'; cases hl'
    | estimate hc he h0 hz => rw [h0, hl] at hl'; cases hl'
    | miss hc he h0 hf h1 hz => rw [h1] at hl'; cases hl'
    | keep hc he h0 hn h1 => rw [hl] at h0; cases h0
    | strike hc he h0 hn h1 hz => rw [h1] at hl'; cases hl'
    | hit hc he h0 hf h1 hz =>
      rw [h1, decide_eq_true_eq] at hl'
      have hseven : PS_LOCK_STREAK - 1 ≤ (servoAt A l n).lockStreak := by omega
      obtain ⟨hle, hall⟩ := (le_lockStreak_iff A l hn.le hl _).mp hseven
      refine ⟨by simp only [PS_LOCK_STREAK] at hle ⊢; omega, fun k hk hkn hlt => ?_⟩
      rcases Nat.lt_or_eq_of_le hkn with hlt' | rfl
      · exact hall k hk hlt' (by simp only [PS_LOCK_STREAK] at hlt ⊢; omega)
      · simp [lockHit, hc, he, hl, hf]
  · rintro ⟨h8, hall⟩
    have hlast := hall n hn le_rfl (by simp only [PS_LOCK_STREAK]; omega)
    have hl : (servoAt A l n).locked = false := by
      simp only [lockHit, Bool.and_eq_true, Bool.not_eq_true'] at hlast
      exact hlast.1.1.1
    have hseven : PS_LOCK_STREAK - 1 ≤ (servoAt A l n).lockStreak := by
      refine (le_lockStreak_iff A l hn.le hl _).mpr ⟨by omega, fun j hj hjn hle => ?_⟩
      exact hall j hj hjn.le (by simp only [PS_LOCK_STREAK] at hle ⊢; omega)
    refine ⟨hl, ?_⟩
    simp only [lockHit, Bool.and_eq_true, Bool.not_eq_true', decide_eq_true_eq, decide_eq_false_iff_not] at hlast
    obtain ⟨⟨⟨-, hd⟩, hcc⟩, hff⟩ := hlast
    cases hstep with
    | coarse hc h0 hz => exact absurd hc hcc
    | estimate hc he h0 hz => rw [hd] at he; cases he
    | miss hc he h0 hf h1 hz => exact absurd hff hf
    | keep hc he h0 hn h1 => rw [hl] at h0; cases h0
    | strike hc he h0 hn h1 hz => rw [hl] at h0; cases h0
    | hit hc he h0 hf h1 hz =>
      rw [h1, decide_eq_true_eq]
      simp only [PS_LOCK_STREAK] at hseven ⊢
      omega

/-- Lock is lost by exactly a coarse step or a strike-out. -/
theorem lock_lost_iff {s : PtpServo D} (c : ServoCall) (hi : LockInv s) (hl : s.locked = true) :
    (servoStep A s c).locked = false ↔ c.coarse ∨ StrikeOut A s c := by
  have hd : s.estDone = true := by
    cases h : s.estDone with
    | true => rfl
    | false => rw [(hi.est h).1] at hl; cases hl
  cases (servoStep_lock A c hi).1 with
  | coarse hc h0 hz => simp [h0, hc]
  | estimate hc he h0 hz => rw [hd] at he; cases he
  | hit hc he h0 hf h1 hz => rw [hl] at h0; cases h0
  | miss hc he h0 hf h1 hz => rw [hl] at h0; cases h0
  | keep hc he h0 hn h1 => simp [h1, hc, StrikeOut, hn]
  | strike hc he h0 hn h1 hz => simp [h1, StrikeOut, hc, hd, hn]

/-- Past the jump check a locked servo is inside the jump band, so the hysteresis
never sees it outside the wider unlock band. -/
theorem unlockBranch_dead {s : PtpServo D} (c : ServoCall) (hi : LockInv s) {p : PtpServo D} {f : ℤ}
    (hfront : servoFront (c.entry s) c.offsetNs c.tNs = (.go p, f)) : ¬ unlockBranch (piUpdate p f).1 f := by
  rw [servoFront_eq, Prod.mk.injEq] at hfront
  obtain ⟨hj, rfl⟩ := hfront
  have hctl := ctl_front c s
  have hr : (frontState (c.entry s) c.offsetNs c.tNs).jumpRun < PS_JUMP_N := by
    rw [show (frontState (c.entry s) c.offsetNs c.tNs).jumpRun = s.jumpRun from congrArg Ctl.jumpRun hctl]
    exact hi.run_lt
  rintro ⟨hl, hout⟩
  have hpl : p.locked = true := hl
  rcases jumpCheck_cases _ (lowEdge (c.entry s) c.offsetNs c.tNs) c.tNs hr with
    ⟨h, he⟩ | ⟨-, hb, -⟩ | ⟨-, -, -, s', step, he, -⟩ | ⟨-, -, s', he, h, -⟩
  · rw [he, Jumped.go.injEq] at hj
    rw [← hj, h] at hpl
    cases hpl
  · simp only [PS_UNLOCK_NS, PS_JUMP_NS] at hout hb
    omega
  · rw [he] at hj
    cases hj
  · rw [he, Jumped.go.injEq] at hj
    rw [← hj, h] at hpl
    cases hpl

/-- The lock transitions over every run from reset. -/
theorem ptp_lock_transitions (l : List ServoCall) (n : ℕ) (hn : n < l.length) :
    (((servoAt A l n).locked = false ∧ (servoAt A l (n + 1)).locked = true) ↔
      PS_LOCK_STREAK ≤ n + 1 ∧ ∀ k (hk : k < l.length), k ≤ n → n < k + PS_LOCK_STREAK →
        lockHit A (servoAt A l k) l[k] = true) ∧
    (((servoAt A l n).locked = true ∧ (servoAt A l (n + 1)).locked = false) ↔
      (servoAt A l n).locked = true ∧ (l[n].coarse ∨ StrikeOut A (servoAt A l n) l[n])) ∧
    (∀ p f, servoFront (l[n].entry (servoAt A l n)) l[n].offsetNs l[n].tNs = (.go p, f) →
      ¬ unlockBranch (piUpdate p f).1 f) ∧
    (servoAt A l n).unlockStreak = 0 := by
  have hi := servoAt_inv A l n
  refine ⟨lock_granted_iff A l hn, ?_, fun p f hf => unlockBranch_dead l[n] hi hf, hi.unlock⟩
  rw [servoAt_succ A l hn]
  exact and_congr_right fun hl => lock_lost_iff A l[n] hi hl

/-- Least squares with the rounding left out: every slope reads as zero. -/
def flatDbl : Dbl Unit where
  ofInt := fun _ => ()
  add := fun _ _ => ()
  sub := fun _ _ => ()
  mul := fun _ _ => ()
  div := fun _ _ => ()
  nano := ()
  nonpos := fun _ => false
  toInt := fun _ => 0

/-- Twelve Syncs half a second apart finish the estimate; eight more lock. -/
def steadySyncs : List ServoCall := (List.range 20).map fun k => ⟨false, 0, 500000000 * (k + 1)⟩

theorem ptp_lock_transitions_steady :
    19 < steadySyncs.length ∧ (servoAt flatDbl steadySyncs 20).locked = true ∧
      ∀ k (hk : k < steadySyncs.length), k ≤ 19 → 19 < k + PS_LOCK_STREAK →
        lockHit flatDbl (servoAt flatDbl steadySyncs k) steadySyncs[k] = true := by
  have hn : 19 < steadySyncs.length := by decide
  have h20 : (servoAt flatDbl steadySyncs 19).locked = false ∧ (servoAt flatDbl steadySyncs 20).locked = true := by
    decide
  exact ⟨hn, h20.2, ((ptp_lock_transitions flatDbl steadySyncs 19 hn).1.mp h20).2⟩

end Inferno
