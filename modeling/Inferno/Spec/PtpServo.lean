import Inferno.Spec.Config

/-! The PI servo of `ptp_servo.c`: low-edge window, frequency pre-estimate, jump
correction, lock hysteresis. The least-squares sums are C doubles; the model leaves
their arithmetic as a parameter, so a result about the integer part of the servo
holds whatever the rounding. -/

namespace Inferno

def PS_LOCK_NS : ℤ := 3000
def PS_UNLOCK_NS : ℤ := 10000
def PS_LOCK_STREAK : ℕ := 8
def PS_UNLOCK_STREAK : ℕ := 8
def PS_WIN_LOCKED : ℕ := 32
def PS_WIN_ACQ : ℕ := 8
def PS_WIN_RANK : ℕ := 1
def PS_JUMP_NS : ℤ := 8000
def PS_JUMP_N : ℕ := 8
def PS_JUMP_STRIKES : ℕ := 3
def PS_STEP_NS : ℤ := 1000000
def KP_NUM : ℤ := 300
def KP_DEN : ℤ := 1000
def KP_FAST_NUM : ℤ := 500
def KI_NUM : ℤ := 20000
def KI_DEN : ℤ := 1000000
def INTEGRAL_MAX : ℤ := 100000000
def KP_ACQ_NUM : ℤ := 500
def KP_ACQ_FAST_NUM : ℤ := 700
def KI_ACQ_NUM : ℤ := 40000
def EST_MIN_NS : ℤ := 4000000000
def EST_MIN_N : ℕ := 12

structure Dbl (D : Type) where
  ofInt : ℤ → D
  add : D → D → D
  sub : D → D → D
  mul : D → D → D
  div : D → D → D
  nano : D
  nonpos : D → Bool
  toInt : D → ℤ

/-- Exact rational arithmetic in place of `double`; the cast back truncates. -/
def Dbl.exact : Dbl ℚ where
  ofInt := fun n => n
  add := (· + ·)
  sub := (· - ·)
  mul := (· * ·)
  div := (· / ·)
  nano := 1 / 1000000000
  nonpos := fun x => decide (x ≤ 0)
  toInt := fun x => x.num.tdiv x.den

/-- `ptp_servo_t`. The `uint8_t` counters wrap through `u8`. -/
structure PtpServo (D : Type) where
  locked : Bool
  offsetNs : ℤ
  filteredNs : ℤ
  ratePpb : ℤ
  integralNs : ℤ
  updates : ℕ
  steps : ℕ
  win : ℕ → ℤ
  winPos : ℕ
  winCount : ℕ
  winN4 : ℕ
  compNs : ℤ
  lastTNs : ℤ
  lockStreak : ℕ
  unlockStreak : ℕ
  jumpRun : ℕ
  jumpStrikes : ℕ
  lastJumpTNs : ℤ
  shifts : ℕ
  estDone : Bool
  estN : ℕ
  estT0Ns : ℤ
  estOff0Ns : ℤ
  estSx : D
  estSy : D
  estSxx : D
  estSxy : D
  appliedPpb : ℤ

variable {D : Type} (A : Dbl D)

def ptpServoInit : PtpServo D where
  locked := false
  offsetNs := 0
  filteredNs := 0
  ratePpb := 0
  integralNs := 0
  updates := 0
  steps := 0
  win := fun _ => 0
  winPos := 0
  winCount := 0
  winN4 := 0
  compNs := 0
  lastTNs := 0
  lockStreak := 0
  unlockStreak := 0
  jumpRun := 0
  jumpStrikes := 0
  lastJumpTNs := 0
  shifts := 0
  estDone := false
  estN := 0
  estT0Ns := 0
  estOff0Ns := 0
  estSx := A.ofInt 0
  estSy := A.ofInt 0
  estSxx := A.ofInt 0
  estSxy := A.ofInt 0
  appliedPpb := 0

def ptpServoClearFilter (s : PtpServo D) : PtpServo D :=
  { s with winPos := 0, winCount := 0, compNs := 0 }

/-- One round of the in-place insertion sort, on the sorted prefix read backwards:
entries above `k` shift up by one. -/
def sortInsert (k : ℤ) : List ℤ → List ℤ
  | [] => [k]
  | x :: xs => if x > k then x :: sortInsert k xs else k :: x :: xs

/-- The insertion sort of `window_push`. -/
def sortTmp (tmp : List ℤ) : List ℤ := (tmp.foldl (fun acc k => sortInsert k acc) []).reverse

def windowStore (s : PtpServo D) (offsetNs : ℤ) : PtpServo D :=
  { s with
    win := Function.update s.win s.winPos (offsetNs - s.compNs)
    winPos := u8 ((s.winPos + 1) % PS_WIN_LOCKED)
    winCount := if s.winCount < PS_WIN_LOCKED then u8 (s.winCount + 1) else s.winCount
    winN4 :=
      if s.locked then
        if s.winN4 < PS_WIN_LOCKED * 4 then u8 (s.winN4 + 1) else s.winN4
      else PS_WIN_ACQ * 4 }

/-- How many of the newest samples the filter looks at. -/
def windowLen (s : PtpServo D) : ℕ :=
  let n := s.winN4 / 4
  let n := if n < PS_WIN_ACQ then PS_WIN_ACQ else n
  if n > s.winCount then s.winCount else n

def windowNewest (s : PtpServo D) (n : ℕ) : List ℤ :=
  (List.range n).map fun i => s.win ((s.winPos + PS_WIN_LOCKED - 1 - i) % PS_WIN_LOCKED)

def windowPush (s : PtpServo D) (offsetNs : ℤ) : PtpServo D × ℤ :=
  let s := windowStore s offsetNs
  let n := windowLen s
  let r := if n > PS_WIN_RANK then PS_WIN_RANK else u8 (n + 2 ^ 8 - 1)
  (s, (sortTmp (windowNewest s n)).getD r 0 + s.compNs)

/-- The first half of `estimate`: (re)start the sums and take one sample in. -/
def estimateAdd (s : PtpServo D) (offsetNs tNs : ℤ) : PtpServo D :=
  let s := if s.estN = 0 then
      { s with estT0Ns := tNs, estOff0Ns := offsetNs,
               estSx := A.ofInt 0, estSy := A.ofInt 0, estSxx := A.ofInt 0, estSxy := A.ofInt 0 }
    else s
  let x := A.mul (A.ofInt (tNs - s.estT0Ns)) A.nano
  let y := A.ofInt (offsetNs - s.estOff0Ns)
  { s with
    estN := u8 (s.estN + 1)
    estSx := A.add s.estSx x
    estSy := A.add s.estSy y
    estSxx := A.add s.estSxx (A.mul x x)
    estSxy := A.add s.estSxy (A.mul x y) }

def estimateDen (s : PtpServo D) : D :=
  A.sub (A.mul (A.ofInt s.estN) s.estSxx) (A.mul s.estSx s.estSx)

def estimateSlope (s : PtpServo D) : D :=
  A.div (A.sub (A.mul (A.ofInt s.estN) s.estSxy) (A.mul s.estSx s.estSy)) (estimateDen A s)

def estimate (s : PtpServo D) (offsetNs tNs : ℤ) : PtpServo D :=
  let s := estimateAdd A s offsetNs tNs
  if tNs - s.estT0Ns < EST_MIN_NS ∨ s.estN < EST_MIN_N then s
  else if A.nonpos (estimateDen A s) then s
  else
    let total := clamp (-100000) 100000 (s.appliedPpb - A.toInt (estimateSlope A s))
    { s with
      integralNs := (-(total * KI_DEN)).tdiv KI_ACQ_NUM
      ratePpb := total
      estDone := true
      appliedPpb := total }

/-- A large offset is a step: fall back to the rate estimate and re-measure. -/
def coarseStep (s : PtpServo D) : PtpServo D :=
  { ptpServoClearFilter s with
    integralNs := 0
    lastTNs := 0
    steps := u32 (s.steps + 1)
    locked := false
    lockStreak := 0
    estDone := false
    estN := 0
    appliedPpb := s.ratePpb }

/-- Account for the phase the P term moved the clock by since the last Sync. -/
def compensate (s : PtpServo D) (tNs : ℤ) : PtpServo D :=
  let s := if s.lastTNs ≠ 0 ∧ tNs > s.lastTNs ∧ tNs - s.lastTNs < 2000000000 then
      { s with compNs := s.compNs +
          ((s.appliedPpb - s.ratePpb) * (tNs - s.lastTNs)).tdiv 1000000000 }
    else s
  { s with lastTNs := tNs }

/-- The strike count a jump confirmed at `tNs` leads to. -/
def strikes (s : PtpServo D) (tNs : ℤ) : ℕ :=
  if s.lastJumpTNs ≠ 0 ∧ tNs - s.lastJumpTNs < 30000000000 then u8 (s.jumpStrikes + 1) else 1

/-- What the jump check leaves to do: nothing more in this update, or the PI path. -/
inductive Jumped (D : Type) where
  | hold (s : PtpServo D) (stepNs : ℤ)
  | go (s : PtpServo D)

/-- The integral that stands for the present rate at integral gain `ki`. -/
def rescale (s : PtpServo D) (ki : ℤ) : ℤ := (-(s.ratePpb * KI_DEN)).tdiv ki

def jumpCheck (s : PtpServo D) (f tNs : ℤ) : Jumped D :=
  if s.locked then
    if |f| > PS_JUMP_NS then
      if u8 (s.jumpRun + 1) < PS_JUMP_N then
        .hold { s with jumpRun := u8 (s.jumpRun + 1), appliedPpb := s.ratePpb } 0
      else if strikes s tNs < PS_JUMP_STRIKES then
        .hold { ptpServoClearFilter s with
            jumpRun := 0, jumpStrikes := strikes s tNs, lastJumpTNs := tNs,
            shifts := u32 (s.shifts + 1), appliedPpb := s.ratePpb } (-f)
      else
        .go { s with
          jumpRun := 0, jumpStrikes := 0, lastJumpTNs := tNs, locked := false, lockStreak := 0,
          integralNs := rescale s KI_ACQ_NUM }
    else .go { s with jumpRun := 0 }
  else .go s

def piUpdate (s : PtpServo D) (f : ℤ) : PtpServo D × ℤ :=
  let big := f > 1000 ∨ f < -1000
  let pNum := if s.locked then if big then KP_FAST_NUM else KP_NUM
    else if big then KP_ACQ_FAST_NUM else KP_ACQ_NUM
  let kiNum := if s.locked then KI_NUM else KI_ACQ_NUM
  let integral := clamp (-INTEGRAL_MAX) INTEGRAL_MAX (s.integralNs + f)
  let rate := clamp (-100000) 100000 ((-(integral * kiNum)).tdiv KI_DEN)
  let prop := clamp (-50000) 50000 ((-(f * pNum)).tdiv KP_DEN)
  ({ s with integralNs := integral, ratePpb := rate }, clamp (-200000) 200000 (rate + prop))

def unlockBranch (s : PtpServo D) (f : ℤ) : Prop := s.locked = true ∧ |f| > PS_UNLOCK_NS

def hysteresis (s : PtpServo D) (f : ℤ) : PtpServo D :=
  if s.locked then
    if |f| > PS_UNLOCK_NS then
      let s := { s with unlockStreak := u8 (s.unlockStreak + 1) }
      if s.unlockStreak ≥ PS_UNLOCK_STREAK then
        { s with locked := false, lockStreak := 0, integralNs := rescale s KI_ACQ_NUM }
      else s
    else { s with unlockStreak := 0 }
  else
    if |f| < PS_LOCK_NS then
      let s := { s with lockStreak := u8 (s.lockStreak + 1) }
      if s.lockStreak ≥ PS_LOCK_STREAK then
        { s with locked := true, unlockStreak := 0, integralNs := rescale s KI_NUM }
      else s
    else { s with lockStreak := 0 }

/-- The state, the returned ppb and `*step_ns` after a call. -/
structure Upd (D : Type) where
  s : PtpServo D
  ppb : ℤ
  stepNs : ℤ

/-- The window and the jump check of an update that is neither a coarse step nor a
sample of the pre-estimate. -/
def servoFront (s : PtpServo D) (offsetNs tNs : ℤ) : Jumped D × ℤ :=
  let p := windowPush (compensate { s with offsetNs := offsetNs } tNs) offsetNs
  (jumpCheck { p.1 with filteredNs := p.2 } p.2 tNs, p.2)

def servoBack (s : PtpServo D) (f : ℤ) : Upd D :=
  let p := piUpdate s f
  let s' := hysteresis p.1 f
  { s := { s' with updates := u32 (s'.updates + 1), appliedPpb := p.2 }, ppb := p.2, stepNs := 0 }

def ptpServoUpdate (s : PtpServo D) (offsetNs tNs : ℤ) : Upd D :=
  if offsetNs > PS_STEP_NS ∨ offsetNs < -PS_STEP_NS then
    { s := coarseStep { s with offsetNs := offsetNs }, ppb := s.ratePpb, stepNs := -offsetNs }
  else if !s.estDone then
    let s' := estimate A { s with offsetNs := offsetNs } offsetNs tNs
    { s := s', ppb := s'.appliedPpb, stepNs := 0 }
  else
    match servoFront s offsetNs tNs with
    | (.hold s' step, _) => { s := s', ppb := s'.appliedPpb, stepNs := step }
    | (.go s', f) => servoBack s' f

end Inferno
