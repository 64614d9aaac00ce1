import Inferno.Proofs.ServoLock

/-! Jump corrections over whole runs: how long a jump has lasted when the servo acts on
it, and how close together the jumps are that take its lock away. The run counter is left
standing by a coarse step, and a strike is counted against the last jump only. -/

namespace Inferno

open Lib

variable {D : Type} (A : Dbl D)

def servoCall (s : PtpServo D) (c : ServoCall) : Upd D := ptpServoUpdate A (c.entry s) c.offsetNs c.tNs

/-- A call made while locked whose low edge is beyond the jump band. -/
def beyond (s : PtpServo D) (c : ServoCall) : Bool :=
  s.locked && !decide c.coarse && decide (|lowEdge (c.entry s) c.offsetNs c.tNs| > PS_JUMP_NS)

/-- The strike rule drops the lock: it is lost without a coarse step. -/
def StruckOut (s : PtpServo D) (c : ServoCall) : Prop :=
  ¬ c.coarse ∧ s.locked = true ∧ (servoStep A s c).locked = false

/-- A call acts on a jump: it corrects one, by a step of the clock without a coarse offset,
or strikes the lock out. -/
def JumpActed (s : PtpServo D) (c : ServoCall) : Prop :=
  (¬ c.coarse ∧ (servoCall A s c).stepNs ≠ 0) ∨ StruckOut A s c

instance (s : PtpServo D) (c : ServoCall) : Decidable (StruckOut A s c) := inferInstanceAs (Decidable (_ ∧ _))

instance (s : PtpServo D) (c : ServoCall) : Decidable (JumpActed A s c) := inferInstanceAs (Decidable (_ ∨ _))

/-- What one call does to the jump counters. -/
inductive JumpStep (s : PtpServo D) (c : ServoCall) (u : Upd D) : Prop
  | aside (hb : beyond s c = false) (hl : s.locked = false ∨ u.s.locked = false) (hc : s.locked = true → c.coarse)
      (hz : c.coarse ∨ u.stepNs = 0) (hr : u.s.jumpRun = s.jumpRun) (hk : u.s.jumpStrikes = s.jumpStrikes)
      (ht : u.s.lastJumpTNs = s.lastJumpTNs)
  | inside (hb : beyond s c = false) (hl : u.s.locked = true) (hz : u.stepNs = 0) (hr : u.s.jumpRun = 0)
      (hk : u.s.jumpStrikes = s.jumpStrikes) (ht : u.s.lastJumpTNs = s.lastJumpTNs)
  | counted (hb : beyond s c = true) (hn : s.jumpRun + 1 < PS_JUMP_N) (hl : u.s.locked = true) (hz : u.stepNs = 0)
      (hr : u.s.jumpRun = s.jumpRun + 1) (hk : u.s.jumpStrikes = s.jumpStrikes)
      (ht : u.s.lastJumpTNs = s.lastJumpTNs)
  | corrected (hb : beyond s c = true) (hn : s.jumpRun + 1 = PS_JUMP_N) (hs : strikes s c.tNs < PS_JUMP_STRIKES)
      (hl : u.s.locked = true) (hz : u.stepNs ≠ 0) (hr : u.s.jumpRun = 0) (hk : u.s.jumpStrikes = strikes s c.tNs)
      (ht : u.s.lastJumpTNs = c.tNs)
  | struck (hb : beyond s c = true) (hn : s.jumpRun + 1 = PS_JUMP_N) (hs : PS_JUMP_STRIKES ≤ strikes s c.tNs)
      (hl : u.s.locked = false) (hr : u.s.jumpRun = 0) (hk : u.s.jumpStrikes = 0) (ht : u.s.lastJumpTNs = c.tNs)

/-- What a call returns once the jump check has decided. -/
def Jumped.finish (f : ℤ) : Jumped D → Upd D
  | .hold s' step => ⟨s', s'.appliedPpb, step⟩
  | .go s' => servoBack s' f

theorem servoBack_jumps (s : PtpServo D) (f : ℤ) :
    (servoBack s f).s.jumpRun = s.jumpRun ∧ (servoBack s f).s.jumpStrikes = s.jumpStrikes ∧
      (servoBack s f).s.lastJumpTNs = s.lastJumpTNs := by
  have hlast : (servoBack s f).s.lastJumpTNs = (hysteresis (piUpdate s f).1 f).lastJumpTNs := rfl
  refine ⟨(servoBack_frame s f).2.2.2.2.2.1, (servoBack_frame s f).2.2.2.2.2.2, hlast.trans ?_⟩
  simp only [hysteresis]
  split_ifs <;> rfl

theorem servoBack_far {s : PtpServo D} {f : ℤ} (hl : s.locked = false) (hf : |f| > PS_JUMP_NS) :
    (servoBack s f).s.locked = false := by
  have hfar : ¬ |f| < PS_LOCK_NS := fun h => by
    simp only [PS_LOCK_NS, PS_JUMP_NS] at h hf
    omega
  rw [(servoBack_frame s f).1, hysteresis_unlocked_miss (s := (piUpdate s f).1) hl hfar]
  exact hl

theorem servoCall_coarse {s : PtpServo D} {c : ServoCall} (hc : c.coarse) : JumpStep s c (servoCall A s c) := by
  have he : servoCall A s c = ⟨coarseStep { c.entry s with offsetNs := c.offsetNs }, (c.entry s).ratePpb, -c.offsetNs⟩ := by
    unfold ServoCall.coarse at hc
    simp only [servoCall, ptpServoUpdate, if_pos hc]
  have hctl := ctl_entry c s
  refine .aside (by simp [beyond, hc]) (.inr (by rw [he]; rfl)) (fun _ => hc) (.inl hc) ?_ ?_ ?_
  · rw [he]
    exact congrArg Ctl.jumpRun hctl
  · rw [he]
    exact congrArg Ctl.jumpStrikes hctl
  · rw [he]
    exact congrArg Ctl.lastJumpTNs hctl

theorem servoCall_estimate {s : PtpServo D} {c : ServoCall} (hi : LockInv s) (hc : ¬ c.coarse) (hd : s.estDone = false) :
    JumpStep s c (servoCall A s c) := by
  have hs : (servoCall A s c).s = estimate A { c.entry s with offsetNs := c.offsetNs } c.offsetNs c.tNs ∧
      (servoCall A s c).stepNs = 0 := by
    unfold ServoCall.coarse at hc
    simp only [servoCall, ptpServoUpdate, if_neg hc, estDone_entry, hd, Bool.not_false, if_true, and_self]
  have hctl : (servoCall A s c).s.ctl = s.ctl := by
    rw [hs.1, ctl_estimate]
    exact ctl_entry c s
  have hl := (hi.est hd).1
  exact .aside (by simp [beyond, hl]) (.inl hl) (fun h => absurd (hl.symm.trans h) (by decide)) (.inr hs.2)
    (congrArg Ctl.jumpRun hctl) (congrArg Ctl.jumpStrikes hctl) (congrArg Ctl.lastJumpTNs hctl)

theorem jumpStep_locked {s p : PtpServo D} {c : ServoCall} (hctl : p.ctl = s.ctl) (hi : LockInv s) (hc : ¬ c.coarse)
    (hl : s.locked = true) :
    JumpStep s c ((jumpCheck p (lowEdge (c.entry s) c.offsetNs c.tNs) c.tNs).finish
      (lowEdge (c.entry s) c.offsetNs c.tNs)) := by
  set f := lowEdge (c.entry s) c.offsetNs c.tNs with hf
  have hl' : p.locked = true := (congrArg Ctl.locked hctl).trans hl
  have hpr : p.jumpRun = s.jumpRun := congrArg Ctl.jumpRun hctl
  have hpk : p.jumpStrikes = s.jumpStrikes := congrArg Ctl.jumpStrikes hctl
  have hpt : p.lastJumpTNs = s.lastJumpTNs := congrArg Ctl.lastJumpTNs hctl
  have hst : strikes p c.tNs = strikes s c.tNs := by simp only [strikes, hpk, hpt]
  have hlt := hi.run_lt
  have hu : u8 (p.jumpRun + 1) = s.jumpRun + 1 := by
    simp only [u8, hpr, PS_JUMP_N] at hlt ⊢
    omega
  by_cases hb : |f| > PS_JUMP_NS
  · have hbey : beyond s c = true := by simp [beyond, hl, hc, ← hf, hb]
    by_cases hrun : s.jumpRun + 1 < PS_JUMP_N
    · simp only [jumpCheck, if_pos hl', if_pos hb, hu, if_pos hrun]
      exact .counted hbey hrun hl' rfl rfl hpk hpt
    · have hn : s.jumpRun + 1 = PS_JUMP_N := by omega
      by_cases hk : strikes s c.tNs < PS_JUMP_STRIKES
      · simp only [jumpCheck, if_pos hl', if_pos hb, hu, if_neg hrun, hst, if_pos hk]
        have hne : -f ≠ 0 := by
          intro h0
          rw [neg_eq_zero.mp h0] at hb
          exact absurd hb (by decide)
        exact .corrected hbey hn hk hl' hne rfl rfl rfl
      · simp only [jumpCheck, if_pos hl', if_pos hb, hu, if_neg hrun, hst, if_neg hk]
        obtain ⟨hr, hks, ht⟩ := servoBack_jumps { p with
          jumpRun := 0, jumpStrikes := 0, lastJumpTNs := c.tNs, locked := false, lockStreak := 0,
          integralNs := rescale p KI_ACQ_NUM } f
        exact .struck hbey hn (not_lt.mp hk) (servoBack_far rfl hb) hr hks ht
  · have hbey : beyond s c = false := by simp [beyond, hl, hc, ← hf, not_lt.mp hb]
    simp only [jumpCheck, if_pos hl', if_neg hb]
    obtain ⟨hr, hks, ht⟩ := servoBack_jumps { p with jumpRun := 0 } f
    have hw : |f| ≤ PS_UNLOCK_NS := (not_lt.mp hb).trans (by decide)
    exact .inside hbey (servoBack_locked (s := { p with jumpRun := 0 }) hl' hw).1 rfl hr (hks.trans hpk) (ht.trans hpt)

theorem jumpStep_unlocked {s p : PtpServo D} {c : ServoCall} (hctl : p.ctl = s.ctl) (hl : s.locked = false) (f : ℤ) :
    JumpStep s c ((jumpCheck p f c.tNs).finish f) := by
  have hl' : p.locked = false := (congrArg Ctl.locked hctl).trans hl
  simp only [jumpCheck, hl', Bool.false_eq_true, if_false]
  obtain ⟨hr, hks, ht⟩ := servoBack_jumps p f
  exact .aside (by simp [beyond, hl]) (.inl hl) (fun h => absurd (hl.symm.trans h) Bool.false_ne_true) (.inr rfl)
    (hr.trans (congrArg Ctl.jumpRun hctl)) (hks.trans (congrArg Ctl.jumpStrikes hctl))
    (ht.trans (congrArg Ctl.lastJumpTNs hctl))

theorem servoCall_finish {s : PtpServo D} {c : ServoCall} (hc : ¬ c.coarse) (hd : s.estDone = true) :
    servoCall A s c =
      (jumpCheck (frontState (c.entry s) c.offsetNs c.tNs) (lowEdge (c.entry s) c.offsetNs c.tNs) c.tNs).finish
        (lowEdge (c.entry s) c.offsetNs c.tNs) := by
  unfold ServoCall.coarse at hc
  simp only [servoCall, ptpServoUpdate, if_neg hc, estDone_entry, hd, Bool.not_true, Bool.false_eq_true, if_false,
    servoFront_eq]
  cases jumpCheck (frontState (c.entry s) c.offsetNs c.tNs) (lowEdge (c.entry s) c.offsetNs c.tNs) c.tNs <;> rfl

theorem servoCall_pi {s : PtpServo D} {c : ServoCall} (hi : LockInv s) (hc : ¬ c.coarse) (hd : s.estDone = true) :
    JumpStep s c (servoCall A s c) := by
  rw [servoCall_finish A hc hd]
  cases hl : s.locked with
  | true => exact jumpStep_locked (ctl_front c s) hi hc hl
  | false => exact jumpStep_unlocked (ctl_front c s) hl _

theorem servoCall_jumps {s : PtpServo D} (c : ServoCall) (hi : LockInv s) : JumpStep s c (servoCall A s c) := by
  by_cases hc : c.coarse
  · exact servoCall_coarse A hc
  · cases hd : s.estDone with
    | false => exact servoCall_estimate A hi hc hd
    | true => exact servoCall_pi A hi hc hd

/-- The servo acts on a jump at exactly the call that brings the run counter to
`PS_JUMP_N`. -/
theorem jumpActed_iff {s : PtpServo D} (c : ServoCall) (hi : LockInv s) :
    JumpActed A s c ↔ beyond s c = true ∧ s.jumpRun + 1 = PS_JUMP_N := by
  have hstep := servoCall_jumps A c hi
  have hsv : servoStep A s c = (servoCall A s c).s := rfl
  simp only [JumpActed, StruckOut, hsv]
  cases hstep with
  | aside hb hl hc hz hr hk ht =>
    rw [hb]
    constructor
    · rintro (⟨hnc, hnz⟩ | ⟨hnc, hlk, -⟩)
      · exact absurd (hz.resolve_left hnc) hnz
      · exact absurd (hc hlk) hnc
    · rintro ⟨h, -⟩
      cases h
  | inside hb hl hz hr hk ht => simp [hb, hl, hz]
  | counted hb hn hl hz hr hk ht =>
    simp only [hb, hl, hz]
    constructor
    · rintro (⟨-, h⟩ | ⟨-, -, h⟩)
      · exact absurd rfl h
      · cases h
    · rintro ⟨-, h⟩
      omega
  | corrected hb hn hs hl hz hr hk ht =>
    have hnc : ¬ c.coarse := by
      simp only [beyond, Bool.and_eq_true, Bool.not_eq_true', decide_eq_false_iff_not] at hb
      exact hb.1.2
    exact ⟨fun _ => ⟨hb, hn⟩, fun _ => .inl ⟨hnc, hz⟩⟩
  | struck hb hn hs hl hr hk ht =>
    have hin : s.locked = true ∧ ¬ c.coarse := by
      simp only [beyond, Bool.and_eq_true, Bool.not_eq_true', decide_eq_false_iff_not] at hb
      exact hb.1
    exact ⟨fun _ => ⟨hb, hn⟩, fun _ => .inr ⟨hin.2, hin.1, hl⟩⟩

/-- Every one of the calls from `i` up to `k` was beyond the jump band. -/
def BeyondFrom (l : List ServoCall) (i k : ℕ) : Prop :=
  ∀ j (hj : j < l.length), i ≤ j → j < k → beyond (servoAt A l j) l[j] = true

theorem BeyondFrom.snoc {l : List ServoCall} {i k : ℕ} (h : BeyondFrom A l i k) (hk : k < l.length)
    (hb : beyond (servoAt A l k) l[k] = true) : BeyondFrom A l i (k + 1) := by
  intro j hj h1 h2
  rcases Nat.lt_succ_iff_lt_or_eq.mp h2 with h2 | rfl
  · exact h j hj h1 h2
  · exact hb

/-- The servo is locked for the first time after the `n`-th call of a run, and has counted
`r` calls of a jump already. -/
def RelocksWith (l : List ServoCall) (n r : ℕ) : Prop :=
  (servoAt A l n).locked = false ∧ (servoAt A l (n + 1)).locked = true ∧ (servoAt A l (n + 1)).jumpRun = r

/-- A locked servo has counted calls in a row beyond the band, or has been adding to an old
count ever since it locked. -/
theorem jumpRun_counts (l : List ServoCall) {k : ℕ} (hk : k ≤ l.length) (hl : (servoAt A l k).locked = true) :
    ((servoAt A l k).jumpRun ≤ k ∧ BeyondFrom A l (k - (servoAt A l k).jumpRun) k) ∨
      ∃ n r, r ≠ 0 ∧ RelocksWith A l n r ∧ n < k ∧ (servoAt A l k).jumpRun + n + 1 = r + k ∧ BeyondFrom A l (n + 1) k := by
  induction k with
  | zero => exact .inl ⟨Nat.le_refl 0, fun j hj _ h => absurd h (Nat.not_lt_zero j)⟩
  | succ k ih =>
    have hlt : k < l.length := hk
    have hnext : (servoAt A l (k + 1)) = (servoCall A (servoAt A l k) l[k]).s := servoAt_succ A l hlt
    have hfresh : (servoAt A l (k + 1)).jumpRun = 0 → ((servoAt A l (k + 1)).jumpRun ≤ k + 1 ∧
        BeyondFrom A l (k + 1 - (servoAt A l (k + 1)).jumpRun) (k + 1)) := by
      intro h0
      rw [h0]
      exact ⟨Nat.zero_le _, fun j hj h1 h2 => absurd h1 (by omega)⟩
    cases servoCall_jumps A l[k] (servoAt_inv A l k) with
    | aside hb hul hc hz hr hks ht =>
      rw [← hnext, hl] at hul
      have hul : (servoAt A l k).locked = false := hul.resolve_right (by decide)
      by_cases h0 : (servoAt A l (k + 1)).jumpRun = 0
      · exact .inl (hfresh h0)
      · exact .inr ⟨k, _, h0, ⟨hul, hl, rfl⟩, Nat.lt_succ_self k, by omega, fun j hj h1 h2 => absurd h1 (by omega)⟩
    | inside hb hlk hz hr hks ht => exact .inl (hfresh (hnext ▸ hr))
    | corrected hb hn hs hlk hz hr hks ht => exact .inl (hfresh (hnext ▸ hr))
    | struck hb hn hs hlk hr hks ht =>
      rw [← hnext, hl] at hlk
      cases hlk
    | counted hb hn hlk hz hr hks ht =>
      rw [← hnext] at hr
      have hwas : (servoAt A l k).locked = true := by
        simp only [beyond, Bool.and_eq_true] at hb
        exact hb.1.1
      rcases ih hlt.le hwas with ⟨hle, hall⟩ | ⟨n, r, h0, hre, hnk, hcount, hall⟩
      · refine .inl ⟨by omega, ?_⟩
        rw [hr, show k + 1 - ((servoAt A l k).jumpRun + 1) = k - (servoAt A l k).jumpRun by omega]
        exact hall.snoc A hlt hb
      · exact .inr ⟨n, r, h0, hre, by omega, by omega, hall.snoc A hlt hb⟩

/-- From a relock on, calls beyond the band keep adding to the old count. -/
theorem jumpRun_adds {l : List ServoCall} {n r : ℕ} (hre : RelocksWith A l n r) {m : ℕ} (hm : r + m < PS_JUMP_N)
    (hlen : n + 1 + m ≤ l.length) (hall : BeyondFrom A l (n + 1) (n + 1 + m)) :
    (servoAt A l (n + 1 + m)).jumpRun = r + m := by
  induction m with
  | zero => exact hre.2.2
  | succ m ih =>
    have hrun : (servoAt A l (n + 1 + m)).jumpRun = r + m :=
      ih (by omega) (by omega) fun j hj h1 h2 => hall j hj h1 (by omega)
    have hlt : n + 1 + m < l.length := by omega
    have hb := hall (n + 1 + m) hlt (by omega) (by omega)
    have hnext : (servoAt A l (n + 1 + m + 1)) = (servoCall A (servoAt A l (n + 1 + m)) l[n + 1 + m]).s :=
      servoAt_succ A l hlt
    show (servoAt A l (n + 1 + m + 1)).jumpRun = r + (m + 1)
    rw [hnext]
    cases servoCall_jumps A l[n + 1 + m] (servoAt_inv A l (n + 1 + m)) with
    | aside hb' hul hc hz hr hks ht => rw [hb'] at hb; cases hb
    | inside hb' hlk hz hr hks ht => rw [hb'] at hb; cases hb
    | corrected hb' hn hs hlk hz hr hks ht => omega
    | struck hb' hn hs hlk hr hks ht => omega
    | counted hb' hn hlk hz hr hks ht => rw [hr, hrun]; omega

/-- The servo acts only on a jump that has lasted `PS_JUMP_N` calls, in exactly the runs
where no relock with an old count of `r` is followed by `PS_JUMP_N - r` calls beyond the
band. -/
theorem jump_persists_iff (l : List ServoCall) :
    (∀ k (hk : k < l.length), JumpActed A (servoAt A l k) l[k] →
      PS_JUMP_N ≤ k + 1 ∧ BeyondFrom A l (k + 1 - PS_JUMP_N) (k + 1)) ↔
    ∀ n r, r ≠ 0 → RelocksWith A l n r → n + PS_JUMP_N < l.length + r →
      ¬ BeyondFrom A l (n + 1) (n + 1 + PS_JUMP_N - r) := by
  constructor
  · intro h n r h0 hre hlen hall
    have hr : r < PS_JUMP_N := hre.2.2 ▸ (servoAt_inv A l (n + 1)).run_lt
    -- the call that brings the count to `PS_JUMP_N`
    have hk : n + (PS_JUMP_N - r) < l.length := by omega
    have hrun : (servoAt A l (n + 1 + (PS_JUMP_N - r - 1))).jumpRun = r + (PS_JUMP_N - r - 1) :=
      jumpRun_adds A hre (by omega) (by omega) fun j hj h1 h2 => hall j hj h1 (by omega)
    rw [show n + 1 + (PS_JUMP_N - r - 1) = n + (PS_JUMP_N - r) by omega] at hrun
    have hact : JumpActed A (servoAt A l (n + (PS_JUMP_N - r))) l[n + (PS_JUMP_N - r)] :=
      (jumpActed_iff A _ (servoAt_inv A l _)).mpr ⟨hall _ hk (by omega) (by omega), by omega⟩
    have hlong := (h _ hk hact).2 n (by omega) (by omega) (by omega)
    simp only [beyond, hre.1, Bool.false_and, Bool.false_eq_true] at hlong
  · intro h k hk hact
    obtain ⟨hb, hrun⟩ := (jumpActed_iff A l[k] (servoAt_inv A l k)).mp hact
    have hwas : (servoAt A l k).locked = true := by
      simp only [beyond, Bool.and_eq_true] at hb
      exact hb.1.1
    rcases jumpRun_counts A l hk.le hwas with ⟨hle, hall⟩ | ⟨n, r, h0, hre, hnk, hcount, hall⟩
    · refine ⟨by omega, ?_⟩
      rw [show k + 1 - PS_JUMP_N = k - (servoAt A l k).jumpRun by omega]
      exact hall.snoc A hk hb
    · refine absurd ?_ (h n r h0 hre (by omega))
      rw [show n + 1 + PS_JUMP_N - r = k + 1 by omega]
      exact hall.snoc A hk hb

/-- Locked after twenty Syncs; eight of a jump, the first of which the filter hides; a
coarse step; twelve Syncs of the estimate; eight that lock again, one of them 9 us early;
and one more that early. -/
def staleCount : List ServoCall :=
  steadySyncs ++ ((List.replicate 8 (-20000) ++ [2000000] ++ List.replicate 12 0 ++ [0, -9000] ++ List.replicate 6 0 ++
    [-9000]).mapIdx fun k (o : ℤ) => ⟨false, o, 500000000 * (k + 21)⟩)

/-- The last of these is stepped on at once, the first locked call beyond the band. -/
theorem stale_count_acts :
    ∃ h : 49 < staleCount.length, JumpActed flatDbl (servoAt flatDbl staleCount 49) staleCount[49] ∧
      (servoAt flatDbl staleCount 48).locked = false ∧
      ¬ (PS_JUMP_N ≤ 49 + 1 ∧ BeyondFrom flatDbl staleCount (49 + 1 - PS_JUMP_N) (49 + 1)) := by
  have hact : JumpActed flatDbl (servoAt flatDbl staleCount 49) staleCount[49] := by decide +kernel
  have hopen : (servoAt flatDbl staleCount 48).locked = false := by decide +kernel
  refine ⟨by decide, hact, hopen, fun h => ?_⟩
  have hb := h.2 48 (by decide) (by decide) (by decide)
  simp only [beyond, hopen, Bool.false_and, Bool.false_eq_true] at hb

def ActsAt (l : List ServoCall) (k : ℕ) : Prop := ∃ hk : k < l.length, JumpActed A (servoAt A l k) l[k]

/-- When the calls of a run are made, by their clock. -/
def timeAt (l : List ServoCall) (k : ℕ) : ℤ := (l.map ServoCall.tNs).getD k 0

theorem timeAt_eq {l : List ServoCall} {k : ℕ} (hk : k < l.length) : timeAt l k = l[k].tNs := by
  simp [timeAt, List.getD_eq_getElem?_getD, hk]

/-- Calls that do not act on a jump leave the strikes and the time of the last jump. -/
theorem strikes_kept {l : List ServoCall} {k : ℕ} (hk : k < l.length) (h : ¬ ActsAt A l k) :
    (servoStep A (servoAt A l k) l[k]).jumpStrikes = (servoAt A l k).jumpStrikes ∧
      (servoStep A (servoAt A l k) l[k]).lastJumpTNs = (servoAt A l k).lastJumpTNs := by
  have hact : ¬ (beyond (servoAt A l k) l[k] = true ∧ (servoAt A l k).jumpRun + 1 = PS_JUMP_N) := fun hj =>
    h ⟨hk, (jumpActed_iff A l[k] (servoAt_inv A l k)).mpr hj⟩
  have hsv : servoStep A (servoAt A l k) l[k] = (servoCall A (servoAt A l k) l[k]).s := rfl
  rw [hsv]
  cases servoCall_jumps A l[k] (servoAt_inv A l k) with
  | aside hb hl hc hz hr hks ht => exact ⟨hks, ht⟩
  | inside hb hl hz hr hks ht => exact ⟨hks, ht⟩
  | counted hb hn hl hz hr hks ht => exact ⟨hks, ht⟩
  | corrected hb hn hs hl hz hr hks ht => exact absurd ⟨hb, hn⟩ hact
  | struck hb hn hs hl hr hks ht => exact absurd ⟨hb, hn⟩ hact

/-- A call that acts on a jump notes its time, and counts the strike or strikes out. -/
theorem strikes_acted {l : List ServoCall} {k : ℕ} (h : ActsAt A l k) :
    (servoAt A l (k + 1)).lastJumpTNs = timeAt l k ∧
      (((servoAt A l (k + 1)).locked = true ∧ strikes (servoAt A l k) (timeAt l k) < PS_JUMP_STRIKES ∧
          (servoAt A l (k + 1)).jumpStrikes = strikes (servoAt A l k) (timeAt l k)) ∨
        ((servoAt A l (k + 1)).locked = false ∧ PS_JUMP_STRIKES ≤ strikes (servoAt A l k) (timeAt l k) ∧
          (servoAt A l (k + 1)).jumpStrikes = 0)) := by
  obtain ⟨hk, hact⟩ := h
  obtain ⟨hb, hrun⟩ := (jumpActed_iff A l[k] (servoAt_inv A l k)).mp hact
  rw [show servoAt A l (k + 1) = (servoCall A (servoAt A l k) l[k]).s from servoAt_succ A l hk, timeAt_eq hk]
  cases servoCall_jumps A l[k] (servoAt_inv A l k) with
  | aside hb' hl hc hz hr hks ht => rw [hb'] at hb; cases hb
  | inside hb' hl hz hr hks ht => rw [hb'] at hb; cases hb
  | counted hb' hn hl hz hr hks ht => omega
  | corrected hb' hn hs hl hz hr hks ht => exact ⟨ht, .inl ⟨hl, hs, hks⟩⟩
  | struck hb' hn hs hl hr hks ht => exact ⟨ht, .inr ⟨hl, hs, hks⟩⟩

/-- Call `j` is the last before call `n` that acted on a jump. -/
abbrev LastJump (l : List ServoCall) (n j : ℕ) : Prop := LastBefore (ActsAt A l) n j

/-- The strikes and the time of the last jump are as that left them, or there was none. -/
theorem strikes_since {l : List ServoCall} {n : ℕ} (hn : n ≤ l.length) :
    ((∀ i < n, ¬ ActsAt A l i) ∧ (servoAt A l n).jumpStrikes = 0) ∨
      ∃ j, LastJump A l n j ∧ (servoAt A l n).jumpStrikes = (servoAt A l (j + 1)).jumpStrikes ∧
        (servoAt A l n).lastJumpTNs = timeAt l j := by
  have hkept := kept_since_last (servoStep A) (f := fun s => (s.jumpStrikes, s.lastJumpTNs)) (P := ActsAt A l)
    (s := ptpServoInit A) (l := l) (fun k hk h => Prod.ext (strikes_kept A hk h).1 (strikes_kept A hk h).2) hn
  rcases hkept with ⟨hnone, h0⟩ | ⟨j, hj, hsame⟩
  · exact .inl ⟨hnone, congrArg Prod.fst h0⟩
  · have ht : (servoAt A l n).lastJumpTNs = (servoAt A l (j + 1)).lastJumpTNs := congrArg Prod.snd hsame
    exact .inr ⟨j, hj, congrArg Prod.fst hsame, ht.trans (strikes_acted A hj.holds).1⟩

/-- Strikes standing before a call were left by the last jump, which was corrected. -/
theorem strikes_left {l : List ServoCall} {n : ℕ} (hn : n ≤ l.length) :
    (servoAt A l n).jumpStrikes = 0 ∨ ∃ j, LastJump A l n j ∧ (servoAt A l (j + 1)).locked = true ∧
      (servoAt A l n).jumpStrikes = strikes (servoAt A l j) (timeAt l j) ∧ (servoAt A l n).lastJumpTNs = timeAt l j := by
  rcases strikes_since A hn with ⟨-, h0⟩ | ⟨j, hj, hk, ht⟩
  · exact .inl h0
  · obtain ⟨-, ⟨hl, hlt, hs⟩ | ⟨hl, hle, hs⟩⟩ := strikes_acted A hj.holds
    · exact .inr ⟨j, hj, hl, hk.trans hs, ht⟩
    · exact .inl (hk.trans hs)

theorem strikes_stand {l : List ServoCall} {n j : ℕ} (hn : n ≤ l.length) (hj : LastJump A l n j)
    (hl : (servoAt A l (j + 1)).locked = true) :
    (servoAt A l n).jumpStrikes = strikes (servoAt A l j) (timeAt l j) ∧ (servoAt A l n).lastJumpTNs = timeAt l j ∧
      strikes (servoAt A l j) (timeAt l j) < PS_JUMP_STRIKES := by
  rcases strikes_since A hn with ⟨hnone, -⟩ | ⟨i, hi, hk, ht⟩
  · exact absurd hj.holds (hnone j hj.lt)
  · obtain rfl := hi.unique hj
    obtain ⟨-, ⟨-, hlt, hs⟩ | ⟨hl', -⟩⟩ := strikes_acted A hj.holds
    · exact ⟨hk.trans hs, ht, hlt⟩
    · rw [hl] at hl'
      cases hl'

theorem strikes_eq {s : PtpServo D} (hk : s.jumpStrikes < PS_JUMP_STRIKES) (t : ℤ) :
    strikes s t = if s.lastJumpTNs ≠ 0 ∧ t - s.lastJumpTNs < 30000000000 then s.jumpStrikes + 1 else 1 := by
  have hu : u8 (s.jumpStrikes + 1) = s.jumpStrikes + 1 := by
    simp only [u8, PS_JUMP_STRIKES] at hk ⊢
    omega
  rw [strikes, hu]

/-- Two jumps in a row were corrected, at times the servo has not taken for none, the
second less than 30 s after the first. -/
structure TwoJumps (l : List ServoCall) (n j i : ℕ) : Prop where
  last : LastJump A l n j
  before : LastJump A l j i
  held : (servoAt A l (i + 1)).locked = true ∧ (servoAt A l (j + 1)).locked = true
  timed : timeAt l i ≠ 0 ∧ timeAt l j ≠ 0
  near : timeAt l j - timeAt l i < 30000000000

theorem twoJumps_of_struckOut {l : List ServoCall} {k : ℕ} (hk : k < l.length)
    (h : StruckOut A (servoAt A l k) l[k]) :
    ActsAt A l k ∧ ∃ j i, TwoJumps A l k j i ∧ timeAt l k - timeAt l j < 30000000000 := by
  have hlt : ∀ n, (servoAt A l n).jumpStrikes < PS_JUMP_STRIKES := fun n => (servoAt_inv A l n).strikes_lt
  have hact : ActsAt A l k := ⟨hk, .inr h⟩
  refine ⟨hact, ?_⟩
  have hthree : PS_JUMP_STRIKES ≤ strikes (servoAt A l k) (timeAt l k) := by
    obtain ⟨-, ⟨hl, -⟩ | ⟨-, hle, -⟩⟩ := strikes_acted A hact
    · rw [servoAt_succ A l hk, h.2.2] at hl
      cases hl
    · exact hle
  -- the last jump left two strikes, so the one before it left one
  rw [strikes_eq (hlt k)] at hthree
  split_ifs at hthree with hnear
  · have htwo : (servoAt A l k).jumpStrikes = 2 := by
      have := hlt k
      simp only [PS_JUMP_STRIKES] at this hthree
      omega
    rcases strikes_left A hk.le with h0 | ⟨j, hj, hjl, hjs, hjt⟩
    · omega
    · rw [htwo, strikes_eq (hlt j)] at hjs
      split_ifs at hjs with hnear'
      · rcases strikes_left A (n := j) (hj.lt.trans hk).le with h0 | ⟨i, hi, hil, his, hit⟩
        · omega
        · exact ⟨j, i, ⟨hj, hi, ⟨hil, hjl⟩, ⟨hit ▸ hnear'.1, hjt ▸ hnear.1⟩, hit ▸ hnear'.2⟩, hjt ▸ hnear.2⟩
      · cases hjs
  · exact absurd hthree (by decide)

theorem TwoJumps.strikes {l : List ServoCall} {k j i : ℕ} (h : TwoJumps A l k j i) (hk : k ≤ l.length) :
    2 ≤ (servoAt A l k).jumpStrikes ∧ (servoAt A l k).lastJumpTNs = timeAt l j := by
  have hlt : ∀ n, (servoAt A l n).jumpStrikes < PS_JUMP_STRIKES := fun n => (servoAt_inv A l n).strikes_lt
  obtain ⟨hjs, hjt, -⟩ := strikes_stand A hk h.last h.held.2
  obtain ⟨his, hit, -⟩ := strikes_stand A (h.last.lt.trans_le hk).le h.before h.held.1
  have hone : 1 ≤ (servoAt A l j).jumpStrikes := by
    rw [his, strikes_eq (hlt i)]
    split_ifs <;> omega
  refine ⟨?_, hjt⟩
  rw [hjs, strikes_eq (hlt j), hit, if_pos ⟨h.timed.1, h.near⟩]
  omega

/-- A call strikes the lock out exactly when it acts on a jump less than 30 s after the
second of two such jumps. -/
theorem struckOut_iff (l : List ServoCall) {k : ℕ} (hk : k < l.length) :
    StruckOut A (servoAt A l k) l[k] ↔
      ActsAt A l k ∧ ∃ j i, TwoJumps A l k j i ∧ timeAt l k - timeAt l j < 30000000000 := by
  refine ⟨twoJumps_of_struckOut A hk, ?_⟩
  rintro ⟨hact, j, i, htwo, hnear⟩
  obtain ⟨hks, hkt⟩ := htwo.strikes A hk.le
  have hthree : PS_JUMP_STRIKES ≤ strikes (servoAt A l k) (timeAt l k) := by
    rw [strikes_eq (servoAt_inv A l k).strikes_lt, hkt, if_pos ⟨htwo.timed.2, hnear⟩]
    simp only [PS_JUMP_STRIKES]
    omega
  obtain ⟨-, ⟨-, hno, -⟩ | ⟨hl, -⟩⟩ := strikes_acted A hact
  · omega
  · obtain ⟨hb, -⟩ := (jumpActed_iff A l[k] (servoAt_inv A l k)).mp hact.snd
    simp only [beyond, Bool.and_eq_true, Bool.not_eq_true', decide_eq_false_iff_not] at hb
    exact ⟨hb.1.2, hb.1.1, by rwa [← servoAt_succ A l hk]⟩

/-- Call `j` was made in the last 30 s before call `k`. -/
def InLast30s (l : List ServoCall) (k j : ℕ) : Prop :=
  timeAt l k - 30000000000 ≤ timeAt l j ∧ timeAt l j ≤ timeAt l k

theorem timeAt_mono {l : List ServoCall} (ht : l.Pairwise fun a b => a.tNs ≤ b.tNs) {i j : ℕ} (hij : i ≤ j)
    (hj : j < l.length) : timeAt l i ≤ timeAt l j := by
  rw [timeAt_eq (hij.trans_lt hj), timeAt_eq hj]
  rcases Nat.lt_or_eq_of_le hij with h | rfl
  · exact List.pairwise_iff_getElem.mp ht i j _ hj h
  · exact le_rfl

/-- Lock is struck out only by a third jump within 30 s, in exactly the runs where no three
jumps in a row, the first two of them corrected, come each less than 30 s after the one
before and yet span more. -/
theorem strike_out_within_iff (l : List ServoCall) (ht : l.Pairwise fun a b => a.tNs ≤ b.tNs) :
    (∀ k (hk : k < l.length), StruckOut A (servoAt A l k) l[k] →
      ∃ j i, LastJump A l k j ∧ LastJump A l j i ∧ InLast30s l k j ∧ InLast30s l k i) ↔
    ∀ k j i, ActsAt A l k → TwoJumps A l k j i → timeAt l k - timeAt l j < 30000000000 →
      timeAt l k - timeAt l i ≤ 30000000000 := by
  constructor
  · intro h k j i hact htwo hnear
    have hk : k < l.length := hact.fst
    obtain ⟨j', i', hj, hi, -, hin⟩ := h k hk ((struckOut_iff A l hk).mpr ⟨hact, j, i, htwo, hnear⟩)
    obtain rfl := hj.unique htwo.last
    obtain rfl := hi.unique htwo.before
    have := hin.1
    omega
  · intro h k hk hout
    obtain ⟨hact, j, i, htwo, hnear⟩ := (struckOut_iff A l hk).mp hout
    have hjk := htwo.last.lt
    have hij := htwo.before.lt
    have hspan := h k j i hact htwo hnear
    have hkj := timeAt_mono ht hjk.le hk
    have hki := timeAt_mono ht (hij.trans hjk).le hk
    exact ⟨j, i, htwo.last, htwo.before, ⟨by omega, hkj⟩, ⟨by omega, hki⟩⟩

/-- Locked after twenty Syncs; then three jumps of eight Syncs and more, the later ones
confirmed 29 s after the one before. -/
def slowJumps : List ServoCall :=
  steadySyncs ++ ((List.range 9).map fun (k : ℕ) => ⟨false, -20000, 500000000 * (k + 21)⟩) ++
    ((List.range 8).map fun (k : ℕ) => ⟨false, -20000, 500000000 * (k + 80)⟩) ++
    ((List.range 8).map fun (k : ℕ) => ⟨false, -20000, 500000000 * (k + 138)⟩)

theorem strike_out_within_iff_slow :
    (∀ k (hk : k < slowJumps.length), StruckOut flatDbl (servoAt flatDbl slowJumps k) slowJumps[k] →
      ∃ j i, LastJump flatDbl slowJumps k j ∧ LastJump flatDbl slowJumps j i ∧ InLast30s slowJumps k j ∧
        InLast30s slowJumps k i) ↔
    ∀ k j i, ActsAt flatDbl slowJumps k → TwoJumps flatDbl slowJumps k j i →
      timeAt slowJumps k - timeAt slowJumps j < 30000000000 → timeAt slowJumps k - timeAt slowJumps i ≤ 30000000000 :=
  strike_out_within_iff flatDbl slowJumps (by decide)

/-- The third strikes the lock out 58 s after the first. -/
theorem slow_jumps_strike_out :
    ∃ h : 44 < slowJumps.length, StruckOut flatDbl (servoAt flatDbl slowJumps 44) slowJumps[44] ∧
      timeAt slowJumps 44 - timeAt slowJumps 28 = 58000000000 ∧
      ¬ ∃ j i, LastJump flatDbl slowJumps 44 j ∧ LastJump flatDbl slowJumps j i ∧ InLast30s slowJumps 44 j ∧
        InLast30s slowJumps 44 i := by
  have hout : StruckOut flatDbl (servoAt flatDbl slowJumps 44) slowJumps[44] := by decide +kernel
  have hjump : JumpActed flatDbl (servoAt flatDbl slowJumps 36) slowJumps[36] ∧
      JumpActed flatDbl (servoAt flatDbl slowJumps 28) slowJumps[28] := by decide +kernel
  have hquiet : ∀ i (hi : i < slowJumps.length), 28 < i → i < 44 → i ≠ 36 →
      ¬ JumpActed flatDbl (servoAt flatDbl slowJumps i) slowJumps[i] := by decide +kernel
  have hlen : slowJumps.length = 45 := by decide
  have h36 : LastJump flatDbl slowJumps 44 36 :=
    ⟨by decide, ⟨by omega, hjump.1⟩, fun i h1 h2 ⟨hi, h⟩ => hquiet i hi (by omega) h2 (by omega) h⟩
  have h28 : LastJump flatDbl slowJumps 36 28 :=
    ⟨by decide, ⟨by omega, hjump.2⟩, fun i h1 h2 ⟨hi, h⟩ => hquiet i hi h1 (by omega) (by omega) h⟩
  have hspan : timeAt slowJumps 44 - timeAt slowJumps 28 = 58000000000 := by decide
  refine ⟨by decide, hout, hspan, ?_⟩
  rintro ⟨j, i, hj, hi, -, hin⟩
  obtain rfl := hj.unique h36
  obtain rfl := hi.unique h28
  have := hin.1
  omega

end Inferno
