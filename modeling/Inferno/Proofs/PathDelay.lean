import Inferno.Lib.SlidingMean
import Inferno.Lib.Trace
import Inferno.Proofs.PtpPairing

/-! The averaged path delay. A Delay_Resp that is used adds one sample to a sum and a
count that are halved together past sixteen; halving the odd seventeen loses half a
sample of the count, so from then on the mean is of more than it is divided by. -/

namespace Inferno

open Lib

variable {D : Type} (A : Dbl D)

structure PathAvg where
  acc : ℤ
  n : ℕ
  mean : ℤ

def Ptp.path (p : Ptp D) : PathAvg := ⟨p.pathDelayAcc, p.pathDelayN, p.g.meanPathDelayNs⟩

/-- The sum is left alone, or cleared; the mean stays. -/
def PathAvg.Kept (a b : PathAvg) : Prop := b = a ∨ b = { a with acc := 0, n := 0 }

theorem PathAvg.Kept.refl (a : PathAvg) : a.Kept a := Or.inl rfl

/-- The sample an event brings: a whole Delay_Resp to our last request, in range. -/
def delaySample (p : Ptp D) : PtpEvent → Option ℕ
  | .frame f =>
    let d := (p.lastMs + (f.receipt - p.t3)).tdiv 2
    if p.accepts f = true ∧ f.control = PTP1_CTRL_DELAY_RESP ∧ ¬ f.len < PTP1_HDR_LEN + PTP1_DELAY_RESP_BODY_LEN ∧
        f.reqUuid = p.uuid ∧ f.reqPortId = p.portId ∧ p.haveT3 = true ∧ p.haveMs = true ∧ 0 ≤ d ∧ d ≤ 10000000 then
      some d.toNat
    else none
  | .tick _ _ => none

theorem path_applyServo (p : Ptp D) (o : ℤ) : p.path.Kept (applyServo A p o).path := by
  simp only [applyServo]
  split_ifs <;> first | exact Or.inr rfl | exact Or.inl rfl

theorem path_acquire (p : Ptp D) (raw : ℤ) : p.path.Kept (acquire A p raw).path := by
  simp only [acquire]
  split_ifs
  · -- the frequency is estimated: the samples from before are dropped
    right
    rcases path_applyServo A { p with snapped := false } raw with h | h
    · exact congrArg (fun a : PathAvg => { a with acc := 0, n := 0 }) h
    · exact congrArg (fun a : PathAvg => { a with acc := 0, n := 0 }) h
  · exact path_applyServo A { p with snapped := false } raw
  · exact Or.inl rfl
  · exact path_applyServo A { p with snapped := true } _
  · exact path_applyServo A p _
  · exact path_applyServo A p _
  · exact Or.inl rfl

theorem path_computeOffset (p : Ptp D) : p.path.Kept (computeOffset A p).path := by
  simp only [computeOffset]
  split_ifs
  · exact .refl _
  · exact path_acquire A { p with lastMs := _, haveMs := true, out := _ } _

theorem path_handleSync (p : Ptp D) (f : EthTsPtpFrame) : p.path.Kept (handleSync A p f).path := by
  simp only [handleSync]
  split_ifs <;> first | exact .refl _ | exact path_computeOffset A _

theorem path_handleFollowup (p : Ptp D) (f : EthTsPtpFrame) : p.path.Kept (handleFollowup A p f).path := by
  simp only [handleFollowup]
  split_ifs <;> first | exact .refl _ | exact path_computeOffset A _

theorem path_ptpTaskTick (p : Ptp D) (now : ℤ) (tx : Option EthTsTime) : (ptpTaskTick p now tx).path = p.path := by
  simp only [ptpTaskTick, sendDelayReq]
  cases tx <;> split_ifs <;> rfl

def PathAvg.sampled (a : PathAvg) (d : ℤ) : PathAvg :=
  let acc := a.acc + d
  let n := u32 (a.n + 1)
  if n ≥ PD_MIN_SAMPLES then
    if n > 16 then ⟨acc.tdiv 2, n / 2, acc.tdiv n⟩ else ⟨acc, n, acc.tdiv n⟩
  else ⟨acc, n, a.mean⟩

theorem path_pathDelayAdd (p : Ptp D) (d : ℤ) : (pathDelayAdd p d).path = p.path.sampled d := by
  simp only [pathDelayAdd, PathAvg.sampled, Ptp.path]
  by_cases h4 : u32 (p.pathDelayN + 1) ≥ PD_MIN_SAMPLES
  · rcases hf : p.servo.estDone && !p.pathFresh with _ | _ <;>
      by_cases h16 : u32 (p.pathDelayN + 1) > 16 <;>
      simp [h4, h16]
  · simp [h4]

theorem path_handleDelayResp {p : Ptp D} {f : EthTsPtpFrame} (ha : p.accepts f = true)
    (hc : f.control = PTP1_CTRL_DELAY_RESP) :
    (∃ d : ℕ, delaySample p (.frame f) = some d ∧ (handleDelayResp p f).path = p.path.sampled d) ∨
      (delaySample p (.frame f) = none ∧ (handleDelayResp p f).path = p.path) := by
  simp only [handleDelayResp]
  split_ifs with h1 h2 h3 h4 h5 h6
  · exact Or.inr ⟨by simp [delaySample, h1], rfl⟩
  · exact Or.inr ⟨by simp [delaySample, h2], rfl⟩
  · exact Or.inr ⟨by simp [delaySample, h3], rfl⟩
  · have h4 : p.haveT3 = false := by simpa using h4
    exact Or.inr ⟨by simp [delaySample, h4], rfl⟩
  · have h5 : p.haveMs = false := by simpa using h5
    exact Or.inr ⟨by simp [delaySample, h5], rfl⟩
  · refine Or.inr ⟨if_neg ?_, rfl⟩
    rintro ⟨-, -, -, -, -, -, -, h0, hmax⟩
    rcases h6 with h | h
    · exact absurd h0 (not_le.mpr h)
    · exact absurd hmax (not_le.mpr h)
  · rw [not_or, not_lt, not_lt] at h6
    have h4 : p.haveT3 = true := by simpa using h4
    have h5 : p.haveMs = true := by simpa using h5
    refine Or.inl ⟨_, if_pos ⟨ha, hc, h1, not_not.mp h2, not_not.mp h3, h4, h5, h6.1, h6.2⟩, ?_⟩
    rw [path_pathDelayAdd, Int.toNat_of_nonneg h6.1]
    rfl

theorem ptpStep_path (p : Ptp D) (e : PtpEvent) :
    (∃ d : ℕ, delaySample p e = some d ∧ (ptpStep A p e).path = p.path.sampled d) ∨
      (delaySample p e = none ∧ p.path.Kept (ptpStep A p e).path) := by
  cases e with
  | tick now tx => exact Or.inr ⟨rfl, Or.inl (path_ptpTaskTick p now tx)⟩
  | frame f =>
    have hoth : ∀ {q : Ptp D}, f.control ≠ PTP1_CTRL_DELAY_RESP → p.path.Kept q.path →
        (∃ d : ℕ, delaySample p (.frame f) = some d ∧ q.path = p.path.sampled d) ∨
          (delaySample p (.frame f) = none ∧ p.path.Kept q.path) := fun hc h =>
      Or.inr ⟨if_neg fun hs => hc hs.2.1, h⟩
    simp only [ptpStep, ptpTaskFrame]
    split_ifs with ha hs hf hd
    · exact hoth (by rw [hs]; decide) (path_handleSync A p f)
    · exact hoth (by rw [hf]; decide) (path_handleFollowup A p f)
    · rcases path_handleDelayResp ha hd with h | ⟨h1, h2⟩
      · exact Or.inl h
      · exact Or.inr ⟨h1, Or.inl h2⟩
    · exact hoth hd (Or.inl rfl)
    · exact Or.inr ⟨if_neg fun hs => ha hs.1, Or.inl rfl⟩

/-- The slave, with the samples accepted since its sum was last cleared. -/
structure PathRun (D : Type) where
  p : Ptp D
  samples : List ℕ

def PathRun.step (r : PathRun D) (e : PtpEvent) : PathRun D where
  p := ptpStep A r.p e
  samples :=
    match delaySample r.p e with
    | some d => r.samples ++ [d]
    | none => if (ptpStep A r.p e).pathDelayN = 0 then [] else r.samples

def pathRunAt (mac : List UInt8) (l : List PtpEvent) (k : ℕ) : PathRun D :=
  before (PathRun.step A) ⟨ptpv1Start A mac, []⟩ l k

theorem pathRunAt_p (mac : List UInt8) (l : List PtpEvent) (k : ℕ) : (pathRunAt A mac l k).p = ptpAt A mac l k := by
  have hfold : ∀ (l : List PtpEvent) (r : PathRun D),
      (l.foldl (PathRun.step A) r).p = l.foldl (ptpStep A) r.p := by
    intro l
    induction l with
    | nil => exact fun _ => rfl
    | cons e l ih => exact fun r => ih (r.step A e)
  exact hfold _ _

/-- The samples a limit of sixteen has halved by `k`. -/
def slides (k : ℕ) : ℕ := (k - 8) / 9

theorem slid_sixteen (k : ℕ) : slidCount 16 k = k - 9 * slides k ∧ halvings 16 k = slides k := by
  induction k with
  | zero => exact ⟨rfl, rfl⟩
  | succ k ih =>
    obtain ⟨hc, hh⟩ := ih
    rw [slidCount, halvings, hc, hh]
    rcases Nat.lt_or_ge 16 (k - 9 * slides k + 1) with h | h
    · rw [if_pos h, if_pos h]
      simp only [slides] at h ⊢
      omega
    · rw [if_neg h.not_gt, if_neg h.not_gt]
      simp only [slides] at h ⊢
      omega

/-- The average is that of the samples, slid at sixteen. -/
structure Averages (r : PathRun D) : Prop where
  acc : r.p.pathDelayAcc = ((Sliding.after 16 r.samples).acc : ℤ)
  n : r.p.pathDelayN = (Sliding.after 16 r.samples).n

theorem after_concat (w : ℕ) (l : List ℕ) (d : ℕ) :
    Sliding.after w (l ++ [d]) = ((Sliding.after w l).add d).slide w := by
  rw [Sliding.after, List.foldl_concat, Sliding.after]

theorem after_n_le (l : List ℕ) : (Sliding.after 16 l).n ≤ 16 := by
  rw [after_eq]
  exact slidCount_le 16 l.length

theorem sampled_eq {a : PathAvg} {s : Sliding} (hacc : a.acc = s.acc) (hn : a.n = s.n) (hle : s.n ≤ 16) (d : ℕ) :
    a.sampled d = ⟨((s.add d).slide 16).acc, ((s.add d).slide 16).n,
      if 4 ≤ s.n + 1 then ((s.add d).mean : ℤ) else a.mean⟩ := by
  have hu : u32 (a.n + 1) = s.n + 1 := by
    rw [hn, u32]
    omega
  have hsum : a.acc + d = ((s.acc + d : ℕ) : ℤ) := by
    rw [hacc]
    push_cast
    ring
  simp only [PathAvg.sampled, hu, hsum, PD_MIN_SAMPLES, Sliding.slide, Sliding.add, Sliding.mean]
  by_cases h4 : 4 ≤ s.n + 1
  · by_cases h16 : 16 < s.n + 1
    · simp only [ge_iff_le, gt_iff_lt, h4, h16, if_true, PathAvg.mk.injEq]
      exact ⟨(Int.ofNat_tdiv _ _).symm, trivial, (Int.ofNat_tdiv _ _).symm⟩
    · simp only [ge_iff_le, gt_iff_lt, h4, h16, if_true, if_false, PathAvg.mk.injEq]
      exact ⟨trivial, trivial, (Int.ofNat_tdiv _ _).symm⟩
  · have h16 : ¬ 16 < s.n + 1 := by omega
    simp [h4, h16]

theorem averages_start (mac : List UInt8) : Averages (⟨ptpv1Start A mac, []⟩ : PathRun D) := ⟨rfl, rfl⟩

theorem Averages.step {r : PathRun D} (h : Averages r) (e : PtpEvent) : Averages (r.step A e) := by
  rcases ptpStep_path A r.p e with ⟨d, hd, hp⟩ | ⟨hd, hk⟩
  · rw [sampled_eq h.acc h.n (after_n_le r.samples), ← after_concat] at hp
    have hs : (r.step A e).samples = r.samples ++ [d] := by simp only [PathRun.step, hd]
    exact ⟨by rw [hs]; exact congrArg PathAvg.acc hp, by rw [hs]; exact congrArg PathAvg.n hp⟩
  · rcases hk with hk | hk
    · have hacc : (ptpStep A r.p e).pathDelayAcc = r.p.pathDelayAcc := congrArg PathAvg.acc hk
      have hn : (ptpStep A r.p e).pathDelayN = r.p.pathDelayN := congrArg PathAvg.n hk
      have hs : (r.step A e).samples = r.samples := by
        simp only [PathRun.step, hd]
        split_ifs with h0
        · -- nothing was counted, so nothing was taken
          rw [hn, h.n, after_eq] at h0
          have hcount := (slid_sixteen r.samples.length).1
          simp only [slides] at hcount
          have hlen : r.samples.length = 0 := by
            simp only at h0
            omega
          exact (List.length_eq_zero_iff.mp hlen).symm
        · rfl
      exact ⟨by rw [hs]; exact hacc.trans h.acc, by rw [hs]; exact hn.trans h.n⟩
    · have hacc : (ptpStep A r.p e).pathDelayAcc = 0 := congrArg PathAvg.acc hk
      have hn : (ptpStep A r.p e).pathDelayN = 0 := congrArg PathAvg.n hk
      have hs : (r.step A e).samples = [] := by simp only [PathRun.step, hd, hn, if_true]
      exact ⟨by rw [hs]; exact hacc, by rw [hs]; exact hn⟩

theorem averages_run (mac : List UInt8) (l : List PtpEvent) {k : ℕ} (hk : k ≤ l.length) :
    Averages (pathRunAt A mac l k) :=
  guarded_run (PathRun.step A) (P := fun _ r => Averages r) (G := fun _ _ _ => True) (averages_start A mac)
    (fun _ _ e h _ => h.step A e) (fun _ _ => trivial) hk

def InRange (samples : List ℕ) (mean : ℤ) : Prop := (∃ x ∈ samples, (x : ℤ) ≤ mean) ∧ ∃ x ∈ samples, mean ≤ x

/-- The samples, weighed by the slides before each and scaled by those before the last,
fit below the largest of them: `k` samples are counted as nine less for every slide. -/
def Unbiased (samples : List ℕ) : Prop :=
  ∃ x ∈ samples, (samples.mapIdx fun i d => 2 ^ slides i * d).sum <
    2 ^ slides (samples.length - 1) * ((x + 1) * (samples.length - 9 * slides (samples.length - 1)))

instance (samples : List ℕ) (mean : ℤ) : Decidable (InRange samples mean) := inferInstanceAs (Decidable (_ ∧ _))

instance (samples : List ℕ) : Decidable (Unbiased samples) := inferInstanceAs (Decidable (∃ x ∈ samples, _))

theorem unbiased_eq (samples : List ℕ) :
    Unbiased samples ↔ ∃ x ∈ samples, weighted 16 samples <
      2 ^ slides (samples.length - 1) * ((x + 1) * (samples.length - 9 * slides (samples.length - 1))) := by
  simp only [Unbiased, weighted, (slid_sixteen _).2]

theorem inRange_iff (l : List ℕ) (d : ℕ) :
    InRange (l ++ [d]) (((Sliding.after 16 l).add d).mean : ℤ) ↔ Unbiased (l ++ [d]) := by
  have hlow : ∃ x ∈ l ++ [d], (x : ℤ) ≤ (((Sliding.after 16 l).add d).mean : ℤ) := by
    by_contra hno
    push Not at hno
    have := le_mean 16 (l := l) (d := d) (m := ((Sliding.after 16 l).add d).mean + 1) fun x hx => by
      have := hno x hx
      omega
    omega
  have hlen : (l ++ [d]).length - 1 = l.length := by simp
  have hcount : slidCount 16 l.length + 1 = (l ++ [d]).length - 9 * slides l.length := by
    rw [(slid_sixteen l.length).1, List.length_append, List.length_singleton, slides]
    omega
  rw [InRange, and_iff_right hlow, unbiased_eq]
  simp only [hlen, Nat.cast_le, mean_le_iff, hcount, (slid_sixteen _).2]

theorem four_le_iff (l : List ℕ) : 4 ≤ (Sliding.after 16 l).n + 1 ↔ 3 ≤ l.length := by
  have hcount := (slid_sixteen l.length).1
  rw [after_eq]
  simp only [slides] at hcount ⊢
  omega

theorem mean_sampled {mac : List UInt8} {l : List PtpEvent} {k d : ℕ} (hk : k ≤ l.length) {p : Ptp D}
    (hp : p.path = (ptpAt A mac l k).path.sampled d) :
    p.g.meanPathDelayNs =
      if 3 ≤ (pathRunAt A mac l k).samples.length then (((Sliding.after 16 (pathRunAt A mac l k).samples).add d).mean : ℤ)
      else (ptpAt A mac l k).g.meanPathDelayNs := by
  have h := averages_run A mac l hk
  have hacc := h.acc
  have hn := h.n
  rw [pathRunAt_p] at hacc hn
  rw [sampled_eq hacc hn (after_n_le _)] at hp
  have hmean := congrArg PathAvg.mean hp
  simp only [four_le_iff] at hmean
  exact hmean

/-- Whatever reaches the slave: a mean is written on the fourth and every later sample
since the sum was cleared, and on nothing else, and it lies between the smallest and the
largest of these samples just when they are unbiased. -/
theorem path_delay_in_range_iff (mac : List UInt8) (l : List PtpEvent) :
    ∀ k (hk : k < l.length),
      (∀ d, delaySample (ptpAt A mac l k) l[k] = some d → 3 ≤ (pathRunAt A mac l k).samples.length →
        (InRange (pathRunAt A mac l (k + 1)).samples (ptpAt A mac l (k + 1)).g.meanPathDelayNs ↔
          Unbiased (pathRunAt A mac l (k + 1)).samples)) ∧
      (delaySample (ptpAt A mac l k) l[k] = none ∨ (pathRunAt A mac l k).samples.length < 3 →
        (ptpAt A mac l (k + 1)).g.meanPathDelayNs = (ptpAt A mac l k).g.meanPathDelayNs) := by
  intro k hk
  have hnext : ptpAt A mac l (k + 1) = ptpStep A (ptpAt A mac l k) l[k] := before_succ _ _ _ hk
  have hrnext : pathRunAt A mac l (k + 1) = (pathRunAt A mac l k).step A l[k] := before_succ _ _ _ hk
  refine ⟨fun d hd h3 => ?_, fun hno => ?_⟩
  · have hsamples : (pathRunAt A mac l (k + 1)).samples = (pathRunAt A mac l k).samples ++ [d] := by
      rw [hrnext]
      simp only [PathRun.step, pathRunAt_p, hd]
    rcases ptpStep_path A (ptpAt A mac l k) l[k] with ⟨d', hd', hpath⟩ | ⟨hnone, -⟩
    · obtain rfl : d = d' := Option.some.inj (hd.symm.trans hd')
      rw [hsamples, hnext, mean_sampled A hk.le hpath, if_pos h3]
      exact inRange_iff _ d
    · rw [hnone] at hd
      exact absurd hd (by simp)
  · rw [hnext]
    rcases ptpStep_path A (ptpAt A mac l k) l[k] with ⟨d, hd, hpath⟩ | ⟨-, hpath | hpath⟩
    · rcases hno with hnone | hlt
      · rw [hnone] at hd
        exact absurd hd (by simp)
      · rw [mean_sampled A hk.le hpath, if_neg (by omega)]
    · exact congrArg PathAvg.mean hpath
    · exact congrArg PathAvg.mean hpath

/-- Up to seventeen samples nothing has slid. -/
theorem unbiased_of_few {samples : List ℕ} (h0 : samples ≠ []) (h : samples.length ≤ 17) : Unbiased samples := by
  have hlen : 0 < samples.length := List.length_pos_iff.mpr h0
  have hweight : ∀ k ≤ 17, weight 16 k = k := by decide
  have hslides : slides (samples.length - 1) = 0 := by
    simp only [slides]
    omega
  obtain ⟨x, hx, hmax⟩ : ∃ x ∈ samples, ∀ y ∈ samples, y ≤ x := by
    obtain ⟨x, hx, hmax⟩ := samples.toFinset.exists_max_image id ⟨samples.head h0, by simp⟩
    exact ⟨x, List.mem_toFinset.mp hx, fun y hy => hmax y (List.mem_toFinset.mpr hy)⟩
  refine (unbiased_eq samples).mpr ⟨x, hx, ?_⟩
  calc weighted 16 samples
      ≤ weight 16 samples.length * x := weighted_le 16 hmax
    _ = samples.length * x := by rw [hweight _ h]
    _ < samples.length * x + samples.length := Nat.lt_add_of_pos_right hlen
    _ = _ := by
      rw [hslides, pow_zero, Nat.mul_zero, Nat.sub_zero, one_mul]
      ring

/-- From the first slide on the weight is at least half a sample above the count. -/
theorem count_lt_weight {k : ℕ} (hk : 17 ≤ k) : (2 * slidCount 16 k + 1) * 2 ^ halvings 16 k ≤ 2 * weight 16 k := by
  induction k, hk using Nat.le_induction with
  | base => decide
  | succ k hk ih =>
    have hle := slidCount_le 16 k
    rw [slidCount, halvings, weight]
    split_ifs with h
    · -- seventeen counts as eight, and half a sample is gained over halving the excess
      have hc : slidCount 16 k = 16 := by omega
      rw [hc] at ih ⊢
      rw [pow_succ]
      omega
    · calc (2 * (slidCount 16 k + 1) + 1) * 2 ^ halvings 16 k
          = (2 * slidCount 16 k + 1) * 2 ^ halvings 16 k + 2 * 2 ^ halvings 16 k := by ring
        _ ≤ 2 * weight 16 k + 2 * 2 ^ halvings 16 k := Nat.add_le_add_right ih _
        _ = 2 * (weight 16 k + 2 ^ halvings 16 k) := by ring

/-- A path whose samples are all equal, and at least 34 ns, is read too long from the
eighteenth sample on. -/
theorem equal_samples_biased {samples : List ℕ} {d : ℕ} (h : ∀ x ∈ samples, x = d) (hlen : 18 ≤ samples.length)
    (hd : 34 ≤ d) : ¬ Unbiased samples := by
  rw [unbiased_eq]
  rintro ⟨x, hx, hlt⟩
  obtain ⟨k, hk⟩ : ∃ k, samples.length = k + 1 := ⟨samples.length - 1, by omega⟩
  have hge := le_weighted 16 (l := samples) (m := d) fun y hy => (h y hy).ge
  have hw := count_lt_weight (k := k) (by omega)
  have hc := (slid_sixteen k).1
  have hle := slidCount_le 16 k
  have hn : k + 1 - 9 * slides k = slidCount 16 k + 1 := by
    rw [hc, slides]
    omega
  rw [h x hx, hk, Nat.add_sub_cancel, hn, ← (slid_sixteen k).2] at hlt
  rw [hk, weight] at hge
  set c := slidCount 16 k
  set s := 2 ^ halvings 16 k
  have hroom : 2 * (d + 1) * (c + 1) ≤ d * (2 * c + 1) + 2 * d := by nlinarith
  have hlow : 2 * (s * ((d + 1) * (c + 1))) ≤ 2 * ((weight 16 k + s) * d) := by
    calc 2 * (s * ((d + 1) * (c + 1))) = s * (2 * (d + 1) * (c + 1)) := by ring
      _ ≤ s * (d * (2 * c + 1) + 2 * d) := Nat.mul_le_mul_left _ hroom
      _ = (2 * c + 1) * s * d + 2 * s * d := by ring
      _ ≤ 2 * weight 16 k * d + 2 * s * d := Nat.add_le_add_right (Nat.mul_le_mul_right _ hw) _
      _ = 2 * ((weight 16 k + s) * d) := by ring
  omega

/-- A Delay_Resp to our own request, received 24 us after zero. -/
def delayRespOf (src : UInt8) : PtpEvent :=
  .frame ⟨headerOf src 0 3 0 ++ [0, 0, 0, 0, 0, 0, 0x5D, 0xC0, 0, 0] ++ ownMac ++ [0, 1, 0, 0], PTP1_GENERAL_PORT,
    ⟨0, 0⟩, false⟩

/-- One Sync that took 24 us, then `n` requests that took 24 us each. -/
def steadyPath (n : ℕ) : List PtpEvent :=
  [syncOf 1 7 24000, followupOf 1 7 0] ++
    (List.range n).flatMap fun j => [.tick (j * 4000000) (some ⟨0, 0⟩), delayRespOf 1]

theorem path_delay_in_range_iff_four :
    InRange (pathRunAt flatDbl ownMac (steadyPath 4) (9 + 1)).samples
      (ptpAt flatDbl ownMac (steadyPath 4) (9 + 1)).g.meanPathDelayNs :=
  ((path_delay_in_range_iff flatDbl ownMac (steadyPath 4) 9 (by decide)).1 24000 (by decide +kernel)
    (by decide +kernel)).mpr (by decide +kernel)

/-- Eighteen equal samples of 24000 ns are averaged to 25333 ns. -/
theorem steady_path_read_long :
    (pathRunAt flatDbl ownMac (steadyPath 18) 38).samples = List.replicate 18 24000 ∧
      (ptpAt flatDbl ownMac (steadyPath 18) 38).g.meanPathDelayNs = 25333 ∧
      ¬ InRange (pathRunAt flatDbl ownMac (steadyPath 18) 38).samples
        (ptpAt flatDbl ownMac (steadyPath 18) 38).g.meanPathDelayNs := by
  decide +kernel

end Inferno
