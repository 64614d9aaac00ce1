import Inferno.Lib.LeastSquares
import Inferno.Proofs.Jumps
import Inferno.Proofs.ServoRate

/-! The frequency pre-estimate in exact arithmetic, from a (re)start on. Its count is a
byte, so the calls fall into blocks of 256: every block is a regression of its own, and the
estimate ends with the first call that is late enough in its block. -/

namespace Inferno

open Lib

/-- The servo as a reset or a coarse step leaves the estimate. -/
structure Restarted {D : Type} (s : PtpServo D) : Prop where
  done : s.estDone = false
  n : s.estN = 0

theorem restarted_init {D : Type} (A : Dbl D) : Restarted (ptpServoInit A) := ⟨rfl, rfl⟩

theorem restarted_coarse {D : Type} (A : Dbl D) (s : PtpServo D) {c : ServoCall} (hc : c.coarse) :
    Restarted (servoStep A s c) := by
  unfold ServoCall.coarse at hc
  simp only [servoStep, ptpServoUpdate, if_pos hc]
  exact ⟨rfl, rfl⟩

def fitAt (s : PtpServo ℚ) (l : List ServoCall) (k : ℕ) : PtpServo ℚ := before (servoStep Dbl.exact) s l k

theorem fitAt_succ (s : PtpServo ℚ) (l : List ServoCall) {k : ℕ} (hk : k < l.length) :
    fitAt s l (k + 1) = servoStep Dbl.exact (fitAt s l k) l[k] :=
  before_succ (servoStep Dbl.exact) s l hk

/-- The point of the regression that a Sync makes, seen from the first one. -/
def fitPoint (c₀ c : ServoCall) : ℚ × ℚ :=
  (((c.tNs - c₀.tNs : ℤ) : ℚ) * (1 / 1000000000), ((c.offsetNs - c₀.offsetNs : ℤ) : ℚ))

def fitSums (blk : List ServoCall) : Sums ℚ :=
  match blk with
  | [] => Sums.zero
  | c₀ :: _ => Sums.of (blk.map (fitPoint c₀))

def fitSlope (blk : List ServoCall) : ℚ := (fitSums blk).num / (fitSums blk).den

/-- What the estimate holds after the calls of a block, none of which ended it. -/
structure Measuring (p : ℤ) (blk : List ServoCall) (s : PtpServo ℚ) : Prop where
  done : s.estDone = false
  n : s.estN = blk.length
  applied : s.appliedPpb = p
  first : ∀ c₀, blk.head? = some c₀ → s.estT0Ns = c₀.tNs ∧ s.estOff0Ns = c₀.offsetNs
  sums : blk ≠ [] → fitSums blk = ⟨blk.length, s.estSx, s.estSy, s.estSxx, s.estSxy⟩

theorem Restarted.measuring {s : PtpServo ℚ} (h : Restarted s) : Measuring s.appliedPpb [] s :=
  ⟨h.done, h.n, rfl, fun _ h => (by cases h), fun h => absurd rfl h⟩

/-- The call finds the count and the span of its block large enough. -/
def Fills (blk : List ServoCall) (c : ServoCall) : Prop :=
  EST_MIN_N ≤ u8 (blk.length + 1) ∧ EST_MIN_NS ≤ c.tNs - (blk.headD c).tNs

instance (blk : List ServoCall) (c : ServoCall) : Decidable (Fills blk c) := inferInstanceAs (Decidable (_ ∧ _))

section
variable {p : ℤ} {blk : List ServoCall} {c : ServoCall} {s : PtpServo ℚ}

theorem fitSums_concat (blk : List ServoCall) (c : ServoCall) :
    fitSums (blk ++ [c]) = (fitSums blk).add (fitPoint (blk.headD c) c) := by
  cases blk with
  | nil => rfl
  | cons c₀ blk =>
    rw [List.cons_append, fitSums, ← List.cons_append, List.map_append]
    exact Sums.of_concat _ _

theorem estimateAdd_spec (h : Measuring p blk s) :
    let s' := estimateAdd Dbl.exact s c.offsetNs c.tNs
    s'.estDone = false ∧ s'.estN = u8 (blk.length + 1) ∧ s'.appliedPpb = p ∧ s'.estT0Ns = (blk.headD c).tNs ∧
      s'.estOff0Ns = (blk.headD c).offsetNs ∧
      fitSums (blk ++ [c]) = ⟨blk.length + 1, s'.estSx, s'.estSy, s'.estSxx, s'.estSxy⟩ := by
  have hn := h.n
  rw [fitSums_concat]
  cases blk with
  | nil =>
    have h0 : s.estN = 0 := hn
    simp only [estimateAdd, if_pos h0]
    refine ⟨h.done, by rw [h0]; rfl, h.applied, rfl, rfl, ?_⟩
    rfl
  | cons c₀ blk =>
    have h0 : ¬ s.estN = 0 := by
      rw [hn]
      exact Nat.succ_ne_zero _
    obtain ⟨ht, ho⟩ := h.first c₀ rfl
    have hs := h.sums (List.cons_ne_nil _ _)
    simp only [estimateAdd, if_neg h0]
    refine ⟨h.done, by rw [hn], h.applied, ht, ho, ?_⟩
    rw [hs, ht, ho]
    rfl

theorem Measuring.entry (h : Measuring p blk s) (c : ServoCall) (o : ℤ) :
    Measuring p blk { c.entry s with offsetNs := o } := by
  unfold ServoCall.entry
  split_ifs <;> exact ⟨h.done, h.n, h.applied, h.first, h.sums⟩

theorem servoStep_measuring (h : Measuring p blk s) (hc : ¬ c.coarse) :
    servoStep Dbl.exact s c = estimate Dbl.exact { c.entry s with offsetNs := c.offsetNs } c.offsetNs c.tNs := by
  unfold ServoCall.coarse at hc
  simp only [servoStep, ptpServoUpdate, if_neg hc, estDone_entry, h.done, Bool.not_false, if_true]

theorem fitSums_den_pos (hne : blk ≠ []) (ht : ∀ b ∈ blk, b.tNs < c.tNs) : 0 < (fitSums (blk ++ [c])).den := by
  obtain ⟨c₀, l, rfl⟩ := List.exists_cons_of_ne_nil hne
  have hlt := ht c₀ List.mem_cons_self
  rw [List.cons_append, fitSums, ← List.cons_append, List.map_append]
  refine Sums.den_pos (q := fitPoint c₀ c₀) (List.mem_map_of_mem List.mem_cons_self) ?_
  simp only [fitPoint, sub_self, Int.cast_zero, zero_mul, ne_eq]
  have hpos : ((c.tNs - c₀.tNs : ℤ) : ℚ) ≠ 0 := by
    rw [Int.cast_ne_zero]
    omega
  exact fun h0 => mul_ne_zero hpos (by norm_num) h0.symm

/-- What the call that ends the estimate leaves. -/
structure Finished (p : ℤ) (blk : List ServoCall) (s : PtpServo ℚ) : Prop where
  done : s.estDone = true
  rate : s.ratePpb = clamp (-100000) 100000 (p - Dbl.exact.toInt (fitSlope blk))
  integral : s.integralNs = seed KI_ACQ_NUM KI_DEN s.ratePpb
  applied : s.appliedPpb = s.ratePpb

/-- A call either ends the estimate with the slope of its block, or goes on; the 256th of a
block that did not end it leaves the count at zero, and a new block starts. -/
theorem measuring_call (h : Measuring p blk s) (hlen : blk.length < 256) (hc : ¬ c.coarse)
    (ht : ∀ b ∈ blk, b.tNs < c.tNs) :
    (Fills blk c → Finished p (blk ++ [c]) (servoStep Dbl.exact s c)) ∧
    (¬ Fills blk c → Measuring p (if blk.length = 255 then [] else blk ++ [c]) (servoStep Dbl.exact s c)) := by
  rw [servoStep_measuring h hc]
  have he := h.entry c c.offsetNs
  set e : PtpServo ℚ := { c.entry s with offsetNs := c.offsetNs }
  obtain ⟨hd, hn, hp, ht0, ho0, hs⟩ := estimateAdd_spec (c := c) he
  set a := estimateAdd Dbl.exact e c.offsetNs c.tNs with ha
  constructor
  · rintro ⟨hfull, hspan⟩
    have hne : blk ≠ [] := by
      rintro rfl
      exact absurd hfull (by decide)
    have hcount : u8 (blk.length + 1) = blk.length + 1 := by
      simp only [EST_MIN_N, u8] at hfull ⊢
      omega
    have hgo : ¬ (c.tNs - a.estT0Ns < EST_MIN_NS ∨ a.estN < EST_MIN_N) := by
      rw [ht0, hn]
      exact not_or.mpr ⟨not_lt.mpr hspan, not_lt.mpr hfull⟩
    have hden : estimateDen Dbl.exact a = (fitSums (blk ++ [c])).den := by
      rw [hs]
      simp only [estimateDen, Dbl.exact, Sums.den, hn, hcount, Int.cast_natCast]
    have hnum : Dbl.exact.sub (Dbl.exact.mul (Dbl.exact.ofInt a.estN) a.estSxy) (Dbl.exact.mul a.estSx a.estSy) =
        (fitSums (blk ++ [c])).num := by
      rw [hs]
      simp only [Dbl.exact, Sums.num, hn, hcount, Int.cast_natCast]
    have hslope : estimateSlope Dbl.exact a = fitSlope (blk ++ [c]) := by
      rw [estimateSlope, hnum, hden]
      rfl
    have hpos : Dbl.exact.nonpos (estimateDen Dbl.exact a) = false := by
      rw [hden]
      exact decide_eq_false (not_le.mpr (fitSums_den_pos hne ht))
    simp only [estimate, ← ha, if_neg hgo, hpos, Bool.false_eq_true, if_false, hslope, hp]
    exact ⟨rfl, rfl, rfl, rfl⟩
  · intro hnot
    have hstop : c.tNs - a.estT0Ns < EST_MIN_NS ∨ a.estN < EST_MIN_N := by
      rw [ht0, hn]
      simp only [Fills] at hnot
      omega
    simp only [estimate, ← ha, if_pos hstop]
    split_ifs with h255
    · exact ⟨hd, by rw [hn, h255]; rfl, hp, fun _ h => (by cases h), fun h => absurd rfl h⟩
    · have hcount : u8 (blk.length + 1) = blk.length + 1 := by
        simp only [u8]
        omega
      refine ⟨hd, by rw [hn, hcount, List.length_append, List.length_singleton], hp, fun c₀ hc₀ => ?_, fun _ => ?_⟩
      · have hfirst : blk.headD c = c₀ := by
          cases blk with
          | nil => exact Option.some.inj hc₀
          | cons b l => exact Option.some.inj hc₀
        exact hfirst ▸ ⟨ht0, ho0⟩
      · rw [hs, List.length_append, List.length_singleton]

end

theorem estDone_stays {D : Type} (A : Dbl D) {s : PtpServo D} {c : ServoCall} (hd : s.estDone = true)
    (hc : ¬ c.coarse) : (servoStep A s c).estDone = true :=
  estDone_update A ((estDone_entry c s).trans hd) hc

/-- The calls of the block under way before call `k`. -/
def blockOf (l : List ServoCall) (k : ℕ) : List ServoCall := (l.take k).drop (256 * (k / 256))

/-- Call `k` is late enough in its block to end the estimate. -/
def Caught (l : List ServoCall) (k : ℕ) : Prop :=
  EST_MIN_N ≤ u8 (k + 1) ∧ EST_MIN_NS ≤ timeAt l k - timeAt l (256 * (k / 256))

section
variable {l : List ServoCall} {k : ℕ}

theorem blockOf_length (hk : k ≤ l.length) : (blockOf l k).length = k % 256 := by
  rw [blockOf, List.length_drop, List.length_take]
  omega

theorem blockOf_succ (hk : k < l.length) :
    blockOf l (k + 1) = if (blockOf l k).length = 255 then [] else blockOf l k ++ [l[k]] := by
  rw [blockOf_length hk.le]
  split_ifs with h255
  · exact List.drop_eq_nil_of_le (by rw [List.length_take]; omega)
  · have hsame : (k + 1) / 256 = k / 256 := by omega
    have hle : 256 * (k / 256) ≤ (l.take k).length := by
      rw [List.length_take]
      omega
    rw [blockOf, hsame, ← List.take_concat_get' l k hk, List.drop_append_of_le_length hle, blockOf]

theorem blockOf_first (hk : k < l.length) : ((blockOf l k).headD l[k]).tNs = timeAt l (256 * (k / 256)) := by
  have hstart : 256 * (k / 256) < l.length := by omega
  rw [timeAt_eq hstart, List.headD_eq_head?_getD, blockOf, List.head?_drop]
  by_cases h0 : 256 * (k / 256) < k
  · rw [List.getElem?_take_of_lt h0, List.getElem?_eq_getElem hstart, Option.getD_some]
  · have heq : 256 * (k / 256) = k := by omega
    rw [List.getElem?_eq_none (by rw [List.length_take]; omega), Option.getD_none]
    simp only [heq]

theorem fills_iff (hk : k < l.length) : Fills (blockOf l k) l[k] ↔ Caught l k := by
  have hcount : u8 (k % 256 + 1) = u8 (k + 1) := by
    simp only [u8]
    omega
  rw [Fills, Caught, blockOf_length hk.le, hcount, blockOf_first hk, timeAt_eq hk]

theorem mem_of_blockOf {c : ServoCall} (hc : c ∈ blockOf l k) : ∃ i, ∃ hi : i < l.length, i < k ∧ l[i] = c := by
  obtain ⟨i, hi, rfl⟩ := List.getElem_of_mem (List.mem_of_mem_drop hc)
  rw [List.length_take] at hi
  exact ⟨i, by omega, by omega, by rw [List.getElem_take]⟩

theorem not_coarse_of_near {c : ServoCall} (h : |c.offsetNs| ≤ PS_STEP_NS) : ¬ c.coarse := by
  rw [abs_le] at h
  unfold ServoCall.coarse
  omega

/-- A call of a run whose Syncs come in order, none of them a coarse step. -/
theorem fitAt_call {p : ℤ} {s : PtpServo ℚ} (ht : l.Pairwise fun a b => a.tNs < b.tNs)
    (hnear : ∀ c ∈ l, |c.offsetNs| ≤ PS_STEP_NS) (hk : k < l.length) (hm : Measuring p (blockOf l k) (fitAt s l k)) :
    (Caught l k → Finished p (blockOf l k ++ [l[k]]) (fitAt s l (k + 1))) ∧
      (¬ Caught l k → Measuring p (blockOf l (k + 1)) (fitAt s l (k + 1))) := by
  have hshort : (blockOf l k).length < 256 := by
    rw [blockOf_length hk.le]
    omega
  have hearlier : ∀ b ∈ blockOf l k, b.tNs < l[k].tNs := by
    intro b hb
    obtain ⟨i, hi, hik, rfl⟩ := mem_of_blockOf hb
    exact List.pairwise_iff_getElem.mp ht i k hi hk hik
  rw [← fills_iff hk, fitAt_succ s l hk, blockOf_succ hk]
  exact measuring_call hm hshort (not_coarse_of_near (hnear _ (List.getElem_mem hk))) hearlier

theorem fitAt_measuring {s : PtpServo ℚ} (hs : Restarted s) (ht : l.Pairwise fun a b => a.tNs < b.tNs)
    (hnear : ∀ c ∈ l, |c.offsetNs| ≤ PS_STEP_NS) (hk : k ≤ l.length) (h : ∀ i < k, ¬ Caught l i) :
    Measuring s.appliedPpb (blockOf l k) (fitAt s l k) := by
  induction k with
  | zero => exact hs.measuring
  | succ k ih =>
    have hm := ih (Nat.le_of_succ_le hk) fun i hi => h i (by omega)
    exact (fitAt_call ht hnear hk hm).2 (h k (Nat.lt_succ_self k))

theorem fitAt_finished {s : PtpServo ℚ} (hs : Restarted s) (ht : l.Pairwise fun a b => a.tNs < b.tNs)
    (hnear : ∀ c ∈ l, |c.offsetNs| ≤ PS_STEP_NS) (hk : k < l.length) (h : ∀ i < k, ¬ Caught l i) (hc : Caught l k) :
    Finished s.appliedPpb (blockOf l k ++ [l[k]]) (fitAt s l (k + 1)) := by
  have hm := fitAt_measuring hs ht hnear hk.le h
  exact (fitAt_call ht hnear hk hm).1 hc

theorem fitAt_done_iff {s : PtpServo ℚ} (hs : Restarted s) (ht : l.Pairwise fun a b => a.tNs < b.tNs)
    (hnear : ∀ c ∈ l, |c.offsetNs| ≤ PS_STEP_NS) (hk : k ≤ l.length) :
    (fitAt s l k).estDone = true ↔ ∃ i < k, Caught l i := by
  induction k with
  | zero =>
    have h0 : (fitAt s l 0).estDone = false := hs.done
    simp [h0]
  | succ k ih =>
    have hlt : k < l.length := hk
    by_cases hbefore : ∃ i < k, Caught l i
    · have hd := (ih hlt.le).mpr hbefore
      obtain ⟨i, hi, hc⟩ := hbefore
      have hstay := estDone_stays Dbl.exact hd (not_coarse_of_near (hnear _ (List.getElem_mem hlt)))
      rw [fitAt_succ s l hlt]
      exact iff_of_true hstay ⟨i, by omega, hc⟩
    · have hnone : ∀ i < k, ¬ Caught l i := fun i hi hc => hbefore ⟨i, hi, hc⟩
      by_cases hc : Caught l k
      · exact iff_of_true (fitAt_finished hs ht hnear hlt hnone hc).done ⟨k, Nat.lt_succ_self k, hc⟩
      · have hall : ∀ i < k + 1, ¬ Caught l i := fun i hi => by
          rcases Nat.lt_succ_iff_lt_or_eq.mp hi with hi | rfl
          · exact hnone i hi
          · exact hc
        have hd := (fitAt_measuring hs ht hnear hk hall).done
        simp only [hd, Bool.false_eq_true, false_iff, not_exists, not_and]
        exact hall

end

/-- The first `k + 1` calls are enough and span long enough for the estimate. -/
def Spanned (l : List ServoCall) (k : ℕ) : Prop := EST_MIN_N ≤ k + 1 ∧ EST_MIN_NS ≤ timeAt l k - timeAt l 0

instance (l : List ServoCall) (k : ℕ) : Decidable (Spanned l k) := inferInstanceAs (Decidable (_ ∧ _))

theorem Caught.spanned {l : List ServoCall} {k : ℕ} (h : Caught l k) (ht : l.Pairwise fun a b => a.tNs < b.tNs)
    (hk : k < l.length) : Spanned l k := by
  have hstart : 256 * (k / 256) < l.length := by omega
  have hmono := timeAt_mono (ht.imp fun hab => hab.le) (Nat.zero_le _) hstart
  obtain ⟨hn, hspan⟩ := h
  refine ⟨?_, by omega⟩
  simp only [u8] at hn
  omega

/-- Syncs of a clock that drifts by `b` ns/s, the last of which is the first to make twelve
calls over four seconds. -/
structure DriftingSyncs (b : ℚ) (l : List ServoCall) : Prop where
  few : l.length ≤ 255
  increasing : l.Pairwise fun c d => c.tNs < d.tNs
  near : ∀ c ∈ l, |c.offsetNs| ≤ PS_STEP_NS
  line : ∃ a : ℚ, ∀ c ∈ l, (c.offsetNs : ℚ) = a + b * (c.tNs * (1 / 1000000000))
  last : Spanned l (l.length - 1)
  first : ∀ k < l.length - 1, ¬ Spanned l k

theorem DriftingSyncs.slope {b : ℚ} {l : List ServoCall} (h : DriftingSyncs b l) : fitSlope l = b := by
  obtain ⟨a, hline⟩ := h.line
  have hn := h.last.1
  rw [EST_MIN_N] at hn
  have hne : l ≠ [] := by
    rintro rfl
    simp at hn
  obtain ⟨blk, c, rfl⟩ := List.eq_nil_or_concat' l |>.resolve_left hne
  have hblk : blk ≠ [] := by
    rintro rfl
    simp at hn
  have hden : 0 < (fitSums (blk ++ [c])).den := by
    refine fitSums_den_pos hblk fun d hd => ?_
    exact (List.pairwise_append.mp h.increasing).2.2 d hd c (by simp)
  have hnum : (fitSums (blk ++ [c])).num = b * (fitSums (blk ++ [c])).den := by
    obtain ⟨c₀, rest, rfl⟩ := List.exists_cons_of_ne_nil hblk
    refine Sums.num_of_line (a := 0) fun q hq => ?_
    obtain ⟨d, hd, rfl⟩ := List.mem_map.mp hq
    have hd0 := hline c₀ (by simp)
    have hd1 := hline d hd
    simp only [fitPoint, Int.cast_sub, hd0, hd1]
    ring
  rw [fitSlope, hnum, mul_div_assoc, div_self hden.ne', mul_one]

/-- On a drifting clock the exact estimate ends with the last of the Syncs and not before;
the rate it sets is the applied one less the drift, and the integral reads back as that
rate at the acquisition gain. -/
theorem estimate_exact {s : PtpServo ℚ} (hs : Restarted s) {b : ℚ} {l : List ServoCall} (h : DriftingSyncs b l) :
    (∀ k < l.length, (fitAt s l k).estDone = false) ∧ (fitAt s l l.length).estDone = true ∧
      (fitAt s l l.length).ratePpb = clamp (-100000) 100000 (s.appliedPpb - b.num.tdiv b.den) ∧
      readout KI_ACQ_NUM KI_DEN (fitAt s l l.length).integralNs = (fitAt s l l.length).ratePpb := by
  have hfew := h.few
  obtain ⟨hn, hspan⟩ := h.last
  rw [EST_MIN_N] at hn
  set k := l.length - 1 with hk
  have hlen : l.length = k + 1 := by omega
  have hlt : k < l.length := by omega
  have hblock : blockOf l k = l.take k := by
    rw [blockOf, show k / 256 = 0 by omega, Nat.mul_zero, List.drop_zero]
  have hnone : ∀ i < k, ¬ Caught l i := fun i hi hc => h.first i hi (hc.spanned h.increasing (by omega))
  have hcaught : Caught l k := by
    refine ⟨?_, ?_⟩
    · simp only [u8, EST_MIN_N]
      omega
    · rwa [show k / 256 = 0 by omega, Nat.mul_zero]
  have hfin := fitAt_finished hs h.increasing h.near hlt hnone hcaught
  have hall : l.take k ++ [l[k]] = l := by rw [List.take_concat_get' l k hlt, ← hlen, List.take_length]
  rw [hblock, hall, ← hlen] at hfin
  refine ⟨fun i hi => ?_, hfin.done, ?_, ?_⟩
  · exact (fitAt_measuring hs h.increasing h.near hi.le fun j hj => hnone j (by omega)).done
  · rw [hfin.rate, h.slope]
    rfl
  · rw [hfin.integral]
    exact readout_seed (by decide) (by decide) (by decide) _

/-- Twelve Syncs half a second apart of a clock that gains a microsecond a second. -/
def driftSyncs : List ServoCall := (List.range 12).map fun (k : ℕ) => ⟨false, 500 * k, 500000000 * (k + 1)⟩

theorem driftSyncs_drifting : DriftingSyncs 1000 driftSyncs where
  few := by decide
  increasing := by decide
  near := by decide
  line := ⟨-500, by decide +kernel⟩
  last := by decide
  first := by decide

theorem estimate_exact_microsecond :
    (∀ k < driftSyncs.length, (fitAt (ptpServoInit Dbl.exact) driftSyncs k).estDone = false) ∧
      (fitAt (ptpServoInit Dbl.exact) driftSyncs driftSyncs.length).estDone = true ∧
      (fitAt (ptpServoInit Dbl.exact) driftSyncs driftSyncs.length).ratePpb =
        clamp (-100000) 100000 (0 - (1000 : ℚ).num.tdiv (1000 : ℚ).den) ∧
      readout KI_ACQ_NUM KI_DEN (fitAt (ptpServoInit Dbl.exact) driftSyncs driftSyncs.length).integralNs =
        (fitAt (ptpServoInit Dbl.exact) driftSyncs driftSyncs.length).ratePpb :=
  estimate_exact (restarted_init Dbl.exact) driftSyncs_drifting

/-- Twelve calls over four seconds always complete the estimate, in exactly the runs whose
first such call is also late enough in its own block of 256. -/
theorem acquisition_completes_iff {s : PtpServo ℚ} (hs : Restarted s) {l : List ServoCall}
    (ht : l.Pairwise fun c d => c.tNs < d.tNs) (hnear : ∀ c ∈ l, |c.offsetNs| ≤ PS_STEP_NS) :
    (∀ k < l.length, Spanned l k → (fitAt s l (k + 1)).estDone = true) ↔
      ∀ k < l.length, Spanned l k → (∀ i < k, ¬ Spanned l i) → Caught l k := by
  constructor
  · intro h k hk hspan hfirst
    obtain ⟨i, hi, hc⟩ := (fitAt_done_iff hs ht hnear hk).mp (h k hk hspan)
    rcases Nat.lt_succ_iff_lt_or_eq.mp hi with hlt | rfl
    · exact absurd (hc.spanned ht (hlt.trans hk)) (hfirst i hlt)
    · exact hc
  · intro h k hk hspan
    -- the first call that spans comes no later than this one
    have hex : ∃ i, Spanned l i ∧ i ≤ k := ⟨k, hspan, le_rfl⟩
    obtain ⟨hi, hik⟩ := Nat.find_spec hex
    have hfirst : ∀ j < Nat.find hex, ¬ Spanned l j := fun j hj hjs => Nat.find_min hex hj ⟨hjs, by omega⟩
    have hc := h (Nat.find hex) (hik.trans_lt hk) hi hfirst
    exact (fitAt_done_iff hs ht hnear hk).mpr ⟨Nat.find hex, by omega, hc⟩

theorem acquisition_completes_iff_drift :
    (∀ k < driftSyncs.length, Spanned driftSyncs k →
      (fitAt (ptpServoInit Dbl.exact) driftSyncs (k + 1)).estDone = true) ↔
    ∀ k < driftSyncs.length, Spanned driftSyncs k → (∀ i < k, ¬ Spanned driftSyncs i) → Caught driftSyncs k :=
  acquisition_completes_iff (restarted_init Dbl.exact) driftSyncs_drifting.increasing driftSyncs_drifting.near

def pacedSyncs (T : ℤ) (n : ℕ) : List ServoCall := (List.range n).map fun (k : ℕ) => ⟨false, 0, T * (k + 1)⟩

section
variable {T : ℤ} {n k : ℕ}

theorem pacedSyncs_length (T : ℤ) (n : ℕ) : (pacedSyncs T n).length = n := by simp [pacedSyncs]

theorem timeAt_pacedSyncs (hk : k < n) : timeAt (pacedSyncs T n) k = T * (k + 1) := by
  rw [timeAt_eq (by rwa [pacedSyncs_length])]
  simp [pacedSyncs]

theorem pacedSyncs_increasing (hT : 0 < T) : (pacedSyncs T n).Pairwise fun c d => c.tNs < d.tNs := by
  refine List.pairwise_map.mpr (List.pairwise_lt_range.imp fun {i j} hij => ?_)
  have : (i : ℤ) + 1 < j + 1 := by omega
  exact mul_lt_mul_of_pos_left this hT

theorem pacedSyncs_near : ∀ c ∈ pacedSyncs T n, |c.offsetNs| ≤ PS_STEP_NS := by
  intro c hc
  obtain ⟨k, -, rfl⟩ := List.mem_map.mp hc
  exact abs_zero.trans_le (by decide)

/-- A block of Syncs that come faster than 255 in four seconds never spans four: the
estimate starts over for ever. -/
theorem pacedSyncs_never (hT : 0 < T) (hfast : T * 255 < EST_MIN_NS) {s : PtpServo ℚ} (hs : Restarted s) (hk : k ≤ n) :
    (fitAt s (pacedSyncs T n) k).estDone = false := by
  have hlen := pacedSyncs_length T n
  rw [Bool.eq_false_iff, ne_eq,
    fitAt_done_iff hs (pacedSyncs_increasing hT) pacedSyncs_near (by rwa [hlen])]
  rintro ⟨i, hi, -, hspan⟩
  rw [timeAt_pacedSyncs (by omega), timeAt_pacedSyncs (by omega), ← mul_sub] at hspan
  have hle : (i : ℤ) + 1 - ((256 * (i / 256) : ℕ) + 1) ≤ 255 := by omega
  have := mul_le_mul_of_nonneg_left hle hT.le
  omega

end

/-- 128 Syncs a second: after 600 of them, 4.7 s, the estimate is still not done. -/
theorem fast_syncs_never_acquire :
    ((pacedSyncs 7812500 600).Pairwise fun c d => c.tNs < d.tNs) ∧
      (∀ c ∈ pacedSyncs 7812500 600, |c.offsetNs| ≤ PS_STEP_NS) ∧ Spanned (pacedSyncs 7812500 600) 599 ∧
      (fitAt (ptpServoInit Dbl.exact) (pacedSyncs 7812500 600) 600).estDone = false := by
  refine ⟨pacedSyncs_increasing (by decide), pacedSyncs_near, ⟨by decide, ?_⟩,
    pacedSyncs_never (by decide) (by decide) (restarted_init Dbl.exact) le_rfl⟩
  rw [timeAt_pacedSyncs (by decide), timeAt_pacedSyncs (by decide)]
  decide

end Inferno
