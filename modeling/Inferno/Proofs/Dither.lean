import Mathlib.Data.Nat.Bitwise
import Inferno.Lib.SigmaDelta
import Inferno.Spec.MclkHw

/-! The dither renders its targets exactly in the mean, and the three DSDM registers
follow the SDM word although only the bytes that change are written. -/

namespace Inferno

open Lib

theorem masked_xor_eq_zero_iff (x y m k : ℕ) :
    (x ^^^ y) &&& (m <<< k) = 0 ↔ (x >>> k) &&& m = (y >>> k) &&& m := by
  have hshift : (x ^^^ y) &&& (m <<< k) = (((x >>> k) &&& m) ^^^ ((y >>> k) &&& m)) <<< k := by
    rw [← Nat.and_xor_distrib_right, ← Nat.shiftRight_xor_distrib]
    refine Nat.eq_of_testBit_eq fun i => ?_
    simp only [Nat.testBit_and, Nat.testBit_shiftLeft, Nat.testBit_shiftRight]
    rcases Nat.lt_or_ge i k with h | h
    · simp [Nat.not_le.mpr h]
    · simp [h]
  rw [hshift, Nat.shiftLeft_eq_zero_iff, Nat.xor_eq_zero_iff]

theorem Dsdm.byte_eq (r : Dsdm) (sdm : ℕ) : r.byte sdm = sdm / 2 ^ r.shift % (r.mask + 1) := by
  rw [Dsdm.byte, Nat.shiftRight_eq_div_pow]
  cases r
  · exact Nat.and_two_pow_sub_one_eq_mod _ 6
  · exact Nat.and_two_pow_sub_one_eq_mod _ 8
  · exact Nat.and_two_pow_sub_one_eq_mod _ 8

def sdmWord (regs : Dsdm → ℕ) : ℕ := regs .dsdm2 * 65536 + regs .dsdm1 * 256 + regs .dsdm0

theorem sdmWord_byte {sdm : ℕ} (h : sdm ≤ 0x3FFFFF) : sdmWord (fun r => r.byte sdm) = sdm := by
  simp only [sdmWord, Dsdm.byte_eq, Dsdm.shift, Dsdm.mask]
  omega

theorem dsdmWrite_cases (x sdm : ℕ) (r : Dsdm) :
    (dsdmWrite x sdm r = some (r, r.byte sdm) ∧ r.byte sdm ≠ r.byte x) ∨
      (dsdmWrite x sdm r = none ∧ r.byte sdm = r.byte x) := by
  have hiff := masked_xor_eq_zero_iff sdm x r.mask r.shift
  by_cases hd : (sdm ^^^ x) &&& (r.mask <<< r.shift) = 0
  · exact .inr ⟨if_neg (not_not.mpr hd), hiff.mp hd⟩
  · exact .inl ⟨if_pos hd, fun he => hd (hiff.mpr he)⟩

theorem mem_apllWrites {x sdm : ℕ} {w : Dsdm × ℕ} (hw : w ∈ apllWrites x sdm) : w.2 ≠ w.1.byte x := by
  obtain ⟨r, -, hr⟩ := List.mem_filterMap.mp hw
  rcases dsdmWrite_cases x sdm r with ⟨he, hne⟩ | ⟨he, -⟩
  · rw [he, Option.some.injEq] at hr
    exact hr ▸ hne
  · rw [he] at hr
    cases hr

/-- Written in turn, the bytes that differ bring registers that hold `x` to `sdm`. -/
theorem foldl_regi2cWrite (x sdm : ℕ) (rs : List Dsdm) (regs : Dsdm → ℕ) (r : Dsdm)
    (hregs : regs r = r.byte x ∨ regs r = r.byte sdm) :
    ((rs.filterMap (dsdmWrite x sdm)).foldl regi2cWrite regs) r = if r ∈ rs then r.byte sdm else regs r := by
  induction rs generalizing regs with
  | nil => rfl
  | cons q rs ih =>
    rcases dsdmWrite_cases x sdm q with ⟨he, -⟩ | ⟨he, hsame⟩
    · rw [List.filterMap_cons_some he, List.foldl_cons]
      rcases eq_or_ne r q with rfl | hrq
      · have hset : regi2cWrite regs (r, r.byte sdm) r = r.byte sdm := Function.update_self r _ regs
        rw [ih _ (.inr hset), hset, ite_self, if_pos List.mem_cons_self]
      · have hkeep : regi2cWrite regs (q, q.byte sdm) r = regs r := Function.update_of_ne hrq _ regs
        rw [ih _ (hkeep.symm ▸ hregs), hkeep]
        simp [hrq]
    · rw [List.filterMap_cons_none he, ih regs hregs]
      rcases eq_or_ne r q with rfl | hrq
      · have hnow : regs r = r.byte sdm := by rcases hregs with h | h <;> simp [h, hsame]
        rw [hnow, ite_self, ite_self]
      · simp [hrq]

theorem apllWriteSdm_regs {h : MclkHw} (hregs : ∀ r, h.regs r = r.byte h.sdmHw) (sdm : ℕ) (r : Dsdm) :
    (apllWriteSdm h sdm).regs r = r.byte sdm := by
  have hall : r ∈ [Dsdm.dsdm2, Dsdm.dsdm1, Dsdm.dsdm0] := by cases r <;> decide
  have := foldl_regi2cWrite h.sdmHw sdm [.dsdm2, .dsdm1, .dsdm0] h.regs r (.inl (hregs r))
  rwa [if_pos hall] at this

/-- What holds of the actuator between events: a carry below one unit, and the shadow
and the registers both at the word last applied. -/
structure ActInv (h : MclkHw) : Prop where
  acc : 0 ≤ h.ditherAcc ∧ h.ditherAcc < 65536
  word : h.sdmApplied ≤ 0x3FFFFF
  shadow : h.sdmHw = h.sdmApplied
  regs : ∀ r, h.regs r = r.byte h.sdmApplied

theorem actInv_init {odiv : ℕ} {s2 : Fin 64} {s1 s0 : Fin 256} {h : MclkHw}
    (hh : mclkHwInit odiv s2 s1 s0 = some h) : ActInv h := by
  have hbase : (s2.val <<< 16) ||| (s1.val <<< 8) ||| s0.val = s2.val * 65536 + s1.val * 256 + s0.val := by
    have hor1 := Nat.shiftLeft_add_eq_or_of_lt (i := 16) (b := s1.val <<< 8) (by
      rw [Nat.shiftLeft_eq]
      omega) s2.val
    have hor0 := Nat.shiftLeft_add_eq_or_of_lt (i := 8) (b := s0.val) s0.isLt (s2.val * 256 + s1.val)
    simp only [Nat.shiftLeft_eq] at hor1 hor0 ⊢
    rw [← hor1]
    have hsplit : s2.val * 2 ^ 16 + s1.val * 2 ^ 8 = (s2.val * 256 + s1.val) * 2 ^ 8 := by ring
    rw [hsplit, ← hor0]
    ring
  simp only [mclkHwInit, hbase] at hh
  split_ifs at hh with h0
  cases hh
  have h2 := s2.isLt
  have h1 := s1.isLt
  have h0 := s0.isLt
  have hword : s2.val * 65536 + s1.val * 256 + s0.val ≤ 0x3FFFFF := by omega
  refine ⟨⟨le_rfl, show (0 : ℤ) < 65536 by decide⟩, hword, rfl, fun r => ?_⟩
  cases r <;> simp only [Dsdm.byte_eq, Dsdm.shift, Dsdm.mask] <;> omega

/-- With its target in range the dither is the sigma-delta modulator of base 65536. -/
theorem ditherRender_eq {acc target : ℤ} (ha : 0 ≤ acc ∧ acc < 65536) (h0 : 0 ≤ target)
    (hm : target < SDM_MAX * 65536) :
    ditherRender acc target = ((sdOut 65536 acc target).toNat, sdAcc 65536 acc target) := by
  obtain ⟨hlo, hhi⟩ := sdOut_mem ha h0 hm
  obtain ⟨hstay, hcarry⟩ := sdOut_eq_carry (q := target) ha
  rcases lt_or_ge (acc + target % 65536) 65536 with h | h
  · obtain ⟨hw, hr⟩ := hstay h
    simp only [ditherRender, if_neg (not_le.mpr h)]
    rw [← hw, ← hr, if_neg (not_lt.mpr hlo), if_neg (not_lt.mpr hhi)]
  · obtain ⟨hw, hr⟩ := hcarry h
    simp only [ditherRender, ge_iff_le, if_pos h]
    rw [← hw, ← hr, if_neg (not_lt.mpr hlo), if_neg (not_lt.mpr hhi)]

theorem ditherRender_word (acc target : ℤ) : (ditherRender acc target).1 ≤ 0x3FFFFF := by
  simp only [ditherRender, SDM_MAX]
  split_ifs <;> omega

theorem ditherRender_acc {acc : ℤ} (ha : 0 ≤ acc ∧ acc < 65536) (target : ℤ) :
    0 ≤ (ditherRender acc target).2 ∧ (ditherRender acc target).2 < 65536 := by
  simp only [ditherRender]
  split_ifs <;> dsimp only <;> omega

theorem ditherCb_word (h : MclkHw) :
    (ditherCb h).sdmApplied = (ditherRender h.ditherAcc h.targetQ16).1 ∧
      (ditherCb h).ditherAcc = (ditherRender h.ditherAcc h.targetQ16).2 := by
  simp only [ditherCb]
  split_ifs with hne
  · exact ⟨rfl, rfl⟩
  · exact ⟨(not_not.mp hne).symm, rfl⟩

theorem ActInv.dither {h : MclkHw} (hi : ActInv h) : ActInv (ditherCb h) := by
  have hacc := ditherRender_acc hi.acc h.targetQ16
  simp only [ditherCb]
  split_ifs with hne
  · refine ⟨hacc, ditherRender_word _ _, rfl, fun r => ?_⟩
    have hregs : ∀ r, h.regs r = r.byte h.sdmHw := fun r => by rw [hi.shadow, hi.regs r]
    exact apllWriteSdm_regs (h := { h with
      ditherAcc := (ditherRender h.ditherAcc h.targetQ16).2,
      sdmApplied := (ditherRender h.ditherAcc h.targetQ16).1 }) hregs _ r
  · exact ⟨hacc, hi.word, hi.shadow, hi.regs⟩

theorem ActInv.step {h : MclkHw} (hi : ActInv h) (e : HwEvent) : ActInv (hwStep h e) := by
  cases e with
  | setPpb ppb => exact ⟨hi.acc, hi.word, hi.shadow, hi.regs⟩
  | dither => exact hi.dither

theorem ActInv.run {h : MclkHw} (hi : ActInv h) (l : List HwEvent) : ActInv (hwRun h l) := by
  induction l generalizing h with
  | nil => exact hi
  | cons e l ih => exact ih (hi.step e)

theorem ditherWrites_change {h : MclkHw} (hi : ActInv h) : ∀ w ∈ ditherWrites h, w.2 ≠ h.regs w.1 := by
  intro w hw
  simp only [ditherWrites] at hw
  split_ifs at hw with hne
  · rw [hi.regs, ← hi.shadow]
    exact mem_apllWrites hw
  · cases hw

theorem hwWords_eq {h : MclkHw} (hi : ActInv h) (l : List HwEvent)
    (ht : ∀ t ∈ hwTargets h l, 0 ≤ t ∧ t < SDM_MAX * 65536) :
    (hwWords h l).map (fun w : ℕ => (w : ℤ)) = sdRun 65536 h.ditherAcc (hwTargets h l) ∧
      (hwRun h l).ditherAcc = sdCarry 65536 h.ditherAcc (hwTargets h l) := by
  induction l generalizing h with
  | nil => exact ⟨rfl, rfl⟩
  | cons e l ih =>
    cases e with
    | setPpb ppb => exact ih (hi.step (.setPpb ppb)) ht
    | dither =>
      have hhead := ht h.targetQ16 List.mem_cons_self
      have hren := ditherRender_eq hi.acc hhead.1 hhead.2
      obtain ⟨hword, hacc⟩ := ditherCb_word h
      rw [hren] at hword hacc
      obtain ⟨htail, hend⟩ := ih hi.dither fun t h' => ht t (List.mem_cons_of_mem _ h')
      rw [hacc] at htail hend
      refine ⟨?_, hend⟩
      have hnn := (sdOut_mem hi.acc hhead.1 hhead.2).1
      simp only [hwWords, hwTargets, List.map_cons, sdRun, htail, hword, Int.toNat_of_nonneg hnn]

theorem hwTargets_append (h : MclkHw) (l₁ l₂ : List HwEvent) :
    hwTargets h (l₁ ++ l₂) = hwTargets h l₁ ++ hwTargets (hwRun h l₁) l₂ := by
  induction l₁ generalizing h with
  | nil => rfl
  | cons e l ih =>
    cases e with
    | setPpb ppb => exact ih (mclkHwSetPpb h ppb)
    | dither => simp only [hwTargets, List.cons_append, ih]; rfl

theorem hwRun_applied (h : MclkHw) (l : List HwEvent) :
    (hwRun h l).sdmApplied = (hwWords h l).getLastD h.sdmApplied := by
  induction l generalizing h with
  | nil => rfl
  | cons e l ih =>
    cases e with
    | setPpb ppb => exact ih (mclkHwSetPpb h ppb)
    | dither =>
      have := ih (ditherCb h)
      rw [hwWords, List.getLastD_cons]
      exact this

/-- From the read-back on, over any stretch of any run whose targets stay in range: the
carry stays below one unit, the words written add up to the targets and the change of the
carry, and the registers spell the last word although only bytes that change are written. -/
theorem dither_exact {odiv : ℕ} {s2 : Fin 64} {s1 s0 : Fin 256} {h : MclkHw}
    (hh : mclkHwInit odiv s2 s1 s0 = some h) (l₁ l₂ : List HwEvent)
    (ht : ∀ t ∈ hwTargets h (l₁ ++ l₂), 0 ≤ t ∧ t < SDM_MAX * 65536) :
    (0 ≤ (hwRun h l₁).ditherAcc ∧ (hwRun h l₁).ditherAcc < 65536) ∧
    65536 * ((hwWords (hwRun h l₁) l₂).map (fun w : ℕ => (w : ℤ))).sum =
      (hwTargets (hwRun h l₁) l₂).sum + (hwRun h l₁).ditherAcc - (hwRun h (l₁ ++ l₂)).ditherAcc ∧
    |65536 * ((hwWords (hwRun h l₁) l₂).map (fun w : ℕ => (w : ℤ))).sum -
      (hwTargets (hwRun h l₁) l₂).sum| < 65536 ∧
    (∀ r, (hwRun h l₁).regs r = r.byte ((hwWords h l₁).getLastD h.sdmBase)) ∧
    sdmWord (hwRun h l₁).regs = (hwWords h l₁).getLastD h.sdmBase ∧
    (∀ w ∈ ditherWrites (hwRun h l₁), w.2 ≠ (hwRun h l₁).regs w.1) := by
  have hinv := actInv_init hh
  have hi := hinv.run l₁
  have hbase : h.sdmApplied = h.sdmBase := by
    simp only [mclkHwInit] at hh
    split_ifs at hh
    cases hh
    rfl
  have ht₂ : ∀ t ∈ hwTargets (hwRun h l₁) l₂, 0 ≤ t ∧ t < SDM_MAX * 65536 := fun t hmem => by
    refine ht t ?_
    rw [hwTargets_append]
    exact List.mem_append_right _ hmem
  obtain ⟨hwords, hcarry⟩ := hwWords_eq hi l₂ ht₂
  have hend : hwRun h (l₁ ++ l₂) = hwRun (hwRun h l₁) l₂ := List.foldl_append
  have hlast : (hwRun h l₁).sdmApplied = (hwWords h l₁).getLastD h.sdmBase := hbase ▸ hwRun_applied h l₁
  have hregs : (hwRun h l₁).regs = fun r => r.byte (hwRun h l₁).sdmApplied := funext hi.regs
  refine ⟨hi.acc, ?_, ?_, fun r => hlast ▸ hi.regs r, ?_, ditherWrites_change hi⟩
  · rw [hwords, hend, hcarry]
    exact sdRun_conserved 65536 _ _
  · rw [hwords]
    exact sdRun_mean hi.acc _
  · rw [hregs, sdmWord_byte hi.word, hlast]

/-- A trim across a byte boundary and back: three callbacks render 43.5 ppm and then none. -/
theorem dither_exact_trim : ∃ h, mclkHwInit 0 5 255 255 = some h ∧
    65536 * ((hwWords h [.setPpb 43500, .dither, .dither, .setPpb 0, .dither]).map (fun w : ℕ => (w : ℤ))).sum =
      (hwTargets h [.setPpb 43500, .dither, .dither, .setPpb 0, .dither]).sum + h.ditherAcc -
        (hwRun h [.setPpb 43500, .dither, .dither, .setPpb 0, .dither]).ditherAcc :=
  ⟨_, rfl, (@dither_exact 0 5 255 255 _ rfl [] [.setPpb 43500, .dither, .dither, .setPpb 0, .dither] (by decide)).2.1⟩

end Inferno
