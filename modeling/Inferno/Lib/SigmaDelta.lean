import Mathlib.Tactic

/-! A first-order sigma-delta modulator of base `b`: each target is rendered by a whole
number of units, and what the rendering leaves out is carried into the next one. -/

namespace Inferno.Lib

/-- The unit count a target renders to with `a` carried in. -/
def sdOut (b a q : ℤ) : ℤ := (a + q) / b

def sdAcc (b a q : ℤ) : ℤ := (a + q) % b

theorem sdAcc_mem {b : ℤ} (hb : 0 < b) (a q : ℤ) : 0 ≤ sdAcc b a q ∧ sdAcc b a q < b :=
  ⟨Int.emod_nonneg _ hb.ne', Int.emod_lt_of_pos _ hb⟩

theorem sd_conserved (b a q : ℤ) : b * sdOut b a q + sdAcc b a q = a + q :=
  Int.mul_ediv_add_emod (a + q) b

/-- Rendering the whole part alone and carrying the fraction is the same modulator: the
carry is one unit when the fraction and the accumulator fill one. -/
theorem sdOut_eq_carry {b a q : ℤ} (ha : 0 ≤ a ∧ a < b) :
    (a + q % b < b → sdOut b a q = q / b ∧ sdAcc b a q = a + q % b) ∧
      (b ≤ a + q % b → sdOut b a q = q / b + 1 ∧ sdAcc b a q = a + q % b - b) := by
  have hb : 0 < b := lt_of_le_of_lt ha.1 ha.2
  have hq := Int.mul_ediv_add_emod q b
  have hr0 := Int.emod_nonneg q hb.ne'
  have hrb := Int.emod_lt_of_pos q hb
  have hunique : ∀ w r : ℤ, a + q = b * w + r → 0 ≤ r → r < b → sdOut b a q = w ∧ sdAcc b a q = r := by
    intro w r h h0 hlt
    exact (Int.ediv_emod_unique hb).mpr ⟨by linarith, h0, hlt⟩
  refine ⟨fun h => ?_, fun h => ?_⟩
  · exact hunique (q / b) (a + q % b) (by linarith) (by omega) h
  · exact hunique (q / b + 1) (a + q % b - b) (by linarith) (by omega) (by omega)

theorem sdOut_mem {b a q m : ℤ} (ha : 0 ≤ a ∧ a < b) (h0 : 0 ≤ q) (hm : q < m * b) :
    0 ≤ sdOut b a q ∧ sdOut b a q ≤ m := by
  have hb : 0 < b := lt_of_le_of_lt ha.1 ha.2
  have hlt : sdOut b a q < m + 1 := by
    refine Int.ediv_lt_of_lt_mul hb ?_
    rw [add_mul, one_mul]
    omega
  exact ⟨Int.ediv_nonneg (by omega) hb.le, by omega⟩

def sdRun (b : ℤ) : ℤ → List ℤ → List ℤ
  | _, [] => []
  | a, q :: qs => sdOut b a q :: sdRun b (sdAcc b a q) qs

def sdCarry (b : ℤ) : ℤ → List ℤ → ℤ := List.foldl (sdAcc b)

/-- Over any number of targets nothing is lost: what was rendered is what was asked for,
up to the change of the carry. -/
theorem sdRun_conserved (b a : ℤ) (qs : List ℤ) :
    b * (sdRun b a qs).sum = qs.sum + a - sdCarry b a qs := by
  induction qs generalizing a with
  | nil => simp [sdRun, sdCarry]
  | cons q qs ih =>
    have hstep := sd_conserved b a q
    have hrest := ih (sdAcc b a q)
    have hcarry : sdCarry b a (q :: qs) = sdCarry b (sdAcc b a q) qs := rfl
    rw [sdRun, List.sum_cons, List.sum_cons, mul_add, hrest, hcarry]
    linarith

theorem sdCarry_mem {b a : ℤ} (ha : 0 ≤ a ∧ a < b) (qs : List ℤ) : 0 ≤ sdCarry b a qs ∧ sdCarry b a qs < b := by
  induction qs generalizing a with
  | nil => exact ha
  | cons q qs ih => exact ih (sdAcc_mem (lt_of_le_of_lt ha.1 ha.2) a q)

/-- The mean of the rendering is off by less than one unit over the whole list. -/
theorem sdRun_mean {b a : ℤ} (ha : 0 ≤ a ∧ a < b) (qs : List ℤ) :
    |b * (sdRun b a qs).sum - qs.sum| < b := by
  have hend := sdCarry_mem ha qs
  have hsum := sdRun_conserved b a qs
  rw [abs_lt]
  omega

end Inferno.Lib
