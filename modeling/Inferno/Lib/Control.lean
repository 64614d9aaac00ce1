import Mathlib.Tactic

/-! Integer control loops: truncating division read as a rate, an integral kept in
units of its gain, conditional integration and slew limits. C rounds toward zero, so
each bound here is one for both signs. -/

namespace Inferno.Lib

/-- The quotient times the divisor lies between zero and the dividend, less than one
divisor away from it. -/
theorem tdiv_mul_bounds (n : ℤ) {d : ℤ} (hd : 0 < d) :
    (0 ≤ n → 0 ≤ n.tdiv d * d ∧ n.tdiv d * d ≤ n ∧ n < n.tdiv d * d + d) ∧
      (n ≤ 0 → n.tdiv d * d ≤ 0 ∧ n ≤ n.tdiv d * d ∧ n.tdiv d * d - d < n) := by
  have hn := Int.tdiv_mul_add_tmod n d
  have hlt := Int.tmod_lt_of_pos n hd
  have hgt := Int.lt_tmod_of_pos n hd
  refine ⟨fun h => ?_, fun h => ?_⟩
  · have hr := Int.tmod_nonneg d h
    have hq := mul_nonneg (Int.tdiv_nonneg h hd.le) hd.le
    omega
  · have hr : 0 ≤ (-n).tmod d := Int.tmod_nonneg d (by omega)
    have hq : 0 ≤ (-n).tdiv d * d := mul_nonneg (Int.tdiv_nonneg (by omega) hd.le) hd.le
    rw [Int.neg_tmod] at hr
    rw [Int.neg_tdiv, neg_mul] at hq
    omega

/-- Truncating division brings two numbers together by the divisor, up to one unit. -/
theorem tdiv_sub_tdiv_le (m n : ℤ) {d : ℤ} (hd : 0 < d) :
    |m.tdiv d - n.tdiv d| * d ≤ |m - n| + d := by
  obtain ⟨hm, hm'⟩ := tdiv_mul_bounds m hd
  obtain ⟨hn, hn'⟩ := tdiv_mul_bounds n hd
  have he : |m.tdiv d - n.tdiv d| * d = |m.tdiv d * d - n.tdiv d * d| := by
    rw [← sub_mul, abs_mul, abs_of_pos hd]
  have hpos := le_abs_self (m - n)
  have hneg := neg_le_abs (m - n)
  rw [he, abs_le]
  rcases le_total 0 m with h | h <;> rcases le_total 0 n with h' | h' <;> omega

theorem abs_tdiv_le {n d c : ℤ} (hd : 0 < d) (h : |n| ≤ c * d) : |n.tdiv d| ≤ c := by
  obtain ⟨hp, hn⟩ := tdiv_mul_bounds n hd
  rw [abs_le] at h ⊢
  rcases le_total 0 n with h0 | h0
  · have hq := Int.tdiv_nonneg h0 hd.le
    have hle := le_of_mul_le_mul_right ((hp h0).2.1.trans h.2) hd
    omega
  · have hq : 0 ≤ (-n).tdiv d := Int.tdiv_nonneg (by omega) hd.le
    rw [Int.neg_tdiv] at hq
    have hle : -c * d ≤ n.tdiv d * d := by
      have := (hn h0).2.1
      rw [neg_mul]
      omega
    have := le_of_mul_le_mul_right hle hd
    omega

/-- The rate an integral stands for at gain `g / d`. -/
def readout (g d i : ℤ) : ℤ := (-(i * g)).tdiv d

/-- The integral that stands for a rate at gain `g / d`. -/
def seed (g d r : ℤ) : ℤ := (-(r * d)).tdiv g

/-- Where the gain divides the denominator a change of gain costs nothing. -/
theorem readout_seed {g d : ℤ} (hg : g ≠ 0) (hd : d ≠ 0) (h : g ∣ d) (r : ℤ) :
    readout g d (seed g d r) = r := by
  obtain ⟨k, rfl⟩ := h
  have hs : seed g (g * k) r = -(r * k) :=
    Int.tdiv_eq_of_eq_mul_left hg (by ring)
  rw [readout, hs]
  exact Int.tdiv_eq_of_eq_mul_left hd (by ring)

theorem abs_seed {g d : ℤ} (hg : g ≠ 0) (h : g ∣ d) (r : ℤ) :
    |seed g d r| = |r| * |d / g| := by
  obtain ⟨k, rfl⟩ := h
  have hs : seed g (g * k) r = -(r * k) := Int.tdiv_eq_of_eq_mul_left hg (by ring)
  rw [hs, abs_neg, abs_mul, Int.mul_ediv_cancel_left _ hg]

/-- A step of the integral moves the rate by the step times the gain, up to one unit. -/
theorem readout_sub_le (i j : ℤ) {g d : ℤ} (hg : 0 ≤ g) (hd : 0 < d) :
    |readout g d i - readout g d j| * d ≤ |i - j| * g + d := by
  have h := tdiv_sub_tdiv_le (-(i * g)) (-(j * g)) hd
  have he : |-(i * g) - -(j * g)| = |i - j| * g := by
    rw [show -(i * g) - -(j * g) = -((i - j) * g) by ring, abs_neg, abs_mul, abs_of_nonneg hg]
  rwa [he] at h

/-- Anti-windup: an integrator that takes an error in only while the output is inside
the clamp keeps its own term inside the clamp, when the proportional gain is at least
the integral gain. -/
theorem antiWindup {p k d c e i : ℤ} (hd : 0 < d) (hk : 0 ≤ k) (hpk : k ≤ p * d)
    (hout : |p * e + (i * k).tdiv d| < c) (hi : |i * k| < c * d) : |(i + e) * k| < c * d := by
  rw [abs_lt] at hout hi ⊢
  have hsplit : (i + e) * k = i * k + e * k := add_mul i e k
  rcases le_total 0 e with he | he
  · have hterm : (i * k).tdiv d < c - p * e := by omega
    have hup := Int.lt_mul_of_tdiv_lt hd hterm
    have hgain : e * k ≤ e * (p * d) := mul_le_mul_of_nonneg_left hpk he
    have hnn : 0 ≤ e * k := mul_nonneg he hk
    have hexp : (c - p * e) * d = c * d - e * (p * d) := by ring
    constructor <;> linarith
  · have hterm : (-(i * k)).tdiv d < c + p * e := by
      rw [Int.neg_tdiv]
      omega
    have hup := Int.lt_mul_of_tdiv_lt hd hterm
    have hgain : e * (p * d) ≤ e * k := mul_le_mul_of_nonpos_left hpk he
    have hnp : e * k ≤ 0 := mul_nonpos_of_nonpos_of_nonneg he hk
    have hexp : (c + p * e) * d = c * d + e * (p * d) := by ring
    constructor <;> linarith

end Inferno.Lib
