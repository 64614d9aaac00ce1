import Mathlib.Tactic

/-! Ones' complement sums in words below a base: the carries folded back in until none is
left, and a sum that holds its own checksum. -/

namespace Inferno.Lib

/-- Add the carry to the word until there is no carry. -/
def foldCarry (base sum : ℕ) : ℕ :=
  if 1 < base ∧ base ≤ sum then foldCarry base (sum % base + sum / base) else sum
termination_by sum
decreasing_by
  rename_i h
  obtain ⟨h1, h2⟩ := h
  have hpos : 0 < sum / base := Nat.div_pos h2 (by omega)
  have hsum := Nat.div_add_mod sum base
  have hmul : 2 * (sum / base) ≤ base * (sum / base) := Nat.mul_le_mul_right _ h1
  omega

variable {base : ℕ} (hb : 1 < base) (sum : ℕ)

section
include hb

theorem foldCarry_lt : foldCarry base sum < base := by
  induction sum using foldCarry.induct base with
  | case1 sum h ih => rwa [foldCarry, if_pos h]
  | case2 sum h =>
    rw [foldCarry, if_neg h]
    omega

/-- A carry is worth one: folding changes nothing modulo one less than the base. -/
theorem foldCarry_mod : foldCarry base sum % (base - 1) = sum % (base - 1) := by
  induction sum using foldCarry.induct base with
  | case1 sum h ih =>
    rw [foldCarry, if_pos h, ih]
    have hsum : sum = sum % base + sum / base + (base - 1) * (sum / base) := by
      have hdiv := Nat.div_add_mod sum base
      have hone : base * (sum / base) = (base - 1) * (sum / base) + sum / base := by
        rw [← Nat.succ_mul, Nat.succ_eq_add_one, Nat.sub_add_cancel hb.le]
      omega
    conv_rhs => rw [hsum, Nat.add_mul_mod_self_left]
  | case2 sum h => rw [foldCarry, if_neg h]

theorem foldCarry_pos (hs : 0 < sum) : 0 < foldCarry base sum := by
  induction sum using foldCarry.induct base with
  | case1 sum h ih =>
    rw [foldCarry, if_pos h]
    exact ih (Nat.add_pos_right _ (Nat.div_pos h.2 (by omega)))
  | case2 sum h => rwa [foldCarry, if_neg h]

theorem foldCarry_of_dvd (hs : 0 < sum) (hd : sum % (base - 1) = 0) : foldCarry base sum = base - 1 := by
  have hlt := foldCarry_lt hb sum
  have hpos := foldCarry_pos hb sum hs
  have hmod := (foldCarry_mod hb sum).trans hd
  obtain ⟨k, hk⟩ := Nat.dvd_of_mod_eq_zero hmod
  have hk1 : k = 1 := by
    rcases k with _ | _ | k
    · rw [Nat.mul_zero] at hk
      omega
    · rfl
    · have h2 : (base - 1) * 2 ≤ (base - 1) * (k + 1 + 1) := Nat.mul_le_mul_left _ (by omega)
      omega
  rw [hk, hk1, Nat.mul_one]

/-- The sum and the complement of what it folds to are all ones together. -/
theorem foldCarry_complement : foldCarry base (sum + (base - 1 - foldCarry base sum)) = base - 1 := by
  have hlt := foldCarry_lt hb sum
  apply foldCarry_of_dvd hb
  · rcases Nat.eq_zero_or_pos sum with rfl | hs
    · rw [foldCarry, if_neg (by omega)]
      omega
    · omega
  · rw [Nat.add_mod, ← foldCarry_mod hb sum, ← Nat.add_mod,
      Nat.add_sub_cancel' (Nat.le_sub_one_of_lt hlt), Nat.mod_self]

end

end Inferno.Lib
