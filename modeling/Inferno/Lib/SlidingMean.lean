import Mathlib.Tactic

/-! A mean that slides by halving. Samples are summed and counted, and a count beyond the
limit `w` halves the sum and the count together. The sum then holds every sample, weighed
by the halvings it has been through; the count loses half a sample whenever it is odd. -/

namespace Inferno.Lib

structure Sliding where
  acc : ℕ
  n : ℕ

namespace Sliding

def add (s : Sliding) (d : ℕ) : Sliding := { acc := s.acc + d, n := s.n + 1 }

def slide (w : ℕ) (s : Sliding) : Sliding := if w < s.n then { acc := s.acc / 2, n := s.n / 2 } else s

/-- What is read once a sample is added, before the sum slides. -/
def mean (s : Sliding) : ℕ := s.acc / s.n

def after (w : ℕ) (l : List ℕ) : Sliding := l.foldl (fun s d => (s.add d).slide w) ⟨0, 0⟩

end Sliding

variable (w : ℕ)

def slidCount : ℕ → ℕ
  | 0 => 0
  | k + 1 => if w < slidCount k + 1 then (slidCount k + 1) / 2 else slidCount k + 1

def halvings : ℕ → ℕ
  | 0 => 0
  | k + 1 => if w < slidCount w k + 1 then halvings k + 1 else halvings k

def weighted (l : List ℕ) : ℕ := (l.mapIdx fun i d => 2 ^ halvings w i * d).sum

def weight : ℕ → ℕ
  | 0 => 0
  | k + 1 => weight k + 2 ^ halvings w k

@[simp] theorem weighted_nil : weighted w [] = 0 := rfl

@[simp] theorem weighted_concat (l : List ℕ) (d : ℕ) :
    weighted w (l ++ [d]) = weighted w l + 2 ^ halvings w l.length * d := by
  simp [weighted, List.mapIdx_concat]

/-- A sample taken now adds itself to what the earlier ones have come to. -/
theorem weighted_div (l : List ℕ) (d : ℕ) :
    weighted w (l ++ [d]) / 2 ^ halvings w l.length = weighted w l / 2 ^ halvings w l.length + d := by
  rw [weighted_concat, Nat.add_mul_div_left _ _ (Nat.two_pow_pos _)]

/-- The sum is the weighted sum of all samples, scaled down by the halvings so far. -/
theorem after_eq (l : List ℕ) :
    Sliding.after w l = ⟨weighted w l / 2 ^ halvings w l.length, slidCount w l.length⟩ := by
  induction l using List.reverseRecOn with
  | nil => simp [Sliding.after, slidCount]
  | append_singleton l d ih =>
    have hlen : (l ++ [d]).length = l.length + 1 := by simp
    have hstep : Sliding.after w (l ++ [d]) = ((Sliding.after w l).add d).slide w := by
      rw [Sliding.after, List.foldl_concat, Sliding.after]
    rw [hstep, ih, hlen, Sliding.add, Sliding.slide, ← weighted_div, halvings, slidCount]
    split_ifs with h
    · rw [Nat.div_div_eq_div_mul, ← pow_succ]
    · rfl

theorem mean_eq (l : List ℕ) (d : ℕ) :
    ((Sliding.after w l).add d).mean =
      weighted w (l ++ [d]) / 2 ^ halvings w l.length / (slidCount w l.length + 1) := by
  rw [after_eq, Sliding.add, Sliding.mean, weighted_div]

theorem slidCount_le (k : ℕ) : slidCount w k ≤ w := by
  induction k with
  | zero => exact Nat.zero_le w
  | succ k ih =>
    rw [slidCount]
    split_ifs with h <;> omega

theorem count_le_weight (k : ℕ) : slidCount w k * 2 ^ halvings w k ≤ weight w k := by
  induction k with
  | zero => simp [slidCount, weight]
  | succ k ih =>
    have hnext : (slidCount w k + 1) * 2 ^ halvings w k ≤ weight w (k + 1) := by
      rw [weight, Nat.add_mul, Nat.one_mul]
      omega
    rw [slidCount, halvings]
    split_ifs with h
    · -- rounding the count down keeps it below the weight
      have hhalf : (slidCount w k + 1) / 2 * 2 ≤ slidCount w k + 1 := Nat.div_mul_le_self _ _
      calc (slidCount w k + 1) / 2 * 2 ^ (halvings w k + 1)
          = (slidCount w k + 1) / 2 * 2 * 2 ^ halvings w k := by rw [pow_succ]; ring
        _ ≤ (slidCount w k + 1) * 2 ^ halvings w k := Nat.mul_le_mul_right _ hhalf
        _ ≤ weight w (k + 1) := hnext
    · exact hnext

theorem le_weighted {l : List ℕ} {m : ℕ} (h : ∀ x ∈ l, m ≤ x) : weight w l.length * m ≤ weighted w l := by
  induction l using List.reverseRecOn with
  | nil => simp [weight]
  | append_singleton l d ih =>
    have hl := ih fun x hx => h x (List.mem_append_left _ hx)
    have hd : m ≤ d := h d (by simp)
    rw [weighted_concat, List.length_append, List.length_singleton, weight, Nat.add_mul]
    exact Nat.add_le_add hl (Nat.mul_le_mul_left _ hd)

theorem weighted_le {l : List ℕ} {m : ℕ} (h : ∀ x ∈ l, x ≤ m) : weighted w l ≤ weight w l.length * m := by
  induction l using List.reverseRecOn with
  | nil => simp
  | append_singleton l d ih =>
    have hl := ih fun x hx => h x (List.mem_append_left _ hx)
    have hd : d ≤ m := h d (by simp)
    rw [weighted_concat, List.length_append, List.length_singleton, weight, Nat.add_mul]
    exact Nat.add_le_add hl (Nat.mul_le_mul_left _ hd)

theorem le_mean {l : List ℕ} {d m : ℕ} (h : ∀ x ∈ l ++ [d], m ≤ x) : m ≤ ((Sliding.after w l).add d).mean := by
  have hw := le_weighted w h
  have hc := count_le_weight w l.length
  rw [mean_eq, Nat.le_div_iff_mul_le (Nat.succ_pos _), Nat.le_div_iff_mul_le (Nat.two_pow_pos _)]
  rw [List.length_append, List.length_singleton, weight] at hw
  calc m * (slidCount w l.length + 1) * 2 ^ halvings w l.length
      = (slidCount w l.length * 2 ^ halvings w l.length + 2 ^ halvings w l.length) * m := by ring
    _ ≤ (weight w l.length + 2 ^ halvings w l.length) * m := Nat.mul_le_mul_right _ (Nat.add_le_add_right hc _)
    _ ≤ weighted w (l ++ [d]) := hw

/-- The mean reads no more than `m` just when the weighted samples fit the count. -/
theorem mean_le_iff (l : List ℕ) (d m : ℕ) :
    ((Sliding.after w l).add d).mean ≤ m ↔
      weighted w (l ++ [d]) < 2 ^ halvings w l.length * ((m + 1) * (slidCount w l.length + 1)) := by
  rw [mean_eq, ← Nat.lt_succ_iff, Nat.div_lt_iff_lt_mul (Nat.succ_pos _), Nat.div_lt_iff_lt_mul (Nat.two_pow_pos _),
    Nat.mul_comm (2 ^ halvings w l.length)]

end Inferno.Lib
