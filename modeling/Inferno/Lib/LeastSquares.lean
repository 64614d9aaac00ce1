import Mathlib.Tactic

/-! Least squares by running sums: the determinant grows with every abscissa by its spread
over those before it, and on a line the slope is that of the line. -/

namespace Inferno.Lib

variable {K : Type*} [Field K]

/-- The sums a regression over points `(x, y)` keeps. -/
@[ext] structure Sums (K : Type*) where
  n : ℕ
  sx : K
  sy : K
  sxx : K
  sxy : K

namespace Sums

def zero : Sums K := ⟨0, 0, 0, 0, 0⟩

def add (s : Sums K) (p : K × K) : Sums K :=
  ⟨s.n + 1, s.sx + p.1, s.sy + p.2, s.sxx + p.1 * p.1, s.sxy + p.1 * p.2⟩

def den (s : Sums K) : K := s.n * s.sxx - s.sx * s.sx

def num (s : Sums K) : K := s.n * s.sxy - s.sx * s.sy

def of (l : List (K × K)) : Sums K := l.foldl add zero

theorem of_concat (l : List (K × K)) (p : K × K) : of (l ++ [p]) = (of l).add p := by
  simp [of]

/-- The squared distances of `x` from the abscissae of `l`. -/
def spread (x : K) (l : List (K × K)) : K := (l.map fun q => (x - q.1) ^ 2).sum

theorem spread_eq (x : K) (l : List (K × K)) :
    spread x l = (of l).sxx + (of l).n * x ^ 2 - 2 * x * (of l).sx := by
  induction l using List.reverseRecOn with
  | nil => simp [spread, of, zero]
  | append_singleton l p ih =>
    rw [spread, List.map_append, List.sum_append, ← spread, ih, of_concat]
    simp only [List.map_cons, List.map_nil, List.sum_cons, List.sum_nil, add, Nat.cast_add, Nat.cast_one]
    ring

theorem den_concat (l : List (K × K)) (p : K × K) : (of (l ++ [p])).den = (of l).den + spread p.1 l := by
  rw [spread_eq, of_concat, den, den]
  simp only [add, Nat.cast_add, Nat.cast_one]
  ring

theorem of_line {l : List (K × K)} {a b : K} (h : ∀ p ∈ l, p.2 = a + b * p.1) :
    (of l).sy = (of l).n * a + b * (of l).sx ∧ (of l).sxy = a * (of l).sx + b * (of l).sxx := by
  induction l using List.reverseRecOn with
  | nil => simp [of, zero]
  | append_singleton l p ih =>
    obtain ⟨hy, hxy⟩ := ih fun q hq => h q (List.mem_append_left [p] hq)
    have hp := h p (by simp)
    rw [of_concat]
    simp only [add, hy, hxy, hp, Nat.cast_add, Nat.cast_one]
    constructor <;> ring

/-- On a line the slope comes out, whatever the abscissae and the origin. -/
theorem num_of_line {l : List (K × K)} {a b : K} (h : ∀ p ∈ l, p.2 = a + b * p.1) : (of l).num = b * (of l).den := by
  obtain ⟨hy, hxy⟩ := of_line h
  rw [num, den, hy, hxy]
  ring

variable [LinearOrder K] [IsStrictOrderedRing K]

theorem spread_nonneg (x : K) (l : List (K × K)) : 0 ≤ spread x l :=
  List.sum_nonneg fun _ hr => by
    obtain ⟨q, -, rfl⟩ := List.mem_map.mp hr
    exact sq_nonneg _

theorem spread_pos {x : K} {l : List (K × K)} {q : K × K} (hq : q ∈ l) (hne : q.1 ≠ x) : 0 < spread x l := by
  obtain ⟨l₁, l₂, rfl⟩ := List.append_of_mem hq
  have h1 := spread_nonneg x l₁
  have h2 := spread_nonneg x l₂
  have hpos : 0 < (x - q.1) ^ 2 := by
    have : x - q.1 ≠ 0 := sub_ne_zero.mpr hne.symm
    positivity
  simp only [spread, List.map_append, List.map_cons, List.sum_append, List.sum_cons] at h1 h2 ⊢
  linarith

theorem den_nonneg (l : List (K × K)) : 0 ≤ (of l).den := by
  induction l using List.reverseRecOn with
  | nil => simp [of, zero, den]
  | append_singleton l p ih =>
    rw [den_concat]
    exact add_nonneg ih (spread_nonneg p.1 l)

theorem den_pos {l : List (K × K)} {p q : K × K} (hq : q ∈ l) (hne : q.1 ≠ p.1) : 0 < (of (l ++ [p])).den := by
  rw [den_concat]
  exact add_pos_of_nonneg_of_pos (den_nonneg l) (spread_pos hq hne)

end Sums

end Inferno.Lib
