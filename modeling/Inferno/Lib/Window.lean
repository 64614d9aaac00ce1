import Mathlib.Tactic

/-! The newest entries of a circular buffer, and the order statistics of a list. -/

namespace Inferno.Lib

section Newest

variable {α : Type*}

/-- The buffer holds the newest `n` of `vals`, newest first, behind position `pos`. -/
structure Newest (n : ℕ) (buf : ℕ → α) (pos : ℕ) (vals : List α) : Prop where
  pos_lt : pos < n
  slot : ∀ i (hi : i < vals.length), i < n → buf ((pos + n - 1 - i) % n) = vals[i]

theorem Newest.nil {n pos : ℕ} (h : pos < n) (buf : ℕ → α) : Newest n buf pos [] :=
  ⟨h, fun _ hi => absurd hi (Nat.not_lt_zero _)⟩

theorem Newest.push {n : ℕ} {buf : ℕ → α} {pos : ℕ} {vals : List α} (h : Newest n buf pos vals) (v : α) :
    Newest n (Function.update buf pos v) ((pos + 1) % n) (v :: vals) where
  pos_lt := Nat.mod_lt _ (Nat.zero_lt_of_lt h.pos_lt)
  slot i hi hn := by
    have hpos := h.pos_lt
    have hback : ((pos + 1) % n + n - 1 - i) % n = (pos + n - i) % n := by
      rcases Nat.lt_or_ge (pos + 1) n with hlt | hge
      · rw [Nat.mod_eq_of_lt hlt, show pos + 1 + n - 1 - i = pos + n - i by omega]
      · obtain rfl : n = pos + 1 := by omega
        rw [Nat.mod_self, show 0 + (pos + 1) - 1 - i = pos - i by omega, show pos + (pos + 1) - i = pos - i + (pos + 1) by omega,
          Nat.add_mod_right]
    rw [hback]
    cases i with
    | zero =>
      rw [Nat.sub_zero, Nat.add_mod_right, Nat.mod_eq_of_lt hpos, Function.update_self]
      rfl
    | succ i =>
      have hne : (pos + n - (i + 1)) % n ≠ pos := by
        rcases Nat.lt_or_ge pos (i + 1) with hlt | hge
        · rw [Nat.mod_eq_of_lt (by omega)]
          omega
        · rw [show pos + n - (i + 1) = pos - (i + 1) + n by omega, Nat.add_mod_right, Nat.mod_eq_of_lt (by omega)]
          omega
      rw [Function.update_of_ne hne, List.getElem_cons_succ, ← h.slot i (by simpa using hi) (by omega)]
      congr 2
      omega

theorem Newest.read {n : ℕ} {buf : ℕ → α} {pos : ℕ} {vals : List α} (h : Newest n buf pos vals) {k : ℕ} (hk : k ≤ n)
    (hl : k ≤ vals.length) : ((List.range k).map fun i => buf ((pos + n - 1 - i) % n)) = vals.take k := by
  refine List.ext_getElem (by simp [hl]) fun i h1 h2 => ?_
  have hi : i < k := by simpa using h1
  rw [List.getElem_map, List.getElem_range, List.getElem_take]
  exact h.slot i (by omega) (by omega)

end Newest

section Ranked

variable {α : Type*} [LinearOrder α]

/-- The entry of rank `r`, counted from zero. -/
def ranked (r : ℕ) (l : List α) : Option α := (l.insertionSort (· ≤ ·))[r]?

theorem ranked_eq {l l' : List α} (hp : l'.Perm l) (hs : l'.Pairwise (· ≤ ·)) (r : ℕ) : ranked r l = l'[r]? := by
  have heq : l.insertionSort (· ≤ ·) = l' :=
    ((List.perm_insertionSort (· ≤ ·) l).trans hp.symm).eq_of_pairwise (fun _ _ _ _ h1 h2 => le_antisymm h1 h2)
      (List.pairwise_insertionSort (· ≤ ·) l) hs
  rw [ranked, heq]

/-- In a sorted list a property of small values holds up to its count. -/
theorem sorted_getElem_iff {P : α → Bool} (hP : ∀ x y, x ≤ y → P y = true → P x = true) {l : List α}
    (hl : l.Pairwise (· ≤ ·)) {r : ℕ} (hr : r < l.length) : P l[r] = true ↔ r < l.countP P := by
  induction l generalizing r with
  | nil => exact absurd hr (Nat.not_lt_zero r)
  | cons x l ih =>
    obtain ⟨hx, hl⟩ := List.pairwise_cons.mp hl
    rw [List.countP_cons]
    by_cases hpx : P x = true
    · rw [if_pos hpx]
      cases r with
      | zero => simpa using hpx
      | succ r =>
        rw [List.getElem_cons_succ, ih hl]
        omega
    · -- nothing after `x` has the property either
      have hnone : ∀ y ∈ x :: l, ¬ P y = true := by
        intro y hy
        rcases List.mem_cons.mp hy with rfl | hy
        · exact hpx
        · exact fun h => hpx (hP x y (hx y hy) h)
      have hzero : l.countP P = 0 := List.countP_eq_zero.mpr fun y hy => hnone y (List.mem_cons_of_mem x hy)
      rw [if_neg hpx, hzero]
      exact iff_of_false (hnone _ (List.getElem_mem hr)) (Nat.not_lt_zero r)

theorem ranked_iff {P : α → Bool} (hP : ∀ x y, x ≤ y → P y = true → P x = true) {l : List α} {r : ℕ} {v : α}
    (hv : ranked r l = some v) : P v = true ↔ r < l.countP P := by
  obtain ⟨hr, rfl⟩ := List.getElem?_eq_some_iff.mp hv
  rw [sorted_getElem_iff hP (List.pairwise_insertionSort (· ≤ ·) l) hr, (List.perm_insertionSort (· ≤ ·) l).countP_eq]

/-- The entry of rank `r` is at most `b` just when more than `r` entries are. -/
theorem ranked_le_iff {l : List α} {r : ℕ} {v : α} (hv : ranked r l = some v) (b : α) :
    v ≤ b ↔ r < l.countP (· ≤ b) := by
  rw [← ranked_iff (P := fun x => decide (x ≤ b)) (fun x y hxy hy => ?_) hv, decide_eq_true_eq]
  simp only [decide_eq_true_eq] at hy ⊢
  exact hxy.trans hy

theorem ranked_lt_iff {l : List α} {r : ℕ} {v : α} (hv : ranked r l = some v) (b : α) :
    v < b ↔ r < l.countP (· < b) := by
  rw [← ranked_iff (P := fun x => decide (x < b)) (fun x y hxy hy => ?_) hv, decide_eq_true_eq]
  simp only [decide_eq_true_eq] at hy ⊢
  exact hxy.trans_lt hy

end Ranked

section Count

variable {α : Type*} {P : α → Bool} {l : List α}

theorem two_le_countP {i j : ℕ} (hij : i < j) (hj : j < l.length) (h1 : P (l.get ⟨i, hij.trans hj⟩) = true)
    (h2 : P l[j] = true) : 2 ≤ l.countP P := by
  rw [← List.take_append_drop j l, List.countP_append]
  have hfirst : 0 < (l.take j).countP P := List.countP_pos_iff.mpr
    ⟨_, List.mem_take_iff_getElem.mpr ⟨i, by omega, rfl⟩, h1⟩
  have hsecond : 0 < (l.drop j).countP P := List.countP_pos_iff.mpr
    ⟨_, List.mem_drop_iff_getElem.mpr ⟨0, by omega, rfl⟩, by simpa using h2⟩
  omega

theorem countP_le_one {i : ℕ} (h : ∀ j (hj : j < l.length), j ≠ i → P l[j] = false) : l.countP P ≤ 1 := by
  induction l generalizing i with
  | nil => exact Nat.zero_le _
  | cons x l ih =>
    rw [List.countP_cons]
    cases i with
    | zero =>
      have hrest : l.countP P = 0 := by
        rw [List.countP_eq_zero]
        intro y hy
        obtain ⟨j, hj, rfl⟩ := List.getElem_of_mem hy
        have hlack := h (j + 1) (Nat.succ_lt_succ hj) (Nat.succ_ne_zero j)
        rw [List.getElem_cons_succ] at hlack
        rw [hlack]
        exact Bool.false_ne_true
      rw [hrest]
      split_ifs <;> omega
    | succ i =>
      have hx : P x = false := h 0 (Nat.succ_pos _) (Nat.succ_ne_zero i).symm
      have hrest := ih (i := i) fun j hj hne => h (j + 1) (Nat.succ_lt_succ hj) (by omega)
      rw [hx]
      exact hrest

end Count

end Inferno.Lib
