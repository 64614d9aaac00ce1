import Mathlib.Tactic

/-! Runs of equally long rows that follow one another in memory, as (address, rows): which
rows a run stands for, which words it covers, and when a list of runs covers a list of
rows once. -/

namespace Inferno.Lib

variable {α β : Type*} {w : ℕ} {r : ℕ × ℕ} {rs : List (ℕ × ℕ)} {rows : List ℕ}

def runRows (w : ℕ) (r : ℕ × ℕ) : List ℕ := (List.range r.2).map fun i => r.1 + i * w

def InRow (w row x : ℕ) : Prop := row ≤ x ∧ x < row + w

def InRun (w : ℕ) (r : ℕ × ℕ) (x : ℕ) : Prop := r.1 ≤ x ∧ x < r.1 + r.2 * w

instance (row x : ℕ) : Decidable (InRow w row x) := inferInstanceAs (Decidable (_ ∧ _))

instance (r : ℕ × ℕ) (x : ℕ) : Decidable (InRun w r x) := inferInstanceAs (Decidable (_ ∧ _))

/-- The runs are the rows, in their order; each row is in one run, and each word of a row
is covered once. -/
structure CoversOnce (w : ℕ) (rows : List ℕ) (rs : List (ℕ × ℕ)) : Prop where
  pos : ∀ r ∈ rs, 0 < r.2
  order : rs.flatMap (runRows w) = rows
  once : ∀ row, rs.countP (fun r => decide (row ∈ runRows w r)) = if row ∈ rows then 1 else 0
  words : ∀ x, rs.countP (fun r => decide (InRun w r x)) = if ∃ row ∈ rows, InRow w row x then 1 else 0

theorem runRows_one (w a : ℕ) : runRows w (a, 1) = [a] := by
  simp only [runRows, List.range_one, List.map_singleton, Nat.zero_mul, Nat.add_zero]

theorem runRows_succ (w a n : ℕ) : runRows w (a, n + 1) = runRows w (a, n) ++ [a + n * w] := by
  simp only [runRows, List.range_succ, List.map_append, List.map_singleton]

theorem mem_runRows {row : ℕ} : row ∈ runRows w r ↔ ∃ i < r.2, r.1 + i * w = row := by
  simp only [runRows, List.mem_map, List.mem_range]

theorem inRun_iff (hw : 0 < w) {x : ℕ} : InRun w r x ↔ ∃ row ∈ runRows w r, InRow w row x := by
  constructor
  · rintro ⟨hlo, hhi⟩
    have hdiv := Nat.div_add_mod (x - r.1) w
    have hmod := Nat.mod_lt (x - r.1) hw
    rw [Nat.mul_comm] at hdiv
    have hlt : (x - r.1) / w < r.2 := (Nat.div_lt_iff_lt_mul hw).mpr (by omega)
    exact ⟨r.1 + (x - r.1) / w * w, mem_runRows.mpr ⟨_, hlt, rfl⟩, by omega, by omega⟩
  · rintro ⟨row, hrow, hlo, hhi⟩
    obtain ⟨i, hi, rfl⟩ := mem_runRows.mp hrow
    have hle : (i + 1) * w ≤ r.2 * w := Nat.mul_le_mul_right w hi
    rw [Nat.succ_mul] at hle
    exact ⟨by omega, by omega⟩

/-- In lists laid end to end, what holds of one element at most is in one list at most. -/
theorem countP_flatMap_once {f : α → List β} {P : β → Prop} [DecidablePred P] {l : List α}
    (h : (l.flatMap f).Pairwise fun a b => P a → ¬ P b) :
    l.countP (fun a => decide (∃ b ∈ f a, P b)) = if ∃ b ∈ l.flatMap f, P b then 1 else 0 := by
  induction l with
  | nil => simp
  | cons a l ih =>
    rw [List.flatMap_cons, List.pairwise_append] at h
    obtain ⟨-, htail, hcross⟩ := h
    rw [List.countP_cons, ih htail]
    by_cases ha : ∃ b ∈ f a, P b
    · obtain ⟨b, hb, hPb⟩ := ha
      have hrest : ¬ ∃ c ∈ l.flatMap f, P c := fun ⟨c, hc, hPc⟩ => hcross b hb c hc hPb hPc
      have hall : ∃ c ∈ (a :: l).flatMap f, P c := ⟨b, List.mem_flatMap_of_mem List.mem_cons_self hb, hPb⟩
      rw [if_neg hrest, if_pos hall, if_pos (decide_eq_true ⟨b, hb, hPb⟩)]
    · have hall : (∃ c ∈ (a :: l).flatMap f, P c) ↔ ∃ c ∈ l.flatMap f, P c := by
        simp only [List.flatMap_cons, List.mem_append, or_and_right, exists_or, ha, false_or]
      rw [decide_eq_false ha, if_neg Bool.false_ne_true, Nat.add_zero]
      exact if_congr hall.symm rfl rfl

theorem coversOnce (hw : 0 < w) (hpos : ∀ r ∈ rs, 0 < r.2) (hrows : rs.flatMap (runRows w) = rows)
    (hapart : rows.Pairwise fun a b => ∀ x, InRow w a x → ¬ InRow w b x) : CoversOnce w rows rs where
  pos := hpos
  order := hrows
  once row := by
    have hself : InRow w row row := ⟨le_rfl, Nat.lt_add_of_pos_right hw⟩
    have hone := countP_flatMap_once (f := runRows w) (P := fun b => b = row) (l := rs) (by
      rw [hrows]
      refine hapart.imp fun h ha hb => ?_
      rw [ha, hb] at h
      exact h row hself hself)
    simpa only [exists_eq_right, hrows] using hone
  words x := by
    have hone := countP_flatMap_once (f := runRows w) (P := fun b => InRow w b x) (l := rs) (by
      rw [hrows]
      exact hapart.imp fun h => h x)
    simpa only [← inRun_iff hw, hrows] using hone

theorem CoversOnce.covers (h : CoversOnce w rows rs) (hw : 0 < w) {row x : ℕ} (hrow : row ∈ rows) (hx : InRow w row x) :
    ∃ r ∈ rs, InRun w r x := by
  rw [← h.order] at hrow
  obtain ⟨r, hr, hin⟩ := List.mem_flatMap.mp hrow
  exact ⟨r, hr, (inRun_iff hw).mpr ⟨row, hin, hx⟩⟩

end Inferno.Lib
