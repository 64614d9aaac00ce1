import Inferno.Lib.Window
import Inferno.Proofs.ServoLock

/-! The low-edge filter. However the window was filled since it was last cleared, an update
of the filter gives the second lowest of the newest samples, the phase moved since put
back: late samples cannot raise it past the two earliest, and one early sample cannot
bring it below the rest. -/

namespace Inferno

open Lib

variable {D : Type}

theorem sortInsert_eq (k : ℤ) (l : List ℤ) : sortInsert k l = l.orderedInsert (· ≥ ·) k := by
  induction l with
  | nil => rfl
  | cons x l ih =>
    rw [sortInsert, List.orderedInsert_cons]
    split_ifs with h1 h2 h2
    · omega
    · rw [ih]
    · rfl
    · omega

theorem sortTmp_sorts (l : List ℤ) : (sortTmp l).Perm l ∧ (sortTmp l).Pairwise (· ≤ ·) := by
  have hfold : ∀ (l acc : List ℤ), acc.Pairwise (· ≥ ·) →
      (l.foldl (fun acc k => sortInsert k acc) acc).Perm (l ++ acc) ∧
        (l.foldl (fun acc k => sortInsert k acc) acc).Pairwise (· ≥ ·) := by
    intro l
    induction l with
    | nil => exact fun acc h => ⟨List.Perm.refl _, h⟩
    | cons k l ih =>
      intro acc h
      have hins : (sortInsert k acc).Pairwise (· ≥ ·) := by
        rw [sortInsert_eq]
        exact h.orderedInsert k acc
      obtain ⟨hperm, hsort⟩ := ih (sortInsert k acc) hins
      refine ⟨hperm.trans ?_, hsort⟩
      rw [sortInsert_eq]
      exact ((List.perm_orderedInsert (· ≥ ·) k acc).append_left l).trans List.perm_middle
  obtain ⟨hperm, hsort⟩ := hfold l [] List.Pairwise.nil
  rw [List.append_nil] at hperm
  exact ⟨(List.reverse_perm _).trans hperm, List.pairwise_reverse.mpr hsort⟩

/-- The states a window can be in, with the values stored since it was cleared, newest
first. Between updates anything but the window itself may change. -/
inductive WindowHistory : PtpServo D → List ℤ → Prop
  | cleared (s : PtpServo D) : WindowHistory (ptpServoClearFilter s) []
  | between {s s' : PtpServo D} {vals : List ℤ} (h : WindowHistory s vals) (hw : s'.win = s.win)
      (hp : s'.winPos = s.winPos) (hc : s'.winCount = s.winCount) : WindowHistory s' vals
  | pushed {s : PtpServo D} {vals : List ℤ} (h : WindowHistory s vals) (o : ℤ) :
      WindowHistory (windowPush s o).1 ((o - s.compNs) :: vals)

/-- What the window says of the values stored. -/
structure Windowed (s : PtpServo D) (vals : List ℤ) : Prop where
  newest : Newest PS_WIN_LOCKED s.win s.winPos vals
  count : s.winCount = min vals.length PS_WIN_LOCKED

theorem Windowed.store {s : PtpServo D} {vals : List ℤ} (h : Windowed s vals) (o : ℤ) :
    Windowed (windowStore s o) ((o - s.compNs) :: vals) where
  newest := by
    have hpos : (windowStore s o).winPos = (s.winPos + 1) % PS_WIN_LOCKED := by
      have hlt : (s.winPos + 1) % PS_WIN_LOCKED < PS_WIN_LOCKED := Nat.mod_lt _ (by decide)
      simp only [windowStore, u8, PS_WIN_LOCKED] at hlt ⊢
      omega
    rw [hpos]
    exact h.newest.push (o - s.compNs)
  count := by
    simp only [windowStore, h.count, u8, PS_WIN_LOCKED, List.length_cons]
    split_ifs <;> omega

theorem WindowHistory.windowed {s : PtpServo D} {vals : List ℤ} (h : WindowHistory s vals) : Windowed s vals := by
  induction h with
  | cleared s => exact ⟨Newest.nil (Nat.zero_lt_succ 31) _, rfl⟩
  | between h hw hp hc ih => exact ⟨by rw [hw, hp]; exact ih.newest, by rw [hc]; exact ih.count⟩
  | pushed h o ih => exact ih.store o

/-- How many samples the filter looks at, after a store. -/
def edgeLen (s : PtpServo D) (o : ℤ) : ℕ :=
  min (windowStore s o).winCount (max PS_WIN_ACQ ((windowStore s o).winN4 / 4))

theorem windowLen_eq (s : PtpServo D) (o : ℤ) : windowLen (windowStore s o) = edgeLen s o := by
  simp only [windowLen, edgeLen]
  split_ifs <;> omega

theorem Windowed.edgeLen_bounds {s : PtpServo D} {vals : List ℤ} (h : Windowed s vals) (o : ℤ) :
    1 ≤ edgeLen s o ∧ edgeLen s o ≤ PS_WIN_LOCKED ∧ edgeLen s o ≤ vals.length + 1 := by
  have hc := (h.store o).count
  rw [List.length_cons] at hc
  simp only [edgeLen, hc, PS_WIN_ACQ, PS_WIN_LOCKED]
  omega

theorem windowPush_ranked {s : PtpServo D} {vals : List ℤ} (h : Windowed s vals) (o : ℤ) :
    ranked (if edgeLen s o = 1 then 0 else 1) (((o - s.compNs) :: vals).take (edgeLen s o)) =
      some ((windowPush s o).2 - s.compNs) := by
  obtain ⟨h1, h32, hlen⟩ := h.edgeLen_bounds o
  have hread : windowNewest (windowStore s o) (edgeLen s o) = ((o - s.compNs) :: vals).take (edgeLen s o) :=
    (h.store o).newest.read h32 hlen
  obtain ⟨hperm, hsort⟩ := sortTmp_sorts (((o - s.compNs) :: vals).take (edgeLen s o))
  have hrank : (if edgeLen s o > PS_WIN_RANK then PS_WIN_RANK else u8 (edgeLen s o + 2 ^ 8 - 1)) =
      if edgeLen s o = 1 then 0 else 1 := by
    by_cases hone : edgeLen s o = 1
    · rw [if_pos hone, hone]
      rfl
    · rw [if_neg hone, if_pos (by simp only [PS_WIN_RANK]; omega)]
      rfl
  have hin : (if edgeLen s o = 1 then 0 else 1) < (sortTmp (((o - s.compNs) :: vals).take (edgeLen s o))).length := by
    rw [hperm.length_eq, List.length_take, List.length_cons]
    split_ifs <;> omega
  have hout : (windowPush s o).2 =
      (sortTmp (((o - s.compNs) :: vals).take (edgeLen s o))).getD (if edgeLen s o = 1 then 0 else 1) 0 + s.compNs := by
    simp only [windowPush, windowLen_eq, hread, hrank]
    rfl
  rw [ranked_eq hperm hsort, hout, List.getD_eq_getElem?_getD, List.getElem?_eq_getElem hin, Option.getD_some,
    add_sub_cancel_right]

/-- Whatever the window has been through since it was cleared, the filter gives the second
lowest of the newest samples (the lowest where there is one only). Two samples that give
at most `b` hold the result to `b`; any one sample may be as early as it likes, and the
result stays at or above the rest. -/
theorem low_edge_second_lowest {s : PtpServo D} {vals : List ℤ} (h : WindowHistory s vals) (o : ℤ) :
    (((o - s.compNs) :: vals).take (edgeLen s o)).length = edgeLen s o ∧
    ranked (if edgeLen s o = 1 then 0 else 1) (((o - s.compNs) :: vals).take (edgeLen s o)) =
      some ((windowPush s o).2 - s.compNs) ∧
    (∀ b i j (hij : i < j) (hj : j < (((o - s.compNs) :: vals).take (edgeLen s o)).length),
      (((o - s.compNs) :: vals).take (edgeLen s o)).get ⟨i, hij.trans hj⟩ + s.compNs ≤ b →
      (((o - s.compNs) :: vals).take (edgeLen s o))[j] + s.compNs ≤ b → (windowPush s o).2 ≤ b) ∧
    (2 ≤ edgeLen s o → ∀ i m,
      (∀ j (hj : j < (((o - s.compNs) :: vals).take (edgeLen s o)).length), j ≠ i →
        m ≤ (((o - s.compNs) :: vals).take (edgeLen s o))[j] + s.compNs) → m ≤ (windowPush s o).2) := by
  have hw := h.windowed
  obtain ⟨h1, -, hlen⟩ := hw.edgeLen_bounds o
  have hv := windowPush_ranked hw o
  set newest := ((o - s.compNs) :: vals).take (edgeLen s o) with hnewest
  have hn : newest.length = edgeLen s o := by
    rw [hnewest, List.length_take, List.length_cons]
    omega
  refine ⟨hn, hv, fun b i j hij hj hi hb => ?_, fun h2 i m hm => ?_⟩
  · have htwo := two_le_countP (P := fun v => decide (v ≤ b - s.compNs)) hij hj
      (decide_eq_true (by omega)) (decide_eq_true (by omega))
    have hle := (ranked_le_iff hv (b - s.compNs)).mpr (by split_ifs <;> omega)
    omega
  · have hone := countP_le_one (l := newest) (P := fun v => decide (v < m - s.compNs)) (i := i)
      fun j hj hne => decide_eq_false (by have := hm j hj hne; omega)
    have hge : ¬ (windowPush s o).2 - s.compNs < m - s.compNs := by
      rw [ranked_lt_iff hv, if_neg (by omega)]
      omega
    omega

/-- Nine samples, the fourth 90 us late and the sixth 50 us early: neither shows. -/
theorem low_edge_second_lowest_nine :
    (windowPush ([3, 1, 4, 90000, 5, -50000, 2, 6].foldl (fun s o => (windowPush s o).1)
      (ptpServoClearFilter (ptpServoInit flatDbl))) 7).2 = 1 ∧
    ranked 1 [7, 6, 2, -50000, 5, 90000, 4, 1] = some 1 := by
  have h0 : WindowHistory (ptpServoClearFilter (ptpServoInit flatDbl)) [] := .cleared _
  have h8 := ((((((((h0.pushed 3).pushed 1).pushed 4).pushed 90000).pushed 5).pushed (-50000)).pushed 2).pushed 6)
  exact ⟨by decide +kernel, (low_edge_second_lowest h8 7).2.1⟩

def PtpServo.window (s : PtpServo D) : (ℕ → ℤ) × ℕ × ℕ := (s.win, s.winPos, s.winCount)

theorem WindowHistory.same {s s' : PtpServo D} {vals : List ℤ} (h : WindowHistory s vals) (hw : s'.window = s.window) :
    WindowHistory s' vals := by
  simp only [PtpServo.window, Prod.mk.injEq] at hw
  exact h.between hw.1 hw.2.1 hw.2.2

theorem window_compensate (s : PtpServo D) (t : ℤ) : (compensate s t).window = s.window := by
  unfold compensate
  split_ifs <;> rfl

theorem window_estimate (A : Dbl D) (s : PtpServo D) (o t : ℤ) : (estimate A s o t).window = s.window := by
  have hadd : (estimateAdd A s o t).window = s.window := by
    unfold estimateAdd
    split_ifs <;> rfl
  rw [← hadd]
  simp only [estimate]
  split_ifs <;> rfl

theorem window_servoBack (s : PtpServo D) (f : ℤ) : (servoBack s f).s.window = s.window := by
  have hback : (servoBack s f).s.window = (hysteresis (piUpdate s f).1 f).window := rfl
  rw [hback]
  simp only [hysteresis]
  split_ifs <;> rfl

theorem window_jumpCheck (s : PtpServo D) (f t : ℤ) :
    match jumpCheck s f t with
    | .hold s' _ => s'.window = s.window ∨ s'.window = (ptpServoClearFilter s).window
    | .go s' => s'.window = s.window := by
  simp only [jumpCheck]
  split_ifs <;> first | exact rfl | exact .inl rfl | exact .inr rfl

/-- What a call does to the values stored: it drops them, leaves them, or puts one more in
front. -/
inductive WindowTurn (s s' : PtpServo D) (vals vals' : List ℤ) : Prop
  | cleared (hv : vals' = []) (hc : s'.winCount = 0)
  | left (hv : vals' = vals) (hw : s'.window = s.window)
  | stored (v : ℤ) (hv : vals' = v :: vals) (hp : s'.winPos = u8 ((s.winPos + 1) % PS_WIN_LOCKED)) (hc : s'.winCount ≠ 0)

theorem WindowHistory.update (A : Dbl D) {s : PtpServo D} {vals : List ℤ} (h : WindowHistory s vals) (o t : ℤ) :
    ∃ vals', WindowHistory (ptpServoUpdate A s o t).s vals' ∧ WindowTurn s (ptpServoUpdate A s o t).s vals vals' := by
  simp only [ptpServoUpdate, servoFront_eq]
  split_ifs with hc hd
  · exact ⟨[], (WindowHistory.cleared s).same rfl, .cleared rfl rfl⟩
  · exact ⟨vals, h.same (window_estimate A _ _ _), .left rfl (window_estimate A _ _ _)⟩
  · -- the update of the filter, then the jump check and the PI path
    have hcomp : WindowHistory (compensate { s with offsetNs := o } t) vals := h.same (window_compensate _ _)
    have hpos : (compensate { s with offsetNs := o } t).winPos = s.winPos :=
      congrArg (fun w => w.2.1) (window_compensate { s with offsetNs := o } t)
    have hfront : WindowHistory (frontState s o t) ((o - (compensate { s with offsetNs := o } t).compNs) :: vals) :=
      (hcomp.pushed o).same rfl
    have hstored : ∀ s', s'.window = (frontState s o t).window →
        WindowTurn s s' vals ((o - (compensate { s with offsetNs := o } t).compNs) :: vals) := by
      intro s' hw
      simp only [PtpServo.window, Prod.mk.injEq] at hw
      refine .stored _ rfl (hw.2.1.trans ?_) ?_
      · rw [← hpos]
        rfl
      · rw [hw.2.2, hfront.windowed.count]
        simp [PS_WIN_LOCKED]
    have hj := window_jumpCheck (frontState s o t) (lowEdge s o t) t
    cases hjc : jumpCheck (frontState s o t) (lowEdge s o t) t with
    | hold s' step =>
      rw [hjc] at hj
      rcases hj with hj | hj
      · exact ⟨_, hfront.same hj, hstored s' hj⟩
      · exact ⟨[], (WindowHistory.cleared _).same hj, .cleared rfl (congrArg (fun w => w.2.2) hj)⟩
    | go s' =>
      rw [hjc] at hj
      have hw := (window_servoBack s' (lowEdge s o t)).trans hj
      exact ⟨_, hfront.same hw, hstored _ hw⟩

theorem WindowHistory.step (A : Dbl D) {s : PtpServo D} {vals : List ℤ} (h : WindowHistory s vals) (c : ServoCall) :
    ∃ vals', WindowHistory (servoStep A s c) vals' := by
  have hentry : ∃ vals', WindowHistory (c.entry s) vals' := by
    unfold ServoCall.entry
    split_ifs
    · exact ⟨[], .cleared s⟩
    · exact ⟨vals, h⟩
  obtain ⟨vals', h'⟩ := hentry
  obtain ⟨vals'', h'', -⟩ := h'.update A c.offsetNs c.tNs
  exact ⟨vals'', h''⟩

theorem servoAt_windowHistory (A : Dbl D) (l : List ServoCall) (k : ℕ) : ∃ vals, WindowHistory (servoAt A l k) vals :=
  run_induct (servoStep A) (P := fun _ s => ∃ vals, WindowHistory s vals)
    ⟨[], (WindowHistory.cleared (ptpServoInit A)).same rfl⟩ (fun _ c ⟨_, h⟩ => h.step A c) (l.take k)

end Inferno
