import Mathlib.Tactic

/-! Runs of a deterministic machine, what an observer writes down along them, the states
within their steps, and how long the observer has been writing `true`. -/

namespace Inferno.Lib

variable {σ α β : Type*} (step : σ → α → σ)

/-- The state before the `k`-th input of a run. -/
def before (s : σ) (l : List α) (k : ℕ) : σ := (l.take k).foldl step s

@[simp] theorem before_zero (s : σ) (l : List α) : before step s l 0 = s := by simp [before]

theorem before_succ (s : σ) (l : List α) {k : ℕ} (hk : k < l.length) :
    before step s l (k + 1) = step (before step s l k) l[k] := by
  simp only [before, List.take_add_one, List.getElem?_eq_getElem hk, Option.toList_some,
    List.foldl_append, List.foldl_cons, List.foldl_nil]

theorem before_length (s : σ) (l : List α) : before step s l l.length = l.foldl step s := by
  simp [before]

/-- A fact about the inputs so far and the state they lead to holds of every run
once every step keeps it. -/
theorem run_induct {P : List α → σ → Prop} {s : σ} (h0 : P [] s)
    (hs : ∀ l a, P l (l.foldl step s) → P (l ++ [a]) (step (l.foldl step s) a)) (l : List α) :
    P l (l.foldl step s) := by
  induction l using List.reverseRecOn with
  | nil => exact h0
  | append_singleton l a ih => simpa [List.foldl_append] using hs l a ih

theorem run_induct_nodup {P : List α → σ → Prop} {s : σ} (h0 : P [] s)
    (hs : ∀ l a, l.Nodup → a ∉ l → P l (l.foldl step s) → P (l ++ [a]) (step (l.foldl step s) a)) {l : List α}
    (hl : l.Nodup) : P l (l.foldl step s) := by
  induction l using List.reverseRecOn with
  | nil => exact h0
  | append_singleton l a ih =>
    rw [← List.concat_eq_append, List.nodup_concat] at hl
    simpa [List.foldl_append] using hs l a hl.2 hl.1 (ih hl.2)

/-- What holds of the first state and after every step holds of every state of a run. -/
theorem forall_before_iff {Q : σ → Prop} {s : σ} {l : List α} :
    (∀ k, k ≤ l.length → Q (before step s l k)) ↔
      Q s ∧ ∀ k (hk : k < l.length), Q (step (before step s l k) l[k]) := by
  constructor
  · intro h
    refine ⟨by simpa using h 0 (Nat.zero_le _), fun k hk => ?_⟩
    rw [← before_succ step s l hk]
    exact h (k + 1) hk
  · rintro ⟨h0, h⟩ k hk
    cases k with
    | zero => rwa [before_zero]
    | succ k =>
      rw [before_succ step s l hk]
      exact h k hk

/-- Induction along a run whose steps all meet a condition on the state before them. -/
theorem guarded_run {P : List α → σ → Prop} {G : List α → σ → α → Prop} {s : σ} (h0 : P [] s)
    (hs : ∀ l t a, P l t → G l t a → P (l ++ [a]) (step t a)) {l : List α}
    (hg : ∀ k (hk : k < l.length), G (l.take k) (before step s l k) l[k]) {k : ℕ} (hk : k ≤ l.length) :
    P (l.take k) (before step s l k) := by
  induction k with
  | zero => simpa using h0
  | succ k ih =>
    have hlt : k < l.length := hk
    have hstep := hs _ _ _ (ih hlt.le) (hg k hlt)
    rwa [List.take_concat_get' l k hlt, ← before_succ step s l hlt] at hstep

/-- Where every step that meets the standing assumption `H` keeps the invariant under the
condition `G`, and shows `Q` just when it meets `G`, a run shows `Q` throughout just when
all its steps meet `G`. -/
theorem guarded_run_iff {P : σ → Prop} {H G Q : σ → α → Prop} {s : σ} (h0 : P s)
    (hs : ∀ t a, P t → H t a → G t a → P (step t a)) (hq : ∀ t a, P t → H t a → (Q t a ↔ G t a)) {l : List α}
    (hh : ∀ k (hk : k < l.length), H (before step s l k) l[k]) :
    (∀ k (hk : k < l.length), Q (before step s l k) l[k]) ↔ ∀ k (hk : k < l.length), G (before step s l k) l[k] := by
  -- the invariant holds for as long as the condition has been met
  have hinv : ∀ k, k ≤ l.length → (∀ j (hj : j < l.length), j < k → G (before step s l j) l[j]) →
      P (before step s l k) := by
    intro k
    induction k with
    | zero => exact fun _ _ => by rwa [before_zero]
    | succ k ih =>
      intro hk hg
      rw [before_succ step s l hk]
      exact hs _ _ (ih (by omega) fun j hj hjk => hg j hj (by omega)) (hh k hk) (hg k hk (by omega))
  constructor
  · intro h k
    induction k using Nat.strong_induction_on with
    | _ k ih =>
      intro hk
      exact (hq _ _ (hinv k hk.le fun j hj hjk => ih j hjk hj) (hh k hk)).1 (h k hk)
  · intro h k hk
    exact (hq _ _ (hinv k hk.le fun j hj _ => h j hj) (hh k hk)).2 (h k hk)

/-- The observations made along a run, one for each input. -/
def trace (obs : σ → α → β) : σ → List α → List β
  | _, [] => []
  | s, a :: l => obs s a :: trace obs (step s a) l

@[simp] theorem trace_nil (obs : σ → α → β) (s : σ) : trace step obs s [] = [] := rfl

@[simp] theorem trace_length (obs : σ → α → β) (s : σ) (l : List α) :
    (trace step obs s l).length = l.length := by
  induction l generalizing s with
  | nil => rfl
  | cons a l ih => simp [trace, ih]

theorem trace_concat (obs : σ → α → β) (s : σ) (l : List α) (a : α) :
    trace step obs s (l ++ [a]) = trace step obs s l ++ [obs (l.foldl step s) a] := by
  induction l generalizing s with
  | nil => rfl
  | cons b l ih => simp [trace, ih]

theorem trace_getElem (obs : σ → α → β) (s : σ) (l : List α) {k : ℕ} (hk : k < l.length)
    (ht : k < (trace step obs s l).length) : (trace step obs s l)[k] = obs (before step s l k) l[k] := by
  induction l generalizing s k with
  | nil => simp at hk
  | cons a l ih =>
    cases k with
    | zero => rfl
    | succ k => simpa [trace, before] using ih (step s a) (by simpa using hk) (by simpa using hk)

theorem trace_take (obs : σ → α → β) (s : σ) (l : List α) (k : ℕ) :
    trace step obs s (l.take k) = (trace step obs s l).take k := by
  induction l generalizing s k with
  | nil => simp
  | cons a l ih =>
    cases k with
    | zero => rfl
    | succ k => simp [trace, ih]

/-- States in a relation that every step keeps, and that the observer does not tell
apart, are followed by the same observations. -/
theorem trace_congr {R : σ → σ → Prop} {obs : σ → α → β} (hs : ∀ s t a, R s t → R (step s a) (step t a))
    (ho : ∀ s t a, R s t → obs s a = obs t a) {s t : σ} (h : R s t) (l : List α) :
    trace step obs s l = trace step obs t l := by
  induction l generalizing s t with
  | nil => rfl
  | cons a l ih => rw [trace, trace, ho s t a h, ih (hs s t a h)]

def tally (obs : σ → α → Bool) (s : σ) (l : List α) : ℕ := (trace step obs s l).count true

@[simp] theorem tally_nil (obs : σ → α → Bool) (s : σ) : tally step obs s [] = 0 := rfl

theorem tally_concat (obs : σ → α → Bool) (s : σ) (l : List α) (a : α) :
    tally step obs s (l ++ [a]) = tally step obs s l + (obs (l.foldl step s) a).toNat := by
  rw [tally, trace_concat, List.count_append, List.count_singleton, tally]
  cases obs (l.foldl step s) a <;> rfl

/-- Two totals modulo `M` agree all along a run just when every step adds the same to
both, steps adding less than `M`. -/
theorem totals_agree_iff {M : ℕ} {c t : σ → ℕ} {x y : σ → α → ℕ} {s : σ} {l : List α} (h0 : c s ≡ t s [MOD M])
    (hc : ∀ k (hk : k < l.length),
      c (step (before step s l k) l[k]) ≡ c (before step s l k) + x (before step s l k) l[k] [MOD M])
    (ht : ∀ k (hk : k < l.length),
      t (step (before step s l k) l[k]) ≡ t (before step s l k) + y (before step s l k) l[k] [MOD M])
    (hx : ∀ k (hk : k < l.length), x (before step s l k) l[k] < M)
    (hy : ∀ k (hk : k < l.length), y (before step s l k) l[k] < M) :
    (∀ k ≤ l.length, c (before step s l k) ≡ t (before step s l k) [MOD M]) ↔
      ∀ k (hk : k < l.length), x (before step s l k) l[k] = y (before step s l k) l[k] := by
  constructor
  · intro h k hk
    have hnext := h (k + 1) hk
    rw [before_succ step s l hk] at hnext
    have hsum : c (before step s l k) + x (before step s l k) l[k] ≡
        c (before step s l k) + y (before step s l k) l[k] [MOD M] :=
      calc c (before step s l k) + x (before step s l k) l[k]
          ≡ c (step (before step s l k) l[k]) [MOD M] := (hc k hk).symm
        _ ≡ t (step (before step s l k) l[k]) [MOD M] := hnext
        _ ≡ t (before step s l k) + y (before step s l k) l[k] [MOD M] := ht k hk
        _ ≡ c (before step s l k) + y (before step s l k) l[k] [MOD M] := (h k hk.le).symm.add_right _
    exact (Nat.ModEq.add_left_cancel' _ hsum).eq_of_lt_of_lt (hx k hk) (hy k hk)
  · intro h k
    induction k with
    | zero => exact fun _ => by rwa [before_zero]
    | succ k ih =>
      intro hk
      rw [before_succ step s l hk]
      calc c (step (before step s l k) l[k])
          ≡ c (before step s l k) + x (before step s l k) l[k] [MOD M] := hc k hk
        _ ≡ t (before step s l k) + y (before step s l k) l[k] [MOD M] := by
          rw [h k hk]
          exact (ih (Nat.le_of_succ_le hk)).add_right _
        _ ≡ t (step (before step s l k) l[k]) [MOD M] := (ht k hk).symm

/-- `j` is the last time before `n` at which `P` held. -/
structure LastBefore (P : ℕ → Prop) (n j : ℕ) : Prop where
  lt : j < n
  holds : P j
  since : ∀ i, j < i → i < n → ¬ P i

theorem LastBefore.unique {P : ℕ → Prop} {n i j : ℕ} (hi : LastBefore P n i) (hj : LastBefore P n j) : i = j := by
  rcases Nat.lt_trichotomy i j with h | h | h
  · exact absurd hj.holds (hi.since j h hj.lt)
  · exact h
  · exact absurd hi.holds (hj.since i h hi.lt)

/-- What only steps at `P` change is, since the last of them, as that one left it, or as
at the start. -/
theorem kept_since_last {γ : Type*} {f : σ → γ} {P : ℕ → Prop} {s : σ} {l : List α}
    (hf : ∀ k (hk : k < l.length), ¬ P k → f (step (before step s l k) l[k]) = f (before step s l k)) {n : ℕ}
    (hn : n ≤ l.length) :
    ((∀ i < n, ¬ P i) ∧ f (before step s l n) = f s) ∨
      ∃ j, LastBefore P n j ∧ f (before step s l n) = f (before step s l (j + 1)) := by
  induction n with
  | zero => exact .inl ⟨by simp, by rw [before_zero]⟩
  | succ n ih =>
    by_cases hp : P n
    · exact .inr ⟨n, ⟨Nat.lt_succ_self n, hp, fun i h1 h2 => absurd h1 (by omega)⟩, rfl⟩
    · have hkeep : f (before step s l (n + 1)) = f (before step s l n) := by
        rw [before_succ step s l hn]
        exact hf n hn hp
      rcases ih (Nat.le_of_succ_le hn) with ⟨hnone, h0⟩ | ⟨j, hj, hfj⟩
      · refine .inl ⟨fun i hi => ?_, hkeep.trans h0⟩
        rcases Nat.lt_succ_iff_lt_or_eq.mp hi with hi | rfl
        · exact hnone i hi
        · exact hp
      · refine .inr ⟨j, ⟨hj.lt.trans (Nat.lt_succ_self n), hj.holds, fun i h1 h2 => ?_⟩, hkeep.trans hfj⟩
        rcases Nat.lt_succ_iff_lt_or_eq.mp h2 with h2 | rfl
        · exact hj.since i h1 h2
        · exact hp

/-- The states a run passes through, when a step passes through those of `inner`. -/
def passes (inner : σ → α → List σ) (s : σ) (l : List α) : List σ := (trace step inner s l).flatten

theorem mem_passes {inner : σ → α → List σ} {s t : σ} {l : List α} :
    t ∈ passes step inner s l ↔ ∃ k, ∃ hk : k < l.length, t ∈ inner (before step s l k) l[k] := by
  rw [passes, List.mem_flatten]
  constructor
  · rintro ⟨ts, hts, ht⟩
    obtain ⟨k, hk, rfl⟩ := List.getElem_of_mem hts
    have hkl : k < l.length := by simpa using hk
    rw [trace_getElem step inner s l hkl] at ht
    exact ⟨k, hkl, ht⟩
  · rintro ⟨k, hk, ht⟩
    have hkt : k < (trace step inner s l).length := by simpa using hk
    refine ⟨_, List.getElem_mem hkt, ?_⟩
    rwa [trace_getElem step inner s l hk]

theorem getLastD_append (l l' : List α) (d : α) : (l ++ l').getLastD d = l'.getLastD (l.getLastD d) := by
  induction l generalizing d with
  | nil => rfl
  | cons a l ih => rw [List.cons_append, List.getLastD_cons, List.getLastD_cons, ih]

theorem passes_getLastD {inner : σ → α → List σ} (h : ∀ s a, (inner s a).getLastD s = step s a) (s : σ) (l : List α) :
    (passes step inner s l).getLastD s = l.foldl step s := by
  induction l generalizing s with
  | nil => rfl
  | cons a l ih =>
    have hrest := ih (step s a)
    rw [passes] at hrest
    rw [passes, trace, List.flatten_cons, getLastD_append, h, hrest, List.foldl_cons]

/-- The number of `true`s at the end of a list. -/
def streak (l : List Bool) : ℕ := (l.reverse.takeWhile id).length

@[simp] theorem streak_nil : streak [] = 0 := rfl

theorem streak_concat (l : List Bool) (b : Bool) :
    streak (l ++ [b]) = if b then streak l + 1 else 0 := by
  cases b <;> simp [streak]

/-- A streak of at least `n` is a suffix of `n` entries that are all `true`. -/
theorem le_streak_iff (l : List Bool) (n : ℕ) :
    n ≤ streak l ↔ n ≤ l.length ∧ ∀ k (hk : k < l.length), l.length ≤ k + n → l[k] = true := by
  induction l using List.reverseRecOn generalizing n with
  | nil => simp
  | append_singleton l b ih =>
    rw [streak_concat]
    cases n with
    | zero =>
      simp only [Nat.zero_le, true_and, Nat.add_zero, true_iff]
      intro k hk hle
      omega
    | succ n =>
      cases b with
      | false =>
        simp only [Bool.false_eq_true, if_false, Nat.le_zero, Nat.add_eq_zero_iff, one_ne_zero,
          and_false, false_iff, not_and]
        intro hn h
        have := h l.length (by simp) (by simp)
        simp at this
      | true =>
        simp only [if_true, Nat.add_le_add_iff_right, ih, List.length_append, List.length_singleton]
        refine and_congr_right fun hn => ⟨fun h k hk hle => ?_, fun h k hk hle => ?_⟩
        · by_cases hkl : k < l.length
          · rw [List.getElem_append_left hkl]
            exact h k hkl (by omega)
          · have : k = l.length := by omega
            simp [this]
        · have := h k (by omega) (by omega)
          rwa [List.getElem_append_left hk] at this

/-- The streak of an observer before input `k` says what it saw at the inputs just
before `k`. -/
theorem le_streak_trace_iff (obs : σ → α → Bool) (s : σ) (l : List α) {k : ℕ} (hk : k ≤ l.length)
    (n : ℕ) :
    n ≤ streak (trace step obs s (l.take k)) ↔
      n ≤ k ∧ ∀ j (hj : j < l.length), j < k → k ≤ j + n → obs (before step s l j) l[j] = true := by
  rw [le_streak_iff]
  have hlen : (l.take k).length = k := by simp [hk]
  simp only [trace_length, hlen]
  refine and_congr_right fun hn => ⟨fun h j hj hjk hle => ?_, fun h j hj hle => ?_⟩
  · have := h j hjk hle
    simp only [trace_take, List.getElem_take] at this
    rwa [trace_getElem step obs s l hj] at this
  · have hjl : j < l.length := by omega
    have := h j hjl hj hle
    simp only [trace_take, List.getElem_take]
    rwa [trace_getElem step obs s l hjl]

end Inferno.Lib
