import Mathlib.Tactic

/-! Checked runs: a program written twice, once as it computes and once with every
access checked first. The rules say when the second returns what the first does. -/

namespace Inferno.Lib

universe v

variable {ε ι : Type*} {σ α β : Type v}

def checked (e : ε) (p : Prop) [Decidable p] (a : α) : Except ε α := if p then .ok a else .error e

theorem checked_ok {e : ε} {p : Prop} [Decidable p] (h : p) (a : α) : checked e p a = .ok a := if_pos h

/-- `k` bytes fetched at `i` from an area of `n`. -/
def fetch (e : ε) (n i k : ℕ) (a : α) : Except ε α := checked e (i + k ≤ n) a

theorem fetch_ok {e : ε} {n i k : ℕ} (h : i + k ≤ n) (a : α) : fetch e n i k a = .ok a := checked_ok h a

@[simp] theorem ok_bind (a : α) (f : α → Except ε β) : (Except.ok a >>= f) = f a := rfl

@[simp] theorem pure_eq_ok (a : α) : (pure a : Except ε α) = .ok a := rfl

theorem of_bind_ok {x : Except ε α} {f : α → Except ε β} {b : β} (h : (x >>= f) = .ok b) : ∃ a, x = .ok a ∧ f a = .ok b := by
  cases x with
  | error e => cases h
  | ok a => exact ⟨a, rfl, h⟩

/-- A checked loop: every round passes its checks under an invariant that the plain
round keeps. -/
theorem foldlM_ok {f : σ → ι → Except ε σ} {g : σ → ι → σ} {P : σ → Prop} {l : List ι}
    (h : ∀ s, P s → ∀ a ∈ l, f s a = .ok (g s a) ∧ P (g s a)) {s : σ} (hs : P s) :
    l.foldlM f s = .ok (l.foldl g s) := by
  induction l generalizing s with
  | nil => rfl
  | cons a l ih =>
    obtain ⟨hok, hnext⟩ := h s hs a List.mem_cons_self
    rw [List.foldlM_cons, hok, ok_bind, List.foldl_cons]
    exact ih (fun s hs b hb => h s hs b (List.mem_cons_of_mem _ hb)) hnext

theorem foldl_induct {g : σ → ι → σ} {P : σ → Prop} {l : List ι} (h : ∀ s, P s → ∀ a ∈ l, P (g s a)) {s : σ}
    (hs : P s) : P (l.foldl g s) := by
  induction l generalizing s with
  | nil => exact hs
  | cons a l ih =>
    exact ih (fun s hs b hb => h s hs b (List.mem_cons_of_mem _ hb)) (h s hs a List.mem_cons_self)

/-- A checked loop whose rounds keep an invariant and pass their checks under it. -/
theorem foldlM_keeps {f : σ → ι → Except ε σ} {P : σ → Prop} {l : List ι}
    (h : ∀ s, P s → ∀ a ∈ l, ∃ s', f s a = .ok s' ∧ P s') {s : σ} (hs : P s) : ∃ s', l.foldlM f s = .ok s' ∧ P s' := by
  induction l generalizing s with
  | nil => exact ⟨s, rfl, hs⟩
  | cons a l ih =>
    obtain ⟨s', hok, hs'⟩ := h s hs a List.mem_cons_self
    rw [List.foldlM_cons, hok, ok_bind]
    exact ih (fun s hs b hb => h s hs b (List.mem_cons_of_mem _ hb)) hs'

/-- From `s`, the run `x` returns, and `Q` holds of what it returns and of the state then. -/
def Ends (x : StateT σ (Except ε) α) (s : σ) (Q : α → σ → Prop) : Prop := ∃ a s', x s = .ok (a, s') ∧ Q a s'

variable {x : StateT σ (Except ε) α} {s : σ} {Q R : α → σ → Prop}

theorem Ends.mono (h : Ends x s Q) (hQ : ∀ a s', Q a s' → R a s') : Ends x s R := by
  obtain ⟨a, s', hrun, hq⟩ := h
  exact ⟨a, s', hrun, hQ a s' hq⟩

theorem ends_pure {a : α} (h : Q a s) : Ends (pure a : StateT σ (Except ε) α) s Q := ⟨a, s, rfl, h⟩

theorem Ends.bind {f : α → StateT σ (Except ε) β} {P : β → σ → Prop} (h : Ends x s Q)
    (hf : ∀ a s', Q a s' → Ends (f a) s' P) : Ends (x >>= f) s P := by
  obtain ⟨a, s', hrun, hq⟩ := h
  obtain ⟨b, s'', hrest, hp⟩ := hf a s' hq
  refine ⟨b, s'', ?_, hp⟩
  change (x s >>= fun r => f r.1 r.2) = _
  rw [hrun, ok_bind, hrest]

theorem ends_lift {y : Except ε α} {a : α} (hy : y = .ok a) (h : Q a s) :
    Ends (StateT.lift y : StateT σ (Except ε) α) s Q := by
  subst hy
  exact ⟨a, s, rfl, h⟩

end Inferno.Lib
