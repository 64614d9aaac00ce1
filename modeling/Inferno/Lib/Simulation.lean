import Mathlib.Tactic.Common

/-! Labelled transition systems with silent steps: what is seen of a run, and that a
step-by-step simulation carries it from one system to another. -/

namespace Inferno.Lib

variable {σ τ α : Type*}

/-- A run and what is seen of it: the labels of those of its steps that carry one. -/
inductive Seen (step : σ → Option α → σ → Prop) : σ → List α → σ → Prop where
  | nil (s) : Seen step s [] s
  | cons {s l s' ls s''} (h : step s l s') (hr : Seen step s' ls s'') : Seen step s (l.toList ++ ls) s''

variable {step : σ → Option α → σ → Prop} {step' : τ → Option α → τ → Prop}

theorem Seen.single {s s' : σ} {l : Option α} (h : step s l s') : Seen step s l.toList s' := by
  have hr := Seen.cons h (Seen.nil s')
  rwa [List.append_nil] at hr

theorem Seen.append {s s' s'' : σ} {ls ls' : List α} (h : Seen step s ls s') (h' : Seen step s' ls' s'') :
    Seen step s (ls ++ ls') s'' := by
  induction h with
  | nil => exact h'
  | cons hs _ ih =>
    rw [List.append_assoc]
    exact .cons hs (ih h')

/-- Where each step of one system is matched by a run of the other that shows the same,
so is each run. -/
theorem Seen.simulated {R : σ → τ → Prop}
    (hR : ∀ s t l s', R s t → step s l s' → ∃ t', Seen step' t l.toList t' ∧ R s' t')
    {s s' : σ} {ls : List α} (hr : Seen step s ls s') {t : τ} (h : R s t) :
    ∃ t', Seen step' t ls t' ∧ R s' t' := by
  induction hr generalizing t with
  | nil => exact ⟨t, .nil t, h⟩
  | cons hs _ ih =>
    obtain ⟨t₁, h₁, hR₁⟩ := hR _ _ _ _ h hs
    obtain ⟨t₂, h₂, hR₂⟩ := ih hR₁
    exact ⟨t₂, h₁.append h₂, hR₂⟩

end Inferno.Lib
