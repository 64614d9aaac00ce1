import Mathlib.Tactic

/-! A ring of `M` slots as a moving window on an unbounded timeline. Slot `s` lives in
the cells `cell s i`, shared with slot `s + M`. A reader that has finished every slot
before `e` and blanks what it finishes shows the timeline on `[e, e + M)`. A store is an
overlay on the memory: overlays that agree where they meet commute. -/

namespace Inferno.Lib

variable {κ ι V : Type*} [Zero V] {cell : ℤ → ι → κ} {M : ℤ}

/-- Slots share a cell exactly when they are a whole number of laps apart. -/
structure Ring (cell : ℤ → ι → κ) (M : ℤ) : Prop where
  pos : 0 < M
  lap : ∀ s i, cell (s + M) i = cell s i
  inj : ∀ {s t i j}, cell s i = cell t j → s % M = t % M ∧ i = j

/-- The ring holds the timeline on the window from `e`, and nothing lies beyond it. -/
structure Shows (cell : ℤ → ι → κ) (M : ℤ) (mem : κ → V) (line : ℤ → ι → V) (e : ℤ) : Prop where
  window : ∀ s i, e ≤ s → s < e + M → mem (cell s i) = line s i
  ahead : ∀ s i, e + M ≤ s → line s i = 0

theorem Shows.blank {mem : κ → V} (h : ∀ s i, mem (cell s i) = 0) (e : ℤ) :
    Shows cell M mem (fun _ _ => 0) e :=
  ⟨fun s i _ _ => h s i, fun _ _ _ => rfl⟩

theorem Shows.stored {mem mem' : κ → V} {line : ℤ → ι → V} {e : ℤ} (h : Shows cell M mem line e)
    (w : ℤ → ι → Option V) (hin : ∀ s i, e + M ≤ s → w s i = none)
    (hm : ∀ s i, e ≤ s → s < e + M → mem' (cell s i) = (w s i).getD (mem (cell s i))) :
    Shows cell M mem' (fun s i => (w s i).getD (line s i)) e where
  window s i h1 h2 := by rw [hm s i h1 h2, h.window s i h1 h2]
  ahead s i hs := by rw [hin s i hs, Option.getD_none, h.ahead s i hs]

/-- Blanking the first `k` slots moves the window on: they come round again empty. -/
theorem Shows.advance (hr : Ring cell M) {mem mem' : κ → V} {line : ℤ → ι → V} {e k : ℤ}
    (h : Shows cell M mem line e) (h0 : 0 ≤ k)
    (hz : ∀ s i, e ≤ s → s < e + k → mem' (cell s i) = 0)
    (hm : ∀ s i, e + k ≤ s → s < e + M → mem' (cell s i) = mem (cell s i)) :
    Shows cell M mem' line (e + k) where
  window s i h1 h2 := by
    by_cases hs : s < e + M
    · rw [hm s i h1 hs, h.window s i (by omega) hs]
    · have hlap : cell s i = cell (s - M) i := by
        rw [← hr.lap (s - M) i, sub_add_cancel]
      rw [h.ahead s i (by omega), hlap, hz (s - M) i (by omega) (by omega)]
  ahead s i hs := h.ahead s i (by omega)

section Overlay

variable {K W : Type*} {m m₁ m₂ m₁₂ m₂₁ : K → W} {w w₁ w₂ : K → W → Prop}

/-- `m'` is `m` with the values of `w` laid over it. -/
structure Overlay (w : K → W → Prop) (m m' : K → W) : Prop where
  hit : ∀ {k v}, w k v → m' k = v
  miss : ∀ {k}, (∀ v, ¬ w k v) → m' k = m k

/-- Overlays that agree on the keys they share come to the same in either order. -/
theorem Overlay.comm (hagree : ∀ k v v', w₁ k v → w₂ k v' → v = v') (h1 : Overlay w₁ m m₁)
    (h12 : Overlay w₂ m₁ m₁₂) (h2 : Overlay w₂ m m₂) (h21 : Overlay w₁ m₂ m₂₁) : m₁₂ = m₂₁ := by
  funext k
  by_cases hw2 : ∃ v, w₂ k v
  · obtain ⟨v, hv⟩ := hw2
    rw [h12.hit hv]
    by_cases hw1 : ∃ v, w₁ k v
    · obtain ⟨v', hv'⟩ := hw1
      rw [h21.hit hv', hagree k v' v hv' hv]
    · rw [h21.miss (not_exists.mp hw1), h2.hit hv]
  · rw [h12.miss (not_exists.mp hw2)]
    by_cases hw1 : ∃ v, w₁ k v
    · obtain ⟨v, hv⟩ := hw1
      rw [h1.hit hv, h21.hit hv]
    · rw [h1.miss (not_exists.mp hw1), h21.miss (not_exists.mp hw1), h2.miss (not_exists.mp hw2)]

/-- What is laid over a second time, in whole or in part, changes nothing. -/
theorem Overlay.again (hsub : ∀ k v, w₂ k v → w₁ k v) (h1 : Overlay w₁ m m₁) (h2 : Overlay w₂ m₁ m₂) : m₂ = m₁ := by
  funext k
  by_cases hw : ∃ v, w₂ k v
  · obtain ⟨v, hv⟩ := hw
    rw [h2.hit hv, h1.hit (hsub k v hv)]
  · rw [h2.miss (not_exists.mp hw)]

end Overlay

end Inferno.Lib
