import Mathlib.Tactic

/-! A ring of `n` cells as a queue: one side writes at the back, the other takes from the
front, and a cell's own content says which of the two it belongs to. -/

namespace Inferno.Lib

variable {α β : Type*} {n : ℕ} [NeZero n]

def slot (n : ℕ) [NeZero n] (k : ℕ) : Fin n := Fin.ofNat n k

@[simp] theorem slot_val (k : ℕ) : (slot n k).val = k % n := rfl

theorem slot_add_size (k : ℕ) : slot n (k + n) = slot n k := Fin.ext (Nat.add_mod_right k n)

theorem slot_inj {k i j : ℕ} (hi : i < n) (hj : j < n) (h : slot n (k + i) = slot n (k + j)) : i = j := by
  have hmod : (k + i) ≡ (k + j) [MOD n] := congrArg Fin.val h
  have hij : i ≡ j [MOD n] := Nat.ModEq.add_left_cancel' k hmod
  rwa [Nat.ModEq, Nat.mod_eq_of_lt hi, Nat.mod_eq_of_lt hj] at hij

/-- From position `head` on the ring holds `q`, and its other cells belong to the side
that writes. `Cell c (some b)` is that the cell `c` holds `b` for the side that takes,
`Cell c none` that it is the writer's. -/
structure RingHolds (Cell : α → Option β → Prop) (ring : Fin n → α) (head : ℕ) (q : List β) : Prop where
  fits : q.length ≤ n
  cells : ∀ j < n, Cell (ring (slot n (head + j))) q[j]?

namespace RingHolds

variable {Cell : α → Option β → Prop} {ring : Fin n → α} {head : ℕ} {q : List β}

theorem get (h : RingHolds Cell ring head q) {j : ℕ} (hj : j < q.length) :
    Cell (ring (slot n (head + j))) (some q[j]) := by
  rw [← List.getElem?_eq_getElem hj]
  exact h.cells j (hj.trans_le h.fits)

theorem back (h : RingHolds Cell ring head q) (hroom : q.length < n) :
    Cell (ring (slot n (head + q.length))) none := by
  rw [← List.getElem?_eq_none (le_refl q.length)]
  exact h.cells _ hroom

theorem front (h : RingHolds Cell ring head q) : Cell (ring (slot n head)) q.head? := by
  rw [List.head?_eq_getElem?]
  exact h.cells 0 (Nat.pos_of_neZero n)

theorem room (h : RingHolds Cell ring head q) (hx : ∀ c b, Cell c (some b) → ¬Cell c none)
    (hfree : Cell (ring (slot n (head + q.length))) none) : q.length < n := by
  refine lt_of_le_of_ne h.fits fun hfull => ?_
  -- a full queue ends a round after its front, in the same cell
  have hpos : 0 < q.length := hfull ▸ Nat.pos_of_neZero n
  rw [hfull, slot_add_size] at hfree
  exact hx _ _ (h.get hpos) hfree

theorem room_at (h : RingHolds Cell ring head q) (hx : ∀ c b, Cell c (some b) → ¬Cell c none) {j : ℕ} (hj : j < n)
    (hfree : Cell (ring (slot n (head + (q.length + j)))) none) : q.length + j < n := by
  by_contra hge
  have hfits := h.fits
  -- one round back it would be a cell of the queue
  have hback : head + (q.length + j) = head + (q.length + j - n) + n := by omega
  rw [hback, slot_add_size] at hfree
  exact hx _ _ (h.get (j := q.length + j - n) (by omega)) hfree

theorem set_free (h : RingHolds Cell ring head q) (hx : ∀ c b, Cell c (some b) → ¬Cell c none) {i : Fin n}
    (hfree : Cell (ring i) none) {c : α} (hc : Cell c none) : RingHolds Cell (Function.update ring i c) head q := by
  refine ⟨h.fits, fun j hj => ?_⟩
  have hcell := h.cells j hj
  by_cases hi : slot n (head + j) = i
  · rw [hi] at hcell ⊢
    rw [Function.update_self]
    cases hq : q[j]? with
    | none => exact hc
    | some b =>
      rw [hq] at hcell
      exact absurd hfree (hx _ _ hcell)
  · rwa [Function.update_of_ne hi]

theorem push (h : RingHolds Cell ring head q) (hroom : q.length < n) {c : α} {b : β} (hc : Cell c (some b)) :
    RingHolds Cell (Function.update ring (slot n (head + q.length)) c) head (q ++ [b]) := by
  refine ⟨by rw [List.length_append]; exact hroom, fun j hj => ?_⟩
  by_cases hjq : j = q.length
  · subst hjq
    rwa [Function.update_self, List.getElem?_append_right le_rfl, Nat.sub_self, List.getElem?_cons_zero]
  · have hcell := h.cells j hj
    rw [Function.update_of_ne (fun heq => hjq (slot_inj hj hroom heq))]
    rcases Nat.lt_or_ge j q.length with hlt | hge
    · rwa [List.getElem?_append_left hlt]
    · rw [List.getElem?_eq_none hge] at hcell
      rwa [List.getElem?_eq_none (by rw [List.length_append, List.length_singleton]; omega)]

theorem pop {b : β} (h : RingHolds Cell ring head (b :: q)) {c : α} (hc : Cell c none) :
    RingHolds Cell (Function.update ring (slot n head) c) (head + 1) q := by
  have hfits : q.length < n := h.fits
  refine ⟨hfits.le, fun j hj => ?_⟩
  by_cases hjn : j + 1 = n
  · -- the cell handed back is the last of the new round
    have hcell : slot n (head + 1 + j) = slot n head := by rw [Nat.add_assoc, Nat.add_comm 1 j, hjn, slot_add_size]
    rwa [hcell, Function.update_self, List.getElem?_eq_none (by omega)]
  · have hnext : head + 1 + j = head + (j + 1) := by omega
    have hne : slot n (head + (j + 1)) ≠ slot n head := fun heq => by
      have := slot_inj (k := head) (i := j + 1) (j := 0) (by omega) (Nat.pos_of_neZero n) heq
      omega
    have hcell := h.cells (j + 1) (by omega)
    rw [hnext, Function.update_of_ne hne]
    rwa [List.getElem?_cons_succ] at hcell

theorem empty (h : ∀ i, Cell (ring i) none) (head : ℕ) : RingHolds Cell ring head [] :=
  ⟨Nat.zero_le n, fun _ _ => h _⟩

end RingHolds

end Inferno.Lib
