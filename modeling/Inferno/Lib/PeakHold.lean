import Mathlib.Data.Finset.Lattice.Fold
import Mathlib.Order.Interval.Finset.Nat
import Mathlib.Tactic

/-! Two peak holds in a chain: the first takes the sounds, the second takes the first, and
each has a reader that resets it. The first shows what came since its own take; the second
shows also what the first still held at the first sound since. -/

namespace Inferno.Lib

variable {α : Type*} [SemilatticeSup α] [OrderBot α]

structure Held (α : Type*) where
  live : α
  copy : α

/-- A sound or nothing, and the takes of the two readers. -/
inductive HoldEvent (α : Type*) where
  | hear (v : Option α)
  | takeLive
  | takeCopy

def Held.after (h : Held α) : Option α → Held α
  | none => h
  | some v => ⟨h.live ⊔ v, h.copy ⊔ (h.live ⊔ v)⟩

def Held.next (h : Held α) : HoldEvent α → Held α
  | .hear v => h.after v
  | .takeLive => { h with live := ⊥ }
  | .takeCopy => { h with copy := ⊥ }

def heldAt (es : ℕ → HoldEvent α) : ℕ → Held α
  | 0 => ⟨⊥, ⊥⟩
  | k + 1 => (heldAt es k).next (es k)

def HoldEvent.sound : HoldEvent α → Option α
  | .hear v => v
  | _ => none

def HoldEvent.isTakeLive : HoldEvent α → Bool
  | .takeLive => true
  | _ => false

def HoldEvent.isTakeCopy : HoldEvent α → Bool
  | .takeCopy => true
  | _ => false

/-- Right behind the last event of `p` before `k`, or the beginning. -/
def since (p : ℕ → Bool) : ℕ → ℕ
  | 0 => 0
  | k + 1 => if p k then k + 1 else since p k

/-- The loudest of the events from `i` to before `k`. -/
def loudest (es : ℕ → HoldEvent α) (i k : ℕ) : α := (Finset.Ico i k).sup fun j => ((es j).sound).getD ⊥

variable {es : ℕ → HoldEvent α} {p : ℕ → Bool} {i j k f : ℕ}

theorem since_le (p : ℕ → Bool) (k : ℕ) : since p k ≤ k := by
  induction k with
  | zero => exact le_rfl
  | succ k ih =>
    rw [since]
    split_ifs
    · exact le_rfl
    · exact ih.trans (Nat.le_succ k)

theorem since_mono (p : ℕ → Bool) : Monotone (since p) := by
  refine monotone_nat_of_le_succ fun k => ?_
  rw [since]
  split_ifs
  · exact (since_le p k).trans (Nat.le_succ k)
  · exact le_rfl

theorem loudest_self (es : ℕ → HoldEvent α) (k : ℕ) : loudest es k k = ⊥ := by
  rw [loudest, Finset.Ico_self, Finset.sup_empty]

theorem loudest_succ (h : i ≤ k) : loudest es i (k + 1) = loudest es i k ⊔ ((es k).sound).getD ⊥ := by
  rw [loudest, Nat.Ico_succ_right_eq_insert_Ico h, Finset.sup_insert, sup_comm]
  rfl

theorem loudest_anti (h : i ≤ j) : loudest es j k ≤ loudest es i k :=
  Finset.sup_mono (Finset.Ico_subset_Ico h le_rfl)

theorem loudest_split (hi : i ≤ j) (hj : j ≤ k) : loudest es i k = loudest es i j ⊔ loudest es j k := by
  rw [loudest, ← Finset.Ico_union_Ico_eq_Ico hi hj, Finset.sup_union]
  rfl

theorem loudest_silent (h : ∀ m ∈ Finset.Ico i k, (es m).sound = none) : loudest es i k = ⊥ := by
  rw [loudest, Finset.sup_eq_bot_iff]
  intro m hm
  rw [h m hm]
  rfl

theorem live_eq (es : ℕ → HoldEvent α) (k : ℕ) :
    (heldAt es k).live = loudest es (since (fun j => (es j).isTakeLive) k) k := by
  induction k with
  | zero => exact (loudest_self es 0).symm
  | succ k ih =>
    have hle := since_le (fun j => (es j).isTakeLive) k
    rw [heldAt, since]
    cases he : es k with
    | hear v =>
      rw [if_neg (by simp [HoldEvent.isTakeLive]), loudest_succ hle, ← ih, he]
      cases v with
      | none => exact (sup_bot_eq _).symm
      | some v => rfl
    | takeLive =>
      rw [if_pos (by rfl), loudest_self]
      rfl
    | takeCopy =>
      rw [if_neg (by simp [HoldEvent.isTakeLive]), loudest_succ hle, ← ih, he]
      exact (sup_bot_eq _).symm

theorem copy_silent (h : ∀ j ∈ Finset.Ico (since (fun j => (es j).isTakeCopy) k) k, (es j).sound = none) :
    (heldAt es k).copy = ⊥ := by
  induction k with
  | zero => rfl
  | succ k ih =>
    rw [since] at h
    rw [heldAt]
    cases he : es k with
    | takeCopy => rfl
    | takeLive =>
      rw [if_neg (by simp [he, HoldEvent.isTakeCopy])] at h
      exact ih fun j hj => h j (Finset.Ico_subset_Ico le_rfl (Nat.le_succ k) hj)
    | hear v =>
      rw [if_neg (by simp [he, HoldEvent.isTakeCopy])] at h
      have hv : v = none := by
        have hk := h k (Finset.mem_Ico.mpr ⟨since_le _ k, Nat.lt_succ_self k⟩)
        rwa [he] at hk
      rw [hv]
      exact ih fun j hj => h j (Finset.Ico_subset_Ico le_rfl (Nat.le_succ k) hj)

/-- From the first sound on, the second hold shows all that the first had then. -/
theorem copy_eq (hf : f ∈ Finset.Ico (since (fun j => (es j).isTakeCopy) k) k) (hs : (es f).sound ≠ none)
    (hfirst : ∀ j ∈ Finset.Ico (since (fun j => (es j).isTakeCopy) k) f, (es j).sound = none) :
    (heldAt es k).copy = loudest es (since (fun j => (es j).isTakeLive) f) k := by
  induction k with
  | zero => exact absurd hf (by simp)
  | succ k ih =>
    obtain ⟨hlo, hhi⟩ := Finset.mem_Ico.mp hf
    rw [since] at hlo hfirst
    have hle : since (fun j => (es j).isTakeLive) f ≤ k := (since_le _ f).trans (Nat.le_of_lt_succ hhi)
    rw [heldAt, loudest_succ hle]
    cases he : es k with
    | takeCopy =>
      rw [if_pos (by simp [he, HoldEvent.isTakeCopy])] at hlo
      omega
    | takeLive =>
      rw [if_neg (by simp [he, HoldEvent.isTakeCopy])] at hlo hfirst
      have hne : f ≠ k := by
        rintro rfl
        exact hs (by rw [he]; rfl)
      have hlt : f < k := by omega
      exact (ih (Finset.mem_Ico.mpr ⟨hlo, hlt⟩) hfirst).trans (sup_bot_eq _).symm
    | hear v =>
      rw [if_neg (by simp [he, HoldEvent.isTakeCopy])] at hlo hfirst
      rcases Nat.lt_or_ge f k with hlt | hge
      · have hcopy := ih (Finset.mem_Ico.mpr ⟨hlo, hlt⟩) hfirst
        cases v with
        | none => exact hcopy.trans (sup_bot_eq _).symm
        | some v =>
          -- what the first hold has now it had already when `f` came
          have hlive : (heldAt es k).live ≤ loudest es (since (fun j => (es j).isTakeLive) f) k := by
            rw [live_eq]
            exact loudest_anti (since_mono _ hlt.le)
          simp only [Held.next, Held.after, hcopy, HoldEvent.sound, Option.getD_some]
          rw [← sup_assoc, sup_eq_left.mpr hlive]
      · obtain rfl : f = k := by omega
        have hempty := copy_silent hfirst
        cases v with
        | none => exact absurd (by rw [he]; rfl) hs
        | some v => simp only [Held.next, Held.after, hempty, live_eq, HoldEvent.sound, Option.getD_some, bot_sup_eq]

/-- What the second reader gets beyond its own is what came between the first reader's take
and its own. -/
theorem copy_eq_own (hf : f ∈ Finset.Ico (since (fun j => (es j).isTakeCopy) k) k) (hs : (es f).sound ≠ none)
    (hfirst : ∀ j ∈ Finset.Ico (since (fun j => (es j).isTakeCopy) k) f, (es j).sound = none) :
    (heldAt es k).copy = loudest es (since (fun j => (es j).isTakeCopy) k) k ⊔
      loudest es (since (fun j => (es j).isTakeLive) f) (since (fun j => (es j).isTakeCopy) k) := by
  obtain ⟨hlo, hhi⟩ := Finset.mem_Ico.mp hf
  have huf := since_le (fun j => (es j).isTakeLive) f
  rw [copy_eq hf hs hfirst]
  rcases le_total (since (fun j => (es j).isTakeLive) f) (since (fun j => (es j).isTakeCopy) k) with hu | hu
  · rw [loudest_split hu (hlo.trans hhi.le), sup_comm]
  · have hquiet : loudest es (since (fun j => (es j).isTakeCopy) k) (since (fun j => (es j).isTakeLive) f) = ⊥ :=
      loudest_silent fun m hm => hfirst m (Finset.Ico_subset_Ico le_rfl huf hm)
    have hnone : loudest es (since (fun j => (es j).isTakeLive) f) (since (fun j => (es j).isTakeCopy) k) = ⊥ := by
      rw [loudest, Finset.Ico_eq_empty_of_le hu, Finset.sup_empty]
    rw [loudest_split hu (huf.trans hhi.le), hquiet, hnone, bot_sup_eq, sup_bot_eq]

end Inferno.Lib
