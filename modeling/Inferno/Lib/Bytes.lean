import Mathlib.Tactic

/-! Byte strings laid out in a buffer that grows at its end and is overwritten in its
middle: what lies where, and which writes leave it there. -/

namespace Inferno.Lib

variable {α : Type*} {bs cs b b' b'' : List α} {i j lo hi : ℕ}

/-- `bs` lies in `b` from index `i` on. -/
structure Sits (bs b : List α) (i : ℕ) : Prop where
  inside : i + bs.length ≤ b.length
  same : ∀ k < bs.length, b[i + k]? = bs[k]?

/-- `b'` is `b` with nothing lost and nothing below its end changed, `[lo, hi)` apart. -/
structure Only (lo hi : ℕ) (b b' : List α) : Prop where
  longer : b.length ≤ b'.length
  same : ∀ k < b.length, k < lo ∨ hi ≤ k → b'[k]? = b[k]?

def overwrite (b : List α) (i : ℕ) (cs : List α) : List α := b.take i ++ cs ++ b.drop (i + cs.length)

/-- `b'` is `b` with `cs` behind it. -/
structure Appended (cs b b' : List α) : Prop where
  start : b <+: b'
  sits : Sits cs b' b.length
  length : b'.length = b.length + cs.length

/-- `b'` is `b` with `cs` stored at `i`. -/
structure Overwritten (cs b b' : List α) (i : ℕ) : Prop where
  only : Only i (i + cs.length) b b'
  sits : Sits cs b' i
  length : b'.length = b.length

theorem Only.refl (lo hi : ℕ) (b : List α) : Only lo hi b b := ⟨le_rfl, fun _ _ _ => rfl⟩

theorem Only.trans (h : Only lo hi b b') (h' : Only lo hi b' b'') : Only lo hi b b'' :=
  ⟨h.longer.trans h'.longer, fun k hk hout => (h'.same k (hk.trans_le h.longer) hout).trans (h.same k hk hout)⟩

theorem Only.mono {lo' hi' : ℕ} (h : Only lo hi b b') (hlo : lo' ≤ lo) (hhi : hi ≤ hi') : Only lo' hi' b b' :=
  ⟨h.longer, fun k hk hout => h.same k hk (by omega)⟩

theorem only_append (lo hi : ℕ) (b c : List α) : Only lo hi b (b ++ c) :=
  ⟨by simp, fun _ hk _ => List.getElem?_append_left hk⟩

theorem only_of_start (lo hi : ℕ) (h : b <+: b') : Only lo hi b b' := by
  obtain ⟨c, rfl⟩ := h
  exact only_append lo hi b c

theorem overwrite_length (h : i + cs.length ≤ b.length) : (overwrite b i cs).length = b.length := by
  simp only [overwrite, List.length_append, List.length_take, List.length_drop]
  omega

theorem only_overwrite (h : i + cs.length ≤ b.length) : Only i (i + cs.length) b (overwrite b i cs) := by
  refine ⟨(overwrite_length h).ge, fun k hk hout => ?_⟩
  have htake : (b.take i).length = i := by rw [List.length_take]; omega
  rcases hout with hlow | hhigh
  · rw [overwrite, List.append_assoc, List.getElem?_append_left (by omega), List.getElem?_take_of_lt hlow]
  · rw [overwrite, List.getElem?_append_right (by rw [List.length_append]; omega), List.getElem?_drop,
      List.length_append, htake]
    congr 1
    omega

theorem Sits.frame (h : Sits bs b i) (ho : Only lo hi b b') (hout : i + bs.length ≤ lo ∨ hi ≤ i) : Sits bs b' i := by
  refine ⟨h.inside.trans ho.longer, fun k hk => ?_⟩
  have hin := h.inside
  rw [ho.same (i + k) (by omega) (by omega), h.same k hk]

theorem Sits.grow (h : Sits bs b i) (hb : b <+: b') : Sits bs b' i :=
  h.frame (only_of_start 0 0 hb) (Or.inr (Nat.zero_le i))

theorem Sits.append (h : Sits bs b i) (c : List α) : Sits bs (b ++ c) i := h.frame (only_append 0 0 b c) (by omega)

theorem sits_end (b c : List α) : Sits c (b ++ c) b.length :=
  ⟨by simp, fun k _ => by rw [List.getElem?_append_right (by omega), Nat.add_sub_cancel_left]⟩

theorem sits_overwrite (h : i + cs.length ≤ b.length) : Sits cs (overwrite b i cs) i := by
  refine ⟨h.trans (overwrite_length h).ge, fun k hk => ?_⟩
  have htake : (b.take i).length = i := by rw [List.length_take]; omega
  rw [overwrite, List.append_assoc, List.getElem?_append_right (by omega), htake,
    List.getElem?_append_left (by omega), Nat.add_sub_cancel_left]

theorem appended (b cs : List α) : Appended cs b (b ++ cs) := ⟨List.prefix_append b cs, sits_end b cs, List.length_append⟩

theorem overwritten (h : i + cs.length ≤ b.length) : Overwritten cs b (overwrite b i cs) i :=
  ⟨only_overwrite h, sits_overwrite h, overwrite_length h⟩

theorem sits_append_iff {x y : List α} : Sits (x ++ y) b i ↔ Sits x b i ∧ Sits y b (i + x.length) := by
  constructor
  · intro h
    have hin := h.inside
    rw [List.length_append] at hin
    refine ⟨⟨by omega, fun k hk => ?_⟩, ⟨by omega, fun k hk => ?_⟩⟩
    · rw [h.same k (by rw [List.length_append]; omega), List.getElem?_append_left hk]
    · rw [Nat.add_assoc, h.same (x.length + k) (by rw [List.length_append]; omega),
        List.getElem?_append_right (by omega), Nat.add_sub_cancel_left]
  · rintro ⟨hx, hy⟩
    have hin := hy.inside
    refine ⟨by rw [List.length_append]; omega, fun k hk => ?_⟩
    rw [List.length_append] at hk
    by_cases hkx : k < x.length
    · rw [List.getElem?_append_left hkx, hx.same k hkx]
    · rw [List.getElem?_append_right (by omega), ← hy.same (k - x.length) (by omega)]
      congr 1
      omega

theorem Sits.at (h : Sits bs b i) (e : i = j) : Sits bs b j := e ▸ h

theorem Sits.shift {c : List α} (h : Sits bs c i) (b : List α) : Sits bs (b ++ c) (b.length + i) := by
  refine ⟨by have := h.inside; rw [List.length_append]; omega, fun k hk => ?_⟩
  rw [List.getElem?_append_right (by omega), ← h.same k hk]
  congr 1
  omega

theorem Sits.record {β : Type*} {f : β → List α} {w : ℕ} (hw : ∀ x, (f x).length = w) {l : List β}
    (h : Sits (l.flatMap f) b i) {k : ℕ} (hk : k < l.length) : Sits (f (l.get ⟨k, hk⟩)) b (i + w * k) := by
  induction l generalizing i k with
  | nil => exact absurd hk (Nat.not_lt_zero k)
  | cons x l ih =>
    rw [List.flatMap_cons, sits_append_iff, hw] at h
    cases k with
    | zero => exact h.1
    | succ k =>
      have hrest := ih h.2 (Nat.lt_of_succ_lt_succ hk)
      rwa [Nat.add_assoc, Nat.add_comm w, ← Nat.mul_succ] at hrest

theorem Sits.take_drop (h : Sits bs b i) : (b.drop i).take bs.length = bs := by
  apply List.ext_getElem?
  intro k
  by_cases hk : k < bs.length
  · rw [List.getElem?_take_of_lt hk, List.getElem?_drop, h.same k hk]
  · rw [List.getElem?_eq_none (by rw [List.length_take]; omega), List.getElem?_eq_none (by omega)]

theorem sits_iff : Sits bs b i ↔ i + bs.length ≤ b.length ∧ (b.drop i).take bs.length = bs := by
  refine ⟨fun h => ⟨h.inside, h.take_drop⟩, fun ⟨hin, he⟩ => ⟨hin, fun k hk => ?_⟩⟩
  rw [← List.getElem?_drop, ← List.getElem?_take_of_lt hk, he]

instance [DecidableEq α] : Decidable (Sits bs b i) := decidable_of_iff _ sits_iff.symm

theorem Sits.part (h : Sits bs b i) (hc : Sits cs bs j) : Sits cs b (i + j) := by
  have hin := h.inside
  have hin' := hc.inside
  refine ⟨by omega, fun k hk => ?_⟩
  rw [Nat.add_assoc, h.same (j + k) (by omega), hc.same k hk]

theorem Sits.getD (h : Sits bs b i) (d : α) {k : ℕ} (hk : k < bs.length) : b.getD (i + k) d = bs.getD k d := by
  rw [List.getD_eq_getElem?_getD, List.getD_eq_getElem?_getD, h.same k hk]

theorem sits_whole (b : List α) : Sits b b 0 := ⟨by omega, fun k _ => by rw [Nat.zero_add]⟩

theorem sits_of_start (h : bs <+: b) : Sits bs b 0 := by
  obtain ⟨c, rfl⟩ := h
  exact (sits_whole bs).append c

theorem Sits.takeWhile [DecidableEq α] {s : List α} {z : α} (h : Sits (s ++ [z]) b i) (hz : z ∉ s) :
    (b.drop i).takeWhile (fun a => decide (a ≠ z)) = s := by
  have hsplit := List.take_append_drop (s ++ [z]).length (b.drop i)
  rw [h.take_drop, List.append_assoc] at hsplit
  have hall : ∀ a ∈ s, decide (a ≠ z) = true := fun a ha => decide_eq_true fun e => hz (e ▸ ha)
  rw [← hsplit, List.takeWhile_append_of_pos hall]
  simp

end Inferno.Lib
