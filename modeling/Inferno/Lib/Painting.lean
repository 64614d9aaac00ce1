import Inferno.Lib.Bytes
import Inferno.Lib.Checked

/-! Painting a buffer: stores at offsets into a buffer that holds whatever was in it
before. Stores that leave no gap make its beginning a list of their own, the same one for
every buffer, in which each store lies where no later one overlaps it. -/

namespace Inferno.Lib

variable {α ε : Type*} {p cs b : List α} {i n : ℕ} {l l₁ l₂ : List (ℕ × List α)} {x : ℕ × List α}

/-- The stores `l` over `p`, which grows at its end. -/
def painted (p : List α) (l : List (ℕ × List α)) : List α := l.foldl (fun p x => overwrite p x.1 x.2) p

/-- Every store of `l` begins within the first `n` cells and what the stores before it
painted, or right behind them. -/
def Gapless : ℕ → List (ℕ × List α) → Prop
  | _, [] => True
  | n, x :: l => x.1 ≤ n ∧ Gapless (max n (x.1 + x.2.length)) l

def reach (n : ℕ) (l : List (ℕ × List α)) : ℕ := l.foldl (fun n x => max n (x.1 + x.2.length)) n

def shifted (n : ℕ) (l : List (ℕ × List α)) : List (ℕ × List α) := l.map fun x => (n + x.1, x.2)

def Clear (x y : ℕ × List α) : Prop := y.1 + y.2.length ≤ x.1 ∨ x.1 + x.2.length ≤ y.1

def EndToEnd : ℕ → List (ℕ × List α) → Prop
  | _, [] => True
  | i, x :: l => x.1 = i ∧ EndToEnd (i + x.2.length) l

def storeIn (e : ℕ → ε) (b : List α) (x : ℕ × List α) : Except ε (List α) :=
  checked (e x.1) (x.1 + x.2.length ≤ b.length) (overwrite b x.1 x.2)

@[simp] theorem painted_nil (p : List α) : painted p [] = p := rfl

theorem painted_cons (p : List α) (x : ℕ × List α) (l : List (ℕ × List α)) :
    painted p (x :: l) = painted (overwrite p x.1 x.2) l := rfl

theorem painted_append (p : List α) (l₁ l₂ : List (ℕ × List α)) : painted p (l₁ ++ l₂) = painted (painted p l₁) l₂ :=
  List.foldl_append

theorem reach_append (n : ℕ) (l₁ l₂ : List (ℕ × List α)) : reach n (l₁ ++ l₂) = reach (reach n l₁) l₂ := List.foldl_append

theorem gapless_append : Gapless n (l₁ ++ l₂) ↔ Gapless n l₁ ∧ Gapless (reach n l₁) l₂ := by
  induction l₁ generalizing n with
  | nil => exact ⟨fun h => ⟨trivial, h⟩, And.right⟩
  | cons x l₁ ih =>
    rw [List.cons_append, Gapless, Gapless, ih, and_assoc]
    rfl

theorem gapless_shifted : Gapless (n + i) (shifted n l) ↔ Gapless i l := by
  induction l generalizing i with
  | nil => exact Iff.rfl
  | cons x l ih =>
    have hmax : max (n + i) (n + x.1 + x.2.length) = n + max i (x.1 + x.2.length) := by omega
    rw [shifted, List.map_cons, Gapless, Gapless, hmax]
    exact and_congr (Nat.add_le_add_iff_left) ih

theorem reach_shifted : reach (n + i) (shifted n l) = n + reach i l := by
  induction l generalizing i with
  | nil => rfl
  | cons x l ih =>
    have hmax : max (n + i) (n + x.1 + x.2.length) = n + max i (x.1 + x.2.length) := by omega
    rw [shifted, List.map_cons, reach, List.foldl_cons, hmax]
    exact ih

theorem length_overwrite (cs : List α) (hi : i ≤ p.length) : (overwrite p i cs).length = max p.length (i + cs.length) := by
  simp only [overwrite, List.length_append, List.length_take, List.length_drop]
  omega

theorem overwrite_start (cs : List α) (hp : p <+: b) (hi : i ≤ p.length) : overwrite p i cs <+: overwrite b i cs := by
  obtain ⟨t, rfl⟩ := hp
  refine ⟨t.drop (i + cs.length - p.length), ?_⟩
  rw [overwrite, overwrite, List.take_append_of_le_length hi, List.drop_append]
  simp only [List.append_assoc]

theorem sits_stored (hi : i ≤ p.length) : Sits cs (overwrite p i cs) i := by
  have htake : (p.take i).length = i := by rw [List.length_take]; omega
  have hend := (sits_end (p.take i) cs).append (p.drop (i + cs.length))
  exact hend.at htake

theorem only_stored (hi : i ≤ p.length) : Only i (i + cs.length) p (overwrite p i cs) := by
  refine ⟨(le_max_left _ _).trans (length_overwrite _ hi).ge, fun k hk hout => ?_⟩
  have htake : (p.take i).length = i := by rw [List.length_take]; omega
  rcases hout with hlow | hhigh
  · rw [overwrite, List.append_assoc, List.getElem?_append_left (by omega), List.getElem?_take_of_lt hlow]
  · rw [overwrite, List.getElem?_append_right (by rw [List.length_append]; omega), List.getElem?_drop,
      List.length_append, htake]
    congr 1
    omega

theorem length_painted (h : Gapless p.length l) : (painted p l).length = reach p.length l := by
  induction l generalizing p with
  | nil => rfl
  | cons x l ih =>
    have hlen := length_overwrite x.2 h.1
    rw [painted_cons, ih (by rw [hlen]; exact h.2), hlen]
    rfl

theorem le_reach (n : ℕ) (l : List (ℕ × List α)) : n ≤ reach n l := by
  induction l generalizing n with
  | nil => exact le_rfl
  | cons x l ih => exact (le_max_left _ _).trans (ih _)

theorem storeIn_painted {e : ℕ → ε} (hp : p <+: b) (hl : Gapless p.length l) (hfit : reach p.length l ≤ b.length) :
    ∃ b', l.foldlM (storeIn e) b = .ok b' ∧ painted p l <+: b' ∧ b'.length = b.length := by
  induction l generalizing p b with
  | nil => exact ⟨b, rfl, hp, rfl⟩
  | cons x l ih =>
    have hlen := length_overwrite x.2 hl.1
    have hin : x.1 + x.2.length ≤ b.length := ((le_max_right _ _).trans (le_reach _ l)).trans hfit
    obtain ⟨b', hrun, hpre, hb'⟩ := ih (overwrite_start x.2 hp hl.1) (by rw [hlen]; exact hl.2)
      (by rw [hlen, overwrite_length hin]; exact hfit)
    refine ⟨b', ?_, hpre, hb'.trans (overwrite_length hin)⟩
    rw [List.foldlM_cons, storeIn, checked_ok hin, ok_bind, hrun]

theorem Sits.painted (h : Sits cs p i) (hl : Gapless p.length l) (hclear : ∀ y ∈ l, Clear (i, cs) y) :
    Sits cs (painted p l) i := by
  induction l generalizing p with
  | nil => exact h
  | cons y l ih =>
    refine ih (h.frame (only_stored hl.1) (hclear y List.mem_cons_self).symm) ?_ fun z hz =>
      hclear z (List.mem_cons_of_mem _ hz)
    rw [length_overwrite _ hl.1]
    exact hl.2

theorem sits_painted (hl : Gapless p.length l) (k : ℕ) (hx : l[k]? = some (i, cs))
    (hclear : ∀ y ∈ l.drop (k + 1), Clear (i, cs) y) : Sits cs (painted p l) i := by
  obtain ⟨hk, hx⟩ := List.getElem?_eq_some_iff.mp hx
  have hsplit : l.take k ++ (i, cs) :: l.drop (k + 1) = l := by
    rw [← hx, List.getElem_cons_drop, List.take_append_drop]
  rw [← hsplit, gapless_append] at hl
  obtain ⟨hl₁, hin, hl₂⟩ := hl
  have hlen := length_painted hl₁
  have hstored : Sits cs (painted (overwrite (painted p (l.take k)) i cs) (l.drop (k + 1))) i := by
    refine (sits_stored (by rw [hlen]; exact hin)).painted ?_ hclear
    rw [length_overwrite _ (by rw [hlen]; exact hin), hlen]
    exact hl₂
  have hall : painted p l = painted (overwrite (painted p (l.take k)) i cs) (l.drop (k + 1)) := by
    conv_lhs => rw [← hsplit, painted_append, painted_cons]
  rwa [hall]

theorem overwrite_shift (p q cs : List α) (i : ℕ) : overwrite (p ++ q) (p.length + i) cs = p ++ overwrite q i cs := by
  have htake : p.take (p.length + i) = p := List.take_of_length_le (by omega)
  have hdrop : p.drop (p.length + (i + cs.length)) = [] := List.drop_of_length_le (by omega)
  simp [overwrite, Nat.add_assoc, List.take_append, List.drop_append, htake, hdrop]

theorem painted_shifted (p q : List α) (l : List (ℕ × List α)) :
    painted (p ++ q) (shifted p.length l) = p ++ painted q l := by
  induction l generalizing q with
  | nil => rfl
  | cons x l ih =>
    rw [shifted, List.map_cons, painted_cons, overwrite_shift]
    exact ih (overwrite q x.1 x.2)

theorem EndToEnd.append (h₁ : EndToEnd i l₁) (h₂ : EndToEnd (i + (l₁.flatMap Prod.snd).length) l₂) :
    EndToEnd i (l₁ ++ l₂) := by
  induction l₁ generalizing i with
  | nil => exact h₂
  | cons x l₁ ih =>
    refine ⟨h₁.1, ih h₁.2 ?_⟩
    rwa [List.flatMap_cons, List.length_append, ← Nat.add_assoc] at h₂

/-- Stores end to end from the end of `p` on paint over as much of what lies there as they
are long. -/
theorem painted_endToEnd (h : EndToEnd p.length l) (cs : List α) :
    painted (p ++ cs) l = p ++ l.flatMap Prod.snd ++ cs.drop (l.flatMap Prod.snd).length := by
  induction l generalizing p cs with
  | nil => simp
  | cons x l ih =>
    obtain ⟨i, bs⟩ := x
    obtain ⟨rfl, hl⟩ : i = p.length ∧ EndToEnd (p.length + bs.length) l := h
    have hstep : overwrite (p ++ cs) p.length bs = (p ++ bs) ++ cs.drop bs.length := by simp [overwrite]
    have hrest := ih (p := p ++ bs) (by rwa [List.length_append]) (cs.drop bs.length)
    rw [painted_cons, hstep, hrest, List.flatMap_cons, List.drop_drop, List.length_append]
    simp only [List.append_assoc]

theorem EndToEnd.gapless (h : EndToEnd i l) (hi : i ≤ n) : Gapless n l := by
  induction l generalizing i n with
  | nil => trivial
  | cons x l ih => exact ⟨h.1.trans_le hi, ih h.2 (by have := h.1; omega)⟩

theorem EndToEnd.reach (h : EndToEnd i l) (hi : i ≤ n) : reach n l = max n (i + (l.flatMap Prod.snd).length) := by
  induction l generalizing i n with
  | nil => simp [Lib.reach, hi]
  | cons x l ih =>
    have hx := h.1
    have hrest := ih h.2 (n := max n (x.1 + x.2.length)) (by omega)
    rw [Lib.reach, List.foldl_cons]
    rw [Lib.reach] at hrest
    rw [hrest, List.flatMap_cons, List.length_append]
    omega

/-- The records of `b` in turn, each as long as `len` reads at its start. -/
def walk (len : List α → ℕ) : ℕ → List α → List (List α)
  | 0, _ => []
  | fuel + 1, b => if b = [] ∨ len b = 0 then [] else b.take (len b) :: walk len fuel (b.drop (len b))

theorem walk_flatten {len : List α → ℕ} {rs : List (List α)} (hlen : ∀ r ∈ rs, ∀ t, len (r ++ t) = r.length)
    (hpos : ∀ r ∈ rs, r ≠ []) {fuel : ℕ} (hfuel : rs.length ≤ fuel) : walk len fuel rs.flatten = rs := by
  induction rs generalizing fuel with
  | nil => cases fuel <;> simp [walk]
  | cons r rs ih =>
    obtain ⟨fuel, rfl⟩ : ∃ k, fuel = k + 1 := ⟨fuel - 1, by rw [List.length_cons] at hfuel; omega⟩
    have hr := hlen r List.mem_cons_self rs.flatten
    have hne := hpos r List.mem_cons_self
    have hrest := ih (fun x hx => hlen x (List.mem_cons_of_mem _ hx)) (fun x hx => hpos x (List.mem_cons_of_mem _ hx))
      (Nat.le_of_succ_le_succ hfuel)
    rw [List.flatten_cons, walk, hr, if_neg, List.take_left, List.drop_left, hrest]
    rintro (h | h)
    · exact hne (List.append_eq_nil_iff.mp h).1
    · exact hne (List.length_eq_zero_iff.mp h)

end Inferno.Lib
