import Mathlib.Tactic

/-! C strings in `char` arrays that end in NUL: what `strncpy` leaves to be read, whatever
longer string lay there before; and the number `atoi` reads at the front of one. -/

namespace Inferno.Lib

/-- A `char` array of `n + 1` bytes, the last of them NUL. -/
structure CharArray (n : ℕ) where
  bytes : List UInt8
  size : bytes.length = n + 1
  ended : bytes[n]? = some 0

variable {n : ℕ} (a : CharArray n) {s : List UInt8}

def CharArray.str : List UInt8 := a.bytes.takeWhile fun c => decide (c ≠ 0)

theorem CharArray.nul_mem : 0 ∈ a.bytes := List.mem_of_getElem? a.ended

theorem CharArray.str_length : a.str.length ≤ n := by
  have hpre : a.str <+: a.bytes := List.takeWhile_prefix _
  have hsize := a.size
  by_contra hlong
  have hwhole : a.str = a.bytes := hpre.eq_of_length (by have := hpre.length_le; omega)
  have hnul : 0 ∈ a.str := hwhole ▸ a.nul_mem
  have hnone : ∀ c ∈ a.str, decide (c ≠ 0) = true := List.all_eq_true.mp List.all_takeWhile
  exact of_decide_eq_true (hnone 0 hnul) rfl

/-- What `strncpy` stores of the string `s` in `n` bytes: its first `n`, and NULs behind them. -/
def padded (n : ℕ) (s : List UInt8) : List UInt8 := s.take n ++ List.replicate (n - s.length) 0

theorem padded_length (n : ℕ) (s : List UInt8) : (padded n s).length = n := by
  simp only [padded, List.length_append, List.length_take, List.length_replicate]
  omega

def CharArray.strncpy (s : List UInt8) : CharArray n where
  bytes := padded n s ++ a.bytes.drop n
  size := by
    have := a.size
    rw [List.length_append, padded_length, List.length_drop]
    omega
  ended := by
    rw [List.getElem?_append_right (padded_length n s).le, padded_length, Nat.sub_self, List.getElem?_drop, Nat.add_zero]
    exact a.ended

def CharArray.clear : CharArray n where
  bytes := a.bytes.set 0 0
  size := (List.length_set ..).trans a.size
  ended := by
    have := a.size
    rw [List.getElem?_set]
    split_ifs with h0 h1
    · rfl
    · omega
    · exact a.ended

theorem CharArray.clear_str : a.clear.str = [] := by
  obtain ⟨bytes, size, ended⟩ := a
  cases bytes with
  | nil => cases size
  | cons b l => rfl

theorem CharArray.drop_eq : a.bytes.drop n = [0] := by
  have hlen : (a.bytes.drop n).length = 1 := by rw [List.length_drop, a.size, Nat.add_sub_cancel_left]
  obtain ⟨b, hb⟩ := List.length_eq_one_iff.mp hlen
  have hget : (a.bytes.drop n)[0]? = some 0 := by rw [List.getElem?_drop, Nat.add_zero, a.ended]
  rw [hb] at hget ⊢
  exact congrArg (fun c => [c]) (Option.some.inj hget)

/-- What is read back is the string, cut to the array, and nothing of what was there before. -/
theorem CharArray.strncpy_str (hs : 0 ∉ s) : (a.strncpy s).str = s.take n := by
  have htake : ∀ c ∈ s.take n, decide (c ≠ 0) = true := fun c hc =>
    decide_eq_true fun h0 => hs (h0 ▸ List.mem_of_mem_take hc)
  have hrest : (List.replicate (n - s.length) 0 ++ ([0] : List UInt8)).takeWhile (fun c => decide (c ≠ 0)) = [] := by
    cases n - s.length <;> rfl
  change (padded n s ++ a.bytes.drop n).takeWhile (fun c => decide (c ≠ 0)) = s.take n
  rw [a.drop_eq, padded, List.append_assoc, List.takeWhile_append_of_pos htake, hrest, List.append_nil]

/-- The digits at the front of a string, behind a number already read. -/
def digitsOf (acc : ℕ) : List UInt8 → ℕ
  | [] => acc
  | c :: s => if 48 ≤ c.toNat ∧ c.toNat ≤ 57 then digitsOf (acc * 10 + (c.toNat - 48)) s else acc

def isSpace (c : UInt8) : Bool := c.toNat = 32 ∨ 9 ≤ c.toNat ∧ c.toNat ≤ 13

/-- `atoi` of a number that an `int` holds. -/
def atoi (s : List UInt8) : ℤ :=
  let t := s.dropWhile isSpace
  if t.head? = some 45 then -digitsOf 0 t.tail
  else if t.head? = some 43 then digitsOf 0 t.tail
  else digitsOf 0 t

theorem digitsOf_lt (acc : ℕ) (s : List UInt8) : digitsOf acc s < (acc + 1) * 10 ^ s.length := by
  induction s generalizing acc with
  | nil => simp [digitsOf]
  | cons c s ih =>
    rw [digitsOf, List.length_cons, pow_succ']
    have hpos : 0 < 10 ^ s.length := by positivity
    split_ifs with hc
    · calc digitsOf (acc * 10 + (c.toNat - 48)) s
          < (acc * 10 + (c.toNat - 48) + 1) * 10 ^ s.length := ih _
        _ ≤ (acc + 1) * 10 * 10 ^ s.length := Nat.mul_le_mul_right _ (by omega)
        _ = (acc + 1) * (10 * 10 ^ s.length) := by ring
    · nlinarith

/-- A number that is not negative has as many digits as the string has characters. -/
theorem atoi_lt {n : ℕ} (hs : s.length ≤ n) : atoi s < 10 ^ n := by
  have hlen : (s.dropWhile isSpace).length ≤ n := (List.dropWhile_sublist _).length_le.trans hs
  have hfew : ∀ t : List UInt8, t.length ≤ n → (digitsOf 0 t : ℤ) < 10 ^ n := by
    intro t ht
    have h : digitsOf 0 t < 10 ^ n :=
      (digitsOf_lt 0 t).trans_le (by rw [zero_add, one_mul]; exact Nat.pow_le_pow_right (by norm_num) ht)
    exact_mod_cast h
  have htail : (s.dropWhile isSpace).tail.length ≤ n := by rw [List.length_tail]; omega
  simp only [atoi]
  split_ifs
  · have := hfew _ htail
    omega
  · exact hfew _ htail
  · exact hfew _ hlen

end Inferno.Lib
