import Inferno.Lib.Trace

/-! Keyed entries held in a fixed number of slots, and how such a table is brought to a
target one key at a time: the new entry of a key is offered in a free slot beside the
old one, and when it is refused the old entry gives way and it is offered again. -/

namespace Inferno.Lib

variable {κ ν : Type*}

section First

variable [BEq κ] [LawfulBEq κ]

theorem eraseDups_concat (l : List κ) (d : κ) :
    (l ++ [d]).eraseDups = if d ∈ l then l.eraseDups else l.eraseDups ++ [d] := by
  rw [List.eraseDups_append]
  by_cases hd : d ∈ l <;> simp [List.removeAll, hd, List.eraseDups_cons]

theorem nodup_eraseDups (l : List κ) : l.eraseDups.Nodup := by
  induction l using List.reverseRecOn with
  | nil => simp
  | append_singleton l d ih =>
    rw [eraseDups_concat]
    by_cases hd : d ∈ l
    · rwa [if_pos hd]
    · rw [if_neg hd, ← List.concat_eq_append, List.nodup_concat]
      exact ⟨by rwa [List.mem_eraseDups], ih⟩

theorem take_eraseDups_concat (l : List κ) (d : κ) (n : ℕ) :
    (l ++ [d]).eraseDups.take n =
      if d ∉ l.eraseDups.take n ∧ (l.eraseDups.take n).length < n then l.eraseDups.take n ++ [d]
      else l.eraseDups.take n := by
  rw [eraseDups_concat]
  by_cases hd : d ∈ l
  · rw [if_pos hd, if_neg]
    rintro ⟨hnot, hlt⟩
    rw [List.length_take] at hlt
    rw [List.take_of_length_le (by omega), List.mem_eraseDups] at hnot
    exact hnot hd
  · have hnot : d ∉ l.eraseDups.take n := fun h => hd (List.mem_eraseDups.1 (List.mem_of_mem_take h))
    rw [if_neg hd, List.length_take]
    by_cases hlt : l.eraseDups.length < n
    · rw [if_pos ⟨hnot, by omega⟩, List.take_of_length_le (by simp; omega), List.take_of_length_le hlt.le]
    · rw [if_neg (fun h => by omega), List.take_append_of_le_length (by omega)]

end First

theorem index_of_key {β : Type*} {f : β → κ} {l : List β} (hl : (l.map f).Nodup) {j k : ℕ} (hj : j < l.length)
    (hk : k < l.length) (h : f l[j] = f l[k]) : j = k := by
  have hget : (l.map f).get ⟨j, by simpa using hj⟩ = (l.map f).get ⟨k, by simpa using hk⟩ := by simpa using h
  exact Fin.val_eq_of_eq ((List.Nodup.get_inj_iff hl).1 hget)

variable [DecidableEq κ]

section Slots

variable {n : ℕ} {σ : Fin n → Option (κ × ν)}

/-- No two slots hold entries of the same key. -/
def KeysDistinct (σ : Fin n → Option (κ × ν)) : Prop :=
  ∀ i j d v w, σ i = some (d, v) → σ j = some (d, w) → i = j

def lookup (σ : Fin n → Option (κ × ν)) (d : κ) : Option ν :=
  (List.finRange n).findSome? fun i => (σ i).bind fun e => if e.1 = d then some e.2 else none

def clear (σ : Fin n → Option (κ × ν)) (r : Option (Fin n)) : Fin n → Option (κ × ν) :=
  r.elim σ fun r => Function.update σ r none

omit [DecidableEq κ] in
theorem clear_eq_some {r : Option (Fin n)} {i : Fin n} {e : κ × ν} :
    clear σ r i = some e ↔ σ i = some e ∧ r ≠ some i := by
  cases r with
  | none => simp [clear]
  | some r =>
    by_cases h : i = r
    · simp [clear, h]
    · simp [clear, h, Ne.symm h]

theorem lookup_eq_none {d : κ} : lookup σ d = none ↔ ∀ i v, σ i ≠ some (d, v) := by
  simp only [lookup, List.findSome?_eq_none_iff, List.mem_finRange, true_implies]
  refine forall_congr' fun i => ⟨fun h v hv => by simp [hv] at h, fun h => ?_⟩
  cases hi : σ i with
  | none => rfl
  | some e =>
    have hne : e.1 ≠ d := fun he => h e.2 (by rw [hi, ← he])
    simp [hne]

theorem exists_of_lookup {d : κ} {v : ν} (h : lookup σ d = some v) : ∃ i, σ i = some (d, v) := by
  obtain ⟨i, -, hi⟩ := List.exists_of_findSome?_eq_some h
  refine ⟨i, ?_⟩
  cases he : σ i with
  | none => simp [he] at hi
  | some e =>
    simp only [he, Option.bind_some, Option.ite_none_right_eq_some, Option.some.injEq] at hi
    rw [← hi.1, ← hi.2]

theorem KeysDistinct.lookup_eq_some (h : KeysDistinct σ) {d : κ} {v : ν} :
    lookup σ d = some v ↔ ∃ i, σ i = some (d, v) := by
  refine ⟨exists_of_lookup, fun ⟨i, hi⟩ => ?_⟩
  cases hl : lookup σ d with
  | none => exact absurd hi (lookup_eq_none.1 hl i v)
  | some w =>
    obtain ⟨j, hj⟩ := exists_of_lookup hl
    have hij := h i j d v w hi hj
    rw [hij, hj] at hi
    simpa using hi

omit [DecidableEq κ] in
/-- Fill a free slot with an entry of a key, or with nothing, when the slot that held
the key, if any, is emptied. -/
theorem KeysDistinct.put (h : KeysDistinct σ) {i : Fin n} {r : Option (Fin n)} {d : κ} {x : Option ν}
    (hr : ∀ j v, σ j = some (d, v) → r = some j) :
    KeysDistinct (Function.update (clear σ r) i (x.map (d, ·))) := by
  have hclear : ∀ j v, clear σ r j ≠ some (d, v) := by
    intro j v hj
    have hj := clear_eq_some.1 hj
    exact hj.2 (hr j v hj.1)
  intro j k e v w hj hk
  by_cases hji : j = i <;> by_cases hki : k = i
  · rw [hji, hki]
  · rw [hji, Function.update_self, Option.map_eq_some_iff] at hj
    rw [Function.update_of_ne hki] at hk
    obtain ⟨u, -, hu⟩ := hj
    obtain ⟨rfl, -⟩ := Prod.mk.inj hu
    exact absurd hk (hclear k w)
  · rw [hki, Function.update_self, Option.map_eq_some_iff] at hk
    rw [Function.update_of_ne hji] at hj
    obtain ⟨u, -, hu⟩ := hk
    obtain ⟨rfl, -⟩ := Prod.mk.inj hu
    exact absurd hj (hclear j v)
  · rw [Function.update_of_ne hji, clear_eq_some] at hj
    rw [Function.update_of_ne hki, clear_eq_some] at hk
    exact h j k e v w hj.1 hk.1

theorem KeysDistinct.lookup_put (h : KeysDistinct σ) {i : Fin n} {r : Option (Fin n)} {d : κ} {x : Option ν}
    (hi : σ i = none) (hr : ∀ j v, σ j = some (d, v) → r = some j)
    (hrd : ∀ j, r = some j → ∃ v, σ j = some (d, v)) :
    lookup (Function.update (clear σ r) i (x.map (d, ·))) = Function.update (lookup σ) d x := by
  funext e
  refine Option.ext fun v => ?_
  rw [(h.put hr).lookup_eq_some]
  by_cases hed : e = d
  · subst hed
    rw [Function.update_self]
    refine ⟨fun ⟨j, hj⟩ => ?_, fun hx => ⟨i, by simp [hx]⟩⟩
    by_cases hji : j = i
    · rw [hji, Function.update_self, Option.map_eq_some_iff] at hj
      obtain ⟨u, hu, huv⟩ := hj
      rwa [← (Prod.mk.inj huv).2]
    · rw [Function.update_of_ne hji, clear_eq_some] at hj
      exact absurd (hr j v hj.1) hj.2
  · rw [Function.update_of_ne hed, h.lookup_eq_some]
    refine exists_congr fun j => ?_
    by_cases hji : j = i
    · subst hji
      rw [Function.update_self, hi]
      simp [Ne.symm hed]
    · rw [Function.update_of_ne hji, clear_eq_some, and_iff_left_iff_imp]
      intro hj hrj
      obtain ⟨w, hw⟩ := hrd j hrj
      rw [hw, Option.some.injEq, Prod.mk.injEq] at hj
      exact hed hj.1.symm

/-- The slots are all taken when as many of the keys have an entry as there are slots. -/
theorem KeysDistinct.taken_iff (h : KeysDistinct σ) {keys : List κ} (hk : keys.Nodup)
    (hl : ∀ i d v, σ i = some (d, v) → d ∈ keys) :
    (∀ i, σ i ≠ none) ↔ n ≤ (keys.filter fun d => (lookup σ d).isSome).length := by
  set S := Finset.univ.filter fun i => σ i ≠ none with hS
  set T := (keys.filter fun d => (lookup σ d).isSome).toFinset with hT
  have himage : S.image (fun i => (σ i).map Prod.fst) = T.image some := by
    ext o
    simp only [hS, hT, Finset.mem_image, Finset.mem_filter, Finset.mem_univ, true_and, List.mem_toFinset,
      List.mem_filter, Option.isSome_iff_exists, h.lookup_eq_some]
    constructor
    · rintro ⟨i, hi, rfl⟩
      obtain ⟨e, he⟩ := Option.ne_none_iff_exists'.1 hi
      exact ⟨e.1, ⟨hl i e.1 e.2 he, e.2, i, he⟩, by simp [he]⟩
    · rintro ⟨d, ⟨-, v, i, hi⟩, rfl⟩
      exact ⟨i, by simp [hi], by simp [hi]⟩
  have hinj : Set.InjOn (fun i => (σ i).map Prod.fst) S := by
    intro i hi j hj hij
    simp only [hS, Finset.coe_filter, Finset.mem_univ, true_and, Set.mem_ofPred_eq] at hi hj
    obtain ⟨e, he⟩ := Option.ne_none_iff_exists'.1 hi
    obtain ⟨f, hf⟩ := Option.ne_none_iff_exists'.1 hj
    simp only [he, hf, Option.map_some, Option.some.injEq] at hij
    exact h i j e.1 e.2 f.2 he (by rw [hf, hij])
  have hcard : S.card = (keys.filter fun d => (lookup σ d).isSome).length := by
    rw [← Finset.card_image_of_injOn hinj, himage, Finset.card_image_of_injective _ (Option.some_injective κ),
      hT, List.toFinset_card_of_nodup (hk.filter _)]
  rw [← hcard]
  constructor
  · intro hall
    have : S = Finset.univ := Finset.filter_true_of_mem fun i _ => hall i
    simp [this]
  · intro hn i
    have : S = Finset.univ := Finset.eq_univ_of_card S (by
      have := Finset.card_le_univ S
      simp only [Fintype.card_fin] at this ⊢
      omega)
    have hi : i ∈ S := this ▸ Finset.mem_univ i
    simpa [hS] using hi

end Slots

/-- What the outside answers for one key: a place for the new entry, its acceptance
beside the old entry, and its acceptance once the old entry is gone. -/
structure Attempt where
  place : Bool
  beside : Bool
  alone : Bool

/-- What becomes of the entry of a key: it already was as wanted, it stays as it was
although it is not, the wanted entry takes its place, or the key is left without. -/
inductive Fate where
  | kept
  | stuck
  | up
  | lost
  deriving DecidableEq

def Fate.after (goal : ν) (old : Option ν) : Fate → Option ν
  | .kept => old
  | .stuck => old
  | .up => some goal
  | .lost => none

section Target

variable [DecidableEq ν] (n : ℕ) (keys : List κ) (g : κ → ν) (a : ℕ → Attempt)

/-- As many keys have an entry as there are slots. -/
def Full (t : κ → Option ν) : Prop := n ≤ (keys.filter fun d => (t d).isSome).length

omit [DecidableEq κ] [DecidableEq ν] in
instance (t : κ → Option ν) : Decidable (Full n keys t) := inferInstanceAs (Decidable (_ ≤ _))

/-- The fate of the `k`-th key when its turn comes. -/
def fateNow (t : κ → Option ν) (dk : κ × ℕ) : Fate :=
  if t dk.1 = some (g dk.1) then .kept
  else if Full n keys t ∨ (a dk.2).place = false then .stuck
  else if (a dk.2).beside = true ∨ (t dk.1 ≠ none ∧ (a dk.2).alone = true) then .up
  else .lost

def attend (t : κ → Option ν) (dk : κ × ℕ) : κ → Option ν :=
  Function.update t dk.1 ((fateNow n keys g a t dk).after (g dk.1) (t dk.1))

def retain (t : κ → Option ν) : κ → Option ν := fun d => if d ∈ keys then t d else none

/-- Drop what is not wanted, then attend to the keys in order. -/
def reconcile (t : κ → Option ν) : κ → Option ν := keys.zipIdx.foldl (attend n keys g a) (retain keys t)

def tableAt (t : κ → Option ν) (k : ℕ) : κ → Option ν :=
  before (attend n keys g a) (retain keys t) keys.zipIdx k

def turn (d : κ) : ℕ := keys.idxOf d

def fateOf (t : κ → Option ν) (d : κ) : Fate :=
  fateNow n keys g a (tableAt n keys g a t (keys.idxOf d)) (d, keys.idxOf d)

variable {n keys g a} {t : κ → Option ν}

theorem tableAt_succ {k : ℕ} (hk : k < keys.length) :
    tableAt n keys g a t (k + 1) = attend n keys g a (tableAt n keys g a t k) (keys[k], k) := by
  rw [tableAt, before_succ _ _ _ (by simpa using hk)]
  simp [tableAt]

theorem fateOf_getElem (hnd : keys.Nodup) {k : ℕ} (hk : k < keys.length) :
    fateOf n keys g a t keys[k] = fateNow n keys g a (tableAt n keys g a t k) (keys[k], k) := by
  rw [fateOf, hnd.idxOf_getElem]

/-- Before its `k`-th turn the table holds the outcome of the keys so far, and is
untouched elsewhere. -/
theorem tableAt_apply (hnd : keys.Nodup) {k : ℕ} (hk : k ≤ keys.length) (d : κ) :
    tableAt n keys g a t k d =
      if d ∈ keys.take k then (fateOf n keys g a t d).after (g d) (t d) else retain keys t d := by
  induction k with
  | zero => simp [tableAt]
  | succ k ih =>
    have hlt : k < keys.length := hk
    have hih := ih hlt.le
    have hmem : d ∈ keys.take (k + 1) ↔ d ∈ keys.take k ∨ d = keys[k] := by
      rw [← List.take_concat_get' keys k hlt, List.mem_append, List.mem_singleton]
    have hnot : keys[k] ∉ keys.take k := by
      rw [List.mem_take_iff_idxOf_lt (List.getElem_mem hlt), hnd.idxOf_getElem]
      exact lt_irrefl k
    rw [tableAt_succ hlt, attend]
    by_cases hd : d = keys[k]
    · subst hd
      rw [Function.update_self, if_pos (hmem.2 (Or.inr rfl)), ← fateOf_getElem hnd hlt, hih, if_neg hnot,
        retain, if_pos (List.getElem_mem hlt)]
    · rw [Function.update_of_ne hd, hih]
      simp only [hmem, hd, or_false]

theorem tableAt_length : tableAt n keys g a t keys.length = reconcile n keys g a t := by
  have hlen : keys.length = keys.zipIdx.length := by simp
  rw [tableAt, hlen, before_length, ← reconcile]

theorem reconcile_apply (hnd : keys.Nodup) (d : κ) :
    reconcile n keys g a t d = if d ∈ keys then (fateOf n keys g a t d).after (g d) (t d) else none := by
  rw [← tableAt_length, tableAt_apply hnd le_rfl, List.take_length]
  by_cases hd : d ∈ keys
  · rw [if_pos hd, if_pos hd]
  · rw [if_neg hd, if_neg hd, retain, if_neg hd]

omit [DecidableEq ν] [DecidableEq κ] in
theorem full_iff (hlen : keys.length ≤ n) : Full n keys t ↔ keys.length = n ∧ ∀ d ∈ keys, t d ≠ none := by
  have hle := List.length_filter_le (fun d => (t d).isSome) keys
  have heq : (keys.filter fun d => (t d).isSome).length = keys.length ↔ ∀ d ∈ keys, t d ≠ none := by
    rw [List.length_filter_eq_length_iff]
    simp [Option.isSome_iff_ne_none]
  rw [← heq, Full]
  omega

theorem tableAt_self (hnd : keys.Nodup) {d : κ} (hd : d ∈ keys) :
    tableAt n keys g a t (keys.idxOf d) d = t d := by
  have hk := List.idxOf_lt_length_of_mem hd
  have hnot : d ∉ keys.take (keys.idxOf d) := by
    rw [List.mem_take_iff_idxOf_lt hd]
    exact lt_irrefl _
  rw [tableAt_apply hnd hk.le, if_neg hnot, retain, if_pos hd]

theorem fateOf_eq_kept (hnd : keys.Nodup) {d : κ} (hd : d ∈ keys) :
    fateOf n keys g a t d = .kept ↔ t d = some (g d) := by
  simp only [fateOf, fateNow, tableAt_self hnd hd]
  split_ifs <;> simp_all

theorem fateOf_fresh (hnd : keys.Nodup) (hlen : keys.length ≤ n) {d : κ} (hd : d ∈ keys) (ht : t d = none) :
    fateOf n keys g a t d = .stuck ↔ (a (turn keys d)).place = false := by
  rw [turn]
  have hself := tableAt_self (n := n) (g := g) (a := a) (t := t) hnd hd
  have hfull : ¬ Full n keys (tableAt n keys g a t (keys.idxOf d)) := by
    rw [full_iff hlen]
    exact fun h => h.2 d hd (hself.trans ht)
  simp only [fateOf, fateNow, hself, ht, hfull]
  split_ifs <;> simp_all

/-- Where every place is found and every offer accepted, an entry is stuck when it has
to change while all the slots are taken: by the keys that had an entry and by those
attended to before. -/
theorem fateOf_stuck_of_success (hnd : keys.Nodup) (hlen : keys.length ≤ n)
    (ha : ∀ k, (a k).place = true ∧ (a k).beside = true) {d : κ} (hd : d ∈ keys) :
    fateOf n keys g a t d = .stuck ↔
      t d ≠ some (g d) ∧ keys.length = n ∧ ∀ e ∈ keys, turn keys d ≤ turn keys e → t e ≠ none := by
  simp only [turn]
  have hfates : ∀ e, fateOf n keys g a t e ≠ .lost := by
    intro e
    simp only [fateOf, fateNow, (ha _).2]
    split_ifs <;> simp_all
  have hkept : ∀ e ∈ keys, t e = none → fateOf n keys g a t e = .up := by
    intro e he hte
    have h1 : fateOf n keys g a t e ≠ .kept := by
      rw [Ne, fateOf_eq_kept hnd he, hte]
      simp
    have h2 : fateOf n keys g a t e ≠ .stuck := by
      rw [Ne, fateOf_fresh hnd hlen he hte, (ha _).1]
      simp
    cases h : fateOf n keys g a t e with
    | kept => exact absurd h h1
    | stuck => exact absurd h h2
    | up => rfl
    | lost => exact absurd h (hfates e)
  have hk := List.idxOf_lt_length_of_mem hd
  have hfull : Full n keys (tableAt n keys g a t (keys.idxOf d)) ↔
      keys.length = n ∧ ∀ e ∈ keys, keys.idxOf d ≤ keys.idxOf e → t e ≠ none := by
    rw [full_iff hlen]
    refine and_congr_right fun _ => forall₂_congr fun e he => ?_
    rw [tableAt_apply hnd hk.le]
    by_cases hlt : keys.idxOf e < keys.idxOf d
    · rw [if_pos ((List.mem_take_iff_idxOf_lt he).2 hlt)]
      simp only [not_le.2 hlt, false_implies, iff_true]
      cases h : fateOf n keys g a t e with
      | kept =>
        rw [fateOf_eq_kept hnd he] at h
        simp [Fate.after, h]
      | stuck =>
        intro hnone
        rw [hkept e he hnone] at h
        cases h
      | up => simp [Fate.after]
      | lost => exact absurd h (hfates e)
    · rw [if_neg (hlt ∘ (List.mem_take_iff_idxOf_lt he).1), retain, if_pos he]
      simp [not_lt.1 hlt]
  rw [← hfull]
  simp only [fateOf, fateNow, tableAt_self hnd hd, (ha _).1, (ha _).2]
  split_ifs <;> simp_all

end Target

end Inferno.Lib
