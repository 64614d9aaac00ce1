import Inferno.Spec.EmacLine
import Mathlib.Tactic

/-! What the receive ring holds at every step of the task: the pieces of the frame in
hand, of the frames that wait, and of the one coming in, in that order, and where
the task is with them. -/

namespace Inferno

open Lib

namespace RxFrame

theorem descs_pos (f : RxFrame) : 0 < f.descs := Nat.succ_pos _

def pieces (f : RxFrame) : List (RxFrame × ℕ) := (List.range f.descs).map (Prod.mk f)

@[simp] theorem pieces_length (f : RxFrame) : f.pieces.length = f.descs := by simp [pieces]

theorem pieces_getElem? (f : RxFrame) {k : ℕ} (hk : k < f.descs) : f.pieces[k]? = some (f, k) := by
  simp [pieces, hk]

theorem pieces_drop (f : RxFrame) {k : ℕ} (hk : k < f.descs) :
    f.pieces.drop k = (f, k) :: f.pieces.drop (k + 1) := by
  have hlen : k < f.pieces.length := by rwa [pieces_length]
  rw [List.drop_eq_getElem_cons hlen]
  congr 1
  exact Option.some_injective _ ((List.getElem?_eq_getElem hlen).symm.trans (f.pieces_getElem? hk))

theorem pieces_drop_all (f : RxFrame) {k : ℕ} (hk : f.descs ≤ k) : f.pieces.drop k = [] :=
  List.drop_eq_nil_of_le (by rwa [pieces_length])

/-- A copy of no more than one descriptor and no more than the frame is the frame's beginning. -/
theorem store_take (f : RxFrame) (d : RxDesc) {m : ℕ} (hm : m ≤ CONFIG_ETH_DMA_BUFFER_SIZE) (hf : m ≤ f.bytes.length) :
    (f.store 0 d).buffer.take m = f.bytes.take m := by
  have hlen : m ≤ (f.piece 0).length := by
    simp only [piece, List.length_take, Nat.mul_zero, List.drop_zero]
    exact le_min hm hf
  change (f.piece 0 ++ _).take m = _
  rw [List.take_append_of_le_length hlen]
  simp only [piece, Nat.mul_zero, List.drop_zero, List.take_take, min_eq_left hm]

end RxFrame

/-- What a descriptor stands for: a piece stored in it, or the DMA's own. -/
def RxCell (d : RxDesc) : Option (RxFrame × ℕ) → Prop
  | none => d.own = .dma
  | some (f, k) => ∃ d₀, d = f.store k d₀

theorem RxCell.not_none {d : RxDesc} {p : RxFrame × ℕ} (h : RxCell d (some p)) : ¬RxCell d none := by
  obtain ⟨d₀, rfl⟩ := h
  exact DescOwner.noConfusion

/-- The pieces stored so far of the frame that is coming in. -/
def airPieces : Option (RxFrame × ℕ) → List (RxFrame × ℕ)
  | none => []
  | some (f, k) => (List.range k).map (Prod.mk f)

/-- What the ring holds: what is left of the frame in hand, the waiting frames, and what
is stored of the next. -/
def queue (rest : List (RxFrame × ℕ)) (wait : List RxFrame) (air : Option (RxFrame × ℕ)) : List (RxFrame × ℕ) :=
  rest ++ (wait.flatMap RxFrame.pieces ++ airPieces air)

theorem queue_cons (f : RxFrame) (wait : List RxFrame) (air : Option (RxFrame × ℕ)) :
    queue [] (f :: wait) air = queue f.pieces wait air := by
  simp [queue, List.append_assoc]

/-- The first `used` pieces belong to one frame, and none of them ends it. -/
def Passed (q : List (RxFrame × ℕ)) (used : ℕ) : Prop :=
  ∀ j < used, ∃ f : RxFrame, q[j]? = some (f, j) ∧ j + 1 < f.descs

theorem Passed.zero (q : List (RxFrame × ℕ)) : Passed q 0 := fun _ hj => absurd hj (Nat.not_lt_zero _)

theorem Passed.succ {q : List (RxFrame × ℕ)} {used : ℕ} (h : Passed q used) {f : RxFrame}
    (hq : q[used]? = some (f, used)) (hf : used + 1 < f.descs) : Passed q (used + 1) := by
  intro j hj
  rcases Nat.lt_succ_iff_lt_or_eq.1 hj with hlt | rfl
  · exact h j hlt
  · exact ⟨f, hq, hf⟩

theorem Passed.grow {q q' : List (RxFrame × ℕ)} (hq : q <+: q') {used : ℕ} (h : Passed q used) : Passed q' used := by
  obtain ⟨t, rfl⟩ := hq
  intro j hj
  obtain ⟨f, hjf, hlast⟩ := h j hj
  obtain ⟨hlt, -⟩ := List.getElem?_eq_some_iff.1 hjf
  exact ⟨f, by rw [List.getElem?_append_left hlt, hjf], hlast⟩

/-- What comes after the pieces passed: nothing, and then no frame waits, or the next
piece of the same frame, which is the first to wait if that piece ends it. -/
theorem Passed.next {wait : List RxFrame} {air : Option (RxFrame × ℕ)} {used : ℕ}
    (hair : ∀ p ∈ air, p.2 < p.1.descs) (h : Passed (queue [] wait air) used) :
    ((queue [] wait air)[used]? = none ∧ wait = []) ∨
      ∃ f, (queue [] wait air)[used]? = some (f, used) ∧
        (used + 1 < f.descs ∨ used + 1 = f.descs ∧ ∃ rest, wait = f :: rest) := by
  cases wait with
  | nil =>
    cases air with
    | none => exact Or.inl ⟨rfl, rfl⟩
    | some p =>
      have hk := hair p rfl
      rcases Nat.lt_or_ge used p.2 with hlt | hge
      · refine Or.inr ⟨p.1, ?_, Or.inl (by omega)⟩
        simp [queue, airPieces, hlt]
      · refine Or.inl ⟨?_, rfl⟩
        simp [queue, airPieces, hge]
  | cons f rest =>
    have hpiece : ∀ j < f.descs, (queue [] (f :: rest) air)[j]? = some (f, j) := fun j hj => by
      rw [queue_cons, queue, List.getElem?_append_left (by rwa [RxFrame.pieces_length]), f.pieces_getElem? hj]
    have hused : used < f.descs := by
      by_contra hge
      -- the piece that ends the frame would be among those passed
      have hpos := f.descs_pos
      obtain ⟨g, hg, hlast⟩ := h (f.descs - 1) (by omega)
      rw [hpiece _ (by omega)] at hg
      obtain rfl : f = g := congrArg Prod.fst (Option.some_injective _ hg)
      omega
    refine Or.inr ⟨f, hpiece used hused, ?_⟩
    rcases Nat.lt_or_ge (used + 1) f.descs with hlt | hge
    · exact Or.inl hlt
    · exact Or.inr ⟨by omega, rest, rfl⟩

section

variable {n : ℕ} [NeZero n]

/-- What is known of the task at each place, `head` being the first descriptor it has not
handed back, `hand` the frame it is busy with and the answer it had for it, `rest`
what the ring still holds of that frame, and `woken` whether it will be woken again. -/
def Place (s : Emac n) (head : ℕ) (hand : List (RxFrame × Bool)) (rest : List (RxFrame × ℕ)) (wait : List RxFrame)
    (q : List (RxFrame × ℕ)) (woken : Prop) : Prop :=
  match s.pc with
  | .block => (hand = [] ∧ rest = [] ∧ s.rxDesc = slot n head) ∧ (wait = [] ∨ woken)
  | .validLen iter used =>
    (hand = [] ∧ rest = [] ∧ s.rxDesc = slot n head) ∧ iter = slot n (head + used) ∧ Passed q used
  | .alloc retLen =>
    (hand = [] ∧ rest = [] ∧ s.rxDesc = slot n head) ∧
      (retLen = 0 ∨ ∃ f later, wait = f :: later ∧ f.err = false ∧ retLen = f.bytes.length - ETH_CRC_LENGTH)
  | .copy iter frameLen recvLen copyLen buf =>
    ∃ f, (hand = [(f, true)] ∧ rest = f.pieces ∧ iter = slot n head) ∧ f.err = false ∧
      frameLen = f.bytes.length - ETH_CRC_LENGTH ∧ recvLen = min frameLen ETH_MAX_PACKET_SIZE ∧
      copyLen = recvLen ∧ buf = []
  | .rest iter frameLen recvLen buf =>
    ∃ f k, (hand = [(f, true)] ∧ rest = f.pieces.drop k ∧ k < f.descs ∧ iter = slot n head) ∧ f.err = false ∧
      frameLen = f.bytes.length - ETH_CRC_LENGTH ∧ recvLen = min frameLen ETH_MAX_PACKET_SIZE ∧
      buf = f.bytes.take recvLen
  | .input frameLen recvLen buf stamp =>
    ∃ f, (hand = [(f, true)] ∧ rest = [] ∧ s.rxDesc = slot n head) ∧ f.err = false ∧
      frameLen = f.bytes.length - ETH_CRC_LENGTH ∧ recvLen = min frameLen ETH_MAX_PACKET_SIZE ∧
      buf = f.bytes.take recvLen ∧ stamp = f.stamp.getD (0, 0)
  | .flush iter => ∃ f k, hand = [(f, false)] ∧ rest = f.pieces.drop k ∧ k < f.descs ∧ iter = slot n head
  | .walk iter used =>
    (hand = [] ∧ rest = [] ∧ s.rxDesc = slot n head) ∧ iter = slot n (head + used) ∧
      (s.framesRemain = 0 → Passed q used) ∧ (s.framesRemain ≠ 0 → wait ≠ [])
  | .test =>
    (hand = [] ∧ rest = [] ∧ s.rxDesc = slot n head) ∧ (s.framesRemain = 0 → wait = [] ∨ woken) ∧
      (s.framesRemain ≠ 0 → wait ≠ [])

theorem Place.grow {s s' : Emac n} {head : ℕ} {hand : List (RxFrame × Bool)} {rest q q' : List (RxFrame × ℕ)}
    {wait : List RxFrame} {woken woken' : Prop} (h : Place s head hand rest wait q woken) (hpc : s'.pc = s.pc)
    (hrx : s'.rxDesc = s.rxDesc) (hfr : s'.framesRemain = s.framesRemain) (more : List RxFrame) (hq : q <+: q')
    (hw : woken → woken') (hm : more ≠ [] → woken') : Place s' head hand rest (wait ++ more) q' woken' := by
  have hwait : wait = [] ∨ woken → wait ++ more = [] ∨ woken' := by
    rintro (rfl | hwk)
    · by_cases hmore : more = []
      · exact Or.inl hmore
      · exact Or.inr (hm hmore)
    · exact Or.inr (hw hwk)
  have hne : wait ≠ [] → wait ++ more ≠ [] := fun hne happ => hne (List.append_eq_nil_iff.1 happ).1
  unfold Place at h ⊢
  rw [hpc]
  cases hplace : s.pc with
  | block =>
    rw [hplace] at h
    exact ⟨hrx ▸ h.1, hwait h.2⟩
  | validLen iter used =>
    rw [hplace] at h
    exact ⟨hrx ▸ h.1, h.2.1, h.2.2.grow hq⟩
  | alloc retLen =>
    rw [hplace] at h
    refine ⟨hrx ▸ h.1, h.2.imp_right ?_⟩
    rintro ⟨f, later, rfl, hf⟩
    exact ⟨f, later ++ more, rfl, hf⟩
  | copy => rwa [hplace] at h
  | rest => rwa [hplace] at h
  | input =>
    rw [hplace] at h
    obtain ⟨f, ⟨h1, h2, h3⟩, hf⟩ := h
    exact ⟨f, ⟨h1, h2, hrx.trans h3⟩, hf⟩
  | flush => rwa [hplace] at h
  | walk iter used =>
    rw [hplace] at h
    exact ⟨hrx ▸ h.1, h.2.1, fun h0 => (h.2.2.1 (hfr ▸ h0)).grow hq, fun h0 => hne (h.2.2.2 (hfr ▸ h0))⟩
  | test =>
    rw [hplace] at h
    exact ⟨hrx ▸ h.1, fun h0 => hwait (h.2.1 (hfr ▸ h0)), fun h0 => hne (h.2.2 (hfr ▸ h0))⟩

theorem Place.hand_le {s : Emac n} {head : ℕ} {hand : List (RxFrame × Bool)} {rest q : List (RxFrame × ℕ)}
    {wait : List RxFrame} {woken : Prop} (h : Place s head hand rest wait q woken) : hand.length ≤ 1 := by
  unfold Place at h
  cases hpc : s.pc <;> rw [hpc] at h
  case copy | input =>
    obtain ⟨f, ⟨rfl, -⟩, -⟩ := h
    exact le_rfl
  case rest =>
    obtain ⟨f, k, ⟨rfl, -⟩, -⟩ := h
    exact le_rfl
  case flush =>
    obtain ⟨f, k, rfl, -⟩ := h
    exact le_rfl
  all_goals
    obtain ⟨⟨rfl, -⟩, -⟩ := h
    exact Nat.zero_le 1

/-- Steps the task has left in this round, `pieces` being what the ring holds of the frame
in hand. -/
def rank (pc : RxPc n) (pieces : ℕ) (wait : List RxFrame) : ℕ :=
  match pc with
  | .block => 0
  | .validLen _ used => (n - used) + if wait = [] then 3 * n + 9 else n + 4
  | .alloc retLen => if retLen = 0 then 3 * n + 8 else n + 3
  | .copy .. => n + 2
  | .rest .. => pieces + 1
  | .input .. => 3 * n + 8
  | .flush _ => pieces + 1
  | .walk _ used => (n - used) + (2 * n + 7)
  | .test => 2 * n + 6

/-- The frames the ring holds, the one in hand included while it has pieces there. -/
def load (rest : List (RxFrame × ℕ)) (wait : List RxFrame) : ℕ := wait.length + if rest = [] then 0 else 1

/-- Every frame in the ring is worth a round, and so is a wake-up. -/
def fuel (s : Emac n) (rest : List (RxFrame × ℕ)) (wait : List RxFrame) : ℕ :=
  (3 * n + 8) * load rest wait + (4 * n + 10) * s.notified.toNat + rank s.pc rest.length wait

section

variable {s s' : Emac n} {rest rest' : List (RxFrame × ℕ)} {wait wait' : List RxFrame} (hn : s'.notified = s.notified)
include hn

omit [NeZero n] in
theorem fuel_lt_of_rank (hl : load rest' wait' = load rest wait)
    (hr : rank s'.pc rest'.length wait' < rank s.pc rest.length wait) : fuel s' rest' wait' < fuel s rest wait := by
  rw [fuel, fuel, hn, hl]
  omega

omit [NeZero n] in
theorem fuel_lt_of_load (hl : load rest wait = load rest' wait' + 1)
    (hr : rank s'.pc rest'.length wait' < 3 * n + 8 + rank s.pc rest.length wait) :
    fuel s' rest' wait' < fuel s rest wait := by
  rw [fuel, fuel, hn, hl, Nat.mul_succ]
  omega

end

theorem load_take (f : RxFrame) (wait : List RxFrame) : load f.pieces wait = load [] (f :: wait) := by
  have hne : f.pieces ≠ [] := fun h => f.descs_pos.ne' (by rw [← f.pieces_length, h]; rfl)
  rw [load, load, if_neg hne, if_pos rfl]
  rfl

theorem load_drop (f : RxFrame) {k : ℕ} (hk : k < f.descs) (wait : List RxFrame) :
    load (f.pieces.drop k) wait = load [] wait + 1 := by
  rw [f.pieces_drop hk, load, load, if_neg (List.cons_ne_nil _ _), if_pos rfl]

theorem length_drop (f : RxFrame) (k : ℕ) : (f.pieces.drop k).length = f.descs - k := by
  rw [List.length_drop, RxFrame.pieces_length]

end

end Inferno
