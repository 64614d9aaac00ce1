import Inferno.Sanity.EmacLine

/-! Every frame the DMA stores to its end leaves the ring once and in order: handed to
the stack with its own bytes and time stamp, or dropped for its error, its length or
want of memory, whatever comes in between any two steps of the receive task. -/

namespace Inferno

open Lib

variable {n : ℕ} [NeZero n]

/-- The books of a run so far: the frames dealt with and the answers they had, the one in
hand, what the ring holds of it, the frames waiting, and where the ring starts. -/
structure Books (past : List LineAct) (L : RxLine n) (taken hand : List (RxFrame × Bool))
    (rest : List (RxFrame × ℕ)) (wait : List RxFrame) (head : ℕ) : Prop where
  stored : stored past = (taken ++ hand).map Prod.fst ++ wait
  answered : answered past = ((taken ++ hand).filter fun p => !p.1.err).map Prod.snd
  handed : handedUp past = taken.filterMap fun p => p.1.deliver p.2
  ring : RingHolds RxCell L.emac.ring head (queue rest wait L.air)
  fill : L.fill = slot n (head + (queue rest wait L.air).length)
  air : ∀ p ∈ L.air, p.2 < p.1.descs ∧ p.1.Forwarded
  fwd : ∀ f ∈ hand.map Prod.fst ++ wait, f.Forwarded

/-- The books are in order, and the task is where they say. -/
def Kept (past : List LineAct) (L : RxLine n) (taken hand : List (RxFrame × Bool)) (rest : List (RxFrame × ℕ))
    (wait : List RxFrame) (head : ℕ) : Prop :=
  Books past L taken hand rest wait head ∧
    Place L.emac head hand rest wait (queue rest wait L.air) (L.irq = true ∨ L.emac.notified = true)

theorem reset_kept (ring : Fin n → RxDesc) : Kept [] (emac_esp_dma_reset ring) [] [] [] [] 0 := by
  have hfree : ∀ i, RxCell ((emac_esp_dma_reset ring).emac.ring i) none := fun _ => rfl
  refine ⟨⟨rfl, rfl, rfl, RingHolds.empty hfree 0, rfl, ?_, ?_⟩, ⟨rfl, rfl, rfl⟩, Or.inl rfl⟩
  · exact fun _ h => absurd h (Option.not_mem_none _)
  · exact fun _ h => absurd h List.not_mem_nil

section

variable {past : List LineAct} {L : RxLine n} {taken hand : List (RxFrame × Bool)} {rest : List (RxFrame × ℕ)}
  {wait : List RxFrame} {head : ℕ}

theorem Kept.arrive (h : Kept past L taken hand rest wait head) (hair : L.air = none) {f : RxFrame} (hf : f.Forwarded) :
    Kept past { L with air := some (f, 0) } taken hand rest wait head := by
  obtain ⟨hb, hplace⟩ := h
  have hring := hb.ring
  have hfill := hb.fill
  rw [hair] at hring hfill hplace
  refine ⟨⟨hb.stored, hb.answered, hb.handed, hring, hfill, fun p hp => ?_, hb.fwd⟩, hplace⟩
  obtain rfl := Option.mem_some_iff.1 hp
  exact ⟨f.descs_pos, hf⟩

theorem Kept.isr (h : Kept past L taken hand rest wait head) : Kept past (emac_isr L) taken hand rest wait head := by
  obtain ⟨hb, hplace⟩ := h
  refine ⟨⟨hb.stored, hb.answered, hb.handed, hb.ring, hb.fill, hb.air, hb.fwd⟩, ?_⟩
  rw [← List.append_nil wait]
  exact hplace.grow rfl rfl rfl [] (by rw [List.append_nil]; exact List.prefix_refl _) (fun _ => Or.inr rfl)
    (fun hne => absurd rfl hne)

/-- One more piece in the ring, of a frame that is not complete by it. -/
theorem queue_store (rest : List (RxFrame × ℕ)) (wait : List RxFrame) (f : RxFrame) (k : ℕ) :
    queue rest wait (some (f, k)) ++ [(f, k)] = queue rest wait (some (f, k + 1)) := by
  simp [queue, airPieces, List.range_succ, List.append_assoc]

theorem queue_complete (rest : List (RxFrame × ℕ)) (wait : List RxFrame) {f : RxFrame} {k : ℕ} (hk : k + 1 = f.descs) :
    queue rest wait (some (f, k)) ++ [(f, k)] = queue rest (wait ++ [f]) none := by
  simp [queue, airPieces, RxFrame.pieces, ← hk, List.range_succ, List.append_assoc]

theorem Kept.store (h : Kept past L taken hand rest wait head) {f : RxFrame} {k : ℕ} (hair : L.air = some (f, k))
    (hown : (L.emac.ring L.fill).own = .dma) :
    Kept (past ++ (if k + 1 = f.descs then some (LineAct.stored f) else none).toList) (storePiece f k L) taken hand rest
      (wait ++ if k + 1 = f.descs then [f] else []) head := by
  obtain ⟨hb, hplace⟩ := h
  obtain ⟨hk, hfwd⟩ := hb.air (f, k) hair
  have hring := hb.ring
  have hfill := hb.fill
  rw [hair] at hring hfill hplace
  have hroom := hring.room (fun _ _ => RxCell.not_none) (by rw [← hfill]; exact hown)
  have hpush := hring.push hroom (c := f.store k (L.emac.ring L.fill)) (b := (f, k)) ⟨_, rfl⟩
  rw [← hfill] at hpush
  have hnext : (storePiece f k L).fill = slot n (head + (queue rest wait (some (f, k)) ++ [(f, k)]).length) := by
    rw [List.length_append, ← Nat.add_assoc]
    exact (congrArg nextDesc hfill).trans (nextDesc_slot _)
  by_cases hlast : k + 1 = f.descs
  · have hair' : (storePiece f k L).air = none := if_pos hlast
    have hirq : (storePiece f k L).irq = true := by simp [storePiece, hlast]
    have hgrow : queue rest wait (some (f, k)) <+: queue rest (wait ++ [f]) none := by
      rw [← queue_complete rest wait hlast]
      exact List.prefix_append _ _
    rw [queue_complete rest wait hlast] at hpush hnext
    rw [if_pos hlast, if_pos hlast]
    refine ⟨⟨?_, ?_, ?_, by rwa [hair'], by rwa [hair'], fun p hp => ?_, fun g hg => ?_⟩, ?_⟩
    · rw [stored_append, hb.stored, List.append_assoc]
      rfl
    · rw [answered_append, hb.answered]
      exact List.append_nil _
    · rw [handedUp_append, hb.handed]
      exact List.append_nil _
    · rw [hair'] at hp
      exact absurd hp (Option.not_mem_none p)
    · rw [← List.append_assoc, List.mem_append, List.mem_singleton] at hg
      rcases hg with hg | rfl
      · exact hb.fwd g hg
      · exact hfwd
    · rw [hair']
      exact hplace.grow rfl rfl rfl [f] hgrow (fun _ => Or.inl hirq) (fun _ => Or.inl hirq)
  · have hair' : (storePiece f k L).air = some (f, k + 1) := if_neg hlast
    have hirq : (storePiece f k L).irq = L.irq := by simp [storePiece, hlast]
    have hgrow : queue rest wait (some (f, k)) <+: queue rest wait (some (f, k + 1)) := by
      rw [← queue_store]
      exact List.prefix_append _ _
    rw [queue_store] at hpush hnext
    rw [if_neg hlast, if_neg hlast, Option.toList_none, List.append_nil, List.append_nil]
    refine ⟨⟨hb.stored, hb.answered, hb.handed, by rwa [hair'], by rwa [hair'], fun p hp => ?_, hb.fwd⟩, ?_⟩
    · rw [hair'] at hp
      obtain rfl := Option.mem_some_iff.1 hp
      exact ⟨Nat.lt_of_le_of_ne hk hlast, hfwd⟩
    · rw [hair', hirq]
      rw [← List.append_nil wait] at hgrow ⊢
      exact hplace.grow rfl rfl rfl [] (by rwa [List.append_nil] at hgrow ⊢) id (fun hne => absurd rfl hne)

theorem Books.move (h : Books past L taken hand rest wait head) {s : Emac n} (hr : s.ring = L.emac.ring) :
    Books past { L with emac := s } taken hand rest wait head :=
  ⟨h.stored, h.answered, h.handed, hr ▸ h.ring, h.fill, h.air, h.fwd⟩

theorem Books.release {p : RxFrame × ℕ} (h : Books past L taken hand (p :: rest) wait head) {s : Emac n}
    (hr : s.ring = (giveBack (slot n head) L.emac).ring) :
    Books past { L with emac := s } taken hand rest wait (head + 1) where
  stored := h.stored
  answered := h.answered
  handed := h.handed
  ring := by
    have hfree : RxCell { L.emac.ring (slot n head) with own := .dma } none := rfl
    change RingHolds RxCell s.ring _ _
    rw [hr]
    exact h.ring.pop hfree
  fill := by
    rw [h.fill, Nat.add_assoc, Nat.add_comm 1]
    rfl
  air := h.air
  fwd := h.fwd

theorem Books.take {f : RxFrame} (h : Books past L taken [] [] (f :: wait) head) (b : Bool) {s : Emac n}
    (hr : s.ring = L.emac.ring) {l : Option LineAct} (hl : l = if f.err then none else some (.malloc b)) :
    Books (past ++ l.toList) { L with emac := s } taken [(f, b)] f.pieces wait head where
  stored := by
    rw [stored_append, h.stored, hl]
    cases f.err <;> simp [Inferno.stored]
  answered := by
    rw [answered_append, h.answered, hl, List.append_nil, List.filter_append, List.map_append]
    cases hf : f.err <;> simp [Inferno.answered, hf]
  handed := by
    rw [handedUp_append, h.handed, hl]
    cases f.err <;> exact List.append_nil _
  ring := by
    rw [← queue_cons]
    exact hr ▸ h.ring
  fill := by
    rw [← queue_cons]
    exact h.fill
  air := h.air
  fwd := h.fwd

theorem Books.done {f : RxFrame} {b : Bool} (h : Books past L taken [(f, b)] [] wait head) {s : Emac n}
    (hr : s.ring = L.emac.ring) {l : Option LineAct} (hl : l = (f.deliver b).map fun p => .stackInput p.1 p.2) :
    Books (past ++ l.toList) { L with emac := s } (taken ++ [(f, b)]) [] [] wait head where
  stored := by
    rw [stored_append, h.stored, hl, List.append_nil]
    cases f.deliver b <;> exact List.append_nil _
  answered := by
    rw [answered_append, h.answered, hl, List.append_nil]
    cases f.deliver b <;> exact List.append_nil _
  handed := by
    rw [handedUp_append, h.handed, hl, List.filterMap_append]
    cases hd : f.deliver b <;> simp [handedUp, hd]
  ring := hr ▸ h.ring
  fill := h.fill
  air := h.air
  fwd := fun g hg => h.fwd g (List.mem_append_right _ hg)

/-- A descriptor behind those passed that is the driver's holds the next piece of their frame. -/
theorem Books.piece_at (h : Books past L taken [] [] wait head) {used : ℕ} (hpass : Passed (queue [] wait L.air) used)
    (hgo : (L.emac.ring (slot n (head + used))).own = .cpu ∧ used < n) :
    ∃ f d, L.emac.ring (slot n (head + used)) = f.store used d ∧
      (used + 1 < f.descs ∧ Passed (queue [] wait L.air) (used + 1) ∨
        used + 1 = f.descs ∧ ∃ later, wait = f :: later) := by
  have hcell := h.ring.cells used hgo.2
  rcases hpass.next (fun p hp => (h.air p hp).1) with ⟨hnone, -⟩ | ⟨f, hq, hf⟩
  · rw [hnone] at hcell
    exact absurd (hgo.1.symm.trans hcell) DescOwner.noConfusion
  · rw [hq] at hcell
    obtain ⟨d, hd⟩ := hcell
    exact ⟨f, d, hd, hf.imp (fun hlt => ⟨hlt, hpass.succ hq hlt⟩) id⟩

theorem Books.none_waits (h : Books past L taken [] [] wait head) {used : ℕ} (hpass : Passed (queue [] wait L.air) used)
    (hgo : ¬((L.emac.ring (slot n (head + used))).own = .cpu ∧ used < n)) : wait = [] := by
  rcases hpass.next (fun p hp => (h.air p hp).1) with ⟨-, hw⟩ | ⟨f, hq, -⟩
  · exact hw
  · obtain ⟨hlt, -⟩ := List.getElem?_eq_some_iff.1 hq
    have hn : used < n := hlt.trans_le h.ring.fits
    have hcell := h.ring.cells used hn
    rw [hq] at hcell
    obtain ⟨d, hd⟩ := hcell
    exact absurd ⟨by rw [hd]; rfl, hn⟩ hgo

theorem Books.length_le (h : Books past L taken hand rest wait head) : rest.length + (wait.flatMap RxFrame.pieces).length ≤ n := by
  have hfit := h.ring.fits
  simp only [queue, List.length_append] at hfit
  omega

theorem Books.descs_le {f : RxFrame} (h : Books past L taken hand rest (f :: wait) head) : f.descs ≤ n := by
  have hfit := h.length_le
  rw [List.flatMap_cons, List.length_append, f.pieces_length] at hfit
  omega

theorem Books.rest_le (h : Books past L taken hand rest wait head) : rest.length ≤ n := by
  have hfit := h.length_le
  omega

/-- The first descriptor while the frame in hand still has pieces in the ring. -/
theorem Books.front_piece {f : RxFrame} {k : ℕ} (hk : k < f.descs) (h : Books past L taken hand (f.pieces.drop k) wait head) :
    ∃ d, L.emac.ring (slot n head) = f.store k d := by
  have hcell := h.ring.front
  rw [f.pieces_drop hk] at hcell
  exact hcell

/-- After a step of the task the books can be kept on, and less than `m` is left to do. -/
def BooksOn (past : List LineAct) (L : RxLine n) (m : ℕ) (s : Emac n) (l : Option (EmacAct n)) : Prop :=
  ∃ taken hand rest wait head,
    Kept (past ++ (l.bind EmacAct.seen).toList) { L with emac := s } taken hand rest wait head ∧ fuel s rest wait < m

section

variable {m : ℕ} {s s' : Emac n} {l l' : Option (EmacAct n)} (hs : some (s', l') = some (s, l))
include hs

theorem BooksOn.same (hb : Books past L taken hand rest wait head) (hr : s'.ring = L.emac.ring)
    (hl : l'.bind EmacAct.seen = none)
    (hp : Place s' head hand rest wait (queue rest wait L.air) (L.irq = true ∨ s'.notified = true))
    (hf : fuel s' rest wait < m) : BooksOn past L m s l := by
  obtain ⟨rfl, rfl⟩ := Prod.mk.inj (Option.some_injective _ hs)
  refine ⟨taken, hand, rest, wait, head, ?_, hf⟩
  rw [hl, Option.toList_none, List.append_nil]
  exact ⟨hb.move hr, hp⟩

theorem BooksOn.release {p : RxFrame × ℕ} (hb : Books past L taken hand (p :: rest) wait head)
    (hr : s'.ring = (giveBack (slot n head) L.emac).ring) (hl : l'.bind EmacAct.seen = none)
    (hp : Place s' (head + 1) hand rest wait (queue rest wait L.air) (L.irq = true ∨ s'.notified = true))
    (hf : fuel s' rest wait < m) : BooksOn past L m s l := by
  obtain ⟨rfl, rfl⟩ := Prod.mk.inj (Option.some_injective _ hs)
  refine ⟨taken, hand, rest, wait, head + 1, ?_, hf⟩
  rw [hl, Option.toList_none, List.append_nil]
  exact ⟨hb.release hr, hp⟩

theorem BooksOn.take {f : RxFrame} (hb : Books past L taken [] [] (f :: wait) head) (b : Bool) (hr : s'.ring = L.emac.ring)
    (hl : l'.bind EmacAct.seen = if f.err then none else some (.malloc b))
    (hp : Place s' head [(f, b)] f.pieces wait (queue f.pieces wait L.air) (L.irq = true ∨ s'.notified = true))
    (hf : fuel s' f.pieces wait < m) : BooksOn past L m s l := by
  obtain ⟨rfl, rfl⟩ := Prod.mk.inj (Option.some_injective _ hs)
  exact ⟨taken, [(f, b)], f.pieces, wait, head, ⟨hb.take b hr hl, hp⟩, hf⟩

theorem BooksOn.done {f : RxFrame} {b : Bool} (hb : Books past L taken [(f, b)] [] wait head) (hr : s'.ring = L.emac.ring)
    (hl : l'.bind EmacAct.seen = (f.deliver b).map fun p => .stackInput p.1 p.2)
    (hp : Place s' head [] [] wait (queue [] wait L.air) (L.irq = true ∨ s'.notified = true))
    (hf : fuel s' [] wait < m) : BooksOn past L m s l := by
  obtain ⟨rfl, rfl⟩ := Prod.mk.inj (Option.some_injective _ hs)
  exact ⟨taken ++ [(f, b)], [], [], wait, head, ⟨hb.done hr hl, hp⟩, hf⟩

end

theorem Place.start_walk {s₀ : Emac n} (hrx : s₀.rxDesc = slot n head) (wait : List RxFrame) (q : List (RxFrame × ℕ))
    (woken : Prop) : Place (startWalk s₀) head [] [] wait q woken :=
  ⟨⟨rfl, rfl, hrx⟩, hrx, fun _ => .zero _, fun h0 => absurd rfl h0⟩

variable {early ok : Bool} {s : Emac n} {l : Option (EmacAct n)}

theorem Kept.block_step (h : Kept past L taken hand rest wait head) (hpc : L.emac.pc = .block)
    (hs : rxTaskStep early ok L.emac = some (s, l)) : BooksOn past L (fuel L.emac rest wait) s l := by
  obtain ⟨hb, hplace⟩ := h
  simp only [Place, hpc] at hplace
  obtain ⟨⟨rfl, rfl, hrx⟩, -⟩ := hplace
  simp only [rxTaskStep, hpc] at hs
  split_ifs at hs with hnot
  refine .same hs hb rfl rfl ⟨⟨rfl, rfl, hrx⟩, hrx, .zero _⟩ ?_
  -- the wake-up pays for the round
  simp only [fuel, hnot, hpc, rank, Bool.toNat_true, Bool.toNat_false]
  split_ifs <;> omega

theorem Kept.validLen_step (h : Kept past L taken hand rest wait head) {iter : Fin n} {used : ℕ}
    (hpc : L.emac.pc = .validLen iter used) (hs : rxTaskStep early ok L.emac = some (s, l)) :
    BooksOn past L (fuel L.emac rest wait) s l := by
  obtain ⟨hb, hplace⟩ := h
  simp only [Place, hpc] at hplace
  obtain ⟨⟨rfl, rfl, hrx⟩, rfl, hpass⟩ := hplace
  simp only [rxTaskStep, hpc] at hs
  by_cases hgo : (L.emac.ring (slot n (head + used))).own = .cpu ∧ used < n
  · rw [if_pos hgo] at hs
    obtain ⟨f, d, hd, hf⟩ := hb.piece_at hpass hgo
    rw [hd] at hs
    rcases hf with ⟨hlt, hmore⟩ | ⟨hend, later, rfl⟩
    · -- not the end of a frame
      rw [if_neg (by simp [RxFrame.store, hlt.ne])] at hs
      refine .same hs hb rfl rfl ⟨⟨rfl, rfl, ?_⟩, nextDesc_slot _, hmore⟩ (fuel_lt_of_rank rfl rfl ?_)
      · by_cases hfirst : used = 0
        · subst hfirst
          rfl
        · simp [RxFrame.store, hfirst, hrx]
      · simp only [hpc, rank]
        omega
    · rw [if_pos (by simp [RxFrame.store, hend])] at hs
      cases herr : f.err with
      | true =>
        rw [if_pos (by simp [RxFrame.store, hend, herr])] at hs
        refine .take hs hb false rfl (by rw [herr]; rfl) ⟨f, 0, rfl, rfl, f.descs_pos, hrx⟩
          (fuel_lt_of_rank rfl (load_take f later) ?_)
        have hfit := hb.descs_le
        simp only [hpc, rank, f.pieces_length, List.cons_ne_nil, if_false]
        omega
      | false =>
        rw [if_neg (by simp [RxFrame.store, herr])] at hs
        obtain ⟨hmin, hmax⟩ := hb.fwd f List.mem_cons_self
        have hlen := hmin herr
        have hret : u32 ((f.store used d).frameLength + 2 ^ 32 - ETH_CRC_LENGTH) = f.bytes.length - ETH_CRC_LENGTH := by
          simp only [RxFrame.store, hend, if_true, u32, ETH_CRC_LENGTH]
          omega
        refine .same hs hb rfl rfl ⟨⟨rfl, rfl, hrx⟩, Or.inr ⟨f, later, rfl, herr, hret⟩⟩ (fuel_lt_of_rank rfl rfl ?_)
        have hpos : f.bytes.length - ETH_CRC_LENGTH ≠ 0 := by
          simp only [ETH_CRC_LENGTH]
          omega
        simp only [hpc, rank, hret, if_neg hpos, List.cons_ne_nil, if_false]
        omega
  · rw [if_neg hgo] at hs
    obtain rfl := hb.none_waits hpass hgo
    refine .same hs hb rfl rfl ⟨⟨rfl, rfl, hrx⟩, Or.inl rfl⟩ (fuel_lt_of_rank rfl rfl ?_)
    simp only [hpc, rank, if_true]
    omega

theorem Kept.alloc_step (h : Kept past L taken hand rest wait head) {retLen : ℕ} (hpc : L.emac.pc = .alloc retLen)
    (hs : rxTaskStep early ok L.emac = some (s, l)) : BooksOn past L (fuel L.emac rest wait) s l := by
  obtain ⟨hb, hplace⟩ := h
  simp only [Place, hpc] at hplace
  obtain ⟨⟨rfl, rfl, hrx⟩, hret⟩ := hplace
  simp only [rxTaskStep, hpc, gt_iff_lt] at hs
  rcases hret with rfl | ⟨f, later, rfl, herr, hlen⟩
  · refine .same hs hb rfl rfl (.start_walk hrx _ _ _) (fuel_lt_of_rank rfl rfl ?_)
    simp only [hpc, rank, startWalk, if_true]
    omega
  · have hmin := (hb.fwd f List.mem_cons_self).1 herr
    have hfit := hb.descs_le
    have hcopy : (if ETH_MAX_PACKET_SIZE < retLen then ETH_MAX_PACKET_SIZE else retLen) = min retLen ETH_MAX_PACKET_SIZE := by
      split_ifs <;> omega
    have hne : retLen ≠ 0 := by
      simp only [ETH_CRC_LENGTH] at hlen
      omega
    have hpos : 0 < min retLen ETH_MAX_PACKET_SIZE := by
      simp only [ETH_MAX_PACKET_SIZE]
      omega
    rw [hcopy, if_pos hpos] at hs
    split_ifs at hs with hok
    · refine .take hs hb true rfl (by rw [herr]; rfl) ⟨f, ⟨rfl, rfl, hrx⟩, herr, hlen, rfl, rfl, rfl⟩
        (fuel_lt_of_rank rfl (load_take f later) ?_)
      simp only [hpc, rank, if_neg hne]
      omega
    · refine .take hs hb false rfl (by rw [herr]; rfl) ⟨f, 0, rfl, rfl, f.descs_pos, hrx⟩
        (fuel_lt_of_rank rfl (load_take f later) ?_)
      simp only [hpc, rank, if_neg hne, f.pieces_length]
      omega

theorem Kept.copy_step (h : Kept past L taken hand rest wait head) {iter : Fin n} {frameLen recvLen copyLen : ℕ}
    {buf : List UInt8} (hpc : L.emac.pc = .copy iter frameLen recvLen copyLen buf)
    (hs : rxTaskStep early ok L.emac = some (s, l)) : BooksOn past L (fuel L.emac rest wait) s l := by
  obtain ⟨hb, hplace⟩ := h
  simp only [Place, hpc] at hplace
  obtain ⟨f, ⟨rfl, rfl, rfl⟩, herr, hfl, hrl, rfl, rfl⟩ := hplace
  -- no more than a packet is copied, and that fits one descriptor
  have hone : copyLen ≤ CONFIG_ETH_DMA_BUFFER_SIZE := by
    simp only [ETH_MAX_PACKET_SIZE, CONFIG_ETH_DMA_BUFFER_SIZE] at hrl ⊢
    omega
  have hwithin : copyLen ≤ f.bytes.length := by omega
  have hfit := hb.rest_le
  obtain ⟨d, hd⟩ := Books.front_piece (k := 0) f.descs_pos hb
  simp only [rxTaskStep, hpc, gt_iff_lt, if_neg (not_lt.2 hone)] at hs
  refine .same hs hb rfl rfl ⟨f, 0, ⟨rfl, rfl, f.descs_pos, rfl⟩, herr, hfl, hrl, ?_⟩ (fuel_lt_of_rank rfl rfl ?_)
  · rw [hd, List.nil_append, f.store_take d hone hwithin]
  · simp only [hpc, rank]
    omega

theorem Kept.rest_step (h : Kept past L taken hand rest wait head) {iter : Fin n} {frameLen recvLen : ℕ}
    {buf : List UInt8} (hpc : L.emac.pc = .rest iter frameLen recvLen buf)
    (hs : rxTaskStep early ok L.emac = some (s, l)) : BooksOn past L (fuel L.emac rest wait) s l := by
  obtain ⟨hb, hplace⟩ := h
  simp only [Place, hpc] at hplace
  obtain ⟨f, k, ⟨rfl, rfl, hk, rfl⟩, herr, hfl, hrl, hbuf⟩ := hplace
  obtain ⟨d, hd⟩ := hb.front_piece hk
  have hload := load_drop f hk wait
  have hlen := length_drop f k
  rw [f.pieces_drop hk] at hb
  simp only [rxTaskStep, hpc, hd] at hs
  by_cases hend : k + 1 = f.descs
  · have hnil := f.pieces_drop_all hend.ge
    rw [if_pos (by simp [RxFrame.store, hend])] at hs
    refine .release hs hb rfl rfl ⟨f, ⟨rfl, hnil, nextDesc_slot _⟩, herr, hfl, hrl, hbuf, ?_⟩ (fuel_lt_of_load rfl ?_ ?_)
    · simp [RxFrame.store, hend]
    · rw [hload, hnil]
    · simp only [hpc, rank, hlen]
      omega
  · have hlt : k + 1 < f.descs := Nat.lt_of_le_of_ne hk hend
    rw [if_neg (by simp [RxFrame.store, hend])] at hs
    refine .release hs hb rfl rfl ⟨f, k + 1, ⟨rfl, rfl, hlt, nextDesc_slot _⟩, herr, hfl, hrl, hbuf⟩ (fuel_lt_of_rank rfl ?_ ?_)
    · rw [hload, load_drop f hlt]
    · simp only [hpc, rank, hlen, length_drop]
      omega

theorem Kept.input_step (h : Kept past L taken hand rest wait head) {frameLen recvLen : ℕ} {buf : List UInt8} {stamp : ℕ × ℕ}
    (hpc : L.emac.pc = .input frameLen recvLen buf stamp) (hs : rxTaskStep early ok L.emac = some (s, l)) :
    BooksOn past L (fuel L.emac rest wait) s l := by
  obtain ⟨hb, hplace⟩ := h
  simp only [Place, hpc] at hplace
  obtain ⟨f, ⟨rfl, rfl, hrx⟩, herr, hfl, hrl, rfl, rfl⟩ := hplace
  have hmin := (hb.fwd f List.mem_cons_self).1 herr
  have hfuel : rank (startWalk L.emac).pc 0 wait < rank L.emac.pc 0 wait := by
    simp only [hpc, rank, startWalk]
    omega
  simp only [ETH_CRC_LENGTH, ETH_MAX_PACKET_SIZE] at hfl hrl
  simp only [rxTaskStep, hpc, gt_iff_lt] at hs
  rw [if_neg (by omega)] at hs
  by_cases hlong : recvLen < frameLen
  · rw [if_pos hlong] at hs
    refine .done hs hb rfl ?_ (.start_walk hrx _ _ _) (fuel_lt_of_rank rfl rfl hfuel)
    rw [RxFrame.deliver, if_neg (by simp only [ETH_CRC_LENGTH, ETH_MAX_PACKET_SIZE]; omega)]
    rfl
  · rw [if_neg hlong] at hs
    refine .done hs hb rfl ?_ (.start_walk hrx _ _ _) (fuel_lt_of_rank rfl rfl hfuel)
    have hrecv : recvLen = f.bytes.length - ETH_CRC_LENGTH := by
      simp only [ETH_CRC_LENGTH]
      omega
    rw [RxFrame.deliver, if_pos ⟨herr, rfl, by simp only [ETH_CRC_LENGTH, ETH_MAX_PACKET_SIZE]; omega⟩, ← hrecv]
    rfl

theorem deliver_false (f : RxFrame) : f.deliver false = none := if_neg fun h => Bool.noConfusion h.2.1

theorem Kept.flush_step (h : Kept past L taken hand rest wait head) {iter : Fin n} (hpc : L.emac.pc = .flush iter)
    (hs : rxTaskStep early ok L.emac = some (s, l)) : BooksOn past L (fuel L.emac rest wait) s l := by
  obtain ⟨hb, hplace⟩ := h
  simp only [Place, hpc] at hplace
  obtain ⟨f, k, rfl, rfl, hk, rfl⟩ := hplace
  obtain ⟨d, hd⟩ := hb.front_piece hk
  have hload := load_drop f hk wait
  have hlen := length_drop f k
  rw [f.pieces_drop hk] at hb
  simp only [rxTaskStep, hpc, hd] at hs
  by_cases hend : k + 1 = f.descs
  · rw [if_pos (by simp [RxFrame.store, hend])] at hs
    rw [f.pieces_drop_all hend.ge] at hb
    -- the last descriptor is handed back, and with it the frame is gone
    have hb' := hb.release (s := giveBack (slot n head) L.emac) rfl
    refine BooksOn.done (L := { L with emac := giveBack (slot n head) L.emac }) hs hb' rfl (by rw [deliver_false]; rfl)
      (.start_walk (nextDesc_slot _) _ _ _) (fuel_lt_of_load rfl hload ?_)
    simp only [hpc, rank, hlen, startWalk]
    omega
  · have hlt : k + 1 < f.descs := Nat.lt_of_le_of_ne hk hend
    rw [if_neg (by simp [RxFrame.store, hend])] at hs
    refine .release hs hb rfl rfl ⟨f, k + 1, rfl, rfl, hlt, nextDesc_slot _⟩ (fuel_lt_of_rank rfl ?_ ?_)
    · rw [hload, load_drop f hlt]
    · simp only [hpc, rank, hlen, length_drop]
      omega

theorem Kept.walk_step (h : Kept past L taken hand rest wait head) {iter : Fin n} {used : ℕ}
    (hpc : L.emac.pc = .walk iter used) (hs : rxTaskStep early ok L.emac = some (s, l)) :
    BooksOn past L (fuel L.emac rest wait) s l := by
  obtain ⟨hb, hplace⟩ := h
  simp only [Place, hpc] at hplace
  obtain ⟨⟨rfl, rfl, hrx⟩, rfl, hzero, hne⟩ := hplace
  simp only [rxTaskStep, hpc] at hs
  have htest : rank (.test : RxPc n) 0 wait < rank L.emac.pc 0 wait := by
    simp only [hpc, rank]
    omega
  by_cases hgo : (L.emac.ring (slot n (head + used))).own = .cpu ∧ used < n
  · have hnext : rank (.walk (nextDesc (slot n (head + used))) (used + 1) : RxPc n) 0 wait < rank L.emac.pc 0 wait := by
      simp only [hpc, rank]
      omega
    rw [if_pos hgo] at hs
    by_cases hlast : (L.emac.ring (slot n (head + used))).lastDescriptor = true
    · -- the end of a frame: one waits
      have hwait : wait ≠ [] := by
        by_cases h0 : L.emac.framesRemain = 0
        · obtain ⟨f, d, hd, ⟨hlt, -⟩ | ⟨-, later, rfl⟩⟩ := hb.piece_at (hzero h0) hgo
          · rw [hd] at hlast
            exact absurd (beq_iff_eq.1 hlast) hlt.ne
          · exact List.cons_ne_nil _ _
        · exact hne h0
      rw [if_pos hlast] at hs
      split_ifs at hs
      · exact .same hs hb rfl rfl ⟨⟨rfl, rfl, hrx⟩, fun h0 => absurd h0 (Nat.succ_ne_zero _), fun _ => hwait⟩
          (fuel_lt_of_rank rfl rfl htest)
      · exact .same hs hb rfl rfl ⟨⟨rfl, rfl, hrx⟩, nextDesc_slot _, fun h0 => absurd h0 (Nat.succ_ne_zero _), fun _ => hwait⟩
          (fuel_lt_of_rank rfl rfl hnext)
    · rw [if_neg hlast] at hs
      refine .same hs hb rfl rfl ⟨⟨rfl, rfl, hrx⟩, nextDesc_slot _, fun h0 => ?_, hne⟩ (fuel_lt_of_rank rfl rfl hnext)
      obtain ⟨f, d, hd, ⟨-, hmore⟩ | ⟨hend, -⟩⟩ := hb.piece_at (hzero h0) hgo
      · exact hmore
      · rw [hd] at hlast
        exact absurd (beq_iff_eq.2 hend) hlast
  · rw [if_neg hgo] at hs
    exact .same hs hb rfl rfl ⟨⟨rfl, rfl, hrx⟩, fun h0 => Or.inl (hb.none_waits (hzero h0) hgo), hne⟩
      (fuel_lt_of_rank rfl rfl htest)

theorem Kept.test_step (h : Kept past L taken hand rest wait head) (hpc : L.emac.pc = .test)
    (hs : rxTaskStep early ok L.emac = some (s, l)) : BooksOn past L (fuel L.emac rest wait) s l := by
  obtain ⟨hb, hplace⟩ := h
  simp only [Place, hpc] at hplace
  obtain ⟨⟨rfl, rfl, hrx⟩, hzero, hne⟩ := hplace
  simp only [rxTaskStep, hpc] at hs
  split_ifs at hs with h0
  · refine .same hs hb rfl rfl ⟨⟨rfl, rfl, hrx⟩, hrx, .zero _⟩ (fuel_lt_of_rank rfl rfl ?_)
    simp only [hpc, rank, if_neg (hne h0)]
    omega
  · refine .same hs hb rfl rfl ⟨⟨rfl, rfl, hrx⟩, hzero (not_not.1 h0)⟩ (fuel_lt_of_rank rfl rfl ?_)
    simp only [hpc, rank]
    omega

theorem Kept.task_step (h : Kept past L taken hand rest wait head) (hs : rxTaskStep early ok L.emac = some (s, l)) :
    BooksOn past L (fuel L.emac rest wait) s l := by
  cases hpc : L.emac.pc with
  | block => exact h.block_step hpc hs
  | validLen => exact h.validLen_step hpc hs
  | alloc => exact h.alloc_step hpc hs
  | copy => exact h.copy_step hpc hs
  | rest => exact h.rest_step hpc hs
  | input => exact h.input_step hpc hs
  | flush => exact h.flush_step hpc hs
  | walk => exact h.walk_step hpc hs
  | test => exact h.test_step hpc hs

end

theorem lineStep_kept {early : Bool} {past : List LineAct} {L L' : RxLine n} {l : Option LineAct}
    (h : ∃ taken hand rest wait head, Kept past L taken hand rest wait head) (hs : LineStep early L l L') :
    ∃ taken hand rest wait head, Kept (past ++ l.toList) L' taken hand rest wait head := by
  obtain ⟨taken, hand, rest, wait, head, h⟩ := h
  cases hs with
  | arrive f hair hf => exact ⟨_, _, _, _, _, by rw [Option.toList_none, List.append_nil]; exact h.arrive hair hf⟩
  | store hair hown => exact ⟨_, _, _, _, _, h.store hair hown⟩
  | isr => exact ⟨_, _, _, _, _, by rw [Option.toList_none, List.append_nil]; exact h.isr⟩
  | task ok hs =>
    obtain ⟨taken, hand, rest, wait, head, h, -⟩ := h.task_step hs
    exact ⟨taken, hand, rest, wait, head, h⟩

theorem line_kept {early : Bool} {past ls : List LineAct} {L L' : RxLine n} (hr : Seen (LineStep early) L ls L')
    (h : ∃ taken hand rest wait head, Kept past L taken hand rest wait head) :
    ∃ taken hand rest wait head, Kept (past ++ ls) L' taken hand rest wait head := by
  induction hr generalizing past with
  | nil => rwa [List.append_nil]
  | cons hs _ ih =>
    rw [← List.append_assoc]
    exact ih (lineStep_kept h hs)

theorem one_frame_in (early : Bool) (ring : Fin n → RxDesc) {f : RxFrame} (hf : f.Forwarded) (hd : f.descs = 1) :
    ∃ L : RxLine n, Seen (LineStep early) (emac_esp_dma_reset ring) [.stored f] L ∧ L.irq = false := by
  have hdone : 0 + 1 = f.descs := by rw [hd]
  have harrive : Seen (LineStep early) (emac_esp_dma_reset ring) [] _ := Seen.single (LineStep.arrive f rfl hf)
  have hstore := harrive.append (Seen.single (LineStep.store (f := f) (k := 0) rfl rfl))
  have hisr := hstore.append (Seen.single (LineStep.isr (by simp [storePiece, hdone])))
  rw [if_pos hdone] at hisr
  exact ⟨_, hisr, rfl⟩

omit [NeZero n] in
theorem rxTaskStep_none {early ok : Bool} {s : Emac n} (h : rxTaskStep early ok s = none) :
    s.pc = .block ∧ s.notified = false := by
  cases hpc : s.pc <;> simp only [rxTaskStep, hpc] at h <;> split_ifs at h with hnot
  exact ⟨rfl, Bool.eq_false_iff.2 hnot⟩

omit [NeZero n] in
theorem stored_seen (l : Option (EmacAct n)) : stored (l.bind EmacAct.seen).toList = [] := by
  rcases l with _ | l
  · rfl
  · cases l <;> rfl

omit [NeZero n] in
theorem answered_seen {early ok : Bool} {s s' : Emac n} {l : Option (EmacAct n)}
    (h : rxTaskStep early ok s = some (s', l)) : ∀ b ∈ answered (l.bind EmacAct.seen).toList, b = ok := by
  cases hpc : s.pc <;> simp only [rxTaskStep, hpc] at h <;> split_ifs at h <;> cases h <;>
    simp_all [answered, EmacAct.seen]

/-- With no more frames coming in, the task runs until it waits unnotified, whatever
`malloc` answers. -/
theorem Kept.runs_out {past : List LineAct} {L : RxLine n} {taken hand : List (RxFrame × Bool)}
    {rest : List (RxFrame × ℕ)} {wait : List RxFrame} {head : ℕ} (h : Kept past L taken hand rest wait head)
    (early : Bool) (ok : ℕ → Bool) (m : ℕ) (hm : fuel L.emac rest wait ≤ m) :
    ∃ k ≤ m, ∃ ls, Seen (LineStep early) L ls { L with emac := runOn early ok k L.emac } ∧ stored ls = [] ∧
      (∀ b ∈ answered ls, ∃ j, b = ok j) ∧ (runOn early ok k L.emac).pc = .block ∧
      (runOn early ok k L.emac).notified = false ∧ ∃ taken hand rest wait head,
        Kept (past ++ ls) { L with emac := runOn early ok k L.emac } taken hand rest wait head := by
  induction m using Nat.strong_induction_on generalizing ok past L taken hand rest wait head with
  | _ m ih =>
    cases hs : rxTaskStep early (ok 0) L.emac with
    | none =>
      obtain ⟨hpc, hnot⟩ := rxTaskStep_none hs
      exact ⟨0, Nat.zero_le m, [], .nil L, rfl, by simp [answered], hpc, hnot, _, _, _, _, _, by rwa [List.append_nil]⟩
    | some p =>
      obtain ⟨taken', hand', rest', wait', head', hkept, hless⟩ := h.task_step hs
      obtain ⟨k, hk, ls, hseen, hquiet, hans, hpc, hnot, hend⟩ := ih _ (hless.trans_le hm) hkept (fun j => ok (j + 1)) le_rfl
      have hrun : runOn early ok (k + 1) L.emac = runOn early (fun j => ok (j + 1)) k p.1 := by
        rw [runOn, hs]
        rfl
      refine ⟨k + 1, (Nat.succ_le_of_lt (hk.trans_lt hless)).trans hm, (p.2.bind EmacAct.seen).toList ++ ls,
        .cons (.task (ok 0) hs) ?_, ?_, ?_, ?_⟩
      · rw [hrun]
        exact hseen
      · rw [stored_append, stored_seen, hquiet, List.append_nil]
      · intro b hb
        rw [answered_append, List.mem_append] at hb
        rcases hb with hb | hb
        · exact ⟨0, answered_seen hs b hb⟩
        · obtain ⟨j, hj⟩ := hans b hb
          exact ⟨j + 1, hj⟩
      · rw [hrun, ← List.append_assoc]
        exact ⟨hpc, hnot, hend⟩

theorem length_le_pieces (wait : List RxFrame) : wait.length ≤ (wait.flatMap RxFrame.pieces).length := by
  induction wait with
  | nil => exact le_rfl
  | cons f wait ih =>
    have hpos := f.descs_pos
    rw [List.flatMap_cons, List.length_append, f.pieces_length, List.length_cons]
    omega

/-- What the task has to do is bounded by the size of the ring. -/
theorem Books.fuel_le {past : List LineAct} {L : RxLine n} {taken hand : List (RxFrame × Bool)}
    {rest : List (RxFrame × ℕ)} {wait : List RxFrame} {head : ℕ} (h : Books past L taken hand rest wait head) :
    fuel L.emac rest wait ≤ (3 * n + 8) * n + (8 * n + 19) := by
  have hlen := h.length_le
  have hload : load rest wait ≤ n := by
    have hpieces := length_le_pieces wait
    by_cases hnil : rest = []
    · rw [load, if_pos hnil]
      omega
    · have hpos := List.length_pos_of_ne_nil hnil
      rw [load, if_neg hnil]
      omega
  have hrank : rank L.emac.pc rest.length wait ≤ 4 * n + 9 := by
    cases L.emac.pc <;> simp only [rank] <;> (try split_ifs) <;> omega
  have hnot := Bool.toNat_le L.emac.notified
  have hmul := Nat.mul_le_mul_left (3 * n + 8) hload
  rw [fuel]
  have hwake := Nat.mul_le_mul_left (4 * n + 10) hnot
  omega

/-- In every run from the reset, the frames stored to their end are, in order, those dealt
with, at most one in hand, and those waiting. `malloc` was asked once for each good frame
dealt with or in hand, and the stack was handed exactly the good frames that had memory
and fit a packet, once each and in order, with their own bytes and stamp. A task that
waits has no frame in hand, and with no wake-up on the way it has left none in the ring. -/
theorem frames_once_in_order (early : Bool) (ring : Fin n → RxDesc) {ls : List LineAct} {L : RxLine n}
    (hr : Seen (LineStep early) (emac_esp_dma_reset ring) ls L) :
    ∃ (taken hand : List (RxFrame × Bool)) (wait : List RxFrame),
      stored ls = (taken ++ hand).map Prod.fst ++ wait ∧ hand.length ≤ 1 ∧
      answered ls = ((taken ++ hand).filter fun p => !p.1.err).map Prod.snd ∧
      (handedUp ls = taken.filterMap fun p => p.1.deliver p.2) ∧
      (L.emac.pc = .block → hand = [] ∧ (L.irq = false → L.emac.notified = false → wait = [])) := by
  obtain ⟨taken, hand, rest, wait, head, hb, hplace⟩ := line_kept hr ⟨_, _, _, _, _, reset_kept ring⟩
  rw [List.nil_append] at hb
  refine ⟨taken, hand, wait, hb.stored, hplace.hand_le, hb.answered, hb.handed, fun hpc => ?_⟩
  simp only [Place, hpc] at hplace
  obtain ⟨⟨hhand, -, -⟩, hwait⟩ := hplace
  refine ⟨hhand, fun hirq hnot => hwait.resolve_right ?_⟩
  rw [hirq, hnot]
  simp

def goodFrame : RxFrame := ⟨List.replicate 64 7, false, some (3, 5)⟩

theorem goodFrame_forwarded : goodFrame.Forwarded := ⟨fun _ => by decide, by decide⟩

/-- A run in which the task takes the frame from the ring and waits again. -/
theorem frames_once_in_order_one :
    ∃ (ls : List LineAct) (L : RxLine 2), stored ls = [goodFrame] ∧ L.emac.pc = .block ∧
      handedUp ls = [(List.replicate 60 7, (3, 5))] ∧
      ∃ (taken hand : List (RxFrame × Bool)) (wait : List RxFrame),
        stored ls = (taken ++ hand).map Prod.fst ++ wait ∧ hand.length ≤ 1 ∧
          answered ls = ((taken ++ hand).filter fun p => !p.1.err).map Prod.snd ∧
          (handedUp ls = taken.filterMap fun p => p.1.deliver p.2) ∧
          (L.emac.pc = .block → hand = [] ∧ (L.irq = false → L.emac.notified = false → wait = [])) := by
  obtain ⟨L, hr, hirq⟩ := one_frame_in true (fun _ : Fin 2 => ⟨.cpu, true, true, true, 0, [], none⟩)
    goodFrame_forwarded (by decide)
  obtain ⟨_, _, _, _, _, hkept⟩ := line_kept hr ⟨_, _, _, _, _, reset_kept _⟩
  obtain ⟨k, -, ls', hseen, hquiet, hans, hpc, hnot, -⟩ := hkept.runs_out true (fun _ => true) _ le_rfl
  have hstored : stored ([.stored goodFrame] ++ ls') = [goodFrame] := by rw [stored_append, hquiet]; rfl
  obtain ⟨taken, hand, wait, hst, hlen, han, hhand, hblock⟩ := frames_once_in_order true _ (hr.append hseen)
  refine ⟨_, _, hstored, hpc, ?_, taken, hand, wait, hst, hlen, han, hhand, hblock⟩
  -- the task waits: all there was has been dealt with, and memory was given
  obtain ⟨rfl, hwait⟩ := hblock hpc
  obtain rfl := hwait hirq hnot
  rw [hstored, List.append_nil, List.append_nil] at hst
  obtain ⟨⟨f, b⟩, hone⟩ := List.length_eq_one_iff.mp ((List.length_map _).symm.trans (congrArg List.length hst.symm))
  subst hone
  obtain rfl : f = goodFrame := by simpa using hst.symm
  obtain rfl : b = true := by
    obtain ⟨-, hb⟩ := hans b (by
      have hall : answered ([.stored goodFrame] ++ ls') = [b] := by rw [han]; rfl
      rw [answered_append] at hall
      rw [show answered ls' = [b] from hall]
      exact List.mem_singleton_self b)
    exact hb
  rw [hhand]
  decide

/-- From any state a run can reach, once the interrupt has been served and while no more
comes in, the task comes to wait within a number of steps the ring's size bounds, whatever
`malloc` answers at each of them. Every frame stored has then been dealt with: the good
ones asked for memory in order, and those that had it and fit a packet were handed up. -/
theorem left_alone_drains (early : Bool) (ok : ℕ → Bool) (ring : Fin n → RxDesc) {ls : List LineAct} {L : RxLine n}
    (hr : Seen (LineStep early) (emac_esp_dma_reset ring) ls L) (hirq : L.irq = false) :
    ∃ k ≤ (3 * n + 8) * n + (8 * n + 19), ∃ (ls' : List LineAct) (taken : List (RxFrame × Bool)),
      Seen (LineStep early) L ls' { L with emac := runOn early ok k L.emac } ∧
      (runOn early ok k L.emac).pc = .block ∧ (runOn early ok k L.emac).notified = false ∧
      stored ls = taken.map Prod.fst ∧ stored ls' = [] ∧ (∀ b ∈ answered ls', ∃ j, b = ok j) ∧
      answered (ls ++ ls') = (taken.filter fun p => !p.1.err).map Prod.snd ∧
      (handedUp (ls ++ ls') = taken.filterMap fun p => p.1.deliver p.2) := by
  obtain ⟨taken, hand, rest, wait, head, hkept⟩ := line_kept hr ⟨_, _, _, _, _, reset_kept ring⟩
  rw [List.nil_append] at hkept
  obtain ⟨k, hk, ls', hseen, hquiet, hans, hpc, hnot, taken', hand', rest', wait', head', hb, hplace⟩ :=
    hkept.runs_out early ok _ hkept.1.fuel_le
  simp only [Place, hpc] at hplace
  obtain ⟨⟨rfl, -, -⟩, hwait⟩ := hplace
  obtain rfl := hwait.resolve_right (by rw [hirq, hnot]; simp)
  have hst := hb.stored
  have han := hb.answered
  rw [List.append_nil] at hst han
  rw [stored_append, hquiet, List.append_nil, List.append_nil] at hst
  exact ⟨k, hk, ls', taken', hseen, hpc, hnot, hst, hquiet, hans, han, hb.handed⟩

/-- Its memory refused, the frame is flushed. -/
theorem left_alone_drains_one :
    ∃ L : RxLine 2, L.irq = false ∧ ∃ k ≤ (3 * 2 + 8) * 2 + (8 * 2 + 19), ∃ (ls' : List LineAct) (taken : List (RxFrame × Bool)),
      Seen (LineStep true) L ls' { L with emac := runOn true (fun _ => false) k L.emac } ∧
      (runOn true (fun _ => false) k L.emac).pc = .block ∧ (runOn true (fun _ => false) k L.emac).notified = false ∧
      stored [.stored goodFrame] = taken.map Prod.fst ∧ stored ls' = [] ∧ (∀ b ∈ answered ls', ∃ _ : ℕ, b = false) ∧
      answered ([.stored goodFrame] ++ ls') = (taken.filter fun p => !p.1.err).map Prod.snd ∧
      (handedUp ([.stored goodFrame] ++ ls') = taken.filterMap fun p => p.1.deliver p.2) := by
  obtain ⟨L, hr, hirq⟩ := one_frame_in true (fun _ : Fin 2 => ⟨.cpu, true, true, true, 0, [], none⟩)
    goodFrame_forwarded (by decide)
  exact ⟨L, hirq, left_alone_drains true (fun _ => false) _ hr hirq⟩

end Inferno
