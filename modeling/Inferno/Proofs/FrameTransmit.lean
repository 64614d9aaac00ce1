import Inferno.Spec.EmacTx
import Mathlib.Tactic

/-! Every frame a caller is told was sent goes out whole, once, and in the order of the
calls, whichever of the two transmit paths it took and however long the DMA takes. -/

namespace Inferno

open Lib

/-- What the hardware sees of a descriptor. -/
structure TxSeg where
  first : Bool
  last : Bool
  bytes : List UInt8

def TxDesc.seg (d : TxDesc) : TxSeg := ⟨d.firstSegment, d.lastSegment, d.buffer.take d.transmitBuffer1Size⟩

@[simp] theorem seg_fill (d : TxDesc) (first last : Bool) (bytes : List UInt8) :
    (d.fill first last bytes).seg = ⟨first, last, bytes⟩ := by
  simp [TxDesc.seg, TxDesc.fill]

@[simp] theorem fill_own (d : TxDesc) (first last : Bool) (bytes : List UInt8) : (d.fill first last bytes).own = d.own := rfl

/-- The frames sent and what is fetched of the next, after one more segment. -/
def sendSeg (w : List (List UInt8) × List UInt8) (s : TxSeg) : List (List UInt8) × List UInt8 :=
  let fetched := (if s.first then [] else w.2) ++ s.bytes
  if s.last then (w.1 ++ [fetched], []) else (w.1, fetched)

theorem foldl_sendSeg_fst (q : List TxSeg) (w : List (List UInt8)) (fetched : List UInt8) :
    (q.foldl sendSeg (w, fetched)).1 = w ++ (q.foldl sendSeg ([], fetched)).1 := by
  induction q generalizing w fetched with
  | nil => exact (List.append_nil w).symm
  | cons s q ih =>
    rw [List.foldl_cons, List.foldl_cons, sendSeg, sendSeg]
    cases s.last with
    | true =>
      simp only [if_true, List.nil_append]
      rw [ih, ih [_], List.append_assoc]
    | false =>
      simp only [Bool.false_eq_true, if_false]
      exact ih w _

theorem foldl_sendSeg_open {q : List TxSeg} (h : ∀ s ∈ q, s.last = false) (w : List (List UInt8) × List UInt8) :
    (q.foldl sendSeg w).1 = w.1 := by
  induction q generalizing w with
  | nil => rfl
  | cons s q ih =>
    rw [List.foldl_cons, ih fun t ht => h t (List.mem_cons_of_mem _ ht), sendSeg, h s List.mem_cons_self]
    rfl

/-- The segments so far of a frame that begins with `b`. -/
structure Begins (ps : List TxSeg) (b : List UInt8) : Prop where
  isOpen : ∀ s ∈ ps, s.last = false
  fetched : ∀ w, ps.foldl sendSeg w = if ps = [] then w else (w.1, b)
  start : ps = [] → b = []

structure Makes (ps : List TxSeg) (f : List UInt8) : Prop where
  isOpen : ∀ s ∈ ps.dropLast, s.last = false
  sent : ∀ w, ps.foldl sendSeg w = (w.1 ++ [f], [])

theorem Begins.nil : Begins [] [] := ⟨fun _ h => absurd h List.not_mem_nil, fun _ => rfl, fun _ => rfl⟩

/-- One more segment is fetched behind what came before it, whatever that was of the first. -/
theorem Begins.next {ps : List TxSeg} {b : List UInt8} (h : Begins ps b) (bytes : List UInt8) (last : Bool)
    (w : List (List UInt8) × List UInt8) : (ps ++ [TxSeg.mk ps.isEmpty last bytes]).foldl sendSeg w =
      if last then (w.1 ++ [b ++ bytes], []) else (w.1, b ++ bytes) := by
  rw [List.foldl_append, h.fetched]
  by_cases hps : ps = []
  · obtain rfl := h.start hps
    subst hps
    rfl
  · rw [if_neg hps, List.isEmpty_eq_false_iff.2 hps]
    rfl

theorem Begins.append {ps : List TxSeg} {b : List UInt8} (h : Begins ps b) (bytes : List UInt8) :
    Begins (ps ++ [TxSeg.mk ps.isEmpty false bytes]) (b ++ bytes) := by
  refine ⟨fun s hs => ?_, fun w => ?_, fun hnil => absurd hnil (by simp)⟩
  · rcases List.mem_append.1 hs with hs | hs
    · exact h.isOpen s hs
    · rw [List.mem_singleton.1 hs]
  · rw [h.next, if_neg (by simp), if_neg (by simp)]

theorem Begins.close {ps : List TxSeg} {b : List UInt8} (h : Begins ps b) (bytes : List UInt8) :
    Makes (ps ++ [TxSeg.mk ps.isEmpty true bytes]) (b ++ bytes) := by
  refine ⟨fun s hs => ?_, fun w => ?_⟩
  · rw [List.dropLast_concat] at hs
    exact h.isOpen s hs
  · rw [h.next, if_pos rfl]

/-- The first loop counts the full descriptors and leaves the rest of the length. -/
theorem txBufs_spec (len k : ℕ) (hlen : 0 < len) :
    ∃ m, txBufs len k = (k + m + 1, len - CONFIG_ETH_DMA_BUFFER_SIZE * m) ∧ CONFIG_ETH_DMA_BUFFER_SIZE * m < len ∧
      len ≤ CONFIG_ETH_DMA_BUFFER_SIZE * (m + 1) := by
  simp only [CONFIG_ETH_DMA_BUFFER_SIZE]
  fun_induction txBufs len k with
  | case1 len k hgt ih =>
    simp only [CONFIG_ETH_DMA_BUFFER_SIZE] at hgt ih ⊢
    obtain ⟨m, hm, hlt, hle⟩ := ih (by omega)
    refine ⟨m + 1, ?_, by omega, by omega⟩
    rw [hm]
    exact Prod.ext (by simp only; omega) (by simp only; omega)
  | case2 len k hle =>
    simp only [CONFIG_ETH_DMA_BUFFER_SIZE] at hle
    exact ⟨0, by simp [hlen.ne'], by omega, by omega⟩

/-- The inner loop moves bytes from the buffers to the descriptor and loses none; it stops
before the last of them only at a full descriptor. -/
theorem packDesc_spec (avail : ℕ) (desc : List UInt8) (buffs : List (List UInt8)) :
    (packDesc avail desc buffs).1 ++ (packDesc avail desc buffs).2.flatten = desc ++ buffs.flatten ∧
      ((packDesc avail desc buffs).2 ≠ [] → (packDesc avail desc buffs).1.length = desc.length + avail) := by
  fun_induction packDesc avail desc buffs with
  | case1 => exact ⟨rfl, fun h => absurd rfl h⟩
  | case2 avail desc ptr buffs hlt ih =>
    obtain ⟨hflat, hfull⟩ := ih
    refine ⟨by rw [hflat, List.flatten_cons, List.append_assoc], fun hne => ?_⟩
    rw [hfull hne, List.length_append]
    omega
  | case3 avail desc ptr buffs hge =>
    refine ⟨?_, fun _ => by rw [List.length_append, List.length_take]; omega⟩
    split_ifs with hmore
    · rw [List.flatten_cons, List.append_assoc, ← List.append_assoc (ptr.take avail), List.take_append_drop, List.flatten_cons]
    · rw [List.take_of_length_le (by omega), List.flatten_cons, List.append_assoc]

/-- What a descriptor stands for: a segment handed over, or the driver's own. -/
def TxCell (d : TxDesc) : Option TxSeg → Prop
  | none => d.own = .cpu
  | some s => d.own = .dma ∧ d.seg = s

theorem TxCell.not_none (d : TxDesc) (s : TxSeg) (h : TxCell d (some s)) : ¬TxCell d none := fun hn => by
  have hown : d.own = .cpu := hn
  rw [h.1] at hown
  exact DescOwner.noConfusion hown

section

variable {n : ℕ} [NeZero n]

/-- The ring holds the segments `q` for the DMA, and behind them the driver has prepared `ps`. -/
structure TxRing (s : TxLine n) (head : ℕ) (q ps : List TxSeg) : Prop where
  ring : RingHolds TxCell s.ring head q
  dma : s.dmaDesc = slot n head
  tx : s.txDesc = slot n (head + q.length)
  fits : q.length + ps.length ≤ n
  own : ∀ j < ps.length, (s.ring (slot n (head + (q.length + j)))).own = .cpu
  prepared : ∀ j (hj : j < ps.length), (s.ring (slot n (head + (q.length + j)))).seg = ps[j]

/-- The segments in the next `k` descriptors from `i` on, up to the first that is not the DMA's. -/
def TxLine.segs (s : TxLine n) : ℕ → Fin n → List TxSeg
  | 0, _ => []
  | k + 1, i => if (s.ring i).own = .dma then (s.ring i).seg :: s.segs k (nextDesc i) else []

def TxLine.left (s : TxLine n) : List (List UInt8) := ((s.segs n s.dmaDesc).foldl sendSeg ([], s.fetched)).1

/-- The frame that is handed over and whose caller has yet to be told. -/
def TxPc.giving : TxPc n → List (List UInt8)
  | .idle => []
  | .fill .. => []
  | .fillExt .. => []
  | .give i count frame _ => if i = count then [frame] else []

namespace TxRing

variable {s : TxLine n} {head : ℕ} {q ps : List TxSeg}

theorem segs_eq (h : TxRing s head q ps) (k j : ℕ) (hk : k + j = n) (hj : j ≤ q.length) :
    s.segs k (slot n (head + j)) = q.drop j := by
  induction k generalizing j with
  | zero =>
    have hfits := h.ring.fits
    rw [List.drop_eq_nil_of_le (by omega)]
    rfl
  | succ k ih =>
    rw [TxLine.segs]
    rcases hj.lt_or_eq with hlt | rfl
    · obtain ⟨hown, hseg⟩ : TxCell (s.ring (slot n (head + j))) (some q[j]) := h.ring.get hlt
      rw [if_pos hown, hseg, nextDesc_slot, Nat.add_assoc, ih (j + 1) (by omega) hlt, List.drop_eq_getElem_cons hlt]
    · have hown : (s.ring (slot n (head + q.length))).own = .cpu := h.ring.back (by omega)
      rw [if_neg (by rw [hown]; exact DescOwner.noConfusion), List.drop_length]

theorem left_eq (h : TxRing s head q ps) : s.left = (q.foldl sendSeg ([], s.fetched)).1 := by
  have hsegs := h.segs_eq n 0 (Nat.add_zero n) (Nat.zero_le _)
  rw [TxLine.left, h.dma]
  rw [Nat.add_zero, List.drop_zero] at hsegs
  rw [hsegs]

theorem forget (h : TxRing s head q ps) : TxRing s head q [] :=
  ⟨h.ring, h.dma, h.tx, by have := h.fits; simp only [List.length_nil]; omega, fun _ hj => absurd hj (Nat.not_lt_zero _),
    fun _ hj => absurd hj (Nat.not_lt_zero _)⟩

theorem setPc (h : TxRing s head q ps) (pc : TxPc n) : TxRing { s with pc := pc } head q ps :=
  ⟨h.ring, h.dma, h.tx, h.fits, h.own, h.prepared⟩

theorem fill (h : TxRing s head q ps) (hps : ps.length < n)
    (hown : (s.ring (slot n (head + (q.length + ps.length)))).own = .cpu) (first last : Bool) (bytes : List UInt8) :
    TxRing { s with
      ring := Function.update s.ring (slot n (head + (q.length + ps.length)))
        ((s.ring (slot n (head + (q.length + ps.length)))).fill first last bytes) } head q (ps ++ [TxSeg.mk first last bytes]) := by
  have hroom := h.ring.room_at TxCell.not_none hps hown
  have hother : ∀ j < ps.length, slot n (head + (q.length + j)) ≠ slot n (head + (q.length + ps.length)) := fun j hj heq => by
    have := slot_inj (k := head) (by omega) hroom heq
    omega
  refine ⟨h.ring.set_free TxCell.not_none hown hown, h.dma, h.tx, by rw [List.length_append]; exact hroom,
    fun j hj => ?_, fun j hj => ?_⟩
  · rw [List.length_append, List.length_singleton] at hj
    rcases Nat.lt_succ_iff_lt_or_eq.1 hj with hlt | rfl
    · simpa only [Function.update_of_ne (hother j hlt)] using h.own j hlt
    · simp only [Function.update_self]
      exact hown
  · rw [List.length_append, List.length_singleton] at hj
    rcases Nat.lt_succ_iff_lt_or_eq.1 hj with hlt | rfl
    · simpa only [Function.update_of_ne (hother j hlt), List.getElem_append_left hlt] using h.prepared j hlt
    · simp

theorem give {p : TxSeg} (h : TxRing s head q (p :: ps)) (pc : TxPc n) :
    TxRing { s with
      ring := Function.update s.ring s.txDesc { s.ring s.txDesc with own := .dma }
      txDesc := nextDesc s.txDesc
      pc := pc } head (q ++ [p]) ps := by
  have hfits : q.length + (ps.length + 1) ≤ n := h.fits
  have hcell : TxCell { s.ring (slot n (head + q.length)) with own := .dma } (some p) := ⟨rfl, h.prepared 0 (Nat.succ_pos _)⟩
  have hindex : ∀ j, head + ((q ++ [p]).length + j) = head + (q.length + (j + 1)) := fun j => by
    rw [List.length_append, List.length_singleton]
    omega
  have hother : ∀ j < ps.length, slot n (head + (q.length + (j + 1))) ≠ slot n (head + q.length) := fun j hj heq => by
    have := slot_inj (k := head) (by omega) (by omega) heq
    omega
  refine ⟨?_, h.dma, ?_, by simp only [List.length_append, List.length_singleton]; omega, fun j hj => ?_, fun j hj => ?_⟩
  · rw [h.tx]
    exact h.ring.push (by omega) hcell
  · rw [h.tx, nextDesc_slot, List.length_append]
    rfl
  · rw [h.tx, hindex]
    simpa only [Function.update_of_ne (hother j hj)] using h.own (j + 1) (Nat.succ_lt_succ hj)
  · rw [h.tx, hindex]
    simpa only [Function.update_of_ne (hother j hj), List.getElem_cons_succ] using h.prepared (j + 1) (Nat.succ_lt_succ hj)

/-- The DMA at a descriptor of its own is at the first segment, and takes it off. -/
theorem fetch (h : TxRing s head q ps) (hown : (s.ring s.dmaDesc).own = .dma) :
    ∃ p rest, q = p :: rest ∧ (s.ring s.dmaDesc).seg = p ∧ TxRing (dmaFetch s).1 (head + 1) rest ps := by
  have hfront := h.ring.front
  rw [h.dma] at hown
  cases q with
  | nil => exact absurd (hown.symm.trans hfront) DescOwner.noConfusion
  | cons p rest =>
    obtain ⟨-, hseg⟩ : TxCell (s.ring (slot n head)) (some p) := hfront
    have hlen : (p :: rest).length + ps.length ≤ n := h.fits
    have hindex : ∀ j, head + 1 + (rest.length + j) = head + ((p :: rest).length + j) := fun j => by
      rw [List.length_cons]
      omega
    have hother : ∀ j < ps.length, slot n (head + ((p :: rest).length + j)) ≠ slot n head := fun j hj heq => by
      have hcpu := h.own j hj
      rw [heq, hown] at hcpu
      exact DescOwner.noConfusion hcpu
    refine ⟨p, rest, rfl, by rw [h.dma, hseg], ?_, ?_, ?_, ?_, fun j hj => ?_, fun j hj => ?_⟩
    · have hfree : TxCell { s.ring (slot n head) with own := .cpu } none := rfl
      simp only [dmaFetch, h.dma]
      exact h.ring.pop hfree
    · simp only [dmaFetch, h.dma]
      exact nextDesc_slot head
    · simp only [dmaFetch, h.tx, List.length_cons]
      congr 1
      omega
    · rw [List.length_cons] at hlen
      omega
    · rw [hindex]
      simpa only [dmaFetch, h.dma, Function.update_of_ne (hother j hj)] using h.own j hj
    · rw [hindex]
      simpa only [dmaFetch, h.dma, Function.update_of_ne (hother j hj)] using h.prepared j hj

end TxRing

/-- Where the call that holds the mutex is, with `ps` prepared, and `w` what the segments in
the ring will have made of the frames on the wire. -/
def TxPlace (pc : TxPc n) (head : ℕ) (q ps : List TxSeg) (acked : List (List UInt8))
    (w : List (List UInt8) × List UInt8) : Prop :=
  match pc with
  | .idle => ps = [] ∧ w.1 = acked
  | .fill iter i bufcount lastlen buf sentout =>
    (w.1 = acked ∧ i = ps.length ∧ iter = slot n (head + (q.length + i))) ∧
      (0 < bufcount ∧ bufcount ≤ n ∧ buf.length = CONFIG_ETH_DMA_BUFFER_SIZE * (bufcount - 1) + lastlen ∧
        0 < lastlen ∧ lastlen ≤ CONFIG_ETH_DMA_BUFFER_SIZE) ∧
      (i < bufcount ∧ Begins ps (buf.take (i * CONFIG_ETH_DMA_BUFFER_SIZE)) ∧ sentout = i * CONFIG_ETH_DMA_BUFFER_SIZE ∨
        i = bufcount ∧ Makes ps buf ∧ sentout = buf.length)
  | .fillExt iter dmaBufcount buffs args sentout =>
    (w.1 = acked ∧ dmaBufcount = ps.length ∧ iter = slot n (head + (q.length + dmaBufcount))) ∧
      (args.flatten ≠ [] ∧ args.flatten.length < CONFIG_ETH_DMA_BUFFER_SIZE * n) ∧
      ∃ b, Begins ps b ∧ b ++ buffs.flatten = args.flatten ∧ b.length = CONFIG_ETH_DMA_BUFFER_SIZE * dmaBufcount ∧
        sentout = b.length
  | .give i count frame sentout =>
    ∃ given fetched, Makes (given ++ ps) frame ∧ i = given.length ∧ count = given.length + ps.length ∧
      sentout = frame.length ∧ w = given.foldl sendSeg (acked, fetched)

/-- The ring and the call in progress, along a run. -/
def TxKept (past : List TxAct) (s : TxLine n) : Prop :=
  ∃ head q ps, TxRing s head q ps ∧
    TxPlace s.pc head q ps (acknowledged past) (q.foldl sendSeg (onWire past, s.fetched))

theorem txReset_kept (ring : Fin n → TxDesc) : TxKept [] (txReset ring) := by
  have hfree : ∀ i, TxCell ((txReset ring).ring i) none := fun _ => rfl
  exact ⟨0, [], [], ⟨RingHolds.empty hfree 0, rfl, rfl, Nat.zero_le n, fun _ hj => absurd hj (Nat.not_lt_zero _),
    fun _ hj => absurd hj (Nat.not_lt_zero _)⟩, rfl, rfl⟩

variable {past : List TxAct} {s s' : TxLine n} {l : Option TxAct} {head : ℕ} {q ps : List TxSeg}

theorem TxKept.quiet (hring : TxRing s' head q ps) (hf : s'.fetched = s.fetched)
    (hl : l = none ∨ ∃ frame, l = some (.ret frame false))
    (hp : TxPlace s'.pc head q ps (acknowledged past) (q.foldl sendSeg (onWire past, s.fetched))) :
    TxKept (past ++ l.toList) s' := by
  have hsame : acknowledged (past ++ l.toList) = acknowledged past ∧ onWire (past ++ l.toList) = onWire past := by
    rw [acknowledged_append, onWire_append]
    rcases hl with rfl | ⟨frame, rfl⟩ <;> exact ⟨List.append_nil _, List.append_nil _⟩
  refine ⟨head, q, ps, hring, ?_⟩
  rwa [hsame.1, hsame.2, hf]

theorem call_kept {c : TxCall} (hc : c.Legal n) (hidle : s.pc = .idle) (h : TxKept past s) :
    TxKept (past ++ (txCall c s).2.toList) (txCall c s).1 := by
  obtain ⟨head, q, ps, hring, hplace⟩ := h
  simp only [TxPlace, hidle] at hplace
  obtain ⟨rfl, hw⟩ := hplace
  cases c with
  | transmit buf =>
    have hlen : 0 < buf.length := List.length_pos_of_ne_nil hc.1
    obtain ⟨m, hm, hlt, hle⟩ := txBufs_spec buf.length 0 hlen
    simp only [txCall, hm]
    by_cases hbig : 0 + m + 1 > n
    · rw [if_pos hbig]
      refine TxKept.quiet hring rfl (Or.inr ⟨_, rfl⟩) ?_
      rw [hidle]
      exact ⟨rfl, hw⟩
    · rw [if_neg hbig]
      refine TxKept.quiet (hring.setPc _) rfl (Or.inl rfl) ⟨⟨hw, rfl, hring.tx⟩, ?_, Or.inl ⟨by omega, ?_, ?_⟩⟩
      · simp only [CONFIG_ETH_DMA_BUFFER_SIZE] at hlt hle ⊢
        omega
      · simpa using Begins.nil
      · rw [Nat.zero_mul]
  | ctrlVargs buffs =>
    exact TxKept.quiet (hring.setPc _) rfl (Or.inl rfl)
      ⟨⟨hw, rfl, hring.tx⟩, ⟨hc.1, hc.2 buffs rfl⟩, [], .nil, rfl, rfl, rfl⟩

/-- The descriptor of a fill loop that the DMA still owns ends the call with nothing handed over. -/
theorem refuse_kept (hring : TxRing s head q ps) (hw : (q.foldl sendSeg (onWire past, s.fetched)).1 = acknowledged past)
    {frame : List UInt8} (hne : frame ≠ []) :
    TxKept (past ++ (some (TxAct.ret frame (0 == frame.length))).toList) { s with pc := .idle } := by
  have hlen : (0 == frame.length) = false := beq_eq_false_iff_ne.2 (List.length_pos_of_ne_nil hne).ne
  rw [hlen]
  exact TxKept.quiet (hring.forget.setPc _) rfl (Or.inr ⟨_, rfl⟩) ⟨rfl, hw⟩

theorem fill_kept {iter : Fin n} {i bufcount lastlen : ℕ} {buf : List UInt8} {sentout : ℕ}
    (hpc : s.pc = .fill iter i bufcount lastlen buf sentout) (h : TxKept past s) (hs : txStep s = some (s', l)) :
    TxKept (past ++ l.toList) s' := by
  obtain ⟨head, q, ps, hring, hplace⟩ := h
  simp only [TxPlace, hpc] at hplace
  obtain ⟨⟨hw, rfl, rfl⟩, ⟨hpos, hn, hlen, hlast, hfull⟩, hat⟩ := hplace
  have hne : buf ≠ [] := fun hnil => by
    rw [hnil, List.length_nil] at hlen
    omega
  simp only [txStep, hpc] at hs
  by_cases hi : ps.length < bufcount
  · obtain ⟨-, hbegin, hsent⟩ := hat.resolve_right (fun hdone => by omega)
    rw [if_pos hi] at hs
    by_cases hown : (s.ring (slot n (head + (q.length + ps.length)))).own = .cpu
    · rw [if_neg (not_not.2 hown)] at hs
      obtain ⟨rfl, rfl⟩ := Prod.mk.inj (Option.some_injective _ hs)
      have hzero : (ps.length == 0) = ps.isEmpty := by cases ps <;> rfl
      rw [hzero]
      refine TxKept.quiet ((hring.fill (hi.trans_le hn) hown _ _ _).setPc _) rfl (Or.inl rfl)
        ⟨⟨hw, by rw [List.length_append]; rfl, by rw [nextDesc_slot]; rfl⟩, ⟨hpos, hn, hlen, hlast, hfull⟩, ?_⟩
      by_cases hend : ps.length + 1 = bufcount
      · -- the last segment takes what is left
        refine Or.inr ⟨hend, ?_, ?_⟩
        · have hmake := hbegin.close (buf.drop (ps.length * CONFIG_ETH_DMA_BUFFER_SIZE))
          rw [List.take_append_drop] at hmake
          have hrest : (buf.drop (ps.length * CONFIG_ETH_DMA_BUFFER_SIZE)).take lastlen =
              buf.drop (ps.length * CONFIG_ETH_DMA_BUFFER_SIZE) := by
            refine List.take_of_length_le ?_
            rw [List.length_drop, hlen, ← hend, Nat.add_sub_cancel, Nat.mul_comm]
            omega
          rw [beq_iff_eq.2 hend, if_pos rfl, hrest]
          exact hmake
        · rw [beq_iff_eq.2 hend, if_pos rfl, hsent, hlen, ← hend, Nat.add_sub_cancel, Nat.mul_comm]
      · have hbeq : (ps.length + 1 == bufcount) = false := beq_eq_false_iff_ne.2 hend
        refine Or.inl ⟨by omega, ?_, ?_⟩
        · have hmore := hbegin.append ((buf.drop (ps.length * CONFIG_ETH_DMA_BUFFER_SIZE)).take CONFIG_ETH_DMA_BUFFER_SIZE)
          rw [← List.take_add, ← Nat.succ_mul] at hmore
          rw [hbeq, if_neg Bool.false_ne_true]
          exact hmore
        · rw [hbeq, if_neg Bool.false_ne_true, hsent, Nat.succ_mul]
    · rw [if_pos hown] at hs
      obtain ⟨rfl, rfl⟩ := Prod.mk.inj (Option.some_injective _ hs)
      exact refuse_kept hring hw hne
  · obtain ⟨hdone, hmake, hsent⟩ := hat.resolve_left (fun hmore => hi hmore.1)
    rw [if_neg hi] at hs
    obtain ⟨rfl, rfl⟩ := Prod.mk.inj (Option.some_injective _ hs)
    exact TxKept.quiet (hring.setPc _) rfl (Or.inl rfl)
      ⟨[], _, hmake, rfl, by rw [← hdone, List.length_nil, Nat.zero_add], hsent, Prod.ext hw rfl⟩

theorem fillExt_kept {iter : Fin n} {dmaBufcount : ℕ} {buffs args : List (List UInt8)} {sentout : ℕ}
    (hpc : s.pc = .fillExt iter dmaBufcount buffs args sentout) (h : TxKept past s) (hs : txStep s = some (s', l)) :
    TxKept (past ++ l.toList) s' := by
  obtain ⟨head, q, ps, hring, hplace⟩ := h
  simp only [TxPlace, hpc] at hplace
  obtain ⟨⟨hw, rfl, rfl⟩, ⟨hne, hmax⟩, b, hbegin, hflat, hblen, rfl⟩ := hplace
  -- full descriptors so far: the frame would have to be larger than the ring to use them all
  have hlt : ps.length < n := by
    have htotal := congrArg List.length hflat
    rw [List.length_append] at htotal
    have hmul : CONFIG_ETH_DMA_BUFFER_SIZE * ps.length < CONFIG_ETH_DMA_BUFFER_SIZE * n := by omega
    exact Nat.lt_of_mul_lt_mul_left hmul
  obtain ⟨hpack, hpackfull⟩ := packDesc_spec CONFIG_ETH_DMA_BUFFER_SIZE [] buffs
  simp only [txStep, hpc] at hs
  rw [if_pos hlt] at hs
  by_cases hown : (s.ring (slot n (head + (q.length + ps.length)))).own = .cpu
  · rw [if_neg (not_not.2 hown)] at hs
    have hzero : (ps.length == 0) = ps.isEmpty := by cases ps <;> rfl
    rw [hzero] at hs
    cases hrest : (packDesc CONFIG_ETH_DMA_BUFFER_SIZE [] buffs).2 with
    | nil =>
      rw [hrest, List.flatten_nil, List.append_nil, List.nil_append] at hpack
      rw [hrest, List.isEmpty_nil, if_pos rfl] at hs
      obtain ⟨rfl, rfl⟩ := Prod.mk.inj (Option.some_injective _ hs)
      have hmake := hbegin.close (packDesc CONFIG_ETH_DMA_BUFFER_SIZE [] buffs).1
      rw [hpack, hflat] at hmake
      refine TxKept.quiet ((hring.fill hlt hown _ _ _).setPc _) rfl (Or.inl rfl)
        ⟨[], _, ?_, rfl, ?_, ?_, Prod.ext hw rfl⟩
      · rw [hpack]
        exact hmake
      · rw [List.length_append, List.length_nil, Nat.zero_add]
        rfl
      · rw [hpack, ← hflat, List.length_append]
    | cons ptr more =>
      have hbytes := hpackfull (by rw [hrest]; exact List.cons_ne_nil _ _)
      rw [hrest, if_neg (by simp)] at hs
      rw [hrest] at hpack
      obtain ⟨rfl, rfl⟩ := Prod.mk.inj (Option.some_injective _ hs)
      refine TxKept.quiet ((hring.fill hlt hown _ _ _).setPc _) rfl (Or.inl rfl)
        ⟨⟨hw, by rw [List.length_append]; rfl, by rw [nextDesc_slot]; rfl⟩, ⟨hne, hmax⟩, _, hbegin.append _, ?_, ?_, ?_⟩
      · rw [List.append_assoc, hpack, List.nil_append, hflat]
      · rw [List.length_append, hblen, hbytes, List.length_nil, Nat.zero_add, Nat.mul_succ]
      · rw [List.length_append]
  · rw [if_pos hown] at hs
    obtain ⟨rfl, rfl⟩ := Prod.mk.inj (Option.some_injective _ hs)
    exact refuse_kept hring hw hne

theorem give_kept {i count : ℕ} {frame : List UInt8} {sentout : ℕ} (hpc : s.pc = .give i count frame sentout)
    (h : TxKept past s) (hs : txStep s = some (s', l)) : TxKept (past ++ l.toList) s' := by
  obtain ⟨head, q, ps, hring, hplace⟩ := h
  simp only [TxPlace, hpc] at hplace
  obtain ⟨given, fetched, hmake, rfl, rfl, rfl, hw⟩ := hplace
  simp only [txStep, hpc] at hs
  cases ps with
  | nil =>
    rw [if_neg (by simp)] at hs
    obtain ⟨rfl, rfl⟩ := Prod.mk.inj (Option.some_injective _ hs)
    rw [List.append_nil] at hmake
    refine ⟨head, q, [], hring.setPc _, rfl, ?_⟩
    have hack : acknowledged (past ++ (some (TxAct.ret frame (frame.length == frame.length))).toList) =
        acknowledged past ++ [frame] := by
      rw [acknowledged_append, beq_self_eq_true]
      rfl
    have hwire : onWire (past ++ (some (TxAct.ret frame (frame.length == frame.length))).toList) = onWire past := by
      rw [onWire_append]
      exact List.append_nil _
    rw [hack, hwire]
    change (q.foldl sendSeg (onWire past, s.fetched)).1 = _
    rw [hw, hmake.sent]
  | cons p ps =>
    rw [if_pos (by simp)] at hs
    obtain ⟨rfl, rfl⟩ := Prod.mk.inj (Option.some_injective _ hs)
    refine TxKept.quiet (hring.give _) rfl (Or.inl rfl) ⟨given ++ [p], fetched, ?_, ?_, ?_, rfl, ?_⟩
    · rwa [List.append_assoc]
    · rw [List.length_append]
      rfl
    · rw [List.length_append, List.length_cons, List.length_singleton]
      omega
    · rw [List.foldl_append, List.foldl_append, hw]

theorem dma_kept (h : TxKept past s) (hown : (s.ring s.dmaDesc).own = .dma) :
    TxKept (past ++ (dmaFetch s).2.toList) (dmaFetch s).1 := by
  obtain ⟨head, q, ps, hring, hplace⟩ := h
  obtain ⟨p, rest, rfl, hseg, hring'⟩ := hring.fetch hown
  -- the segment fetched is the one the segments of the ring started with
  have hsend : (onWire (past ++ (dmaFetch s).2.toList), (dmaFetch s).1.fetched) =
      sendSeg (onWire past, s.fetched) p := by
    subst hseg
    rw [onWire_append]
    cases hlast : (s.ring s.dmaDesc).lastSegment <;> simp [sendSeg, TxDesc.seg, dmaFetch, onWire, hlast]
  have hack : acknowledged (past ++ (dmaFetch s).2.toList) = acknowledged past := by
    rw [acknowledged_append]
    cases hlast : (s.ring s.dmaDesc).lastSegment <;> simp [dmaFetch, acknowledged, hlast]
  have hindex : ∀ j, head + 1 + (rest.length + j) = head + ((p :: rest).length + j) := fun j => by
    rw [List.length_cons]
    omega
  refine ⟨head + 1, rest, ps, hring', ?_⟩
  rw [hsend, hack]
  have hpc : (dmaFetch s).1.pc = s.pc := rfl
  rw [hpc]
  cases hp : s.pc <;> rw [hp] at hplace
  case fill =>
    simp only [TxPlace, hindex]
    exact hplace
  case fillExt =>
    simp only [TxPlace, hindex]
    exact hplace
  all_goals exact hplace

theorem txStep_kept (hs : TxStep s l s') (h : TxKept past s) : TxKept (past ++ l.toList) s' := by
  cases hs with
  | call c hc hidle => exact call_kept hc hidle h
  | turnedAway c =>
    obtain ⟨head, q, ps, hring, hplace⟩ := h
    exact TxKept.quiet hring rfl (Or.inr ⟨_, rfl⟩) hplace
  | run hs =>
    cases hpc : s.pc with
    | idle => simp [txStep, hpc] at hs
    | fill => exact fill_kept hpc h hs
    | fillExt => exact fillExt_kept hpc h hs
    | give => exact give_kept hpc h hs
  | dma hown => exact dma_kept h hown

theorem txRun_kept {ls : List TxAct} (hr : Seen TxStep s ls s') (h : TxKept past s) : TxKept (past ++ ls) s' := by
  induction hr generalizing past with
  | nil => rwa [List.append_nil]
  | cons hs _ ih =>
    rw [← List.append_assoc]
    exact ih (txStep_kept hs h)

/-- What the segments in the ring will have sent, beyond the frames acknowledged: at most
the frame that is being handed over, and that only with its last segment. -/
theorem TxPlace.sent {pc : TxPc n} {acked : List (List UInt8)} {w : List (List UInt8) × List UInt8}
    (h : TxPlace pc head q ps acked w) : w.1 = acked ++ pc.giving := by
  cases pc with
  | idle => rw [h.2, TxPc.giving, List.append_nil]
  | fill => rw [h.1.1, TxPc.giving, List.append_nil]
  | fillExt => rw [h.1.1, TxPc.giving, List.append_nil]
  | give i count frame sentout =>
    obtain ⟨given, fetched, hmake, rfl, rfl, -, rfl⟩ := h
    rw [TxPc.giving]
    cases ps with
    | nil =>
      rw [List.append_nil] at hmake
      rw [List.length_nil, Nat.add_zero, if_pos rfl, hmake.sent]
    | cons p ps =>
      rw [if_neg (by rw [List.length_cons]; omega), List.append_nil, foldl_sendSeg_open fun s hs => hmake.isOpen s ?_]
      rw [List.dropLast_append_of_ne_nil (List.cons_ne_nil _ _)]
      exact List.mem_append_left _ hs

/-- In every run from the reset the frames on the wire, and behind them those the ring has
still to send, are the frames whose callers were told they were sent, in the order they
were told, and at most the one that is being handed over. A ring the DMA has emptied has
none to send. -/
theorem frames_sent_once_in_order (ring : Fin n → TxDesc) {ls : List TxAct} {s : TxLine n}
    (hr : Seen TxStep (txReset ring) ls s) :
    onWire ls ++ s.left = acknowledged ls ++ s.pc.giving ∧ s.pc.giving.length ≤ 1 ∧
      (s.pc = .idle → s.pc.giving = []) ∧ ((∀ i, (s.ring i).own = .cpu) → s.left = []) := by
  obtain ⟨head, q, ps, hring, hplace⟩ := txRun_kept hr (txReset_kept ring)
  rw [List.nil_append] at hplace
  refine ⟨?_, ?_, fun hidle => by rw [hidle, TxPc.giving], fun hcpu => ?_⟩
  · rw [← hplace.sent, hring.left_eq]
    exact (foldl_sendSeg_fst q (onWire ls) s.fetched).symm
  · cases s.pc with
    | give i count frame sentout =>
      rw [TxPc.giving]
      split_ifs <;> simp
    | _ => exact Nat.zero_le 1
  · rw [hring.left_eq]
    cases q with
    | nil => rfl
    | cons p q => exact absurd (hcpu _) (TxCell.not_none _ _ hring.ring.front)

end

/-- The first of two frames on the wire, the second in the ring and its caller not yet told. -/
theorem frames_sent_once_in_order_two : ∃ (ls : List TxAct) (s : TxLine 2), onWire ls = [List.replicate 60 7] ∧
    s.left = [List.replicate 60 9] ∧ s.pc.giving = [List.replicate 60 9] ∧
      onWire ls ++ s.left = acknowledged ls ++ s.pc.giving ∧ s.pc.giving.length ≤ 1 ∧
      (s.pc = .idle → s.pc.giving = []) ∧ ((∀ i, (s.ring i).own = .cpu) → s.left = []) := by
  have h1 : Seen TxStep (txReset fun _ : Fin 2 => ⟨.cpu, true, true, 0, []⟩) _ _ :=
    Seen.single (TxStep.call (.ctrlVargs [List.replicate 60 7]) ⟨by decide, fun _ _ => by decide⟩ rfl)
  have h2 := h1.append (Seen.single (TxStep.run (l := none) rfl))
  have h3 := h2.append (Seen.single (TxStep.run (l := none) rfl))
  have h4 := h3.append (Seen.single (TxStep.dma rfl))
  have h5 := h4.append (Seen.single (TxStep.run rfl))
  have h6 := h5.append (Seen.single
    (TxStep.call (.ctrlVargs [List.replicate 60 9]) ⟨by decide, fun _ _ => by decide⟩ rfl))
  have h7 := h6.append (Seen.single (TxStep.run (l := none) rfl))
  have h8 := h7.append (Seen.single (TxStep.run (l := none) rfl))
  exact ⟨_, _, rfl, rfl, rfl, frames_sent_once_in_order _ h8⟩

end Inferno
