import Inferno.Lib.Timeline
import Inferno.Spec.JitterBuf

/-! The learned ring as 4096 slots of eight cells, what clearing and storing do to
them, and which fields of the jitter buffer each operation leaves alone. -/

namespace Inferno

open Lib

def JitterBuf.cell (jb : JitterBuf) (s : ℤ) (c : Fin AP_NCH) : ℕ := jb.row s + AP_OUT_SLOT c

/-- A ring of `nbufs` disjoint buffers of `2 ^ fshift` frames that together hold
`AP_RING_FRAMES`. -/
structure Geometry (jb : JitterBuf) : Prop where
  pow : jb.frames = 2 ^ jb.fshift
  ring : jb.nbufs * jb.frames = AP_RING_FRAMES
  disjoint : ∀ j < jb.nbufs, ∀ k < jb.nbufs, j ≠ k → ∀ x, jb.inBuf (jb.buf j) x → ¬ jb.inBuf (jb.buf k) x

def lapSlot (s : ℤ) : ℕ := (s % AP_RING_FRAMES).toNat

theorem lapSlot_lt (s : ℤ) : lapSlot s < AP_RING_FRAMES := by
  simp only [lapSlot, AP_RING_FRAMES]
  omega

theorem Geometry.frames_pos {jb : JitterBuf} (hg : Geometry jb) : 0 < jb.frames := by
  rw [hg.pow]
  exact Nat.two_pow_pos _

theorem Geometry.bufIdx_lt {jb : JitterBuf} (hg : Geometry jb) (s : ℤ) : lapSlot s / jb.frames < jb.nbufs := by
  rw [Nat.div_lt_iff_lt_mul hg.frames_pos, hg.ring]
  exact lapSlot_lt s

/-- The shift and the masks of the source are a quotient and a remainder. -/
theorem Geometry.row_eq {jb : JitterBuf} (hg : Geometry jb) (s : ℤ) :
    jb.row s = jb.buf (lapSlot s / jb.frames) + lapSlot s % jb.frames * AP_NCH := by
  have hshift : lapSlot s >>> jb.fshift = lapSlot s / jb.frames := by
    rw [Nat.shiftRight_eq_div_pow, hg.pow]
  have hmask : lapSlot s &&& (jb.frames - 1) = lapSlot s % jb.frames := by
    rw [hg.pow, Nat.and_two_pow_sub_one_eq_mod]
  calc jb.row s = jb.buf (lapSlot s >>> jb.fshift % jb.nbufs) + (lapSlot s &&& (jb.frames - 1)) * AP_NCH := rfl
    _ = _ := by rw [hshift, hmask, Nat.mod_eq_of_lt (hg.bufIdx_lt s)]

theorem AP_OUT_SLOT_lt (c : Fin AP_NCH) : AP_OUT_SLOT c < AP_NCH := by
  simp only [AP_OUT_SLOT, AP_NCH]
  omega

theorem AP_OUT_SLOT_inj {c d : Fin AP_NCH} (h : AP_OUT_SLOT c = AP_OUT_SLOT d) : c = d := by
  have hc := c.isLt
  have hd := d.isLt
  simp only [AP_OUT_SLOT, AP_NCH] at h hc hd
  omega

theorem Geometry.row_inBuf {jb : JitterBuf} (hg : Geometry jb) (s : ℤ) {x : ℕ} (h1 : jb.row s ≤ x)
    (h2 : x < jb.row s + AP_NCH) : jb.inBuf (jb.buf (lapSlot s / jb.frames)) x := by
  rw [hg.row_eq] at h1 h2
  have hlt := Nat.mod_lt (lapSlot s) hg.frames_pos
  have hle : (lapSlot s % jb.frames + 1) * AP_NCH ≤ jb.frames * AP_NCH := Nat.mul_le_mul_right _ hlt
  rw [Nat.succ_mul] at hle
  simp only [JitterBuf.inBuf]
  constructor <;> omega

theorem Geometry.cell_inBuf {jb : JitterBuf} (hg : Geometry jb) (s : ℤ) (c : Fin AP_NCH) :
    jb.inBuf (jb.buf (lapSlot s / jb.frames)) (jb.cell s c) := by
  have hc := AP_OUT_SLOT_lt c
  refine hg.row_inBuf s ?_ ?_ <;> simp only [JitterBuf.cell] <;> omega

theorem Geometry.cell_inBuf_iff {jb : JitterBuf} (hg : Geometry jb) (s : ℤ) (c : Fin AP_NCH) {k : ℕ}
    (hk : k < jb.nbufs) : jb.inBuf (jb.buf k) (jb.cell s c) ↔ k = lapSlot s / jb.frames := by
  constructor
  · intro h
    by_contra hne
    exact hg.disjoint k hk _ (hg.bufIdx_lt s) hne _ h (hg.cell_inBuf s c)
  · rintro rfl
    exact hg.cell_inBuf s c

theorem Geometry.row_disjoint {jb : JitterBuf} (hg : Geometry jb) {s t : ℤ} {x : ℕ} (h1 : jb.row s ≤ x)
    (h2 : x < jb.row s + AP_NCH) (h3 : jb.row t ≤ x) (h4 : x < jb.row t + AP_NCH) :
    lapSlot s = lapSlot t := by
  have hb : lapSlot s / jb.frames = lapSlot t / jb.frames := by
    by_contra hne
    exact hg.disjoint _ (hg.bufIdx_lt s) _ (hg.bufIdx_lt t) hne x (hg.row_inBuf s h1 h2) (hg.row_inBuf t h3 h4)
  rw [hg.row_eq] at h1 h2 h3 h4
  rw [hb] at h1 h2
  have hm : lapSlot s % jb.frames = lapSlot t % jb.frames := by
    simp only [AP_NCH] at h1 h2 h3 h4
    omega
  rw [← Nat.div_add_mod (lapSlot s) jb.frames, ← Nat.div_add_mod (lapSlot t) jb.frames, hb, hm]

theorem lapSlot_eq_iff {s t : ℤ} : lapSlot s = lapSlot t ↔ s % AP_RING_FRAMES = t % AP_RING_FRAMES := by
  simp only [lapSlot, AP_RING_FRAMES]
  omega

/-- The learned buffers are a ring of `AP_RING_FRAMES` slots. -/
theorem Geometry.isRing {jb : JitterBuf} (hg : Geometry jb) : Ring jb.cell AP_RING_FRAMES where
  pos := by decide
  lap s c := by
    have hl : lapSlot (s + AP_RING_FRAMES) = lapSlot s := lapSlot_eq_iff.mpr (by simp)
    simp only [JitterBuf.cell, hg.row_eq, hl]
  inj {s t c d} h := by
    have hc := AP_OUT_SLOT_lt c
    have hd := AP_OUT_SLOT_lt d
    simp only [JitterBuf.cell] at h
    have hl : lapSlot s = lapSlot t :=
      hg.row_disjoint (x := jb.row s + AP_OUT_SLOT c) (by omega) (by omega) (by omega) (by omega)
    refine ⟨lapSlot_eq_iff.mp hl, AP_OUT_SLOT_inj ?_⟩
    have hrow : jb.row s = jb.row t := by rw [hg.row_eq, hg.row_eq, hl]
    omega

structure SameRing (jb jb' : JitterBuf) : Prop where
  buf : jb'.buf = jb.buf
  nbufs : jb'.nbufs = jb.nbufs
  frames : jb'.frames = jb.frames
  fshift : jb'.fshift = jb.fshift

theorem Geometry.of_same {jb jb' : JitterBuf} (hg : Geometry jb) (h : SameRing jb jb') : Geometry jb' where
  pow := by rw [h.frames, h.fshift, hg.pow]
  ring := by rw [h.nbufs, h.frames, hg.ring]
  disjoint := by
    simp only [JitterBuf.inBuf, h.buf, h.nbufs, h.frames]
    exact hg.disjoint

theorem SameRing.cell {jb jb' : JitterBuf} (h : SameRing jb jb') : jb'.cell = jb.cell := by
  funext s c
  simp only [JitterBuf.cell, JitterBuf.row, h.buf, h.nbufs, h.frames, h.fshift]

theorem clearRing_cell {jb : JitterBuf} (hg : Geometry jb) (hm : jb.mapped = jb.nbufs) (s : ℤ) (c : Fin AP_NCH) :
    (clearRing jb).mem (jb.cell s c) = 0 := by
  have hx : ∃ k < jb.mapped, jb.inBuf (jb.buf k) (jb.cell s c) :=
    ⟨_, hm ▸ hg.bufIdx_lt s, hg.cell_inBuf s c⟩
  simp only [clearRing, if_pos hx]

/-- The last of the first `n` wire slots mapped to channel `c`. -/
def lastSlot (m : ℕ → ℤ) (c : ℕ) : ℕ → Option ℕ
  | 0 => none
  | n + 1 => if m n = c then some n else lastSlot m c n

/-- The sample of a packet that plays at absolute index `a` on channel `c`: none where
it does not cover the index, or the index is already behind the read head. -/
def Packet.sampleAt (p : Packet) (gain : ℕ) (sn : Snap) (a : ℤ) (c : Fin AP_NCH) : Option ℤ :=
  if sn.readA ≤ a ∧ p.firstIdx ≤ a ∧ a < p.firstIdx + p.nframes then
    (lastSlot p.slotToCh c p.nslots).map fun s =>
      applyGain gain (word24 p.be24 ((a - p.firstIdx).toNat * (p.nslots * 3) + s * 3))
  else none

theorem storeSlots_out (p : Packet) (gain row src : ℕ) (mem : Words) (n : ℕ) {x : ℕ}
    (h : x < row ∨ row + AP_NCH ≤ x) : (List.range n).foldl (storeSlot p gain row src) mem x = mem x := by
  induction n with
  | zero => rfl
  | succ n ih =>
    rw [List.range_succ, List.foldl_append, List.foldl_cons, List.foldl_nil, storeSlot]
    split_ifs with hch
    · rw [Function.update_of_ne, ih]
      simp only [AP_OUT_SLOT, AP_NCH] at h ⊢
      omega
    · exact ih

theorem storeSlots_in (p : Packet) (gain row src : ℕ) (mem : Words) (n : ℕ) (c : Fin AP_NCH) :
    (List.range n).foldl (storeSlot p gain row src) mem (row + AP_OUT_SLOT c) =
      ((lastSlot p.slotToCh c n).map fun s => applyGain gain (word24 p.be24 (src + s * 3))).getD
        (mem (row + AP_OUT_SLOT c)) := by
  have hc := c.isLt
  induction n with
  | zero => rfl
  | succ n ih =>
    rw [List.range_succ, List.foldl_append, List.foldl_cons, List.foldl_nil, storeSlot, lastSlot]
    by_cases heq : p.slotToCh n = c
    · have hch : 0 ≤ p.slotToCh n ∧ p.slotToCh n < AP_NCH := by omega
      have hx : AP_OUT_SLOT c = AP_OUT_SLOT (p.slotToCh n).toNat := by rw [heq, Int.toNat_natCast]
      rw [if_pos hch, if_pos heq, hx, Function.update_self, Option.map_some, Option.getD_some]
    · rw [if_neg heq, ← ih]
      split_ifs with hch
      · rw [Function.update_of_ne]
        simp only [AP_OUT_SLOT, AP_NCH] at hc hch ⊢
        omega
      · rfl

/-- What a frame does to the memory, without the write-back. -/
def frameMem (jb : JitterBuf) (sn : Snap) (p : Packet) (mem : Words) (f : ℕ) : Words :=
  if p.firstIdx + f < sn.readA then mem
  else (List.range p.nslots).foldl
    (storeSlot p jb.gainQ16 (jb.row (p.firstIdx + f + sn.off)) (f * (p.nslots * 3))) mem

theorem storeFrames_eq (jb : JitterBuf) (sn : Snap) (p : Packet) (n : ℕ) :
    ∃ log, ((List.range n).foldl (storeFrame sn p) (jb, none)).1 =
      { jb with mem := (List.range n).foldl (frameMem jb sn p) jb.mem, synced := log } := by
  induction n with
  | zero => exact ⟨jb.synced, rfl⟩
  | succ n ih =>
    obtain ⟨log, ih⟩ := ih
    simp only [List.range_succ, List.foldl_append, List.foldl_cons, List.foldl_nil, storeFrame, frameMem]
    split_ifs with ha
    · exact ⟨log, ih⟩
    · rw [ih]
      exact ⟨_, rfl⟩

theorem jbWriteStore_eq (sn : Snap) (p : Packet) (jb : JitterBuf) :
    ∃ log, jbWriteStore sn p jb =
      { jb with mem := (List.range p.nframes).foldl (frameMem jb sn p) jb.mem, synced := log } := by
  obtain ⟨log, h⟩ := storeFrames_eq jb sn p p.nframes
  simp only [jbWriteStore, h]
  exact ⟨_, rfl⟩

/-- In a window that holds every stored slot, each cell holds the packet's sample for
its index where there is one, and what it held before elsewhere. -/
theorem frameMem_cell {jb : JitterBuf} (hg : Geometry jb) (sn : Snap) (p : Packet) {e : ℤ} (n : ℕ)
    (hlo : e ≤ sn.readA + sn.off) (hhi : p.firstIdx + n + sn.off ≤ e + AP_RING_FRAMES) (s : ℤ)
    (c : Fin AP_NCH) (h1 : e ≤ s) (h2 : s < e + AP_RING_FRAMES) :
    (List.range n).foldl (frameMem jb sn p) jb.mem (jb.cell s c) =
      (({ p with nframes := n } : Packet).sampleAt jb.gainQ16 sn (s - sn.off) c).getD (jb.mem (jb.cell s c)) := by
  induction n with
  | zero =>
    rw [Packet.sampleAt, if_neg (by simp only [Nat.cast_zero]; omega)]
    rfl
  | succ n ih =>
    have ih := ih (by push_cast at hhi; omega)
    rw [List.range_succ, List.foldl_append, List.foldl_cons, List.foldl_nil, frameMem]
    simp only [Packet.sampleAt] at ih ⊢
    by_cases hs : s = p.firstIdx + n + sn.off
    · -- the row of this frame: every earlier frame lies before it
      have hidx : s - sn.off = p.firstIdx + n := by omega
      rw [hidx] at ih ⊢
      rw [if_neg (by omega), Option.getD_none] at ih
      by_cases hlate : p.firstIdx + n < sn.readA
      · rw [if_pos hlate, if_neg (by omega), ih, Option.getD_none]
      · have hnat : (p.firstIdx + n - p.firstIdx).toNat = n := by omega
        rw [if_neg hlate, if_pos (by push_cast; omega), hnat, ← hs, JitterBuf.cell, storeSlots_in]
        exact congrArg _ ih
    · -- any other row of the window
      have hcov : (sn.readA ≤ s - sn.off ∧ p.firstIdx ≤ s - sn.off ∧ s - sn.off < p.firstIdx + (n + 1 : ℕ)) ↔
          (sn.readA ≤ s - sn.off ∧ p.firstIdx ≤ s - sn.off ∧ s - sn.off < p.firstIdx + n) := by
        push_cast
        omega
      simp only [hcov]
      rw [← ih]
      split_ifs with hlate
      · rfl
      · refine storeSlots_out _ _ _ _ _ _ ?_
        by_contra hin
        have hc := AP_OUT_SLOT_lt c
        simp only [JitterBuf.cell] at hin
        have hl := hg.row_disjoint (s := s) (t := p.firstIdx + n + sn.off) (x := jb.row s + AP_OUT_SLOT c)
          (by omega) (by omega) (by omega) (by omega)
        have hm := lapSlot_eq_iff.mp hl
        simp only [AP_RING_FRAMES] at hm hlo hhi h1 h2
        push_cast at hhi
        omega

theorem jbWriteStore_cell {jb : JitterBuf} (hg : Geometry jb) (sn : Snap) (p : Packet) {e : ℤ}
    (hlo : e ≤ sn.readA + sn.off) (hhi : p.firstIdx + p.nframes + sn.off ≤ e + AP_RING_FRAMES) (s : ℤ)
    (c : Fin AP_NCH) (h1 : e ≤ s) (h2 : s < e + AP_RING_FRAMES) :
    (jbWriteStore sn p jb).mem (jb.cell s c) =
      (p.sampleAt jb.gainQ16 sn (s - sn.off) c).getD (jb.mem (jb.cell s c)) := by
  obtain ⟨log, he⟩ := jbWriteStore_eq sn p jb
  rw [he]
  exact frameMem_cell hg sn p p.nframes hlo hhi s c h1 h2

def Written.sampleAt (w : Written) (a : ℤ) (c : Fin AP_NCH) : Option ℤ := w.p.sampleAt w.gain w.sn a c

/-- The timeline: the sample last written for an index, silence where none was. -/
def heard (hist : List Written) (a : ℤ) (c : Fin AP_NCH) : ℤ :=
  hist.foldl (fun v w => (w.sampleAt a c).getD v) 0

@[simp] theorem heard_nil (a : ℤ) (c : Fin AP_NCH) : heard [] a c = 0 := rfl

@[simp] theorem heard_concat (hist : List Written) (w : Written) (a : ℤ) (c : Fin AP_NCH) :
    heard (hist ++ [w]) a c = (w.sampleAt a c).getD (heard hist a c) := by
  simp [heard]

theorem elapsed_mem (hz : ℕ) (now : ℤ) (jb : JitterBuf) :
    0 ≤ elapsed hz now jb ∧ elapsed hz now jb ≤ 2 * jb.frames := by
  simp only [elapsed]
  split_ifs <;> omega

/-- The estimate a lap leaves room for behind the guard and the read-ahead. -/
def LAP_SLACK : ℤ := AP_RING_FRAMES - AP_FUTURE_GUARD_FRAMES - AP_DMA_AHEAD_FRAMES

theorem elapsed_le_slack {jb : JitterBuf} (h : jb.frames ≤ 512) (hz : ℕ) (now : ℤ) :
    elapsed hz now jb ≤ LAP_SLACK := by
  have hel := (elapsed_mem hz now jb).2
  simp only [LAP_SLACK, AP_RING_FRAMES, AP_FUTURE_GUARD_FRAMES, AP_DMA_AHEAD_FRAMES]
  push_cast
  omega

/-- What the guards of `jb_write` let through. -/
structure Admitted (hz : ℕ) (now : ℤ) (p : Packet) (jb : JitterBuf) (sn : Snap) : Prop where
  off : sn.off = jb.off
  readA : sn.readA = jb.dmaEnd + elapsed hz now jb + AP_DMA_AHEAD_FRAMES - jb.off
  ahead : sn.readA < p.firstIdx + p.nframes
  near : p.firstIdx + p.nframes ≤ sn.readA + AP_FUTURE_GUARD_FRAMES

/-- A refused packet changes counters only; an admitted one is ahead of the read head
and within the guard. -/
theorem jbWriteBegin_cases (hz : ℕ) (now : ℤ) (p : Packet) (jb : JitterBuf) :
    (∃ st, jbWriteBegin hz now p jb = ({ jb with st := st }, none)) ∨
      ∃ sn, jbWriteBegin hz now p jb = (jb, some sn) ∧ Admitted hz now p jb sn := by
  simp only [jbWriteBegin]
  split_ifs with h1 h2 h3 h4
  · exact Or.inl ⟨_, rfl⟩
  · exact Or.inl ⟨jb.st, rfl⟩
  · exact Or.inl ⟨_, rfl⟩
  · exact Or.inl ⟨_, rfl⟩
  · refine Or.inr ⟨_, rfl, rfl, rfl, ?_, ?_⟩ <;> simp only [dmaPosNow] at * <;> omega

theorem jbWriteBegin_ready {hz : ℕ} {now : ℤ} {p : Packet} {jb jb' : JitterBuf} {sn : Snap}
    (h : jbWriteBegin hz now p jb = (jb', some sn)) : jb' = jb ∧ jb.ready = true := by
  simp only [jbWriteBegin] at h
  split_ifs at h with h1 h2 h3 h4 <;> cases h
  simp only [Bool.or_eq_true, Bool.not_eq_true', not_or, Bool.not_eq_false] at h2
  exact ⟨rfl, h2.1⟩

end Inferno
