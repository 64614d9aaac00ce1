import Inferno.Lib.Runs
import Inferno.Proofs.PacketStore

/-! The cache write-back of `jb_write`: the runs it hands over are the rows of the frames
it stored, each once, however the buffers lie in memory. The loop keeps the closed runs
and the open one end to end; the guard keeps a packet within half a lap, so no row comes
back. -/

namespace Inferno

open Lib

def openRun : Option Seg → List (ℕ × ℕ)
  | some g => [(g.row, g.n)]
  | none => []

/-- What the loop has handed over and holds open, behind `log`, is the rows of the frames
so far. -/
structure Coalesced (log : List (ℕ × ℕ)) (rows : List ℕ) (closed : List (ℕ × ℕ)) (st : Option Seg × List (ℕ × ℕ)) :
    Prop where
  log : st.2 = log ++ closed
  pos : ∀ r ∈ closed ++ openRun st.1, 0 < r.2
  order : (closed ++ openRun st.1).flatMap (runRows AP_NCH) = rows

variable {log closed : List (ℕ × ℕ)} {rows : List ℕ} {st : Option Seg × List (ℕ × ℕ)}

theorem coalesced_nil (log : List (ℕ × ℕ)) : Coalesced log [] [] (none, log) :=
  ⟨(List.append_nil log).symm, fun _ hr => absurd hr List.not_mem_nil, rfl⟩

theorem Coalesced.syncOut (h : Coalesced log rows closed st) :
    syncOut st.1 st.2 = log ++ (closed ++ openRun st.1) := by
  obtain ⟨seg, l⟩ := st
  cases seg with
  | none =>
    rw [openRun, List.append_nil]
    exact h.log
  | some g =>
    have hpos : 0 < g.n := h.pos (g.row, g.n) (List.mem_append_right _ List.mem_cons_self)
    rw [Inferno.syncOut, if_pos hpos.ne', ← List.append_assoc]
    exact congrArg (· ++ [(g.row, g.n)]) h.log

theorem Coalesced.start (h : Coalesced log rows closed st) (row : ℕ) :
    Coalesced log (rows ++ [row]) (closed ++ openRun st.1) (some { row := row, n := 1 }, Inferno.syncOut st.1 st.2) := by
  refine ⟨h.syncOut, fun r hr => ?_, ?_⟩
  · rcases List.mem_append.mp hr with hold | hnew
    · exact h.pos r hold
    · rw [List.mem_singleton.mp hnew]
      exact Nat.one_pos
  · rw [List.flatMap_append, h.order]
    exact congrArg (rows ++ ·) (runRows_one AP_NCH row)

theorem segAdd_next {row : ℕ} {g : Seg} (h : row = g.row + g.n * AP_NCH) (l : List (ℕ × ℕ)) :
    Inferno.segAdd row (some g, l) = (some { g with n := g.n + 1 }, l) := if_pos h

theorem segAdd_elsewhere {row : ℕ} {g : Seg} (h : row ≠ g.row + g.n * AP_NCH) (l : List (ℕ × ℕ)) :
    Inferno.segAdd row (some g, l) = (some { row := row, n := 1 }, Inferno.syncOut (some g) l) := if_neg h

theorem Coalesced.segAdd (h : Coalesced log rows closed st) (row : ℕ) :
    ∃ closed', Coalesced log (rows ++ [row]) closed' (segAdd row st) := by
  obtain ⟨seg, l⟩ := st
  cases seg with
  | none =>
    have hstart := h.start row
    exact ⟨_, hstart⟩
  | some g =>
    by_cases hnext : row = g.row + g.n * AP_NCH
    · -- the row behind the open run: the run grows
      refine ⟨closed, ?_⟩
      rw [segAdd_next hnext]
      refine ⟨h.log, fun r hr => ?_, ?_⟩
      · rcases List.mem_append.mp hr with hold | hnew
        · exact h.pos r (List.mem_append_left _ hold)
        · rw [List.mem_singleton.mp hnew]
          exact Nat.succ_pos g.n
      · have hgrow : runRows AP_NCH (g.row, g.n + 1) = runRows AP_NCH (g.row, g.n) ++ [row] := by
          rw [runRows_succ, hnext]
        rw [← h.order]
        simp only [openRun, List.flatMap_append, List.flatMap_singleton, hgrow, List.append_assoc]
    · rw [segAdd_elsewhere hnext]
      exact ⟨_, h.start row⟩

/-- The rows of those of a packet's first `n` frames that are not late. -/
def rowsFrom (jb : JitterBuf) (sn : Snap) (p : Packet) (n : ℕ) : List ℕ :=
  ((List.range n).filter fun f => decide (sn.readA ≤ p.firstIdx + (f : ℕ))).map fun f =>
    jb.row (p.firstIdx + (f : ℕ) + sn.off)

theorem rowsFrom_succ (jb : JitterBuf) (sn : Snap) (p : Packet) (n : ℕ) :
    rowsFrom jb sn p (n + 1) =
      rowsFrom jb sn p n ++ if p.firstIdx + n < sn.readA then [] else [jb.row (p.firstIdx + n + sn.off)] := by
  rw [rowsFrom, List.range_succ, List.filter_append, List.map_append, ← rowsFrom]
  split_ifs with hlate
  · rw [List.filter_cons_of_neg (by simpa using hlate)]
    rfl
  · rw [List.filter_cons_of_pos (by simpa using hlate)]
    rfl

theorem storeFrames_coalesced (jb : JitterBuf) (sn : Snap) (p : Packet) (n : ℕ) :
    ∃ closed, Coalesced jb.synced (rowsFrom jb sn p n) closed
      (((List.range n).foldl (storeFrame sn p) (jb, none)).2, ((List.range n).foldl (storeFrame sn p) (jb, none)).1.synced) := by
  induction n with
  | zero => exact ⟨[], coalesced_nil jb.synced⟩
  | succ n ih =>
    obtain ⟨closed, ih⟩ := ih
    obtain ⟨log, hring⟩ := storeFrames_eq jb sn p n
    rw [List.range_succ, List.foldl_append, List.foldl_cons, List.foldl_nil, storeFrame, rowsFrom_succ]
    by_cases hlate : p.firstIdx + n < sn.readA
    · rw [if_pos hlate, if_pos hlate, List.append_nil]
      exact ⟨closed, ih⟩
    · rw [if_neg hlate, if_neg hlate]
      -- the buffers are where they were when the loop began
      have hrow : ((List.range n).foldl (storeFrame sn p) (jb, none)).1.row (p.firstIdx + n + sn.off) =
          jb.row (p.firstIdx + n + sn.off) := by
        rw [hring]
        rfl
      simp only [hrow]
      exact ih.segAdd _

theorem jbWriteStore_synced (jb : JitterBuf) (sn : Snap) (p : Packet) :
    ∃ rs, (jbWriteStore sn p jb).synced = jb.synced ++ rs ∧ (∀ r ∈ rs, 0 < r.2) ∧
      rs.flatMap (runRows AP_NCH) = rowsFrom jb sn p p.nframes := by
  obtain ⟨closed, h⟩ := storeFrames_coalesced jb sn p p.nframes
  exact ⟨_, h.syncOut, h.pos, h.order⟩

theorem mem_rowsFrom {jb : JitterBuf} {sn : Snap} {p : Packet} {row : ℕ} :
    row ∈ rowsFrom jb sn p p.nframes ↔ ∃ a, p.Lands sn.readA a ∧ jb.row (a + sn.off) = row := by
  simp only [rowsFrom, List.mem_map, List.mem_filter, List.mem_range, decide_eq_true_eq]
  constructor
  · rintro ⟨f, ⟨hf, hhead⟩, rfl⟩
    exact ⟨p.firstIdx + (f : ℕ), ⟨hhead, by omega, by omega⟩, rfl⟩
  · rintro ⟨a, hin, rfl⟩
    have hstop := hin.stop
    have hidx : p.firstIdx + ((a - p.firstIdx).toNat : ℕ) = a := by
      have := hin.first
      omega
    exact ⟨(a - p.firstIdx).toNat, ⟨by omega, by rw [hidx]; exact hin.head⟩, by rw [hidx]⟩

theorem rowsFrom_apart {jb : JitterBuf} (hg : Geometry jb) {sn : Snap} {p : Packet}
    (hnear : p.firstIdx + p.nframes ≤ sn.readA + AP_FUTURE_GUARD_FRAMES) :
    (rowsFrom jb sn p p.nframes).Pairwise fun a b => ∀ x, InRow AP_NCH a x → ¬ InRow AP_NCH b x := by
  rw [rowsFrom, List.pairwise_map]
  refine (List.pairwise_lt_range.filter _).imp_of_mem fun {f g} hf hg' hlt x hx hy => ?_
  simp only [List.mem_filter, List.mem_range, decide_eq_true_eq] at hf hg'
  have hlap := lapSlot_eq_iff.mp (hg.row_disjoint hx.1 hx.2 hy.1 hy.2)
  simp only [AP_FUTURE_GUARD_FRAMES, AP_RING_FRAMES] at hnear hlap
  push_cast at hnear hlap
  omega

theorem jbWriteStore_changed {jb : JitterBuf} (hg : Geometry jb) {hz : ℕ} {now : ℤ} {p : Packet} {sn : Snap}
    (ha : Admitted hz now p jb sn) {x : ℕ} (hx : (jbWriteStore sn p jb).mem x ≠ jb.mem x) :
    ∃ row ∈ rowsFrom jb sn p p.nframes, InRow AP_NCH row x := by
  have hstored : ∃ v, Stores jb sn.readA p x v := by
    by_contra hnone
    exact hx ((jbWriteStore_overlay hg ha).miss (not_exists.mp hnone))
  obtain ⟨v, a, c, s, hin, -, hcell, -⟩ := hstored
  rw [← ha.off] at hcell
  have hc := AP_OUT_SLOT_lt c
  refine ⟨jb.row (a + sn.off), mem_rowsFrom.mpr ⟨a, hin, rfl⟩, ?_, ?_⟩ <;> rw [hcell, JitterBuf.cell] <;> omega

/-- The rows of the frames that `jb_write` stores; a refused packet has none. -/
def writtenRows (hz : ℕ) (now : ℤ) (p : Packet) (jb : JitterBuf) : List ℕ :=
  if (jbWrite hz now p jb).2 = true then rowsFrom jb { off := jb.off, readA := readHead hz now jb } p p.nframes else []

theorem coversOnce_nil : CoversOnce AP_NCH [] [] :=
  coversOnce (by decide) (fun _ hr => absurd hr List.not_mem_nil) rfl List.Pairwise.nil

theorem writtenRows_admitted {hz : ℕ} {now : ℤ} {p : Packet} {jb : JitterBuf} {sn : Snap} (ha : Admitted hz now p jb sn)
    (h : (jbWrite hz now p jb).2 = true) : writtenRows hz now p jb = rowsFrom jb sn p p.nframes := by
  obtain ⟨off, readA⟩ := sn
  have hsn : ({ off := off, readA := readA } : Snap) = { off := jb.off, readA := readHead hz now jb } :=
    congrArg₂ Snap.mk ha.off ha.readA
  rw [writtenRows, if_pos h, hsn]

/-- The write-back covers what was written: the ranges handed over are runs of whole rows,
the rows of the stored frames, each in exactly one of them, and no word was changed
outside. -/
theorem jbWrite_writeBack (hz : ℕ) (now : ℤ) (p : Packet) (jb : JitterBuf) (hg : jb.ready = true → Geometry jb) :
    ∃ rs, (jbWrite hz now p jb).1.synced = jb.synced ++ rs ∧ CoversOnce AP_NCH (writtenRows hz now p jb) rs ∧
      ∀ x, (jbWrite hz now p jb).1.mem x ≠ jb.mem x → ∃ r ∈ rs, InRun AP_NCH r x := by
  rcases jbWrite_cases hz now p jb with ⟨st, he⟩ | ⟨sn, ha, hr, he⟩
  · refine ⟨[], ?_, ?_, fun x hx => absurd ?_ hx⟩
    · rw [he, List.append_nil]
    · rw [writtenRows, he, if_neg Bool.false_ne_true]
      exact coversOnce_nil
    · rw [he]
  · obtain ⟨rs, hsync, hpos, horder⟩ := jbWriteStore_synced jb sn p
    have hcover : CoversOnce AP_NCH (rowsFrom jb sn p p.nframes) rs :=
      coversOnce (by decide) hpos horder (rowsFrom_apart (hg hr) ha.near)
    rw [writtenRows_admitted ha (by rw [he]), he]
    refine ⟨rs, hsync, hcover, fun x hx => ?_⟩
    obtain ⟨row, hrow, hword⟩ := jbWriteStore_changed (hg hr) ha hx
    exact hcover.covers (by decide) hrow hword

/-- Forty frames over the end of the ring, the first four of them late: two runs, one to the
end of the last buffer and one from the start of the first. -/
theorem jbWrite_writeBack_fortyFrames :
    (jbWrite 96000 0 (fortyFrames 20) wrappingRing).1.synced = wrappingRing.synced ++ [(32640, 16), (0, 20)] ∧
      CoversOnce AP_NCH (writtenRows 96000 0 (fortyFrames 20) wrappingRing) [(32640, 16), (0, 20)] ∧
      ∀ x, (jbWrite 96000 0 (fortyFrames 20) wrappingRing).1.mem x ≠ wrappingRing.mem x →
        InRun AP_NCH (32640, 16) x ∨ InRun AP_NCH (0, 20) x := by
  obtain ⟨rs, hsync, hcover, hchanged⟩ := jbWrite_writeBack 96000 0 (fortyFrames 20) wrappingRing fun _ =>
    geometry_wrappingRing
  have hruns : (jbWrite 96000 0 (fortyFrames 20) wrappingRing).1.synced =
      wrappingRing.synced ++ [(32640, 16), (0, 20)] := by decide +kernel
  obtain rfl : rs = [(32640, 16), (0, 20)] := List.append_cancel_left (hsync.symm.trans hruns)
  refine ⟨hruns, hcover, fun x hx => ?_⟩
  obtain ⟨r, hr, hin⟩ := hchanged x hx
  simp only [List.mem_cons, List.not_mem_nil, or_false] at hr
  rcases hr with rfl | rfl
  · exact .inl hin
  · exact .inr hin

/-- Forty frames, the first four of them late, across the end of a buffer: one run where the
next buffer lies behind it, two where it lies before it. -/
example :
    (jbWrite 96000 0 { oneFrame 20 with nframes := 40 } { writableRing with synced := [] }).1.synced = [(128, 36)] ∧
      (jbWrite 96000 0 { oneFrame 20 with nframes := 40 }
        { writableRing with buf := fun k => (127 - k) * 256, synced := [] }).1.synced = [(32640, 16), (32256, 20)] := by
  decide +kernel

end Inferno
