import Inferno.Lib.Trace
import Inferno.Sanity.JitterIsr

/-! The DMA ring refines an unbounded timeline: between two anchorings, what the DMA
plays in slot `s` is what was last written for sample index `s - off`, or silence. The
DMA reads on while its interrupts wait, so the estimate that a write goes by has to keep
up with it. The lap is long enough for the future guard, the read-ahead and an estimate of
at most `LAP_SLACK` frames; buffers of up to 512 frames never estimate more. -/

namespace Inferno

open Lib

/-- The packet an event writes, when the guards let it through. -/
def accepts? (hz : ℕ) (d : Dac) : DacEvent → Option Written
  | .write now p => (jbWriteBegin hz now p d.jb).2.map fun sn => ⟨p, d.jb.gainQ16, sn⟩
  | _ => none

def Player.accepts? (hz : ℕ) (P : Player) : PlayerEvent → Option Written
  | .dac e => Inferno.accepts? hz P.dac e
  | .fetch _ => none

def writes (hz : ℕ) (P : Player) (l : List PlayerEvent) : List Written :=
  (trace (Player.step hz) (Player.accepts? hz) P l).filterMap id

theorem writes_concat (hz : ℕ) (P : Player) (l : List PlayerEvent) (e : PlayerEvent) :
    writes hz P (l ++ [e]) = writes hz P l ++ ((l.foldl (Player.step hz) P).accepts? hz e).toList := by
  rw [writes, trace_concat, List.filterMap_append]
  cases h : (l.foldl (Player.step hz) P).accepts? hz e <;> simp [writes]

theorem lapSlot_natCast (n : ℕ) : lapSlot n = n % AP_RING_FRAMES := by
  simp only [lapSlot, AP_RING_FRAMES]
  omega

theorem Geometry.lapSlot_div {jb : JitterBuf} (hg : Geometry jb) (n : ℕ) :
    lapSlot n / jb.frames = n / jb.frames % jb.nbufs := by
  rw [lapSlot_natCast, ← hg.ring, Nat.mod_mul_left_div_self]

theorem Learned.source_eq {d : Dac} (hl : Learned d) (n : ℕ) (c : Fin AP_NCH) : d.source n c = d.jb.cell n c := by
  have hg := hl.geometry
  have hk : n / d.jb.frames % d.jb.nbufs < d.jb.nbufs := Nat.mod_lt _ hg.nbufs_pos
  have hmod : lapSlot n % d.jb.frames = n % d.jb.frames := by
    rw [lapSlot_natCast, ← hg.ring, Nat.mod_mul_left_mod]
  rw [JitterBuf.cell, hg.row_eq, hg.lapSlot_div, hmod, hl.table _ hk]
  rfl

/-- Among the slots of a lap from the DMA's position, clearing `adv` buffers reaches
the cells of exactly the first `adv` buffers' slots. -/
theorem Learned.autoClear_cell {d : Dac} (hl : Learned d) {adv n : ℕ} (hadv : adv ≤ d.jb.nbufs)
    (h1 : d.jb.frames * d.fin ≤ n) (h2 : n < d.jb.frames * d.fin + AP_RING_FRAMES) (c : Fin AP_NCH) :
    d.autoClear adv (d.jb.cell n c) =
      if n < d.jb.frames * (d.fin + adv) then 0 else d.jb.mem (d.jb.cell n c) := by
  have hg := hl.geometry
  have hf := hg.frames_pos
  have hN := hg.nbufs_pos
  obtain ⟨i, hi⟩ : ∃ i, n / d.jb.frames = d.fin + i := by
    refine ⟨n / d.jb.frames - d.fin, ?_⟩
    have hle : d.fin ≤ n / d.jb.frames := (Nat.le_div_iff_mul_le hf).mpr (by rw [Nat.mul_comm]; exact h1)
    omega
  have hiN : i < d.jb.nbufs := by
    have hlt : n / d.jb.frames < d.fin + d.jb.nbufs := by
      rw [Nat.div_lt_iff_lt_mul hf, Nat.add_mul, hg.ring, Nat.mul_comm d.fin]
      exact h2
    omega
  have hiff : (∃ j < adv, d.jb.inBuf (d.desc ((d.fin + j) % d.jb.nbufs)) (d.jb.cell n c)) ↔
      n < d.jb.frames * (d.fin + adv) := by
    have hlt : n < d.jb.frames * (d.fin + adv) ↔ i < adv := by
      rw [Nat.mul_comm, ← Nat.div_lt_iff_lt_mul hf, hi]
      omega
    rw [hlt]
    constructor
    · rintro ⟨j, hj, hin⟩
      have hk : (d.fin + j) % d.jb.nbufs < d.jb.nbufs := Nat.mod_lt _ hN
      rw [← hl.table _ hk, hg.cell_inBuf_iff n c hk, hg.lapSlot_div, hi] at hin
      have hmod : j % d.jb.nbufs = i % d.jb.nbufs := Nat.ModEq.add_left_cancel' d.fin hin
      rw [Nat.mod_eq_of_lt (by omega), Nat.mod_eq_of_lt hiN] at hmod
      omega
    · intro hia
      have hk : (d.fin + i) % d.jb.nbufs < d.jb.nbufs := Nat.mod_lt _ hN
      refine ⟨i, hia, ?_⟩
      rw [← hl.table _ hk, hg.cell_inBuf_iff n c hk, hg.lapSlot_div, hi]
  simp only [Dac.autoClear, hiff]

/-- A write's estimate keeps up with the DMA and leaves the guard inside the lap; an
interrupt reports descriptors the DMA has read to their end; and the DMA does not come
round to a buffer before the interrupt that has it zeroed. -/
def Player.InReach (hz : ℕ) (P : Player) : PlayerEvent → Prop
  | .dac (.write now _) =>
    elapsed hz now P.dac.jb ≤ LAP_SLACK ∧ P.pos ≤ dmaPosNow hz now P.dac.jb + AP_DMA_AHEAD_FRAMES
  | .dac (.isr adv _) => 1 ≤ adv ∧ P.dac.jb.frames * (P.dac.fin + adv) ≤ P.pos
  | .fetch n => P.pos + n ≤ P.dac.jb.dmaEnd + AP_RING_FRAMES
  | _ => True

/-- The DMA reads within a lap of its last interrupt, on a ring that has been learned. -/
structure Playing (P : Player) : Prop where
  learned : Learned P.dac
  reported : P.dac.jb.dmaEnd ≤ P.pos
  lap : P.pos ≤ P.dac.jb.dmaEnd + AP_RING_FRAMES

/-- The ring shows the timeline of what was written, and so did every slot played
since `P0`. -/
structure Follows (P0 : Player) (hist : List Written) (P : Player) : Prop where
  playing : Playing P
  off : P.dac.jb.off = P0.dac.jb.off
  shows : Shows P.dac.jb.cell AP_RING_FRAMES P.dac.jb.mem (fun s c => heard hist (s - P0.dac.jb.off) c) P.dac.jb.dmaEnd
  played : ∀ (s : ℤ) c, P0.pos ≤ s → s < P.pos → P.played s c = heard hist (s - P0.dac.jb.off) c

theorem Learned.of_eq {d : Dac} (hl : Learned d) {jb : JitterBuf} (hs : SameRing d.jb jb)
    (hr : jb.ready = d.jb.ready) (hm : jb.mapped = d.jb.mapped) (he : jb.dmaEnd = d.jb.dmaEnd)
    (hk : jb.nextK = d.jb.nextK) : Learned { d with jb := jb } where
  geometry := hl.geometry.of_same hs
  ready := hr.trans hl.ready
  mapped := by rw [hs.nbufs, hm, hl.mapped]
  table := by rw [hs.nbufs, hs.buf]; exact hl.table
  dmaEnd := by rw [hs.frames, he, hl.dmaEnd]
  nextK := by rw [hs.nbufs, hk, hl.nextK]

theorem Playing.of_eq {P : Player} (h : Playing P) {jb : JitterBuf} (hs : SameRing P.dac.jb jb)
    (hr : jb.ready = P.dac.jb.ready) (hm : jb.mapped = P.dac.jb.mapped) (he : jb.dmaEnd = P.dac.jb.dmaEnd)
    (hk : jb.nextK = P.dac.jb.nextK) : Playing (P.withJb jb) where
  learned := h.learned.of_eq hs hr hm he hk
  reported := he.symm ▸ h.reported
  lap := he.symm ▸ h.lap

theorem Follows.of_eq {P0 P : Player} {hist : List Written} (h : Follows P0 hist P) {jb : JitterBuf}
    (hs : SameRing P.dac.jb jb) (hmem : jb.mem = P.dac.jb.mem) (ho : jb.off = P.dac.jb.off)
    (hr : jb.ready = P.dac.jb.ready) (hm : jb.mapped = P.dac.jb.mapped) (he : jb.dmaEnd = P.dac.jb.dmaEnd)
    (hk : jb.nextK = P.dac.jb.nextK) : Follows P0 hist (P.withJb jb) where
  playing := h.playing.of_eq hs hr hm he hk
  off := ho.trans h.off
  shows := by
    simp only [Player.withJb]
    rw [hs.cell, hmem, he]
    exact h.shows
  played := h.played

/-- Every index an admitted packet stores lies ahead of the DMA and within its lap. -/
theorem Admitted.slot_mem {hz : ℕ} {now : ℤ} {p : Packet} {jb : JitterBuf} {sn : Snap}
    (h : Admitted hz now p jb sn) (hel : elapsed hz now jb ≤ LAP_SLACK) {gain : ℕ} {a : ℤ} {c : Fin AP_NCH}
    {v : ℤ} (hs : p.sampleAt gain sn a c = some v) :
    dmaPosNow hz now jb + AP_DMA_AHEAD_FRAMES ≤ a + jb.off ∧ a + jb.off < jb.dmaEnd + AP_RING_FRAMES := by
  unfold Packet.sampleAt at hs
  split_ifs at hs with hcov
  have hr := h.readA
  have hn := h.near
  simp only [LAP_SLACK, AP_RING_FRAMES, AP_FUTURE_GUARD_FRAMES, AP_DMA_AHEAD_FRAMES, dmaPosNow] at hel hr hn ⊢
  push_cast at hel hr hn ⊢
  omega

theorem follows_stored {hz : ℕ} {P0 P : Player} {hist : List Written} (h : Follows P0 hist P) {now : ℤ}
    {p : Packet} {sn : Snap} (ha : Admitted hz now p P.dac.jb sn) (hr : P.InReach hz (.dac (.write now p))) :
    Follows P0 (hist ++ [⟨p, P.dac.jb.gainQ16, sn⟩]) (P.withJb (jbWritePublish p (jbWriteStore sn p P.dac.jb))) := by
  obtain ⟨hel, hfront⟩ := hr
  have hrep := h.playing.reported
  have hcell := jbWriteStore_cell h.playing.learned.geometry sn p (e := P.dac.jb.dmaEnd)
  obtain ⟨log, he⟩ := jbWriteStore_eq sn p P.dac.jb
  have hs : SameRing P.dac.jb (jbWriteStore sn p P.dac.jb) := by
    rw [he]
    exact ⟨rfl, rfl, rfl, rfl⟩
  have hsp : SameRing P.dac.jb (jbWritePublish p (jbWriteStore sn p P.dac.jb)) :=
    ⟨hs.buf, hs.nbufs, hs.frames, hs.fshift⟩
  have hend : (jbWriteStore sn p P.dac.jb).dmaEnd = P.dac.jb.dmaEnd := by rw [he]
  have hoff : (jbWriteStore sn p P.dac.jb).off = P.dac.jb.off := by rw [he]
  have hslot : ∀ {s c v}, p.sampleAt P.dac.jb.gainQ16 sn (s - P0.dac.jb.off) c = some v →
      P.pos ≤ s ∧ s < P.dac.jb.dmaEnd + AP_RING_FRAMES := fun {s c v} hv => by
    have := ha.slot_mem hel hv
    rw [h.off] at this
    omega
  refine ⟨h.playing.of_eq hsp ?_ ?_ hend ?_, hoff.trans h.off, ?_, fun s c h1 h2 => ?_⟩
  · exact (congrArg JitterBuf.ready he).trans rfl
  · exact (congrArg JitterBuf.mapped he).trans rfl
  · exact (congrArg JitterBuf.nextK he).trans rfl
  · show Shows (jbWritePublish p (jbWriteStore sn p P.dac.jb)).cell AP_RING_FRAMES (jbWriteStore sn p P.dac.jb).mem _
      (jbWriteStore sn p P.dac.jb).dmaEnd
    rw [hsp.cell, hend]
    simp only [heard_concat]
    refine h.shows.stored (fun s c => p.sampleAt P.dac.jb.gainQ16 sn (s - P0.dac.jb.off) c) ?_ ?_
    · intro s c hs
      by_contra hne
      obtain ⟨v, hv⟩ := Option.ne_none_iff_exists'.mp hne
      have := hslot hv
      omega
    · intro s c h1 h2
      rw [← h.off, ← ha.off]
      have h0 := (elapsed_mem hz now P.dac.jb).1
      have hr := ha.readA
      have hn := ha.near
      have ho := ha.off
      simp only [LAP_SLACK, AP_RING_FRAMES, AP_FUTURE_GUARD_FRAMES, AP_DMA_AHEAD_FRAMES] at hel hr hn
      push_cast at hel hr hn
      refine hcell (by omega) ?_ s c h1 h2
      simp only [AP_RING_FRAMES]
      push_cast
      omega
  · -- what the DMA has read lies behind every index stored
    have hnone : (⟨p, P.dac.jb.gainQ16, sn⟩ : Written).sampleAt (s - P0.dac.jb.off) c = none := by
      by_contra hne
      obtain ⟨v, hv⟩ := Option.ne_none_iff_exists'.mp hne
      have hpos : s < P.pos := h2
      have := hslot hv
      omega
    rw [heard_concat, hnone, Option.getD_none]
    exact h.played s c h1 h2

theorem shows_finish {d : Dac} (hl : Learned d) {line : ℤ → Fin AP_NCH → ℤ}
    (h : Shows d.jb.cell AP_RING_FRAMES d.jb.mem line d.jb.dmaEnd) {adv : ℕ} (h1 : 1 ≤ adv) (hN : adv ≤ d.jb.nbufs)
    (t : ℤ) : Shows (d.finish adv t).jb.cell AP_RING_FRAMES (d.finish adv t).jb.mem line (d.finish adv t).jb.dmaEnd := by
  have hg := hl.geometry
  obtain ⟨st, he⟩ := jbIsrSent_eq hl.ring h1 hN t (d.autoClear adv)
  have hjb : (d.finish adv t).jb = _ := he
  have hs : SameRing d.jb (d.finish adv t).jb := by
    rw [hjb]
    exact ⟨rfl, rfl, rfl, rfl⟩
  have hend : (d.finish adv t).jb.dmaEnd = (d.jb.frames * (d.fin + adv) : ℕ) := by rw [hjb]
  have hmem : (d.finish adv t).jb.mem = d.autoClear adv := by rw [hjb]
  have hlen : d.jb.frames * adv ≤ AP_RING_FRAMES := by
    rw [← hg.ring, Nat.mul_comm d.jb.nbufs]
    exact Nat.mul_le_mul_left _ hN
  have hsplit : d.jb.frames * (d.fin + adv) = d.jb.frames * d.fin + d.jb.frames * adv := Nat.mul_add _ _ _
  have hle := hl.dmaEnd
  -- slots of the coming lap are natural numbers
  have hclear : ∀ s c, d.jb.dmaEnd ≤ s → s < d.jb.dmaEnd + AP_RING_FRAMES → d.autoClear adv (d.jb.cell s c) =
      if s < (d.jb.frames * (d.fin + adv) : ℕ) then 0 else d.jb.mem (d.jb.cell s c) := by
    intro s c hs1 hs2
    lift s to ℕ using by omega
    rw [hl.autoClear_cell hN (by omega) (by omega) c]
    simp only [Nat.cast_lt]
  rw [hs.cell, hend, hsplit, Nat.cast_add, ← hle, hmem]
  refine h.advance hg.isRing (by omega) ?_ ?_
  · intro s c hs1 hs2
    rw [hclear s c hs1 (by omega), if_pos (by omega)]
  · intro s c hs1 hs2
    rw [hclear s c (by omega) hs2, if_neg (by omega)]

/-- What the DMA has read to its end since the last interrupt is at most a lap. -/
theorem Playing.adv_le {P : Player} (h : Playing P) {adv : ℕ}
    (hread : P.dac.jb.frames * (P.dac.fin + adv) ≤ P.pos) : adv ≤ P.dac.jb.nbufs := by
  have hg := h.learned.geometry
  have hend := h.learned.dmaEnd
  have hlap := h.lap
  have hlen : P.dac.jb.frames * adv ≤ AP_RING_FRAMES := by
    rw [Nat.mul_add] at hread
    omega
  rw [← hg.ring, Nat.mul_comm P.dac.jb.nbufs] at hlen
  exact Nat.le_of_mul_le_mul_left hlen hg.frames_pos

theorem Playing.finish {P : Player} (h : Playing P) {adv : ℕ} (h1 : 1 ≤ adv)
    (hread : P.dac.jb.frames * (P.dac.fin + adv) ≤ P.pos) (t : ℤ) : Playing { P with dac := P.dac.finish adv t } := by
  have hl := learned_finish h.learned h1 (h.adv_le hread) t
  have hend := hl.dmaEnd
  have hframes : (P.dac.finish adv t).jb.frames = P.dac.jb.frames := finish_frames h.learned h1 (h.adv_le hread) t
  have hfin : (P.dac.finish adv t).fin = P.dac.fin + adv := rfl
  rw [hframes, hfin] at hend
  have hbefore := h.learned.dmaEnd
  have hlap := h.lap
  have hsplit : P.dac.jb.frames * (P.dac.fin + adv) = P.dac.jb.frames * P.dac.fin + P.dac.jb.frames * adv := Nat.mul_add _ _ _
  exact ⟨hl, by simp only [hend]; omega, by simp only [hend]; omega⟩

theorem follows_finish {P0 P : Player} {hist : List Written} (h : Follows P0 hist P) {adv : ℕ} (h1 : 1 ≤ adv)
    (hread : P.dac.jb.frames * (P.dac.fin + adv) ≤ P.pos) (t : ℤ) :
    Follows P0 hist { P with dac := P.dac.finish adv t } where
  playing := h.playing.finish h1 hread t
  off := (finish_off h.playing.learned h1 (h.playing.adv_le hread) t).trans h.off
  shows := shows_finish h.playing.learned h.shows h1 (h.playing.adv_le hread) t
  played := h.played

theorem Playing.fetch {P : Player} (h : Playing P) {n : ℕ} (hlap : P.pos + n ≤ P.dac.jb.dmaEnd + AP_RING_FRAMES) :
    Playing (P.fetch n) where
  learned := h.learned
  reported := by
    have := h.reported
    simp only [Player.fetch]
    omega
  lap := by
    simp only [Player.fetch]
    exact_mod_cast hlap

theorem follows_fetch {P0 P : Player} {hist : List Written} (h : Follows P0 hist P) {n : ℕ}
    (hlap : P.pos + n ≤ P.dac.jb.dmaEnd + AP_RING_FRAMES) : Follows P0 hist (P.fetch n) where
  playing := h.playing.fetch hlap
  off := h.off
  shows := h.shows
  played s c h1 h2 := by
    have hrep := h.playing.reported
    simp only [Player.fetch] at h2 ⊢
    by_cases hs : s < P.pos
    · rw [if_neg (by omega)]
      exact h.played s c h1 hs
    · rw [if_pos (by omega), ← h.shows.window s c (by omega) (by omega)]
      lift s to ℕ using by omega
      rw [h.playing.learned.source_eq]

theorem follows_step {hz : ℕ} {P0 P : Player} {hist : List Written} (h : Follows P0 hist P) {e : PlayerEvent}
    (hr : P.InReach hz e) : Follows P0 (hist ++ (P.accepts? hz e).toList) (P.step hz e) := by
  cases e with
  | fetch n =>
    simp only [Player.accepts?, Option.toList_none, List.append_nil]
    exact follows_fetch h hr
  | dac e =>
    cases e with
    | write now p =>
      simp only [Player.accepts?, accepts?, Player.step, Dac.step, jbWrite]
      rcases jbWriteBegin_cases hz now p P.dac.jb with ⟨st, he⟩ | ⟨sn, he, ha⟩
      · simp only [he, Option.map_none, Option.toList_none, List.append_nil]
        exact h.of_eq ⟨rfl, rfl, rfl, rfl⟩ rfl rfl rfl rfl rfl rfl
      · simp only [he, Option.map_some, Option.toList_some]
        exact follows_stored h ha hr
    | isr adv t =>
      simp only [Player.accepts?, accepts?, Option.toList_none, List.append_nil]
      exact follows_finish h hr.1 hr.2 t
    | gain level db =>
      simp only [Player.accepts?, accepts?, Option.toList_none, List.append_nil]
      exact h.of_eq ⟨rfl, rfl, rfl, rfl⟩ rfl rfl rfl rfl rfl rfl
    | mute level on =>
      simp only [Player.accepts?, accepts?, Option.toList_none, List.append_nil]
      exact h.of_eq ⟨rfl, rfl, rfl, rfl⟩ rfl rfl rfl rfl rfl rfl

theorem follows_anchor (hz : ℕ) {P : Player} (hp : Playing P) (m : Anchoring) :
    Follows (P.anchor hz m) [] (P.anchor hz m) := by
  have hblank : ∀ jb : JitterBuf, SameRing P.dac.jb jb → jb.mapped = P.dac.jb.mapped → ∀ s c,
      (clearRing jb).mem ((clearRing jb).cell s c) = 0 := fun jb hs hm s c =>
    clearRing_cell (hp.learned.geometry.of_same hs) (by rw [hm, hp.learned.mapped, hs.nbufs]) s c
  cases m with
  | reset now idx =>
    have he : P.anchor hz (.reset now idx) = P.withJb (clearRing (jbResetPublish hz now idx P.dac.jb)) := by
      simp only [Player.anchor, Dac.anchor, jbReset, hp.learned.ready, Bool.not_true, Bool.false_eq_true, if_false,
        Player.withJb]
    rw [he]
    refine ⟨hp.of_eq ⟨rfl, rfl, rfl, rfl⟩ rfl rfl rfl rfl, rfl, ?_, fun s c h1 h2 => absurd h1 (by omega)⟩
    simp only [heard_nil]
    exact Shows.blank (hblank (jbResetPublish hz now idx P.dac.jb) ⟨rfl, rfl, rfl, rfl⟩ rfl) _
  | step delta =>
    have hstep : Playing (P.withJb (jbStepPlayout delta P.dac.jb)) := hp.of_eq ⟨rfl, rfl, rfl, rfl⟩ rfl rfl rfl rfl
    refine ⟨hstep, rfl, ?_, fun s c h1 h2 => absurd h1 (by omega)⟩
    simp only [heard_nil]
    exact Shows.blank (hblank (jbStepPublish delta P.dac.jb) ⟨rfl, rfl, rfl, rfl⟩ rfl) _

def Player.at (hz : ℕ) (P : Player) (l : List PlayerEvent) (k : ℕ) : Player := before (Player.step hz) P l k

theorem follows_run {hz : ℕ} {P0 : Player} (h0 : Follows P0 [] P0) {l : List PlayerEvent}
    (hr : ∀ k (hk : k < l.length), (P0.at hz l k).InReach hz l[k]) {k : ℕ} (hk : k ≤ l.length) :
    Follows P0 (writes hz P0 (l.take k)) (P0.at hz l k) := by
  have h := guarded_run (Player.step hz) (s := P0)
    (P := fun l P => P = l.foldl (Player.step hz) P0 ∧ Follows P0 (writes hz P0 l) P)
    (G := fun _ P e => P.InReach hz e) ⟨rfl, h0⟩ ?_ hr hk
  · exact h.2
  · rintro l P e ⟨rfl, h⟩ hin
    refine ⟨by simp, ?_⟩
    rw [writes_concat]
    exact follows_step h hin

/-- Between two anchorings, the DMA plays in each slot what was last written for the
slot's sample index, and every packet lands ahead of what the DMA has read and within
the lap of its last interrupt. -/
theorem ring_refines_timeline (hz : ℕ) {P : Player} (hp : Playing P) (m : Anchoring) (l : List PlayerEvent)
    (hr : ∀ k (hk : k < l.length), ((P.anchor hz m).at hz l k).InReach hz l[k]) :
    (∀ k ≤ l.length, ∀ (s : ℤ) c, P.pos ≤ s → s < ((P.anchor hz m).at hz l k).pos →
      ((P.anchor hz m).at hz l k).played s c =
        heard (writes hz (P.anchor hz m) (l.take k)) (s - (P.anchor hz m).dac.jb.off) c) ∧
    ∀ k (hk : k < l.length), ∀ w, ((P.anchor hz m).at hz l k).accepts? hz l[k] = some w →
      ∀ a c v, w.sampleAt a c = some v →
        ((P.anchor hz m).at hz l k).pos ≤ a + (P.anchor hz m).dac.jb.off ∧
          a + (P.anchor hz m).dac.jb.off < ((P.anchor hz m).at hz l k).dac.jb.dmaEnd + AP_RING_FRAMES := by
  have hrun := fun {k} (hk : k ≤ l.length) => follows_run (follows_anchor hz hp m) hr hk
  refine ⟨fun k hk s c h1 h2 => (hrun hk).played s c h1 h2, fun k hk w hw a c v hv => ?_⟩
  have hreach := hr k hk
  have hoff := (hrun hk.le).off
  rcases he : l[k] with (⟨now, p⟩ | _ | _ | _) | _
  case dac.write =>
    rw [he] at hw hreach
    rcases jbWriteBegin_cases hz now p ((P.anchor hz m).at hz l k).dac.jb with ⟨st, hb⟩ | ⟨sn, hb, ha⟩
    · simp [Player.accepts?, accepts?, hb] at hw
    · simp only [Player.accepts?, accepts?, hb, Option.map_some, Option.some.injEq] at hw
      subst hw
      rw [← hoff]
      have hslot := ha.slot_mem hreach.1 hv
      have hfront := hreach.2
      exact ⟨by omega, hslot.2⟩
  all_goals simp [he, Player.accepts?, accepts?] at hw

instance (hz : ℕ) (P : Player) : (e : PlayerEvent) → Decidable (P.InReach hz e)
  | .dac (.write now _) => inferInstanceAs (Decidable (elapsed hz now P.dac.jb ≤ LAP_SLACK ∧
      (P.pos : ℤ) ≤ dmaPosNow hz now P.dac.jb + AP_DMA_AHEAD_FRAMES))
  | .dac (.isr adv _) => inferInstanceAs (Decidable (1 ≤ adv ∧ P.dac.jb.frames * (P.dac.fin + adv) ≤ P.pos))
  | .fetch n => inferInstanceAs (Decidable ((P.pos : ℤ) + n ≤ P.dac.jb.dmaEnd + AP_RING_FRAMES))
  | .dac (.gain _ _) => isTrue trivial
  | .dac (.mute _ _) => isTrue trivial

theorem playing_contiguous (shift nbufs : ℕ) (h : nbufs * 2 ^ shift = AP_RING_FRAMES) :
    Playing (contiguousPlayer shift nbufs) where
  learned := learned_contiguous shift nbufs h
  reported := le_rfl
  lap := by
    simp only [contiguousPlayer, contiguous]
    omega

/-- Half a lap, then a packet over the end of the ring, then the DMA past it. -/
def overTheEnd : List PlayerEvent :=
  [.fetch 2100, .dac (.isr 131 43750), .dac (.write 43800 (fortyFrames 8180)), .fetch 2100, .dac (.isr 131 87500)]

/-- The 48 kHz ring plays a packet where its indices say, on both sides of its end. -/
theorem ring_refines_timeline_over_the_end :
    (((contiguousPlayer 4 256).anchor 48000 (.reset 0 4088)).at 48000 overTheEnd 5).played 8191 0 = 0x43444500 ∧
      (((contiguousPlayer 4 256).anchor 48000 (.reset 0 4088)).at 48000 overTheEnd 5).played 8192 5 = 0x4C4D4E00 := by
  have h := ring_refines_timeline 48000 (playing_contiguous 4 256 (by decide)) (.reset 0 4088) overTheEnd
    (by decide +kernel)
  exact ⟨(h.1 5 le_rfl 8191 0 (by decide +kernel) (by decide +kernel)).trans (by decide +kernel),
    (h.1 5 le_rfl 8192 5 (by decide +kernel) (by decide +kernel)).trans (by decide +kernel)⟩

/-- With four buffers of 1024 frames an estimate of two buffers admits a packet a full lap
ahead: index 8207 plays in slot 4111, whose own index nobody wrote. And at 96 kHz, with
three descriptors read and their interrupt pending, the estimate stops two buffers past
the last one reported: a packet is taken for slot 4180, which the DMA has already read. -/
theorem ring_leaves_timeline :
    (((contiguousPlayer 10 4).anchor 48000 (.reset 0 4088)).dac.jb.off = 0 ∧
      (((contiguousPlayer 10 4).anchor 48000 (.reset 0 4088)).at 48000
        [.dac (.write 43000 (oneFrame 8207)), .fetch 1024] 2).played 4111 0 = 0x01020300 ∧
      heard (writes 48000 ((contiguousPlayer 10 4).anchor 48000 (.reset 0 4088))
        [.dac (.write 43000 (oneFrame 8207)), .fetch 1024]) 4111 0 = 0) ∧
    ((contiguousPlayer 5 128).anchor 96000 (.reset 0 4088)).dac.jb.off = 0 ∧
      (((contiguousPlayer 5 128).anchor 96000 (.reset 0 4088)).at 96000
        [.fetch 96, .dac (.write 1000 (oneFrame 4180)), .dac (.isr 3 1000)] 3).played 4180 0 = 0 ∧
      heard (writes 96000 ((contiguousPlayer 5 128).anchor 96000 (.reset 0 4088))
        [.fetch 96, .dac (.write 1000 (oneFrame 4180)), .dac (.isr 3 1000)]) 4180 0 = 0x01020300 := by
  refine ⟨⟨?_, ?_, ?_⟩, ?_, ?_, ?_⟩ <;> decide +kernel

end Inferno
