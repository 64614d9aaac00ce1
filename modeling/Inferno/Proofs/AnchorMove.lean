import Inferno.Lib.Trace
import Inferno.Spec.Race
import Inferno.Sanity.JitterIsr

/-! Moving the anchor while packets are being written. When every call has finished, the
ring holds exactly what was stored under the anchoring in force, provided each store
came either under it with no clear outstanding, or under an older one with a clear
still to come. -/

namespace Inferno

open Lib

/-- The packets stored under the anchoring in force, in the order of their stores. -/
def Race.current (r : Race) : List Written :=
  (r.stored.filter fun y => y.gen = r.gen).map Stored.w

/-- The ring holds the timeline of the packets stored under the anchoring in force and
is silent elsewhere, and whatever a `jb_write` reported written was stored. -/
structure Settled (r : Race) : Prop where
  ring : ∀ s c, r.jb.dmaEnd ≤ s → s < r.jb.dmaEnd + AP_RING_FRAMES →
    r.jb.mem (r.jb.cell s c) = heard r.current (s - r.jb.off) c
  kept : ∀ y ∈ r.returned, y.gen = r.gen → y.w ∈ r.current

/-- A store meets a current snapshot exactly when no clear is outstanding. -/
def StoreInTime (r : Race) : RaceStep → Prop
  | .store i => ∀ x, r.snaps[i]? = some x → (x.gen = r.gen ↔ r.clears = 0)
  | _ => True

instance (r : Race) (e : RaceStep) : Decidable (StoreInTime r e) := by
  cases e with
  | store i =>
    cases h : r.snaps[i]? with
    | none => exact isTrue fun x hx => by rw [h] at hx; cases hx
    | some y =>
      refine decidable_of_iff (y.gen = r.gen ↔ r.clears = 0) ⟨fun hy x hx => ?_, fun hx => hx y h⟩
      rw [h, Option.some.injEq] at hx
      exact hx ▸ hy
  | snapshot now p => exact isTrue trivial
  | publish i => exact isTrue trivial
  | reset now idx => exact isTrue trivial
  | step delta => exact isTrue trivial
  | clear => exact isTrue trivial

/-- A snapshot under the anchoring in force was taken by the guards at today's
position. -/
structure InLap (jb : JitterBuf) (x : Pending) : Prop where
  off : x.sn.off = jb.off
  lo : jb.dmaEnd ≤ x.sn.readA + jb.off
  hi : x.p.firstIdx + x.p.nframes + jb.off ≤ jb.dmaEnd + AP_RING_FRAMES

/-- While no clear is outstanding the ring shows the current packets; while one is,
there are none. -/
structure RaceInv (r : Race) : Prop where
  geometry : Geometry r.jb
  short : r.jb.frames ≤ 512
  mapped : r.jb.mapped = r.jb.nbufs
  shows : r.clears = 0 →
    Shows r.jb.cell AP_RING_FRAMES r.jb.mem (fun s c => heard r.current (s - r.jb.off) c) r.jb.dmaEnd
  silent : r.clears ≠ 0 → r.current = []
  snaps : ∀ x ∈ r.snaps, x.gen ≤ r.gen ∧ (x.gen = r.gen → InLap r.jb x)
  past : ∀ y ∈ r.stored, y.gen ≤ r.gen
  posts : ∀ y ∈ r.posts, y ∈ r.stored
  returned : ∀ y ∈ r.returned, y ∈ r.stored

theorem RaceInv.settled {r : Race} (hi : RaceInv r) (hr : r.AtRest) : Settled r where
  ring := (hi.shows hr.2.2).window
  kept y hy hg := List.mem_map.mpr ⟨y, List.mem_filter.mpr ⟨hi.returned y hy, by simp [hg]⟩, rfl⟩

theorem RaceInv.of_eq {r : Race} (hi : RaceInv r) {jb : JitterBuf} (hs : SameRing r.jb jb)
    (hmem : jb.mem = r.jb.mem) (ho : jb.off = r.jb.off) (hm : jb.mapped = r.jb.mapped)
    (he : jb.dmaEnd = r.jb.dmaEnd) : RaceInv { r with jb := jb } where
  geometry := hi.geometry.of_same hs
  short := by rw [hs.frames]; exact hi.short
  mapped := by rw [hm, hs.nbufs, hi.mapped]
  shows h := by
    show Shows jb.cell _ jb.mem (fun s c => heard r.current (s - jb.off) c) jb.dmaEnd
    rw [hs.cell, hmem, ho, he]
    exact hi.shows h
  silent := hi.silent
  snaps x hx := by
    refine ⟨(hi.snaps x hx).1, fun hg => ?_⟩
    obtain ⟨h1, h2, h3⟩ := (hi.snaps x hx).2 hg
    exact ⟨h1.trans ho.symm, by rw [ho, he]; exact h2, by rw [ho, he]; exact h3⟩
  past := hi.past
  posts := hi.posts
  returned := hi.returned

theorem raceInv_snapshot {r : Race} (hi : RaceInv r) (hz : ℕ) (now : ℤ) (p : Packet) :
    RaceInv (r.next hz (.snapshot now p)) := by
  rcases jbWriteBegin_cases hz now p r.jb with ⟨st, he⟩ | ⟨sn, he, ha⟩
  · simp only [Race.next, he]
    exact hi.of_eq ⟨rfl, rfl, rfl, rfl⟩ rfl rfl rfl rfl
  · simp only [Race.next, he]
    refine { hi with snaps := fun x hx => ?_ }
    rcases List.mem_append.mp hx with hx | hx
    · exact hi.snaps x hx
    · obtain rfl := List.mem_singleton.mp hx
      refine ⟨le_rfl, fun _ => ⟨ha.off, ?_, ?_⟩⟩
      · have h0 := (elapsed_mem hz now r.jb).1
        have hr := ha.readA
        simp only [AP_DMA_AHEAD_FRAMES] at hr
        push_cast at hr
        show r.jb.dmaEnd ≤ sn.readA + r.jb.off
        omega
      · have hel := elapsed_le_slack hi.short hz now
        have hr := ha.readA
        have hn := ha.near
        show p.firstIdx + p.nframes + r.jb.off ≤ r.jb.dmaEnd + AP_RING_FRAMES
        simp only [LAP_SLACK, AP_RING_FRAMES, AP_FUTURE_GUARD_FRAMES, AP_DMA_AHEAD_FRAMES] at hel hr hn ⊢
        push_cast at hel hr hn ⊢
        omega

theorem raceInv_store {r : Race} (hi : RaceInv r) (hz i : ℕ) (hs : StoreInTime r (.store i)) :
    RaceInv (r.next hz (.store i)) := by
  simp only [Race.next]
  cases hx : r.snaps[i]? with
  | none => exact hi
  | some x =>
    have hmem : x ∈ r.snaps := List.mem_of_getElem? hx
    have htime := hs x hx
    obtain ⟨hgen, hlap⟩ := hi.snaps x hmem
    obtain ⟨log, he⟩ := jbWriteStore_eq x.sn x.p r.jb
    have hsame : SameRing r.jb (jbWriteStore x.sn x.p r.jb) := by
      rw [he]
      exact ⟨rfl, rfl, rfl, rfl⟩
    have hoff : (jbWriteStore x.sn x.p r.jb).off = r.jb.off := by rw [he]
    have hend : (jbWriteStore x.sn x.p r.jb).dmaEnd = r.jb.dmaEnd := by rw [he]
    have hmap : (jbWriteStore x.sn x.p r.jb).mapped = r.jb.mapped := by rw [he]
    set y : Stored := ⟨x.gen, x.p, r.jb.gainQ16, x.sn⟩ with hy
    have hcur : ∀ jb snaps posts, Race.current ⟨jb, r.gen, snaps, posts, r.clears, r.stored ++ [y], r.returned⟩ =
        if x.gen = r.gen then r.current ++ [y.w] else r.current := by
      intro jb snaps posts
      by_cases hg : x.gen = r.gen <;> simp [Race.current, List.filter_append, hg, hy]
    refine ⟨hi.geometry.of_same hsame, ?_, ?_, fun hc => ?_, fun hc => ?_, fun z hz => ?_, fun z hz => ?_,
      fun z hz => ?_, fun z hz => ?_⟩
    · show (jbWriteStore x.sn x.p r.jb).frames ≤ 512
      rw [hsame.frames]
      exact hi.short
    · show (jbWriteStore x.sn x.p r.jb).mapped = (jbWriteStore x.sn x.p r.jb).nbufs
      rw [hmap, hsame.nbufs, hi.mapped]
    · -- no clear outstanding: the snapshot is current and lands in the lap
      have hc0 : r.clears = 0 := hc
      have hg := htime.mpr hc0
      obtain ⟨h1, h2, h3⟩ := hlap hg
      rw [hcur, if_pos hg]
      show Shows (jbWriteStore x.sn x.p r.jb).cell _ (jbWriteStore x.sn x.p r.jb).mem
        (fun s c => heard (r.current ++ [y.w]) (s - (jbWriteStore x.sn x.p r.jb).off) c)
        (jbWriteStore x.sn x.p r.jb).dmaEnd
      rw [hsame.cell, hoff, hend]
      simp only [heard_concat]
      refine (hi.shows hc0).stored (fun s c => y.w.sampleAt (s - r.jb.off) c) (fun s c hsl => ?_)
        fun s c hlo hup => ?_
      · show Packet.sampleAt _ _ _ _ _ = none
        rw [Packet.sampleAt, if_neg (by simp only [hy]; omega)]
      · rw [jbWriteStore_cell hi.geometry x.sn x.p (by rw [h1]; exact h2) (by rw [h1]; exact h3) s c hlo hup, h1]
        rfl
    · -- a clear outstanding: the snapshot is an older anchoring's
      have hc0 : r.clears ≠ 0 := hc
      have hg : x.gen ≠ r.gen := fun h => hc0 (htime.mp h)
      rw [hcur, if_neg hg]
      exact hi.silent hc0
    · obtain ⟨hle, hin⟩ := hi.snaps z (List.mem_of_mem_eraseIdx hz)
      refine ⟨hle, fun hg => ?_⟩
      obtain ⟨h1, h2, h3⟩ := hin hg
      exact ⟨h1.trans hoff.symm, by rw [hoff, hend]; exact h2, by rw [hoff, hend]; exact h3⟩
    · rcases List.mem_append.mp hz with hz | hz
      · exact hi.past z hz
      · obtain rfl := List.mem_singleton.mp hz
        exact hgen
    · rcases List.mem_append.mp hz with hz | hz
      · exact List.mem_append_left _ (hi.posts z hz)
      · exact List.mem_append_right _ hz
    · exact List.mem_append_left _ (hi.returned z hz)

theorem raceInv_publish {r : Race} (hi : RaceInv r) (hz i : ℕ) : RaceInv (r.next hz (.publish i)) := by
  simp only [Race.next]
  cases hy : r.posts[i]? with
  | none => exact hi
  | some y =>
    have hj : RaceInv { r with jb := jbWritePublish y.w.p r.jb } := hi.of_eq ⟨rfl, rfl, rfl, rfl⟩ rfl rfl rfl rfl
    refine { hj with posts := fun z hz => hi.posts z (List.mem_of_mem_eraseIdx hz), returned := fun z hz => ?_ }
    rcases List.mem_append.mp hz with hz | hz
    · exact hi.returned z hz
    · obtain rfl := List.mem_singleton.mp hz
      exact hi.posts z (List.mem_of_getElem? hy)

/-- Publishing an anchoring makes every packet stored so far one of an older one. -/
theorem raceInv_anchor {r : Race} (hi : RaceInv r) {jb : JitterBuf} (hs : SameRing r.jb jb)
    (hm : jb.mapped = r.jb.mapped) : RaceInv { r with jb := jb, gen := r.gen + 1, clears := r.clears + 1 } where
  geometry := hi.geometry.of_same hs
  short := by rw [hs.frames]; exact hi.short
  mapped := by rw [hm, hs.nbufs, hi.mapped]
  shows h := absurd h (Nat.succ_ne_zero _)
  silent _ := by
    rw [Race.current, List.map_eq_nil_iff, List.filter_eq_nil_iff]
    intro y hy
    have := hi.past y hy
    simp only [decide_eq_true_eq]
    omega
  snaps x hx := by
    have hle := (hi.snaps x hx).1
    refine ⟨hle.trans (Nat.le_succ _), fun h => ?_⟩
    have hg : x.gen = r.gen + 1 := h
    omega
  past y hy := (hi.past y hy).trans (Nat.le_succ _)
  posts := hi.posts
  returned := hi.returned

theorem raceInv_clear {r : Race} (hi : RaceInv r) (hz : ℕ) : RaceInv (r.next hz .clear) := by
  simp only [Race.next]
  split_ifs with hc
  · exact hi
  · have hsil := hi.silent hc
    have hj : RaceInv { r with jb := clearRing r.jb } := by
      refine { hi with geometry := ?_, short := hi.short, mapped := hi.mapped, shows := fun h => absurd h hc, snaps := ?_ }
      · exact hi.geometry.of_same ⟨rfl, rfl, rfl, rfl⟩
      · intro x hx
        obtain ⟨hle, hin⟩ := hi.snaps x hx
        exact ⟨hle, fun hg => ⟨(hin hg).off, (hin hg).lo, (hin hg).hi⟩⟩
    refine { hj with shows := fun _ => ?_, silent := fun _ => hsil }
    show Shows _ _ _ (fun s c => heard r.current (s - r.jb.off) c) _
    rw [hsil]
    simp only [heard_nil]
    exact Shows.blank (fun s c => clearRing_cell hi.geometry hi.mapped s c) _

theorem raceInv_next {r : Race} (hi : RaceInv r) (hz : ℕ) {e : RaceStep} (hs : StoreInTime r e) :
    RaceInv (r.next hz e) := by
  cases e with
  | snapshot now p => exact raceInv_snapshot hi hz now p
  | store i => exact raceInv_store hi hz i hs
  | publish i => exact raceInv_publish hi hz i
  | reset now idx =>
    simp only [Race.next]
    split_ifs
    · exact hi
    · exact raceInv_anchor hi ⟨rfl, rfl, rfl, rfl⟩ rfl
  | step delta => exact raceInv_anchor hi ⟨rfl, rfl, rfl, rfl⟩ rfl
  | clear => exact raceInv_clear hi hz

/-- A silent ring of the buffer lengths `rate.c` selects. -/
structure Silent (jb : JitterBuf) : Prop where
  geometry : Geometry jb
  short : jb.frames ≤ 512
  mapped : jb.mapped = jb.nbufs
  blank : ∀ s c, jb.mem (jb.cell s c) = 0

theorem silent_clearRing {jb : JitterBuf} (hg : Geometry jb) (hf : jb.frames ≤ 512)
    (hm : jb.mapped = jb.nbufs) : Silent (clearRing jb) where
  geometry := hg.of_same ⟨rfl, rfl, rfl, rfl⟩
  short := hf
  mapped := hm
  blank := clearRing_cell hg hm

theorem raceInv_start {jb : JitterBuf} (h : Silent jb) : RaceInv (Race.start jb) where
  geometry := h.geometry
  short := h.short
  mapped := h.mapped
  shows _ := Shows.blank h.blank _
  silent h := absurd rfl h
  snaps x hx := absurd hx (by simp [Race.start])
  past y hy := absurd hy (by simp [Race.start])
  posts y hy := absurd hy (by simp [Race.start])
  returned y hy := absurd hy (by simp [Race.start])

def Race.at (hz : ℕ) (jb : JitterBuf) (l : List RaceStep) (k : ℕ) : Race :=
  before (Race.next hz) (Race.start jb) l k

/-- In every interleaving whose stores come in time, the ring at rest holds exactly
the audio of the anchoring in force. -/
theorem anchor_move_settles (hz : ℕ) {jb : JitterBuf} (hj : Silent jb) (l : List RaceStep)
    (h : ∀ k (hk : k < l.length), StoreInTime (Race.at hz jb l k) l[k]) :
    ∀ k ≤ l.length, (Race.at hz jb l k).AtRest → Settled (Race.at hz jb l k) := by
  intro k hk hrest
  have hinv := guarded_run (Race.next hz) (P := fun _ r => RaceInv r) (G := fun _ r e => StoreInTime r e)
    (raceInv_start hj) (fun _ _ _ hi hs => raceInv_next hi hz hs) h hk
  exact hinv.settled hrest

/-- The 48 kHz ring, anchored so that slot and index agree. -/
def anchoredRing : JitterBuf := clearRing (jbResetPublish 48000 0 4088 (contiguous 4 256).jb)

theorem silent_anchoredRing : Silent anchoredRing := by
  have hl := learned_contiguous 4 256 (by decide)
  exact silent_clearRing (hl.geometry.of_same ⟨rfl, rfl, rfl, rfl⟩) (by decide) rfl

/-- A step between two packets, each stored before or after it. -/
def quietStep : List RaceStep :=
  [.snapshot 0 (oneFrame 4200), .store 0, .publish 0, .step 100, .clear,
    .snapshot 0 (oneFrame 4300), .store 0, .publish 0]

theorem anchor_move_settles_quiet_step :
    (Race.at 48000 anchoredRing quietStep 8).AtRest ∧ Settled (Race.at 48000 anchoredRing quietStep 8) := by
  have hrest : (Race.at 48000 anchoredRing quietStep 8).AtRest := ⟨rfl, rfl, rfl⟩
  exact ⟨hrest, anchor_move_settles 48000 silent_anchoredRing quietStep (by decide +kernel) 8 (by decide) hrest⟩

/-- A packet stored after the clear of an anchoring it did not see stays in the ring. -/
def staleStore : List RaceStep :=
  [.snapshot 0 (oneFrame 4200), .reset 0 5000, .clear, .store 0, .publish 0]

/-- A packet stored between the publication of an anchoring and its clear is lost. -/
def lostStore : List RaceStep :=
  [.reset 0 4088, .snapshot 0 (oneFrame 4200), .store 0, .clear, .publish 0]

theorem stale_and_lost_stores :
    ((Race.at 48000 anchoredRing staleStore 5).AtRest ∧ ¬ Settled (Race.at 48000 anchoredRing staleStore 5)) ∧
      (Race.at 48000 anchoredRing lostStore 5).AtRest ∧ ¬ Settled (Race.at 48000 anchoredRing lostStore 5) := by
  refine ⟨⟨⟨rfl, rfl, rfl⟩, fun h => ?_⟩, ⟨rfl, rfl, rfl⟩, fun h => ?_⟩
  · exact absurd (h.ring 4200 0 (by decide +kernel) (by decide +kernel)) (by decide +kernel)
  · exact absurd (h.ring 4200 0 (by decide +kernel) (by decide +kernel)) (by decide +kernel)

end Inferno
