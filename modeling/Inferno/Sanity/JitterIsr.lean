import Inferno.Sanity.JitterRing
import Inferno.Spec.Dac

/-! The transmit interrupt on a learned ring: the position it computes is the number
of descriptors finished, however late it comes. For the position alone the buffers need
only have different addresses. -/

namespace Inferno

open Lib

/-- The first lap is over: the table holds the descriptors' buffers and the position is
that of the hardware. -/
structure Learned (d : Dac) : Prop where
  geometry : Geometry d.jb
  ready : d.jb.ready = true
  mapped : d.jb.mapped = d.jb.nbufs
  table : ∀ k < d.jb.nbufs, d.jb.buf k = d.desc k
  dmaEnd : d.jb.dmaEnd = (d.jb.frames * d.fin : ℕ)
  nextK : d.jb.nextK = d.fin % d.jb.nbufs

/-- What the position rests on: a table that names every descriptor's buffer, each by an
address of its own. -/
structure LearnedRing (d : Dac) : Prop where
  nbufs_pos : 0 < d.jb.nbufs
  inj : ∀ j < d.jb.nbufs, ∀ k < d.jb.nbufs, d.desc j = d.desc k → j = k
  ready : d.jb.ready = true
  table : ∀ k < d.jb.nbufs, d.jb.buf k = d.desc k
  dmaEnd : d.jb.dmaEnd = (d.jb.frames * d.fin : ℕ)
  nextK : d.jb.nextK = d.fin % d.jb.nbufs

theorem Geometry.nbufs_pos {jb : JitterBuf} (hg : Geometry jb) : 0 < jb.nbufs := by
  rcases Nat.eq_zero_or_pos jb.nbufs with h | h
  · have hr := hg.ring
    rw [h, Nat.zero_mul] at hr
    exact absurd hr (by decide)
  · exact h

theorem Geometry.buf_inj {jb : JitterBuf} (hg : Geometry jb) {j k : ℕ} (hj : j < jb.nbufs)
    (hk : k < jb.nbufs) (h : jb.buf j = jb.buf k) : j = k := by
  by_contra hne
  have hf := hg.frames_pos
  have hin : jb.inBuf (jb.buf j) (jb.buf j) := by
    simp only [JitterBuf.inBuf, AP_NCH]
    omega
  exact hg.disjoint j hj k hk hne _ hin (h ▸ hin)

theorem Learned.ring {d : Dac} (hl : Learned d) : LearnedRing d where
  nbufs_pos := hl.geometry.nbufs_pos
  inj j hj k hk h := hl.geometry.buf_inj hj hk (by rw [hl.table j hj, hl.table k hk, h])
  ready := hl.ready
  table := hl.table
  dmaEnd := hl.dmaEnd
  nextK := hl.nextK

theorem LearnedRing.buf_inj {d : Dac} (hl : LearnedRing d) {j k : ℕ} (hj : j < d.jb.nbufs)
    (hk : k < d.jb.nbufs) (h : d.jb.buf j = d.jb.buf k) : j = k :=
  hl.inj j hj k hk (by rw [← hl.table j hj, ← hl.table k hk, h])

theorem isrUnderrun_eq (jb : JitterBuf) : ∃ st, isrUnderrun jb = { jb with st := st } := by
  unfold isrUnderrun
  by_cases ha : jb.anchored = true
  · rw [if_pos ha]
    by_cases hh : jb.rxHead < jb.dmaEnd - jb.off
    · exact ⟨_, if_pos hh⟩
    · exact ⟨jb.st, if_neg hh⟩
  · exact ⟨jb.st, if_neg ha⟩

theorem lap_distance {n i adv : ℕ} (h1 : 1 ≤ adv) (hn : adv ≤ n) :
    ((i + adv - 1) % n + n - i % n) % n + 1 = adv := by
  have hn0 : 0 < n := by omega
  have hi := Nat.mod_lt i hn0
  have hsum : (i + adv - 1) % n = (i % n + (adv - 1)) % n := by
    rw [Nat.mod_add_mod, show i + adv - 1 = i + (adv - 1) by omega]
  rw [hsum]
  rcases Nat.lt_or_ge (i % n + (adv - 1)) n with h | h
  · rw [Nat.mod_eq_of_lt h, show i % n + (adv - 1) + n - i % n = adv - 1 + n by omega, Nat.add_mod_right,
      Nat.mod_eq_of_lt (by omega)]
    omega
  · rw [Nat.mod_eq_sub_mod h, Nat.mod_eq_of_lt (a := i % n + (adv - 1) - n) (by omega),
      show i % n + (adv - 1) - n + n - i % n = adv - 1 by omega, Nat.mod_eq_of_lt (by omega)]
    omega

theorem find_table {d : Dac} (hl : LearnedRing d) {j : ℕ} (hj : j < d.jb.nbufs) :
    ((List.range d.jb.nbufs).find? fun i => d.jb.buf i = d.jb.buf j) = some j := by
  rw [List.find?_range_eq_some]
  refine ⟨by simp, List.mem_range.mpr hj, fun i hi => ?_⟩
  simp only [Bool.not_eq_true', decide_eq_false_iff_not]
  intro h
  have := hl.buf_inj (hi.trans hj) hj h
  omega

/-- From a learned ring an interrupt covering `adv` descriptors leaves position and
next descriptor exact, and touches nothing else but the counters. -/
theorem jbIsrSent_eq {d : Dac} (hl : LearnedRing d) {adv : ℕ} (h1 : 1 ≤ adv) (hn : adv ≤ d.jb.nbufs) (t : ℤ)
    (mem : Words) :
    ∃ st, jbIsrSent (d.desc ((d.fin + adv - 1) % d.jb.nbufs)) t { d.jb with mem := mem } =
      { d.jb with
        mem := mem
        dmaEnd := (d.jb.frames * (d.fin + adv) : ℕ)
        nextK := (d.fin + adv) % d.jb.nbufs
        tIsr := t
        st := st } := by
  have hn0 := hl.nbufs_pos
  set j := (d.fin + adv - 1) % d.jb.nbufs with hj
  have hjn : j < d.jb.nbufs := Nat.mod_lt _ hn0
  have hkn : d.jb.nextK < d.jb.nbufs := hl.nextK ▸ Nat.mod_lt _ hn0
  have hdist := lap_distance (i := d.fin) h1 hn
  rw [← hj, ← hl.nextK] at hdist
  have hnext : (j + 1) % d.jb.nbufs = (d.fin + adv) % d.jb.nbufs := by
    rw [hj, Nat.mod_add_mod, show d.fin + adv - 1 + 1 = d.fin + adv by omega]
  have hadv : ∃ st, isrAdvance { d.jb with mem := mem } (d.jb.buf j) =
      { d.jb with
        mem := mem
        dmaEnd := (d.jb.frames * (d.fin + adv) : ℕ)
        nextK := (d.fin + adv) % d.jb.nbufs
        st := st } := by
    simp only [isrAdvance]
    by_cases hk : d.jb.buf d.jb.nextK = d.jb.buf j
    · -- the expected descriptor: the distance is a whole number of laps, so none
      have hkj := hl.buf_inj hkn hjn hk
      have hone : adv = 1 := by
        rw [hkj, Nat.add_sub_cancel_left, Nat.mod_self] at hdist
        omega
      refine ⟨d.jb.st, ?_⟩
      rw [if_neg (not_not.mpr hk), hl.dmaEnd, hkj, hnext, hone]
      push_cast
      ring_nf
    · rw [if_pos hk, find_table hl hjn]
      refine ⟨{ d.jb.st with isrGaps := u32 (d.jb.st.isrGaps + 1) }, ?_⟩
      simp only [hdist, hnext, hl.dmaEnd]
      push_cast
      ring_nf
  obtain ⟨st, hadv⟩ := hadv
  have hready : ¬ (!d.jb.ready) = true := by simp [hl.ready]
  unfold jbIsrSent
  rw [← hl.table j hjn, if_neg hready, hadv]
  obtain ⟨st', hu⟩ := isrUnderrun_eq
    { d.jb with
      mem := mem
      dmaEnd := (d.jb.frames * (d.fin + adv) : ℕ)
      nextK := (d.fin + adv) % d.jb.nbufs
      tIsr := t
      st := st }
  exact ⟨st', hu⟩

section

variable {d : Dac} (hl : Learned d) {adv : ℕ} (h1 : 1 ≤ adv) (hn : adv ≤ d.jb.nbufs) (t : ℤ)

include hl h1 hn

theorem learned_finish : Learned (d.finish adv t) := by
  obtain ⟨st, he⟩ := jbIsrSent_eq hl.ring h1 hn t (d.autoClear adv)
  have hjb : (d.finish adv t).jb = _ := he
  have hs : SameRing d.jb (d.finish adv t).jb := by
    rw [hjb]
    exact ⟨rfl, rfl, rfl, rfl⟩
  refine ⟨hl.geometry.of_same hs, ?_, ?_, ?_, ?_, ?_⟩
  · rw [hjb]; exact hl.ready
  · rw [hjb]; exact hl.mapped
  · rw [hjb]; exact hl.table
  · rw [hjb]; rfl
  · rw [hjb]; rfl

theorem finish_frames : (d.finish adv t).jb.frames = d.jb.frames := by
  obtain ⟨st, he⟩ := jbIsrSent_eq hl.ring h1 hn t (d.autoClear adv)
  have hjb : (d.finish adv t).jb = _ := he
  rw [hjb]

theorem finish_off : (d.finish adv t).jb.off = d.jb.off := by
  obtain ⟨st, he⟩ := jbIsrSent_eq hl.ring h1 hn t (d.autoClear adv)
  have hjb : (d.finish adv t).jb = _ := he
  rw [hjb]

end

def oneFrame (a : ℤ) : Packet := ⟨a, 1, 1, fun _ => 0, fun i => [1, 2, 3].getD i 0⟩

/-- Forty frames for channels 0 and 5 from index `a` on. -/
def fortyFrames (a : ℤ) : Packet := ⟨a, 40, 2, fun s => [0, 5].getD s (-1), fun i => UInt8.ofNat (i + 1)⟩

/-- `nbufs` buffers of `2 ^ shift` frames, one behind the other from address zero, at
the end of the first lap. -/
def contiguous (shift nbufs : ℕ) : Dac where
  jb :=
    { mem := fun _ => 0, buf := fun k => k * (2 ^ shift * AP_NCH), nbufs := nbufs, frames := 2 ^ shift
      fshift := shift, mapped := nbufs, ready := true, nextK := 0, dmaEnd := (2 ^ shift * nbufs : ℕ), tIsr := 0
      off := 0, anchored := false, rxHead := 0, st := ⟨0, 0, 0, 0, 0, 0, 0⟩, gainQ16 := 65536, gainDb := 0
      mute := false, nvsGainDb := none, synced := [] }
  desc := fun k => k * (2 ^ shift * AP_NCH)
  fin := nbufs

/-- The DMA has read just these buffers. -/
def contiguousPlayer (shift nbufs : ℕ) : Player := ⟨contiguous shift nbufs, 2 ^ shift * nbufs, fun _ _ => 0⟩

theorem learned_contiguous (shift nbufs : ℕ) (h : nbufs * 2 ^ shift = AP_RING_FRAMES) :
    Learned (contiguous shift nbufs) where
  geometry :=
    { pow := rfl
      ring := h
      disjoint := by
        intro j hj k hk hne x hx hy
        have hpos : 0 < 2 ^ shift * AP_NCH := Nat.mul_pos (Nat.two_pow_pos _) (by decide)
        have hdiv : ∀ i, (contiguous shift nbufs).jb.inBuf ((contiguous shift nbufs).jb.buf i) x →
            x / (2 ^ shift * AP_NCH) = i := by
          intro i hi
          simp only [JitterBuf.inBuf, contiguous] at hi
          apply Nat.div_eq_of_lt_le
          · exact hi.1
          · rw [Nat.succ_mul]
            exact hi.2
        exact hne ((hdiv j hx).symm.trans (hdiv k hy)) }
  ready := rfl
  mapped := rfl
  table _ _ := rfl
  dmaEnd := rfl
  nextK := (Nat.mod_self nbufs).symm

end Inferno
