import Inferno.Lib.Trace
import Inferno.Sanity.JitterIsr

/-! The transmit interrupt over whole runs. Once the ring is learned the position stays
exact however many descriptors an interrupt covers. The first lap records one buffer an
interrupt, so there a late one is never made good. -/

namespace Inferno

open Lib

/-- The fields the interrupt keeps for itself. -/
structure SameLap (jb jb' : JitterBuf) : Prop where
  buf : jb'.buf = jb.buf
  nbufs : jb'.nbufs = jb.nbufs
  frames : jb'.frames = jb.frames
  mapped : jb'.mapped = jb.mapped
  ready : jb'.ready = jb.ready
  nextK : jb'.nextK = jb.nextK
  dmaEnd : jb'.dmaEnd = jb.dmaEnd

theorem jbWrite_sameLap (hz : ℕ) (now : ℤ) (p : Packet) (jb : JitterBuf) : SameLap jb (jbWrite hz now p jb).1 := by
  simp only [jbWrite]
  rcases jbWriteBegin_cases hz now p jb with ⟨st, he⟩ | ⟨sn, he, -⟩
  · rw [he]
    exact ⟨rfl, rfl, rfl, rfl, rfl, rfl, rfl⟩
  · obtain ⟨log, hs⟩ := jbWriteStore_eq sn p jb
    simp only [he, jbWritePublish, hs]
    exact ⟨rfl, rfl, rfl, rfl, rfl, rfl, rfl⟩

theorem jbReset_sameLap (hz : ℕ) (now idx : ℤ) (jb : JitterBuf) : SameLap jb (jbReset hz now idx jb) := by
  unfold jbReset
  split <;> exact ⟨rfl, rfl, rfl, rfl, rfl, rfl, rfl⟩

theorem ringStep_cases (hz : ℕ) (d : Dac) (e : RingEvent) :
    (∃ adv t, e = .dac (.isr adv t) ∧ d.ringStep hz e = d.finish adv t) ∨
      (∀ adv t, e ≠ .dac (.isr adv t)) ∧ e.covered = 0 ∧
        ∃ jb, SameLap d.jb jb ∧ d.ringStep hz e = { d with jb := jb } := by
  rcases e with (⟨now, p⟩ | ⟨adv, t⟩ | ⟨level, db⟩ | ⟨level, on⟩) | (⟨now, idx⟩ | delta)
  · exact Or.inr ⟨by simp, rfl, _, jbWrite_sameLap hz now p d.jb, rfl⟩
  · exact Or.inl ⟨adv, t, rfl, rfl⟩
  · exact Or.inr ⟨by simp, rfl, jbSetGainDb level db d.jb, ⟨rfl, rfl, rfl, rfl, rfl, rfl, rfl⟩, rfl⟩
  · exact Or.inr ⟨by simp, rfl, jbSetMute level on d.jb, ⟨rfl, rfl, rfl, rfl, rfl, rfl, rfl⟩, rfl⟩
  · exact Or.inr ⟨by simp, rfl, _, jbReset_sameLap hz now idx d.jb, rfl⟩
  · exact Or.inr ⟨by simp, rfl, jbStepPlayout delta d.jb, ⟨rfl, rfl, rfl, rfl, rfl, rfl, rfl⟩, rfl⟩

def Dac.ringAt (hz : ℕ) (d : Dac) (l : List RingEvent) (k : ℕ) : Dac := before (Dac.ringStep hz) d l k

def covered (l : List RingEvent) : ℕ := (l.map RingEvent.covered).sum

@[simp] theorem covered_nil : covered [] = 0 := rfl

@[simp] theorem covered_concat (l : List RingEvent) (e : RingEvent) : covered (l ++ [e]) = covered l + e.covered := by
  simp [covered]

theorem LearnedRing.of_sameLap {d : Dac} (hl : LearnedRing d) {jb : JitterBuf} (h : SameLap d.jb jb) :
    LearnedRing { d with jb := jb } where
  nbufs_pos := h.nbufs ▸ hl.nbufs_pos
  inj := by rw [h.nbufs]; exact hl.inj
  ready := h.ready.trans hl.ready
  table := by rw [h.nbufs, h.buf]; exact hl.table
  dmaEnd := by rw [h.dmaEnd, h.frames, hl.dmaEnd]
  nextK := by rw [h.nextK, h.nbufs, hl.nextK]

theorem LearnedRing.finish {d : Dac} (hl : LearnedRing d) {adv : ℕ} (h1 : 1 ≤ adv) (hN : adv ≤ d.jb.nbufs) (t : ℤ) :
    LearnedRing (d.finish adv t) ∧ (d.finish adv t).jb.nbufs = d.jb.nbufs ∧
      (d.finish adv t).jb.frames = d.jb.frames := by
  obtain ⟨st, he⟩ := jbIsrSent_eq hl h1 hN t (d.autoClear adv)
  have hjb : (d.finish adv t).jb = _ := he
  refine ⟨⟨?_, ?_, ?_, ?_, ?_, ?_⟩, ?_, ?_⟩
  · rw [hjb]; exact hl.nbufs_pos
  · rw [hjb]; exact hl.inj
  · rw [hjb]; exact hl.ready
  · rw [hjb]; exact hl.table
  · rw [hjb]; rfl
  · rw [hjb]; rfl
  · rw [hjb]
  · rw [hjb]

/-- What a run from `d0` keeps: the ring stays learned, and the hardware's count is the
descriptors covered. -/
structure Tracks (d0 : Dac) (l : List RingEvent) (d : Dac) : Prop where
  ring : LearnedRing d
  nbufs : d.jb.nbufs = d0.jb.nbufs
  frames : d.jb.frames = d0.jb.frames
  fin : d.fin = d0.fin + covered l

theorem Tracks.step {hz : ℕ} {d0 d : Dac} {l : List RingEvent} (h : Tracks d0 l d) {e : RingEvent}
    (hr : ∀ adv t, e = .dac (.isr adv t) → 1 ≤ adv ∧ adv ≤ d0.jb.nbufs) :
    Tracks d0 (l ++ [e]) (d.ringStep hz e) := by
  rcases ringStep_cases hz d e with ⟨adv, t, he, hs⟩ | ⟨-, hc, jb, hsame, hs⟩
  · obtain ⟨h1, hN⟩ := hr adv t he
    rw [← h.nbufs] at hN
    obtain ⟨hring, hn, hf⟩ := h.ring.finish h1 hN t
    rw [hs]
    refine ⟨hring, hn.trans h.nbufs, hf.trans h.frames, ?_⟩
    rw [covered_concat, he]
    show d.fin + adv = _
    rw [h.fin, RingEvent.covered, Nat.add_assoc]
  · rw [hs]
    refine ⟨h.ring.of_sameLap hsame, hsame.nbufs.trans h.nbufs, hsame.frames.trans h.frames, ?_⟩
    rw [covered_concat, hc]
    exact h.fin

theorem tracks_run (hz : ℕ) {d : Dac} (hd : LearnedRing d) {l : List RingEvent}
    (hr : ∀ adv t, .dac (.isr adv t) ∈ l → 1 ≤ adv ∧ adv ≤ d.jb.nbufs) {k : ℕ} (hk : k ≤ l.length) :
    Tracks d (l.take k) (d.ringAt hz l k) := by
  refine guarded_run (Dac.ringStep hz) (P := Tracks d)
    (G := fun _ _ e => ∀ adv t, e = .dac (.isr adv t) → 1 ≤ adv ∧ adv ≤ d.jb.nbufs)
    ⟨hd, rfl, rfl, rfl⟩ ?_ ?_ hk
  · intro l d' e h hg
    exact h.step hg
  · intro j hj adv t he
    exact hr adv t (he ▸ List.getElem_mem hj)

/-- From a learned ring of `N` buffers, interrupts that each cover between one and `N`
descriptors keep the position exact, whatever else happens between them. -/
theorem dma_position_exact (hz : ℕ) {d : Dac} (hd : LearnedRing d) (l : List RingEvent)
    (hr : ∀ adv t, .dac (.isr adv t) ∈ l → 1 ≤ adv ∧ adv ≤ d.jb.nbufs) :
    ∀ k ≤ l.length,
      (d.ringAt hz l k).jb.dmaEnd = (d.jb.frames * (d.fin + covered (l.take k)) : ℕ) ∧
        (d.ringAt hz l k).jb.nextK = (d.fin + covered (l.take k)) % d.jb.nbufs := by
  intro k hk
  have h := tracks_run hz hd hr hk
  refine ⟨?_, ?_⟩
  · rw [h.ring.dmaEnd, h.frames, h.fin]
  · rw [h.ring.nextK, h.nbufs, h.fin]

/-- An interrupt over a whole lap reports the buffer before the expected one. -/
theorem dma_position_exact_full_lap :
    ((contiguous 5 128).ringAt 96000 [.dac (.isr 1 0), .dac (.isr 128 0)] 2).jb.dmaEnd = (32 * (128 + 129) : ℕ) :=
  (dma_position_exact 96000 (learned_contiguous 5 128 (by decide)).ring [.dac (.isr 1 0), .dac (.isr 128 0)]
    (by
      intro adv t h
      simp only [List.mem_cons, RingEvent.dac.injEq, DacEvent.isr.injEq, List.not_mem_nil, or_false] at h
      simp only [contiguous]
      omega) 2 (by decide)).1

def Prompt (l : List RingEvent) : Prop := ∀ adv t, .dac (.isr adv t) ∈ l → adv = 1

@[simp] theorem prompt_nil : Prompt [] := by simp [Prompt]

theorem prompt_concat (l : List RingEvent) (e : RingEvent) :
    Prompt (l ++ [e]) ↔ Prompt l ∧ ∀ adv t, e = .dac (.isr adv t) → adv = 1 := by
  simp only [Prompt, List.mem_append, List.mem_singleton, or_imp, forall_and]
  exact and_congr_right fun _ => ⟨fun h adv t he => h adv t he.symm, fun h adv t he => h adv t he.symm⟩

/-- The first lap of a run from `d0`: one buffer recorded for every interrupt. -/
structure Learning (d0 : Dac) (l : List RingEvent) (d : Dac) : Prop where
  nbufs : d.jb.nbufs = d0.jb.nbufs
  frames : d.jb.frames = d0.jb.frames
  desc : d.desc = d0.desc
  dmaEnd : d.jb.dmaEnd = (d0.jb.frames * d.jb.mapped : ℕ)
  full : d.jb.ready = true → d.jb.mapped = d.jb.nbufs
  room : d.jb.ready = false → d.jb.nbufs = 0 ∨ d.jb.mapped < d.jb.nbufs
  behind : d.jb.mapped ≤ d.fin
  prompt : d.fin = d.jb.mapped ↔ Prompt l
  table : Prompt l → ∀ j < d.jb.mapped, d.jb.buf j = d.desc j

theorem Learning.of_sameLap {d0 d : Dac} {l : List RingEvent} (h : Learning d0 l d) {jb : JitterBuf}
    (hs : SameLap d.jb jb) {e : RingEvent} (he : ∀ adv t, e ≠ .dac (.isr adv t)) :
    Learning d0 (l ++ [e]) { d with jb := jb } := by
  have hp : Prompt (l ++ [e]) ↔ Prompt l := by
    rw [prompt_concat, and_iff_left fun adv t h => absurd h (he adv t)]
  exact
    { nbufs := hs.nbufs.trans h.nbufs
      frames := hs.frames.trans h.frames
      desc := h.desc
      dmaEnd := by rw [hs.dmaEnd, hs.mapped, h.dmaEnd]
      full := by rw [hs.ready, hs.mapped, hs.nbufs]; exact h.full
      room := by rw [hs.ready, hs.mapped, hs.nbufs]; exact h.room
      behind := by rw [hs.mapped]; exact h.behind
      prompt := by rw [hs.mapped, hp]; exact h.prompt
      table := by rw [hs.mapped, hs.buf, hp]; exact h.table }

theorem jbIsrSent_first_lap (jb : JitterBuf) (hr : jb.ready = false) (p : ℕ) (t : ℤ) :
    ∃ st, jbIsrSent p t jb =
      { jb with
        buf := Function.update jb.buf jb.mapped p
        mapped := jb.mapped + 1
        dmaEnd := jb.dmaEnd + jb.frames
        nextK := (jb.mapped + 1) % jb.nbufs
        ready := decide (jb.mapped + 1 = jb.nbufs)
        tIsr := t
        st := st } := by
  simp only [jbIsrSent, hr, Bool.not_false, if_true]
  exact isrUnderrun_eq _

theorem Learning.finish {d0 d : Dac} {l : List RingEvent} (h : Learning d0 l d) (hr : d.jb.ready = false)
    {adv : ℕ} (h1 : 1 ≤ adv) (t : ℤ) : Learning d0 (l ++ [.dac (.isr adv t)]) (d.finish adv t) := by
  obtain ⟨st, he⟩ := jbIsrSent_first_lap { d.jb with mem := d.autoClear adv } hr
    (d.desc ((d.fin + adv - 1) % d.jb.nbufs)) t
  have hjb : (d.finish adv t).jb = _ := he
  have hfin : (d.finish adv t).fin = d.fin + adv := rfl
  have hp : Prompt (l ++ [.dac (.isr adv t)]) ↔ Prompt l ∧ adv = 1 := by
    rw [prompt_concat]
    exact and_congr_right fun _ => ⟨fun h => h adv t rfl, by rintro rfl adv' t' ⟨⟩; rfl⟩
  have hb := h.behind
  have hroom := h.room hr
  refine ⟨?_, ?_, h.desc, ?_, ?_, ?_, ?_, ?_, ?_⟩
  · rw [hjb]; exact h.nbufs
  · rw [hjb]; exact h.frames
  · rw [hjb]
    show d.jb.dmaEnd + d.jb.frames = (d0.jb.frames * (d.jb.mapped + 1) : ℕ)
    rw [h.dmaEnd, h.frames, Nat.mul_succ, Nat.cast_add]
  · rw [hjb]
    exact of_decide_eq_true
  · rw [hjb]
    intro hne
    have hne : d.jb.mapped + 1 ≠ d.jb.nbufs := of_decide_eq_false hne
    show d.jb.nbufs = 0 ∨ d.jb.mapped + 1 < d.jb.nbufs
    omega
  · rw [hjb, hfin]
    show d.jb.mapped + 1 ≤ d.fin + adv
    omega
  · rw [hp, hjb, hfin, ← h.prompt]
    show d.fin + adv = d.jb.mapped + 1 ↔ _
    omega
  · rw [hp, hjb]
    rintro ⟨hl, rfl⟩ j hj
    have hm := h.prompt.mpr hl
    -- the interrupt is prompt, so it reports descriptor `mapped`
    have hrep : (d.fin + 1 - 1) % d.jb.nbufs = d.jb.mapped := by
      rw [hm, Nat.add_sub_cancel]
      rcases hroom with h0 | hlt
      · rw [h0, Nat.mod_zero]
      · exact Nat.mod_eq_of_lt hlt
    show Function.update d.jb.buf d.jb.mapped _ j = d.desc j
    have hj : j < d.jb.mapped + 1 := hj
    rw [hrep, Function.update_apply]
    split_ifs with hjm
    · rw [hjm]
    · exact h.table hl j (by omega)

theorem ringStep_ready (hz : ℕ) {d : Dac} (h : d.jb.ready = true) (e : RingEvent) :
    (d.ringStep hz e).jb.ready = true := by
  rcases ringStep_cases hz d e with ⟨adv, t, -, hs⟩ | ⟨-, -, jb, hsame, hs⟩
  · have hn : ¬ (!d.jb.ready) = true := by simp [h]
    rw [hs]
    simp only [Dac.finish, jbIsrSent]
    rw [if_neg hn]
    obtain ⟨st, hu⟩ := isrUnderrun_eq
      { isrAdvance { d.jb with mem := d.autoClear adv } (d.desc ((d.fin + adv - 1) % d.jb.nbufs)) with tIsr := t }
    rw [hu]
    simp only [isrAdvance]
    split <;> exact h
  · rw [hs]
    exact hsame.ready.trans h

theorem Learning.step (hz : ℕ) {d0 d : Dac} {l : List RingEvent} (h : Learning d0 l d) (hr : d.jb.ready = false)
    {e : RingEvent} (he : ∀ adv t, e = .dac (.isr adv t) → 1 ≤ adv) : Learning d0 (l ++ [e]) (d.ringStep hz e) := by
  rcases ringStep_cases hz d e with ⟨adv, t, rfl, hs⟩ | ⟨hne, -, jb, hsame, hs⟩
  · rw [hs]
    exact h.finish hr (he adv t rfl) t
  · rw [hs]
    exact h.of_sameLap hsame hne

theorem learning_attach {d : Dac} {nbufs frames : ℕ} {jb : JitterBuf} (hjb : d.jb = jbAttachDma nbufs frames jb)
    (hfin : d.fin = 0) : Learning d [] d where
  nbufs := rfl
  frames := rfl
  desc := rfl
  dmaEnd := by rw [hjb]; rfl
  full := by rw [hjb]; exact fun h => absurd h (by simp [jbAttachDma])
  room := by
    rw [hjb]
    intro _
    simp only [jbAttachDma]
    omega
  behind := by rw [hjb]; exact Nat.zero_le _
  prompt := by rw [hjb, hfin]; simp [jbAttachDma]
  table := by rw [hjb]; exact fun _ j hj => absurd hj (Nat.not_lt_zero j)

theorem learning_run (hz : ℕ) {d : Dac} (h0 : Learning d [] d) {l : List RingEvent}
    (hr : ∀ adv t, .dac (.isr adv t) ∈ l → 1 ≤ adv) {k : ℕ} (hk : k ≤ l.length) :
    (d.ringAt hz l k).jb.ready = true ∨ Learning d (l.take k) (d.ringAt hz l k) := by
  refine guarded_run (Dac.ringStep hz) (P := fun l d' => d'.jb.ready = true ∨ Learning d l d')
    (G := fun _ _ e => ∀ adv t, e = .dac (.isr adv t) → 1 ≤ adv) (Or.inr h0) ?_ ?_ hk
  · rintro l d' e (hready | h) he
    · exact Or.inl (ringStep_ready hz hready e)
    · rcases hb : d'.jb.ready with _ | _
      · exact Or.inr (h.step hz hb he)
      · exact Or.inl (ringStep_ready hz hb e)
  · intro j hj adv t he
    exact hr adv t (he ▸ List.getElem_mem hj)

/-- When the ring becomes ready, the table names every descriptor's buffer and the
position is that of the hardware just when every interrupt of the first lap covered one
descriptor. -/
theorem learned_iff_prompt (hz : ℕ) {d : Dac} {nbufs frames : ℕ} {jb : JitterBuf}
    (hjb : d.jb = jbAttachDma nbufs frames jb) (hfin : d.fin = 0) (hf : 0 < frames) (l : List RingEvent)
    (hr : ∀ adv t, .dac (.isr adv t) ∈ l → 1 ≤ adv) {k : ℕ} (hk : k < l.length)
    (hbefore : (d.ringAt hz l k).jb.ready = false) (hafter : (d.ringAt hz l (k + 1)).jb.ready = true) :
    ((∀ j < nbufs, (d.ringAt hz l (k + 1)).jb.buf j = d.desc j) ∧
        (d.ringAt hz l (k + 1)).jb.dmaEnd = (frames * (d.ringAt hz l (k + 1)).fin : ℕ)) ↔
      Prompt (l.take (k + 1)) := by
  have hlast : Learning d (l.take (k + 1)) (d.ringAt hz l (k + 1)) := by
    rcases learning_run hz (learning_attach hjb hfin) hr hk.le with h | h
    · rw [hbefore] at h
      exact absurd h (by simp)
    · have hstep := h.step hz hbefore (e := l[k]) fun adv t he => hr adv t (he ▸ List.getElem_mem hk)
      rwa [List.take_concat_get' l k hk, Dac.ringAt, ← before_succ (Dac.ringStep hz) d l hk] at hstep
  have hN : d.jb.nbufs = nbufs := by rw [hjb]; rfl
  have hF : d.jb.frames = frames := by rw [hjb]; rfl
  have hfull := hlast.full hafter
  rw [hlast.nbufs, hN] at hfull
  constructor
  · rintro ⟨-, hend⟩
    rw [hlast.dmaEnd, hF, Nat.cast_inj] at hend
    exact hlast.prompt.mp (Nat.eq_of_mul_eq_mul_left hf hend).symm
  · intro hp
    refine ⟨fun j hj => ?_, ?_⟩
    · rw [hlast.table hp j (hfull ▸ hj), hlast.desc]
    · rw [hlast.dmaEnd, hF, hlast.prompt.mpr hp]

/-- The ring of the 96 kHz profile, as its channel starts. -/
def attached : Dac := { contiguous 5 128 with jb := jbAttachDma 128 32 (contiguous 5 128).jb, fin := 0 }

def promptLap : List RingEvent := List.replicate 128 (.dac (.isr 1 0))

theorem promptLap_prompt : Prompt promptLap := by
  intro adv t h
  cases List.eq_of_mem_replicate h
  rfl

theorem learned_iff_prompt_attached :
    (attached.ringAt 96000 promptLap (127 + 1)).jb.buf 127 = attached.desc 127 ∧
      (attached.ringAt 96000 promptLap (127 + 1)).jb.dmaEnd =
        (32 * (attached.ringAt 96000 promptLap (127 + 1)).fin : ℕ) := by
  have hlearned : (∀ j < 128, (attached.ringAt 96000 promptLap (127 + 1)).jb.buf j = attached.desc j) ∧ _ :=
    (learned_iff_prompt 96000 rfl rfl (by decide) promptLap (fun adv t h => (promptLap_prompt adv t h).ge)
      (by decide +kernel) (by decide +kernel) (by decide +kernel)).mpr
        fun adv t h => promptLap_prompt adv t (List.mem_of_mem_take h)
  exact ⟨hlearned.1 127 (by decide), hlearned.2⟩

/-- The first interrupt covers two descriptors: every buffer is taken for the one
before it, and the position is a buffer behind. -/
theorem late_first_interrupt_mislearns :
    ((attached.ringAt 96000 (.dac (.isr 2 0) :: List.replicate 127 (.dac (.isr 1 0))) 127).jb.ready = false) ∧
      (attached.ringAt 96000 (.dac (.isr 2 0) :: List.replicate 127 (.dac (.isr 1 0))) 128).jb.ready = true ∧
      (attached.ringAt 96000 (.dac (.isr 2 0) :: List.replicate 127 (.dac (.isr 1 0))) 128).jb.buf 0 =
        attached.desc 1 ∧
      (attached.ringAt 96000 (.dac (.isr 2 0) :: List.replicate 127 (.dac (.isr 1 0))) 128).jb.dmaEnd = 4096 ∧
      32 * (attached.ringAt 96000 (.dac (.isr 2 0) :: List.replicate 127 (.dac (.isr 1 0))) 128).fin = 4128 ∧
      attached.desc 0 ≠ attached.desc 1 := by
  refine ⟨?_, ?_, ?_, ?_, ?_, ?_⟩ <;> decide +kernel

end Inferno
