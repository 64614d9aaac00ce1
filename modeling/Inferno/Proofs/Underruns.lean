import Inferno.Proofs.DmaPosition
import Inferno.Proofs.PacketStore

/-! The underrun counter against the silence it stands for. A ledger beside the ring
records where the packets accepted since the last clear end, and how many frames the
interrupts so far played past all of them. The counter looks at one descriptor an
interrupt, and at a high-water mark that a playout step leaves alone. -/

namespace Inferno

open Lib

/-- Index `a` lies at or past everything written: `ends` are the ends of the packets. -/
def Unwritten (ends : List ℤ) (a : ℤ) : Prop := ∀ e ∈ ends, e ≤ a

instance (ends : List ℤ) : DecidablePred (Unwritten ends) := fun _ => List.decidableBAll _ _

def Dac.playsFrom (d : Dac) : ℤ := (d.jb.frames * d.fin : ℕ) - d.jb.off

/-- The index after the last, when it covers `adv` descriptors. -/
def Dac.playsTo (d : Dac) (adv : ℕ) : ℤ := (d.jb.frames * (d.fin + adv) : ℕ) - d.jb.off

/-- The frames an interrupt plays that nothing was written for. -/
def silentFrames (ends : List ℤ) (d : Dac) (adv : ℕ) : ℕ :=
  Nat.count (fun i => Unwritten ends (d.playsFrom + i)) (d.jb.frames * adv)

/-- The ring with its ledger: the ends of the packets accepted since it was last cleared,
and the silent frames played so far. -/
structure Ledger where
  dac : Dac
  ends : List ℤ
  silent : ℕ

def Ledger.step (hz : ℕ) (g : Ledger) (e : RingEvent) : Ledger where
  dac := g.dac.ringStep hz e
  ends := match e with
    | .dac (.write now p) => if (jbWrite hz now p g.dac.jb).2 then g.ends ++ [p.firstIdx + p.nframes] else g.ends
    | .anchor (.reset _ _) => if g.dac.jb.ready then [] else g.ends
    | .anchor (.step _) => []
    | _ => g.ends
  silent := match e with
    | .dac (.isr adv _) => g.silent + silentFrames g.ends g.dac adv
    | _ => g.silent

/-- The ledger before the `k`-th event of a run that starts at `d`, just cleared. -/
def ledgerAt (hz : ℕ) (d : Dac) (l : List RingEvent) (k : ℕ) : Ledger := before (Ledger.step hz) ⟨d, [], 0⟩ l k

/-- A narrower property counts no more, and as much just when it is no narrower. -/
theorem count_eq_iff_of_imp {P Q : ℕ → Prop} [DecidablePred P] [DecidablePred Q] (h : ∀ i, P i → Q i) (n : ℕ) :
    Nat.count P n = Nat.count Q n ↔ ∀ i < n, Q i → P i := by
  induction n with
  | zero => simp
  | succ n ih =>
    have hle : Nat.count P n ≤ Nat.count Q n := Nat.count_mono_left fun i _ => h i
    rw [Nat.count_succ, Nat.count_succ, Nat.forall_lt_succ_right, ← ih]
    by_cases hp : P n
    · rw [if_pos hp, if_pos (h n hp), Nat.add_right_cancel_iff]
      exact (and_iff_left fun _ => hp).symm
    · rw [if_neg hp]
      split_ifs with hq
      · simp only [hq, hp, imp_false, not_true_eq_false, and_false, iff_false]
        omega
      · simp only [hq, false_implies, and_true, Nat.add_zero]

theorem count_from (m base : ℤ) (n : ℕ) :
    Nat.count (fun i => m ≤ base + i) n = (base + n - max m base).toNat := by
  induction n with
  | zero =>
    rw [Nat.count_zero]
    omega
  | succ n ih =>
    rw [Nat.count_succ, ih]
    push_cast
    split_ifs with h <;> omega

/-- What `jb_isr_sent` adds to the counter. -/
def countedFrames (d : Dac) (adv : ℕ) : ℕ := (d.playsTo adv - max d.jb.rxHead (d.playsTo adv - d.jb.frames)).toNat

theorem isrUnderrun_count (jb : JitterBuf) (ha : jb.anchored = true) :
    (isrUnderrun jb).st.framesUnderrun ≡
      jb.st.framesUnderrun + (jb.dmaEnd - jb.off - max jb.rxHead (jb.dmaEnd - jb.off - jb.frames)).toNat [MOD 2 ^ 32] := by
  unfold isrUnderrun
  rw [if_pos ha]
  dsimp only
  split_ifs with h1 h2
  · rw [max_eq_left h2.le]
    exact Nat.mod_modEq _ _
  · rw [max_eq_right (not_lt.mp h2)]
    exact Nat.mod_modEq _ _
  · rw [Int.toNat_of_nonpos (by omega), Nat.add_zero]

theorem isrAdvance_frame (jb : JitterBuf) (p : ℕ) :
    ∃ g dmaEnd nextK, isrAdvance jb p =
      { jb with st := { jb.st with isrGaps := g }, dmaEnd := dmaEnd, nextK := nextK } := by
  unfold isrAdvance
  dsimp only
  split_ifs
  · exact ⟨_, _, _, rfl⟩
  · exact ⟨jb.st.isrGaps, _, _, rfl⟩

/-- On a learned, anchored ring the counter grows by the frames of the last descriptor
that lie at or past the high-water mark. -/
theorem finish_count {d : Dac} (hl : LearnedRing d) (ha : d.jb.anchored = true) {adv : ℕ} (h1 : 1 ≤ adv)
    (hn : adv ≤ d.jb.nbufs) (t : ℤ) :
    (d.finish adv t).jb.st.framesUnderrun ≡ d.jb.st.framesUnderrun + countedFrames d adv [MOD 2 ^ 32] := by
  have hr : ¬ (!d.jb.ready) = true := by simp [hl.ready]
  obtain ⟨st, he⟩ := jbIsrSent_eq hl h1 hn t (d.autoClear adv)
  obtain ⟨g, dmaEnd, nextK, hadv⟩ := isrAdvance_frame { d.jb with mem := d.autoClear adv }
    (d.desc ((d.fin + adv - 1) % d.jb.nbufs))
  have hsplit : (d.finish adv t).jb = isrUnderrun
      { d.jb with mem := d.autoClear adv, st := { d.jb.st with isrGaps := g }, dmaEnd := dmaEnd, nextK := nextK, tIsr := t } := by
    simp only [Dac.finish, jbIsrSent]
    rw [if_neg hr, hadv]
  have hend : dmaEnd = (d.jb.frames * (d.fin + adv) : ℕ) := by
    obtain ⟨st', hu⟩ := isrUnderrun_eq
      { d.jb with mem := d.autoClear adv, st := { d.jb.st with isrGaps := g }, dmaEnd := dmaEnd, nextK := nextK, tIsr := t }
    exact congrArg JitterBuf.dmaEnd (hu.symm.trans (hsplit.symm.trans he))
  rw [hsplit, countedFrames, Dac.playsTo, ← hend]
  exact isrUnderrun_count _ ha

/-- The interrupt's silent frames all lie in the last descriptor it covers, and at or past
the high-water mark. -/
def Accounted (ends : List ℤ) (d : Dac) (adv : ℕ) : Prop :=
  ∀ i < d.jb.frames * adv, Unwritten ends (d.playsFrom + i) →
    d.playsTo adv - d.jb.frames ≤ d.playsFrom + i ∧ d.jb.rxHead ≤ d.playsFrom + i

instance (ends : List ℤ) (d : Dac) (adv : ℕ) : Decidable (Accounted ends d adv) :=
  inferInstanceAs (Decidable (∀ i < d.jb.frames * adv, Unwritten ends (d.playsFrom + i) → _ ∧ _))

theorem countedFrames_eq {d : Dac} {adv : ℕ} (h1 : 1 ≤ adv) :
    countedFrames d adv =
      Nat.count (fun i => max d.jb.rxHead (d.playsTo adv - d.jb.frames) ≤ d.playsFrom + i) (d.jb.frames * adv) := by
  have hto : d.playsTo adv = d.playsFrom + (d.jb.frames * adv : ℕ) := by
    simp only [Dac.playsTo, Dac.playsFrom]
    push_cast
    ring
  have hle : d.jb.frames ≤ d.jb.frames * adv := Nat.le_mul_of_pos_right _ h1
  rw [count_from, countedFrames, hto]
  omega

/-- The counter misses no silent frame just when all of them are accounted for, and never
counts any other. -/
theorem countedFrames_eq_iff {ends : List ℤ} {d : Dac} {adv : ℕ} (h1 : 1 ≤ adv) (hends : ∀ e ∈ ends, e ≤ d.jb.rxHead) :
    countedFrames d adv = silentFrames ends d adv ↔ Accounted ends d adv := by
  rw [countedFrames_eq h1, silentFrames, count_eq_iff_of_imp]
  · simp only [Accounted, max_le_iff]
    exact forall₂_congr fun i _ => imp_congr_right fun _ => and_comm
  · intro i hi e he
    exact (hends e he).trans ((le_max_left _ _).trans hi)

theorem countedFrames_le {d : Dac} {adv : ℕ} (h1 : 1 ≤ adv) : countedFrames d adv ≤ d.jb.frames * adv := by
  rw [countedFrames_eq h1]
  exact Nat.count_le _

/-- What a run from an anchor keeps. -/
structure Audited (n f : ℕ) (g : Ledger) : Prop where
  ring : LearnedRing g.dac
  nbufs : g.dac.jb.nbufs = n
  frames : g.dac.jb.frames = f
  anchored : g.dac.jb.anchored = true
  ends : ∀ e ∈ g.ends, e ≤ g.dac.jb.rxHead

theorem Audited.step {hz n f : ℕ} {g : Ledger} (h : Audited n f g) {e : RingEvent}
    (he : ∀ adv t, e = .dac (.isr adv t) → 1 ≤ adv ∧ adv ≤ n) : Audited n f (g.step hz e) := by
  rcases e with (⟨now, p⟩ | ⟨adv, t⟩ | ⟨level, db⟩ | ⟨level, on⟩) | (⟨now, idx⟩ | delta)
  · have hsame := jbWrite_sameLap hz now p g.dac.jb
    have hanch : (jbWrite hz now p g.dac.jb).1.anchored = true := by
      obtain ⟨mem, log, head, st, hw⟩ := jbWrite_frame hz now p g.dac.jb
      rw [hw]
      exact h.anchored
    refine ⟨h.ring.of_sameLap hsame, hsame.nbufs.trans h.nbufs, hsame.frames.trans h.frames, hanch, ?_⟩
    intro e he
    simp only [Ledger.step] at he
    show e ≤ (jbWrite hz now p g.dac.jb).1.rxHead
    cases hacc : (jbWrite hz now p g.dac.jb).2 with
    | false =>
      rw [(jbWrite_refused hacc).2]
      rw [hacc] at he
      exact h.ends e he
    | true =>
      rw [jbWrite_rxHead hacc]
      rw [hacc, if_pos rfl, List.mem_append, List.mem_singleton] at he
      rcases he with he | rfl
      · exact (h.ends e he).trans (le_max_left _ _)
      · exact le_max_right _ _
  · obtain ⟨h1, hN⟩ := he adv t rfl
    rw [← h.nbufs] at hN
    obtain ⟨hring, hn, hf⟩ := h.ring.finish h1 hN t
    obtain ⟨st, hjb⟩ := jbIsrSent_eq h.ring h1 hN t (g.dac.autoClear adv)
    have hjb : (g.dac.finish adv t).jb = _ := hjb
    refine ⟨hring, hn.trans h.nbufs, hf.trans h.frames, ?_, ?_⟩
    · show (g.dac.finish adv t).jb.anchored = true
      rw [hjb]
      exact h.anchored
    · show ∀ e ∈ g.ends, e ≤ (g.dac.finish adv t).jb.rxHead
      rw [hjb]
      exact h.ends
  · exact ⟨h.ring.of_sameLap ⟨rfl, rfl, rfl, rfl, rfl, rfl, rfl⟩, h.nbufs, h.frames, h.anchored, h.ends⟩
  · exact ⟨h.ring.of_sameLap ⟨rfl, rfl, rfl, rfl, rfl, rfl, rfl⟩, h.nbufs, h.frames, h.anchored, h.ends⟩
  · have hsame := jbReset_sameLap hz now idx g.dac.jb
    have hr : ¬ (!g.dac.jb.ready) = true := by simp [h.ring.ready]
    refine ⟨h.ring.of_sameLap hsame, hsame.nbufs.trans h.nbufs, hsame.frames.trans h.frames, ?_, ?_⟩
    · show (jbReset hz now idx g.dac.jb).anchored = true
      rw [jbReset, if_neg hr]
      rfl
    · simp only [Ledger.step, h.ring.ready, if_true, List.not_mem_nil, false_implies, implies_true]
  · refine ⟨h.ring.of_sameLap ⟨rfl, rfl, rfl, rfl, rfl, rfl, rfl⟩, h.nbufs, h.frames, h.anchored, ?_⟩
    simp only [Ledger.step, List.not_mem_nil, false_implies, implies_true]

theorem jbReset_underruns (hz : ℕ) (now idx : ℤ) (jb : JitterBuf) :
    (jbReset hz now idx jb).st.framesUnderrun = jb.st.framesUnderrun := by
  unfold jbReset
  split <;> rfl

theorem jbWrite_underruns (hz : ℕ) (now : ℤ) (p : Packet) (jb : JitterBuf) :
    (jbWrite hz now p jb).1.st.framesUnderrun = jb.st.framesUnderrun := by
  simp only [jbWrite, jbWriteBegin]
  split_ifs
  · rfl
  · rfl
  · rfl
  · rfl
  · obtain ⟨log, hs⟩ := jbWriteStore_eq ⟨jb.off, dmaPosNow hz now jb + AP_DMA_AHEAD_FRAMES - jb.off⟩ p jb
    simp only [hs, jbWritePublish]

def counted (d : Dac) : RingEvent → ℕ
  | .dac (.isr adv _) => countedFrames d adv
  | _ => 0

def silence (g : Ledger) : RingEvent → ℕ
  | .dac (.isr adv _) => silentFrames g.ends g.dac adv
  | _ => 0

theorem silent_step (hz : ℕ) (g : Ledger) (e : RingEvent) : (g.step hz e).silent = g.silent + silence g e := by
  rcases e with (_ | _ | _ | _) | _ <;> rfl

theorem underrun_step {hz n f : ℕ} {g : Ledger} (h : Audited n f g) {e : RingEvent}
    (he : ∀ adv t, e = .dac (.isr adv t) → 1 ≤ adv ∧ adv ≤ n) :
    (g.step hz e).dac.jb.st.framesUnderrun ≡ g.dac.jb.st.framesUnderrun + counted g.dac e [MOD 2 ^ 32] := by
  rcases e with (⟨now, p⟩ | ⟨adv, t⟩ | ⟨level, db⟩ | ⟨level, on⟩) | (⟨now, idx⟩ | delta)
  · show (jbWrite hz now p g.dac.jb).1.st.framesUnderrun ≡ _ [MOD 2 ^ 32]
    rw [jbWrite_underruns]
    rfl
  · obtain ⟨h1, hN⟩ := he adv t rfl
    exact finish_count h.ring h.anchored h1 (h.nbufs ▸ hN) t
  · rfl
  · rfl
  · show (jbReset hz now idx g.dac.jb).st.framesUnderrun ≡ _ [MOD 2 ^ 32]
    rw [jbReset_underruns]
    rfl
  · rfl

theorem Audited.increments_lt {n f : ℕ} {g : Ledger} (h : Audited n f g) (hlap : n * f = AP_RING_FRAMES)
    {e : RingEvent} (he : ∀ adv t, e = .dac (.isr adv t) → 1 ≤ adv ∧ adv ≤ n) :
    counted g.dac e < 2 ^ 32 ∧ silence g e < 2 ^ 32 := by
  have hpos : 0 < 2 ^ 32 := Nat.two_pow_pos _
  rcases e with (_ | ⟨adv, t⟩ | _ | _) | _
  · exact ⟨hpos, hpos⟩
  · obtain ⟨h1, hN⟩ := he adv t rfl
    have hle : g.dac.jb.frames * adv < 2 ^ 32 := by
      have hmul : f * adv ≤ f * n := Nat.mul_le_mul_left _ hN
      rw [Nat.mul_comm f n, hlap] at hmul
      rw [h.frames]
      exact hmul.trans_lt (by decide)
    exact ⟨(countedFrames_le h1).trans_lt hle, (Nat.count_le _).trans_lt hle⟩
  · exact ⟨hpos, hpos⟩
  · exact ⟨hpos, hpos⟩
  · exact ⟨hpos, hpos⟩

theorem audited_reset {d : Dac} (hd : Learned d) (hz : ℕ) (now idx : ℤ) :
    Audited d.jb.nbufs d.jb.frames ⟨d.anchor hz (.reset now idx), [], 0⟩ := by
  have hsame := jbReset_sameLap hz now idx d.jb
  have hr : ¬ (!d.jb.ready) = true := by simp [hd.ready]
  refine ⟨hd.ring.of_sameLap hsame, hsame.nbufs, hsame.frames, ?_, by simp⟩
  show (jbReset hz now idx d.jb).anchored = true
  rw [jbReset, if_neg hr]
  rfl

theorem audited_run {hz : ℕ} {d : Dac} (hd : Learned d) {now idx : ℤ} {l : List RingEvent}
    (hr : ∀ adv t, .dac (.isr adv t) ∈ l → 1 ≤ adv ∧ adv ≤ d.jb.nbufs) {k : ℕ} (hk : k ≤ l.length) :
    Audited d.jb.nbufs d.jb.frames (ledgerAt hz (d.anchor hz (.reset now idx)) l k) := by
  refine guarded_run (Ledger.step hz) (P := fun _ => Audited d.jb.nbufs d.jb.frames)
    (G := fun _ _ e => ∀ adv t, e = .dac (.isr adv t) → 1 ≤ adv ∧ adv ≤ d.jb.nbufs)
    (audited_reset hd hz now idx) ?_ ?_ hk
  · intro l g e h hg
    exact h.step hg
  · intro j hj adv t he
    exact hr adv t (he ▸ List.getElem_mem hj)

/-- Along every run from an anchor on a learned ring the counter keeps up with the silence
just when every interrupt's silent frames lie in the last descriptor it covers and at or
past the high-water mark. -/
theorem underruns_counted_iff (hz : ℕ) {d : Dac} (hd : Learned d) (now idx : ℤ) (l : List RingEvent)
    (hr : ∀ adv t, .dac (.isr adv t) ∈ l → 1 ≤ adv ∧ adv ≤ d.jb.nbufs) :
    (∀ k ≤ l.length,
      (ledgerAt hz (d.anchor hz (.reset now idx)) l k).dac.jb.st.framesUnderrun ≡
        d.jb.st.framesUnderrun + (ledgerAt hz (d.anchor hz (.reset now idx)) l k).silent [MOD 2 ^ 32]) ↔
      ∀ k (hk : k < l.length) adv t, l[k] = .dac (.isr adv t) →
        Accounted (ledgerAt hz (d.anchor hz (.reset now idx)) l k).ends
          (ledgerAt hz (d.anchor hz (.reset now idx)) l k).dac adv := by
  have hmem : ∀ k (hk : k < l.length) adv t, l[k] = .dac (.isr adv t) → 1 ≤ adv ∧ adv ≤ d.jb.nbufs :=
    fun k hk adv t he => hr adv t (he ▸ List.getElem_mem hk)
  have hinv : ∀ k ≤ l.length, Audited d.jb.nbufs d.jb.frames (ledgerAt hz (d.anchor hz (.reset now idx)) l k) :=
    fun k hk => audited_run hd hr hk
  have hsize : ∀ k (hk : k < l.length),
      counted (ledgerAt hz (d.anchor hz (.reset now idx)) l k).dac l[k] < 2 ^ 32 ∧
        silence (ledgerAt hz (d.anchor hz (.reset now idx)) l k) l[k] < 2 ^ 32 :=
    fun k hk => (hinv k hk.le).increments_lt hd.geometry.ring (hmem k hk)
  have hiff := totals_agree_iff (Ledger.step hz) (c := fun g => g.dac.jb.st.framesUnderrun)
    (t := fun g => d.jb.st.framesUnderrun + g.silent) (x := fun g e => counted g.dac e) (y := silence)
    (s := ⟨d.anchor hz (.reset now idx), [], 0⟩) (l := l) (M := 2 ^ 32) (congrArg (· % 2 ^ 32) (jbReset_underruns hz now idx d.jb))
    (fun k hk => underrun_step (hinv k hk.le) (hmem k hk))
    (fun k hk => by rw [silent_step, Nat.add_assoc])
    (fun k hk => (hsize k hk).1) (fun k hk => (hsize k hk).2)
  refine hiff.trans (forall₂_congr fun k hk => ?_)
  constructor
  · intro h adv t he
    rw [he] at h
    exact (countedFrames_eq_iff (hmem k hk adv t he).1 (hinv k hk.le).ends).mp h
  · intro h
    rcases he : l[k] with (_ | ⟨adv, t⟩ | _ | _) | _
    · rfl
    · exact (countedFrames_eq_iff (hmem k hk adv t he).1 (hinv k hk.le).ends).mpr (h adv t he)
    · rfl
    · rfl
    · rfl

/-- Sixty-four frames from index 0 on, the first of them late. -/
def leadIn : RingEvent := .dac (.write 0 ⟨0, 64, 1, fun _ => 0, fun _ => 0⟩)

/-- They run dry in the second of two interrupts, and the next packet is there for the third. -/
def runsDry : List RingEvent :=
  [leadIn, .dac (.isr 1 0), .dac (.isr 1 333), .dac (.write 400 (fortyFrames 80)), .dac (.isr 1 667)]

theorem underruns_counted_iff_dry :
    (ledgerAt 96000 ((contiguous 5 128).anchor 96000 (.reset 0 0)) runsDry 5).silent = 8 ∧
      (ledgerAt 96000 ((contiguous 5 128).anchor 96000 (.reset 0 0)) runsDry 5).dac.jb.st.framesUnderrun ≡ 8 [MOD 2 ^ 32] := by
  have hsilent : (ledgerAt 96000 ((contiguous 5 128).anchor 96000 (.reset 0 0)) runsDry 5).silent = 8 := by decide +kernel
  refine ⟨hsilent, ?_⟩
  have hcounted := (underruns_counted_iff 96000 (learned_contiguous 5 128 (by decide)) 0 0 runsDry ?_).mpr ?_ 5 le_rfl
  · rwa [hsilent] at hcounted
  · intro adv t h
    obtain ⟨rfl, -⟩ | ⟨rfl, -⟩ | ⟨rfl, -⟩ : adv = 1 ∧ t = 0 ∨ adv = 1 ∧ t = 333 ∨ adv = 1 ∧ t = 667 := by
      simpa [runsDry, leadIn] using h
    all_goals exact ⟨le_rfl, by decide⟩
  · intro k hk adv t h
    have hlt : k < 5 := hk
    interval_cases k
    · cases h
    · obtain ⟨rfl, rfl⟩ : 1 = adv ∧ 0 = t := by simpa [runsDry] using h
      decide +kernel
    · obtain ⟨rfl, rfl⟩ : 1 = adv ∧ 333 = t := by simpa [runsDry] using h
      decide +kernel
    · cases h
    · obtain ⟨rfl, rfl⟩ : 1 = adv ∧ 667 = t := by simpa [runsDry] using h
      decide +kernel

/-- An interrupt over four descriptors that run dry in the second counts one of them, and
one after a step back counts none: the step cleared the ring and left the mark. -/
theorem underruns_uncounted :
    ((ledgerAt 96000 ((contiguous 5 128).anchor 96000 (.reset 0 0)) [leadIn, .dac (.isr 4 0)] 2).silent = 72 ∧
      (ledgerAt 96000 ((contiguous 5 128).anchor 96000 (.reset 0 0))
        [leadIn, .dac (.isr 4 0)] 2).dac.jb.st.framesUnderrun = 32) ∧
    (ledgerAt 96000 ((contiguous 5 128).anchor 96000 (.reset 0 0))
        [leadIn, .anchor (.step (-8)), .dac (.isr 1 0)] 3).silent = 32 ∧
      (ledgerAt 96000 ((contiguous 5 128).anchor 96000 (.reset 0 0))
        [leadIn, .anchor (.step (-8)), .dac (.isr 1 0)] 3).dac.jb.st.framesUnderrun = 0 := by
  refine ⟨⟨?_, ?_⟩, ?_, ?_⟩ <;> decide +kernel

end Inferno
