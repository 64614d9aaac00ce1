import Inferno.Proofs.ClockLoop
import Inferno.Sanity.JitterIsr

/-! On-time audio lands whole: the latency the clock runs at leaves room for the DMA's
read-ahead and the FIFO at either rate, so a packet that left its transmitter no longer
ago than the rest of the latency is neither late nor beyond the guard. -/

namespace Inferno

open Lib

variable (prof : RateProfile)

structure SameLatency (c c' : MediaClock) : Prop where
  us : c'.latencyUs = c.latencyUs
  cfg : c'.cfgUs = c.cfgUs
  floor : c'.floorUs = c.floorUs
  force : c'.forceUs = c.forceUs
  frames : c'.g.latencyFrames = c.g.latencyFrames
  depth : c'.g.dmaDepthFrames = c.g.dmaDepthFrames

theorem SameLatency.refl (c : MediaClock) : SameLatency c c := ⟨rfl, rfl, rfl, rfl, rfl, rfl⟩

theorem sameLatency_anchor (i : ClockIn) (c : MediaClock) : SameLatency c (mclkAnchor prof i c) := by
  unfold mclkAnchor
  split_ifs
  · exact SameLatency.refl c
  · cases mclkNowSamples prof i with
    | none => exact SameLatency.refl c
    | some now => exact ⟨rfl, rfl, rfl, rfl, rfl, rfl⟩

theorem sameLatency_phase (err : ℤ) (c : MediaClock) : SameLatency c (mclkPhase err c) := by
  obtain ⟨n, h | h | h⟩ := mclkPhase_cases err c <;> rw [h] <;> exact ⟨rfl, rfl, rfl, rfl, rfl, rfl⟩

theorem sameLatency_follow (i : ClockIn) (c : MediaClock) : SameLatency c (mclkFollow prof i c) := by
  unfold mclkFollow
  split_ifs
  · exact sameLatency_anchor prof i c
  · exact sameLatency_anchor prof i c
  · cases mclkNowSamples prof i with
    | none => exact SameLatency.refl c
    | some now => exact sameLatency_phase _ c

theorem sameLatency_tick (i : ClockIn) (c : MediaClock) : SameLatency c (mclkTick prof i c) := by
  unfold mclkTick
  split_ifs
  · exact SameLatency.refl c
  · obtain ⟨h1, h2, h3, h4, h5, h6⟩ := sameLatency_follow prof i ({ c with g := { c.g with
      ppbFf := clamp (-AP_MCLK_FF_PPB_MAX) AP_MCLK_FF_PPB_MAX i.ptp.ratePpb } }).apply
    exact ⟨h1, h2, h3, h4, h5, h6⟩

/-- What holds of the latency between events: the clock runs at the effective latency,
and nothing lies behind the ring. -/
structure LatInv (c : MediaClock) : Prop where
  effective : c.latencyUs = effectiveUs prof c
  frames : c.g.latencyFrames = u32 (c.latencyUs * prof.hz / 1000000)
  depth : c.g.dmaDepthFrames = 0

variable {prof}

theorem LatInv.of_same {c c' : MediaClock} (hi : LatInv prof c) (h : SameLatency c c') : LatInv prof c' := by
  refine ⟨?_, by rw [h.frames, h.us]; exact hi.frames, h.depth.trans hi.depth⟩
  rw [h.us, hi.effective]
  simp only [effectiveUs, h.cfg, h.floor, h.force]

theorem latInv_applyLatency {c : MediaClock} (hf : c.g.latencyFrames = u32 (c.latencyUs * prof.hz / 1000000))
    (hd : c.g.dmaDepthFrames = 0) (i : ClockIn) : LatInv prof (applyLatency prof i c) := by
  unfold applyLatency
  dsimp only
  split_ifs with h
  · exact ⟨h.symm, hf, hd⟩
  · refine LatInv.of_same ?_ (sameLatency_anchor prof i _)
    exact ⟨rfl, rfl, hd⟩

theorem latInv_step {c : MediaClock} (hi : LatInv prof c) (e : ClockEvent) : LatInv prof (clockStep prof c e) := by
  cases e with
  | tick i => exact hi.of_same (sameLatency_tick prof i c)
  | anchor i => exact hi.of_same (sameLatency_anchor prof i c)
  | setLatency i us =>
    refine latInv_applyLatency ?_ ?_ i
    · split_ifs <;> exact hi.frames
    · split_ifs <;> exact hi.depth
  | setFloor i us =>
    have hf : ({ c with floorUs := us } : MediaClock).g.latencyFrames = u32 (c.latencyUs * prof.hz / 1000000) :=
      hi.frames
    exact latInv_applyLatency hf hi.depth i
  | force i us =>
    have hf : ({ c with forceUs := us } : MediaClock).g.latencyFrames = u32 (c.latencyUs * prof.hz / 1000000) :=
      hi.frames
    exact latInv_applyLatency hf hi.depth i
  | arm on => cases on <;> exact hi.of_same ⟨rfl, rfl, rfl, rfl, rfl, rfl⟩
  | ring jb => exact hi.of_same ⟨rfl, rfl, rfl, rfl, rfl, rfl⟩

theorem latInv_run (nvsUs : Option ℕ) (jb : JitterBuf) (hw : MclkHw) (l : List ClockEvent) :
    LatInv prof (clockRun prof nvsUs jb hw l) :=
  run_induct (clockStep prof) (P := fun _ c => LatInv prof c) ⟨rfl, rfl, rfl⟩ (fun _ e hi => latInv_step hi e) l

/-- The lead a frame needs over the DAC: the read-ahead and the FIFO. -/
def LEAD_FRAMES : ℤ := AP_DMA_AHEAD_FRAMES + AP_I2S_FIFO_FRAMES

theorem effectiveUs_mem {c : MediaClock} (h0 : c.forceUs = 0) (hmin : prof.latencyMinUs ≤ AP_LATENCY_US_MAX) :
    prof.latencyMinUs ≤ effectiveUs prof c ∧ effectiveUs prof c ≤ AP_LATENCY_US_MAX := by
  simp only [effectiveUs, h0, ne_eq, not_true_eq_false, if_false]
  split_ifs <;> omega

/-- At either rate the effective latency in frames is at most 10 ms and exceeds the lead
by at least half a millisecond. -/
theorem latency_margin (hp : prof = rate48k ∨ prof = rate96k) {c : MediaClock} (hi : LatInv prof c)
    (h0 : c.forceUs = 0) :
    (prof.hz : ℤ) ≤ 2000 * (c.g.latencyFrames - LEAD_FRAMES) ∧ c.g.latencyFrames ≤ 960 := by
  have hmin : prof.latencyMinUs ≤ AP_LATENCY_US_MAX := by rcases hp with rfl | rfl <;> decide
  obtain ⟨hlo, hhi⟩ := effectiveUs_mem h0 hmin
  rw [← hi.effective] at hlo hhi
  have hfr := hi.frames
  simp only [AP_LATENCY_US_MAX] at hhi
  have hlead : LEAD_FRAMES = 24 := rfl
  rcases hp with rfl | rfl
  · have hz : rate48k.hz = 48000 := rfl
    have hm : rate48k.latencyMinUs = 1000 := rfl
    simp only [hz, hm] at hlo hfr ⊢
    have hsmall : u32 (c.latencyUs * 48000 / 1000000) = c.latencyUs * 48000 / 1000000 :=
      Nat.mod_eq_of_lt (by omega)
    rw [hsmall] at hfr
    omega
  · have hz : rate96k.hz = 96000 := rfl
    have hm : rate96k.latencyMinUs = 750 := rfl
    simp only [hz, hm] at hlo hfr ⊢
    have hsmall : u32 (c.latencyUs * 96000 / 1000000) = c.latencyUs * 96000 / 1000000 :=
      Nat.mod_eq_of_lt (by omega)
    rw [hsmall] at hfr
    omega

/-- An anchor puts the playout index one latency behind the timeline. -/
theorem mclkAnchor_zero_phase {c : MediaClock} (hi : LatInv prof c) {i : ClockIn} {now : ℕ}
    (hr : c.jb.ready = true) (hn : mclkNowSamples prof i = some now) :
    jbPlayoutIdx prof.hz i.us (mclkAnchor prof i c).jb = now - c.g.latencyFrames := by
  have hrun : (mclkAnchor prof i c).jb =
      jbReset prof.hz i.us ((now : ℤ) - c.g.latencyFrames + c.g.dmaDepthFrames) c.jb := by
    simp only [mclkAnchor, hr, hn, Bool.not_true, Bool.false_eq_true, if_false]
  have hpos : ∀ q, dmaPosNow prof.hz i.us (clearRing (jbResetPublish prof.hz i.us q c.jb)) =
      dmaPosNow prof.hz i.us c.jb := fun _ => rfl
  simp only [hrun, jbReset, hr, Bool.not_true, Bool.false_eq_true, if_false, jbPlayoutIdx, hpos]
  simp only [clearRing, jbResetPublish, hi.depth]
  push_cast
  omega

/-- A packet between the read head and the guard, in a ring that is ready and anchored,
is taken whole. -/
theorem jbWrite_whole {hz : ℕ} {now : ℤ} {p : Packet} {jb : JitterBuf} (hr : jb.ready = true)
    (ha : jb.anchored = true) (hn : 0 < p.nframes) (hs : 0 < p.nslots)
    (hlate : dmaPosNow hz now jb + AP_DMA_AHEAD_FRAMES - jb.off ≤ p.firstIdx)
    (hfut : p.firstIdx + p.nframes ≤
      dmaPosNow hz now jb + AP_DMA_AHEAD_FRAMES - jb.off + AP_FUTURE_GUARD_FRAMES) :
    jbWriteBegin hz now p jb =
      (jb, some { off := jb.off, readA := dmaPosNow hz now jb + AP_DMA_AHEAD_FRAMES - jb.off }) := by
  have h1 : ¬ (p.nframes = 0 ∨ p.nslots = 0) := by omega
  simp only [jbWriteBegin, if_neg h1, hr, ha, Bool.not_true, Bool.or_self, Bool.false_eq_true, if_false]
  rw [if_neg (by omega), if_neg (by omega)]

/-- A packet with no late frame leaves in every cell it covers the sample it carries. -/
theorem jbWriteStore_whole {jb : JitterBuf} (hg : Geometry jb) {sn : Snap} {p : Packet}
    (hlate : sn.readA ≤ p.firstIdx) (hfut : p.firstIdx + p.nframes ≤ sn.readA + AP_FUTURE_GUARD_FRAMES)
    {f : ℕ} (hf : f < p.nframes) {ch : Fin AP_NCH} {s : ℕ} (hs : lastSlot p.slotToCh ch p.nslots = some s) :
    (jbWriteStore sn p jb).mem (jb.cell (p.firstIdx + f + sn.off) ch) =
      applyGain jb.gainQ16 (word24 p.be24 (f * (p.nslots * 3) + s * 3)) := by
  have hwin : p.firstIdx + p.nframes + sn.off ≤ (sn.readA + sn.off) + AP_RING_FRAMES := by
    simp only [AP_FUTURE_GUARD_FRAMES, AP_RING_FRAMES] at hfut ⊢
    push_cast at hfut ⊢
    omega
  rw [jbWriteStore_cell hg sn p le_rfl hwin _ ch (by omega) (by omega), add_sub_cancel_right, Packet.sampleAt,
    if_pos ⟨by omega, by omega, by omega⟩, hs, add_sub_cancel_left, Int.toNat_natCast]
  rfl

/-- With the bench override off, at either rate and whatever latency and floor were set:
the latency leaves half a millisecond beyond the lead, and at zero phase error every
packet on time is admitted with no late frame and stored whole. -/
theorem on_time_lands_whole (hp : prof = rate48k ∨ prof = rate96k) (nvsUs : Option ℕ) (jb : JitterBuf)
    (hw : MclkHw) (l : List ClockEvent) (h0 : (clockRun prof nvsUs jb hw l).forceUs = 0) :
    (prof.hz : ℤ) ≤ 2000 * ((clockRun prof nvsUs jb hw l).g.latencyFrames - LEAD_FRAMES) ∧
    ∀ (us now : ℤ) (p : Packet), (clockRun prof nvsUs jb hw l).jb.ready = true →
      (clockRun prof nvsUs jb hw l).jb.anchored = true →
      jbPlayoutIdx prof.hz us (clockRun prof nvsUs jb hw l).jb =
        now - (clockRun prof nvsUs jb hw l).g.latencyFrames →
      1 ≤ p.nframes → p.nframes ≤ 1024 → 0 < p.nslots → p.firstIdx ≤ now →
      now ≤ p.firstIdx + (clockRun prof nvsUs jb hw l).g.latencyFrames - LEAD_FRAMES →
      (jbWrite prof.hz us p (clockRun prof nvsUs jb hw l).jb).2 = true ∧
      (∃ sn, jbWriteBegin prof.hz us p (clockRun prof nvsUs jb hw l).jb =
          ((clockRun prof nvsUs jb hw l).jb, some sn) ∧ ∀ f < p.nframes, sn.readA ≤ p.firstIdx + f) ∧
      (Geometry (clockRun prof nvsUs jb hw l).jb → ∀ f < p.nframes, ∀ (ch : Fin AP_NCH) (s : ℕ),
        lastSlot p.slotToCh ch p.nslots = some s →
        (jbWrite prof.hz us p (clockRun prof nvsUs jb hw l).jb).1.mem
            ((clockRun prof nvsUs jb hw l).jb.cell
              (p.firstIdx + f + (clockRun prof nvsUs jb hw l).jb.off) ch) =
          applyGain (clockRun prof nvsUs jb hw l).jb.gainQ16
            (word24 p.be24 (f * (p.nslots * 3) + s * 3))) := by
  set c := clockRun prof nvsUs jb hw l with hc
  have hi : LatInv prof c := latInv_run nvsUs jb hw l
  obtain ⟨hmargin, hmax⟩ := latency_margin hp hi h0
  refine ⟨hmargin, fun us now p hr ha hphase hn1 hn2 hs hfirst hnow => ?_⟩
  -- the read head sits one lead past the playout index
  set readA := dmaPosNow prof.hz us c.jb + AP_DMA_AHEAD_FRAMES - c.jb.off with hreadA
  have hread : readA = now - c.g.latencyFrames + LEAD_FRAMES := by
    have hlead : LEAD_FRAMES = AP_DMA_AHEAD_FRAMES + AP_I2S_FIFO_FRAMES := rfl
    simp only [jbPlayoutIdx] at hphase
    omega
  have hlate : readA ≤ p.firstIdx := by omega
  have hfut : p.firstIdx + p.nframes ≤ readA + AP_FUTURE_GUARD_FRAMES := by
    have hlead : LEAD_FRAMES = 24 := rfl
    have hguard : (AP_FUTURE_GUARD_FRAMES : ℤ) = 2048 := rfl
    omega
  have hbegin := jbWrite_whole hr ha hn1 hs hlate hfut
  have hwrite : jbWrite prof.hz us p c.jb =
      (jbWritePublish p (jbWriteStore { off := c.jb.off, readA := readA } p c.jb), true) := by
    rw [jbWrite, hbegin]
  refine ⟨by rw [hwrite], ⟨_, hbegin, fun f _ => ?_⟩, fun hg f hf ch s hslot => ?_⟩
  · exact hlate.trans (by omega)
  · rw [hwrite]
    exact jbWriteStore_whole hg hlate hfut hf hslot

def oneSecond : ClockIn := ⟨{ ptpv1State0 with haveMaster := true }, some ⟨1, 0⟩, 0⟩

def readBackHw : MclkHw := (mclkHwInit 0 5 0 0).get rfl

/-- The board a second in, at 48 kHz and the default 2 ms. -/
def secondIn : MediaClock := clockRun rate48k none (contiguous 4 256).jb readBackHw [.anchor oneSecond]

theorem geometry_secondIn : Geometry secondIn.jb :=
  (learned_contiguous 4 256 (by decide)).geometry.of_same ⟨rfl, rfl, rfl, rfl⟩

/-- Forty frames over three buffers, the first of them the oldest that is on time: the packet
is taken, and its last word lies where it is due. -/
theorem on_time_lands_whole_oldest :
    (jbWrite rate48k.hz 0 (fortyFrames 47928) secondIn.jb).2 = true ∧
      (jbWrite rate48k.hz 0 (fortyFrames 47928) secondIn.jb).1.mem (secondIn.jb.cell (47967 + secondIn.jb.off) 5) =
        0xEEEFF000 - 2 ^ 32 := by
  have hinv : LatInv rate48k (clockRun rate48k none (contiguous 4 256).jb readBackHw []) := latInv_run _ _ _ []
  have hnow : mclkNowSamples rate48k oneSecond = some 48000 := rfl
  have hphase := mclkAnchor_zero_phase hinv rfl hnow
  obtain ⟨-, hlands⟩ := on_time_lands_whole (.inl rfl) none (contiguous 4 256).jb readBackHw [.anchor oneSecond] rfl
  obtain ⟨htaken, -, hstored⟩ := hlands 0 48000 (fortyFrames 47928) rfl rfl hphase (by decide) (by decide) (by decide)
    (by decide) (by decide)
  refine ⟨htaken, (hstored geometry_secondIn 39 (by decide) 5 1 rfl).trans ?_⟩
  decide +kernel

end Inferno
