import Inferno.Spec.EthTs
import Inferno.Spec.JitterBuf
import Inferno.Spec.MclkHw
import Inferno.Spec.Ptpv1

/-! The media clock of `media_clock.c`: the latency the playout runs at, the anchor that
places the ring on the PTP timeline, and the loop that keeps it there. -/

namespace Inferno

def AP_MCLK_SLEW_PPB_PER_S : ℤ := 100
def AP_MCLK_UPDATE_HZ : ℤ := 10
def AP_MCLK_KP_NUM : ℤ := 40
def AP_MCLK_KI_NUM : ℤ := 3
def AP_MCLK_RESET_FRAMES : ℤ := 480

structure MclkState where
  armed : Bool
  anchored : Bool
  errorFrames : ℤ
  ppbTarget : ℤ
  ppbApplied : ℤ
  ppbFf : ℤ
  integral : ℤ
  anchors : ℕ
  resetSteps : ℕ
  dmaDepthFrames : ℕ
  latencyFrames : ℕ
  deriving DecidableEq, Repr

/-- The statics of `media_clock.c`, the stored latency, the ring and the actuator it
drives, and every rate `apply` commanded so far. -/
structure MediaClock where
  g : MclkState
  latencyUs : ℕ
  cfgUs : ℕ
  floorUs : ℕ
  forceUs : ℕ
  nvsUs : Option ℕ
  lastPtpSteps : ℕ
  outOfBand : ℤ
  jb : JitterBuf
  hw : MclkHw
  cmds : List ℤ

/-- What a call reads from outside: `g_ptpv1`, the PTP clock where it answers, and the
microsecond timer. -/
structure ClockIn where
  ptp : Ptpv1State
  time : Option EthTsTime
  us : ℤ

variable (prof : RateProfile)

def effectiveUs (c : MediaClock) : ℕ :=
  if c.forceUs ≠ 0 then
    if c.forceUs < prof.latencyMinUs then prof.latencyMinUs else c.forceUs
  else
    let us := if c.cfgUs > c.floorUs then c.cfgUs else c.floorUs
    let us := if us < prof.latencyMinUs then prof.latencyMinUs else us
    if us > AP_LATENCY_US_MAX then AP_LATENCY_US_MAX else us

/-- The samples on the PTP timeline at the PTP clock's time. -/
def mclkNowSamples (i : ClockIn) : Option ℕ :=
  if !i.ptp.haveMaster then none
  else i.time.map fun t => t.seconds * prof.hz + t.nanoseconds * prof.hz / 1000000000

def mclkAnchor (i : ClockIn) (c : MediaClock) : MediaClock :=
  if !c.jb.ready then c
  else
    match mclkNowSamples prof i with
    | none => c
    | some now =>
      let playout : ℤ := now - c.g.latencyFrames + c.g.dmaDepthFrames
      { c with
        jb := jbReset prof.hz i.us playout c.jb
        g := { c.g with integral := 0, anchored := true, anchors := u32 (c.g.anchors + 1) }
        lastPtpSteps := i.ptp.stepCount }

def applyLatency (i : ClockIn) (c : MediaClock) : MediaClock :=
  let us := effectiveUs prof c
  if us = c.latencyUs then c
  else mclkAnchor prof i
    { c with latencyUs := us, g := { c.g with latencyFrames := u32 (us * prof.hz / 1000000) } }

def mclkSetLatencyUs (i : ClockIn) (us : ℕ) (c : MediaClock) : MediaClock :=
  let us := if us > AP_LATENCY_US_MAX then AP_LATENCY_US_MAX else us
  applyLatency prof i (if us ≠ c.cfgUs then { c with cfgUs := us, nvsUs := some us } else c)

def mclkSetLatencyFloorUs (i : ClockIn) (us : ℕ) (c : MediaClock) : MediaClock :=
  applyLatency prof i { c with floorUs := us }

def mclkForceLatencyUs (i : ClockIn) (us : ℕ) (c : MediaClock) : MediaClock :=
  applyLatency prof i { c with forceUs := us }

/-- `audio_out_dma_depth_frames`: the ring is the DMA, nothing lies behind it. -/
def audioOutDmaDepthFrames : ℕ := 0

/-- `mclk_init` with the stored latency, the ring as it is and an initialised actuator. -/
def mclkInit (nvsUs : Option ℕ) (jb : JitterBuf) (hw : MclkHw) : MediaClock :=
  let cfg := match nvsUs with
    | some v => if v ≠ 0 then v else AP_LATENCY_US_DEFAULT
    | none => AP_LATENCY_US_DEFAULT
  let c : MediaClock :=
    { g :=
        { armed := false, anchored := false, errorFrames := 0, ppbTarget := 0, ppbApplied := 0, ppbFf := 0
          integral := 0, anchors := 0, resetSteps := 0
          dmaDepthFrames := audioOutDmaDepthFrames, latencyFrames := 0 }
      latencyUs := AP_LATENCY_US_DEFAULT
      cfgUs := cfg
      floorUs := 0
      forceUs := 0
      nvsUs := nvsUs
      lastPtpSteps := 0
      outOfBand := 0
      jb := jb
      hw := hw
      cmds := [] }
  let us := effectiveUs prof c
  { c with latencyUs := us, g := { c.g with latencyFrames := u32 (us * prof.hz / 1000000) } }

/-- `apply`: feed-forward plus the slewed phase term. -/
def MediaClock.apply (c : MediaClock) : MediaClock :=
  let ppb := c.g.ppbFf + c.g.ppbApplied
  { c with hw := mclkHwSetPpb c.hw ppb, cmds := c.cmds ++ [ppb] }

def mclkArm (on : Bool) (c : MediaClock) : MediaClock :=
  let c := { c with g := { c.g with armed := on } }
  if !on then ({ c with g := { c.g with ppbApplied := 0 } }).apply else c

/-- The PI sum before its clamp. -/
def phasePpb (err integral : ℤ) : ℤ := err * AP_MCLK_KP_NUM + (integral * AP_MCLK_KI_NUM).tdiv 1000

/-- The error beyond which the playout is stepped once it persists. -/
def stepBand (c : MediaClock) : ℤ :=
  let band := AP_MCLK_RESET_FRAMES
  let band := if (c.g.latencyFrames : ℤ) / 2 < band then (c.g.latencyFrames : ℤ) / 2 else band
  if band < 32 then 32 else band

/-- The end of `mclk_tick`: conditional integration, clamp, slew limit. -/
def mclkSteer (err : ℤ) (c : MediaClock) : MediaClock :=
  let ppb := phasePpb err c.g.integral
  let p :=
    if ppb < AP_MCLK_PPB_CLAMP ∧ ppb > -AP_MCLK_PPB_CLAMP then
      let integral := clamp (-1000000) 1000000 (c.g.integral + err)
      (integral, phasePpb err integral)
    else (c.g.integral, ppb)
  let target := clamp (-AP_MCLK_PPB_CLAMP) AP_MCLK_PPB_CLAMP p.2
  let stepMax := AP_MCLK_SLEW_PPB_PER_S / AP_MCLK_UPDATE_HZ
  let stepMax := if stepMax < 1 then 1 else stepMax
  let d := clamp (-stepMax) stepMax (target - c.g.ppbApplied)
  ({ c with g := { c.g with
      integral := p.1, ppbTarget := target, ppbApplied := c.g.ppbApplied + d } }).apply

/-- The phase error is known: step the playout, or steer. -/
def mclkPhase (err : ℤ) (c : MediaClock) : MediaClock :=
  let c := { c with g := { c.g with errorFrames := Int.bmod err (2 ^ 32) } }
  let band := stepBand c
  let c := { c with outOfBand := if err > band ∨ err < -band then c.outOfBand + 1 else 0 }
  if (err > AP_MCLK_RESET_FRAMES ∨ err < -AP_MCLK_RESET_FRAMES) ∨ c.outOfBand ≥ AP_MCLK_UPDATE_HZ / 2 then
    { c with
      outOfBand := 0
      jb := jbStepPlayout err c.jb
      g := { c.g with integral := 0, resetSteps := u32 (c.g.resetSteps + 1) } }
  else if !c.g.armed then c
  else mclkSteer err c

def phaseErr (i : ClockIn) (now : ℕ) (c : MediaClock) : ℤ :=
  ((now : ℤ) - c.g.latencyFrames + c.g.dmaDepthFrames) - jbPlayoutIdx prof.hz i.us c.jb

/-- `mclk_tick` past the feed-forward. -/
def mclkFollow (i : ClockIn) (c : MediaClock) : MediaClock :=
  if i.ptp.stepCount ≠ c.lastPtpSteps then mclkAnchor prof i c
  else if !c.g.anchored then mclkAnchor prof i c
  else
    match mclkNowSamples prof i with
    | none => c
    | some now => mclkPhase (phaseErr prof i now c) c

def mclkTick (i : ClockIn) (c : MediaClock) : MediaClock :=
  if !i.ptp.locked then c
  else
    let ff := clamp (-AP_MCLK_FF_PPB_MAX) AP_MCLK_FF_PPB_MAX i.ptp.ratePpb
    mclkFollow prof i ({ c with g := { c.g with ppbFf := ff } }).apply

/-- What happens to the media clock. `ring` is whatever the interrupt and the packets
made of the ring since. -/
inductive ClockEvent where
  | tick (i : ClockIn)
  | anchor (i : ClockIn)
  | setLatency (i : ClockIn) (us : ℕ)
  | setFloor (i : ClockIn) (us : ℕ)
  | force (i : ClockIn) (us : ℕ)
  | arm (on : Bool)
  | ring (jb : JitterBuf)

def clockStep (c : MediaClock) : ClockEvent → MediaClock
  | .tick i => mclkTick prof i c
  | .anchor i => mclkAnchor prof i c
  | .setLatency i us => mclkSetLatencyUs prof i us c
  | .setFloor i us => mclkSetLatencyFloorUs prof i us c
  | .force i us => mclkForceLatencyUs prof i us c
  | .arm on => mclkArm on c
  | .ring jb => { c with jb := jb }

end Inferno
