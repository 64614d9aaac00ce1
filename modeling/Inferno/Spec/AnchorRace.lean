import Inferno.Spec.MediaClock

/-! Anchors and PTP steps interleaved. An `mclk_anchor` is three steps: it reads the PTP
clock, resets the ring, and copies `step_count`. A PTP step is two: the clock is stepped,
then the step is counted. Anchors come from any task, PTP steps from one. -/

namespace Inferno

/-- An anchor past its read: where it will put the playout, and how often the clock had
been stepped when it looked. -/
structure AnchorRead where
  playout : ℤ
  seen : ℕ
  deriving DecidableEq

/-- The media clock and `g_ptpv1.step_count`; how often the PTP clock was stepped and how
many of these steps were counted; the anchors on their way to the ring and to the copy;
and what the anchor that last reset the ring had seen. -/
structure AnchorRace where
  c : MediaClock
  stepCount : ℕ
  clock : ℕ
  counted : ℕ
  reads : List AnchorRead
  copies : ℕ
  ringSeen : Option ℕ

def AnchorRace.start (c : MediaClock) : AnchorRace where
  c := c
  stepCount := 0
  clock := 0
  counted := 0
  reads := []
  copies := 0
  ringSeen := none

/-- One atomic step of the PTP task or of an anchor. -/
inductive AnchorStep where
  | ptpClock
  | ptpCount
  | read (i : ClockIn)
  | reset (k : ℕ) (us : ℤ)
  | copy

variable (prof : RateProfile)

/-- Everything `mclk_anchor` does to `g_mclk` and the ring before the copy. -/
def mclkReset (us playout : ℤ) (c : MediaClock) : MediaClock :=
  { c with
    jb := jbReset prof.hz us playout c.jb
    g := { c.g with integral := 0, anchored := true, anchors := u32 (c.g.anchors + 1) } }

def AnchorRace.next (r : AnchorRace) : AnchorStep → AnchorRace
  | .ptpClock => if r.clock = r.counted then { r with clock := r.clock + 1 } else r
  | .ptpCount =>
    if r.clock = r.counted + 1 then { r with stepCount := u32 (r.stepCount + 1), counted := r.counted + 1 } else r
  | .read i =>
    if !r.c.jb.ready then r
    else
      match mclkNowSamples prof i with
      | none => r
      | some now =>
        { r with reads := r.reads ++ [⟨now - r.c.g.latencyFrames + r.c.g.dmaDepthFrames, r.clock⟩] }
  | .reset k us =>
    match r.reads[k]? with
    | none => r
    | some x =>
      { r with
        c := mclkReset prof us x.playout r.c
        reads := r.reads.eraseIdx k
        copies := r.copies + 1
        ringSeen := some x.seen }
  | .copy =>
    if r.copies = 0 then r
    else { r with c := { r.c with lastPtpSteps := r.stepCount }, copies := r.copies - 1 }

end Inferno
