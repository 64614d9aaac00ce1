import Inferno.Spec.JitterBuf

/-! The jitter buffer together with the hardware that plays it: the DMA walks its
descriptors in order, its interrupts report those it has finished, and the driver zeroes
each buffer once it has been played. -/

namespace Inferno

/-- `desc k` is the buffer of descriptor `k`, and `fin` counts the descriptors reported
finished since the channel started. -/
structure Dac where
  jb : JitterBuf
  desc : ℕ → ℕ
  fin : ℕ

def Dac.source (d : Dac) (s : ℤ) (c : Fin AP_NCH) : ℕ :=
  d.desc (s.toNat / d.jb.frames % d.jb.nbufs) + s.toNat % d.jb.frames * AP_NCH + AP_OUT_SLOT c

def Dac.autoClear (d : Dac) (adv : ℕ) : Words :=
  fun x => if ∃ i < adv, d.jb.inBuf (d.desc ((d.fin + i) % d.jb.nbufs)) x then 0 else d.jb.mem x

/-- An interrupt at `t` reports the last of `adv` descriptors finished since the one before. -/
def Dac.finish (d : Dac) (adv : ℕ) (t : ℤ) : Dac :=
  { d with
    fin := d.fin + adv
    jb := jbIsrSent (d.desc ((d.fin + adv - 1) % d.jb.nbufs)) t { d.jb with mem := d.autoClear adv } }

/-- What moves the timeline under the listener. -/
inductive Anchoring where
  | reset (now playoutIdx : ℤ)
  | step (deltaFrames : ℤ)

def Dac.anchor (hz : ℕ) (d : Dac) : Anchoring → Dac
  | .reset now playoutIdx => { d with jb := jbReset hz now playoutIdx d.jb }
  | .step delta => { d with jb := jbStepPlayout delta d.jb }

inductive DacEvent where
  | write (now : ℤ) (p : Packet)
  | isr (adv : ℕ) (t : ℤ)
  | gain (level : ℤ → ℕ) (db : ℤ)
  | mute (level : ℤ → ℕ) (on : Bool)

def Dac.step (hz : ℕ) (d : Dac) : DacEvent → Dac
  | .write now p => { d with jb := (jbWrite hz now p d.jb).1 }
  | .isr adv t => d.finish adv t
  | .gain level db => { d with jb := jbSetGainDb level db d.jb }
  | .mute level on => { d with jb := jbSetMute level on d.jb }

/-- Everything that reaches the ring once the channel runs. -/
inductive RingEvent where
  | dac (e : DacEvent)
  | anchor (m : Anchoring)

def Dac.ringStep (hz : ℕ) (d : Dac) : RingEvent → Dac
  | .dac e => d.step hz e
  | .anchor m => d.anchor hz m

def RingEvent.covered : RingEvent → ℕ
  | .dac (.isr adv _) => adv
  | _ => 0

/-- The DMA itself, ahead of its interrupts: `pos` counts the frames it has read since the
channel started, and `played s c` is the word it read in slot `s` for channel `c`. -/
structure Player where
  dac : Dac
  pos : ℕ
  played : ℤ → Fin AP_NCH → ℤ

def Player.fetch (P : Player) (n : ℕ) : Player :=
  { P with
    pos := P.pos + n
    played := fun s c => if P.pos ≤ s ∧ s < (P.pos + n : ℕ) then P.dac.jb.mem (P.dac.source s c) else P.played s c }

def Player.withJb (P : Player) (jb : JitterBuf) : Player := { P with dac := { P.dac with jb := jb } }

def Player.anchor (hz : ℕ) (P : Player) (m : Anchoring) : Player := { P with dac := P.dac.anchor hz m }

/-- What happens between two anchorings, with the reads of the DMA. -/
inductive PlayerEvent where
  | dac (e : DacEvent)
  | fetch (n : ℕ)

def Player.step (hz : ℕ) (P : Player) : PlayerEvent → Player
  | .dac e => { P with dac := P.dac.step hz e }
  | .fetch n => P.fetch n

end Inferno
