import Inferno.Spec.Wire

/-! The jitter buffer of `jitterbuf.c`. The ring is the I2S DMA buffers themselves: a
flat memory of 32-bit words and a table of buffer addresses learned from the transmit
interrupt. Slots and sample indices are unwrapped, hence integers. Each function that
takes the lock more than once is written as its locked sections in order, so that a
run may interleave them. -/

namespace Inferno

def INT32_MAX : ℤ := 2 ^ 31 - 1
def INT32_MIN : ℤ := -2 ^ 31
def JB_GAIN_MIN_DB : ℤ := -60
def JB_GAIN_MAX_DB : ℤ := 4

abbrev Words := ℕ → ℤ

structure JbStats where
  pktWritten : ℕ
  pktLate : ℕ
  pktFuture : ℕ
  pktMalformed : ℕ
  framesUnderrun : ℕ
  playoutSteps : ℕ
  isrGaps : ℕ
  deriving DecidableEq, Repr

/-- The statics of `jitterbuf.c`, the memory the buffers lie in, the stored gain, and
the ranges (address, frames) handed to the cache write-back. -/
structure JitterBuf where
  mem : Words
  buf : ℕ → ℕ
  nbufs : ℕ
  frames : ℕ
  fshift : ℕ
  mapped : ℕ
  ready : Bool
  nextK : ℕ
  dmaEnd : ℤ
  tIsr : ℤ
  off : ℤ
  anchored : Bool
  rxHead : ℤ
  st : JbStats
  gainQ16 : ℕ
  gainDb : ℤ
  mute : Bool
  nvsGainDb : Option ℤ
  synced : List (ℕ × ℕ)

/-- `level` is `lroundf(65536 * powf(10, db / 20))`. -/
def gainApply (level : ℤ → ℕ) (db : ℤ) (jb : JitterBuf) : JitterBuf :=
  let db := if db < JB_GAIN_MIN_DB then JB_GAIN_MIN_DB else db
  let db := if db > JB_GAIN_MAX_DB then JB_GAIN_MAX_DB else db
  { jb with gainDb := db, gainQ16 := if jb.mute then 0 else level db }

def jbSetGainDb (level : ℤ → ℕ) (db : ℤ) (jb : JitterBuf) : JitterBuf :=
  let jb := gainApply level db jb
  { jb with nvsGainDb := some jb.gainDb }

def jbSetMute (level : ℤ → ℕ) (on : Bool) (jb : JitterBuf) : JitterBuf :=
  gainApply level jb.gainDb { jb with mute := on }

def gainLoad (level : ℤ → ℕ) (jb : JitterBuf) : JitterBuf := gainApply level (jb.nvsGainDb.getD 0) jb

def jbInit (level : ℤ → ℕ) (jb : JitterBuf) : JitterBuf :=
  { gainLoad level jb with st := ⟨0, 0, 0, 0, 0, 0, 0⟩, rxHead := 0 }

/-- The least shift whose power of two is not below the buffer length. -/
def fshiftOf (f : ℕ) : ℕ := Nat.clog 2 f

def jbAttachDma (nbufs framesPerBuf : ℕ) (jb : JitterBuf) : JitterBuf :=
  { jb with
    nbufs := nbufs, frames := framesPerBuf, fshift := fshiftOf framesPerBuf
    mapped := 0, ready := false, nextK := 0, dmaEnd := 0 }

def isrUnderrun (jb : JitterBuf) : JitterBuf :=
  if jb.anchored then
    let aEnd := jb.dmaEnd - jb.off
    let aStart := aEnd - jb.frames
    if jb.rxHead < aEnd then
      let start := if jb.rxHead > aStart then jb.rxHead else aStart
      { jb with st := { jb.st with framesUnderrun := u32 (jb.st.framesUnderrun + (aEnd - start).toNat) } }
    else jb
  else jb

/-- The finished descriptor `p`, searched for from the start of the table. -/
def isrAdvance (jb : JitterBuf) (p : ℕ) : JitterBuf :=
  let k := jb.nextK
  if jb.buf k ≠ p then
    let (k', adv) := match (List.range jb.nbufs).find? fun j => jb.buf j = p with
      | some j => (j, (j + jb.nbufs - k) % jb.nbufs + 1)
      | none => (k, 1)
    { jb with
      st := { jb.st with isrGaps := u32 (jb.st.isrGaps + 1) }
      dmaEnd := jb.dmaEnd + (adv * jb.frames : ℕ)
      nextK := (k' + 1) % jb.nbufs }
  else { jb with dmaEnd := jb.dmaEnd + jb.frames, nextK := (k + 1) % jb.nbufs }

def jbIsrSent (p : ℕ) (t : ℤ) (jb : JitterBuf) : JitterBuf :=
  let jb :=
    if !jb.ready then
      { jb with
        buf := Function.update jb.buf jb.mapped p
        mapped := jb.mapped + 1
        dmaEnd := jb.dmaEnd + jb.frames
        nextK := (jb.mapped + 1) % jb.nbufs
        ready := decide (jb.mapped + 1 = jb.nbufs) }
    else isrAdvance jb p
  isrUnderrun { jb with tIsr := t }

/-- The frames played since the last interrupt, as estimated at `now`. -/
def elapsed (hz : ℕ) (now : ℤ) (jb : JitterBuf) : ℤ :=
  let el := ((now - jb.tIsr) * hz).tdiv 1000000
  let el := if el < 0 then 0 else el
  if el > 2 * jb.frames then 2 * jb.frames else el

def dmaPosNow (hz : ℕ) (now : ℤ) (jb : JitterBuf) : ℤ := jb.dmaEnd + elapsed hz now jb

def jbPlayoutIdx (hz : ℕ) (now : ℤ) (jb : JitterBuf) : ℤ :=
  dmaPosNow hz now jb - AP_I2S_FIFO_FRAMES - jb.off

def JitterBuf.inBuf (jb : JitterBuf) (p x : ℕ) : Prop := p ≤ x ∧ x < p + jb.frames * AP_NCH

instance (jb : JitterBuf) (p x : ℕ) : Decidable (jb.inBuf p x) :=
  inferInstanceAs (Decidable (_ ∧ _))

def clearRing (jb : JitterBuf) : JitterBuf :=
  { jb with
    mem := fun x => if ∃ k < jb.mapped, jb.inBuf (jb.buf k) x then 0 else jb.mem x
    synced := jb.synced ++ (List.range jb.mapped).map fun k => (jb.buf k, jb.frames) }

/-- The locked section of `jb_reset`. -/
def jbResetPublish (hz : ℕ) (now playoutIdx : ℤ) (jb : JitterBuf) : JitterBuf :=
  { jb with
    off := dmaPosNow hz now jb - AP_I2S_FIFO_FRAMES - playoutIdx
    rxHead := playoutIdx
    anchored := true }

def jbReset (hz : ℕ) (now playoutIdx : ℤ) (jb : JitterBuf) : JitterBuf :=
  if !jb.ready then jb else clearRing (jbResetPublish hz now playoutIdx jb)

/-- The locked section of `jb_step_playout`. -/
def jbStepPublish (deltaFrames : ℤ) (jb : JitterBuf) : JitterBuf :=
  { jb with
    off := jb.off - deltaFrames
    st := { jb.st with playoutSteps := u32 (jb.st.playoutSteps + 1) } }

def jbStepPlayout (deltaFrames : ℤ) (jb : JitterBuf) : JitterBuf := clearRing (jbStepPublish deltaFrames jb)

structure Packet where
  firstIdx : ℤ
  nframes : ℕ
  nslots : ℕ
  slotToCh : ℕ → ℤ
  be24 : Mem

/-- What `jb_write` reads under the lock before it decides. -/
structure Snap where
  off : ℤ
  readA : ℤ

/-- An accepted packet, with the gain and the position it was written at. -/
structure Written where
  p : Packet
  gain : ℕ
  sn : Snap

/-- `jb_write` up to its first store: the guards, and the position they hold at. -/
def jbWriteBegin (hz : ℕ) (now : ℤ) (p : Packet) (jb : JitterBuf) : JitterBuf × Option Snap :=
  if p.nframes = 0 ∨ p.nslots = 0 then
    ({ jb with st := { jb.st with pktMalformed := u32 (jb.st.pktMalformed + 1) } }, none)
  else if !jb.ready || !jb.anchored then (jb, none)
  else
    let readA := dmaPosNow hz now jb + AP_DMA_AHEAD_FRAMES - jb.off
    let ahead := p.firstIdx - readA
    if ahead + p.nframes ≤ 0 then
      ({ jb with st := { jb.st with pktLate := u32 (jb.st.pktLate + 1) } }, none)
    else if ahead + p.nframes > AP_FUTURE_GUARD_FRAMES then
      ({ jb with st := { jb.st with pktFuture := u32 (jb.st.pktFuture + 1) } }, none)
    else (jb, some { off := jb.off, readA := readA })

def JitterBuf.row (jb : JitterBuf) (slot : ℤ) : ℕ :=
  let m := (slot % AP_RING_FRAMES).toNat
  jb.buf ((m >>> jb.fshift) % jb.nbufs) + (m &&& (jb.frames - 1)) * AP_NCH

/-- A 24-bit big-endian sample shifted up into a 32-bit word. -/
def word24 (p : Mem) (i : ℕ) : ℤ :=
  Int.bmod ((p i).toNat * 2 ^ 24 + (p (i + 1)).toNat * 2 ^ 16 + (p (i + 2)).toNat * 2 ^ 8) (2 ^ 32)

def applyGain (gain : ℕ) (v : ℤ) : ℤ :=
  if gain ≠ 65536 then
    let g := (v * gain) >>> (16 : ℕ)
    if g > INT32_MAX then INT32_MAX else if g < INT32_MIN then INT32_MIN else g
  else v

def storeSlot (p : Packet) (gain row src : ℕ) (mem : Words) (s : ℕ) : Words :=
  if 0 ≤ p.slotToCh s ∧ p.slotToCh s < AP_NCH then
    Function.update mem (row + AP_OUT_SLOT (p.slotToCh s).toNat) (applyGain gain (word24 p.be24 (src + s * 3)))
  else mem

/-- The open run of rows to write back. -/
structure Seg where
  row : ℕ
  n : ℕ

def syncOut (seg : Option Seg) (log : List (ℕ × ℕ)) : List (ℕ × ℕ) :=
  match seg with
  | some g => if g.n ≠ 0 then log ++ [(g.row, g.n)] else log
  | none => log

/-- Extend the open run by `row`, or close it and open another. -/
def segAdd (row : ℕ) (st : Option Seg × List (ℕ × ℕ)) : Option Seg × List (ℕ × ℕ) :=
  match st.1 with
  | some g =>
    if row = g.row + g.n * AP_NCH then (some { g with n := g.n + 1 }, st.2)
    else (some { row := row, n := 1 }, syncOut st.1 st.2)
  | none => (some { row := row, n := 1 }, st.2)

/-- One frame of the packet: skipped when it is already behind the read head. -/
def storeFrame (sn : Snap) (p : Packet) (st : JitterBuf × Option Seg) (f : ℕ) : JitterBuf × Option Seg :=
  let a := p.firstIdx + f
  if a < sn.readA then st
  else
    let jb := st.1
    let row := jb.row (a + sn.off)
    let sg := segAdd row (st.2, jb.synced)
    ({ jb with
        mem := (List.range p.nslots).foldl (storeSlot p jb.gainQ16 row (f * (p.nslots * 3))) jb.mem
        synced := sg.2 }, sg.1)

def jbWriteStore (sn : Snap) (p : Packet) (jb : JitterBuf) : JitterBuf :=
  let st := (List.range p.nframes).foldl (storeFrame sn p) (jb, none)
  { st.1 with synced := syncOut st.2 st.1.synced }

/-- The locked end of `jb_write`. -/
def jbWritePublish (p : Packet) (jb : JitterBuf) : JitterBuf :=
  let stop := p.firstIdx + p.nframes
  { jb with
    rxHead := if stop - jb.rxHead > 0 then stop else jb.rxHead
    st := { jb.st with pktWritten := u32 (jb.st.pktWritten + 1) } }

def jbWrite (hz : ℕ) (now : ℤ) (p : Packet) (jb : JitterBuf) : JitterBuf × Bool :=
  match jbWriteBegin hz now p jb with
  | (jb, none) => (jb, false)
  | (jb, some sn) => (jbWritePublish p (jbWriteStore sn p jb), true)

end Inferno
