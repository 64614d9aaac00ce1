import Inferno.Spec.EmacLine

/-! The transmit side of the Ethernet driver: `emac_esp_dma_transmit_frame` for the network
stack and `emac_esp_dma_transmit_frame_ext` for the PTP slave's stamped frames, one
descriptor access a step, with the DMA sending between any two of them. The transmit
mutex is on (`CONFIG_ETH_TRANSMIT_MUTEX`): one call at a time works on the ring. -/

namespace Inferno

open Lib

/-- A transmit descriptor: the fields of `TDES0` and `TDES1` that cut the frame, and the buffer. -/
structure TxDesc where
  own : DescOwner
  firstSegment : Bool
  lastSegment : Bool
  transmitBuffer1Size : ℕ
  buffer : List UInt8

/-- Where the call that holds the mutex is. `fill` and `fillExt` are the loops that copy
into the descriptors, `args` and `buf` what they were called with; `give` is the loop that
hands the descriptors over, for a frame whose caller will be told `ok`. -/
inductive TxPc (n : ℕ) where
  | idle
  | fill (descIter : Fin n) (i bufcount lastlen : ℕ) (buf : List UInt8) (sentout : ℕ)
  | fillExt (descIter : Fin n) (dmaBufcount : ℕ) (buffs args : List (List UInt8)) (sentout : ℕ)
  | give (i count : ℕ) (frame : List UInt8) (sentout : ℕ)

/-- The ring of `n` descriptors (`CONFIG_ETH_DMA_TX_BUFFER_NUM`), the driver's pointer and
place, and on the hardware's side its own pointer and what it has fetched of a frame. -/
structure TxLine (n : ℕ) where
  ring : Fin n → TxDesc
  txDesc : Fin n
  pc : TxPc n
  dmaDesc : Fin n
  fetched : List UInt8

/-- What is seen: a caller told whether its frame was sent, and a frame on the wire. -/
inductive TxAct where
  | ret (frame : List UInt8) (ok : Bool)
  | wire (frame : List UInt8)

/-- The first loop of `emac_esp_dma_transmit_frame`: the buffers to use and the length in the last. -/
def txBufs (lastlen bufcount : ℕ) : ℕ × ℕ :=
  if lastlen > CONFIG_ETH_DMA_BUFFER_SIZE then txBufs (lastlen - CONFIG_ETH_DMA_BUFFER_SIZE) (bufcount + 1)
  else (if lastlen ≠ 0 then bufcount + 1 else bufcount, lastlen)
termination_by lastlen
decreasing_by
  simp only [CONFIG_ETH_DMA_BUFFER_SIZE] at *
  omega

/-- The inner loop of `emac_esp_dma_transmit_frame_ext`: what goes into one descriptor with
`avail` bytes left, and the buffers that remain, the first of them from `ptr` on. -/
def packDesc (avail : ℕ) (desc : List UInt8) : List (List UInt8) → List UInt8 × List (List UInt8)
  | [] => (desc, [])
  | ptr :: buffs =>
    if ptr.length < avail then packDesc (avail - ptr.length) (desc ++ ptr) buffs
    else (desc ++ ptr.take avail, if ptr.length - avail > 0 then ptr.drop avail :: buffs else buffs)

/-- A descriptor filled by the CPU, its size programmed and its buffer written over. -/
def TxDesc.fill (d : TxDesc) (first last : Bool) (bytes : List UInt8) : TxDesc :=
  { d with
    firstSegment := first
    lastSegment := last
    transmitBuffer1Size := bytes.length
    buffer := bytes ++ d.buffer.drop bytes.length }

section

variable {n : ℕ}

/-- A call that gets the mutex: `esp_eth_transmit` with the frame, or
`esp_eth_transmit_ctrl_vargs` with the buffers that make it up. -/
inductive TxCall where
  | transmit (buf : List UInt8)
  | ctrlVargs (buffs : List (List UInt8))

def TxCall.frame : TxCall → List UInt8
  | .transmit buf => buf
  | .ctrlVargs buffs => buffs.flatten

/-- What the callers promise: `esp_eth_transmit` refuses an empty frame, and the stamped
frame is neither empty nor larger than the ring. -/
def TxCall.Legal (n : ℕ) (c : TxCall) : Prop :=
  c.frame ≠ [] ∧ ∀ buffs, c = .ctrlVargs buffs → c.frame.length < CONFIG_ETH_DMA_BUFFER_SIZE * n

/-- The call up to its first loop over descriptors, or its refusal. -/
def txCall (c : TxCall) (s : TxLine n) : TxLine n × Option TxAct :=
  match c with
  | .transmit buf =>
    let (bufcount, lastlen) := txBufs buf.length 0
    if bufcount > n then (s, some (.ret buf false))
    else ({ s with pc := .fill s.txDesc 0 bufcount lastlen buf 0 }, none)
  | .ctrlVargs buffs => ({ s with pc := .fillExt s.txDesc 0 buffs buffs 0 }, none)

def txStep (s : TxLine n) : Option (TxLine n × Option TxAct) :=
  match s.pc with
  | .idle => none
  | .fill iter i bufcount lastlen buf sentout =>
    if i < bufcount then
      if (s.ring iter).own ≠ .cpu then some ({ s with pc := .idle }, some (.ret buf (0 == buf.length)))
      else
        let last := i + 1 == bufcount
        let size := if last then lastlen else CONFIG_ETH_DMA_BUFFER_SIZE
        let bytes := (buf.drop (i * CONFIG_ETH_DMA_BUFFER_SIZE)).take size
        some ({ s with
          ring := Function.update s.ring iter ((s.ring iter).fill (i == 0) last bytes)
          pc := .fill (nextDesc iter) (i + 1) bufcount lastlen buf (sentout + size) }, none)
    else some ({ s with pc := .give 0 bufcount buf sentout }, none)
  | .fillExt iter dmaBufcount buffs args sentout =>
    if dmaBufcount < n then
      if (s.ring iter).own ≠ .cpu then
        some ({ s with pc := .idle }, some (.ret args.flatten (0 == args.flatten.length)))
      else
        let (bytes, rest) := packDesc CONFIG_ETH_DMA_BUFFER_SIZE [] buffs
        let ring := Function.update s.ring iter ((s.ring iter).fill (dmaBufcount == 0) rest.isEmpty bytes)
        if rest.isEmpty then
          some ({ s with ring := ring, pc := .give 0 (dmaBufcount + 1) args.flatten (sentout + bytes.length) }, none)
        else
          some ({ s with
            ring := ring
            pc := .fillExt (nextDesc iter) (dmaBufcount + 1) rest args (sentout + bytes.length) }, none)
    else some ({ s with pc := .give 0 dmaBufcount args.flatten sentout }, none)
  | .give i count frame sentout =>
    if i < count then
      some ({ s with
        ring := Function.update s.ring s.txDesc { s.ring s.txDesc with own := .dma }
        txDesc := nextDesc s.txDesc
        pc := .give (i + 1) count frame sentout }, none)
    else some ({ s with pc := .idle }, some (.ret frame (sentout == frame.length)))

/-- The DMA fetches the descriptor it is at, sends the frame that ends with it, and hands
the descriptor back. -/
def dmaFetch (s : TxLine n) : TxLine n × Option TxAct :=
  let d := s.ring s.dmaDesc
  let fetched := (if d.firstSegment then [] else s.fetched) ++ d.buffer.take d.transmitBuffer1Size
  ({ s with
    ring := Function.update s.ring s.dmaDesc { d with own := .cpu }
    dmaDesc := nextDesc s.dmaDesc
    fetched := if d.lastSegment then [] else fetched },
    if d.lastSegment then some (.wire fetched) else none)

/-- One step: a call gets the mutex, goes on, or is turned away with the link down or the
mutex not to be had; or the DMA fetches a descriptor it owns. -/
inductive TxStep : TxLine n → Option TxAct → TxLine n → Prop where
  | call {s : TxLine n} (c : TxCall) (hc : c.Legal n) (h : s.pc = .idle) : TxStep s (txCall c s).2 (txCall c s).1
  | turnedAway {s : TxLine n} (c : TxCall) : TxStep s (some (.ret c.frame false)) s
  | run {s s' : TxLine n} {l : Option TxAct} (h : txStep s = some (s', l)) : TxStep s l s'
  | dma {s : TxLine n} (h : (s.ring s.dmaDesc).own = .dma) : TxStep s (dmaFetch s).2 (dmaFetch s).1

/-- `emac_esp_dma_reset` for the transmit chain. -/
def txReset [NeZero n] (ring : Fin n → TxDesc) : TxLine n where
  ring := fun i => { ring i with own := .cpu }
  txDesc := slot n 0
  pc := .idle
  dmaDesc := slot n 0
  fetched := []

def acknowledged : List TxAct → List (List UInt8) := List.filterMap fun
  | .ret frame true => some frame
  | _ => none

def onWire : List TxAct → List (List UInt8) := List.filterMap fun
  | .wire frame => some frame
  | _ => none

theorem acknowledged_append (l l' : List TxAct) : acknowledged (l ++ l') = acknowledged l ++ acknowledged l' :=
  List.filterMap_append

theorem onWire_append (l l' : List TxAct) : onWire (l ++ l') = onWire l ++ onWire l' := List.filterMap_append

end

end Inferno
