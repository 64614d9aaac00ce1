import Inferno.Spec.Config

/-! The receive side of the Ethernet driver (`components/esp_eth`): the descriptor ring
the EMAC's DMA fills, and `emac_esp32_rx_task`, one descriptor access a step, with
the DMA writing and the interrupt notifying between any two of them. `early` is
the patch of `emac_esp_dma_get_remain_frames`; soft flow control is off. -/

namespace Inferno

def CONFIG_ETH_DMA_BUFFER_SIZE : ℕ := 1600
def ETH_CRC_LENGTH : ℕ := 4
/-- Header, VLAN tag, payload and CRC. -/
def ETH_MAX_PACKET_SIZE : ℕ := 14 + 4 + 1500 + 4

inductive DescOwner where
  | cpu
  | dma
  deriving DecidableEq, Repr

/-- A receive descriptor: the fields of `RDES0` the driver reads, the buffer, and the
time stamp, if the hardware wrote one. -/
structure RxDesc where
  own : DescOwner
  firstDescriptor : Bool
  lastDescriptor : Bool
  errSummary : Bool
  frameLength : ℕ
  buffer : List UInt8
  stamp : Option (ℕ × ℕ)

/-- Where the receive task is. `validLen` is the loop of
`emac_esp_dma_get_valid_recv_len`, `alloc` the rest of `emac_esp_dma_alloc_recv_buf`,
`copy` and `rest` the loops of `emac_esp_dma_receive_frame`, `input` what the task does
with the frame, `flush` the loop of `emac_esp_dma_flush_recv_frame`, `walk` the one of
`emac_esp_dma_get_remain_frames`, and `test` the condition of the task's own loop. -/
inductive RxPc (n : ℕ) where
  | block
  | validLen (iter : Fin n) (used : ℕ)
  | alloc (retLen : ℕ)
  | copy (iter : Fin n) (frameLen recvLen copyLen : ℕ) (buf : List UInt8)
  | rest (iter : Fin n) (frameLen recvLen : ℕ) (buf : List UInt8)
  | input (frameLen recvLen : ℕ) (buf : List UInt8) (stamp : ℕ × ℕ)
  | flush (iter : Fin n)
  | walk (iter : Fin n) (used : ℕ)
  | test

/-- The ring of `n` descriptors (`CONFIG_ETH_DMA_RX_BUFFER_NUM`), the driver's fields,
the pending notification and the task's place. -/
structure Emac (n : ℕ) where
  ring : Fin n → RxDesc
  rxDesc : Fin n
  framesRemain : ℕ
  freeRxDescriptor : ℕ
  notified : Bool
  pc : RxPc n

/-- What is seen of the driver: the descriptors the DMA leaves, a notification, the task
waking up and blocking, what `malloc` answers, the poll demand to the hardware, and
the frames handed to the stack. -/
inductive EmacAct (n : ℕ) where
  | dma (ring : Fin n → RxDesc)
  | notify
  | wake
  | block
  | malloc (ok : Bool)
  | poll
  | stackInput (frame : List UInt8) (stamp : ℕ × ℕ)

section

variable {n : ℕ}

/-- `Buffer2NextDescAddr`: the last descriptor points to the first. -/
def nextDesc (iter : Fin n) : Fin n := ⟨(iter.val + 1) % n, Nat.mod_lt _ iter.pos⟩

/-- `emac_esp_dma_get_remain_frames` over a ring at rest: the frames counted and the
descriptors found free. -/
def getRemainFrames (early : Bool) (ring : Fin n → RxDesc) (iter : Fin n) (remain used : ℕ) : ℕ × ℕ :=
  if (ring iter).own = .cpu ∧ used < n then
    if (ring iter).lastDescriptor then
      if early then (remain + 1, n - (used + 1)) else getRemainFrames early ring (nextDesc iter) (remain + 1) (used + 1)
    else getRemainFrames early ring (nextDesc iter) remain (used + 1)
  else (remain, n - used)
termination_by n - used

def startWalk (s : Emac n) : Emac n := { s with framesRemain := 0, pc := .walk s.rxDesc 0 }

def giveBack (iter : Fin n) (s : Emac n) : Emac n :=
  { s with ring := Function.update s.ring iter { s.ring iter with own := .dma } }

/-- One step of `emac_esp32_rx_task`, and what is seen of it. `ok` is what `malloc`
answers, should it be asked; a blocked task has no step before it is notified. -/
def rxTaskStep (early ok : Bool) (s : Emac n) : Option (Emac n × Option (EmacAct n)) :=
  match s.pc with
  | .block =>
    if s.notified then some ({ s with notified := false, pc := .validLen s.rxDesc 0 }, some .wake) else none
  | .validLen iter used =>
    let d := s.ring iter
    if d.own = .cpu ∧ used < n then
      if d.lastDescriptor then
        if d.errSummary then some ({ s with pc := .flush s.rxDesc }, none)
        else some ({ s with pc := .alloc (u32 (d.frameLength + 2 ^ 32 - ETH_CRC_LENGTH)) }, none)
      else
        some ({ s with
          rxDesc := if d.firstDescriptor then iter else s.rxDesc
          pc := .validLen (nextDesc iter) (used + 1) }, none)
    else some ({ s with pc := .alloc 0 }, none)
  | .alloc retLen =>
    let copyLen := if retLen > ETH_MAX_PACKET_SIZE then ETH_MAX_PACKET_SIZE else retLen
    if copyLen > 0 then
      if ok then some ({ s with pc := .copy s.rxDesc retLen copyLen copyLen [] }, some (.malloc true))
      else some ({ s with pc := .flush s.rxDesc }, some (.malloc false))
    else some (startWalk s, none)
  | .copy iter frameLen recvLen copyLen buf =>
    let d := s.ring iter
    if copyLen > CONFIG_ETH_DMA_BUFFER_SIZE then
      some ({ giveBack iter s with
        pc := .copy (nextDesc iter) frameLen recvLen (copyLen - CONFIG_ETH_DMA_BUFFER_SIZE)
          (buf ++ d.buffer.take CONFIG_ETH_DMA_BUFFER_SIZE) }, none)
    else some ({ s with pc := .rest iter frameLen recvLen (buf ++ d.buffer.take copyLen) }, none)
  | .rest iter frameLen recvLen buf =>
    let d := s.ring iter
    if d.lastDescriptor then
      some ({ giveBack iter s with
        rxDesc := nextDesc iter
        pc := .input frameLen recvLen buf (d.stamp.getD (0, 0)) }, some .poll)
    else some ({ giveBack iter s with pc := .rest (nextDesc iter) frameLen recvLen buf }, none)
  | .input frameLen recvLen buf stamp =>
    if recvLen = 0 then some ({ s with pc := .flush s.rxDesc }, none)
    else if frameLen > recvLen then some (startWalk s, none)
    else some (startWalk s, some (.stackInput buf stamp))
  | .flush iter =>
    if (s.ring iter).lastDescriptor then some (startWalk { giveBack iter s with rxDesc := nextDesc iter }, some .poll)
    else some ({ giveBack iter s with pc := .flush (nextDesc iter) }, none)
  | .walk iter used =>
    let d := s.ring iter
    if d.own = .cpu ∧ used < n then
      if d.lastDescriptor then
        let s := { s with framesRemain := s.framesRemain + 1 }
        if early then some ({ s with freeRxDescriptor := n - (used + 1), pc := .test }, none)
        else some ({ s with pc := .walk (nextDesc iter) (used + 1) }, none)
      else some ({ s with pc := .walk (nextDesc iter) (used + 1) }, none)
    else some ({ s with freeRxDescriptor := n - used, pc := .test }, none)
  | .test =>
    if s.framesRemain ≠ 0 then some ({ s with pc := .validLen s.rxDesc 0 }, none)
    else some ({ s with pc := .block }, some .block)

/-- One step of the driver: the DMA writes descriptors it owns, its interrupt notifies
the task, or the task runs. -/
inductive EmacStep (early : Bool) : Emac n → Option (EmacAct n) → Emac n → Prop where
  | dma (s : Emac n) (ring : Fin n → RxDesc) (h : ∀ i, (s.ring i).own = .cpu → ring i = s.ring i) :
      EmacStep early s (some (.dma ring)) { s with ring := ring }
  | notify (s : Emac n) : EmacStep early s (some .notify) { s with notified := true }
  | task {s s' : Emac n} {l : Option (EmacAct n)} (ok : Bool) (h : rxTaskStep early ok s = some (s', l)) :
      EmacStep early s l s'

/-- The task runs on alone for `k` steps. `ok` is what `malloc` answers at each of them,
should it be asked. -/
def runOn (early : Bool) (ok : ℕ → Bool) : ℕ → Emac n → Emac n
  | 0, s => s
  | k + 1, s => runOn early (fun j => ok (j + 1)) k (((rxTaskStep early (ok 0) s).map Prod.fst).getD s)

end

end Inferno
