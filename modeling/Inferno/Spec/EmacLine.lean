import Inferno.Lib.RingQueue
import Inferno.Lib.Simulation
import Inferno.Spec.EmacDma

/-! The receive path from the line to the stack: a DMA that stores frames in ring order,
a piece of `CONFIG_ETH_DMA_BUFFER_SIZE` to a descriptor, the receive interrupt, and the
receive task. -/

namespace Inferno

open Lib

/-- A frame as the DMA stores it: its bytes with the CRC, the error summary, and the
time stamp, if one was taken. -/
structure RxFrame where
  bytes : List UInt8
  err : Bool
  stamp : Option (ℕ × ℕ)
  deriving DecidableEq

namespace RxFrame

def descs (f : RxFrame) : ℕ := (f.bytes.length - 1) / CONFIG_ETH_DMA_BUFFER_SIZE + 1

/-- What the DMA can bring: undersized frames are not forwarded, and `FrameLength` has 14 bits. -/
def Forwarded (f : RxFrame) : Prop := (f.err = false → 64 ≤ f.bytes.length) ∧ f.bytes.length < 2 ^ 14

def piece (f : RxFrame) (k : ℕ) : List UInt8 :=
  (f.bytes.drop (CONFIG_ETH_DMA_BUFFER_SIZE * k)).take CONFIG_ETH_DMA_BUFFER_SIZE

/-- Piece `k` stored in a descriptor. The status is written with the last piece, and
behind a short piece the buffer keeps what it held. -/
def store (f : RxFrame) (k : ℕ) (d : RxDesc) : RxDesc where
  own := .cpu
  firstDescriptor := k == 0
  lastDescriptor := k + 1 == f.descs
  errSummary := k + 1 == f.descs && f.err
  frameLength := if k + 1 = f.descs then f.bytes.length else CONFIG_ETH_DMA_BUFFER_SIZE * (k + 1)
  buffer := f.piece k ++ d.buffer.drop (f.piece k).length
  stamp := if k + 1 = f.descs then f.stamp else none

/-- What the stack is handed of the frame, `malloc` having answered `ok`: a good frame
without its CRC, if it is no longer than a packet can be. -/
def deliver (f : RxFrame) (ok : Bool) : Option (List UInt8 × (ℕ × ℕ)) :=
  if f.err = false ∧ ok = true ∧ f.bytes.length - ETH_CRC_LENGTH ≤ ETH_MAX_PACKET_SIZE then
    some (f.bytes.take (f.bytes.length - ETH_CRC_LENGTH), f.stamp.getD (0, 0))
  else none

end RxFrame

/-- The driver and the hardware around it: the DMA's own descriptor pointer, the frame
that is coming in with the pieces of it stored so far, and the receive interrupt. -/
structure RxLine (n : ℕ) where
  emac : Emac n
  fill : Fin n
  air : Option (RxFrame × ℕ)
  irq : Bool

/-- What is seen of the line: a frame stored to its end, what `malloc` answered, and a
frame handed to the stack. -/
inductive LineAct where
  | stored (f : RxFrame)
  | malloc (ok : Bool)
  | stackInput (frame : List UInt8) (stamp : ℕ × ℕ)

section

variable {n : ℕ}

def EmacAct.seen : EmacAct n → Option LineAct
  | .malloc ok => some (.malloc ok)
  | .stackInput frame stamp => some (.stackInput frame stamp)
  | _ => none

/-- The DMA stores piece `k` in its descriptor; the last one raises the interrupt. -/
def storePiece (f : RxFrame) (k : ℕ) (L : RxLine n) : RxLine n where
  emac := { L.emac with ring := Function.update L.emac.ring L.fill (f.store k (L.emac.ring L.fill)) }
  fill := nextDesc L.fill
  air := if k + 1 = f.descs then none else some (f, k + 1)
  irq := L.irq || (k + 1 == f.descs)

/-- `emac_isr_default_handler`: the status is cleared and the task notified. -/
def emac_isr (L : RxLine n) : RxLine n := { L with emac := { L.emac with notified := true }, irq := false }

/-- One step: a frame starts, a piece of it is stored in a descriptor the DMA owns, the
interrupt is served, or the task runs. -/
inductive LineStep (early : Bool) : RxLine n → Option LineAct → RxLine n → Prop where
  | arrive {L : RxLine n} (f : RxFrame) (h : L.air = none) (hf : f.Forwarded) :
      LineStep early L none { L with air := some (f, 0) }
  | store {L : RxLine n} {f : RxFrame} {k : ℕ} (h : L.air = some (f, k)) (hown : (L.emac.ring L.fill).own = .dma) :
      LineStep early L (if k + 1 = f.descs then some (.stored f) else none) (storePiece f k L)
  | isr {L : RxLine n} (h : L.irq = true) : LineStep early L none (emac_isr L)
  | task {L : RxLine n} {s : Emac n} {l : Option (EmacAct n)} (ok : Bool) (h : rxTaskStep early ok L.emac = some (s, l)) :
      LineStep early L (l.bind EmacAct.seen) { L with emac := s }

/-- `emac_esp_dma_reset`, the task waiting and nothing on the line: the descriptors are
the DMA's, and both sides start at the first. -/
def emac_esp_dma_reset [NeZero n] (ring : Fin n → RxDesc) : RxLine n where
  emac :=
    { ring := fun i => { ring i with own := .dma }, rxDesc := slot n 0, framesRemain := 0, freeRxDescriptor := 0,
      notified := false, pc := .block }
  fill := slot n 0
  air := none
  irq := false

def stored : List LineAct → List RxFrame := List.filterMap fun
  | .stored f => some f
  | _ => none

def answered : List LineAct → List Bool := List.filterMap fun
  | .malloc ok => some ok
  | _ => none

def handedUp : List LineAct → List (List UInt8 × (ℕ × ℕ)) := List.filterMap fun
  | .stackInput frame stamp => some (frame, stamp)
  | _ => none

theorem stored_append (l l' : List LineAct) : stored (l ++ l') = stored l ++ stored l' := List.filterMap_append

theorem answered_append (l l' : List LineAct) : answered (l ++ l') = answered l ++ answered l' := List.filterMap_append

theorem handedUp_append (l l' : List LineAct) : handedUp (l ++ l') = handedUp l ++ handedUp l' := List.filterMap_append

end

theorem nextDesc_slot {n : ℕ} [NeZero n] (k : ℕ) : nextDesc (slot n k) = slot n (k + 1) :=
  Fin.ext (by simp [nextDesc, slot, Nat.add_mod])

/-- The line is the driver with a DMA that keeps to its descriptors. -/
theorem LineStep.emac {n : ℕ} {early : Bool} {L L' : RxLine n} {l : Option LineAct} (h : LineStep early L l L') :
    L'.emac = L.emac ∨ ∃ l', EmacStep early L.emac l' L'.emac := by
  cases h with
  | arrive => exact Or.inl rfl
  | @store f k hair hown =>
    refine Or.inr ⟨_, EmacStep.dma _ _ fun i hi => ?_⟩
    refine Function.update_of_ne (fun heq => ?_) _ _
    rw [heq, hown] at hi
    exact DescOwner.noConfusion hi
  | isr => exact Or.inr ⟨_, EmacStep.notify _⟩
  | task ok h => exact Or.inr ⟨_, EmacStep.task ok h⟩

end Inferno
