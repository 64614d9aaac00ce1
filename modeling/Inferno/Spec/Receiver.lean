import Inferno.Spec.AudioRx
import Inferno.Spec.Dac

/-! The whole way of a sample, from a frame on the wire to a word the DAC plays: the receive
flows of `aoip_rx.c` over the jitter buffer and the DMA that plays it. -/

namespace Inferno

structure Receiver where
  rx : AoipRx
  out : Player

/-- The subscriber's calls, what comes off the wire, and what moves or scales the ring. -/
inductive ReceiverEvent where
  | bind (i : Fin AP_MAX_FLOWS) (nslots : ℕ) (map : ℕ → ℤ) (fpp : ℕ) (ok : Bool)
  | remap (i : Fin AP_MAX_FLOWS) (nslots : ℕ) (map : ℕ → ℤ)
  | unbind (i : Fin AP_MAX_FLOWS)
  | fastPath (on : Bool)
  | frame (f : Frame) (now : Option ℕ) (us : ℤ)
  | socket (i : Fin AP_MAX_FLOWS) (sip : List UInt8) (sport : ℕ) (buf : Mem) (len : ℕ) (now : Option ℕ) (us : ℤ)
  | fetch (n : ℕ)
  | isr (adv : ℕ) (t : ℤ)
  | anchor (m : Anchoring)
  | gain (level : ℤ → ℕ) (db : ℤ)
  | mute (level : ℤ → ℕ) (on : Bool)

/-- What the receive path leaves of the flows and the buffer. -/
def Receiver.ingest (s : Receiver) (p : AoipRx × JitterBuf) : Receiver := { rx := p.1, out := s.out.withJb p.2 }

/-- The run of calls that do not overlap: each call of the subscriber, packet, anchoring or
gain change takes effect as a whole. Between them the DMA reads on, and its interrupts come
when they come. -/
def receiverStep (hz : ℕ) (s : Receiver) : ReceiverEvent → Receiver
  | .bind i nslots map fpp ok => { s with rx := s.rx.setFlow i (aoipRxBindFlow i nslots map fpp ok (s.rx.flows i)).1 }
  | .remap i nslots map => { s with rx := s.rx.setFlow i (aoipRxRemapFlow nslots map (s.rx.flows i)).1 }
  | .unbind i => { s with rx := s.rx.setFlow i (aoipRxUnbindFlow (s.rx.flows i)) }
  | .fastPath on => { s with rx := { s.rx with fast := on } }
  | .frame f now us => s.ingest (audioInput hz now us f s.rx s.out.dac.jb).1
  | .socket i sip sport buf len now us => s.ingest (socketInput hz now us i sip sport buf len s.rx s.out.dac.jb)
  | .fetch n => { s with out := s.out.fetch n }
  | .isr adv t => { s with out := s.out.step hz (.dac (.isr adv t)) }
  | .anchor m => { s with out := s.out.anchor hz m }
  | .gain level db => { s with out := s.out.step hz (.dac (.gain level db)) }
  | .mute level on => { s with out := s.out.step hz (.dac (.mute level on)) }

/-- How a flow's packets are laid out and where their slots go. -/
structure FlowLayout where
  nslots : ℕ
  slotToCh : ℕ → ℤ
  fpp : ℕ

def routeStep (t : Fin AP_MAX_FLOWS → Option FlowLayout) : ReceiverEvent → Fin AP_MAX_FLOWS → Option FlowLayout
  | .bind i nslots map fpp ok =>
    if nslots = 0 ∨ nslots > AP_MAX_CH_PER_FLOW then t
    else Function.update t i (if ok then some ⟨nslots, fun k => if k < nslots then map k else -1, fpp⟩ else none)
  | .remap i nslots map =>
    if nslots = 0 ∨ nslots > AP_MAX_CH_PER_FLOW then t
    else Function.update t i
      ((t i).map fun y => { y with nslots := nslots, slotToCh := fun k => if k < nslots then map k else -1 })
  | .unbind i => Function.update t i none
  | _ => t

/-- The layouts the subscriber's calls of a run leave in force. -/
def routed (l : List ReceiverEvent) : Fin AP_MAX_FLOWS → Option FlowLayout := l.foldl routeStep fun _ => none

/-- The audio packet an event brings: its flow, the time, and the parsed header. -/
def ReceiverEvent.brings (fast : Bool) : ReceiverEvent → Option (Fin AP_MAX_FLOWS × ℤ × AudioHdr)
  | .frame f _ us =>
    if fast then do
      let r ← isAudioFrame f AOIP_RX_AUDIO_PORT AP_MAX_FLOWS
      let i ← flowOfPort r.dport
      let h ← aoipAudioParse (fun k => f.mem (r.payload + k)) r.plen
      return (i, us, h)
    else none
  | .socket i _ _ buf len _ us => if len = 0 then none else (aoipAudioParse buf len).map fun h => (i, us, h)
  | _ => none

def FlowLayout.packet (hz : ℕ) (y : FlowLayout) (h : AudioHdr) : Packet :=
  ⟨aoipTsToSamples h.seconds h.subsecSamples hz, y.fpp, y.nslots, y.slotToCh, h.samples⟩

def FlowLayout.Fits (y : FlowLayout) (h : AudioHdr) : Prop := y.nslots ≠ 0 ∧ h.sampleBytes = y.nslots * 3 * y.fpp

instance (y : FlowLayout) (h : AudioHdr) : Decidable (y.Fits h) := inferInstanceAs (Decidable (_ ∧ _))

end Inferno
