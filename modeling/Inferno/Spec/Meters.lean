import Inferno.Lib.PeakHold
import Inferno.Sanity.FlowTracking
import Inferno.Spec.AoipInfo

/-! The input meters of `aoip_rx.c`: packets raise them, a telemetry query and the heartbeat
each take theirs. -/

namespace Inferno

open Lib

def aoipRxTakePeaks (rx : AoipRx) : (ℕ → ℕ) × AoipRx :=
  (rx.peakIn, { rx with peakIn := fun c => if c < AP_NCH then 0 else rx.peakIn c })

/-- The receive path, and the two readers of its meters. -/
inductive MeterEvent where
  | flow (e : FlowEvent)
  | query
  | heartbeat

def meterStep (hz : ℕ) (s : RxSys) : MeterEvent → RxSys
  | .flow e => flowStep hz s e
  | .query => { s with rx := (aoipRxTakePeaks s.rx).2 }
  | .heartbeat => { s with rx := (aoipRxTakePeaksHb s.rx).2 }

def meterAt (hz : ℕ) (s : RxSys) (es : ℕ → MeterEvent) : ℕ → RxSys
  | 0 => s
  | k + 1 => meterStep hz (meterAt hz s es k) (es k)

def slotLoud (samples : Mem) (nframes nslots s : ℕ) : ℕ :=
  (Finset.range nframes).sup fun f => peak24 samples ((f * nslots + s) * 3)

/-- The loudest sample of a flow's packet on channel `c`; `none` where no slot goes there. -/
def soundOf (fl : RxFlow) (c : ℕ) (h : AudioHdr) : Option ℕ :=
  if ∃ s < fl.nslots, fl.slotToCh s = c then
    some ((Finset.range fl.nslots).sup fun s => if fl.slotToCh s = c then slotLoud h.samples fl.fpp fl.nslots s else 0)
  else none

/-- What an event of the receive path brings channel `c`. -/
def soundAt (s : RxSys) (c : ℕ) : FlowEvent → Option ℕ
  | .sys (.frame f _ _) =>
    match isAudioFrame f AOIP_RX_AUDIO_PORT AP_MAX_FLOWS with
    | none => none
    | some r => (flowOfPort r.dport).bind fun i =>
      if s.rx.fast ∧ (s.rx.flows i).active ∧ (s.rx.flows i).sock then
        (wellFormed (s.rx.flows i) (fun k => f.mem (r.payload + k)) r.plen).bind (soundOf (s.rx.flows i) c)
      else none
  | .socket i _ _ buf len _ _ =>
    if (s.rx.flows i).active ∧ (s.rx.flows i).sock ∧ len ≠ 0 then
      (wellFormed (s.rx.flows i) buf len).bind (soundOf (s.rx.flows i) c)
    else none
  | _ => none

def meterLog (hz : ℕ) (s : RxSys) (es : ℕ → MeterEvent) (c : ℕ) (k : ℕ) : HoldEvent ℕ :=
  match es k with
  | .flow e => .hear (soundAt (meterAt hz s es k) c e)
  | .query => .takeLive
  | .heartbeat => .takeCopy

end Inferno
