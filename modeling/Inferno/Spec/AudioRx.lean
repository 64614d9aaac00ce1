import Inferno.Spec.AoipRx
import Inferno.Spec.EthTs
import Inferno.Spec.JitterBuf

/-! The audio ingest path of `aoip_rx.c`: an audio frame taken off the receive path,
parsed, checked against its flow, written into the ring and metered. -/

namespace Inferno

def AOIP_AUDIO_MAGIC : UInt8 := 0x02
def AOIP_AUDIO_HDR_LEN : ℕ := 9

structure AudioHdr where
  seconds : ℕ
  subsecSamples : ℕ
  samples : Mem
  sampleBytes : ℕ

def aoipAudioParse (p : Mem) (len : ℕ) : Option AudioHdr :=
  if len < AOIP_AUDIO_HDR_LEN + 3 then none
  else if p 0 ≠ AOIP_AUDIO_MAGIC then none
  else some
    { seconds := dwRd32 p 1, subsecSamples := dwRd32 p 5
      samples := fun i => p (AOIP_AUDIO_HDR_LEN + i), sampleBytes := len - AOIP_AUDIO_HDR_LEN }

def aoipTsToSamples (seconds subsec rate : ℕ) : ℕ := seconds * rate + subsec

/-- The counters of `aoip_rx_stats_t` that the receive path keeps. -/
structure RxStats where
  packets : ℕ
  badMagic : ℕ
  shortPkt : ℕ
  wrongLen : ℕ
  latMaxSamples : ℤ
  fastPackets : ℕ
  strayPackets : ℕ
  srcOther : ℕ
  srcOtherIp : List UInt8
  srcOtherPort : ℕ
  deriving DecidableEq, Repr

/-- The statics of `aoip_rx.c`. Of each flow, the latched source and the running
latency maximum stand beside it. -/
structure AoipRx where
  flows : Fin AP_MAX_FLOWS → RxFlow
  src : Fin AP_MAX_FLOWS → List UInt8 × ℕ
  latMax : Fin AP_MAX_FLOWS → ℤ
  peakIn : ℕ → ℕ
  peakHb : ℕ → ℕ
  st : RxStats
  fast : Bool
  kaNow : Bool
  srcNote : Bool

def aoipRxStart : AoipRx where
  flows := fun _ => RxFlow.zero
  src := fun _ => ([0, 0, 0, 0], 0)
  latMax := fun _ => 0
  peakIn := fun _ => 0
  peakHb := fun _ => 0
  st := ⟨0, 0, 0, 0, 0, 0, 0, 0, [0, 0, 0, 0], 0⟩
  fast := true
  kaNow := false
  srcNote := false

/-- The actual latency, kept as a running maximum; `now` where the clock answers. -/
def noteLatency (hz : ℕ) (now : Option ℕ) (i : Fin AP_MAX_FLOWS) (idx : ℤ) (rx : AoipRx) : AoipRx :=
  match now with
  | none => rx
  | some now =>
    let d : ℤ := now - idx
    let d := if d > (hz / 20 : ℕ) then 0 else d
    { rx with
      latMax := if d > rx.latMax i then Function.update rx.latMax i d else rx.latMax
      st := if d > rx.st.latMaxSamples then { rx.st with latMaxSamples := d } else rx.st }

def missedGap (idx next : ℤ) (nframes : ℕ) : ℕ :=
  let gap := (idx - next).toNat / nframes
  if gap > 1000 then 1000 else gap

def noteTimestamp (idx : ℤ) (nframes : ℕ) (fl : RxFlow) : RxFlow :=
  let fl := if fl.haveNext ∧ idx - fl.nextIdx > 0 then
      { fl with missed := u32 (fl.missed + missedGap idx fl.nextIdx nframes) }
    else fl
  if !fl.haveNext ∨ idx - fl.nextIdx ≥ 0 then { fl with nextIdx := idx + nframes, haveNext := true } else fl

def peak24 (p : Mem) (i : ℕ) : ℕ := (word24 p i >>> (8 : ℕ)).natAbs

/-- The highest sample of wire slot `s` over the packet. -/
def slotPeak (samples : Mem) (nframes nslots s pk : ℕ) : ℕ :=
  (List.range nframes).foldl (fun pk f =>
    let a := peak24 samples ((f * nslots + s) * 3)
    if a > pk then a else pk) pk

def meterSlot (samples : Mem) (nframes nslots : ℕ) (map : ℕ → ℤ) (rx : AoipRx) (s : ℕ) : AoipRx :=
  if map s < 0 ∨ map s ≥ AP_NCH then rx
  else
    let ch := (map s).toNat
    let pk := slotPeak samples nframes nslots s (rx.peakIn ch)
    { rx with
      peakIn := Function.update rx.peakIn ch pk
      peakHb := if pk > rx.peakHb ch then Function.update rx.peakHb ch pk else rx.peakHb }

def AoipRx.setFlow (rx : AoipRx) (i : Fin AP_MAX_FLOWS) (fl : RxFlow) : AoipRx :=
  { rx with flows := Function.update rx.flows i fl }

/-- A packet of the flow's own layout: latency, losses, the ring, the meters. -/
def takePacket (hz : ℕ) (now : Option ℕ) (us : ℤ) (i : Fin AP_MAX_FLOWS) (h : AudioHdr) (rx : AoipRx)
    (jb : JitterBuf) : AoipRx × JitterBuf :=
  let fl := rx.flows i
  let idx : ℤ := aoipTsToSamples h.seconds h.subsecSamples hz
  let rx := noteLatency hz now i idx rx
  let noted := noteTimestamp idx fl.fpp fl
  let w := jbWrite hz us ⟨idx, fl.fpp, fl.nslots, fl.slotToCh, h.samples⟩ jb
  let noted := if !w.2 then { noted with missed := u32 (noted.missed + 1) } else noted
  let rx := (List.range fl.nslots).foldl (meterSlot h.samples fl.fpp fl.nslots fl.slotToCh) rx
  let rx := rx.setFlow i { noted with packets := u32 (noted.packets + 1) }
  ({ rx with st := { rx.st with packets := u32 (rx.st.packets + 1) } }, w.1)

def handlePacket (hz : ℕ) (now : Option ℕ) (us : ℤ) (i : Fin AP_MAX_FLOWS) (buf : Mem) (len : ℕ) (rx : AoipRx)
    (jb : JitterBuf) : AoipRx × JitterBuf :=
  match aoipAudioParse buf len with
  | none =>
    if len < AOIP_AUDIO_HDR_LEN + 3 then
      ({ rx with st := { rx.st with shortPkt := u32 (rx.st.shortPkt + 1) } }, jb)
    else ({ rx with st := { rx.st with badMagic := u32 (rx.st.badMagic + 1) } }, jb)
  | some h =>
    let perFrame := (rx.flows i).nslots * 3
    if perFrame = 0 ∨ h.sampleBytes ≠ perFrame * (rx.flows i).fpp then
      ({ rx with st := { rx.st with wrongLen := u32 (rx.st.wrongLen + 1) } }, jb)
    else takePacket hz now us i h rx jb

/-- The source a flow's first packet came from, and one from elsewhere later. -/
def noteSource (i : Fin AP_MAX_FLOWS) (r : AudioRef) (rx : AoipRx) : AoipRx :=
  if !(rx.flows i).haveSrc then
    { rx.setFlow i { rx.flows i with haveSrc := true } with
      src := Function.update rx.src i (r.sipBe, r.sport), kaNow := true }
  else if (rx.src i).1 ≠ r.sipBe ∨ (rx.src i).2 ≠ r.sport then
    { rx with
      st := { rx.st with srcOther := u32 (rx.st.srcOther + 1), srcOtherIp := r.sipBe, srcOtherPort := r.sport }
      srcNote := true }
  else rx

def flowOfPort (dport : ℕ) : Option (Fin AP_MAX_FLOWS) :=
  let idx := u16 (dport + 2 ^ 16 - AOIP_RX_AUDIO_PORT)
  if h : idx < AP_MAX_FLOWS then some ⟨idx, h⟩ else none

def fastInput (hz : ℕ) (now : Option ℕ) (us : ℤ) (r : AudioRef) (payload : Mem) (len : ℕ) (rx : AoipRx)
    (jb : JitterBuf) : (AoipRx × JitterBuf) × Bool :=
  if !rx.fast then ((rx, jb), false)
  else
    match flowOfPort r.dport with
    | none => ((rx, jb), false)
    | some i =>
      if !(rx.flows i).active || !(rx.flows i).sock then
        (({ rx with st := { rx.st with strayPackets := u32 (rx.st.strayPackets + 1) } }, jb), true)
      else
        let p := handlePacket hz now us i payload len (noteSource i r rx) jb
        (({ p.1 with st := { p.1.st with fastPackets := u32 (p.1.st.fastPackets + 1) } }, p.2), true)

/-- One packet that `rx_task` drains from the socket of flow `i`. -/
def socketInput (hz : ℕ) (now : Option ℕ) (us : ℤ) (i : Fin AP_MAX_FLOWS) (sip : List UInt8) (sport : ℕ) (buf : Mem)
    (len : ℕ) (rx : AoipRx) (jb : JitterBuf) : AoipRx × JitterBuf :=
  if !(rx.flows i).active || !(rx.flows i).sock then (rx, jb)
  else if len = 0 then (rx, jb)
  else
    let rx :=
      if !(rx.flows i).haveSrc then
        { rx.setFlow i { rx.flows i with haveSrc := true } with
          src := Function.update rx.src i (sip, sport), kaNow := true }
      else rx
    handlePacket hz now us i buf len rx jb

/-- The audio branch of `stack_input_inner` with `fast_input` as its callback. -/
def audioInput (hz : ℕ) (now : Option ℕ) (us : ℤ) (f : Frame) (rx : AoipRx) (jb : JitterBuf) :
    (AoipRx × JitterBuf) × Bool :=
  match isAudioFrame f AOIP_RX_AUDIO_PORT AP_MAX_FLOWS with
  | none => ((rx, jb), false)
  | some r => fastInput hz now us r (fun k => f.mem (r.payload + k)) r.plen rx jb

structure RxSys where
  rx : AoipRx
  jb : JitterBuf

/-- What happens to them: the subscriber's calls, frames off the wire, and everything
that moves the ring. -/
inductive RxEvent where
  | bind (i : Fin AP_MAX_FLOWS) (nslots : ℕ) (map : ℕ → ℤ) (fpp : ℕ) (ok : Bool)
  | remap (i : Fin AP_MAX_FLOWS) (nslots : ℕ) (map : ℕ → ℤ)
  | unbind (i : Fin AP_MAX_FLOWS)
  | fastPath (on : Bool)
  | frame (f : Frame) (now : Option ℕ) (us : ℤ)
  | attach (nbufs : ℕ) (frames : ℕ+)
  | isr (p : ℕ) (t : ℤ)
  | reset (us playoutIdx : ℤ)
  | step (delta : ℤ)
  | gain (level : ℤ → ℕ) (db : ℤ)
  | mute (level : ℤ → ℕ) (on : Bool)

def rxStep (hz : ℕ) (s : RxSys) : RxEvent → RxSys
  | .bind i nslots map fpp ok =>
    { s with rx := s.rx.setFlow i (aoipRxBindFlow i nslots map fpp ok (s.rx.flows i)).1 }
  | .remap i nslots map => { s with rx := s.rx.setFlow i (aoipRxRemapFlow nslots map (s.rx.flows i)).1 }
  | .unbind i => { s with rx := s.rx.setFlow i (aoipRxUnbindFlow (s.rx.flows i)) }
  | .fastPath on => { s with rx := { s.rx with fast := on } }
  | .frame f now us =>
    let p := (audioInput hz now us f s.rx s.jb).1
    { rx := p.1, jb := p.2 }
  | .attach nbufs frames => { s with jb := jbAttachDma nbufs frames s.jb }
  | .isr p t => { s with jb := jbIsrSent p t s.jb }
  | .reset us playoutIdx => { s with jb := jbReset hz us playoutIdx s.jb }
  | .step delta => { s with jb := jbStepPlayout delta s.jb }
  | .gain level db => { s with jb := jbSetGainDb level db s.jb }
  | .mute level on => { s with jb := jbSetMute level on s.jb }

/-- The same with the socket path: `rx_task` reads a packet for flow `i`. -/
inductive FlowEvent where
  | sys (e : RxEvent)
  | socket (i : Fin AP_MAX_FLOWS) (sip : List UInt8) (sport : ℕ) (buf : Mem) (len : ℕ) (now : Option ℕ) (us : ℤ)

def flowStep (hz : ℕ) (s : RxSys) : FlowEvent → RxSys
  | .sys e => rxStep hz s e
  | .socket i sip sport buf len now us =>
    let p := socketInput hz now us i sip sport buf len s.rx s.jb
    { rx := p.1, jb := p.2 }

def jbStart (mem : Words) (gainDb : ℤ) (gainQ16 : ℕ) : JitterBuf where
  mem := mem
  buf := fun _ => 0
  nbufs := 0
  frames := 0
  fshift := 0
  mapped := 0
  ready := false
  nextK := 0
  dmaEnd := 0
  tIsr := 0
  off := 0
  anchored := false
  rxHead := 0
  st := ⟨0, 0, 0, 0, 0, 0, 0⟩
  gainQ16 := gainQ16
  gainDb := gainDb
  mute := false
  nvsGainDb := none
  synced := []

def rxRun (hz : ℕ) (mem : Words) (gainDb : ℤ) (gainQ16 : ℕ) (l : List RxEvent) : RxSys :=
  l.foldl (rxStep hz) ⟨aoipRxStart, jbStart mem gainDb gainQ16⟩

end Inferno
