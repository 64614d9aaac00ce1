import Inferno.Lib.Checked
import Inferno.Spec.AudioRx

/-! The audio ingest path once more, with every fetch, table index, division and store
checked before it is made. Nothing else differs from `AudioRx` and `JitterBuf`; `n` is
how many sample bytes a payload holds. -/

namespace Inferno

open Lib

inductive Fault where
  | frame (i : ℕ)
  | payload (i : ℕ)
  | mapEntry (s : ℕ)
  | divide
  | buffer (k : ℕ)
  | channel (c : ℕ)
  | store (x : ℕ)
  deriving DecidableEq, Repr

def isAudioFrameC (f : Frame) (lo n : ℕ) : Except Fault (Option AudioRef) :=
  if f.len < 14 + 20 + 8 then .ok none
  else do
    let b12 ← fetch (.frame 12) f.len 12 1 (f.mem 12)
    let b13 ← fetch (.frame 13) f.len 13 1 (f.mem 13)
    if b12 ≠ 0x08 ∨ b13 ≠ 0x00 then .ok none
    else do
      let ip0 ← fetch (.frame 14) f.len 14 1 f.ip0
      let proto ← fetch (.frame (14 + 9)) f.len (14 + 9) 1 (f.mem (14 + 9)).toNat
      if ip0 >>> 4 ≠ 4 ∨ proto ≠ 17 then .ok none
      else do
        let frag ← fetch (.frame (14 + 6)) f.len (14 + 6) 2 (dwRd16 f.mem (14 + 6))
        if frag &&& 0x3FFF ≠ 0 then .ok none
        else if f.udp + 8 > f.len then .ok none
        else do
          let dport ← fetch (.frame (f.udp + 2)) f.len (f.udp + 2) 2 f.dport
          if u16 (dport + 2 ^ 16 - lo) ≥ n then .ok none
          else do
            let ulen ← fetch (.frame (f.udp + 4)) f.len (f.udp + 4) 2 f.ulen
            if ulen < 8 ∨ f.udp + ulen > f.len then .ok none
            else do
              let sip ← fetch (.frame (14 + 12)) f.len (14 + 12) 4 (bytesAt f.mem (14 + 12) 4)
              let sport ← fetch (.frame f.udp) f.len f.udp 2 (dwRd16 f.mem f.udp)
              .ok (some { sipBe := sip, sport := sport, dport := dport, payload := f.udp + 8, plen := ulen - 8 })

def aoipAudioParseC (p : Mem) (len : ℕ) : Except Fault (Option AudioHdr) :=
  if len < AOIP_AUDIO_HDR_LEN + 3 then .ok none
  else do
    let magic ← fetch (.payload 0) len 0 1 (p 0)
    if magic ≠ AOIP_AUDIO_MAGIC then .ok none
    else do
      let seconds ← fetch (.payload 1) len 1 4 (dwRd32 p 1)
      let subsec ← fetch (.payload 5) len 5 4 (dwRd32 p 5)
      .ok (some
        { seconds := seconds, subsecSamples := subsec
          samples := fun i => p (AOIP_AUDIO_HDR_LEN + i), sampleBytes := len - AOIP_AUDIO_HDR_LEN })

def storeSlotC (jb : JitterBuf) (p : Packet) (n gain k row src : ℕ) (mem : Words) (s : ℕ) : Except Fault Words := do
  let ch ← checked (.mapEntry s) (s < AP_MAX_CH_PER_FLOW) (p.slotToCh s)
  if 0 ≤ ch ∧ ch < AP_NCH then do
    let v ← fetch (.payload (src + s * 3)) n (src + s * 3) 3 (word24 p.be24 (src + s * 3))
    let x := row + AP_OUT_SLOT ch.toNat
    checked (.store x) (jb.inBuf (jb.buf k) x) (Function.update mem x (applyGain gain v))
  else .ok mem

def storeFrameC (sn : Snap) (p : Packet) (n : ℕ) (st : JitterBuf × Option Seg) (f : ℕ) :
    Except Fault (JitterBuf × Option Seg) :=
  let a := p.firstIdx + f
  if a < sn.readA then .ok st
  else do
    let jb := st.1
    let m := ((a + sn.off) % AP_RING_FRAMES).toNat
    let k ← checked .divide (jb.nbufs ≠ 0) ((m >>> jb.fshift) % jb.nbufs)
    let buf ← checked (.buffer k) (k < jb.mapped) (jb.buf k)
    let row := buf + (m &&& (jb.frames - 1)) * AP_NCH
    let sg := segAdd row (st.2, jb.synced)
    let mem ← (List.range p.nslots).foldlM (storeSlotC jb p n jb.gainQ16 k row (f * (p.nslots * 3))) jb.mem
    .ok ({ jb with mem := mem, synced := sg.2 }, sg.1)

def jbWriteC (hz : ℕ) (now : ℤ) (p : Packet) (n : ℕ) (jb : JitterBuf) : Except Fault (JitterBuf × Bool) :=
  match jbWriteBegin hz now p jb with
  | (jb, none) => .ok (jb, false)
  | (jb, some sn) => do
    let st ← (List.range p.nframes).foldlM (storeFrameC sn p n) (jb, none)
    .ok (jbWritePublish p { st.1 with synced := syncOut st.2 st.1.synced }, true)

def noteTimestampC (idx : ℤ) (nframes : ℕ) (fl : RxFlow) : Except Fault RxFlow := do
  let fl ← if fl.haveNext ∧ idx - fl.nextIdx > 0 then
      checked .divide (nframes ≠ 0) { fl with missed := u32 (fl.missed + missedGap idx fl.nextIdx nframes) }
    else .ok fl
  .ok (if !fl.haveNext ∨ idx - fl.nextIdx ≥ 0 then { fl with nextIdx := idx + nframes, haveNext := true } else fl)

def slotPeakC (samples : Mem) (n nframes nslots s pk : ℕ) : Except Fault ℕ :=
  (List.range nframes).foldlM (fun pk f => do
    let a ← fetch (.payload ((f * nslots + s) * 3)) n ((f * nslots + s) * 3) 3 (peak24 samples ((f * nslots + s) * 3))
    .ok (if a > pk then a else pk)) pk

def meterSlotC (samples : Mem) (n nframes nslots : ℕ) (map : ℕ → ℤ) (rx : AoipRx) (s : ℕ) : Except Fault AoipRx := do
  let m ← checked (.mapEntry s) (s < AP_MAX_CH_PER_FLOW) (map s)
  if m < 0 ∨ m ≥ AP_NCH then .ok rx
  else do
    let ch ← checked (.channel m.toNat) (m.toNat < AP_NCH) m.toNat
    let pk ← slotPeakC samples n nframes nslots s (rx.peakIn ch)
    .ok { rx with
      peakIn := Function.update rx.peakIn ch pk
      peakHb := if pk > rx.peakHb ch then Function.update rx.peakHb ch pk else rx.peakHb }

def takePacketC (hz : ℕ) (now : Option ℕ) (us : ℤ) (i : Fin AP_MAX_FLOWS) (h : AudioHdr) (rx : AoipRx)
    (jb : JitterBuf) : Except Fault (AoipRx × JitterBuf) := do
  let fl := rx.flows i
  let idx : ℤ := aoipTsToSamples h.seconds h.subsecSamples hz
  let rx := noteLatency hz now i idx rx
  let noted ← noteTimestampC idx fl.fpp fl
  let w ← jbWriteC hz us ⟨idx, fl.fpp, fl.nslots, fl.slotToCh, h.samples⟩ h.sampleBytes jb
  let noted := if !w.2 then { noted with missed := u32 (noted.missed + 1) } else noted
  let rx ← (List.range fl.nslots).foldlM (meterSlotC h.samples h.sampleBytes fl.fpp fl.nslots fl.slotToCh) rx
  let rx := rx.setFlow i { noted with packets := u32 (noted.packets + 1) }
  .ok ({ rx with st := { rx.st with packets := u32 (rx.st.packets + 1) } }, w.1)

def handlePacketC (hz : ℕ) (now : Option ℕ) (us : ℤ) (i : Fin AP_MAX_FLOWS) (buf : Mem) (len : ℕ) (rx : AoipRx)
    (jb : JitterBuf) : Except Fault (AoipRx × JitterBuf) := do
  match ← aoipAudioParseC buf len with
  | none =>
    if len < AOIP_AUDIO_HDR_LEN + 3 then
      .ok ({ rx with st := { rx.st with shortPkt := u32 (rx.st.shortPkt + 1) } }, jb)
    else .ok ({ rx with st := { rx.st with badMagic := u32 (rx.st.badMagic + 1) } }, jb)
  | some h =>
    let perFrame := (rx.flows i).nslots * 3
    if perFrame = 0 ∨ h.sampleBytes ≠ perFrame * (rx.flows i).fpp then
      .ok ({ rx with st := { rx.st with wrongLen := u32 (rx.st.wrongLen + 1) } }, jb)
    else takePacketC hz now us i h rx jb

def fastInputC (hz : ℕ) (now : Option ℕ) (us : ℤ) (r : AudioRef) (payload : Mem) (len : ℕ) (rx : AoipRx)
    (jb : JitterBuf) : Except Fault ((AoipRx × JitterBuf) × Bool) :=
  if !rx.fast then .ok ((rx, jb), false)
  else
    match flowOfPort r.dport with
    | none => .ok ((rx, jb), false)
    | some i =>
      if !(rx.flows i).active || !(rx.flows i).sock then
        .ok (({ rx with st := { rx.st with strayPackets := u32 (rx.st.strayPackets + 1) } }, jb), true)
      else do
        let p ← handlePacketC hz now us i payload len (noteSource i r rx) jb
        .ok (({ p.1 with st := { p.1.st with fastPackets := u32 (p.1.st.fastPackets + 1) } }, p.2), true)

def audioInputC (hz : ℕ) (now : Option ℕ) (us : ℤ) (f : Frame) (rx : AoipRx) (jb : JitterBuf) :
    Except Fault ((AoipRx × JitterBuf) × Bool) := do
  match ← isAudioFrameC f AOIP_RX_AUDIO_PORT AP_MAX_FLOWS with
  | none => .ok ((rx, jb), false)
  | some r => fastInputC hz now us r (fun k => f.mem (r.payload + k)) r.plen rx jb

end Inferno
