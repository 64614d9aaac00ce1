import Inferno.Spec.Wire

/-! The receive hook of `eth_ts.c`: the two hand-written classifiers that look at
a frame before the IP stack does, and what the hook lifts out of it. -/

namespace Inferno

/-- A received frame: `len` bytes at `mem`, with the rest of memory behind them. -/
structure Frame where
  mem : Mem
  len : ℕ

/-- What `is_ptpv1_frame` hands back through its pointers. -/
structure PtpRef where
  payload : ℕ
  plen : ℕ
  dport : ℕ
  deriving DecidableEq, Repr

/-- What `is_audio_frame` hands back through its pointers. -/
structure AudioRef where
  sipBe : List UInt8
  sport : ℕ
  dport : ℕ
  payload : ℕ
  plen : ℕ
  deriving DecidableEq, Repr

def Frame.ip0 (f : Frame) : ℕ := (f.mem 14).toNat
def Frame.ihl (f : Frame) : ℕ := (f.ip0 &&& 0x0F) * 4
def Frame.udp (f : Frame) : ℕ := 14 + f.ihl
def Frame.dport (f : Frame) : ℕ := dwRd16 f.mem (f.udp + 2)
def Frame.ulen (f : Frame) : ℕ := dwRd16 f.mem (f.udp + 4)

def isPtpv1Frame (f : Frame) : Option PtpRef :=
  if f.len < 14 + 20 + 8 then none
  else if dwRd16 f.mem 12 ≠ 0x0800 then none
  else if f.ip0 >>> 4 ≠ 4 then none
  else if (f.mem (14 + 9)).toNat ≠ 17 then none
  else if dwRd32 f.mem (14 + 16) ≠ PTP1_GROUP_IP ∧ dwRd32 f.mem (14 + 16) ≠ PTP1_GROUP_IP + 1 then none
  else if f.udp + 8 > f.len then none
  else if f.dport ≠ PTP1_EVENT_PORT ∧ f.dport ≠ PTP1_GENERAL_PORT then none
  else if f.ulen < 8 then none
  else some { payload := f.udp + 8, plen := f.ulen - 8, dport := f.dport }

/-- IPv4/UDP, unfragmented, to a port in `[lo, lo + n)`; the destination address is not read. -/
def isAudioFrame (f : Frame) (lo n : ℕ) : Option AudioRef :=
  if f.len < 14 + 20 + 8 then none
  else if f.mem 12 ≠ 0x08 ∨ f.mem 13 ≠ 0x00 then none
  else if f.ip0 >>> 4 ≠ 4 ∨ (f.mem (14 + 9)).toNat ≠ 17 then none
  else if dwRd16 f.mem (14 + 6) &&& 0x3FFF ≠ 0 then none
  else if f.udp + 8 > f.len then none
  else if u16 (f.dport + 2 ^ 16 - lo) ≥ n then none
  else if f.ulen < 8 ∨ f.udp + f.ulen > f.len then none
  else some
    { sipBe := bytesAt f.mem (14 + 12) 4, sport := dwRd16 f.mem f.udp, dport := f.dport,
      payload := f.udp + 8, plen := f.ulen - 8 }

structure EthTsTime where
  seconds : ℕ
  nanoseconds : ℕ
  deriving DecidableEq, Repr

/-- `eth_ts_ptp_frame_t`: a PTP frame lifted off the receive path with its stamp. -/
structure EthTsPtpFrame where
  payload : List UInt8
  dstPort : ℕ
  ts : EthTsTime
  tsValid : Bool
  deriving DecidableEq, Repr

def EthTsPtpFrame.len (f : EthTsPtpFrame) : ℕ := f.payload.length

/-- `sizeof(eth_ts_ptp_frame_t.payload)`. -/
def PTP_PAYLOAD_CAP : ℕ := 128

/-- The driver writes an all-zero stamp when the descriptor carries none. -/
def extractRxTs (info : Option EthTsTime) : EthTsTime × Bool :=
  match info with
  | none => (⟨0, 0⟩, false)
  | some t => (t, t.seconds ≠ 0 ∨ t.nanoseconds ≠ 0)

/-- The number of payload bytes the hook copies for the PTP task. -/
def PtpRef.copyLen (r : PtpRef) : ℕ := if r.plen > PTP_PAYLOAD_CAP then PTP_PAYLOAD_CAP else r.plen

/-- What one frame makes the hook do: give the audio callback a payload, lift a
PTP frame, or neither. A consumed frame never reaches the stack. -/
structure StackResult where
  audio : Option (AudioRef × List UInt8)
  consumed : Bool
  ptp : Option EthTsPtpFrame
  deriving DecidableEq, Repr

/-- `stack_input_inner` with both callbacks registered. The audio callback answers
whether it takes the frame. -/
def stackInputInner (audioCb : AudioRef → List UInt8 → Bool) (f : Frame) (info : Option EthTsTime) :
    StackResult :=
  let audio := (isAudioFrame f AOIP_RX_AUDIO_PORT AP_MAX_FLOWS).map
    fun r => (r, bytesAt f.mem r.payload r.plen)
  if audio.any fun x => audioCb x.1 x.2 then { audio := audio, consumed := true, ptp := none }
  else
    { audio := audio
      consumed := false
      ptp := (isPtpv1Frame f).map fun r =>
        { payload := bytesAt f.mem r.payload r.copyLen
          dstPort := r.dport
          ts := (extractRxTs info).1
          tsValid := (extractRxTs info).2 } }

end Inferno
