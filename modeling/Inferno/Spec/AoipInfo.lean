import Inferno.Lib.Painting
import Inferno.Spec.AoipMsg
import Inferno.Spec.AudioRx
import Inferno.Spec.Ptpv1
import Inferno.Spec.Rate

/-! Identity and heartbeat of `aoip_info.c`: the datagrams its tasks build in the one
buffer `s_buf`, and the requests they answer. Every store into the buffer and every fetch
from a request is checked. The calls run under `s_tx_lock`, one after the other. -/

namespace Inferno

open Lib

def MCAST_HDR_LEN : ℕ := 32
def INFO_ANNOUNCE_MS : ℤ := 3000
def AOIP_PORT_INFO : ℕ := 8702
def AOIP_PORT_HEARTBEAT : ℕ := 8708
def GRP_DEVINFO : List UInt8 := [224, 0, 0, 231]
def GRP_HEARTBEAT : List UInt8 := [224, 0, 0, 233]

/-- The literal ASCII "Audinate". -/
def VENDOR : List UInt8 := [0x41, 0x75, 0x64, 0x69, 0x6E, 0x61, 0x74, 0x65]

/-- `sizeof(s_buf)`. -/
def INFO_BUF_LEN : ℕ := 512

/-- An address of the netif, its mask and its gateway. -/
structure NetInfo where
  ip : UInt32
  mask : UInt32
  gw : UInt32
  deriving DecidableEq, Repr

structure InfoDgram where
  ip : List UInt8
  port : ℕ
  bytes : List UInt8
  deriving DecidableEq, Repr

structure InfoTx where
  buf : List UInt8
  seq : ℕ
  sent : List InfoDgram

abbrev Puts := List (ℕ × List UInt8)

def putU16 (i v : ℕ) : ℕ × List UInt8 := (i, dwWr16 v)

def putU32 (i v : ℕ) : ℕ × List UInt8 := (i, dwWr32 v)

/-- `put_fixed`: no terminator is kept. -/
def putFixed (i width : ℕ) (s : CStr) : ℕ × List UInt8 :=
  (i, s.take width ++ List.replicate (width - s.length) 0)

def eui64 (m : Mem) : List UInt8 := [m 0, m 1, m 2, 0xFF, 0xFE, m 3, m 4, m 5]

/-- A nanosecond count cut off at the top of a `uint32_t`. -/
def satU32 (n : ℕ) : ℕ := if n > 0xFFFFFFFF then 0xFFFFFFFF else n

variable (mac : Mem)

def putHdrSeq (startCode : ℕ) (op : List UInt8) (seq : ℕ) : Puts :=
  [putU16 0 startCode, putU16 2 0, putU16 4 seq, putU16 6 0, (8, eui64 mac), (16, VENDOR), (24, op)]

/-- `send_to`, after the stores that built the first `n` bytes. -/
def sendTo (ip : List UInt8) (port : ℕ) (l : Puts) (n : ℕ) (x : InfoTx) : Except MsgFault InfoTx := do
  let buf ← (l ++ [putU16 2 n]).foldlM (storeIn .patch) x.buf
  let bytes ← fetch (.table n) buf.length 0 n (buf.take n)
  return { buf := buf, seq := u16 (x.seq + 1), sent := x.sent ++ [⟨ip, port, bytes⟩] }

def putRecord (n len type content seq : ℕ) : Puts :=
  [putU16 n len, putU16 (n + 2) type, putU16 (n + 4) 4, putU16 (n + 6) content, putU16 (n + 8) seq, putU16 (n + 10) 0]

def syncOffset (g : Ptpv1State) : ℕ := satU32 (if g.locked then g.filteredNs else g.offsetNs).natAbs

def syncDelay (g : Ptpv1State) : ℕ := satU32 g.meanPathDelayNs.toNat

def aoipRxTakePeaksHb (rx : AoipRx) : (ℕ → ℕ) × AoipRx :=
  (rx.peakHb, { rx with peakHb := fun c => if c < AP_NCH then 0 else rx.peakHb c })

def aoipRxTakeLatency (i : Fin AP_MAX_FLOWS) (rx : AoipRx) : ℕ × AoipRx :=
  if !(rx.flows i).active then (0, rx)
  else (if rx.latMax i > 0 then (rx.latMax i).toNat else 0, { rx with latMax := Function.update rx.latMax i 0 })

def aoipRxFlowMissed (i : Fin AP_MAX_FLOWS) (rx : AoipRx) : ℕ := if (rx.flows i).active then (rx.flows i).missed else 0

def takeLatencies (rx : AoipRx) : List ℕ × AoipRx :=
  (List.finRange AP_MAX_FLOWS).foldl (fun x i => (x.1 ++ [(aoipRxTakeLatency i x.2).1], (aoipRxTakeLatency i x.2).2)) ([], rx)

/-- The peak byte; `halfDb` is `-40 * log10f(peak / 8388608)`, rounded and clamped. -/
def peakByte (halfDb : ℕ → UInt8) (pk : ℕ) : UInt8 := if pk = 0 then 255 else halfDb pk

def hbNpk : ℕ := 0 + AP_NCH

def hbPad : ℕ := (4 - hbNpk % 4) % 4

/-- The stores of 0x8001, 0x8000, 0x8002, 0x8003 and 0x8004 from `n` on. -/
def hbClock (n seq ppb : ℕ) : Puts := putRecord n 16 0x8001 4 seq ++ [putU32 (n + 12) ppb]

def hbSync (n seq off pd : ℕ) : Puts :=
  putRecord n 36 0x8000 4 seq ++
    [putU16 (n + 12) 0x0010, putU16 (n + 14) 0, putU16 (n + 16) 1, putU16 (n + 18) 0x0010, putU32 (n + 20) off,
      putU32 (n + 24) pd, putU32 (n + 28) 0, putU32 (n + 32) 0]

def hbPeaks (n seq : ℕ) (v : ℕ → UInt8) : Puts :=
  putRecord n (24 + hbNpk + hbPad) 0x8002 (12 + hbNpk) seq ++
    [putU16 (n + 12) 0, putU16 (n + 14) 0, putU16 (n + 16) AP_NCH, putU16 (n + 18) 0, putU16 (n + 20) 24,
      putU16 (n + 22) 0, (n + 24, List.replicate (hbNpk + hbPad) 0)] ++
    (List.range AP_NCH).map fun c => (n + 24 + 0 + c, [v c])

def hbLatency (n seq hz : ℕ) (lat : List ℕ) : Puts :=
  putRecord n (24 + 4 * AP_MAX_FLOWS) 0x8003 (12 + 4 * AP_MAX_FLOWS) seq ++
    [putU16 (n + 12) AP_MAX_FLOWS, putU16 (n + 14) 0, putU16 (n + 16) 0x18, putU16 (n + 18) 0, putU32 (n + 20) hz] ++
    (List.range AP_MAX_FLOWS).map fun i => putU32 (n + 24 + 4 * i) (lat.getD i 0)

def hbMissed (n seq : ℕ) (missed : List ℕ) : Puts :=
  putRecord n (20 + 4 * AP_MAX_FLOWS) 0x8004 (8 + 4 * AP_MAX_FLOWS) seq ++
    [putU16 (n + 12) AP_MAX_FLOWS, putU16 (n + 14) 0, putU16 (n + 16) 0x14, putU16 (n + 18) 0] ++
    (List.range AP_MAX_FLOWS).map fun i => putU32 (n + 20 + 4 * i) (missed.getD i 0)

structure Heartbeat where
  seq : ℕ
  ppb : ℕ
  offset : ℕ
  delay : ℕ
  peaks : List UInt8
  hz : ℕ
  latency : List ℕ
  missed : List ℕ
  deriving DecidableEq, Repr

def heartbeatStores (h : Heartbeat) : Puts :=
  let n := MCAST_HDR_LEN
  putHdrSeq mac 0xFFFE [0x00, 0x08, 0x00, 0x01, 0x10, 0x00, 0x00, 0x00] h.seq ++ hbClock n h.seq h.ppb ++
    hbSync (n + 16) h.seq h.offset h.delay ++ hbPeaks (n + 52) h.seq (fun c => h.peaks.getD c 0) ++
    hbLatency (n + 76 + hbNpk + hbPad) h.seq h.hz h.latency ++
    hbMissed (n + 100 + hbNpk + hbPad + 4 * AP_MAX_FLOWS) h.seq h.missed

def HEARTBEAT_LEN : ℕ := MCAST_HDR_LEN + 120 + hbNpk + hbPad + 8 * AP_MAX_FLOWS

/-- What the heartbeat takes from the slave and from the receive path, in that order. -/
def heartbeatOf (halfDb : ℕ → UInt8) (seq hz : ℕ) (g : Ptpv1State) (rx : AoipRx) : Heartbeat × AoipRx :=
  let pk := aoipRxTakePeaksHb rx
  let lat := takeLatencies pk.2
  ({ seq := seq, ppb := asU32 g.outPpb, offset := syncOffset g, delay := syncDelay g
     peaks := (List.range AP_NCH).map fun c => peakByte halfDb (pk.1 c)
     hz := hz, latency := lat.1, missed := (List.finRange AP_MAX_FLOWS).map fun i => aoipRxFlowMissed i lat.2 }, lat.2)

def boardStores : Puts :=
  [(0, List.replicate 200 0), (0, [4]), (1, [1]), (2, [0]), (3, [6]), (4, [4]), (5, [1]), (6, [0]), (7, [3]), (0x16, [0x10]),
    (0x17, [0xdb]), (0x23, [2]), (0x27, [1]), (0x28, [1]), (0xbb, [0x1f]),
    putFixed 0x0c 8 [0x4E, 0x53, 0x65, 0x72, 0x41, 0x6F, 0x49],
    putFixed 0x38 16 [0x4E, 0x2D, 0x53, 0x65, 0x72, 0x69, 0x65, 0x73, 0x20, 0x41, 0x6F, 0x49, 0x50]]

def productStores : Puts :=
  [(0, List.replicate 336 0), putFixed 0 8 [0x4E, 0x53, 0x65, 0x72, 0x69, 0x65, 0x73], putFixed 8 8 [0x44, 0x41, 0x43, 0x38],
    (0x1c, [0]), (0x1d, [0]), (0x1e, [1]), (0x1f, [0]), putFixed 0x2c 16 [0x4E, 0x2D, 0x53, 0x65, 0x72, 0x69, 0x65, 0x73],
    putFixed 0xac 16 [0x4E, 0x2D, 0x53, 0x65, 0x72, 0x69, 0x65, 0x73, 0x20, 0x44, 0x41, 0x43, 0x38]]

def networkStores (ni : NetInfo) : Puts :=
  [(0, [0, 1, 0, 0, 0, 0]), putU16 6 100, putU16 8 1, (10, bytesAt mac 0 6), putU32 16 ni.ip.toNat, putU32 20 ni.mask.toNat,
    putU32 24 ni.gw.toNat, putU32 28 ni.gw.toNat, (32, List.replicate 32 0), (33, [0x18]), (35, [0x30])]

def CLOCK_STATS_TMPL : List UInt8 :=
  [0x00, 0x03, 0x00, 0x03, 0x00, 0x00, 0x00, 0xff, 0xff, 0xff, 0xf1, 0x6a, 0xc8, 0xa3, 0x62, 0xeb, 0xf8, 0xc8, 0x00, 0x00,
    0x00, 0x1d, 0xc1, 0x2d, 0x4a, 0x18, 0x00, 0x00, 0x00, 0x1d, 0xc1, 0x2d, 0x4a, 0x18, 0x00, 0x00, 0x00, 0x01, 0x00, 0x34,
    0x00, 0x09, 0x00, 0x00, 0x02, 0x34, 0x00, 0x00, 0x00, 0x00, 0x00, 0x00, 0x00, 0x00, 0x00, 0x06, 0x00, 0x00, 0x00, 0x00,
    0x00, 0x00, 0x00, 0x00, 0x00, 0x00, 0x00, 0x00, 0x00, 0x00, 0x00, 0x00, 0x00, 0x00, 0x00, 0x00, 0x00, 0x60, 0x0c, 0x00,
    0x00, 0x00, 0x00, 0x0c, 0x00, 0x78, 0x00, 0x20, 0x00, 0x01, 0x00, 0x00, 0x00, 0x68, 0x10, 0x00, 0x00, 0x00, 0x00, 0x01,
    0x01, 0x02, 0x01, 0x00, 0x00, 0x00, 0x00, 0x04, 0x00, 0x09, 0x00, 0x07, 0x00, 0x01, 0x00, 0x07, 0x00, 0x98, 0x00, 0x04,
    0xc8, 0xa3, 0x62, 0xff, 0xfe, 0xeb, 0xf8, 0xc8, 0x00, 0x1d, 0xc1, 0xff, 0xfe, 0x2d, 0x4a, 0x18, 0x00, 0x1d, 0xc1, 0xff,
    0xfe, 0x2d, 0x4a, 0x18, 0x00, 0x01, 0x00, 0x00]

def clockStores (locked : Bool) (ppb : ℕ) (mu : List UInt8) : Puts :=
  [(0, CLOCK_STATS_TMPL), (2, [0]), (3, [if locked then 3 else 1]), putU32 8 ppb, (12, bytesAt mac 0 6), (18, [0]), (19, [0]),
    (20, bytesAt (memOf mu) 0 6), (26, [0]), (27, [0]), (28, bytesAt (memOf mu) 0 6), (34, [0]), (35, [0]), (120, eui64 mac),
    (128, eui64 (memOf mu)), (136, eui64 (memOf mu))]

def RATES : List ℕ := [48000, 96000]

def rateStores (hz : ℕ) : Puts :=
  [putU16 0 0x18, putU16 2 RATES.length, putU32 4 hz, putU32 8 hz, putU16 12 2, putU16 14 0] ++
    (List.range RATES.length).map fun i => putU32 (16 + 4 * i) (RATES.getD i 0)

def encodingStores : Puts :=
  [putU16 0 0x18, putU16 2 1, putU32 4 24, putU32 8 0, putU16 12 2, putU16 14 0, putU32 16 24]

def body0084 : List UInt8 :=
  [0x00, 0x30, 0x00, 0x05, 0x00, 0x00, 0x00, 0x00, 0x00, 0x00, 0x00, 0x00, 0x00, 0x02, 0x00, 0x00, 0x00, 0x00, 0x00, 0x01,
    0x00, 0x00, 0x00, 0x00, 0x00, 0x00, 0x00, 0x00, 0x00, 0x00, 0x00, 0x00, 0x00, 0x00, 0x00, 0x00, 0x00, 0x00, 0x00, 0x00,
    0x00, 0x00, 0x00, 0x00, 0x00, 0x00, 0x00, 0x01, 0x00, 0x00, 0x00, 0x02, 0x00, 0x00, 0x00, 0x03, 0x00, 0x00, 0x00, 0x04]

def changeStores (mask : ℕ) : Puts :=
  putU16 0 ((AP_NCH + 7) / 8) :: (List.range ((AP_NCH + 7) / 8)).map fun i => (2 + i, [UInt8.ofNat (mask / 2 ^ (8 * i))])

/-- An info message of opcode bytes 2 and 3, its body `n` bytes behind the header. -/
def sendInfo (ip : List UInt8) (port : ℕ) (hi lo : UInt8) (l : Puts) (n : ℕ) (x : InfoTx) : Except MsgFault InfoTx :=
  sendTo ip port (putHdrSeq mac 0xFFFF [0x07, 0x2a, hi, lo, 0, 0, 0, 0] x.seq ++ shifted MCAST_HDR_LEN l)
    (MCAST_HDR_LEN + n) x

def sendDeviceInfo (ip : List UInt8) (port : ℕ) : InfoTx → Except MsgFault InfoTx :=
  sendInfo mac ip port 0x00 0x60 boardStores 200

def sendProductInfo (ip : List UInt8) (port : ℕ) : InfoTx → Except MsgFault InfoTx :=
  sendInfo mac ip port 0x00 0xc0 productStores 336

def sendNetworkInfo (net : Option NetInfo) (ip : List UInt8) (port : ℕ) (x : InfoTx) : Except MsgFault InfoTx :=
  match net with
  | none => .ok x
  | some ni => sendInfo mac ip port 0x00 0x11 (networkStores mac ni) 64 x

/-- The opcode and sequence number of a reply: the request's, with byte 3 of the opcode
replaced. -/
def echoed (req : List UInt8) (lo : UInt8) : Except MsgFault (List UInt8 × ℕ) := do
  let op ← fetch (.request 24) req.length 24 8 (bytesAt (memOf req) 24 8)
  let seq ← aoipReqU16 req 4
  return (op.set 3 lo, seq)

def sendClockStats (g : Ptpv1State) (req : Option (List UInt8)) (x : InfoTx) : Except MsgFault InfoTx :=
  if !g.haveMaster then .ok x
  else
    let l := clockStores mac g.locked (asU32 g.outPpb) g.masterUuid
    match req with
    | none => sendInfo mac GRP_DEVINFO AOIP_PORT_INFO 0x00 0x20 l CLOCK_STATS_TMPL.length x
    | some req => do
      let e ← echoed req 0x20
      sendTo GRP_DEVINFO AOIP_PORT_INFO (putHdrSeq mac 0xFFFF e.1 e.2 ++ shifted MCAST_HDR_LEN l)
        (MCAST_HDR_LEN + CLOCK_STATS_TMPL.length) x

def sendRateTable (ip : List UInt8) (port : ℕ) (req : Option (List UInt8)) (hz : ℕ) (x : InfoTx) : Except MsgFault InfoTx :=
  match req with
  | none => sendInfo mac ip port 0x00 0x80 (rateStores hz) (16 + 4 * RATES.length) x
  | some req => do
    let e ← echoed req 0x80
    sendTo ip port (putHdrSeq mac 0xFFFF e.1 e.2 ++ shifted MCAST_HDR_LEN (rateStores hz))
      (MCAST_HDR_LEN + (16 + 4 * RATES.length)) x

def sendCaps (hz : ℕ) (ip : List UInt8) (port : ℕ) (x : InfoTx) : Except MsgFault InfoTx := do
  let x ← sendRateTable mac ip port none hz x
  let x ← sendInfo mac ip port 0x00 0x82 encodingStores 20 x
  let x ← sendInfo mac ip port 0x10 0x09 [(0, List.replicate 16 0)] 16 x
  sendInfo mac ip port 0x00 0x84 [(0, body0084)] body0084.length x

variable (b : RateBuild) (halfDb : ℕ → UInt8)

/-- The statics of `aoip_info.c` and `rate.c`, what they read elsewhere, the rate in NVS,
and whether the restart timer runs. -/
structure InfoSys where
  tx : InfoTx
  nextAnnounce : ℤ
  net : Option NetInfo
  g : Ptpv1State
  rx : AoipRx
  prof : RateProfile
  stored : Option ℕ
  restart : Bool

def InfoSys.ourIp (s : InfoSys) : Option NetInfo := s.net.filter fun ni => ni.ip ≠ 0

def InfoSys.setTx (s : InfoSys) (x : Except MsgFault InfoTx) : Except MsgFault InfoSys := x.map fun x => { s with tx := x }

def announce (s : InfoSys) (x : InfoTx) : Except MsgFault InfoTx := do
  let x ← sendDeviceInfo mac GRP_DEVINFO AOIP_PORT_INFO x
  let x ← sendProductInfo mac GRP_DEVINFO AOIP_PORT_INFO x
  let x ← sendNetworkInfo mac s.ourIp GRP_DEVINFO AOIP_PORT_INFO x
  let x ← sendClockStats mac s.g none x
  sendCaps mac s.prof.hz GRP_DEVINFO AOIP_PORT_INFO x

def sendHeartbeat (s : InfoSys) : Except MsgFault InfoSys := do
  let h := heartbeatOf halfDb s.tx.seq s.prof.hz s.g s.rx
  let x ← sendTo GRP_HEARTBEAT AOIP_PORT_HEARTBEAT (heartbeatStores mac h.1) HEARTBEAT_LEN s.tx
  return { s with tx := x, rx := h.2 }

def announceTurn (now : ℤ) (s : InfoSys) : Except MsgFault InfoSys :=
  if s.ourIp.isNone then .ok s
  else if now ≥ s.nextAnnounce then do
    let x ← announce mac s s.tx
    sendHeartbeat mac halfDb { s with tx := x, nextAnnounce := now + INFO_ANNOUNCE_MS }
  else sendHeartbeat mac halfDb s

def handleRateSet (req : List UInt8) (t : NvsTry) (s : InfoSys) : Except MsgFault InfoSys := do
  let hz ← aoipReqU32 req 36
  if hz = s.prof.hz then s.setTx (sendRateTable mac GRP_DEVINFO AOIP_PORT_INFO (some req) hz s.tx)
  else
    let r := rateRequest b hz t s.stored
    let s := { s with stored := r.2 }
    if r.1 ≠ .ok then s.setTx (sendRateTable mac GRP_DEVINFO AOIP_PORT_INFO (some req) s.prof.hz s.tx)
    else do
      let x ← sendRateTable mac GRP_DEVINFO AOIP_PORT_INFO (some req) hz s.tx
      let x ← sendInfo mac GRP_DEVINFO AOIP_PORT_INFO 0x01 0x00 [(0, [1, 1, 0, 0, 0, 0, 0, 2])] 8 x
      let x ← sendInfo mac GRP_DEVINFO AOIP_PORT_INFO 0x01 0x06 [] 0 x
      return { s with tx := x, restart := true }

/-- With content, opcode 0x81 sets the rate. -/
def isRateSet (req : List UInt8) : Except MsgFault Bool :=
  if req.length ≥ MCAST_HDR_LEN + 8 then do
    let set ← fetch (.request 32) req.length 32 4 (bytesAt (memOf req) 32 4)
    return set = [0, 0, 0, 1]
  else .ok false

def infoRx (src : List UInt8) (sport : ℕ) (req : List UInt8) (t : NvsTry) (s : InfoSys) : Except MsgFault InfoSys :=
  if req.length < MCAST_HDR_LEN then .ok s
  else do
    let q ← reqByte req (24 + 3)
    if q = 0x60 ∨ q = 0x61 then s.setTx (sendDeviceInfo mac src sport s.tx)
    else if q = 0xc0 ∨ q = 0xc1 then s.setTx (sendProductInfo mac src sport s.tx)
    else if q = 0x13 then s.setTx (sendNetworkInfo mac s.ourIp src sport s.tx)
    else if q = 0x21 then s.setTx (sendClockStats mac s.g (some req) s.tx)
    else if q = 0x81 then do
      if ← isRateSet req then handleRateSet mac b req t s
      else s.setTx (sendCaps mac s.prof.hz src sport s.tx)
    else if q = 0x83 ∨ q = 0x85 then s.setTx (sendCaps mac s.prof.hz src sport s.tx)
    else .ok s

def notifyRxChange (mask : ℕ) (s : InfoSys) : Except MsgFault InfoSys :=
  if mask = 0 then .ok s
  else s.setTx (sendInfo mac GRP_DEVINFO AOIP_PORT_INFO 0x01 0x02 (changeStores mask) (2 + (AP_NCH + 7) / 8) s.tx)

/-- `world` is whatever the other tasks did meanwhile, `restart` the timer firing, and
`boot` any other reset. -/
inductive InfoEvent where
  | turn (now : ℤ)
  | request (src : List UInt8) (sport : ℕ) (req : List UInt8) (t : NvsTry)
  | notify (mask : ℕ)
  | world (net : Option NetInfo) (g : Ptpv1State) (rx : AoipRx)
  | restart (pin : Option Bool) (readable : Bool)
  | boot (pin : Option Bool) (readable : Bool)

/-- The statics after a reset; flash stays, and what went out went out. -/
def infoBoot (pin : Option Bool) (readable : Bool) (s : InfoSys) : InfoSys :=
  match rateSelect b pin readable s.stored with
  | none => s
  | some prof =>
    { s with
      tx := { buf := List.replicate INFO_BUF_LEN 0, seq := 0, sent := s.tx.sent }
      nextAnnounce := 0
      net := none
      g := ptpv1State0
      rx := aoipRxStart
      prof := prof
      restart := false }

def infoNext (s : InfoSys) : InfoEvent → Except MsgFault InfoSys
  | .turn now => announceTurn mac halfDb now s
  | .request src sport req t => infoRx mac b src sport req t s
  | .notify mask => notifyRxChange mac mask s
  | .world net g rx => .ok { s with net := net, g := g, rx := rx }
  | .restart pin readable => .ok (if s.restart then infoBoot b pin readable s else s)
  | .boot pin readable => .ok (infoBoot b pin readable s)

def infoStart (pin : Option Bool) (readable : Bool) (stored : Option ℕ) : InfoSys where
  tx := { buf := List.replicate INFO_BUF_LEN 0, seq := 0, sent := [] }
  nextAnnounce := 0
  net := none
  g := ptpv1State0
  rx := aoipRxStart
  prof := rateProfile (rateWanted b pin readable stored)
  stored := stored
  restart := false

def infoRun (s : InfoSys) (l : List InfoEvent) : Except MsgFault InfoSys := l.foldlM (infoNext mac b halfDb) s

end Inferno
