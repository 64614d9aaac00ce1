import Inferno.Spec.AoipInfo

/-! What the info datagrams are for: the messages behind them, what an event has the
device say, and how a controller reads a datagram. Nothing here knows the buffer they are
built in. -/

namespace Inferno

open Lib

def recordBytes (type content seq : ℕ) (rest : List UInt8) : List UInt8 :=
  dwWr16 (12 + rest.length) ++ (dwWr16 type ++ (dwWr16 4 ++ (dwWr16 content ++ (dwWr16 seq ++ (dwWr16 0 ++ rest)))))

def clockRecord (h : Heartbeat) : List UInt8 := recordBytes 0x8001 4 h.seq (dwWr32 h.ppb)

def syncRecord (h : Heartbeat) : List UInt8 :=
  recordBytes 0x8000 4 h.seq
    (dwWr16 0x10 ++ (dwWr16 0 ++ (dwWr16 1 ++ (dwWr16 0x10 ++ (dwWr32 h.offset ++ (dwWr32 h.delay ++
      (dwWr32 0 ++ dwWr32 0)))))))

def peaksRecord (h : Heartbeat) : List UInt8 :=
  recordBytes 0x8002 (12 + h.peaks.length) h.seq
    (dwWr16 0 ++ (dwWr16 0 ++ (dwWr16 h.peaks.length ++ (dwWr16 0 ++ (dwWr16 24 ++ (dwWr16 0 ++ h.peaks))))))

def latencyRecord (h : Heartbeat) : List UInt8 :=
  recordBytes 0x8003 (12 + 4 * h.latency.length) h.seq
    (dwWr16 h.latency.length ++ (dwWr16 0 ++ (dwWr16 0x18 ++ (dwWr16 0 ++ (dwWr32 h.hz ++ h.latency.flatMap dwWr32)))))

def missedRecord (h : Heartbeat) : List UInt8 :=
  recordBytes 0x8004 (8 + 4 * h.missed.length) h.seq
    (dwWr16 h.missed.length ++ (dwWr16 0 ++ (dwWr16 0x14 ++ (dwWr16 0 ++ h.missed.flatMap dwWr32))))

def Heartbeat.records (h : Heartbeat) : List (List UInt8) :=
  [clockRecord h, syncRecord h, peaksRecord h, latencyRecord h, missedRecord h]

/-- A peak for every channel, a word for every flow. -/
structure Heartbeat.Shaped (h : Heartbeat) : Prop where
  peaks : h.peaks.length = AP_NCH
  latency : h.latency.length = AP_MAX_FLOWS
  missed : h.missed.length = AP_MAX_FLOWS

inductive InfoMsg where
  | heartbeat (h : Heartbeat)
  | network (ni : NetInfo)
  | clock (locked : Bool) (ppb : ℕ) (master : List UInt8)
  | rates (hz : ℕ)
  | changed (mask : ℕ)
  | plain (body : List UInt8)
  deriving DecidableEq

def InfoMsg.startCode : InfoMsg → ℕ
  | .heartbeat _ => 0xFFFE
  | _ => 0xFFFF

/-- A message with where it goes, its number and its opcode. -/
structure InfoNote where
  ip : List UInt8
  port : ℕ
  seq : ℕ
  op : List UInt8
  msg : InfoMsg
  deriving DecidableEq

variable (mac : Mem)

def InfoMsg.body : InfoMsg → List UInt8
  | .heartbeat h => h.records.flatten
  | .network ni => painted [] (networkStores mac ni)
  | .clock locked ppb master => painted [] (clockStores mac locked ppb master)
  | .rates hz => painted [] (rateStores hz)
  | .changed mask => painted [] (changeStores mask)
  | .plain body => body

def InfoNote.header (n : InfoNote) (len : ℕ) : List UInt8 :=
  dwWr16 n.msg.startCode ++ (dwWr16 len ++ (dwWr16 n.seq ++ (dwWr16 0 ++ (eui64 mac ++ (VENDOR ++ n.op)))))

def InfoNote.len (n : InfoNote) : ℕ := MCAST_HDR_LEN + (n.msg.body mac).length

def InfoNote.dgram (n : InfoNote) : InfoDgram := ⟨n.ip, n.port, n.header mac (n.len mac) ++ n.msg.body mac⟩

def InfoMsg.Kind : InfoMsg → UInt8 → Prop
  | .heartbeat h, _ => h.Shaped
  | .network _, lo => lo = 0x11
  | .clock .., lo => lo = 0x20
  | .rates _, lo => lo = 0x80
  | .changed _, lo => lo = 0x02
  | .plain _, lo => lo ≠ 0x11 ∧ lo ≠ 0x20 ∧ lo ≠ 0x80 ∧ lo ≠ 0x02

/-- A note that a datagram can carry. -/
structure InfoNote.Apt (n : InfoNote) : Prop where
  op : n.op.length = 8
  fits : n.len mac ≤ INFO_BUF_LEN
  kind : n.msg.Kind (n.op.getD 3 0)

/-- Notes numbered from `seq` on; a reply keeps the number it echoes. -/
def told (seq : ℕ) : List (ℕ → InfoNote) → List InfoNote
  | [] => []
  | f :: l => f seq :: told (u16 (seq + 1)) l

def sayInfo (ip : List UInt8) (port : ℕ) (hi lo : UInt8) (msg : InfoMsg) (seq : ℕ) : InfoNote :=
  ⟨ip, port, seq, [0x07, 0x2a, hi, lo, 0, 0, 0, 0], msg⟩

/-- A reply keeps the request's number and opcode, byte 3 apart. -/
def sayReply (req : List UInt8) (lo : UInt8) (msg : InfoMsg) (_ : ℕ) : InfoNote :=
  ⟨GRP_DEVINFO, AOIP_PORT_INFO, dwRd16 (memOf req) 4, (bytesAt (memOf req) 24 8).set 3 lo, msg⟩

def heartbeatNote (h : Heartbeat) : InfoNote :=
  ⟨GRP_HEARTBEAT, AOIP_PORT_HEARTBEAT, h.seq, [0x00, 0x08, 0x00, 0x01, 0x10, 0x00, 0x00, 0x00], .heartbeat h⟩

def sayDevice (ip : List UInt8) (port : ℕ) : ℕ → InfoNote := sayInfo ip port 0x00 0x60 (.plain (painted [] boardStores))

def sayProduct (ip : List UInt8) (port : ℕ) : ℕ → InfoNote := sayInfo ip port 0x00 0xc0 (.plain (painted [] productStores))

def sayNetwork (net : Option NetInfo) (ip : List UInt8) (port : ℕ) : List (ℕ → InfoNote) :=
  net.toList.map fun ni => sayInfo ip port 0x00 0x11 (.network ni)

/-- The clock as the slave sees it, once it has a master. -/
def sayClock (g : Ptpv1State) (req : Option (List UInt8)) : List (ℕ → InfoNote) :=
  if !g.haveMaster then []
  else
    match req with
    | none => [sayInfo GRP_DEVINFO AOIP_PORT_INFO 0x00 0x20 (.clock g.locked (asU32 g.outPpb) g.masterUuid)]
    | some req => [sayReply req 0x20 (.clock g.locked (asU32 g.outPpb) g.masterUuid)]

def sayCaps (hz : ℕ) (ip : List UInt8) (port : ℕ) : List (ℕ → InfoNote) :=
  [sayInfo ip port 0x00 0x80 (.rates hz), sayInfo ip port 0x00 0x82 (.plain (painted [] encodingStores)),
    sayInfo ip port 0x10 0x09 (.plain (painted [] [(0, List.replicate 16 0)])),
    sayInfo ip port 0x00 0x84 (.plain (painted [] [(0, body0084)]))]

def sayAll (s : InfoSys) : List (ℕ → InfoNote) :=
  [sayDevice GRP_DEVINFO AOIP_PORT_INFO] ++ ([sayProduct GRP_DEVINFO AOIP_PORT_INFO] ++
    (sayNetwork s.ourIp GRP_DEVINFO AOIP_PORT_INFO ++ (sayClock s.g none ++ sayCaps s.prof.hz GRP_DEVINFO AOIP_PORT_INFO)))

def sayRateSet (b : RateBuild) (req : List UInt8) (t : NvsTry) (s : InfoSys) : List (ℕ → InfoNote) :=
  let hz := dwRd32 (memOf req) 36
  if hz = s.prof.hz then [sayReply req 0x80 (.rates hz)]
  else if (rateRequest b hz t s.stored).1 ≠ .ok then [sayReply req 0x80 (.rates s.prof.hz)]
  else [sayReply req 0x80 (.rates hz),
    sayInfo GRP_DEVINFO AOIP_PORT_INFO 0x01 0x00 (.plain (painted [] [(0, [1, 1, 0, 0, 0, 0, 0, 2])])),
    sayInfo GRP_DEVINFO AOIP_PORT_INFO 0x01 0x06 (.plain (painted [] []))]

def sayAnswer (b : RateBuild) (src : List UInt8) (sport : ℕ) (req : List UInt8) (t : NvsTry) (s : InfoSys) :
    List (ℕ → InfoNote) :=
  if req.length < MCAST_HDR_LEN then []
  else
    let q := memOf req 27
    if q = 0x60 ∨ q = 0x61 then [sayDevice src sport]
    else if q = 0xc0 ∨ q = 0xc1 then [sayProduct src sport]
    else if q = 0x13 then sayNetwork s.ourIp src sport
    else if q = 0x21 then sayClock s.g (some req)
    else if q = 0x81 then
      if MCAST_HDR_LEN + 8 ≤ req.length ∧ bytesAt (memOf req) 32 4 = [0, 0, 0, 1] then sayRateSet b req t s
      else sayCaps s.prof.hz src sport
    else if q = 0x83 ∨ q = 0x85 then sayCaps s.prof.hz src sport
    else []

def InfoSys.notes (b : RateBuild) (halfDb : ℕ → UInt8) (s : InfoSys) : InfoEvent → List (ℕ → InfoNote)
  | .turn now =>
    if s.ourIp.isNone then []
    else (if now ≥ s.nextAnnounce then sayAll s else []) ++
      [fun seq => heartbeatNote (heartbeatOf halfDb seq s.prof.hz s.g s.rx).1]
  | .request src sport req t => sayAnswer b src sport req t s
  | .notify mask => if mask = 0 then [] else [sayInfo GRP_DEVINFO AOIP_PORT_INFO 0x01 0x02 (.changed mask)]
  | _ => []

def InfoSys.resets (s : InfoSys) : InfoEvent → Bool
  | .restart _ _ => s.restart
  | .boot _ _ => true
  | _ => false

def wordsAt (p : Mem) (i n : ℕ) : List ℕ := (List.range n).map fun k => dwRd32 p (i + 4 * k)

def findRecord (rs : List (List UInt8)) (type : ℕ) : Option (List UInt8) := rs.find? fun r => dwRd16 (memOf r) 2 == type

def readHeartbeat (body : List UInt8) : Option Heartbeat := do
  let rs := walk (fun r => dwRd16 (memOf r) 0) body.length body
  let c ← findRecord rs 0x8001
  let s ← findRecord rs 0x8000
  let p ← findRecord rs 0x8002
  let l ← findRecord rs 0x8003
  let m ← findRecord rs 0x8004
  return {
    seq := dwRd16 (memOf c) 8
    ppb := dwRd32 (memOf c) 12
    offset := dwRd32 (memOf s) 20
    delay := dwRd32 (memOf s) 24
    peaks := bytesAt (memOf p) (dwRd16 (memOf p) 20 + dwRd16 (memOf p) 12) (dwRd16 (memOf p) 16)
    hz := dwRd32 (memOf l) 20
    latency := wordsAt (memOf l) (dwRd16 (memOf l) 16) (dwRd16 (memOf l) 12)
    missed := wordsAt (memOf m) (dwRd16 (memOf m) 16) (dwRd16 (memOf m) 12) }

/-- The body of an info message, from its opcode's last byte. -/
def readBody (mac : Mem) (lo : UInt8) (body : List UInt8) : Option InfoMsg :=
  let p := memOf body
  if lo = 0x11 then
    if bytesAt p 10 6 = bytesAt mac 0 6 then
      some (.network ⟨UInt32.ofNat (dwRd32 p 16), UInt32.ofNat (dwRd32 p 20), UInt32.ofNat (dwRd32 p 24)⟩)
    else none
  else if lo = 0x20 then
    let mu := bytesAt p 20 6
    if bytesAt p 12 6 = bytesAt mac 0 6 ∧ bytesAt p 28 6 = mu ∧ bytesAt p 120 8 = eui64 mac ∧
        bytesAt p 128 8 = eui64 (memOf mu) ∧ bytesAt p 136 8 = eui64 (memOf mu) then
      some (.clock (decide (p 3 = 3)) (dwRd32 p 8) mu)
    else none
  else if lo = 0x80 then
    if dwRd32 p 8 = dwRd32 p 4 ∧ wordsAt p 16 (dwRd16 p 2) = RATES then some (.rates (dwRd32 p 4)) else none
  else if lo = 0x02 then some (.changed ((List.range (dwRd16 p 0)).map fun i => (p (2 + i)).toNat * 2 ^ (8 * i)).sum)
  else some (.plain body)

def readNote (mac : Mem) (d : InfoDgram) : Option InfoNote :=
  let p := memOf d.bytes
  let body := d.bytes.drop MCAST_HDR_LEN
  if dwRd16 p 2 = d.bytes.length ∧ bytesAt p 8 8 = eui64 mac ∧ bytesAt p 16 8 = VENDOR then
    (if dwRd16 p 0 = 0xFFFE then (readHeartbeat body).map .heartbeat else readBody mac (p 27) body).map fun msg =>
      ⟨d.ip, d.port, dwRd16 p 4, bytesAt p 24 8, msg⟩
  else none

def Heartbeat.wire (h : Heartbeat) : Heartbeat where
  seq := u16 h.seq
  ppb := u32 h.ppb
  offset := u32 h.offset
  delay := u32 h.delay
  peaks := h.peaks
  hz := u32 h.hz
  latency := h.latency.map u32
  missed := h.missed.map u32

def InfoMsg.wire : InfoMsg → InfoMsg
  | .heartbeat h => .heartbeat h.wire
  | .network ni => .network ni
  | .clock locked ppb master => .clock locked (u32 ppb) (bytesAt (memOf master) 0 6)
  | .rates hz => .rates (u32 hz)
  | .changed mask => .changed (u8 mask)
  | .plain body => .plain body

def InfoNote.wire (n : InfoNote) : InfoNote := { n with seq := u16 n.seq, msg := n.msg.wire }

end Inferno
