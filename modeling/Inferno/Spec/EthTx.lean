import Inferno.Lib.OnesComplement
import Inferno.Spec.AoipMsg
import Inferno.Spec.Ptpv1

/-! The raw multicast transmit of `eth_ts.c` and what the PTP slave sends with it. -/

namespace Inferno

open Lib

def PTP1_TOS : ℕ := 0xE0
def PTP1_PORT_TYPE_EVENT : ℕ := 1

inductive EspErr where
  | ok
  | fail
  | invalidSize
  | timeout
  | other (code : ℤ)
  deriving DecidableEq, Repr

def ipChecksum (p : Mem) (len : ℕ) : ℕ :=
  let sum := (List.range (len / 2)).foldl (fun sum k => u32 (sum + dwRd16 p (2 * k))) 0
  let sum := if len % 2 = 1 then u32 (sum + (p (len - 1)).toNat <<< 8) else sum
  u16 (2 ^ 32 - 1 - foldCarry (2 ^ 16) sum)

/-- 01:00:5e and the low 23 bits of the group, our own address, IPv4. -/
def ethHeader (mac : Mem) (dst : ℕ) : List UInt8 :=
  [0x01, 0x00, 0x5E, UInt8.ofNat (dst >>> 16 &&& 0x7F), UInt8.ofNat (dst >>> 8 &&& 0xFF), UInt8.ofNat (dst &&& 0xFF)] ++
    bytesAt mac 0 6 ++ dwWr16 0x0800

def ipHeader0 (src dst total : ℕ) (tos ttl : UInt8) : List UInt8 :=
  [0x45, tos] ++ dwWr16 (u16 total) ++ [0, 0, 0, 0, ttl, 17, 0, 0] ++ dwWr32 src ++ dwWr32 dst

def ipHeader (src dst total : ℕ) (tos ttl : UInt8) : List UInt8 :=
  let ipp := ipHeader0 src dst total tos ttl
  overwrite ipp 10 (dwWr16 (ipChecksum (memOf ipp) 20))

def udpHeader (srcPort dstPort len : ℕ) : List UInt8 :=
  dwWr16 srcPort ++ dwWr16 dstPort ++ dwWr16 (u16 (8 + len)) ++ dwWr16 0

def mcastFrame (mac : Mem) (src dst : UInt32) (dstPort srcPort : UInt16) (payload : Mem) (len : ℕ) (tos ttl : UInt8) :
    List UInt8 :=
  ethHeader mac dst.toNat ++ ipHeader src.toNat dst.toNat (20 + 8 + len) tos ttl ++
    udpHeader srcPort.toNat dstPort.toNat len ++ bytesAt payload 0 len

/-- What the transmit path asks of the board: `s_our_mac`, the interface's address where it
answers, and what the driver makes of a frame. -/
structure EthTx where
  mac : Mem
  ip : Option UInt32
  transmit : List UInt8 → EspErr × EthTsTime

/-- What `eth_ts_send_udp_mcast` returns, the frame it gave to the driver, and the stamp. -/
structure EthSend where
  err : EspErr
  frame : Option (List UInt8)
  ts : Option EthTsTime

/-- `sizeof(frame)`. -/
def MCAST_FRAME_LEN : ℕ := 14 + 20 + 8 + 256

def ethTsSendUdpMcast (tx : EthTx) (dst : UInt32) (dstPort srcPort : UInt16) (payload : Mem) (len : ℕ)
    (tos ttl : UInt8) : EthSend :=
  if len > MCAST_FRAME_LEN - 42 then ⟨.invalidSize, none, none⟩
  else
    match tx.ip with
    | none => ⟨.fail, none, none⟩
    | some src =>
      let frame := mcastFrame tx.mac src dst dstPort srcPort payload len tos ttl
      let sent := tx.transmit frame
      -- the driver writes a zero stamp when the poll of its descriptor times out
      let err := if sent.1 = .ok ∧ sent.2.seconds = 0 ∧ sent.2.nanoseconds = 0 then .timeout else sent.1
      ⟨err, some frame, if err = .ok then some sent.2 else none⟩

def ptp1PutHeader (uuid : Mem) (portId control portType seq : ℕ) : List UInt8 :=
  dwWr16 1 ++ dwWr16 1 ++ [0x5F, 0x44, 0x46, 0x4C, 0x54] ++ List.replicate 11 0 ++ [UInt8.ofNat portType, 1] ++
    bytesAt uuid 0 6 ++ dwWr16 portId ++ dwWr16 seq ++ [UInt8.ofNat control] ++ List.replicate 7 0

/-- `buf` of `send_delay_req`. -/
def delayReqBuf {D : Type} (p : Ptp D) : List UInt8 :=
  ptp1PutHeader (memOf p.uuid) p.portId PTP1_CTRL_DELAY_REQ PTP1_PORT_TYPE_EVENT p.delayReqSeq ++
    List.replicate PTP1_SYNC_BODY_LEN 0

/-- What `send_delay_req` has sent; its stamp is what `sendDelayReq` goes on with. -/
def delayReqSend {D : Type} (tx : EthTx) (p : Ptp D) : EthSend :=
  ethTsSendUdpMcast tx (UInt32.ofNat PTP1_GROUP_IP) (UInt16.ofNat PTP1_EVENT_PORT) (UInt16.ofNat PTP1_EVENT_PORT)
    (memOf (delayReqBuf p)) (delayReqBuf p).length (UInt8.ofNat PTP1_TOS) 1

end Inferno
