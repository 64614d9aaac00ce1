import Inferno.Spec.AoipMsg

/-! The flow request that `flows_client.c` sends to a transmitter: the body of
`build_request_body` and the packet `transact` puts it in. -/

namespace Inferno

open Lib

def DRR_START_FLOWS : ℕ := 0x1102
def DFC_OP_REQUEST : ℕ := 0x0100

/-- `flow_request_t` in its own widths; the channel ids are the used slots. -/
structure FlowRequestT where
  txIp : UInt32
  txFlowPort : UInt16
  txChannelId : List UInt16
  fpp : UInt16
  rxPort : UInt16
  rxFlowName : CStr

def FlowRequestT.nslots (r : FlowRequestT) : ℕ := r.txChannelId.length

/-- `sizeof(strings)`. -/
def STRINGS_LEN : ℕ := 128

/-- `sizeof(body)` of `flows_client_request`. -/
def BODY_LEN : ℕ := 384

/-- `sizeof(pkt)` of `transact`. -/
def PKT_LEN : ℕ := 512

def writeNext (cap : ℕ) (b bs : List UInt8) : Except MsgFault (List UInt8) :=
  checked .store (b.length + bs.length ≤ cap) (b ++ bs)

def writeAll (cap : ℕ) (b : List UInt8) (l : List (List UInt8)) : Except MsgFault (List UInt8) :=
  l.foldlM (writeNext cap) b

/-- The padding loop; an aligned length is at most seven rounds away. -/
def padStrings (stringsOffset : ℕ) : ℕ → List UInt8 → Option (List UInt8)
  | 0, strings => some strings
  | n + 1, strings =>
    if (strings.length + stringsOffset) % 8 = 0 then some strings
    else if strings.length ≥ STRINGS_LEN then none
    else padStrings stringsOffset n (strings ++ [0])

/-- The strings and the address blob behind them, with the offsets of the flow's name and
of the blob; `none` is `return 0`. -/
def requestStrings (hostname : CStr) (netif : Option UInt32) (r : FlowRequestT) (stringsOffset : ℕ) :
    Except MsgFault (Option (List UInt8 × ℕ × ℕ)) := do
  if hostname.length + 1 > STRINGS_LEN then return none
  let strings ← writeAll STRINGS_LEN [] [hostname, [0]]
  let rxFlowNameOffset := u16 (strings.length + stringsOffset)
  if strings.length + r.rxFlowName.length + 1 > STRINGS_LEN then return none
  let strings ← writeAll STRINGS_LEN strings [r.rxFlowName, [0]]
  match padStrings stringsOffset 7 strings with
  | none => return none
  | some strings =>
    let addrBlobOffset := u16 (strings.length + stringsOffset)
    match netif with
    | none => return none
    | some ourIp =>
      let strings ← writeAll STRINGS_LEN strings [dwWr16 0x0802, dwWr16 r.rxPort.toNat, dwWr32 ourIp.toNat]
      return some (strings, rxFlowNameOffset, addrBlobOffset)

def requestFields (hz : ℕ) (r : FlowRequestT) (stringsOffset rxFlowNameOffset addrBlobOffset : ℕ) :
    List (List UInt8) :=
  [dwWr16 stringsOffset, dwWr32 hz, dwWr32 AP_BITS_PER_SAMPLE, dwWr16 1, dwWr16 r.nslots, dwWr16 addrBlobOffset] ++
    r.txChannelId.map (fun id => dwWr16 id.toNat) ++
    [dwWr16 (0x1c + 2 * r.nslots), dwWr16 0x0a00, dwWr16 0x0002, dwWr16 r.fpp.toNat, dwWr16 rxFlowNameOffset,
      List.replicate 12 0]

/-- `build_request_body`; `netif` is the address of the interface where it has one, and
`none` is the length 0. -/
def buildRequestBody (hz : UInt32) (hostname : CStr) (netif : Option UInt32) (r : FlowRequestT) (cap : ℕ) :
    Except MsgFault (Option (List UInt8)) := do
  let stringsOffset := 0x26 + r.nslots * 2 + DRR_HDR_LEN
  match ← requestStrings hostname netif r stringsOffset with
  | none => return none
  | some (strings, rxFlowNameOffset, addrBlobOffset) =>
    if cap < stringsOffset - DRR_HDR_LEN + strings.length then return none
    let out ← writeAll cap [] (requestFields hz.toNat r stringsOffset rxFlowNameOffset addrBlobOffset)
    -- the offsets above are only correct if the fields really are this long
    if out.length ≠ stringsOffset - DRR_HDR_LEN then return none
    return some (← writeNext cap out strings)

def drrPutHeader (startCode seqnum opcode1 opcode2 totalLen : ℕ) : List UInt8 :=
  dwWr16 startCode ++ dwWr16 totalLen ++ dwWr16 seqnum ++ dwWr16 opcode1 ++ dwWr16 opcode2

def transactPacket (seq opcode1 : ℕ) (body : List UInt8) : Except MsgFault (Option (List UInt8)) := do
  let total := DRR_HDR_LEN + body.length
  if total > PKT_LEN then return none
  let pkt ← writeNext PKT_LEN [] (drrPutHeader DRR_START_FLOWS seq opcode1 0 total)
  return some (← writeNext PKT_LEN pkt body)

def flowsClientRequest (hz : UInt32) (hostname : CStr) (netif : Option UInt32) (seq : ℕ) (r : FlowRequestT) :
    Except MsgFault (Option (List UInt8)) := do
  match ← buildRequestBody hz hostname netif r BODY_LEN with
  | none => return none
  | some body => if body = [] then return none else transactPacket seq DFC_OP_REQUEST body

structure FlowAsk where
  rate : ℕ
  bits : ℕ
  channelIds : List ℕ
  fpp : ℕ
  hostname : CStr
  flowName : CStr
  rxPort : ℕ
  ip : ℕ
  deriving DecidableEq

/-- A request read through the offsets it carries, all of them from the start of the packet. -/
def FlowAsk.read (p : List UInt8) : FlowAsk :=
  let rd := dwRd16 (memOf p)
  let nch := rd 22
  let blob := rd 24
  let flow := rd (26 + 2 * nch)
  { rate := dwRd32 (memOf p) 12
    bits := dwRd32 (memOf p) 16
    channelIds := (List.range nch).map fun i => rd (26 + 2 * i)
    fpp := rd (flow + 4)
    hostname := cstrAt p (rd 10)
    flowName := cstrAt p (rd (flow + 6))
    rxPort := rd (blob + 2)
    ip := dwRd32 (memOf p) (blob + 4) }

def FlowRequestT.ask (hz : UInt32) (hostname : CStr) (ip : UInt32) (r : FlowRequestT) : FlowAsk where
  rate := hz.toNat
  bits := AP_BITS_PER_SAMPLE
  channelIds := r.txChannelId.map UInt16.toNat
  fpp := r.fpp.toNat
  hostname := hostname
  flowName := r.rxFlowName
  rxPort := r.rxPort.toNat
  ip := ip.toNat

end Inferno
