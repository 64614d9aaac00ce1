import Inferno.Spec.AoipMsg
import Inferno.Spec.MediaClock

/-! The ARC server of `aoip_arc.c`: `handle` answers one request datagram. Every store
into the reply, every fetch from the request and every table index is checked. -/

namespace Inferno

open Lib

def PACKET_SIZE_SOFT_LIMIT : ℕ := 800
def CODE_UNSUPPORTED : ℕ := 0x0022

def ARC_OP_CHANNEL_COUNTS : ℕ := 0x1000
def ARC_OP_GET_DEVICE_NAME : ℕ := 0x1002
def ARC_OP_GET_DEVICE_NAMES : ℕ := 0x1003
def ARC_OP_GET_TX_CHANNELS : ℕ := 0x2000
def ARC_OP_GET_RX_CHANNELS : ℕ := 0x3000
def ARC_OP_RENAME_RX_CHANNELS : ℕ := 0x3001
def ARC_OP_SET_SUBSCRIPTIONS : ℕ := 0x3010
def ARC_OP_SET_LATENCY : ℕ := 0x1101

def ArcSub.word : ArcSub → ℕ
  | .none => 0x00000000
  | .pending => 0x00000001
  | .active => 0x01010009

def subscriberChannel (s : Sub) (c : ℕ) : Option RxChannel := if h : c < AP_NCH then some (s.ch ⟨c, h⟩) else none

def subscriberRename (c : ℕ) (friendly : CStr) (s : Sub) : Sub :=
  if h : c < AP_NCH then
    { s with ch := Function.update s.ch ⟨c, h⟩ { s.ch ⟨c, h⟩ with friendly := strncpy31 friendly } }
  else s

def subscriberSetAt (c : ℕ) (txChannel txDevice : CStr) (s : Sub) : Sub :=
  if h : c < AP_NCH then subscriberSet ⟨c, h⟩ txChannel txDevice s else s

structure SubscriberFlow where
  slot : ℕ
  rxPort : ℕ
  nslots : ℕ
  slotToCh : ℕ → ℤ

structure FlowView where
  active : Bool
  rxPort : ℕ
  nslots : ℕ
  slotToCh : ℕ → ℤ

def FlowSlot.view (f : FlowSlot) : FlowView := ⟨f.state = .active, f.req.rxPort, f.req.nslots, slotMap f.slotToCh⟩

def getFlows (view : Fin AP_MAX_FLOWS → FlowView) : List SubscriberFlow :=
  (List.finRange AP_MAX_FLOWS).filterMap fun i =>
    let f := view i
    if f.active then some { slot := i, rxPort := f.rxPort, nslots := f.nslots, slotToCh := f.slotToCh } else none

def subscriberGetFlows (s : Sub) : List SubscriberFlow := getFlows fun i => (s.flow i).view

def arc1100Body : List UInt8 :=
  [0x24, 0x1f, 0x80, 0x20, 0x00, 0x9c, 0x80, 0x21, 0x00, 0xa0, 0x00, 0x22, 0x00, 0x01, 0x00, 0x23,
    0x00, 0x18, 0x00, 0x24, 0x00, 0x01, 0x80, 0x60, 0x00, 0xb0, 0x00, 0x62, 0x00, 0x01, 0x00, 0x63,
    0x00, 0x01, 0x02, 0x01, 0x00, 0x01, 0x82, 0x04, 0x00, 0xb4, 0x82, 0x05, 0x00, 0xb8, 0x02, 0x0a,
    0x00, 0x00, 0x02, 0x0b, 0x00, 0x00, 0x02, 0x10, 0x00, 0x00, 0x02, 0x11, 0x00, 0x00, 0x02, 0x12,
    0x00, 0x30, 0x02, 0x13, 0x00, 0x00, 0x02, 0x14, 0x00, 0x00, 0x02, 0x22, 0x13, 0x8c, 0x83, 0x01,
    0x00, 0xbc, 0x83, 0x06, 0x00, 0xc0, 0x83, 0x02, 0x00, 0xc4, 0x83, 0x21, 0x00, 0xc8, 0x03, 0x10,
    0x00, 0x10, 0x03, 0x11, 0x00, 0x10, 0x03, 0x12, 0x00, 0x30, 0x03, 0x03, 0x00, 0x02, 0x83, 0xf0,
    0x00, 0xcc, 0x06, 0x01, 0x00, 0x00, 0x03, 0x09, 0x00, 0x03, 0x02, 0x09, 0x00, 0x01, 0x00, 0x00,
    0x00, 0x00, 0x00, 0x00, 0x00, 0x00, 0x00, 0x00, 0x00, 0x00, 0x00, 0x00, 0x00, 0x00, 0x00, 0x00,
    0x00, 0x00, 0x00, 0x00, 0xbb, 0x80, 0x00, 0x00, 0x00, 0x00, 0x00, 0x00, 0x00, 0x00, 0x00, 0x00,
    0x00, 0x00, 0x00, 0x00, 0x00, 0x00, 0xef, 0x45, 0x00, 0x00, 0x00, 0x0f, 0x42, 0x40, 0x00, 0x07,
    0xa1, 0x20, 0x00, 0x07, 0xa1, 0x20, 0x00, 0x03, 0xd0, 0x90, 0x01, 0x35, 0xf1, 0xb4, 0x00, 0x1e,
    0x84, 0x80, 0x00, 0x00, 0x00, 0x05, 0x00, 0x00, 0x00, 0x00]

def arc1102Body : List UInt8 :=
  [0x00, 0x1f, 0x80, 0x20, 0x00, 0x01, 0x80, 0x21, 0x00, 0x03, 0x00, 0x22, 0x00, 0x03, 0x00, 0x23,
    0x00, 0x03, 0x00, 0x24, 0x00, 0x01, 0x80, 0x60, 0x00, 0x03, 0x00, 0x62, 0x00, 0x03, 0x00, 0x63,
    0x00, 0x01, 0x02, 0x01, 0x00, 0x03, 0x82, 0x04, 0x00, 0x03, 0x82, 0x05, 0x00, 0x03, 0x02, 0x0a,
    0x00, 0x01, 0x02, 0x0b, 0x00, 0x01, 0x02, 0x10, 0x00, 0x03, 0x02, 0x11, 0x00, 0x03, 0x02, 0x12,
    0x00, 0x03, 0x02, 0x13, 0x00, 0x01, 0x02, 0x14, 0x00, 0x01, 0x02, 0x22, 0x00, 0x03, 0x83, 0x01,
    0x00, 0x03, 0x83, 0x06, 0x00, 0x01, 0x83, 0x02, 0x00, 0x01, 0x83, 0x21, 0x00, 0x01, 0x03, 0x10,
    0x00, 0x01, 0x03, 0x11, 0x00, 0x01, 0x03, 0x12, 0x00, 0x01, 0x03, 0x03, 0x00, 0x03, 0x83, 0xf0,
    0x00, 0x01, 0x06, 0x01, 0x00, 0x01, 0x03, 0x09, 0x00, 0x01, 0x02, 0x09, 0x00, 0x01]

def tableU16 (body : List UInt8) (i : ℕ) : Except MsgFault ℕ := fetch (.table i) body.length i 2 (dwRd16 (memOf body) i)

/-- The loop of `arc_1100_patch_u32` from entry `i` on, with `n` of them to go. -/
def arc1100PatchFrom (key v : ℕ) (body : List UInt8) : ℕ → ℕ → Except MsgFault (List UInt8)
  | 0, _ => .ok body
  | n + 1, i => do
    let k ← tableU16 body (2 + i * 4)
    if k ≠ key then arc1100PatchFrom key v body n (i + 1)
    else do
      let off ← tableU16 body (2 + i * 4 + 2)
      if off < DRR_HDR_LEN then .ok body
      else if off - DRR_HDR_LEN + 4 > body.length then .ok body
      else .ok (overwrite body (off - DRR_HDR_LEN) (dwWr32 v))

def arc1100PatchU32 (key v : ℕ) (body : List UInt8) : Except MsgFault (List UInt8) := do
  let count ← fetch (.table 1) body.length 1 1 (memOf body 1).toNat
  arc1100PatchFrom key v body count 0

/-- What the ARC task shares with the others, and its own `arc_1100_body`. -/
structure ArcState where
  sub : Sub
  clk : MediaClock
  table : List UInt8

/-- What a request meets besides: the host name, the interface's address where it has
one, and what the media clock reads. -/
structure ArcEnv where
  hostname : CStr
  netif : Option UInt32
  clockIn : ClockIn

variable (prof : RateProfile)

def putCommonDescriptor : AoipMsg ℕ := do
  let off ← aoipMsgLen
  aoipMsgU32 prof.hz
  aoipMsgU8 1
  aoipMsgU8 1
  aoipMsgU16 AP_BITS_PER_SAMPLE
  aoipMsgU16 0x400
  aoipMsgU16 AP_BITS_PER_SAMPLE
  aoipMsgU16 AP_BITS_PER_SAMPLE
  aoipMsgU16 0xE
  pure (u16 off)

structure PageT where
  itemsAt : ℕ
  itemSize : ℕ
  space : ℕ
  actual : ℕ

def pageBegin (itemSize space : ℕ) : AoipMsg PageT := do
  let space := if space > 255 then 255 else space
  aoipMsgU8 space
  aoipMsgU8 0
  let itemsAt ← aoipMsgLen
  aoipMsgZeros (itemSize * space)
  pure { itemsAt := itemsAt, itemSize := itemSize, space := space, actual := 0 }

/-- `page_slot`, as the offset it points at. -/
def pageSlot (pg : PageT) : ℕ := pg.itemsAt + pg.actual * pg.itemSize

def pageEnd (pg : PageT) : AoipMsg Unit := aoipMsgPut (pg.itemsAt - 1) [UInt8.ofNat pg.actual]

/-- `while (m.len & 3) aoip_msg_u8(&m, 0)`; three rounds are enough. -/
def alignRounds : ℕ → AoipMsg Unit
  | 0 => pure ()
  | n + 1 => do
    if (← aoipMsgLen) % 4 = 0 then pure ()
    else do
      aoipMsgU8 0
      alignRounds n

/-- The loop of `req_str` from `i` on, with `room` bytes to go before the NUL. -/
def reqStrFrom (req : List UInt8) : ℕ → ℕ → Except MsgFault CStr
  | 0, _ => .ok []
  | room + 1, i =>
    if i < req.length then do
      let c ← reqByte req i
      if c = 0 then .ok []
      else do
        let rest ← reqStrFrom req room (i + 1)
        .ok (c :: rest)
    else .ok []

def reqStr (req : List UInt8) (cap off : ℕ) : Except MsgFault CStr :=
  if off < DRR_HDR_LEN ∨ off ≥ req.length then .ok [] else reqStrFrom req (cap - 1) off

def channelCounts : AoipMsg Unit := do
  aoipMsgU8 0x0d
  aoipMsgU8 0xf9
  aoipMsgU16 0
  aoipMsgU16 AP_NCH
  aoipMsgU16 0
  aoipMsgU16 0
  aoipMsgU16 8
  aoipMsgU16 0
  aoipMsgU16 AP_MAX_FLOWS
  aoipMsgU16 0
  aoipMsgU16 1
  aoipMsgU16 1
  aoipMsgZeros 12

/-- "N-Series AoIP". -/
def boardName : CStr := [0x4E, 0x2D, 0x53, 0x65, 0x72, 0x69, 0x65, 0x73, 0x20, 0x41, 0x6F, 0x49, 0x50]

/-- ":705". -/
def boardRevision : CStr := [0x3A, 0x37, 0x30, 0x35]

/-- The fields of the 48-byte head that are not zero, by their offsets in it. -/
def namesHead (friendly factory board revision : ℕ) : List (ℕ × ℕ) :=
  [(0, 0x001c), (2, 0x001c), (4, 0x0028), (6, board), (8, revision), (18, 0x0500), (20, friendly), (22, factory),
    (24, friendly), (30, 0x0a0a), (34, 0x0404), (38, 0x2809), (40, 0x0204), (42, 0x1200), (44, 0x1004)]

def patchAll (head : ℕ) : List (ℕ × ℕ) → AoipMsg Unit
  | [] => pure ()
  | p :: l => do
    aoipMsgPatchU16 (head + p.1) p.2
    patchAll head l

def deviceNames (name : CStr) : AoipMsg Unit := do
  let head ← aoipMsgLen
  aoipMsgZeros 48
  aoipMsgZeros 2
  let friendly ← aoipMsgLen
  let nl := min name.length 31
  aoipMsgBytes (name.take nl)
  aoipMsgZeros (32 - nl)
  let factory ← aoipMsgLen
  aoipMsgBytes (name.take nl)
  aoipMsgZeros (32 - nl)
  let board ← aoipMsgStr boardName
  let revision ← aoipMsgStr boardRevision
  patchAll head (namesHead friendly factory board revision)

/-- The transmit listings: a page of no items. -/
def emptyPage : AoipMsg Unit := do
  let pg ← pageBegin 8 0
  pageEnd pg

/-- The bitmask of slot `k`: the local channel it feeds. -/
def slotMask (f : SubscriberFlow) (k : ℕ) : ℕ := if f.slotToCh k ≥ 0 then u16 (2 ^ (f.slotToCh k).toNat) else 0

/-- The loop over the slots; `masks` collects where each bitmask lies. -/
def putMasks (f : SubscriberFlow) : ℕ → ℕ → List ℕ → AoipMsg (List ℕ)
  | 0, _, masks => pure masks
  | n + 1, k, masks => do
    StateT.lift (checked (.slot k) (k < AP_MAX_CH_PER_FLOW) ())
    let off ← aoipMsgLen
    aoipMsgU16 (slotMask f k)
    putMasks f n (k + 1) (masks ++ [u16 off])

/-- The socket and the latency descriptor of a flow, with their offsets. -/
def putSocket (ip : List UInt8) (f : SubscriberFlow) : AoipMsg ℕ := do
  let sock ← aoipMsgLen
  aoipMsgU16 0x8002
  aoipMsgU16 f.rxPort
  aoipMsgBytes ip
  pure (u16 sock)

def putLatency (latencyUs : ℕ) : AoipMsg ℕ := do
  let lat ← aoipMsgLen
  aoipMsgU16 9
  aoipMsgU16 1
  aoipMsgU16 0x800
  aoipMsgU16 0
  aoipMsgU32 (latencyUs * 1000)
  aoipMsgU32 0
  pure (u16 lat)

def putFlow (f : SubscriberFlow) (sock lat : ℕ) (masks : List ℕ) : AoipMsg ℕ := do
  let desc ← aoipMsgLen
  aoipMsgU16 (f.slot + 1)
  aoipMsgU16 1
  aoipMsgU32 prof.hz
  aoipMsgU16 0
  aoipMsgU16 AP_BITS_PER_SAMPLE
  aoipMsgU16 1
  aoipMsgU16 f.nslots
  aoipMsgU16 1
  aoipMsgU16 sock
  masks.forM aoipMsgU16
  aoipMsgU16 lat
  pure (u16 desc)

def rxFlowItems (ip : List UInt8) (latencyUs : ℕ) : List SubscriberFlow → PageT → AoipMsg PageT
  | [], pg => pure pg
  | f :: fl, pg => do
    alignRounds 3
    let sock ← putSocket ip f
    let lat ← putLatency latencyUs
    let masks ← putMasks f f.nslots 0 []
    alignRounds 3
    let desc ← putFlow prof f sock lat masks
    aoipMsgPut (pageSlot pg) (dwWr16 desc)
    rxFlowItems ip latencyUs fl { pg with actual := pg.actual + 1 }

def rxFlowPage (ip : List UInt8) (latencyUs : ℕ) (fl : List SubscriberFlow) : AoipMsg Unit := do
  let pg ← pageBegin 2 AP_MAX_FLOWS
  let pg ← rxFlowItems prof ip latencyUs fl pg
  pageEnd pg

def netifBytes (netif : Option UInt32) : List UInt8 :=
  match netif with
  | some a => dwWr32 a.toNat
  | none => [0, 0, 0, 0]

def rxFlows (env : ArcEnv) (st : ArcState) : AoipMsg Unit :=
  rxFlowPage prof (netifBytes env.netif) st.clk.latencyUs (subscriberGetFlows st.sub)

/-- The 20 bytes of a receive channel in its slot. -/
def rxItem (idx common txOff hostOff nameOff status : ℕ) : List UInt8 :=
  dwWr16 idx ++ dwWr16 6 ++ dwWr16 common ++ dwWr16 txOff ++ dwWr16 hostOff ++ dwWr16 nameOff ++ dwWr32 status ++
    dwWr32 0

/-- One receive channel: its strings behind the table, then its slot; returns the common
descriptor's offset. -/
def putRxChannel (ch : RxChannel) (idx common : ℕ) (pg : PageT) : AoipMsg ℕ := do
  let common ← (if common = 0 then putCommonDescriptor prof else pure common)
  let nameOff ← aoipMsgStr ch.friendly
  let txOff ← (if ch.txChannel ≠ [] then aoipMsgStr ch.txChannel else pure 0)
  let hostOff ← (if ch.txChannel ≠ [] ∧ ch.txDevice ≠ [] then aoipMsgStr ch.txDevice else pure 0)
  aoipMsgPut (pageSlot pg) (rxItem idx common txOff hostOff nameOff ch.status.word)
  pure common

/-- The loop over the channels from `idx` on, with `room` slots of the page left: the
index it stops at and the page. -/
def rxChannelItems (s : Sub) : ℕ → ℕ → ℕ → PageT → AoipMsg (ℕ × PageT)
  | 0, idx, _, pg => pure (idx, pg)
  | room + 1, idx, common, pg =>
    if idx ≤ AP_NCH then
      match subscriberChannel s (u8 (idx - 1)) with
      | none => StateT.lift (.error .null)
      | some ch => do
        let common ← putRxChannel prof ch idx common pg
        let pg := { pg with actual := pg.actual + 1 }
        if (← aoipMsgLen) ≥ PACKET_SIZE_SOFT_LIMIT then pure (idx + 1, pg)
        else rxChannelItems s room (idx + 1) common pg
    else pure (idx, pg)

/-- The page of receive channels from `start` on; returns the code. -/
def putRxPage (s : Sub) (start : ℕ) : AoipMsg ℕ := do
  let pg ← pageBegin 20 AP_NCH
  let stop ← rxChannelItems prof s pg.space start 0 pg
  pageEnd stop.2
  pure (if stop.1 ≤ AP_NCH then AOIP_CODE_MORE else AOIP_CODE_OK)

def getRxChannels (req : List UInt8) (s : Sub) : AoipMsg ℕ := do
  let start ← StateT.lift
    (if req.length - AOIP_HDR_LEN ≥ 4 then aoipReqU16 req (AOIP_HDR_LEN + 2) else .ok 1)
  putRxPage prof s (if start = 0 then 1 else start)

/-- The loop of `ARC_OP_RENAME_RX_CHANNELS` from entry `i` on. -/
def renameFrom (req : List UInt8) : ℕ → ℕ → Sub → Bool → Except MsgFault (Sub × Bool)
  | 0, _, s, any => .ok (s, any)
  | n + 1, i, s, any =>
    if 2 + i * 4 + 4 > req.length - AOIP_HDR_LEN then .ok (s, any)
    else do
      let ch ← aoipReqU16 req (AOIP_HDR_LEN + (2 + i * 4))
      let off ← aoipReqU16 req (AOIP_HDR_LEN + (2 + i * 4 + 2))
      let nm ← reqStr req 32 off
      if ch ≥ 1 ∧ ch ≤ AP_NCH ∧ nm ≠ [] then renameFrom req n (i + 1) (subscriberRename (u8 (ch - 1)) nm s) true
      else renameFrom req n (i + 1) s any

/-- `content[1]`, or 0 where the request is too short for it. -/
def entryCount (req : List UInt8) : Except MsgFault ℕ :=
  if req.length - AOIP_HDR_LEN ≥ 2 then UInt8.toNat <$> reqByte req (AOIP_HDR_LEN + 1) else .ok 0

def renameRxChannels (req : List UInt8) (s : Sub) : Except MsgFault (Sub × ℕ) := do
  let n ← entryCount req
  let (s, any) ← renameFrom req n 0 s false
  .ok (s, if any then AOIP_CODE_OK else CODE_UNSUPPORTED)

/-- The loop of `ARC_OP_SET_SUBSCRIPTIONS` from entry `i` on. -/
def subscribeFrom (req : List UInt8) : ℕ → ℕ → Sub → Except MsgFault Sub
  | 0, _, s => .ok s
  | n + 1, i, s =>
    if 2 + i * 6 + 6 > req.length - AOIP_HDR_LEN then .ok s
    else do
      let ch ← aoipReqU16 req (AOIP_HDR_LEN + (2 + i * 6))
      let nmOff ← aoipReqU16 req (AOIP_HDR_LEN + (2 + i * 6 + 2))
      let nm ← reqStr req 32 nmOff
      let hostOff ← aoipReqU16 req (AOIP_HDR_LEN + (2 + i * 6 + 4))
      let host ← reqStr req 32 hostOff
      if ch ≥ 1 ∧ ch ≤ AP_NCH then subscribeFrom req n (i + 1) (subscriberSetAt (u8 (ch - 1)) nm host s)
      else subscribeFrom req n (i + 1) s

def setSubscriptions (req : List UInt8) (s : Sub) : Except MsgFault Sub := do
  let n ← entryCount req
  subscribeFrom req n 0 s

/-- Opcode 0x3014. -/
def unsubscribe (req : List UInt8) (s : Sub) : Except MsgFault Sub :=
  if req.length - AOIP_HDR_LEN ≥ 6 then do
    let ch ← aoipReqU16 req (AOIP_HDR_LEN + 4)
    .ok (if ch ≥ 1 ∧ ch ≤ AP_NCH then subscriberSetAt (u8 (ch - 1)) [] [] s else s)
  else .ok s

/-- The four patches of opcode 0x1100. -/
def patchTable (st : ArcState) : Except MsgFault (List UInt8) := do
  let curNs := u32 (st.clk.cfgUs * 1000)
  let minNs := u32 (prof.latencyMinUs * 1000)
  let t ← arc1100PatchU32 0x8205 curNs st.table
  let t ← arc1100PatchU32 0x8301 curNs t
  let t ← arc1100PatchU32 0x8306 minNs t
  arc1100PatchU32 0x8020 prof.hz t

def setLatency (env : ArcEnv) (req : List UInt8) (c : MediaClock) : AoipMsg (ℕ × MediaClock) :=
  if req.length - AOIP_HDR_LEN < 30 then pure (CODE_UNSUPPORTED, c)
  else do
    let v1 ← StateT.lift (aoipReqU32 req (AOIP_HDR_LEN + 22))
    let v2 ← StateT.lift (aoipReqU32 req (AOIP_HDR_LEN + 26))
    if v1 ≠ v2 ∨ v1 < 100000 ∨ v1 > 40000000 then pure (CODE_UNSUPPORTED, c)
    else do
      aoipMsgBytes (req.drop AOIP_HDR_LEN)
      pure (AOIP_CODE_OK, mclkSetLatencyUs prof env.clockIn (v1 / 1000) c)

/-- The `switch` of `handle`: the code and what the request changed. -/
def arcSwitch (env : ArcEnv) (req : List UInt8) (st : ArcState) (opcode : ℕ) : AoipMsg (ℕ × ArcState) :=
  if opcode = ARC_OP_CHANNEL_COUNTS then do
    channelCounts
    pure (AOIP_CODE_OK, st)
  else if opcode = ARC_OP_GET_DEVICE_NAME then do
    let _ ← aoipMsgStr env.hostname
    pure (AOIP_CODE_OK, st)
  else if opcode = ARC_OP_GET_DEVICE_NAMES then do
    deviceNames env.hostname
    pure (AOIP_CODE_OK, st)
  else if opcode = ARC_OP_GET_TX_CHANNELS ∨ opcode = 0x2010 ∨ opcode = 0x2200 ∨ opcode = 0x2204 then do
    emptyPage
    pure (AOIP_CODE_OK, st)
  else if opcode = 0x3200 then do
    rxFlows prof env st
    pure (AOIP_CODE_OK, st)
  else if opcode = ARC_OP_GET_RX_CHANNELS then do
    let code ← getRxChannels prof req st.sub
    pure (code, st)
  else if opcode = ARC_OP_RENAME_RX_CHANNELS then do
    let (sub, code) ← StateT.lift (renameRxChannels req st.sub)
    pure (code, { st with sub := sub })
  else if opcode = ARC_OP_SET_SUBSCRIPTIONS then do
    let sub ← StateT.lift (setSubscriptions req st.sub)
    pure (AOIP_CODE_OK, { st with sub := sub })
  else if opcode = 0x3014 then do
    let sub ← StateT.lift (unsubscribe req st.sub)
    pure (AOIP_CODE_OK, { st with sub := sub })
  else if opcode = 0x3300 then do
    aoipMsgU16 0x3800
    aoipMsgU16 0x38fd
    aoipMsgU16 0x38fe
    aoipMsgU16 0x38ff
    pure (AOIP_CODE_OK, st)
  else if opcode = 0x1100 then do
    let table ← StateT.lift (patchTable prof st)
    aoipMsgBytes table
    pure (AOIP_CODE_OK, { st with table := table })
  else if opcode = 0x1102 then do
    aoipMsgBytes arc1102Body
    pure (AOIP_CODE_OK, st)
  else if opcode = ARC_OP_SET_LATENCY then do
    let (code, clk) ← setLatency prof env req st.clk
    pure (code, { st with clk := clk })
  else if opcode = 0x2320 ∨ opcode = 0x4100 then pure (0x30, st)
  else if opcode = 0x2032 then do
    aoipMsgU16 0
    pure (AOIP_CODE_OK, st)
  else pure (CODE_UNSUPPORTED, st)

/-- The reply whose code and body `x` makes, between its header and its end. -/
def respond {α : Type} (req : List UInt8) (x : AoipMsg (ℕ × α)) : Except MsgFault (List UInt8 × ℕ × α) := do
  let m ← aoipMsgBegin req
  let ((code, a), m) ← x m
  let (len, m) ← aoipMsgFinish code m
  .ok (m.take len, code, a)

/-- `handle`: the reply of the returned length, its code, and the state after it. -/
def handle (env : ArcEnv) (req : List UInt8) (st : ArcState) : Except MsgFault (List UInt8 × ℕ × ArcState) := do
  let opcode ← aoipReqU16 req 6
  let m ← aoipMsgBegin req
  let ((code, st), m) ← arcSwitch prof env req st opcode m
  let (len, m) ← aoipMsgFinish code m
  .ok (m.take len, code, st)

/-- A request to `arc_task`, and what the other tasks made of the shared state before it. -/
structure ArcTurn where
  env : ArcEnv
  req : List UInt8
  sub : Sub
  clk : MediaClock

def ArcTurn.state (t : ArcTurn) (table : List UInt8) : ArcState where
  sub := t.sub
  clk := t.clk
  table := table

/-- One request: what it leaves in `arc_1100_body`, the one thing the ARC task owns. -/
def arcServe (table : List UInt8) (t : ArcTurn) : Except MsgFault (List UInt8) := do
  let (_, _, st) ← handle prof t.env t.req (t.state table)
  .ok st.table

def arcTable (l : List ArcTurn) : Except MsgFault (List UInt8) := l.foldlM (arcServe prof) arc1100Body

end Inferno
