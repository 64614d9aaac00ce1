import Inferno.Proofs.ArcReplies
import Inferno.Spec.Telem

/-! A controller reads the list of receive flows: through the offsets of an item it finds
the flow's descriptor, its socket, the bitmask of each slot and its latency. -/

namespace Inferno

open Lib

/-- A receive flow as a controller lists it. -/
structure FlowDesc where
  id : ℕ
  port : ℕ
  addr : List UInt8
  rate : ℕ
  nslots : ℕ
  masks : List ℕ
  latencyNs : ℕ
  deriving DecidableEq

/-- The descriptor the item at `i` leads to, and the socket that leads to. -/
def descOff (r : List UInt8) (i : ℕ) : ℕ := dwRd16 (memOf r) i

def sockOff (r : List UInt8) (i : ℕ) : ℕ := dwRd16 (memOf r) (descOff r i + 18)

/-- The flow of the item at `i`, read through its offsets. -/
def FlowDesc.read (r : List UInt8) (i : ℕ) : FlowDesc :=
  let desc := descOff r i
  let n := dwRd16 (memOf r) (desc + 14)
  { id := dwRd16 (memOf r) desc
    port := dwRd16 (memOf r) (sockOff r i + 2)
    addr := bytesAt (memOf r) (sockOff r i + 4) 4
    rate := dwRd32 (memOf r) (desc + 4)
    nslots := n
    masks := (List.range n).map fun k => dwRd16 (memOf r) (dwRd16 (memOf r) (desc + 20 + 2 * k))
    latencyNs := dwRd32 (memOf r) (dwRd16 (memOf r) (desc + 20 + 2 * n) + 8) }

/-- The count of items, and where each of them stands. -/
def flowCount (r : List UInt8) : ℕ := (memOf r 11).toNat

def itemOff (j : ℕ) : ℕ := 12 + 2 * j

def readFlows (r : List UInt8) : List FlowDesc := (List.range (flowCount r)).map fun j => FlowDesc.read r (itemOff j)

/-- A flow slot as the subscriber may hold it: up to eight slots, each mapped to a channel
or to none. -/
structure FlowView.Valid (v : FlowView) : Prop where
  port : v.rxPort < 2 ^ 16
  slots : 1 ≤ v.nslots ∧ v.nslots ≤ AP_MAX_CH_PER_FLOW
  map : ∀ k < v.nslots, v.slotToCh k = -1 ∨ 0 ≤ v.slotToCh k ∧ v.slotToCh k < AP_NCH

/-- The bit of a channel, 0 for none. -/
def channelBit (c : ℤ) : ℕ := if c = -1 then 0 else 2 ^ c.toNat

def FlowView.desc (prof : RateProfile) (netif : Option UInt32) (latencyUs : ℕ) (v : FlowView) (i : Fin AP_MAX_FLOWS) : FlowDesc where
  id := i + 1
  port := v.rxPort
  addr := netifBytes netif
  rate := prof.hz
  nslots := v.nslots
  masks := (List.range v.nslots).map fun k => channelBit (v.slotToCh k)
  latencyNs := u32 (latencyUs * 1000)

def listed (prof : RateProfile) (netif : Option UInt32) (latencyUs : ℕ) (view : Fin AP_MAX_FLOWS → FlowView) : List FlowDesc :=
  ((List.finRange AP_MAX_FLOWS).filter fun i => (view i).active).map fun i => (view i).desc prof netif latencyUs i

def SubscriberFlow.desc (prof : RateProfile) (ip : List UInt8) (latencyUs : ℕ) (f : SubscriberFlow) : FlowDesc where
  id := u16 (f.slot + 1)
  port := u16 f.rxPort
  addr := ip
  rate := u32 prof.hz
  nslots := f.nslots
  masks := (List.range f.nslots).map fun k => u16 (slotMask f k)
  latencyNs := u32 (latencyUs * 1000)

section
variable {prof : RateProfile} {ip r : List UInt8} {latencyUs desc sock lat i : ℕ} {f : SubscriberFlow} {masks : List ℕ}
  {fl : List SubscriberFlow}

theorem FlowPlaced.read (h : FlowPlaced prof ip latencyUs f desc sock lat masks r) (hat : Sits (dwWr16 desc) r i)
    (hr : r.length ≤ 1024) (hip : ip.length = 4) (hn : f.nslots ≤ AP_MAX_CH_PER_FLOW) :
    descOff r i = desc ∧ sockOff r i = sock ∧ FlowDesc.read r i = f.desc prof ip latencyUs := by
  rw [AP_MAX_CH_PER_FLOW] at hn
  have hin := h.desc.inside
  have hins := h.socket.inside
  have hinl := h.latency.inside
  have hdesc : descOff r i = desc := by
    rw [descOff, dwRd16_of_sits hat, u16_of_lt (by omega)]
  have hparts := h.desc
  simp only [flowHead, sits_append_iff, List.length_append, dwWr16_length, dwWr32_length, Nat.reduceAdd] at hparts
  obtain ⟨⟨⟨⟨⟨⟨⟨⟨⟨⟨hid, -⟩, hrate⟩, -⟩, -⟩, -⟩, hslots⟩, -⟩, hsock⟩, hmasks⟩, hlat⟩ := hparts
  have hwidth : (masks.flatMap dwWr16).length = 2 * f.nslots := by
    rw [List.length_flatMap, ← h.count]
    simp [Nat.mul_comm]
  have hsockOff : sockOff r i = sock := by
    rw [sockOff, hdesc, dwRd16_of_sits hsock, u16_of_lt (by omega)]
  have hlatAt : Sits (dwWr16 lat) r (desc + 20 + 2 * f.nslots) := hlat.at (by omega)
  have hlatOff : dwRd16 (memOf r) (desc + 20 + 2 * f.nslots) = lat := by
    rw [dwRd16_of_sits hlatAt, u16_of_lt (by omega)]
  have hcount : dwRd16 (memOf r) (desc + 14) = f.nslots := by
    rw [dwRd16_of_sits hslots, u16_of_lt (by omega)]
  have hns : Sits (dwWr32 (latencyUs * 1000)) r (lat + 8) := (sits_append_iff.mp (sits_append_iff.mp h.latency).1).2
  have hport : Sits (dwWr16 f.rxPort) r (sock + 2) := (sits_append_iff.mp (sits_append_iff.mp h.socket).1).2
  have haddr : bytesAt (memOf r) (sock + 4) 4 = ip := by
    have hsits : Sits ip r (sock + 4) := (sits_append_iff.mp h.socket).2
    rw [← hip]
    exact bytesAt_of_sits (hip.symm ▸ hsits)
  have hbits : ((List.range f.nslots).map fun k => dwRd16 (memOf r) (dwRd16 (memOf r) (desc + 20 + 2 * k))) =
      (List.range f.nslots).map fun k => u16 (slotMask f k) := by
    refine List.map_congr_left fun k hk => ?_
    have hk' : k < masks.length := by
      rw [h.count]
      exact List.mem_range.mp hk
    obtain ⟨off, hoff, -, hbit⟩ := h.masks k hk'
    have hword := hmasks.record dwWr16_length hk'
    have hget : masks.get ⟨k, hk'⟩ = off := by
      rw [List.getElem?_eq_getElem hk'] at hoff
      exact Option.some.inj hoff
    have hinb := hbit.inside
    rw [dwWr16_length] at hinb
    rw [hget] at hword
    rw [dwRd16_of_sits hword, u16_of_lt (by omega), dwRd16_of_sits hbit]
  refine ⟨hdesc, hsockOff, ?_⟩
  rw [FlowDesc.read, hdesc, hsockOff, hcount, hlatOff, hbits, dwRd16_of_sits hid, dwRd16_of_sits hport, dwRd32_of_sits hrate,
    dwRd32_of_sits hns, haddr, SubscriberFlow.desc]

/-- A list read through its offsets is its flows, each in descriptors that are aligned. -/
theorem RxFlowsListed.read (h : RxFlowsListed prof ip latencyUs fl r) (hr : r.length ≤ 1024) (hip : ip.length = 4)
    (hlen : fl.length ≤ AP_MAX_FLOWS) (hslots : ∀ f ∈ fl, f.nslots ≤ AP_MAX_CH_PER_FLOW) :
    readFlows r = fl.map (SubscriberFlow.desc prof ip latencyUs) ∧
      ∀ j < flowCount r, descOff r (itemOff j) % 4 = 0 ∧ sockOff r (itemOff j) % 4 = 0 := by
  rw [AP_MAX_FLOWS] at hlen
  have hcount : flowCount r = fl.length := by
    have hbyte : r.getD (AOIP_HDR_LEN + 1) 0 = UInt8.ofNat fl.length := h.count.getD 0 (by simp)
    change (r.getD (AOIP_HDR_LEN + 1) 0).toNat = fl.length
    rw [hbyte, UInt8.toNat_ofNat', Nat.mod_eq_of_lt (by omega)]
  have hitem : ∀ j (hj : j < fl.length), descOff r (itemOff j) % 4 = 0 ∧ sockOff r (itemOff j) % 4 = 0 ∧
      FlowDesc.read r (itemOff j) = fl[j].desc prof ip latencyUs := by
    intro j hj
    obtain ⟨desc, sock, lat, masks, hat, hplaced⟩ := h.page j fl[j] (List.getElem?_eq_getElem hj)
    obtain ⟨hdesc, hsock, hread⟩ := hplaced.read hat hr hip (hslots _ (List.getElem_mem hj))
    exact ⟨hdesc.symm ▸ hplaced.aligned.1, hsock.symm ▸ hplaced.aligned.2, hread⟩
  refine ⟨?_, fun j hj => ⟨(hitem j (hcount ▸ hj)).1, (hitem j (hcount ▸ hj)).2.1⟩⟩
  rw [readFlows, hcount]
  apply List.ext_getElem
  · rw [List.length_map, List.length_map, List.length_range]
  · intro j hj hj'
    rw [List.length_map] at hj'
    rw [List.getElem_map, List.getElem_map, List.getElem_range]
    exact (hitem j hj').2.2

theorem FlowView.Valid.listed_desc {v : FlowView} (h : v.Valid) (hhz : prof.hz < 2 ^ 32) (netif : Option UInt32) (i : Fin AP_MAX_FLOWS) :
    (SubscriberFlow.mk i v.rxPort v.nslots v.slotToCh).desc prof (netifBytes netif) latencyUs = v.desc prof netif latencyUs i := by
  have hi : i.val < 4 := i.isLt
  have hmasks : ((List.range v.nslots).map fun k => u16 (slotMask ⟨i, v.rxPort, v.nslots, v.slotToCh⟩ k)) =
      (List.range v.nslots).map fun k => channelBit (v.slotToCh k) := by
    refine List.map_congr_left fun k hk => ?_
    rcases h.map k (List.mem_range.mp hk) with hnone | ⟨h0, h8⟩
    · have hneg : ¬ v.slotToCh k ≥ 0 := by omega
      rw [slotMask, channelBit, if_neg hneg, if_pos hnone]
      rfl
    · have h8' : v.slotToCh k < 8 := h8
      have hpow : 2 ^ (v.slotToCh k).toNat < 2 ^ 16 := Nat.pow_lt_pow_right (by decide) (by omega)
      rw [slotMask, channelBit, if_pos h0, if_neg (by omega), u16_u16, u16_of_lt hpow]
  simp only [SubscriberFlow.desc, FlowView.desc, hmasks, u16_of_lt h.port]
  rw [u16_of_lt (by omega), u32, Nat.mod_eq_of_lt hhz]

theorem map_desc_getFlows {view : Fin AP_MAX_FLOWS → FlowView} (hv : ∀ i, (view i).active = true → (view i).Valid)
    (hhz : prof.hz < 2 ^ 32) (netif : Option UInt32) :
    (getFlows view).map (SubscriberFlow.desc prof (netifBytes netif) latencyUs) = listed prof netif latencyUs view := by
  unfold getFlows listed
  induction List.finRange AP_MAX_FLOWS with
  | nil => rfl
  | cons i l ih =>
    cases ha : (view i).active with
    | false =>
      simp only [List.filterMap_cons, List.filter_cons, ha, Bool.false_eq_true, if_false]
      exact ih
    | true =>
      simp only [List.filterMap_cons, List.filter_cons, ha, if_true, List.map_cons]
      rw [ih, (hv i ha).listed_desc hhz]

end

/-- The reply to opcode 0x3200 with `view` for the subscriber's flow table. -/
def rxFlowsReply (prof : RateProfile) (netif : Option UInt32) (latencyUs : ℕ) (req : List UInt8)
    (view : Fin AP_MAX_FLOWS → FlowView) : Except MsgFault (List UInt8 × ℕ × Unit) :=
  respond req do
    rxFlowPage prof (netifBytes netif) latencyUs (getFlows view)
    pure (AOIP_CODE_OK, ())

theorem respond_value {α β : Type} {req r : List UInt8} {x : AoipMsg Unit} {code c : ℕ} {a : α} (b : β)
    (h : respond req (do x; pure (code, a)) = .ok (r, c, a)) : respond req (do x; pure (code, b)) = .ok (r, c, b) := by
  unfold respond at h ⊢
  rcases hbegin : aoipMsgBegin req with e | m
  · rw [hbegin] at h
    cases h
  · rw [hbegin, ok_bind] at h
    rw [ok_bind]
    change ((x m >>= fun p => .ok ((code, a), p.2)) >>= fun p => aoipMsgFinish p.1.1 p.2 >>= fun q =>
      .ok (q.2.take q.1, p.1.1, p.1.2)) = _ at h
    change ((x m >>= fun p => .ok ((code, b), p.2)) >>= fun p => aoipMsgFinish p.1.1 p.2 >>= fun q =>
      .ok (q.2.take q.1, p.1.1, p.1.2)) = _
    rcases hbody : x m with e | p
    · rw [hbody] at h
      cases h
    · rw [hbody, ok_bind, ok_bind] at h
      rw [ok_bind, ok_bind]
      rcases hfinish : aoipMsgFinish code p.2 with e | q
      · rw [hfinish] at h
        cases h
      · rw [hfinish, ok_bind] at h
        rw [ok_bind]
        cases h
        rfl

/-- `handle` gives that reply for the table of its state, and leaves the state. -/
theorem handle_rxFlows (prof : RateProfile) (env : ArcEnv) {req r : List UInt8} (hlow : AOIP_HDR_LEN ≤ req.length)
    (hop : dwRd16 (memOf req) 6 = 0x3200) {st : ArcState} {view : Fin AP_MAX_FLOWS → FlowView}
    (hview : ∀ i, (st.sub.flow i).view = view i)
    (h : rxFlowsReply prof env.netif st.clk.latencyUs req view = .ok (r, AOIP_CODE_OK, ())) :
    handle prof env req st = .ok (r, AOIP_CODE_OK, st) := by
  have hflows : subscriberGetFlows st.sub = getFlows view := congrArg getFlows (funext hview)
  have hcase : arcSwitch prof env req st (dwRd16 (memOf req) 6) =
      (do rxFlowPage prof (netifBytes env.netif) st.clk.latencyUs (getFlows view); pure (AOIP_CODE_OK, st)) := by
    rw [hop, ← hflows]
    rfl
  rw [handle_eq_respond prof env hlow, hcase]
  exact respond_value st h

/-- Whatever flows are active and wherever their slots go, the reply to 0x3200 read back
through its offsets is one descriptor for each active flow, in their order, with the
effective latency in the 32 bits the reply has for its nanoseconds, and every descriptor and
socket lies at a multiple of four. -/
theorem rx_flows_decode (prof : RateProfile) (hhz : prof.hz < 2 ^ 32) (env : ArcEnv) {req : List UInt8}
    (hlow : AOIP_HDR_LEN ≤ req.length) (hop : dwRd16 (memOf req) 6 = 0x3200) (view : Fin AP_MAX_FLOWS → FlowView)
    (hv : ∀ i, (view i).active = true → (view i).Valid) (latencyUs : ℕ) :
    ∃ r, rxFlowsReply prof env.netif latencyUs req view = .ok (r, AOIP_CODE_OK, ()) ∧
      readFlows r = listed prof env.netif latencyUs view ∧
      (∀ j < flowCount r, descOff r (itemOff j) % 4 = 0 ∧ sockOff r (itemOff j) % 4 = 0) ∧
      ∀ st : ArcState, (∀ i, (st.sub.flow i).view = view i) → st.clk.latencyUs = latencyUs →
        handle prof env req st = .ok (r, AOIP_CODE_OK, st) := by
  have hslots : ∀ f ∈ getFlows view, f.nslots ≤ AP_MAX_CH_PER_FLOW := by
    intro f hf
    obtain ⟨i, ha, rfl⟩ := getFlows_mem hf
    exact (hv i ha).slots.2
  have hbody (m0 : List UInt8) (hm0 : m0.length = AOIP_HDR_LEN) :
      Ends (do rxFlowPage prof (netifBytes env.netif) latencyUs (getFlows view); pure (AOIP_CODE_OK, ())) m0 fun p m =>
        Sits m0 m 0 ∧ p.1 = AOIP_CODE_OK ∧ m.length ≤ 356 ∧
          RxFlowsListed prof (netifBytes env.netif) latencyUs (getFlows view) m := by
    refine (ends_rxFlowPage (netifBytes_length env.netif) (getFlows_length view) hslots hm0).bind ?_
    intro _ m h
    exact ends_pure ⟨h.1, rfl, h.2.1, h.2.2⟩
  obtain ⟨r, code, _, m, hrun, ⟨hcode, hlen, hlisted⟩, hdone⟩ := respond_of_body hlow hbody
  obtain rfl : code = AOIP_CODE_OK := hcode
  obtain ⟨m1, ho1, ho2⟩ := hdone.only
  have hreply := (hlisted.frame ho1 (by decide)).frame ho2 (by decide)
  have hsame := hdone.same
  obtain ⟨hread, haligned⟩ := hreply.read (by omega) (netifBytes_length env.netif) (getFlows_length view) hslots
  refine ⟨r, hrun, hread.trans (map_desc_getFlows hv hhz env.netif), haligned, ?_⟩
  rintro st hview rfl
  exact handle_rxFlows prof env hlow hop hview hrun

def flowsRequest : List UInt8 := [0x27, 0xFF, 0x00, 0x0A, 0x00, 0x01, 0x32, 0x00, 0x00, 0x00]

/-- Slot 1 of the table feeds channels 1 and 6 and drops the slot between; slot 3 feeds channel 8. -/
def twoFlows (i : Fin AP_MAX_FLOWS) : FlowView :=
  if i.val = 1 then ⟨true, 14337, 3, fun k => [0, -1, 5].getD k (-1)⟩
  else if i.val = 3 then ⟨true, 14339, 1, fun k => [7].getD k (-1)⟩
  else ⟨false, 0, 0, fun _ => -1⟩

theorem twoFlows_valid (i : Fin AP_MAX_FLOWS) (ha : (twoFlows i).active = true) : (twoFlows i).Valid := by
  unfold twoFlows at ha ⊢
  split_ifs at ha ⊢
  · exact ⟨by decide, by decide, by decide⟩
  · exact ⟨by decide, by decide, by decide⟩

theorem rx_flows_decode_two :
    ∃ r, rxFlowsReply rate48k none 2000 flowsRequest twoFlows = .ok (r, AOIP_CODE_OK, ()) ∧
      readFlows r = [⟨2, 14337, [0, 0, 0, 0], 48000, 3, [1, 0, 32], 2000000⟩, ⟨4, 14339, [0, 0, 0, 0], 48000, 1, [128], 2000000⟩] := by
  obtain ⟨r, hrun, hread, -⟩ := rx_flows_decode rate48k (by decide) ⟨[], none, ⟨ptpv1State0, none, 0⟩⟩
    (by decide : AOIP_HDR_LEN ≤ flowsRequest.length) (by decide) twoFlows twoFlows_valid 2000
  exact ⟨r, hrun, hread.trans (by decide +kernel)⟩

def shownLatencies : Except MsgFault (List UInt8 × ℕ × ArcState) → List ℕ
  | .ok p => (readFlows p.1).map FlowDesc.latencyNs
  | .error _ => []

/-- A query whose number is not negative forces less than a second. -/
theorem forcedUs_lt (q : List UInt8) (hq : 0 ≤ Lib.atoi (queryText q).tail) : forcedUs q < 10 ^ 6 := by
  have hlen : (queryText q).tail.length ≤ 6 := by
    rw [queryText, List.length_tail, List.length_take]
    omega
  have h := Lib.atoi_lt hlen
  simp only [forcedUs, asU32]
  omega

/-- `F-1`. -/
def negativeQuery : List UInt8 := [0x46, 0x2D, 0x31]

/-- A device with one flow up and the latency forced on it that the query asks for. -/
def forcedDevice : ArcState where
  sub := Sub.boot.setFlow 0 { FlowSlot.zero with
    state := .active, req := { FlowSlot.zero.req with txChannelId := [1], rxPort := 14336 }, slotToCh := [0] }
  clk := forceQuery rate48k firstQuery.env.clockIn negativeQuery firstQuery.clk
  table := arc1100Body

/-- The nanoseconds do not fit the field: what is read is not the latency in force. -/
theorem forced_latency_wraps :
    forcedDevice.clk.latencyUs = 4294967295 ∧
      shownLatencies (handle rate48k firstQuery.env flowsRequest forcedDevice) = [4294966296] := by
  decide +kernel

end Inferno
