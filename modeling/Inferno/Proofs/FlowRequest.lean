import Inferno.Spec.FlowsClient

/-! The flow request round trip: a transmitter that follows the offsets of the packet
reads what the subscriber asked for. -/

namespace Inferno

open Lib

theorem writeAll_ok {cap : ℕ} {b : List UInt8} {l : List (List UInt8)} (h : b.length + l.flatten.length ≤ cap) :
    writeAll cap b l = .ok (b ++ l.flatten) := by
  induction l generalizing b with
  | nil => simp [writeAll]
  | cons x l ih =>
    rw [List.flatten_cons, List.length_append] at h
    have hx : writeNext cap b x = .ok (b ++ x) := checked_ok (by omega) _
    have hl : l.foldlM (writeNext cap) (b ++ x) = .ok (b ++ x ++ l.flatten) :=
      ih (by rw [List.length_append]; omega)
    rw [writeAll, List.foldlM_cons, hx, ok_bind, hl, List.flatten_cons, List.append_assoc]

theorem padStrings_eq (so : ℕ) {n : ℕ} {s : List UInt8} (hroom : s.length + n ≤ STRINGS_LEN)
    (hnear : (8 - (s.length + so) % 8) % 8 ≤ n) :
    ∃ k ≤ n, padStrings so n s = some (s ++ List.replicate k 0) ∧ (s.length + k + so) % 8 = 0 := by
  induction n generalizing s with
  | zero => exact ⟨0, le_rfl, by simp [padStrings], by omega⟩
  | succ n ih =>
    by_cases hal : (s.length + so) % 8 = 0
    · exact ⟨0, Nat.zero_le _, by simp [padStrings, hal], hal⟩
    · have hlen : (s ++ [0]).length = s.length + 1 := by simp
      obtain ⟨k, hk, he, hmod⟩ := ih (s := s ++ [0]) (by omega) (by omega)
      refine ⟨k + 1, by omega, ?_, by omega⟩
      rw [padStrings, if_neg hal, if_neg (by omega), he, List.append_assoc]
      rfl

section
variable {hostname : CStr} {r : FlowRequestT}

def requestTail (hostname : CStr) (ip : UInt32) (r : FlowRequestT) (k : ℕ) : List UInt8 :=
  hostname ++ [0] ++ (r.rxFlowName ++ [0]) ++ List.replicate k 0 ++
    (dwWr16 0x0802 ++ (dwWr16 r.rxPort.toNat ++ dwWr32 ip.toNat))

theorem requestStrings_eq (ip : UInt32) (hhost : hostname.length ≤ 31) (hname : r.rxFlowName.length ≤ 31) (so : ℕ) :
    ∃ k ≤ 7, requestStrings hostname (some ip) r so = .ok (some (requestTail hostname ip r k,
        u16 (hostname.length + 1 + so), u16 (hostname.length + r.rxFlowName.length + 2 + k + so))) ∧
      (hostname.length + r.rxFlowName.length + 2 + k + so) % 8 = 0 := by
  have hs1 : writeAll STRINGS_LEN [] [hostname, [0]] = .ok (hostname ++ [0]) := by
    rw [writeAll_ok (by simp [STRINGS_LEN]; omega)]
    simp
  have hs2 : writeAll STRINGS_LEN (hostname ++ [0]) [r.rxFlowName, [0]] =
      .ok (hostname ++ [0] ++ (r.rxFlowName ++ [0])) := by
    rw [writeAll_ok (by simp [STRINGS_LEN]; omega)]
    simp
  have hl1 : (hostname ++ [0]).length = hostname.length + 1 := by simp
  have hl2 : (hostname ++ [0] ++ (r.rxFlowName ++ [0])).length = hostname.length + r.rxFlowName.length + 2 := by
    simp only [List.length_append, List.length_singleton]
    omega
  obtain ⟨k, hk, hpad, hmod⟩ := padStrings_eq so (n := 7) (s := hostname ++ [0] ++ (r.rxFlowName ++ [0]))
    (by rw [hl2, STRINGS_LEN]; omega) (by omega)
  rw [hl2] at hmod
  have hl3 : (hostname ++ [0] ++ (r.rxFlowName ++ [0]) ++ List.replicate k 0).length =
      hostname.length + r.rxFlowName.length + 2 + k := by
    rw [List.length_append, hl2, List.length_replicate]
  refine ⟨k, hk, ?_, hmod⟩
  have hs3 : writeAll STRINGS_LEN (hostname ++ [0] ++ (r.rxFlowName ++ [0]) ++ List.replicate k 0)
      [dwWr16 0x0802, dwWr16 r.rxPort.toNat, dwWr32 ip.toNat] = .ok (requestTail hostname ip r k) := by
    rw [writeAll_ok (by rw [hl3]; simp [STRINGS_LEN]; omega)]
    simp [requestTail]
  simp only [requestStrings]
  rw [if_neg (by rw [STRINGS_LEN]; omega), hs1, ok_bind, if_neg (by rw [hl1, STRINGS_LEN]; omega), hs2, ok_bind, hpad]
  simp only [hs3, ok_bind, pure_eq_ok, hl1, hl3]

theorem requestFields_length (hz : ℕ) (r : FlowRequestT) (so rx blob : ℕ) :
    (requestFields hz r so rx blob).flatten.length = 38 + 2 * r.nslots := by
  have hids : ((r.txChannelId.map fun id => dwWr16 id.toNat).map List.length).sum = r.txChannelId.length * 2 := by
    rw [List.map_map, ← smul_eq_mul, ← List.sum_replicate, ← List.map_const']
    rfl
  simp only [requestFields, FlowRequestT.nslots, List.flatten_append, List.length_append, List.length_flatten,
    hids, List.map_cons, List.map_nil, List.sum_cons, List.sum_nil, dwWr16_length, dwWr32_length,
    List.length_replicate]
  omega

theorem requestTail_length (hostname : CStr) (ip : UInt32) (r : FlowRequestT) (k : ℕ) :
    (requestTail hostname ip r k).length = hostname.length + r.rxFlowName.length + k + 10 := by
  simp only [requestTail, List.length_append, List.length_singleton, List.length_replicate, dwWr16_length,
    dwWr32_length]
  omega

def FlowRequestT.stringsAt (r : FlowRequestT) : ℕ := 0x26 + r.nslots * 2 + DRR_HDR_LEN

theorem FlowRequestT.stringsAt_eq (r : FlowRequestT) : r.stringsAt = 48 + 2 * r.nslots := by
  rw [stringsAt, DRR_HDR_LEN]
  omega

def requestBody (hz : UInt32) (hostname : CStr) (ip : UInt32) (r : FlowRequestT) (k : ℕ) : List UInt8 :=
  (requestFields hz.toNat r r.stringsAt (u16 (hostname.length + 1 + r.stringsAt))
    (u16 (hostname.length + r.rxFlowName.length + 2 + k + r.stringsAt))).flatten ++ requestTail hostname ip r k

theorem requestBody_length (hz : UInt32) (hostname : CStr) (ip : UInt32) (r : FlowRequestT) (k : ℕ) :
    (requestBody hz hostname ip r k).length = 48 + 2 * r.nslots + hostname.length + r.rxFlowName.length + k := by
  rw [requestBody, List.length_append, requestFields_length, requestTail_length]
  omega

theorem buildRequestBody_eq (hz ip : UInt32) (hn : r.nslots ≤ AP_MAX_CH_PER_FLOW) (hhost : hostname.length ≤ 31)
    (hname : r.rxFlowName.length ≤ 31) :
    ∃ k ≤ 7, buildRequestBody hz hostname (some ip) r BODY_LEN = .ok (some (requestBody hz hostname ip r k)) ∧
      (hostname.length + r.rxFlowName.length + 2 + k + r.stringsAt) % 8 = 0 := by
  obtain ⟨k, hk, hstr, hmod⟩ := requestStrings_eq ip hhost hname r.stringsAt
  refine ⟨k, hk, ?_, hmod⟩
  rw [AP_MAX_CH_PER_FLOW] at hn
  have htail := requestTail_length hostname ip r k
  have hfields := requestFields_length hz.toNat r r.stringsAt (u16 (hostname.length + 1 + r.stringsAt))
    (u16 (hostname.length + r.rxFlowName.length + 2 + k + r.stringsAt))
  rw [FlowRequestT.stringsAt] at hstr hfields
  simp only [buildRequestBody, hstr, ok_bind]
  rw [if_neg (by rw [htail, DRR_HDR_LEN, BODY_LEN]; omega),
    writeAll_ok (by rw [hfields, BODY_LEN, List.length_nil]; omega), ok_bind, List.nil_append,
    if_neg (by rw [hfields, DRR_HDR_LEN]; omega), writeNext,
    checked_ok (by rw [hfields, htail, BODY_LEN]; omega), ok_bind]
  rfl

def requestPacket (hz : UInt32) (hostname : CStr) (ip : UInt32) (seq : ℕ) (r : FlowRequestT) (k : ℕ) : List UInt8 :=
  drrPutHeader DRR_START_FLOWS seq DFC_OP_REQUEST 0 (DRR_HDR_LEN + (requestBody hz hostname ip r k).length) ++
    requestBody hz hostname ip r k

theorem flowsClientRequest_eq (hz ip : UInt32) (seq : ℕ) (hn : r.nslots ≤ AP_MAX_CH_PER_FLOW)
    (hhost : hostname.length ≤ 31) (hname : r.rxFlowName.length ≤ 31) :
    ∃ k ≤ 7, flowsClientRequest hz hostname (some ip) seq r = .ok (some (requestPacket hz hostname ip seq r k)) ∧
      (hostname.length + r.rxFlowName.length + 2 + k + r.stringsAt) % 8 = 0 := by
  obtain ⟨k, hk, hbody, hmod⟩ := buildRequestBody_eq hz ip hn hhost hname
  refine ⟨k, hk, ?_, hmod⟩
  rw [AP_MAX_CH_PER_FLOW] at hn
  have hlen := requestBody_length hz hostname ip r k
  have hne : requestBody hz hostname ip r k ≠ [] := List.ne_nil_of_length_pos (by omega)
  have hhdr (n : ℕ) : (drrPutHeader DRR_START_FLOWS seq DFC_OP_REQUEST 0 n).length = 10 := rfl
  simp only [flowsClientRequest, hbody, ok_bind, if_neg hne, transactPacket]
  rw [if_neg (by rw [hlen, DRR_HDR_LEN, PKT_LEN]; omega), writeNext,
    checked_ok (by rw [hhdr, PKT_LEN, List.length_nil]; omega), ok_bind, List.nil_append, writeNext,
    checked_ok (by rw [hhdr, hlen, PKT_LEN]; omega), ok_bind]
  rfl

structure RequestLayout (hz : UInt32) (hostname : CStr) (ip : UInt32) (r : FlowRequestT) (k : ℕ) (p : List UInt8) :
    Prop where
  totalLength : Sits (dwWr16 p.length) p 2
  strings : Sits (dwWr16 r.stringsAt) p 10
  rate : Sits (dwWr32 hz.toNat) p 12
  bits : Sits (dwWr32 AP_BITS_PER_SAMPLE) p 16
  nch : Sits (dwWr16 r.nslots) p 22
  blobOffset : Sits (dwWr16 (u16 (hostname.length + r.rxFlowName.length + 2 + k + r.stringsAt))) p 24
  ids : Sits (r.txChannelId.flatMap fun id => dwWr16 id.toNat) p 26
  flow : Sits (dwWr16 (0x1c + 2 * r.nslots)) p (26 + 2 * r.nslots)
  fpp : Sits (dwWr16 r.fpp.toNat) p (0x1c + 2 * r.nslots + 4)
  nameOffset : Sits (dwWr16 (u16 (hostname.length + 1 + r.stringsAt))) p (0x1c + 2 * r.nslots + 6)
  host : Sits (hostname ++ [0]) p r.stringsAt
  name : Sits (r.rxFlowName ++ [0]) p (hostname.length + 1 + r.stringsAt)
  blob : Sits (dwWr16 0x0802 ++ (dwWr16 r.rxPort.toNat ++ dwWr32 ip.toNat)) p
    (hostname.length + r.rxFlowName.length + 2 + k + r.stringsAt)

theorem requestPacket_layout (hz : UInt32) (hostname : CStr) (ip : UInt32) (seq : ℕ) (r : FlowRequestT) (k : ℕ) :
    RequestLayout hz hostname ip r k (requestPacket hz hostname ip seq r k) := by
  have hids : (r.txChannelId.flatMap fun id => dwWr16 id.toNat).length = 2 * r.nslots := by
    rw [List.length_flatMap, FlowRequestT.nslots]
    simp [Nat.mul_comm]
  obtain ⟨p, hp⟩ : ∃ p, p = requestPacket hz hostname ip seq r k := ⟨_, rfl⟩
  have hlen : p.length = DRR_HDR_LEN + (requestBody hz hostname ip r k).length := by
    rw [hp, requestPacket, List.length_append]
    rfl
  have hwhole : Sits (requestPacket hz hostname ip seq r k) p 0 := hp ▸ sits_whole p
  rw [requestPacket, ← hlen] at hwhole
  rw [← hp]
  simp only [requestBody, requestFields, requestTail, drrPutHeader, List.flatten_append, List.flatten_cons,
    List.flatten_nil, sits_append_iff, List.length_append, dwWr16_length, dwWr32_length, List.length_singleton,
    List.length_replicate, ← List.flatMap_def, hids, List.append_nil, Nat.zero_add, Nat.reduceAdd] at hwhole
  obtain ⟨⟨⟨⟨⟨-, htotal⟩, -⟩, -⟩, -⟩, ⟨⟨⟨hso, hrate, hbits, -, hnch, hblobOff⟩, hids⟩, hflow, -, -, hfpp, hnameOff, -⟩,
    ⟨⟨⟨hhost, hhost0⟩, hname, hname0⟩, -⟩, htag, hport, hip⟩ := hwhole
  have hat := r.stringsAt_eq
  exact
    { totalLength := htotal
      strings := hso
      rate := hrate
      bits := hbits
      nch := hnch
      blobOffset := hblobOff
      ids := hids
      flow := hflow.at (by omega)
      fpp := hfpp.at (by omega)
      nameOffset := hnameOff.at (by omega)
      host := sits_append_iff.mpr ⟨hhost.at (by omega), hhost0.at (by omega)⟩
      name := sits_append_iff.mpr ⟨hname.at (by omega), hname0.at (by omega)⟩
      blob := sits_append_iff.mpr ⟨htag.at (by omega), sits_append_iff.mpr ⟨hport.at (by rw [dwWr16_length]; omega),
        hip.at (by simp only [dwWr16_length]; omega)⟩⟩ }

end

section
variable {hz ip : UInt32} {hostname : CStr} {r : FlowRequestT} {k : ℕ} {p : List UInt8}

theorem RequestLayout.blob_eq (h : RequestLayout hz hostname ip r k p) (hn : r.nslots ≤ AP_MAX_CH_PER_FLOW) (hk : k ≤ 7)
    (hhost : Fits31 hostname) (hname : Fits31 r.rxFlowName) :
    dwRd16 (memOf p) 24 = hostname.length + r.rxFlowName.length + 2 + k + r.stringsAt := by
  rw [AP_MAX_CH_PER_FLOW] at hn
  have hlenh := hhost.len
  have hlenn := hname.len
  have hat := r.stringsAt_eq
  rw [dwRd16_of_sits h.blobOffset, u16_u16, u16_of_lt (by omega)]

theorem RequestLayout.read (h : RequestLayout hz hostname ip r k p) (hn : r.nslots ≤ AP_MAX_CH_PER_FLOW) (hk : k ≤ 7)
    (hhost : Fits31 hostname) (hname : Fits31 r.rxFlowName) : FlowAsk.read p = r.ask hz hostname ip := by
  have hblob := h.blob_eq hn hk hhost hname
  rw [AP_MAX_CH_PER_FLOW] at hn
  have hat := r.stringsAt_eq
  have hu32 (v : UInt32) : u32 v.toNat = v.toNat := Nat.mod_eq_of_lt v.toNat_lt
  have hu16 (v : UInt16) : u16 v.toNat = v.toNat := Nat.mod_eq_of_lt v.toNat_lt
  have hlenh := hhost.len
  have hlenn := hname.len
  have hnch : dwRd16 (memOf p) 22 = r.nslots := by rw [dwRd16_of_sits h.nch, u16_of_lt (by omega)]
  have hflow : dwRd16 (memOf p) (26 + 2 * r.nslots) = 0x1c + 2 * r.nslots := by
    rw [dwRd16_of_sits h.flow, u16_of_lt (by omega)]
  have hso : dwRd16 (memOf p) 10 = r.stringsAt := by rw [dwRd16_of_sits h.strings, u16_of_lt (by omega)]
  have hnm : dwRd16 (memOf p) (0x1c + 2 * r.nslots + 6) = hostname.length + 1 + r.stringsAt := by
    rw [dwRd16_of_sits h.nameOffset, u16_u16, u16_of_lt (by omega)]
  obtain ⟨-, hrest⟩ := sits_append_iff.mp h.blob
  obtain ⟨hport, hip⟩ := sits_append_iff.mp hrest
  have hids : ((List.range r.nslots).map fun i => dwRd16 (memOf p) (26 + 2 * i)) = r.txChannelId.map UInt16.toNat := by
    apply List.ext_getElem
    · simp [FlowRequestT.nslots]
    · intro i h1 h2
      have hi : i < r.txChannelId.length := by simpa using h2
      have hid : Sits (dwWr16 (r.txChannelId.get ⟨i, hi⟩).toNat) p (26 + 2 * i) :=
        h.ids.record (f := fun id => dwWr16 id.toNat) (fun _ => rfl) hi
      rw [List.getElem_map, List.getElem_range, List.getElem_map, dwRd16_of_sits hid, hu16]
      rfl
  have hfpp : dwRd16 (memOf p) (0x1c + 2 * r.nslots + 4) = r.fpp.toNat := by rw [dwRd16_of_sits h.fpp, hu16]
  simp only [FlowAsk.read, FlowRequestT.ask, hnch, hflow, hblob, hso, hnm, hids, hfpp, FlowAsk.mk.injEq, true_and]
  refine ⟨?_, ?_, ?_, ?_, ?_, ?_⟩
  · rw [dwRd32_of_sits h.rate, hu32]
  · rw [dwRd32_of_sits h.bits]
    rfl
  · exact cstrAt_of_sits h.host hhost.noNul
  · exact cstrAt_of_sits h.name hname.noNul
  · rw [← hu16, ← dwRd16_of_sits hport]
    rfl
  · rw [← hu32, ← dwRd32_of_sits hip]
    rfl

end

/-- Every request of at most eight slots is sent, none of its stores leaves its buffer, and
read through its own offsets it asks for what the subscriber wants; the address blob is
8-byte aligned and the header counts the packet. -/
theorem flow_request_decodes (hz ip : UInt32) (seq : ℕ) {hostname : CStr} {r : FlowRequestT}
    (hn : r.nslots ≤ AP_MAX_CH_PER_FLOW) (hhost : Fits31 hostname) (hname : Fits31 r.rxFlowName) :
    ∃ p, flowsClientRequest hz hostname (some ip) seq r = .ok (some p) ∧ FlowAsk.read p = r.ask hz hostname ip ∧
      dwRd16 (memOf p) 24 % 8 = 0 ∧ Sits (dwWr16 0x0802) p (dwRd16 (memOf p) 24) ∧
      dwRd16 (memOf p) 2 = p.length := by
  obtain ⟨k, hk, hrun, hmod⟩ := flowsClientRequest_eq hz ip seq hn hhost.len hname.len
  have h := requestPacket_layout hz hostname ip seq r k
  have hblob := h.blob_eq hn hk hhost hname
  have hlen : (requestPacket hz hostname ip seq r k).length < 2 ^ 16 := by
    rw [AP_MAX_CH_PER_FLOW] at hn
    have hlenh := hhost.len
    have hlenn := hname.len
    rw [requestPacket, List.length_append, requestBody_length]
    change 10 + _ < _
    omega
  refine ⟨_, hrun, h.read hn hk hhost hname, ?_, ?_, ?_⟩
  · rw [hblob, hmod]
  · rw [hblob]
    exact (sits_append_iff.mp h.blob).1
  · rw [dwRd16_of_sits h.totalLength, u16_of_lt hlen]

/-- Two channels of `tx` for `rx`, received on port 14336 of 169.254.60.249. -/
def twoChannels : FlowRequestT where
  txIp := 0xA9FE0102
  txFlowPort := 4455
  txChannelId := [1, 2]
  fpp := 16
  rxPort := 14336
  rxFlowName := [0x31]

theorem flow_request_decodes_two_channels :
    ∃ p, flowsClientRequest 48000 [0x72, 0x78] (some 0xA9FE3CF9) 7 twoChannels = .ok (some p) ∧
      FlowAsk.read p = ⟨48000, 24, [1, 2], 16, [0x72, 0x78], [0x31], 14336, 0xA9FE3CF9⟩ ∧
      dwRd16 (memOf p) 24 % 8 = 0 ∧ Sits (dwWr16 0x0802) p (dwRd16 (memOf p) 24) ∧
      dwRd16 (memOf p) 2 = p.length :=
  flow_request_decodes 48000 0xA9FE3CF9 7 (by decide) ⟨by decide, by decide⟩ ⟨by decide, by decide⟩

end Inferno
