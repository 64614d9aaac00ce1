import Inferno.Proofs.Classifiers
import Inferno.Spec.EthTx

/-! The multicast frame the PTP slave sends, read back by the receive classifier: the header
checksum verifies itself, the lengths agree, and the payload comes out where it went in. -/

namespace Inferno

open Lib

theorem foldl_u32 (g : ℕ → ℕ) (l : List ℕ) (s : ℕ) :
    l.foldl (fun s k => u32 (s + g k)) (u32 s) = u32 (s + (l.map g).sum) := by
  induction l generalizing s with
  | nil => rfl
  | cons k l ih =>
    have hstep : u32 (u32 s + g k) = u32 (s + g k) := Nat.mod_add_mod s (2 ^ 32) (g k)
    rw [List.foldl_cons, hstep, ih, List.map_cons, List.sum_cons, Nat.add_assoc]

/-- The sum of the ten words of an IP header. -/
def headerSum (p : Mem) : ℕ := ((List.range 10).map fun k => dwRd16 p (2 * k)).sum

theorem dwRd16_lt (p : Mem) (i : ℕ) : dwRd16 p i < 2 ^ 16 := by
  have hhi := (p i).toNat_lt
  have hlo := (p (i + 1)).toNat_lt
  simp only [dwRd16]
  omega

theorem headerSum_lt (p : Mem) : headerSum p < 2 ^ 32 := by
  have hle : ∀ x ∈ (List.range 10).map fun k => dwRd16 p (2 * k), x ≤ 2 ^ 16 := by
    intro x hx
    obtain ⟨k, -, rfl⟩ := List.mem_map.mp hx
    exact (dwRd16_lt p _).le
  have hsum := List.sum_le_card_nsmul _ _ hle
  rw [List.length_map, List.length_range, smul_eq_mul] at hsum
  exact hsum.trans_lt (by decide)

theorem ipChecksum_header (p : Mem) : ipChecksum p 20 = 2 ^ 16 - 1 - foldCarry (2 ^ 16) (headerSum p) := by
  have hsum : (List.range 10).foldl (fun sum k => u32 (sum + dwRd16 p (2 * k))) 0 = headerSum p := by
    have h := foldl_u32 (fun k => dwRd16 p (2 * k)) (List.range 10) 0
    rw [Nat.zero_add] at h
    exact h.trans (Nat.mod_eq_of_lt (headerSum_lt p))
  have hlt := foldCarry_lt (by decide : 1 < 2 ^ 16) (headerSum p)
  have hodd : ¬ 20 % 2 = 1 := by decide
  simp only [ipChecksum, Nat.reduceDiv, hsum, if_neg hodd, u16]
  omega

theorem headerSum_store {p p' : Mem} (hsame : ∀ i < 20, i ≠ 10 → i ≠ 11 → p' i = p i) (h0 : dwRd16 p 10 = 0) :
    headerSum p' = headerSum p + dwRd16 p' 10 := by
  have hword : ∀ k < 10, k ≠ 5 → dwRd16 p' (2 * k) = dwRd16 p (2 * k) := by
    intro k hk h5
    rw [dwRd16, dwRd16, hsame _ (by omega) (by omega) (by omega), hsame _ (by omega) (by omega) (by omega)]
  have hterm : ∀ k < 10, dwRd16 p' (2 * k) = dwRd16 p (2 * k) + if k = 5 then dwRd16 p' 10 else 0 := by
    intro k hk
    split_ifs with h5
    · rw [h5, h0, Nat.zero_add]
    · rw [hword k hk h5, Nat.add_zero]
  have hmap : ((List.range 10).map fun k => dwRd16 p' (2 * k)) =
      (List.range 10).map fun k => dwRd16 p (2 * k) + if k = 5 then dwRd16 p' 10 else 0 :=
    List.map_congr_left fun k hk => hterm k (List.mem_range.mp hk)
  have hone : ((List.range 10).map fun k => if k = 5 then dwRd16 p' 10 else 0).sum = dwRd16 p' 10 := by
    simp [List.range_succ]
  rw [headerSum, hmap, List.sum_map_add, hone, ← headerSum]

section
variable (src dst total : ℕ) (tos ttl : UInt8)

theorem ipHeader0_length : (ipHeader0 src dst total tos ttl).length = 20 := rfl

theorem overwritten_checksum (c : ℕ) :
    Overwritten (dwWr16 c) (ipHeader0 src dst total tos ttl) (overwrite (ipHeader0 src dst total tos ttl) 10 (dwWr16 c)) 10 :=
  overwritten (by rw [ipHeader0_length, dwWr16_length]; decide)

theorem ipHeader0_checksum : dwRd16 (memOf (ipHeader0 src dst total tos ttl)) 10 = 0 := by
  have hhi : memOf (ipHeader0 src dst total tos ttl) 10 = 0 := rfl
  have hlo : memOf (ipHeader0 src dst total tos ttl) (10 + 1) = 0 := rfl
  rw [dwRd16, hhi, hlo]
  rfl

theorem ipChecksum_ipHeader : ipChecksum (memOf (ipHeader src dst total tos ttl)) 20 = 0 := by
  have hput := overwritten_checksum src dst total tos ttl (ipChecksum (memOf (ipHeader0 src dst total tos ttl)) 20)
  have hck := ipChecksum_header (memOf (ipHeader0 src dst total tos ttl))
  have hstore : headerSum (memOf (ipHeader src dst total tos ttl)) =
      headerSum (memOf (ipHeader0 src dst total tos ttl)) + dwRd16 (memOf (ipHeader src dst total tos ttl)) 10 := by
    refine headerSum_store (fun i hi h1 h2 => ?_) (ipHeader0_checksum src dst total tos ttl)
    exact memOf_only hput.only hi (by rw [dwWr16_length]; omega)
  have hread : dwRd16 (memOf (ipHeader src dst total tos ttl)) 10 =
      ipChecksum (memOf (ipHeader0 src dst total tos ttl)) 20 := by
    rw [ipHeader, dwRd16_of_sits hput.sits]
    exact u16_of_lt (hck.trans_lt (by omega))
  rw [ipChecksum_header, hstore, hread, hck, foldCarry_complement (by decide), Nat.sub_self]

theorem ipHeader_eq : ipHeader src dst total tos ttl =
    [0x45] ++ [tos] ++ dwWr16 (u16 total) ++ [0, 0, 0, 0, ttl] ++ [17] ++
      dwWr16 (ipChecksum (memOf (ipHeader0 src dst total tos ttl)) 20) ++ dwWr32 src ++ dwWr32 dst := rfl

end

/-- The bytes arrive, with whatever padding the wire put behind them. -/
structure Frame.Carries (f : Frame) (b : List UInt8) : Prop where
  long : b.length ≤ f.len
  holds : Holds f.mem b b.length

/-- A header of 20 bytes with a checksum that verifies, and lengths that end where the
bytes `b` of the frame end. -/
structure WellFormed (f : Frame) (b : List UInt8) : Prop where
  ihl : f.ihl = 20
  checksum : ipChecksum (fun k => f.mem (14 + k)) 20 = 0
  total : 14 + dwRd16 f.mem (14 + 2) = b.length
  ulen : f.udp + f.ulen = b.length

section
variable {f : Frame} {b : List UInt8} {i v : ℕ}

theorem Frame.Carries.byte (h : f.Carries b) {x : UInt8} (hs : Sits [x] b i) : f.mem i = x := by
  have hin := hs.inside
  rw [List.length_singleton] at hin
  rw [h.holds i (by omega)]
  exact hs.getD 0 (k := 0) (by simp)

theorem Frame.Carries.word (h : f.Carries b) (hs : Sits (dwWr16 v) b i) : dwRd16 f.mem i = u16 v := by
  have hin := hs.inside
  rw [dwWr16_length] at hin
  rw [← dwRd16_of_sits hs, dwRd16, dwRd16, h.holds i (by omega), h.holds (i + 1) (by omega)]
  rfl

theorem Frame.Carries.word32 (h : f.Carries b) (hs : Sits (dwWr32 v) b i) : dwRd32 f.mem i = u32 v := by
  have hin := hs.inside
  rw [dwWr32_length] at hin
  rw [← dwRd32_of_sits hs, dwRd32, dwRd32, h.holds i (by omega), h.holds (i + 1) (by omega),
    h.holds (i + 2) (by omega), h.holds (i + 3) (by omega)]
  rfl

theorem Frame.Carries.bytes (h : f.Carries b) {bs : List UInt8} (hs : Sits bs b i) : bytesAt f.mem i bs.length = bs := by
  have hin := hs.inside
  refine Eq.trans (List.map_congr_left fun k hk => ?_) (bytesAt_of_sits hs)
  have hk' := List.mem_range.mp hk
  exact h.holds _ (by omega)

end

section
variable (mac : Mem) (src dst : UInt32) (dport sport : UInt16) (payload : Mem) (len : ℕ) (tos ttl : UInt8)

theorem mcastFrame_length : (mcastFrame mac src dst dport sport payload len tos ttl).length = 42 + len := by
  simp [mcastFrame, ethHeader, ipHeader_eq, udpHeader]
  omega

/-- Where the pieces of the frame lie. -/
structure McastLaid (b : List UInt8) : Prop where
  ethertype : Sits (dwWr16 0x0800) b 12
  header : Sits (ipHeader src.toNat dst.toNat (20 + 8 + len) tos ttl) b 14
  version : Sits [0x45] b 14
  total : Sits (dwWr16 (u16 (20 + 8 + len))) b (14 + 2)
  proto : Sits [17] b (14 + 9)
  group : Sits (dwWr32 dst.toNat) b (14 + 16)
  dport : Sits (dwWr16 dport.toNat) b (14 + 20 + 2)
  ulen : Sits (dwWr16 (u16 (8 + len))) b (14 + 20 + 4)
  payload : Sits (bytesAt payload 0 len) b 42

theorem mcastLaid : McastLaid src dst dport payload len tos ttl (mcastFrame mac src dst dport sport payload len tos ttl) := by
  have h : Sits (ethHeader mac dst.toNat ++ ipHeader src.toNat dst.toNat (20 + 8 + len) tos ttl ++
      udpHeader sport.toNat dport.toNat len ++ bytesAt payload 0 len)
        (mcastFrame mac src dst dport sport payload len tos ttl) 0 := sits_whole _
  generalize mcastFrame mac src dst dport sport payload len tos ttl = b at h ⊢
  simp only [sits_append_iff] at h
  obtain ⟨⟨⟨heth, hip⟩, hudp⟩, hpay⟩ := h
  have hhead : Sits (ipHeader src.toNat dst.toNat (20 + 8 + len) tos ttl) b 14 := hip.at (by simp [ethHeader])
  simp only [ethHeader, ipHeader_eq, udpHeader, sits_append_iff, List.length_append, List.length_cons, List.length_nil,
    bytesAt_length, dwWr16_length, dwWr32_length, Nat.zero_add, Nat.reduceAdd] at heth hip hudp hpay
  obtain ⟨-, htype⟩ := heth
  obtain ⟨⟨⟨⟨⟨⟨⟨hver, -⟩, htotal⟩, -⟩, hproto⟩, -⟩, -⟩, hgroup⟩ := hip
  obtain ⟨⟨⟨-, hdport⟩, hulen⟩, -⟩ := hudp
  exact ⟨htype, hhead, hver, htotal, hproto, hgroup, hdport, hulen, hpay⟩

end

section
variable {f : Frame} {mac : Mem} {src dst : UInt32} {dport sport : UInt16} {payload : Mem} {len : ℕ} {tos ttl : UInt8}

theorem ipChecksum_congr {p q : Mem} {n : ℕ} (h : ∀ k < n, p k = q k) (hn : n % 2 = 0) : ipChecksum p n = ipChecksum q n := by
  have hword : ∀ k ∈ List.range (n / 2), ∀ s, u32 (s + dwRd16 p (2 * k)) = u32 (s + dwRd16 q (2 * k)) := by
    intro k hk s
    have hk' := List.mem_range.mp hk
    rw [dwRd16, dwRd16, h (2 * k) (by omega), h (2 * k + 1) (by omega)]
  have hsum : (List.range (n / 2)).foldl (fun sum k => u32 (sum + dwRd16 p (2 * k))) 0 =
      (List.range (n / 2)).foldl (fun sum k => u32 (sum + dwRd16 q (2 * k))) 0 :=
    List.foldl_ext _ _ _ fun s k hk => hword k hk s
  have hodd : ¬ n % 2 = 1 := by omega
  simp only [ipChecksum, hsum, if_neg hodd]

theorem wellFormed_of_carries (h : f.Carries (mcastFrame mac src dst dport sport payload len tos ttl)) (hlen : len ≤ 256) :
    WellFormed f (mcastFrame mac src dst dport sport payload len tos ttl) := by
  have hl := mcastLaid mac src dst dport sport payload len tos ttl
  have hlength := mcastFrame_length mac src dst dport sport payload len tos ttl
  have hip0 : f.ip0 = 0x45 := by rw [Frame.ip0, h.byte hl.version]; rfl
  have hihl : f.ihl = 20 := by rw [Frame.ihl, hip0]; rfl
  refine ⟨hihl, ?_, ?_, ?_⟩
  · rw [← ipChecksum_ipHeader src.toNat dst.toNat (20 + 8 + len) tos ttl]
    refine ipChecksum_congr (fun k hk => ?_) rfl
    rw [h.holds _ (by omega), hl.header.getD 0 (by rw [ipHeader_eq]; exact hk)]
    rfl
  · rw [h.word hl.total, hlength, u16_u16, u16_of_lt (by omega)]
    omega
  · rw [Frame.ulen, Frame.udp, hihl, h.word hl.ulen, hlength, u16_u16, u16_of_lt (by omega)]
    omega

theorem ptpDatagram_of_carries (h : f.Carries (mcastFrame mac src dst dport sport payload len tos ttl)) (hlen : len ≤ 256)
    (hdst : dst.toNat = PTP1_GROUP_IP) (hport : dport.toNat = PTP1_EVENT_PORT ∨ dport.toNat = PTP1_GENERAL_PORT) :
    PtpDatagram f ∧ f.udp = 34 ∧ f.ulen = 8 + len ∧ f.dport = dport.toNat := by
  have hl := mcastLaid mac src dst dport sport payload len tos ttl
  have hlong := h.long
  rw [mcastFrame_length] at hlong
  have hw := wellFormed_of_carries h hlen
  have hip0 : f.ip0 = 0x45 := by rw [Frame.ip0, h.byte hl.version]; rfl
  have hudp : f.udp = 34 := by rw [Frame.udp, hw.ihl]
  have hulen : f.ulen = 8 + len := by
    have := hw.ulen
    rw [mcastFrame_length, hudp] at this
    omega
  have hdport : f.dport = dport.toNat := by
    rw [Frame.dport, hudp, h.word hl.dport, u16_of_lt dport.toNat_lt]
  have hgroup : dwRd32 f.mem (14 + 16) = PTP1_GROUP_IP := by
    rw [h.word32 hl.group, hdst]
    rfl
  refine ⟨⟨by omega, h.word hl.ethertype, by rw [hip0]; rfl, by rw [h.byte hl.proto]; rfl, .inl hgroup, by omega,
    by rwa [hdport], by omega⟩, hudp, hulen, hdport⟩

end

theorem ptp1HeaderOk_putHeader (uuid : Mem) (portId control portType seq : ℕ) (body : List UInt8) :
    ptp1HeaderOk (memOf (ptp1PutHeader uuid portId control portType seq ++ body))
      (ptp1PutHeader uuid portId control portType seq ++ body).length = true := by
  have hlen : (ptp1PutHeader uuid portId control portType seq).length = PTP1_HDR_LEN := by
    simp [ptp1PutHeader, PTP1_HDR_LEN]
  have hlong : ¬ (ptp1PutHeader uuid portId control portType seq ++ body).length < PTP1_HDR_LEN := by
    rw [List.length_append, hlen]
    omega
  have hversion : dwRd16 (memOf (ptp1PutHeader uuid portId control portType seq ++ body)) 0 = 1 := by
    have h : Sits (dwWr16 1) (ptp1PutHeader uuid portId control portType seq ++ body) 0 := sits_of_start ⟨_, rfl⟩
    rw [dwRd16_of_sits h, u16_of_lt (by decide)]
  rw [ptp1HeaderOk, if_neg hlong, hversion, if_neg (not_not.mpr rfl)]
  rfl

/-- The frame `eth_ts_send_udp_mcast` gives to the driver for the PTP group and a PTP port
is a well-formed datagram that the receive classifier takes for exactly what was sent, and
a message that starts with the header of a Delay_Req passes the slave's header check. -/
theorem mcast_frame_received (tx : EthTx) {src : UInt32} (hip : tx.ip = some src) {dport : UInt16} (sport : UInt16)
    (hport : dport.toNat = PTP1_EVENT_PORT ∨ dport.toNat = PTP1_GENERAL_PORT) (payload : Mem) {len : ℕ}
    (hlen : len ≤ 256) (tos ttl : UInt8) :
    (∃ b, (ethTsSendUdpMcast tx (UInt32.ofNat PTP1_GROUP_IP) dport sport payload len tos ttl).frame = some b ∧
      ∀ f : Frame, f.Carries b → WellFormed f b ∧
        isPtpv1Frame f = some { payload := 42, plen := len, dport := dport.toNat } ∧
        bytesAt f.mem 42 len = bytesAt payload 0 len) ∧
    ∀ (uuid : Mem) (portId control portType seq : ℕ) (body : List UInt8),
      ptp1HeaderOk (memOf (ptp1PutHeader uuid portId control portType seq ++ body))
        (ptp1PutHeader uuid portId control portType seq ++ body).length = true := by
  refine ⟨⟨mcastFrame tx.mac src (UInt32.ofNat PTP1_GROUP_IP) dport sport payload len tos ttl, ?_, fun f hf => ?_⟩,
    ptp1HeaderOk_putHeader⟩
  · have hfits : ¬ len > MCAST_FRAME_LEN - 42 := by
      simp only [MCAST_FRAME_LEN]
      omega
    simp only [ethTsSendUdpMcast, if_neg hfits, hip]
  · obtain ⟨hd, hudp, hulen, hdport⟩ := ptpDatagram_of_carries hf hlen rfl hport
    refine ⟨wellFormed_of_carries hf hlen, isPtpv1Frame_eq_some.mpr ⟨hd, ?_⟩, ?_⟩
    · rw [hudp, hulen, hdport, Nat.add_sub_cancel_left]
    · have hpay := hf.bytes (mcastLaid tx.mac src (UInt32.ofNat PTP1_GROUP_IP) dport sport payload len tos ttl).payload
      rwa [bytesAt_length] at hpay

/-- A board at 169.254.1.2 and 124 bytes for the event port. -/
theorem mcast_frame_received_event :
    ∃ b, (ethTsSendUdpMcast ⟨fun _ => 2, some 0xA9FE0102, fun _ => (.ok, ⟨1, 5⟩)⟩ (UInt32.ofNat PTP1_GROUP_IP) 319 319
        (fun k => UInt8.ofNat k) 124 0xE0 1).frame = some b ∧
      ∀ f : Frame, f.Carries b → WellFormed f b ∧ isPtpv1Frame f = some { payload := 42, plen := 124, dport := 319 } ∧
        bytesAt f.mem 42 124 = bytesAt (fun k => UInt8.ofNat k) 0 124 :=
  (mcast_frame_received ⟨fun _ => 2, some 0xA9FE0102, fun _ => (.ok, ⟨1, 5⟩)⟩ rfl 319 (.inl rfl) (fun k => UInt8.ofNat k)
    (by decide) 0xE0 1).1

theorem delayReqBuf_length {D : Type} (p : Ptp D) : (delayReqBuf p).length = 124 := by
  simp [delayReqBuf, ptp1PutHeader, PTP1_SYNC_BODY_LEN]

theorem delay_req_lifted {D : Type} (tx : EthTx) {src : UInt32} (hip : tx.ip = some src) (p : Ptp D)
    (audioCb : AudioRef → List UInt8 → Bool) (info : Option EthTsTime) :
    ∃ b, (delayReqSend tx p).frame = some b ∧ ∀ f : Frame, f.Carries b →
      ∃ m, stackInputInner audioCb f info = ⟨none, false, some m⟩ ∧ m.payload = delayReqBuf p ∧
        m.dstPort = PTP1_EVENT_PORT ∧ ptp1HeaderOk (memOf m.payload) m.len = true := by
  have hlength := delayReqBuf_length p
  have hfits : ¬ (delayReqBuf p).length > MCAST_FRAME_LEN - 42 := by
    rw [hlength]
    decide
  refine ⟨mcastFrame tx.mac src (UInt32.ofNat PTP1_GROUP_IP) (UInt16.ofNat PTP1_EVENT_PORT) (UInt16.ofNat PTP1_EVENT_PORT)
    (memOf (delayReqBuf p)) (delayReqBuf p).length (UInt8.ofNat PTP1_TOS) 1, ?_, fun f hf => ?_⟩
  · simp only [delayReqSend, ethTsSendUdpMcast, if_neg hfits, hip]
  · obtain ⟨hd, hudp, hulen, hdport⟩ := ptpDatagram_of_carries hf (by rw [hlength]; decide) rfl (.inl rfl)
    have hptp : isPtpv1Frame f = some ⟨42, 124, PTP1_EVENT_PORT⟩ := by
      rw [isPtpv1Frame_eq_some]
      refine ⟨hd, ?_⟩
      rw [hudp, hulen, hdport, hlength]
      rfl
    -- the event port is no flow port
    have haudio : isAudioFrame f AOIP_RX_AUDIO_PORT AP_MAX_FLOWS = none := by
      rw [Option.eq_none_iff_forall_ne_some]
      intro r hr
      have hport := (isAudioFrame_eq_some.mp hr).1.port
      rw [hdport] at hport
      exact absurd hport (by decide)
    have hcopied : bytesAt (memOf (delayReqBuf p)) 0 (delayReqBuf p).length = delayReqBuf p := by
      have hwhole : Holds (memOf (delayReqBuf p)) (delayReqBuf p) (delayReqBuf p).length := fun _ _ => rfl
      rw [hwhole.bytesAt le_rfl, List.take_length]
    have hpay := hf.bytes (mcastLaid tx.mac src (UInt32.ofNat PTP1_GROUP_IP) (UInt16.ofNat PTP1_EVENT_PORT)
      (UInt16.ofNat PTP1_EVENT_PORT) (memOf (delayReqBuf p)) (delayReqBuf p).length (UInt8.ofNat PTP1_TOS) 1).payload
    rw [bytesAt_length, hcopied, hlength] at hpay
    refine ⟨⟨delayReqBuf p, PTP1_EVENT_PORT, (extractRxTs info).1, (extractRxTs info).2⟩, ?_, rfl, rfl, ?_⟩
    · simp only [stackInputInner, haudio, Option.map_none, Option.any_none, hptp, Option.map_some]
      have hcopy : (PtpRef.mk 42 124 PTP1_EVENT_PORT).copyLen = 124 := rfl
      rw [hcopy, hpay]
      rfl
    · exact ptp1HeaderOk_putHeader _ _ _ _ _ _

end Inferno
