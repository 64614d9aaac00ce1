import Inferno.Spec.EthTs

/-! Where the payloads of the two receive classifiers lie, and which frames `is_audio_frame`
takes. `is_audio_frame` checks the stated UDP length against the frame; `is_ptpv1_frame` does
not, so the PTP copy stays inside the frame exactly when the datagram's own length does. -/

namespace Inferno

/-- The `n` bytes at offset `p` are bytes of the frame. -/
def Frame.Contains (f : Frame) (p n : ℕ) : Prop := p + n ≤ f.len

instance (f : Frame) (p n : ℕ) : Decidable (f.Contains p n) :=
  inferInstanceAs (Decidable (p + n ≤ f.len))

theorem Frame.Contains.mono {f : Frame} {p m n : ℕ} (h : f.Contains p n) (hm : m ≤ n) :
    f.Contains p m := by
  simp only [Frame.Contains] at h ⊢
  omega

theorem copyLen_le (r : PtpRef) : r.copyLen ≤ r.plen := by
  simp only [PtpRef.copyLen]
  split_ifs <;> omega

/-- A whole UDP header addressed to the PTP group and a PTP port, whose stated
length covers at least that header. -/
structure PtpDatagram (f : Frame) : Prop where
  long : 42 ≤ f.len
  ethertype : dwRd16 f.mem 12 = 0x0800
  version : f.ip0 >>> 4 = 4
  proto : (f.mem (14 + 9)).toNat = 17
  group : dwRd32 f.mem (14 + 16) = PTP1_GROUP_IP ∨ dwRd32 f.mem (14 + 16) = PTP1_GROUP_IP + 1
  header : f.udp + 8 ≤ f.len
  port : f.dport = PTP1_EVENT_PORT ∨ f.dport = PTP1_GENERAL_PORT
  stated : 8 ≤ f.ulen

theorem isPtpv1Frame_eq_some {f : Frame} {r : PtpRef} :
    isPtpv1Frame f = some r ↔ PtpDatagram f ∧ r = ⟨f.udp + 8, f.ulen - 8, f.dport⟩ := by
  constructor
  · intro h
    simp only [isPtpv1Frame] at h
    split_ifs at h with h1 h2 h3 h4 h5 h6 h7 h8
    have hg := (not_and_or.mp h5).imp not_not.mp not_not.mp
    have hp := (not_and_or.mp h7).imp not_not.mp not_not.mp
    refine ⟨⟨by omega, not_not.mp h2, not_not.mp h3, not_not.mp h4, hg, by omega, hp, by omega⟩, ?_⟩
    exact (Option.some.inj h).symm
  · rintro ⟨h, rfl⟩
    have hl := h.long
    have hh := h.header
    have hs := h.stated
    rw [isPtpv1Frame, if_neg (by omega), if_neg (not_not.mpr h.ethertype),
      if_neg (not_not.mpr h.version), if_neg (not_not.mpr h.proto),
      if_neg (fun hn => h.group.elim hn.1 hn.2), if_neg (by omega),
      if_neg (fun hn => h.port.elim hn.1 hn.2), if_neg (by omega)]

theorem audio_payload_inside {f : Frame} {lo n : ℕ} {r : AudioRef}
    (h : isAudioFrame f lo n = some r) : f.Contains r.payload r.plen := by
  simp only [isAudioFrame] at h
  split_ifs at h with h1 h2 h3 h4 h5 h6 h7
  obtain rfl := Option.some.inj h
  simp only [Frame.Contains]
  omega

/-- Both classifiers only return payloads of the frame, and what the hook copies
for the PTP task lies in the payload. -/
def PayloadsInside (f : Frame) : Prop :=
  (∀ lo n r, isAudioFrame f lo n = some r → f.Contains r.payload r.plen) ∧
    ∀ r, isPtpv1Frame f = some r → f.Contains r.payload r.plen ∧ f.Contains r.payload r.copyLen

/-- The classified payloads stay inside the frame exactly when no PTP datagram in
it states a UDP length that runs past its end. -/
theorem payloads_inside_iff (f : Frame) :
    PayloadsInside f ↔ (PtpDatagram f → f.udp + f.ulen ≤ f.len) := by
  constructor
  · intro h hd
    have hr := h.2 _ (isPtpv1Frame_eq_some.mpr ⟨hd, rfl⟩)
    have hs := hd.stated
    have hc := hr.1
    simp only [Frame.Contains] at hc
    omega
  · intro h
    refine ⟨fun lo n r hr => audio_payload_inside hr, fun r hr => ?_⟩
    obtain ⟨hd, rfl⟩ := isPtpv1Frame_eq_some.mp hr
    have hu := h hd
    have hs := hd.stated
    have hp : f.Contains (f.udp + 8) (f.ulen - 8) := by
      simp only [Frame.Contains]
      omega
    exact ⟨hp, hp.mono (copyLen_le _)⟩

/-- A 42-byte event datagram to 224.0.1.129:319 that claims 1000 bytes of UDP. -/
def lyingPtpFrame : Frame where
  len := 42
  mem := fun i => [0x01, 0x00, 0x5E, 0x00, 0x01, 0x81, 0x02, 0, 0, 0, 0, 1, 0x08, 0x00,
    0x45, 0xE0, 0x03, 0xFC, 0, 0, 0, 0, 1, 17, 0, 0, 169, 254, 1, 2, 0xE0, 0x00, 0x01, 0x81,
    0x01, 0x3F, 0x01, 0x3F, 0x03, 0xE8, 0, 0].getD i 0

/-- The hook would copy 128 bytes from behind a frame that ends where its payload starts. -/
theorem lying_ptp_payload_outside : ¬ PayloadsInside lyingPtpFrame := by
  intro h
  have hr : isPtpv1Frame lyingPtpFrame = some ⟨42, 992, 319⟩ := by decide
  have hc := (h.2 _ hr).2
  exact absurd hc (by decide)

def Frame.dst (f : Frame) : ℕ := dwRd32 f.mem (14 + 16)

def Frame.frag (f : Frame) : ℕ := dwRd16 f.mem (14 + 6)

def Unicast (ip : ℕ) : Prop := ip / 2 ^ 28 ≠ 0xE ∧ ip ≠ 0xFFFFFFFF

instance (ip : ℕ) : Decidable (Unicast ip) := inferInstanceAs (Decidable (_ ∧ _))

def Frame.audioRef (f : Frame) : AudioRef where
  sipBe := bytesAt f.mem (14 + 12) 4
  sport := dwRd16 f.mem f.udp
  dport := f.dport
  payload := f.udp + 8
  plen := f.ulen - 8

structure AudioDatagram (f : Frame) (lo n : ℕ) : Prop where
  long : 42 ≤ f.len
  ethertype : f.mem 12 = 0x08 ∧ f.mem 13 = 0x00
  version : f.ip0 >>> 4 = 4
  proto : (f.mem (14 + 9)).toNat = 17
  whole : f.frag &&& 0x3FFF = 0
  header : f.udp + 8 ≤ f.len
  port : u16 (f.dport + 2 ^ 16 - lo) < n
  stated : 8 ≤ f.ulen ∧ f.udp + f.ulen ≤ f.len

/-- A unicast IPv4 datagram of one piece, with a whole IP header, a whole UDP header and all
the bytes it states in the frame, to a port of `lo`, .., `lo + n - 1`. -/
structure AudioGrammar (f : Frame) (lo n : ℕ) : Prop where
  ethertype : dwRd16 f.mem 12 = 0x0800
  version : f.ip0 / 2 ^ 4 = 4
  ihl : 5 ≤ f.ip0 % 2 ^ 4
  noMore : f.frag / 2 ^ 13 % 2 = 0
  noOffset : f.frag % 2 ^ 13 = 0
  proto : (f.mem (14 + 9)).toNat = 17
  unicast : Unicast f.dst
  header : f.udp + 8 ≤ f.len
  port : lo ≤ f.dport ∧ f.dport < lo + n
  stated : 8 ≤ f.ulen ∧ f.udp + f.ulen ≤ f.len

theorem isAudioFrame_eq_some {f : Frame} {lo n : ℕ} {r : AudioRef} :
    isAudioFrame f lo n = some r ↔ AudioDatagram f lo n ∧ r = f.audioRef := by
  constructor
  · intro h
    simp only [isAudioFrame] at h
    split_ifs at h with h1 h2 h3 h4 h5 h6 h7
    obtain ⟨h2a, h2b⟩ := not_or.mp h2
    obtain ⟨h3a, h3b⟩ := not_or.mp h3
    obtain ⟨h7a, h7b⟩ := not_or.mp h7
    refine ⟨⟨by omega, ⟨not_not.mp h2a, not_not.mp h2b⟩, not_not.mp h3a, not_not.mp h3b, not_not.mp h4, by omega,
      by omega, by omega, by omega⟩, ?_⟩
    exact (Option.some.inj h).symm
  · rintro ⟨h, rfl⟩
    have hl := h.long
    have hh := h.header
    have hw : dwRd16 f.mem (14 + 6) &&& 0x3FFF = 0 := h.whole
    have hp := h.port
    obtain ⟨hs, hin⟩ := h.stated
    rw [isAudioFrame, if_neg (by omega), if_neg (not_or.mpr ⟨not_not.mpr h.ethertype.1, not_not.mpr h.ethertype.2⟩),
      if_neg (not_or.mpr ⟨not_not.mpr h.version, not_not.mpr h.proto⟩), if_neg (not_not.mpr hw),
      if_neg (by omega), if_neg (by omega), if_neg (by omega)]
    rfl

theorem ihl_eq (f : Frame) : f.ihl = f.ip0 % 2 ^ 4 * 4 := by
  rw [Frame.ihl, show 0x0F = 2 ^ 4 - 1 from rfl, Nat.and_two_pow_sub_one_eq_mod]

theorem dport_lt (f : Frame) : f.dport < 2 ^ 16 := by
  have hhi := (f.mem (f.udp + 2)).toNat_lt
  have hlo := (f.mem (f.udp + 2 + 1)).toNat_lt
  simp only [Frame.dport, dwRd16]
  omega

theorem ethertype_iff (f : Frame) : (f.mem 12 = 0x08 ∧ f.mem 13 = 0x00) ↔ dwRd16 f.mem 12 = 0x0800 := by
  have hlo := (f.mem 13).toNat_lt
  rw [← UInt8.toNat_inj, ← UInt8.toNat_inj]
  simp only [dwRd16, UInt8.toNat_ofNat, Nat.reduceAdd]
  omega

/-- The mask of the fragment check holds the flag and the offset, and no other bit. -/
theorem whole_iff (f : Frame) : f.frag &&& 0x3FFF = 0 ↔ f.frag / 2 ^ 13 % 2 = 0 ∧ f.frag % 2 ^ 13 = 0 := by
  rw [show 0x3FFF = 2 ^ 14 - 1 from rfl, Nat.and_two_pow_sub_one_eq_mod]
  omega

/-- The grammar asks for three things the code does not check. -/
theorem audioGrammar_iff (f : Frame) (lo n : UInt16) :
    AudioGrammar f lo.toNat n.toNat ↔ AudioDatagram f lo.toNat n.toNat ∧
      Unicast f.dst ∧ 5 ≤ f.ip0 % 2 ^ 4 ∧ lo.toNat ≤ f.dport := by
  have hdp := dport_lt f
  have hlo := lo.toNat_lt
  have hshift : f.ip0 >>> 4 = f.ip0 / 2 ^ 4 := Nat.shiftRight_eq_div_pow _ _
  constructor
  · intro h
    obtain ⟨hp1, hp2⟩ := h.port
    have hlong : 42 ≤ f.len := by
      have hh := h.header
      have hi := h.ihl
      rw [Frame.udp, ihl_eq] at hh
      omega
    have hport : u16 (f.dport + 2 ^ 16 - lo.toNat) < n.toNat := by
      simp only [u16]
      omega
    exact ⟨⟨hlong, (ethertype_iff f).mpr h.ethertype, hshift.trans h.version, h.proto,
      (whole_iff f).mpr ⟨h.noMore, h.noOffset⟩, h.header, hport, h.stated⟩, h.unicast, h.ihl, hp1⟩
  · rintro ⟨h, hu, hi, hp⟩
    obtain ⟨hmore, hoff⟩ := (whole_iff f).mp h.whole
    have hport : f.dport < lo.toNat + n.toNat := by
      have := h.port
      simp only [u16] at this
      omega
    exact ⟨(ethertype_iff f).mp h.ethertype, hshift.symm.trans h.version, hi, hmore, hoff, h.proto, hu, h.header,
      ⟨hp, hport⟩, h.stated⟩

/-- `is_audio_frame` takes exactly the frames of its grammar, and reads them right, unless a
frame passes its checks with a destination that is not unicast, with a header length below
five words, or with a port below `lo`. -/
theorem audio_grammar_iff (f : Frame) (lo n : UInt16) :
    (∀ r, isAudioFrame f lo.toNat n.toNat = some r ↔ AudioGrammar f lo.toNat n.toNat ∧ r = f.audioRef) ↔
      (AudioDatagram f lo.toNat n.toNat → Unicast f.dst ∧ 5 ≤ f.ip0 % 2 ^ 4 ∧ lo.toNat ≤ f.dport) := by
  constructor
  · intro h hd
    have hg := ((h f.audioRef).mp (isAudioFrame_eq_some.mpr ⟨hd, rfl⟩)).1
    exact ((audioGrammar_iff f lo n).mp hg).2
  · intro h r
    rw [isAudioFrame_eq_some, audioGrammar_iff]
    exact and_congr_left fun _ => ⟨fun hd => ⟨hd, h hd⟩, And.left⟩

/-- An empty datagram to 239.255.0.1:14336. -/
def multicastAudioFrame : Frame where
  len := 42
  mem := fun i => [0x01, 0x00, 0x5E, 0x7F, 0x00, 0x01, 0x02, 0, 0, 0, 0, 1, 0x08, 0x00,
    0x45, 0x00, 0x00, 0x1C, 0, 0, 0, 0, 1, 17, 0, 0, 169, 254, 1, 2, 239, 255, 0, 1,
    0x38, 0x00, 0x38, 0x00, 0x00, 0x08, 0, 0].getD i 0

/-- The destination address is not looked at. -/
theorem multicast_audio_accepted :
    ¬ ∀ r, isAudioFrame multicastAudioFrame (14336 : UInt16).toNat (4 : UInt16).toNat = some r ↔
      AudioGrammar multicastAudioFrame (14336 : UInt16).toNat (4 : UInt16).toNat ∧ r = multicastAudioFrame.audioRef := by
  intro h
  have hr : isAudioFrame multicastAudioFrame 14336 4 = some multicastAudioFrame.audioRef := by decide
  exact absurd ((h _).mp hr).1.unicast (by decide)

end Inferno
