import Inferno.Lib.Trace
import Inferno.Proofs.Classifiers
import Inferno.Sanity.JitterRing
import Inferno.Spec.AudioChecked

/-! The audio ingest path is total: on every frame, from every state the flows and the
ring can be in, the checked path fails no check, so it is the plain path. The length
check of `handle_packet` carries all of it: what the header allows is a whole number of
frames of the flow's own layout. -/

namespace Inferno

open Lib

/-- Every header field the classifier looks at lies in the frame it was given. -/
theorem isAudioFrameC_eq (f : Frame) (lo n : ℕ) : isAudioFrameC f lo n = .ok (isAudioFrame f lo n) := by
  unfold isAudioFrameC isAudioFrame
  by_cases h1 : f.len < 14 + 20 + 8
  · rw [if_pos h1, if_pos h1]
  rw [if_neg h1, if_neg h1, fetch_ok (by omega), fetch_ok (by omega), ok_bind, ok_bind]
  by_cases h2 : f.mem 12 ≠ 0x08 ∨ f.mem 13 ≠ 0x00
  · rw [if_pos h2, if_pos h2]
  rw [if_neg h2, if_neg h2, fetch_ok (by omega), fetch_ok (by omega), ok_bind, ok_bind]
  by_cases h3 : f.ip0 >>> 4 ≠ 4 ∨ (f.mem (14 + 9)).toNat ≠ 17
  · rw [if_pos h3, if_pos h3]
  rw [if_neg h3, if_neg h3, fetch_ok (by omega), ok_bind]
  by_cases h4 : dwRd16 f.mem (14 + 6) &&& 0x3FFF ≠ 0
  · rw [if_pos h4, if_pos h4]
  rw [if_neg h4, if_neg h4]
  by_cases h5 : f.udp + 8 > f.len
  · rw [if_pos h5, if_pos h5]
  rw [if_neg h5, if_neg h5, fetch_ok (by omega), ok_bind]
  by_cases h6 : u16 (f.dport + 2 ^ 16 - lo) ≥ n
  · rw [if_pos h6, if_pos h6]
  rw [if_neg h6, if_neg h6, fetch_ok (by omega), ok_bind]
  by_cases h7 : f.ulen < 8 ∨ f.udp + f.ulen > f.len
  · rw [if_pos h7, if_pos h7]
  rw [if_neg h7, if_neg h7, fetch_ok (by omega), fetch_ok (by omega), ok_bind, ok_bind]

theorem aoipAudioParseC_eq (p : Mem) (len : ℕ) : aoipAudioParseC p len = .ok (aoipAudioParse p len) := by
  unfold aoipAudioParseC aoipAudioParse
  by_cases h1 : len < AOIP_AUDIO_HDR_LEN + 3
  · rw [if_pos h1, if_pos h1]
  have hlen : 12 ≤ len := by simpa [AOIP_AUDIO_HDR_LEN] using h1
  rw [if_neg h1, if_neg h1, fetch_ok (by omega), ok_bind]
  by_cases h2 : p 0 ≠ AOIP_AUDIO_MAGIC
  · rw [if_pos h2, if_pos h2]
  rw [if_neg h2, if_neg h2, fetch_ok (by omega), fetch_ok (by omega), ok_bind, ok_bind]

theorem sampleBytes_of_parse {p : Mem} {len : ℕ} {h : AudioHdr} (hp : aoipAudioParse p len = some h) :
    3 ≤ h.sampleBytes := by
  unfold aoipAudioParse at hp
  split_ifs at hp with h1 h2
  cases hp
  simp only [AOIP_AUDIO_HDR_LEN] at h1 ⊢
  omega

/-- The ring as the interrupt leaves it: attached with buffers that hold frames, and
ready only once every buffer of the table is learned. -/
structure RingOk (jb : JitterBuf) : Prop where
  frames : jb.nbufs ≠ 0 → 0 < jb.frames
  learned : jb.ready = true → jb.mapped = jb.nbufs ∧ jb.nbufs ≠ 0

/-- The fields a store neither reads from nor writes to. -/
structure SameTable (jb jb' : JitterBuf) : Prop where
  buf : jb'.buf = jb.buf
  nbufs : jb'.nbufs = jb.nbufs
  frames : jb'.frames = jb.frames
  mapped : jb'.mapped = jb.mapped
  ready : jb'.ready = jb.ready

theorem SameTable.refl (jb : JitterBuf) : SameTable jb jb := ⟨rfl, rfl, rfl, rfl, rfl⟩

theorem SameTable.trans {a b c : JitterBuf} (h1 : SameTable a b) (h2 : SameTable b c) : SameTable a c :=
  ⟨h2.buf.trans h1.buf, h2.nbufs.trans h1.nbufs, h2.frames.trans h1.frames, h2.mapped.trans h1.mapped,
    h2.ready.trans h1.ready⟩

theorem RingOk.of_same {jb jb' : JitterBuf} (hi : RingOk jb) (h : SameTable jb jb') : RingOk jb' :=
  ⟨by rw [h.nbufs, h.frames]; exact hi.frames, by rw [h.ready, h.mapped, h.nbufs]; exact hi.learned⟩

/-- Where a slot's row lies in a ready ring: whole, in a learned buffer. -/
theorem RingOk.row_mem {jb : JitterBuf} (hi : RingOk jb) (hr : jb.ready = true) (slot : ℤ) :
    ∃ k < jb.mapped, k = ((slot % AP_RING_FRAMES).toNat >>> jb.fshift) % jb.nbufs ∧
      ∀ x, jb.row slot ≤ x → x < jb.row slot + AP_NCH → jb.inBuf (jb.buf k) x := by
  obtain ⟨hm, hn⟩ := hi.learned hr
  have hk := Nat.mod_lt ((slot % AP_RING_FRAMES).toNat >>> jb.fshift) (Nat.pos_of_ne_zero hn)
  refine ⟨_, hm.symm ▸ hk, rfl, fun x h1 h2 => ?_⟩
  have hf := hi.frames hn
  have hle : (slot % AP_RING_FRAMES).toNat &&& (jb.frames - 1) ≤ jb.frames - 1 := Nat.and_le_right
  have hlast : ((slot % AP_RING_FRAMES).toNat &&& (jb.frames - 1)) * AP_NCH + AP_NCH ≤ jb.frames * AP_NCH := by
    rw [← Nat.succ_mul]
    exact Nat.mul_le_mul_right _ (by omega)
  simp only [JitterBuf.row] at h1 h2
  exact ⟨by omega, by omega⟩

theorem sample_inside {f nframes s nslots n : ℕ} (hf : f < nframes) (hs : s < nslots)
    (hn : n = nslots * 3 * nframes) : f * (nslots * 3) + s * 3 + 3 ≤ n := by
  have hrow : (f + 1) * (nslots * 3) ≤ nframes * (nslots * 3) := Nat.mul_le_mul_right _ hf
  rw [Nat.succ_mul] at hrow
  rw [hn, Nat.mul_comm (nslots * 3)]
  omega

theorem storeSlotC_eq {jb : JitterBuf} {p : Packet} {n gain k row src s : ℕ} (hs : s < AP_MAX_CH_PER_FLOW)
    (hn : src + s * 3 + 3 ≤ n) (hrow : ∀ x, row ≤ x → x < row + AP_NCH → jb.inBuf (jb.buf k) x) (mem : Words) :
    storeSlotC jb p n gain k row src mem s = .ok (storeSlot p gain row src mem s) := by
  unfold storeSlotC storeSlot
  rw [checked_ok hs, ok_bind]
  split_ifs with hch
  · have hx : AP_OUT_SLOT (p.slotToCh s).toNat < AP_NCH := by
      simp only [AP_OUT_SLOT, AP_NCH]
      omega
    rw [fetch_ok hn, ok_bind]
    exact checked_ok (hrow _ (by omega) (by omega)) _
  · rfl

theorem sameTable_storeFrame (sn : Snap) (p : Packet) (st : JitterBuf × Option Seg) (f : ℕ) :
    SameTable st.1 (storeFrame sn p st f).1 := by
  unfold storeFrame
  dsimp only
  split_ifs
  · exact SameTable.refl st.1
  · exact ⟨rfl, rfl, rfl, rfl, rfl⟩

theorem storeFrameC_eq {sn : Snap} {p : Packet} {n f : ℕ} {st : JitterBuf × Option Seg} (hi : RingOk st.1)
    (hr : st.1.ready = true) (hf : f < p.nframes) (hs : p.nslots ≤ AP_MAX_CH_PER_FLOW)
    (hn : n = p.nslots * 3 * p.nframes) : storeFrameC sn p n st f = .ok (storeFrame sn p st f) := by
  unfold storeFrameC storeFrame
  dsimp only
  split_ifs with ha
  · rfl
  · obtain ⟨k, hk, hkeq, hrow⟩ := hi.row_mem hr (p.firstIdx + f + sn.off)
    rw [checked_ok (hi.learned hr).2, ok_bind, ← hkeq, checked_ok hk, ok_bind]
    have hrowEq : st.1.buf k + (((p.firstIdx + f + sn.off) % AP_RING_FRAMES).toNat &&& (st.1.frames - 1)) * AP_NCH
        = st.1.row (p.firstIdx + f + sn.off) := by rw [hkeq]; rfl
    rw [hrowEq]
    have hslots := foldlM_ok (P := fun _ => True)
      (f := storeSlotC st.1 p n st.1.gainQ16 k (st.1.row (p.firstIdx + f + sn.off)) (f * (p.nslots * 3)))
      (g := storeSlot p st.1.gainQ16 (st.1.row (p.firstIdx + f + sn.off)) (f * (p.nslots * 3)))
      (l := List.range p.nslots) (fun mem _ s hmem => by
        have hlt := List.mem_range.mp hmem
        exact ⟨storeSlotC_eq (by omega) (sample_inside hf hlt hn) hrow mem, trivial⟩) (s := st.1.mem) trivial
    rw [hslots, ok_bind]

theorem jbWriteC_eq (hz : ℕ) (now : ℤ) (p : Packet) {n : ℕ} {jb : JitterBuf} (hi : RingOk jb)
    (hs : p.nslots ≤ AP_MAX_CH_PER_FLOW) (hn : n = p.nslots * 3 * p.nframes) :
    jbWriteC hz now p n jb = .ok (jbWrite hz now p jb) := by
  unfold jbWriteC jbWrite
  rcases hb : jbWriteBegin hz now p jb with ⟨jb', _ | sn⟩
  · rfl
  · obtain ⟨rfl, hr⟩ := jbWriteBegin_ready hb
    have hloop := foldlM_ok (P := fun st : JitterBuf × Option Seg => SameTable jb' st.1)
      (f := storeFrameC sn p n) (g := storeFrame sn p) (l := List.range p.nframes) (fun st hst f hmem => by
        refine ⟨?_, hst.trans (sameTable_storeFrame sn p st f)⟩
        exact storeFrameC_eq (hi.of_same hst) (hst.ready.trans hr) (List.mem_range.mp hmem) hs hn)
      (s := (jb', none)) (SameTable.refl jb')
    dsimp only
    rw [hloop]
    rfl

theorem jbWrite_outside (hz : ℕ) (now : ℤ) (p : Packet) {jb : JitterBuf} (hi : RingOk jb) :
    SameTable jb (jbWrite hz now p jb).1 ∧
      ∀ x, (∀ k < jb.mapped, ¬ jb.inBuf (jb.buf k) x) → (jbWrite hz now p jb).1.mem x = jb.mem x := by
  unfold jbWrite
  rcases jbWriteBegin_cases hz now p jb with ⟨st, hb⟩ | ⟨sn, hb, -⟩
  · rw [hb]
    exact ⟨⟨rfl, rfl, rfl, rfl, rfl⟩, fun _ _ => rfl⟩
  · rw [hb]
    have hr := (jbWriteBegin_ready hb).2
    obtain ⟨log, he⟩ := jbWriteStore_eq sn p jb
    have hloop : ∀ x, (∀ k < jb.mapped, ¬ jb.inBuf (jb.buf k) x) →
        (List.range p.nframes).foldl (frameMem jb sn p) jb.mem x = jb.mem x := by
      intro x hx
      refine foldl_induct (P := fun mem : Words => mem x = jb.mem x) (fun mem hmem f _ => ?_) rfl
      simp only [frameMem]
      split_ifs with ha
      · exact hmem
      · obtain ⟨k, hk, -, hrow⟩ := hi.row_mem hr (p.firstIdx + f + sn.off)
        rw [storeSlots_out _ _ _ _ _ _ ?_, hmem]
        by_contra hin
        exact hx k hk (hrow x (by omega) (by omega))
    simp only [he, jbWritePublish]
    exact ⟨⟨rfl, rfl, rfl, rfl, rfl⟩, hloop⟩

theorem noteTimestampC_eq {nframes : ℕ} (h : nframes ≠ 0) (idx : ℤ) (fl : RxFlow) :
    noteTimestampC idx nframes fl = .ok (noteTimestamp idx nframes fl) := by
  unfold noteTimestampC noteTimestamp
  rw [checked_ok h]
  by_cases hg : fl.haveNext ∧ idx - fl.nextIdx > 0
  · rw [if_pos hg, if_pos hg, ok_bind]
  · rw [if_neg hg, if_neg hg, ok_bind]

theorem slotPeakC_eq {samples : Mem} {n nframes nslots s : ℕ} (hs : s < nslots)
    (hn : n = nslots * 3 * nframes) (pk : ℕ) :
    slotPeakC samples n nframes nslots s pk = .ok (slotPeak samples nframes nslots s pk) := by
  refine foldlM_ok (P := fun _ => True) (fun pk _ f hf => ⟨?_, trivial⟩) trivial
  have hin := sample_inside (List.mem_range.mp hf) hs hn
  have hidx : (f * nslots + s) * 3 = f * (nslots * 3) + s * 3 := by ring
  rw [fetch_ok (by omega), ok_bind]

theorem meterSlotC_eq {samples : Mem} {n nframes nslots s : ℕ} {map : ℕ → ℤ} (hs : s < nslots)
    (h8 : nslots ≤ AP_MAX_CH_PER_FLOW) (hn : n = nslots * 3 * nframes) (rx : AoipRx) :
    meterSlotC samples n nframes nslots map rx s = .ok (meterSlot samples nframes nslots map rx s) := by
  unfold meterSlotC meterSlot
  rw [checked_ok (by omega), ok_bind]
  split_ifs with hm
  · rfl
  · have hch : (map s).toNat < AP_NCH := by
      simp only [AP_NCH] at hm ⊢
      omega
    rw [checked_ok hch, ok_bind, slotPeakC_eq hs hn, ok_bind]

theorem takePacketC_eq {hz : ℕ} {now : Option ℕ} {us : ℤ} {i : Fin AP_MAX_FLOWS} {h : AudioHdr} {rx : AoipRx}
    {jb : JitterBuf} (hi : RingOk jb) (h8 : (rx.flows i).nslots ≤ AP_MAX_CH_PER_FLOW)
    (hn : h.sampleBytes = (rx.flows i).nslots * 3 * (rx.flows i).fpp) (hfpp : (rx.flows i).fpp ≠ 0) :
    takePacketC hz now us i h rx jb = .ok (takePacket hz now us i h rx jb) := by
  unfold takePacketC takePacket
  have hmeter := foldlM_ok (P := fun _ => True)
    (f := meterSlotC h.samples h.sampleBytes (rx.flows i).fpp (rx.flows i).nslots (rx.flows i).slotToCh)
    (g := meterSlot h.samples (rx.flows i).fpp (rx.flows i).nslots (rx.flows i).slotToCh)
    (l := List.range (rx.flows i).nslots)
    (fun rx' _ s hs => ⟨meterSlotC_eq (List.mem_range.mp hs) h8 hn rx', trivial⟩)
    (s := noteLatency hz now i (aoipTsToSamples h.seconds h.subsecSamples hz) rx) trivial
  have hwrite := jbWriteC_eq hz us ⟨aoipTsToSamples h.seconds h.subsecSamples hz, (rx.flows i).fpp,
    (rx.flows i).nslots, (rx.flows i).slotToCh, h.samples⟩ hi h8 hn
  simp only [noteTimestampC_eq hfpp, hwrite, hmeter, ok_bind]

/-- The length check leaves only whole packets of the flow's layout, and the shortest
header leaves none of them empty. -/
theorem handlePacketC_eq {hz : ℕ} {now : Option ℕ} {us : ℤ} {i : Fin AP_MAX_FLOWS} {buf : Mem} {len : ℕ}
    {rx : AoipRx} {jb : JitterBuf} (hi : RingOk jb) (h8 : (rx.flows i).nslots ≤ AP_MAX_CH_PER_FLOW) :
    handlePacketC hz now us i buf len rx jb = .ok (handlePacket hz now us i buf len rx jb) := by
  unfold handlePacketC handlePacket
  rw [aoipAudioParseC_eq, ok_bind]
  cases hp : aoipAudioParse buf len with
  | none =>
    dsimp only
    split_ifs <;> rfl
  | some h =>
    dsimp only
    split_ifs with hlen
    · rfl
    · obtain ⟨-, hn⟩ := not_or.mp hlen
      have h3 := sampleBytes_of_parse hp
      refine takePacketC_eq hi h8 (not_not.mp hn) fun h0 => ?_
      rw [not_not.mp hn, h0] at h3
      omega

theorem nslots_noteSource (i : Fin AP_MAX_FLOWS) (r : AudioRef) (rx : AoipRx) (j : Fin AP_MAX_FLOWS) :
    ((noteSource i r rx).flows j).nslots = (rx.flows j).nslots := by
  unfold noteSource
  split_ifs
  · rcases eq_or_ne j i with rfl | hj
    · simp only [AoipRx.setFlow, Function.update_self]
    · simp only [AoipRx.setFlow, Function.update_of_ne hj]
  · rfl
  · rfl

theorem fastInputC_eq {hz : ℕ} {now : Option ℕ} {us : ℤ} {r : AudioRef} {payload : Mem} {len : ℕ} {rx : AoipRx}
    {jb : JitterBuf} (hi : RingOk jb) (h8 : ∀ i, (rx.flows i).nslots ≤ AP_MAX_CH_PER_FLOW) :
    fastInputC hz now us r payload len rx jb = .ok (fastInput hz now us r payload len rx jb) := by
  unfold fastInputC fastInput
  split_ifs
  · rfl
  · cases flowOfPort r.dport with
    | none => rfl
    | some i =>
      dsimp only
      split_ifs
      · rfl
      · rw [handlePacketC_eq hi (by rw [nslots_noteSource]; exact h8 i), ok_bind]

theorem audioInputC_eq {hz : ℕ} {now : Option ℕ} {us : ℤ} {f : Frame} {rx : AoipRx} {jb : JitterBuf}
    (hi : RingOk jb) (h8 : ∀ i, (rx.flows i).nslots ≤ AP_MAX_CH_PER_FLOW) :
    audioInputC hz now us f rx jb = .ok (audioInput hz now us f rx jb) := by
  unfold audioInputC audioInput
  rw [isAudioFrameC_eq, ok_bind]
  cases isAudioFrame f AOIP_RX_AUDIO_PORT AP_MAX_FLOWS with
  | none => rfl
  | some r => exact fastInputC_eq hi h8

structure IngestInv (s : RxSys) : Prop where
  slots : ∀ i, (s.rx.flows i).nslots ≤ AP_MAX_CH_PER_FLOW
  ring : RingOk s.jb

theorem slots_setFlow {rx : AoipRx} (h : ∀ i, (rx.flows i).nslots ≤ AP_MAX_CH_PER_FLOW) {i : Fin AP_MAX_FLOWS}
    {fl : RxFlow} (hfl : fl.nslots ≤ AP_MAX_CH_PER_FLOW) :
    ∀ j, ((rx.setFlow i fl).flows j).nslots ≤ AP_MAX_CH_PER_FLOW := by
  intro j
  rcases eq_or_ne j i with rfl | hj
  · simp only [AoipRx.setFlow, Function.update_self]
    exact hfl
  · simp only [AoipRx.setFlow, Function.update_of_ne hj]
    exact h j

theorem nslots_bind {idx nslots fpp : ℕ} {map : ℕ → ℤ} {ok : Bool} {fl : RxFlow}
    (h : fl.nslots ≤ AP_MAX_CH_PER_FLOW) :
    (aoipRxBindFlow idx nslots map fpp ok fl).1.nslots ≤ AP_MAX_CH_PER_FLOW := by
  unfold aoipRxBindFlow
  split_ifs with h1 h2
  · exact h
  · exact h
  · exact not_lt.mp (not_or.mp h1).2

theorem nslots_remap {nslots : ℕ} {map : ℕ → ℤ} {fl : RxFlow} (h : fl.nslots ≤ AP_MAX_CH_PER_FLOW) :
    (aoipRxRemapFlow nslots map fl).1.nslots ≤ AP_MAX_CH_PER_FLOW := by
  unfold aoipRxRemapFlow
  split_ifs with h1 h2
  · exact h
  · exact h
  · exact not_lt.mp (not_or.mp h1).2

/-- A frame leaves every flow's layout as it was, the table of the ring, and the words
outside its learned buffers. -/
structure Ingested (s s' : RxSys) : Prop where
  layout : ∀ i, (s'.rx.flows i).nslots = (s.rx.flows i).nslots
  table : SameTable s.jb s'.jb
  outside : ∀ x, (∀ k < s.jb.mapped, ¬ s.jb.inBuf (s.jb.buf k) x) → s'.jb.mem x = s.jb.mem x

theorem nslots_noteTimestamp (idx : ℤ) (nframes : ℕ) (fl : RxFlow) :
    (noteTimestamp idx nframes fl).nslots = fl.nslots := by
  simp only [noteTimestamp]
  split_ifs <;> rfl

theorem flows_meter (h : AudioHdr) (fl : RxFlow) (rx : AoipRx) (n : ℕ) :
    ((List.range n).foldl (meterSlot h.samples fl.fpp fl.nslots fl.slotToCh) rx).flows = rx.flows := by
  refine foldl_induct (P := fun r : AoipRx => r.flows = rx.flows) (fun r hr s _ => ?_) rfl
  unfold meterSlot
  split_ifs
  · exact hr
  · exact hr

theorem flows_noteLatency (hz : ℕ) (now : Option ℕ) (i : Fin AP_MAX_FLOWS) (idx : ℤ) (rx : AoipRx) :
    (noteLatency hz now i idx rx).flows = rx.flows := by
  cases now <;> rfl

theorem ingested_takePacket {hz : ℕ} {now : Option ℕ} {us : ℤ} {i : Fin AP_MAX_FLOWS} {h : AudioHdr} {rx : AoipRx}
    {jb : JitterBuf} (hi : RingOk jb) :
    Ingested ⟨rx, jb⟩ ⟨(takePacket hz now us i h rx jb).1, (takePacket hz now us i h rx jb).2⟩ := by
  obtain ⟨htable, hout⟩ := jbWrite_outside hz us ⟨aoipTsToSamples h.seconds h.subsecSamples hz,
    (rx.flows i).fpp, (rx.flows i).nslots, (rx.flows i).slotToCh, h.samples⟩ hi
  refine ⟨fun j => ?_, htable, hout⟩
  simp only [takePacket, AoipRx.setFlow, flows_meter, flows_noteLatency]
  rcases eq_or_ne j i with rfl | hj
  · simp only [Function.update_self]
    split_ifs <;> exact nslots_noteTimestamp _ _ _
  · simp only [Function.update_of_ne hj]

theorem Ingested.of_same {s s' : RxSys} (hrx : s'.rx.flows = s.rx.flows) (hjb : s'.jb = s.jb) : Ingested s s' :=
  ⟨fun i => by rw [hrx], hjb.symm ▸ SameTable.refl s.jb, fun _ _ => by rw [hjb]⟩

theorem ingested_handlePacket (hz : ℕ) (now : Option ℕ) (us : ℤ) (i : Fin AP_MAX_FLOWS) (buf : Mem) (len : ℕ)
    (rx : AoipRx) {jb : JitterBuf} (hi : RingOk jb) :
    Ingested ⟨rx, jb⟩
      ⟨(handlePacket hz now us i buf len rx jb).1, (handlePacket hz now us i buf len rx jb).2⟩ := by
  unfold handlePacket
  cases aoipAudioParse buf len with
  | none =>
    dsimp only
    split_ifs <;> exact Ingested.of_same rfl rfl
  | some h =>
    dsimp only
    split_ifs
    · exact Ingested.of_same rfl rfl
    · exact ingested_takePacket hi

theorem ingested_fastInput (hz : ℕ) (now : Option ℕ) (us : ℤ) (r : AudioRef) (payload : Mem) (len : ℕ)
    {rx : AoipRx} {jb : JitterBuf} (hi : RingOk jb) :
    Ingested ⟨rx, jb⟩ ⟨(fastInput hz now us r payload len rx jb).1.1, (fastInput hz now us r payload len rx jb).1.2⟩ := by
  unfold fastInput
  split_ifs
  · exact Ingested.of_same rfl rfl
  · cases flowOfPort r.dport with
    | none => exact Ingested.of_same rfl rfl
    | some i =>
      dsimp only
      split_ifs
      · exact Ingested.of_same rfl rfl
      · obtain ⟨hl, ht, ho⟩ := ingested_handlePacket hz now us i payload len (noteSource i r rx) hi
        exact ⟨fun j => (hl j).trans (nslots_noteSource i r rx j), ht, ho⟩

theorem ingested_audioInput (hz : ℕ) (now : Option ℕ) (us : ℤ) (f : Frame) (rx : AoipRx) {jb : JitterBuf}
    (hi : RingOk jb) :
    Ingested ⟨rx, jb⟩ ⟨(audioInput hz now us f rx jb).1.1, (audioInput hz now us f rx jb).1.2⟩ := by
  unfold audioInput
  cases isAudioFrame f AOIP_RX_AUDIO_PORT AP_MAX_FLOWS with
  | none => exact Ingested.of_same rfl rfl
  | some r => exact ingested_fastInput hz now us r _ r.plen hi

theorem ringOk_isr {jb : JitterBuf} (hi : RingOk jb) (p : ℕ) (t : ℤ) : RingOk (jbIsrSent p t jb) := by
  have hund : ∀ b : JitterBuf, SameTable b (isrUnderrun b) := fun b => by
    unfold isrUnderrun
    dsimp only
    split_ifs <;> exact ⟨rfl, rfl, rfl, rfl, rfl⟩
  unfold jbIsrSent
  refine RingOk.of_same ?_ (hund _)
  cases hr : jb.ready with
  | false =>
    refine ⟨hi.frames, fun h => ?_⟩
    have hlast : jb.mapped + 1 = jb.nbufs := of_decide_eq_true h
    exact ⟨hlast, fun h0 => absurd (hlast.trans h0) (Nat.succ_ne_zero _)⟩
  | true =>
    have hadv : SameTable jb (isrAdvance jb p) := by
      unfold isrAdvance
      dsimp only
      split_ifs
      · split <;> exact ⟨rfl, rfl, rfl, rfl, rfl⟩
      · exact ⟨rfl, rfl, rfl, rfl, rfl⟩
    exact (hi.of_same hadv).of_same ⟨rfl, rfl, rfl, rfl, rfl⟩

theorem ingestInv_step {hz : ℕ} {s : RxSys} (hi : IngestInv s) (e : RxEvent) : IngestInv (rxStep hz s e) := by
  cases e with
  | bind i nslots map fpp ok => exact ⟨slots_setFlow hi.slots (nslots_bind (hi.slots i)), hi.ring⟩
  | remap i nslots map => exact ⟨slots_setFlow hi.slots (nslots_remap (hi.slots i)), hi.ring⟩
  | unbind i => exact ⟨slots_setFlow hi.slots (hi.slots i), hi.ring⟩
  | fastPath on => exact ⟨hi.slots, hi.ring⟩
  | frame f now us =>
    have h := ingested_audioInput hz now us f s.rx hi.ring
    exact ⟨fun i => (h.layout i).trans_le (hi.slots i), hi.ring.of_same h.table⟩
  | attach nbufs frames => exact ⟨hi.slots, fun _ => frames.pos, fun h => Bool.noConfusion h⟩
  | isr p t => exact ⟨hi.slots, ringOk_isr hi.ring p t⟩
  | reset us playoutIdx =>
    refine ⟨hi.slots, hi.ring.of_same ?_⟩
    simp only [rxStep, jbReset]
    split_ifs <;> exact ⟨rfl, rfl, rfl, rfl, rfl⟩
  | step delta => exact ⟨hi.slots, hi.ring.of_same ⟨rfl, rfl, rfl, rfl, rfl⟩⟩
  | gain level db => exact ⟨hi.slots, hi.ring.of_same ⟨rfl, rfl, rfl, rfl, rfl⟩⟩
  | mute level on => exact ⟨hi.slots, hi.ring.of_same ⟨rfl, rfl, rfl, rfl, rfl⟩⟩

theorem ingestInv_run (hz : ℕ) (mem : Words) (gainDb : ℤ) (gainQ16 : ℕ) (l : List RxEvent) :
    IngestInv (rxRun hz mem gainDb gainQ16 l) :=
  run_induct (rxStep hz) (P := fun _ s => IngestInv s)
    ⟨fun _ => Nat.zero_le _, fun h => absurd rfl h, fun h => Bool.noConfusion h⟩
    (fun _ e hi => ingestInv_step hi e) l

/-- In every state a run from boot reaches, whatever the flows were bound and remapped
to and however far the ring has learned its buffers: every frame passes every check of
the ingest path, the payload it reads lies in the frame, and the words it stores lie in
the rows of the learned buffers. -/
theorem audio_ingest_total (hz : ℕ) (mem : Words) (gainDb : ℤ) (gainQ16 : ℕ) (l : List RxEvent) (f : Frame)
    (now : Option ℕ) (us : ℤ) :
    audioInputC hz now us f (rxRun hz mem gainDb gainQ16 l).rx (rxRun hz mem gainDb gainQ16 l).jb =
      .ok (audioInput hz now us f (rxRun hz mem gainDb gainQ16 l).rx (rxRun hz mem gainDb gainQ16 l).jb) ∧
    (∀ r, isAudioFrame f AOIP_RX_AUDIO_PORT AP_MAX_FLOWS = some r → f.Contains r.payload r.plen) ∧
    (∀ x, (∀ k < (rxRun hz mem gainDb gainQ16 l).jb.mapped,
        ¬ (rxRun hz mem gainDb gainQ16 l).jb.inBuf ((rxRun hz mem gainDb gainQ16 l).jb.buf k) x) →
      (rxStep hz (rxRun hz mem gainDb gainQ16 l) (.frame f now us)).jb.mem x =
        (rxRun hz mem gainDb gainQ16 l).jb.mem x) := by
  have hi := ingestInv_run hz mem gainDb gainQ16 l
  exact ⟨audioInputC_eq hi.ring hi.slots, fun r hr => audio_payload_inside hr,
    (ingested_audioInput hz now us f _ hi.ring).outside⟩

end Inferno
