import Inferno.Spec.InfoMessages

/-! The stores of every info message, in whatever order and however often they write a
place, draw that message and leave no gap. -/

namespace Inferno

open Lib

variable {mac : Mem}

/-- The stores build the note, its length apart. -/
structure Draws (mac : Mem) (l : Puts) (n : InfoNote) : Prop where
  gapless : Gapless 0 l
  reach : reach 0 l = n.len mac
  drawn : painted [] l = n.header mac 0 ++ n.msg.body mac
  apt : n.Apt mac

theorem header_length (mac : Mem) {n : InfoNote} (hop : n.op.length = 8) (len : ℕ) :
    (n.header mac len).length = MCAST_HDR_LEN := by
  simp [InfoNote.header, eui64, VENDOR, hop, MCAST_HDR_LEN]

theorem endToEnd_header (mac : Mem) (startCode : ℕ) (op : List UInt8) (seq : ℕ) :
    EndToEnd 0 (putHdrSeq mac startCode op seq) :=
  ⟨rfl, rfl, rfl, rfl, rfl, rfl, rfl, trivial⟩

theorem flat_header (startCode : ℕ) (op : List UInt8) (seq : ℕ) :
    (putHdrSeq mac startCode op seq).flatMap Prod.snd =
      dwWr16 startCode ++ (dwWr16 0 ++ (dwWr16 seq ++ (dwWr16 0 ++ (eui64 mac ++ (VENDOR ++ op))))) := by
  simp [putHdrSeq, putU16]

theorem draws_info {n : InfoNote} {l : Puts} {k : ℕ} (hop : n.op.length = 8) (hstart : n.msg.startCode = 0xFFFF)
    (hl : Gapless 0 l) (hbody : painted [] l = n.msg.body mac) (hk : Lib.reach 0 l = k)
    (hfit : MCAST_HDR_LEN + k ≤ INFO_BUF_LEN) (hkind : n.msg.Kind (n.op.getD 3 0)) :
    Draws mac (putHdrSeq mac 0xFFFF n.op n.seq ++ shifted MCAST_HDR_LEN l) n ∧ n.len mac = MCAST_HDR_LEN + k := by
  have hdr := endToEnd_header mac 0xFFFF n.op n.seq
  have hflat : (putHdrSeq mac 0xFFFF n.op n.seq).flatMap Prod.snd = n.header mac 0 := by
    rw [flat_header, InfoNote.header, hstart]
  have hpaint : painted [] (putHdrSeq mac 0xFFFF n.op n.seq) = n.header mac 0 := by
    have h := painted_endToEnd (p := []) hdr []
    rwa [hflat, List.append_nil, List.drop_nil, List.append_nil, List.nil_append] at h
  have hreach : Lib.reach 0 (putHdrSeq mac 0xFFFF n.op n.seq) = MCAST_HDR_LEN := by
    rw [hdr.reach le_rfl, hflat, header_length mac hop]
    rfl
  have hlen : (n.msg.body mac).length = k := by
    rw [← hbody, length_painted (p := []) hl, ← hk]
    rfl
  have hnlen : n.len mac = MCAST_HDR_LEN + k := by rw [InfoNote.len, hlen]
  refine ⟨⟨?_, ?_, ?_, hop, hnlen.trans_le hfit, hkind⟩, hnlen⟩
  · rw [gapless_append, hreach]
    exact ⟨hdr.gapless le_rfl, gapless_shifted (i := 0).mpr hl⟩
  · rw [reach_append, hreach, hnlen, ← hk]
    exact reach_shifted (i := 0)
  · rw [painted_append, hpaint, ← hbody]
    have h := painted_shifted (n.header mac 0) [] l
    rwa [List.append_nil, header_length mac hop] at h

structure Bodies (mac : Mem) (l : Puts) (k : ℕ) (msg : InfoMsg) : Prop where
  gapless : Gapless 0 l
  reach : Lib.reach 0 l = k
  drawn : painted [] l = msg.body mac
  start : msg.startCode = 0xFFFF
  fits : MCAST_HDR_LEN + k ≤ INFO_BUF_LEN

theorem bodies_plain (mac : Mem) {l : Puts} {k : ℕ} (hl : Gapless 0 l) (hk : Lib.reach 0 l = k)
    (hfit : MCAST_HDR_LEN + k ≤ INFO_BUF_LEN) :
    Bodies mac l k (.plain (painted [] l)) := ⟨hl, hk, rfl, rfl, hfit⟩

theorem kind_plain {body : List UInt8} {lo : UInt8} (h : lo ≠ 0x11 ∧ lo ≠ 0x20 ∧ lo ≠ 0x80 ∧ lo ≠ 0x02) :
    (InfoMsg.plain body).Kind lo := h

theorem bodies_board : Bodies mac boardStores 200 (.plain (painted [] boardStores)) :=
  bodies_plain _ (by simp [boardStores, Gapless, putFixed, -List.reduceReplicate])
    (by simp [boardStores, Lib.reach, putFixed, -List.reduceReplicate]) (by decide)

theorem bodies_product : Bodies mac productStores 336 (.plain (painted [] productStores)) :=
  bodies_plain _ (by simp [productStores, Gapless, putFixed, -List.reduceReplicate])
    (by simp [productStores, Lib.reach, putFixed, -List.reduceReplicate]) (by decide)

theorem bodies_encoding : Bodies mac encodingStores 20 (.plain (painted [] encodingStores)) :=
  bodies_plain _ (by simp [encodingStores, Gapless, putU16, putU32]) (by simp [encodingStores, Lib.reach, putU16, putU32])
    (by decide)

theorem bodies_one (mac : Mem) {bs : List UInt8} (hfit : MCAST_HDR_LEN + bs.length ≤ INFO_BUF_LEN) :
    Bodies mac [(0, bs)] bs.length (.plain (painted [] [(0, bs)])) :=
  bodies_plain _ ⟨le_rfl, trivial⟩ (by simp [Lib.reach]) hfit

theorem bodies_network (mac : Mem) (ni : NetInfo) : Bodies mac (networkStores mac ni) 64 (.network ni) where
  gapless := by simp [networkStores, Gapless, putU16, putU32]
  reach := rfl
  drawn := rfl
  start := rfl
  fits := by decide

theorem clockStatsTmpl_length : CLOCK_STATS_TMPL.length = 148 := by simp [CLOCK_STATS_TMPL]

theorem bodies_clock (mac : Mem) (locked : Bool) (ppb : ℕ) (mu : List UInt8) :
    Bodies mac (clockStores mac locked ppb mu) CLOCK_STATS_TMPL.length (.clock locked ppb mu) where
  gapless := by simp [clockStores, Gapless, putU32, clockStatsTmpl_length, eui64]
  reach := by simp [clockStores, Lib.reach, putU32, clockStatsTmpl_length, eui64]
  drawn := rfl
  start := rfl
  fits := by rw [clockStatsTmpl_length]; decide

theorem bodies_rates (mac : Mem) (hz : ℕ) : Bodies mac (rateStores hz) (16 + 4 * RATES.length) (.rates hz) where
  gapless := by simp [rateStores, Gapless, putU16, putU32, RATES, List.range_succ]
  reach := rfl
  drawn := rfl
  start := rfl
  fits := by decide

theorem bodies_changed (mac : Mem) (mask : ℕ) : Bodies mac (changeStores mask) (2 + (AP_NCH + 7) / 8) (.changed mask) where
  gapless := by simp [changeStores, Gapless, putU16, AP_NCH]
  reach := rfl
  drawn := rfl
  start := rfl
  fits := by decide

section
variable {h : Heartbeat}

theorem map_range_getD {β : Type*} [Zero β] (l : List β) : ((List.range l.length).map fun i => l.getD i 0) = l := by
  refine List.ext_getElem (by simp) fun k hk hk' => ?_
  simp [List.getD_eq_getElem?_getD, List.getElem?_eq_getElem hk']

/-- The stores of 0x8002 up to the peaks, their place cleared. -/
def hbPeaksHead (n seq : ℕ) : Puts :=
  putRecord n (24 + hbNpk + hbPad) 0x8002 (12 + hbNpk) seq ++
    [putU16 (n + 12) 0, putU16 (n + 14) 0, putU16 (n + 16) AP_NCH, putU16 (n + 18) 0, putU16 (n + 20) 24,
      putU16 (n + 22) 0, (n + 24, List.replicate (hbNpk + hbPad) 0)]

def hbPeakBytes (n : ℕ) (v : ℕ → UInt8) : Puts := (List.range AP_NCH).map fun c => (n + 24 + 0 + c, [v c])

def peaksHead (h : Heartbeat) : List UInt8 :=
  dwWr16 32 ++ (dwWr16 0x8002 ++ (dwWr16 4 ++ (dwWr16 20 ++ (dwWr16 h.seq ++ (dwWr16 0 ++
    (dwWr16 0 ++ (dwWr16 0 ++ (dwWr16 8 ++ (dwWr16 0 ++ (dwWr16 24 ++ dwWr16 0))))))))))

theorem endToEnd_clock (n seq ppb : ℕ) : EndToEnd n (hbClock n seq ppb) := ⟨rfl, rfl, rfl, rfl, rfl, rfl, rfl, trivial⟩

theorem endToEnd_sync (n seq off pd : ℕ) : EndToEnd n (hbSync n seq off pd) :=
  ⟨rfl, rfl, rfl, rfl, rfl, rfl, rfl, rfl, rfl, rfl, rfl, rfl, rfl, rfl, trivial⟩

theorem endToEnd_peaksHead (n seq : ℕ) : EndToEnd n (hbPeaksHead n seq) :=
  ⟨rfl, rfl, rfl, rfl, rfl, rfl, rfl, rfl, rfl, rfl, rfl, rfl, rfl, trivial⟩

theorem endToEnd_peakBytes (n : ℕ) (v : ℕ → UInt8) : EndToEnd (n + 24) (hbPeakBytes n v) :=
  ⟨rfl, rfl, rfl, rfl, rfl, rfl, rfl, rfl, trivial⟩

theorem endToEnd_latency (n seq hz : ℕ) (lat : List ℕ) : EndToEnd n (hbLatency n seq hz lat) :=
  ⟨rfl, rfl, rfl, rfl, rfl, rfl, rfl, rfl, rfl, rfl, rfl, rfl, rfl, rfl, rfl, trivial⟩

theorem endToEnd_missed (n seq : ℕ) (missed : List ℕ) : EndToEnd n (hbMissed n seq missed) :=
  ⟨rfl, rfl, rfl, rfl, rfl, rfl, rfl, rfl, rfl, rfl, rfl, rfl, rfl, rfl, trivial⟩

theorem flat_clock (n : ℕ) : (hbClock n h.seq h.ppb).flatMap Prod.snd = clockRecord h := rfl

theorem flat_sync (n : ℕ) : (hbSync n h.seq h.offset h.delay).flatMap Prod.snd = syncRecord h := rfl

theorem flat_peaksHead (n : ℕ) : (hbPeaksHead n h.seq).flatMap Prod.snd = peaksHead h ++ List.replicate 8 0 := rfl

theorem flat_peakBytes (hh : h.Shaped) (n : ℕ) : (hbPeakBytes n fun c => h.peaks.getD c 0).flatMap Prod.snd = h.peaks := by
  have hmap := map_range_getD h.peaks
  rw [hh.peaks] at hmap
  rw [hbPeakBytes, List.flatMap_map]
  exact (List.flatMap_pure_eq_map _ _).trans hmap

theorem flat_words (f : ℕ → ℕ) (l : List ℕ) (hl : l.length = AP_MAX_FLOWS) :
    ((List.range AP_MAX_FLOWS).map fun i => putU32 (f i) (l.getD i 0)).flatMap Prod.snd = l.flatMap dwWr32 := by
  have hmap := map_range_getD l
  rw [hl] at hmap
  conv_rhs => rw [← hmap, List.flatMap_map]
  rw [List.flatMap_map]
  rfl

theorem flat_latency (hh : h.Shaped) (n : ℕ) : (hbLatency n h.seq h.hz h.latency).flatMap Prod.snd = latencyRecord h := by
  rw [hbLatency, List.flatMap_append, flat_words _ _ hh.latency, latencyRecord, hh.latency]
  simp [recordBytes, putRecord, putU16, putU32, AP_MAX_FLOWS, hh.latency]

theorem flat_missed (hh : h.Shaped) (n : ℕ) : (hbMissed n h.seq h.missed).flatMap Prod.snd = missedRecord h := by
  rw [hbMissed, List.flatMap_append, flat_words _ _ hh.missed, missedRecord, hh.missed]
  simp [recordBytes, putRecord, putU16, AP_MAX_FLOWS, hh.missed]

theorem peaksRecord_eq (hh : h.Shaped) : peaksRecord h = peaksHead h ++ h.peaks := by
  simp [peaksRecord, peaksHead, recordBytes, hh.peaks, AP_NCH]

def hbFront (mac : Mem) (h : Heartbeat) : Puts :=
  putHdrSeq mac 0xFFFE [0x00, 0x08, 0x00, 0x01, 0x10, 0x00, 0x00, 0x00] h.seq ++ hbClock 32 h.seq h.ppb ++
    hbSync 48 h.seq h.offset h.delay ++ hbPeaksHead 84 h.seq

def hbBack (h : Heartbeat) : Puts := hbLatency 116 h.seq h.hz h.latency ++ hbMissed 156 h.seq h.missed

theorem heartbeatStores_eq (h : Heartbeat) :
    heartbeatStores mac h = hbFront mac h ++ ((hbPeakBytes 84 fun c => h.peaks.getD c 0) ++ hbBack h) := by
  simp only [heartbeatStores, hbPeaks, hbFront, hbBack, hbPeaksHead, hbPeakBytes, List.append_assoc]
  rfl

theorem endToEnd_front (mac : Mem) (h : Heartbeat) : EndToEnd 0 (hbFront mac h) := by
  refine EndToEnd.append (EndToEnd.append (EndToEnd.append (endToEnd_header _ _ _ _) ?_) ?_) ?_
  · exact endToEnd_clock 32 _ _
  · exact endToEnd_sync 48 _ _ _
  · exact endToEnd_peaksHead 84 _

theorem endToEnd_back (h : Heartbeat) : EndToEnd 116 (hbBack h) := (endToEnd_latency _ _ _ _).append (endToEnd_missed 156 _ _)

theorem flat_front (mac : Mem) (h : Heartbeat) :
    (hbFront mac h).flatMap Prod.snd =
      (heartbeatNote h).header mac 0 ++ clockRecord h ++ syncRecord h ++ peaksHead h ++ List.replicate 8 0 := by
  simp only [hbFront, List.flatMap_append, flat_header, flat_clock, flat_sync, flat_peaksHead, List.append_assoc]
  simp [InfoNote.header, heartbeatNote, InfoMsg.startCode]

theorem draws_heartbeat (mac : Mem) (hh : h.Shaped) :
    Draws mac (heartbeatStores mac h) (heartbeatNote h) ∧ (heartbeatNote h).len mac = HEARTBEAT_LEN := by
  have hlen : (heartbeatNote h).len mac = HEARTBEAT_LEN := by
    simp [InfoNote.len, heartbeatNote, InfoMsg.body, Heartbeat.records, clockRecord, syncRecord, peaksRecord, latencyRecord,
      missedRecord, recordBytes, hh.peaks, hh.latency, hh.missed, HEARTBEAT_LEN, MCAST_HDR_LEN, hbNpk, hbPad, AP_NCH,
      AP_MAX_FLOWS]
  have hback : (hbBack h).flatMap Prod.snd = latencyRecord h ++ missedRecord h := by
    rw [hbBack, List.flatMap_append, flat_latency hh, flat_missed hh]
  have hfront := endToEnd_front mac h
  have hbytes := endToEnd_peakBytes 84 fun c => h.peaks.getD c 0
  have hreach : Lib.reach 0 (hbFront mac h) = 116 := by
    rw [hfront.reach le_rfl, flat_front]
    rfl
  have hreach' : Lib.reach 116 (hbPeakBytes 84 fun c => h.peaks.getD c 0) = 116 := by
    rw [hbytes.reach (by decide), flat_peakBytes hh, hh.peaks]
    rfl
  refine ⟨⟨?_, ?_, ?_, rfl, ?_, hh⟩, hlen⟩
  · rw [heartbeatStores_eq, gapless_append, gapless_append, hreach, hreach']
    exact ⟨hfront.gapless le_rfl, hbytes.gapless (by decide), (endToEnd_back h).gapless le_rfl⟩
  · rw [heartbeatStores_eq, reach_append, reach_append, hreach, hreach', (endToEnd_back h).reach le_rfl, hback, hlen]
    simp [latencyRecord, missedRecord, recordBytes, hh.latency, hh.missed, HEARTBEAT_LEN, MCAST_HDR_LEN, hbNpk, hbPad, AP_NCH,
      AP_MAX_FLOWS]
  · obtain ⟨q, hq⟩ : ∃ q, q = (heartbeatNote h).header mac 0 ++ clockRecord h ++ syncRecord h ++ peaksHead h := ⟨_, rfl⟩
    have hqlen : q.length = 108 := by
      rw [hq]
      rfl
    have hpaint : painted [] (hbFront mac h) = q ++ List.replicate 8 0 := by
      have hp := painted_endToEnd (p := []) hfront []
      rwa [List.append_nil, List.drop_nil, List.append_nil, List.nil_append, flat_front, ← hq] at hp
    -- the peaks over their cleared place, and the rest behind them
    have hpeaks := painted_endToEnd (p := q) (by rw [hqlen]; exact hbytes) (List.replicate 8 0)
    rw [flat_peakBytes hh, hh.peaks, show (List.replicate 8 (0 : UInt8)).drop AP_NCH = [] from rfl, List.append_nil] at hpeaks
    have hend : (q ++ h.peaks).length = 116 := by rw [List.length_append, hqlen, hh.peaks]; rfl
    have hrest := painted_endToEnd (p := q ++ h.peaks) (by rw [hend]; exact endToEnd_back h) []
    rw [hback, List.append_nil, List.drop_nil, List.append_nil] at hrest
    rw [heartbeatStores_eq, painted_append, painted_append, hpaint, hpeaks, hrest, hq]
    simp [InfoMsg.body, heartbeatNote, Heartbeat.records, peaksRecord_eq hh]
  · rw [hlen]
    decide

end

end Inferno
