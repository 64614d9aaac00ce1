import Inferno.Sanity.InfoStores

/-! A controller reads every info message back. -/

namespace Inferno

open Lib

variable {mac : Mem}

theorem record_sits {type content seq : ℕ} {rest r : List UInt8} (hr : r = recordBytes type content seq rest) :
    Sits (dwWr16 (12 + rest.length)) r 0 ∧ Sits (dwWr16 type) r 2 ∧ Sits (dwWr16 seq) r 8 ∧ Sits rest r 12 := by
  have h : Sits (recordBytes type content seq rest) r 0 := hr ▸ sits_whole _
  simp only [recordBytes, sits_append_iff, dwWr16_length, Nat.zero_add, Nat.reduceAdd] at h
  exact ⟨h.1, h.2.1, h.2.2.2.2.1, h.2.2.2.2.2.2⟩

theorem record_length (type content seq : ℕ) (rest : List UInt8) :
    (recordBytes type content seq rest).length = 12 + rest.length := by
  simp only [recordBytes, List.length_append, dwWr16_length]
  omega

theorem record_ne_nil (type content seq : ℕ) (rest : List UInt8) : recordBytes type content seq rest ≠ [] :=
  List.ne_nil_of_length_pos (by rw [record_length]; omega)

theorem record_reads {type content seq : ℕ} {rest : List UInt8} (hfit : 12 + rest.length < 2 ^ 16) (t : List UInt8) :
    dwRd16 (memOf (recordBytes type content seq rest ++ t)) 0 = (recordBytes type content seq rest).length := by
  rw [dwRd16_of_sits ((record_sits rfl).1.append t), u16_of_lt hfit, record_length]

theorem wordsAt_of_sits {b : List UInt8} {l : List ℕ} {i : ℕ} (h : Sits (l.flatMap dwWr32) b i) :
    wordsAt (memOf b) i l.length = l.map u32 := by
  refine List.ext_getElem (by simp [wordsAt]) fun k hk hk' => ?_
  have hkl : k < l.length := by simpa [wordsAt] using hk
  simp only [wordsAt, List.getElem_map, List.getElem_range]
  exact dwRd32_of_sits (h.record dwWr32_length hkl)

section
variable {h : Heartbeat}

theorem record_type {type content seq : ℕ} {rest r : List UInt8} (hr : r = recordBytes type content seq rest)
    (ht : type < 2 ^ 16) : dwRd16 (memOf r) 2 = type := by
  rw [dwRd16_of_sits (record_sits hr).2.1, u16_of_lt ht]

theorem walk_records (hh : h.Shaped) {fuel : ℕ} (hfuel : 5 ≤ fuel) :
    walk (fun r => dwRd16 (memOf r) 0) fuel h.records.flatten = h.records := by
  refine walk_flatten (fun r hr t => ?_) (fun r hr => ?_) hfuel
  · fin_cases hr
    all_goals exact record_reads (by simp [hh.peaks, hh.latency, hh.missed, AP_NCH, AP_MAX_FLOWS]) t
  · fin_cases hr
    all_goals exact record_ne_nil _ _ _ _

theorem find_records (h : Heartbeat) :
    findRecord h.records 0x8001 = some (clockRecord h) ∧ findRecord h.records 0x8000 = some (syncRecord h) ∧
      findRecord h.records 0x8002 = some (peaksRecord h) ∧ findRecord h.records 0x8003 = some (latencyRecord h) ∧
        findRecord h.records 0x8004 = some (missedRecord h) := by
  have hclock := record_type (r := clockRecord h) rfl (by decide)
  have hsync := record_type (r := syncRecord h) rfl (by decide)
  have hpeaks := record_type (r := peaksRecord h) rfl (by decide)
  have hlatency := record_type (r := latencyRecord h) rfl (by decide)
  have hmissed := record_type (r := missedRecord h) rfl (by decide)
  simp [findRecord, Heartbeat.records, hclock, hsync, hpeaks, hlatency, hmissed]

theorem readHeartbeat_records (hh : h.Shaped) : readHeartbeat h.records.flatten = some h.wire := by
  have hlong : 5 ≤ h.records.flatten.length := by
    simp only [Heartbeat.records, List.flatten_cons, List.length_append, clockRecord, record_length]
    omega
  obtain ⟨hclock, hsync, hpeaks, hlatency, hmissed⟩ := find_records h
  obtain ⟨-, -, hseq, hppb⟩ := record_sits (r := clockRecord h) rfl
  obtain ⟨-, -, -, hs⟩ := record_sits (r := syncRecord h) rfl
  obtain ⟨-, -, -, hp⟩ := record_sits (r := peaksRecord h) rfl
  obtain ⟨-, -, -, hl⟩ := record_sits (r := latencyRecord h) rfl
  obtain ⟨-, -, -, hm⟩ := record_sits (r := missedRecord h) rfl
  simp only [sits_append_iff, dwWr16_length, dwWr32_length, Nat.reduceAdd] at hs hp hl hm
  obtain ⟨-, -, -, -, hoff, hdelay, -, -⟩ := hs
  obtain ⟨htx, -, hrx, -, hat, -, hpk⟩ := hp
  obtain ⟨hln, -, hlat, -, hhz, hlw⟩ := hl
  obtain ⟨hmn, -, hmat, -, hmw⟩ := hm
  have hnp : u16 h.peaks.length = h.peaks.length := u16_of_lt (by rw [hh.peaks]; decide)
  have hnl : u16 h.latency.length = h.latency.length := u16_of_lt (by rw [hh.latency]; decide)
  have hnm : u16 h.missed.length = h.missed.length := u16_of_lt (by rw [hh.missed]; decide)
  simp only [readHeartbeat, walk_records hh hlong, hclock, hsync, hpeaks, hlatency, hmissed, Option.bind_eq_bind,
    Option.bind_some, Option.pure_def, dwRd16_of_sits hseq, dwRd32_of_sits hppb, dwRd32_of_sits hoff, dwRd32_of_sits hdelay,
    dwRd16_of_sits htx, dwRd16_of_sits hat, dwRd16_of_sits hrx, dwRd16_of_sits hln, dwRd16_of_sits hlat, dwRd32_of_sits hhz,
    dwRd16_of_sits hmn, dwRd16_of_sits hmat, hnp, hnl, hnm]
  rw [show u16 24 + u16 0 = 24 from rfl, show u16 0x18 = 24 from rfl, show u16 0x14 = 20 from rfl, bytesAt_of_sits hpk,
    wordsAt_of_sits hlw, wordsAt_of_sits hmw]
  rfl

end

theorem eui64_memOf_bytesAt (p : Mem) : eui64 (memOf (bytesAt p 0 6)) = eui64 p := rfl

theorem read_network (ni : NetInfo) : readBody mac 0x11 ((InfoMsg.network ni).body mac) = some (.network ni) := by
  have hb := (bodies_network mac ni).gapless
  have hown := bytesAt_of_sits (sits_painted (p := []) hb 3 rfl (by simp [networkStores, Clear, putU32]))
  have hip := dwRd32_of_sits (sits_painted (p := []) hb 4 rfl (by simp [networkStores, Clear, putU32]))
  have hmask := dwRd32_of_sits (sits_painted (p := []) hb 5 rfl (by simp [networkStores, Clear, putU32]))
  have hgw := dwRd32_of_sits (sits_painted (p := []) hb 6 rfl (by simp [networkStores, Clear, putU32]))
  have hword : ∀ w : UInt32, UInt32.ofNat (u32 w.toNat) = w := fun w => by
    rw [u32, Nat.mod_eq_of_lt w.toNat_lt, UInt32.ofNat_toNat]
  rw [bytesAt_length] at hown
  simp only [readBody, InfoMsg.body, if_true, hown, hip, hmask, hgw, hword]

theorem read_clock (locked : Bool) (ppb : ℕ) (mu : List UInt8) :
    readBody mac 0x20 ((InfoMsg.clock locked ppb mu).body mac) = some (InfoMsg.clock locked ppb mu).wire := by
  have hb := (bodies_clock mac locked ppb mu).gapless
  have hlock := (sits_painted (p := []) hb 2 rfl (by simp [clockStores, Clear, putU32, eui64])).getD 0 (k := 0) (by simp)
  have hppb := dwRd32_of_sits (sits_painted (p := []) hb 3 rfl (by simp [clockStores, Clear, putU32, eui64]))
  have hown := bytesAt_of_sits (sits_painted (p := []) hb 4 rfl (by simp [clockStores, Clear, putU32, eui64]))
  have hmu := bytesAt_of_sits (sits_painted (p := []) hb 7 rfl (by simp [clockStores, Clear, putU32, eui64]))
  have hmu' := bytesAt_of_sits (sits_painted (p := []) hb 10 rfl (by simp [clockStores, Clear, putU32, eui64]))
  have hid : bytesAt (memOf (painted [] (clockStores mac locked ppb mu))) 120 8 = eui64 mac :=
    bytesAt_of_sits (sits_painted (p := []) hb 13 rfl (by simp [clockStores, Clear, putU32, eui64]))
  have hmid : bytesAt (memOf (painted [] (clockStores mac locked ppb mu))) 128 8 = eui64 (memOf mu) :=
    bytesAt_of_sits (sits_painted (p := []) hb 14 rfl (by simp [clockStores, Clear, putU32, eui64]))
  have hmid' : bytesAt (memOf (painted [] (clockStores mac locked ppb mu))) 136 8 = eui64 (memOf mu) :=
    bytesAt_of_sits (sits_painted (p := []) hb 15 rfl (by simp [clockStores, Clear, putU32, eui64]))
  rw [bytesAt_length] at hown hmu hmu'
  have hflag : memOf (painted [] (clockStores mac locked ppb mu)) 3 = if locked then 3 else 1 := hlock
  rw [readBody, if_neg (by decide), if_pos rfl]
  simp only [InfoMsg.body, InfoMsg.wire, hown, hmu, hmu', hid, hmid, hmid', hflag, hppb, eui64_memOf_bytesAt, and_self,
    if_true]
  cases locked <;> rfl

theorem rateStores_eq (hz : ℕ) :
    rateStores hz = [putU16 0 0x18, putU16 2 2, putU32 4 hz, putU32 8 hz, putU16 12 2, putU16 14 0, putU32 16 48000,
      putU32 20 96000] := rfl

theorem read_rates (hz : ℕ) : readBody mac 0x80 ((InfoMsg.rates hz).body mac) = some (InfoMsg.rates hz).wire := by
  have hb := (bodies_rates mac hz).gapless
  rw [rateStores_eq] at hb
  have hn := dwRd16_of_sits (sits_painted (p := []) hb 1 rfl (by simp [Clear, putU16, putU32]))
  have hz1 := dwRd32_of_sits (sits_painted (p := []) hb 2 rfl (by simp [Clear, putU16, putU32]))
  have hz2 := dwRd32_of_sits (sits_painted (p := []) hb 3 rfl (by simp [Clear, putU16, putU32]))
  have hr1 := dwRd32_of_sits (sits_painted (p := []) hb 6 rfl (by simp [Clear, putU32]))
  have hr2 := dwRd32_of_sits (sits_painted (p := []) hb 7 rfl (by simp))
  rw [readBody, if_neg (by decide), if_neg (by decide), if_pos rfl]
  simp only [InfoMsg.body, InfoMsg.wire, rateStores_eq, hn, hz1, hz2]
  refine if_pos ⟨trivial, ?_⟩
  rw [show u16 2 = 2 from rfl, wordsAt, List.range_succ, List.range_succ, List.range_zero]
  exact congrArg₂ (fun a b => [a, b]) hr1 hr2

theorem changeStores_eq (mask : ℕ) : changeStores mask = [putU16 0 1, (2, [UInt8.ofNat (mask / 1)])] := rfl

theorem read_changed (mask : ℕ) : readBody mac 0x02 ((InfoMsg.changed mask).body mac) = some (InfoMsg.changed mask).wire := by
  have hb := (bodies_changed mac mask).gapless
  rw [changeStores_eq] at hb
  have hn := dwRd16_of_sits (sits_painted (p := []) hb 0 rfl (by simp [Clear]))
  have hm := (sits_painted (p := []) hb 1 rfl (by simp)).getD 0 (k := 0) (by simp)
  have hbyte : memOf (painted [] (changeStores mask)) 2 = UInt8.ofNat (mask / 1) := hm
  rw [readBody, if_neg (by decide), if_neg (by decide), if_neg (by decide), if_pos rfl]
  simp only [InfoMsg.body, InfoMsg.wire]
  rw [changeStores_eq] at hbyte ⊢
  rw [hn, show u16 1 = 1 from rfl, List.range_one, List.map_singleton, List.sum_singleton, Nat.add_zero, hbyte]
  simp [u8]

theorem read_body {msg : InfoMsg} {lo : UInt8} (h : msg.Kind lo) (hstart : msg.startCode = 0xFFFF) :
    readBody mac lo (msg.body mac) = some msg.wire := by
  cases msg with
  | heartbeat h => exact absurd hstart (by simp [InfoMsg.startCode])
  | network ni =>
    subst h
    exact read_network ni
  | clock locked ppb mu =>
    subst h
    exact read_clock locked ppb mu
  | rates hz =>
    subst h
    exact read_rates hz
  | changed mask =>
    subst h
    exact read_changed mask
  | plain body =>
    obtain ⟨h11, h20, h80, h02⟩ := h
    rw [readBody, if_neg h11, if_neg h20, if_neg h80, if_neg h02]
    rfl

theorem startCode_cases (msg : InfoMsg) : (∃ h, msg = .heartbeat h) ∨ msg.startCode = 0xFFFF := by
  cases msg with
  | heartbeat h => exact Or.inl ⟨h, rfl⟩
  | _ => exact Or.inr rfl

theorem read_note {n : InfoNote} (h : n.Apt mac) : readNote mac (n.dgram mac) = some n.wire := by
  have hhead := header_length mac h.op (n.len mac)
  have hs : Sits (n.header mac (n.len mac)) (n.dgram mac).bytes 0 := (sits_whole _).append _
  have hlen : (n.dgram mac).bytes.length = n.len mac := by rw [InfoNote.dgram, List.length_append, hhead]; rfl
  have hdrop : (n.dgram mac).bytes.drop MCAST_HDR_LEN = n.msg.body mac := List.drop_left' hhead
  simp only [InfoNote.header, sits_append_iff, dwWr16_length, Nat.zero_add, Nat.reduceAdd] at hs
  obtain ⟨hstart, hlenw, hseq, -, hid, hven, hop⟩ := hs
  have hidb : bytesAt (memOf (n.dgram mac).bytes) 8 8 = eui64 mac := bytesAt_of_sits hid
  have hvenb : bytesAt (memOf (n.dgram mac).bytes) 16 8 = VENDOR := bytesAt_of_sits hven
  have hopb : bytesAt (memOf (n.dgram mac).bytes) 24 8 = n.op := by
    have hb := bytesAt_of_sits hop
    rwa [h.op] at hb
  have hlo : memOf (n.dgram mac).bytes 27 = n.op.getD 3 0 := hop.getD 0 (k := 3) (by rw [h.op]; decide)
  have hlenr : dwRd16 (memOf (n.dgram mac).bytes) 2 = (n.dgram mac).bytes.length := by
    rw [dwRd16_of_sits hlenw, hlen, u16_of_lt (h.fits.trans_lt (by decide))]
  rw [readNote, if_pos ⟨hlenr, hidb, hvenb⟩, dwRd16_of_sits hstart, hdrop, hlo, dwRd16_of_sits hseq, hopb]
  rcases startCode_cases n.msg with ⟨hb, hmsg⟩ | hcode
  · have hkind := h.kind
    rw [hmsg] at hkind
    rw [InfoNote.wire, hmsg, if_pos (show u16 (InfoMsg.heartbeat hb).startCode = 0xFFFE from rfl), InfoMsg.body,
      readHeartbeat_records hkind]
    rfl
  · rw [hcode, if_neg (show ¬u16 0xFFFF = 0xFFFE by decide), read_body h.kind hcode]
    rfl

end Inferno
