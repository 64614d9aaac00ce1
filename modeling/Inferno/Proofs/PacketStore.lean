import Inferno.Sanity.JitterIsr

/-! What an accepted packet does to the ring, word for word: an overlay of the samples at
and past the read head. Two packets whose samples agree where they meet therefore leave
the same ring in either order, which is what a handover between overlapping flows rests
on. -/

namespace Inferno

open Lib

/-- The 24-bit big-endian sample at byte `i`, as a signed number. -/
def sample24 (p : Mem) (i : ℕ) : ℤ :=
  Int.bmod ((p i).toNat * 2 ^ 16 + (p (i + 1)).toNat * 2 ^ 8 + (p (i + 2)).toNat) (2 ^ 24)

def saturate (v : ℤ) : ℤ := max INT32_MIN (min INT32_MAX v)

/-- A sample as the 32-bit word of an I2S slot, times `gain / 65536`, rounded down. -/
def scaledWord (gain : ℕ) (v : ℤ) : ℤ := saturate (v * 256 * gain / 65536)

theorem bmod_shift_byte (z : ℤ) : Int.bmod (z * 256) (2 ^ 32) = Int.bmod z (2 ^ 24) * 256 := by
  rw [Int.bmod_def, Int.bmod_def]
  norm_num only
  split_ifs <;> omega

theorem word24_eq (p : Mem) (i : ℕ) : word24 p i = sample24 p i * 256 := by
  have hbytes : ((p i).toNat * 2 ^ 24 + (p (i + 1)).toNat * 2 ^ 16 + (p (i + 2)).toNat * 2 ^ 8 : ℤ) =
      ((p i).toNat * 2 ^ 16 + (p (i + 1)).toNat * 2 ^ 8 + (p (i + 2)).toNat) * 256 := by ring
  unfold word24
  rw [hbytes]
  exact bmod_shift_byte _

theorem sample24_mem (p : Mem) (i : ℕ) : -2 ^ 23 ≤ sample24 p i ∧ sample24 p i < 2 ^ 23 :=
  ⟨Int.le_bmod (by decide), Int.bmod_lt (by decide)⟩

/-- The unity shortcut and the saturating branch are one function on a sample's word. -/
theorem applyGain_word24 (gain : ℕ) (p : Mem) (i : ℕ) :
    applyGain gain (word24 p i) = scaledWord gain (sample24 p i) := by
  rw [word24_eq]
  have hv := sample24_mem p i
  unfold applyGain scaledWord saturate
  by_cases hg : gain = 65536
  · rw [if_neg (not_not.mpr hg), hg]
    simp only [INT32_MIN, INT32_MAX]
    omega
  · rw [if_pos hg, Int.shiftRight_eq_div_pow]
    simp only [INT32_MIN, INT32_MAX]
    split_ifs <;> omega

/-- Wire slot `s` is the last of the packet's slots that feed channel `c`. -/
structure Packet.Feeds (p : Packet) (s : ℕ) (c : Fin AP_NCH) : Prop where
  slot : s < p.nslots
  ch : p.slotToCh s = (c : ℕ)
  last : ∀ t, s < t → t < p.nslots → p.slotToCh t ≠ (c : ℕ)

theorem lastSlot_eq_some_iff {m : ℕ → ℤ} {c n s : ℕ} :
    lastSlot m c n = some s ↔ s < n ∧ m s = c ∧ ∀ t, s < t → t < n → m t ≠ c := by
  induction n with
  | zero => simp [lastSlot]
  | succ n ih =>
    rw [lastSlot]
    split_ifs with hn
    · rw [Option.some_inj]
      constructor
      · rintro rfl
        exact ⟨by omega, hn, fun t h1 h2 => by omega⟩
      · rintro ⟨hs, -, hlast⟩
        by_contra hne
        exact hlast n (by omega) (by omega) hn
    · rw [ih]
      constructor
      · rintro ⟨hs, hm, hlast⟩
        refine ⟨by omega, hm, fun t h1 h2 => ?_⟩
        rcases Nat.lt_succ_iff_lt_or_eq.mp h2 with h | rfl
        · exact hlast t h1 h
        · exact hn
      · rintro ⟨hs, hm, hlast⟩
        have hne : s ≠ n := by
          rintro rfl
          exact hn hm
        exact ⟨by omega, hm, fun t h1 h2 => hlast t h1 (by omega)⟩

theorem Packet.feeds_iff (p : Packet) (s : ℕ) (c : Fin AP_NCH) :
    p.Feeds s c ↔ lastSlot p.slotToCh c p.nslots = some s := by
  rw [lastSlot_eq_some_iff]
  exact ⟨fun h => ⟨h.slot, h.ch, h.last⟩, fun ⟨h1, h2, h3⟩ => ⟨h1, h2, h3⟩⟩

def Packet.sample (p : Packet) (a : ℤ) (s : ℕ) : ℤ :=
  sample24 p.be24 (((a - p.firstIdx).toNat * p.nslots + s) * 3)

/-- The first index a packet can still be heard at. -/
def readHead (hz : ℕ) (now : ℤ) (jb : JitterBuf) : ℤ := dmaPosNow hz now jb + AP_DMA_AHEAD_FRAMES - jb.off

/-- The packet has a frame for index `a`, and it is not late. -/
structure Packet.Lands (p : Packet) (head a : ℤ) : Prop where
  head : head ≤ a
  first : p.firstIdx ≤ a
  stop : a < p.firstIdx + p.nframes

theorem Packet.sampleAt_eq_some_iff (p : Packet) (gain : ℕ) (sn : Snap) (a : ℤ) (c : Fin AP_NCH) (v : ℤ) :
    p.sampleAt gain sn a c = some v ↔
      p.Lands sn.readA a ∧ ∃ s, p.Feeds s c ∧ scaledWord gain (p.sample a s) = v := by
  have hword : ∀ s, applyGain gain (word24 p.be24 ((a - p.firstIdx).toNat * (p.nslots * 3) + s * 3)) =
      scaledWord gain (p.sample a s) := by
    intro s
    rw [applyGain_word24, Packet.sample]
    ring_nf
  rw [Packet.sampleAt]
  split_ifs with hin
  · simp only [Option.map_eq_some_iff, hword, p.feeds_iff]
    exact (and_iff_right ⟨hin.1, hin.2.1, hin.2.2⟩).symm
  · simp only [false_iff, not_and]
    exact fun h => absurd ⟨h.head, h.first, h.stop⟩ hin

/-- The words a packet stores when it finds the read head at `head`. -/
def Stores (jb : JitterBuf) (head : ℤ) (p : Packet) (x : ℕ) (v : ℤ) : Prop :=
  ∃ a c s, p.Lands head a ∧ p.Feeds s c ∧ x = jb.cell (a + jb.off) c ∧ v = scaledWord jb.gainQ16 (p.sample a s)

theorem exists_channel {row x : ℕ} (h1 : row ≤ x) (h2 : x < row + AP_NCH) :
    ∃ c : Fin AP_NCH, x = row + AP_OUT_SLOT c := by
  have hlt : AP_NCH - 1 - (x - row) < AP_NCH := by
    simp only [AP_NCH]
    omega
  refine ⟨⟨_, hlt⟩, ?_⟩
  simp only [AP_OUT_SLOT, AP_NCH] at h2 ⊢
  omega

theorem frameMem_miss (jb : JitterBuf) (sn : Snap) (p : Packet) (mem : Words) (n : ℕ) {x : ℕ}
    (hx : ∀ s c, x ≠ jb.cell s c) : (List.range n).foldl (frameMem jb sn p) mem x = mem x := by
  induction n with
  | zero => rfl
  | succ n ih =>
    rw [List.range_succ, List.foldl_append, List.foldl_cons, List.foldl_nil, frameMem]
    split_ifs with hlate
    · exact ih
    · rw [storeSlots_out, ih]
      by_contra hin
      rw [not_or, not_lt, not_le] at hin
      obtain ⟨c, hc⟩ := exists_channel hin.1 hin.2
      exact hx _ c hc

theorem Geometry.cell_in_lap {jb : JitterBuf} (hg : Geometry jb) (e s : ℤ) (c : Fin AP_NCH) :
    ∃ t, e ≤ t ∧ t < e + AP_RING_FRAMES ∧ jb.cell s c = jb.cell t c := by
  refine ⟨e + (s - e) % AP_RING_FRAMES, ?_, ?_, ?_⟩
  · simp only [AP_RING_FRAMES]
    omega
  · simp only [AP_RING_FRAMES]
    omega
  · have hl : lapSlot s = lapSlot (e + (s - e) % AP_RING_FRAMES) := by
      rw [lapSlot_eq_iff]
      simp only [AP_RING_FRAMES]
      omega
    simp only [JitterBuf.cell, hg.row_eq, hl]

theorem Packet.Lands.near {p : Packet} {head a : ℤ} (h : p.Lands head a)
    (hnear : p.firstIdx + p.nframes ≤ head + AP_FUTURE_GUARD_FRAMES) : a < head + AP_RING_FRAMES := by
  have hstop := h.stop
  simp only [AP_FUTURE_GUARD_FRAMES, AP_RING_FRAMES] at hnear ⊢
  push_cast at hnear ⊢
  omega

/-- Storing an admitted packet is an overlay: within a lap it never meets itself. -/
theorem jbWriteStore_overlay {jb : JitterBuf} (hg : Geometry jb) {hz : ℕ} {now : ℤ} {p : Packet} {sn : Snap}
    (ha : Admitted hz now p jb sn) : Overlay (Stores jb sn.readA p) jb.mem (jbWriteStore sn p jb).mem := by
  have hnear := ha.near
  have hoff := ha.off
  have hcell := jbWriteStore_cell hg sn p (e := sn.readA + sn.off) le_rfl
    (by simp only [AP_FUTURE_GUARD_FRAMES, AP_RING_FRAMES] at hnear ⊢; push_cast at hnear ⊢; omega)
  constructor
  · rintro x v ⟨a, c, s, hin, hs, rfl, hv⟩
    have hlap := hin.near hnear
    have hhead := hin.head
    have hsome := (p.sampleAt_eq_some_iff jb.gainQ16 sn a c _).mpr ⟨hin, s, hs, rfl⟩
    rw [hcell _ c (by omega) (by omega), ← hoff, add_sub_cancel_right, hsome, Option.getD_some, hv]
  · intro x hx
    by_cases hc : ∃ s c, x = jb.cell s c
    · obtain ⟨s, c, rfl⟩ := hc
      obtain ⟨t, h1, h2, ht⟩ := hg.cell_in_lap (sn.readA + sn.off) s c
      rw [ht, hcell t c h1 h2]
      cases hs : p.sampleAt jb.gainQ16 sn (t - sn.off) c with
      | none => rfl
      | some v =>
        obtain ⟨hin, i, hi, rfl⟩ := (p.sampleAt_eq_some_iff jb.gainQ16 sn (t - sn.off) c v).mp hs
        exact absurd ⟨t - sn.off, c, i, hin, hi, by rw [ht, ← hoff, sub_add_cancel], rfl⟩ (hx _)
    · obtain ⟨log, he⟩ := jbWriteStore_eq sn p jb
      rw [he]
      exact frameMem_miss jb sn p jb.mem p.nframes fun s c h => hc ⟨s, c, h⟩

/-- A refused packet changes counters only; an accepted one was admitted to a learned
ring, and is stored and published. -/
theorem jbWrite_cases (hz : ℕ) (now : ℤ) (p : Packet) (jb : JitterBuf) :
    (∃ st, jbWrite hz now p jb = ({ jb with st := st }, false)) ∨
      ∃ sn, Admitted hz now p jb sn ∧ jb.ready = true ∧
        jbWrite hz now p jb = (jbWritePublish p (jbWriteStore sn p jb), true) := by
  simp only [jbWrite]
  rcases jbWriteBegin_cases hz now p jb with ⟨st, he⟩ | ⟨sn, he, ha⟩
  · exact Or.inl ⟨st, by rw [he]⟩
  · exact Or.inr ⟨sn, ha, (jbWriteBegin_ready he).2, by rw [he]⟩

theorem jbWrite_rxHead {hz : ℕ} {now : ℤ} {p : Packet} {jb : JitterBuf} (h : (jbWrite hz now p jb).2 = true) :
    (jbWrite hz now p jb).1.rxHead = max jb.rxHead (p.firstIdx + p.nframes) := by
  rcases jbWrite_cases hz now p jb with ⟨st, he⟩ | ⟨sn, -, -, he⟩
  · rw [he] at h
    exact absurd h Bool.false_ne_true
  · obtain ⟨log, hs⟩ := jbWriteStore_eq sn p jb
    rw [he, hs]
    simp only [jbWritePublish]
    split_ifs <;> omega

structure PacketTaken (hz : ℕ) (now : ℤ) (p : Packet) (jb : JitterBuf) : Prop where
  ready : jb.ready = true
  near : p.firstIdx + p.nframes ≤ readHead hz now jb + AP_FUTURE_GUARD_FRAMES
  stored : Overlay (Stores jb (readHead hz now jb) p) jb.mem (jbWrite hz now p jb).1.mem
  head : (jbWrite hz now p jb).1.rxHead = max jb.rxHead (p.firstIdx + p.nframes)

theorem jbWrite_accepted {hz : ℕ} {now : ℤ} {p : Packet} {jb : JitterBuf} (hg : jb.ready = true → Geometry jb)
    (h : (jbWrite hz now p jb).2 = true) : PacketTaken hz now p jb := by
  rcases jbWrite_cases hz now p jb with ⟨st, he⟩ | ⟨sn, ha, hr, he⟩
  · rw [he] at h
    exact absurd h Bool.false_ne_true
  · have hread : sn.readA = readHead hz now jb := ha.readA
    refine ⟨hr, hread ▸ ha.near, ?_, jbWrite_rxHead h⟩
    rw [he, ← hread]
    exact jbWriteStore_overlay (hg hr) ha

theorem jbWrite_refused {hz : ℕ} {now : ℤ} {p : Packet} {jb : JitterBuf} (h : (jbWrite hz now p jb).2 = false) :
    (jbWrite hz now p jb).1.mem = jb.mem ∧ (jbWrite hz now p jb).1.rxHead = jb.rxHead := by
  rcases jbWrite_cases hz now p jb with ⟨st, he⟩ | ⟨sn, -, -, he⟩
  · rw [he]
    exact ⟨rfl, rfl⟩
  · rw [he] at h
    exact absurd h.symm Bool.false_ne_true

/-- An accepted packet is stored exactly: every frame at or past the read head, every
wire slot that feeds a channel, saturated and not wrapped, and no other word. A refused
one changes no word. -/
theorem jbWrite_exact (hz : ℕ) (now : ℤ) (p : Packet) (jb : JitterBuf) (hg : jb.ready = true → Geometry jb) :
    ((jbWrite hz now p jb).2 = true →
      (∀ a s c, p.Lands (readHead hz now jb) a → p.Feeds s c →
        (jbWrite hz now p jb).1.mem (jb.cell (a + jb.off) c) = scaledWord jb.gainQ16 (p.sample a s)) ∧
      (∀ x, (∀ a s c, p.Lands (readHead hz now jb) a → s < p.nslots → p.slotToCh s = ((c : Fin AP_NCH) : ℕ) →
        x ≠ jb.cell (a + jb.off) c) → (jbWrite hz now p jb).1.mem x = jb.mem x) ∧
      (jbWrite hz now p jb).1.rxHead = max jb.rxHead (p.firstIdx + p.nframes)) ∧
    ((jbWrite hz now p jb).2 = false →
      (jbWrite hz now p jb).1.mem = jb.mem ∧ (jbWrite hz now p jb).1.rxHead = jb.rxHead) := by
  refine ⟨fun h => ?_, jbWrite_refused⟩
  have ha := jbWrite_accepted hg h
  refine ⟨fun a s c hin hs => ha.stored.hit ⟨a, c, s, hin, hs, rfl, rfl⟩, fun x hx => ha.stored.miss ?_, ha.head⟩
  rintro v ⟨a, c, s, hin, hs, hcell, -⟩
  exact hx a s c hin hs.slot hs.ch hcell

/-- A ring of the 96 kHz profile, anchored with index 0 at the converter. -/
def writableRing : JitterBuf := jbReset 96000 0 0 (contiguous 5 128).jb

theorem geometry_writableRing : Geometry writableRing :=
  (learned_contiguous 5 128 (by decide)).geometry.of_same ⟨rfl, rfl, rfl, rfl⟩

/-- The same with the position one buffer before the end of the second lap. -/
def wrappingRing : JitterBuf := jbReset 96000 0 0 { (contiguous 5 128).jb with nextK := 127, dmaEnd := 8160 }

theorem geometry_wrappingRing : Geometry wrappingRing :=
  (learned_contiguous 5 128 (by decide)).geometry.of_same ⟨rfl, rfl, rfl, rfl⟩

/-- Forty frames over the end of the ring, the first four of them late: the oldest that is
not ends the lap, the last lies in its first buffer, and the words of the late ones stay. -/
theorem jbWrite_exact_fortyFrames :
    (jbWrite 96000 0 (fortyFrames 20) wrappingRing).1.mem 32647 = 0x191A1B00 ∧
      (jbWrite 96000 0 (fortyFrames 20) wrappingRing).1.mem 154 = 0xEEEFF000 - 2 ^ 32 ∧
      (jbWrite 96000 0 (fortyFrames 20) wrappingRing).1.mem 32639 = 0 ∧
      (jbWrite 96000 0 (fortyFrames 20) wrappingRing).1.rxHead = 60 := by
  obtain ⟨hcell, hmiss, hhead⟩ := (jbWrite_exact 96000 0 (fortyFrames 20) wrappingRing fun _ => geometry_wrappingRing).1
    (by decide +kernel)
  have hread : readHead 96000 0 wrappingRing = 24 := by decide +kernel
  have hfirst : (fortyFrames 20).Feeds 0 0 := ⟨by decide, rfl, fun t h1 h2 => by
    obtain rfl : t = 1 := by simp only [fortyFrames] at h2; omega
    decide⟩
  have hlast : (fortyFrames 20).Feeds 1 5 :=
    ⟨by decide, rfl, fun t h1 h2 => absurd h2 (by simp only [fortyFrames]; omega)⟩
  refine ⟨?_, ?_, ?_, ?_⟩
  · have hat : wrappingRing.cell (24 + wrappingRing.off) 0 = 32647 := by decide +kernel
    rw [← hat, hcell 24 0 0 ⟨hread.le, by decide, by decide⟩ hfirst]
    decide +kernel
  · have hat : wrappingRing.cell (59 + wrappingRing.off) 5 = 154 := by decide +kernel
    rw [← hat, hcell 59 1 5 ⟨hread.trans_le (by decide), by decide, by decide⟩ hlast]
    decide +kernel
  · have hat : wrappingRing.cell (23 + wrappingRing.off) 0 = 32639 := by decide +kernel
    rw [← hat, hmiss]
    · decide +kernel
    · intro a s c hin _ _ hx
      obtain ⟨hmod, -⟩ := geometry_wrappingRing.isRing.inj hx
      have h1 := hin.head
      have h2 : a < 20 + 40 := hin.stop
      simp only [AP_RING_FRAMES] at hmod
      omega
  · rw [hhead]
    decide +kernel

theorem jbWrite_frame (hz : ℕ) (now : ℤ) (p : Packet) (jb : JitterBuf) :
    ∃ mem log head st,
      (jbWrite hz now p jb).1 = { jb with mem := mem, synced := log, rxHead := head, st := st } := by
  rcases jbWrite_cases hz now p jb with ⟨st, he⟩ | ⟨sn, -, -, he⟩
  · exact ⟨jb.mem, jb.synced, jb.rxHead, st, by rw [he]⟩
  · obtain ⟨log, hs⟩ := jbWriteStore_eq sn p jb
    rw [he, hs]
    exact ⟨_, log, _, _, rfl⟩

theorem jbWrite_answer (hz : ℕ) (now now' : ℤ) (p q : Packet) (jb : JitterBuf) :
    (jbWrite hz now' q (jbWrite hz now p jb).1).2 = (jbWrite hz now' q jb).2 := by
  obtain ⟨mem, log, head, st, he⟩ := jbWrite_frame hz now p jb
  rw [he]
  simp only [jbWrite, jbWriteBegin, dmaPosNow, elapsed]
  split_ifs <;> rfl

theorem jbWrite_second {hz : ℕ} (now : ℤ) {now' : ℤ} (p : Packet) {q : Packet} {jb : JitterBuf} (hg : jb.ready = true → Geometry jb)
    (hq : (jbWrite hz now' q jb).2 = true) :
    Overlay (Stores jb (readHead hz now' jb) q) (jbWrite hz now p jb).1.mem
        (jbWrite hz now' q (jbWrite hz now p jb).1).1.mem ∧
      (jbWrite hz now' q (jbWrite hz now p jb).1).1.rxHead =
        max (jbWrite hz now p jb).1.rxHead (q.firstIdx + q.nframes) := by
  rw [← jbWrite_answer hz now now' p q jb] at hq
  obtain ⟨mem, log, head, st, he⟩ := jbWrite_frame hz now p jb
  rw [he] at hq ⊢
  have hg' : ∀ mem log head st, jb.ready = true →
      Geometry { jb with mem := mem, synced := log, rxHead := head, st := st } :=
    fun _ _ _ _ hr => (hg hr).of_same ⟨rfl, rfl, rfl, rfl⟩
  have ha := jbWrite_accepted (hg' mem log head st) hq
  exact ⟨ha.stored, ha.head⟩

/-- What two packets store in one cell they store for one index and channel. -/
theorem stores_agree {jb : JitterBuf} (hg : Geometry jb) {head : ℤ} {p q : Packet}
    (hp : p.firstIdx + p.nframes ≤ head + AP_FUTURE_GUARD_FRAMES)
    (hq : q.firstIdx + q.nframes ≤ head + AP_FUTURE_GUARD_FRAMES)
    (hagree : ∀ a c s t, p.Lands head a → q.Lands head a → p.Feeds s c → q.Feeds t c → p.sample a s = q.sample a t)
    (x : ℕ) (v v' : ℤ) (h1 : Stores jb head p x v) (h2 : Stores jb head q x v') : v = v' := by
  obtain ⟨a, c, s, hin, hs, hx, hv⟩ := h1
  obtain ⟨a', c', t, hin', ht, hx', hv'⟩ := h2
  obtain ⟨hmod, rfl⟩ := hg.isRing.inj (hx.symm.trans hx')
  -- both lie within a lap of the read head
  have hlap := hin.near hp
  have hlap' := hin'.near hq
  have hlo := hin.head
  have hlo' := hin'.head
  have hidx : a = a' := by
    simp only [AP_RING_FRAMES] at hmod hlap hlap'
    omega
  subst hidx
  rw [hv, hv', hagree a c s t hin hin' hs ht]

/-- Two packets accepted at one position, with equal samples wherever both have one, leave
the same ring in either order. A packet written again, then or later, changes nothing. -/
theorem jbWrite_overlap (hz : ℕ) {now now' : ℤ} {p q : Packet} {jb : JitterBuf} (hg : jb.ready = true → Geometry jb)
    (hp : (jbWrite hz now p jb).2 = true) (hq : (jbWrite hz now' q jb).2 = true)
    (hpos : dmaPosNow hz now jb = dmaPosNow hz now' jb)
    (hagree : ∀ a c s t, p.Lands (readHead hz now jb) a → q.Lands (readHead hz now jb) a → p.Feeds s c →
      q.Feeds t c → p.sample a s = q.sample a t) :
    ((jbWrite hz now' q (jbWrite hz now p jb).1).1.mem = (jbWrite hz now p (jbWrite hz now' q jb).1).1.mem ∧
      (jbWrite hz now' q (jbWrite hz now p jb).1).1.rxHead = (jbWrite hz now p (jbWrite hz now' q jb).1).1.rxHead) ∧
    ∀ later, dmaPosNow hz now jb ≤ dmaPosNow hz later jb →
      (jbWrite hz later p (jbWrite hz now p jb).1).1.mem = (jbWrite hz now p jb).1.mem ∧
        (jbWrite hz later p (jbWrite hz now p jb).1).1.rxHead = (jbWrite hz now p jb).1.rxHead := by
  have hp1 := jbWrite_accepted hg hp
  have hq1 := jbWrite_accepted hg hq
  have hhead : readHead hz now' jb = readHead hz now jb := by
    simp only [readHead, hpos]
  constructor
  · obtain ⟨hq2, hqh⟩ := jbWrite_second now p hg hq
    obtain ⟨hp2, hph⟩ := jbWrite_second now' q hg hp
    have hqnear := hq1.near
    have hqstored := hq1.stored
    rw [hhead] at hq2 hqnear hqstored
    refine ⟨?_, ?_⟩
    · exact Overlay.comm (stores_agree (hg hp1.ready) hp1.near hqnear hagree) hp1.stored hq2 hqstored hp2
    · rw [hqh, hph, hp1.head, hq1.head]
      omega
  · intro later hlater
    cases hagain : (jbWrite hz later p jb).2 with
    | false =>
      rw [← jbWrite_answer hz now later p p jb] at hagain
      exact jbWrite_refused hagain
    | true =>
      obtain ⟨h2, hh⟩ := jbWrite_second now p hg hagain
      refine ⟨Overlay.again ?_ hp1.stored h2, ?_⟩
      · -- by now no more frames land than did before
        rintro x v ⟨a, c, s, hin, hs, hx, hv⟩
        have hle := hin.head
        simp only [readHead] at hle
        exact ⟨a, c, s, ⟨by simp only [readHead]; omega, hin.first, hin.stop⟩, hs, hx, hv⟩
      · rw [hh, hp1.head]
        omega

/-- Two packets of different lengths and layouts that share a frame. -/
theorem jbWrite_overlap_frames :
    (jbWrite 96000 0 ⟨29, 2, 1, fun _ => 0, fun i => [9, 9, 9, 1, 2, 3].getD i 0⟩
        (jbWrite 96000 0 (oneFrame 30) writableRing).1).1.mem =
      (jbWrite 96000 0 (oneFrame 30)
        (jbWrite 96000 0 ⟨29, 2, 1, fun _ => 0, fun i => [9, 9, 9, 1, 2, 3].getD i 0⟩ writableRing).1).1.mem := by
  refine ((jbWrite_overlap 96000 (fun _ => geometry_writableRing) (by decide +kernel) (by decide +kernel) rfl ?_).1).1
  rintro a c s t h1 - h3 h4
  have hs := h3.slot
  have ht := h4.slot
  have hfirst := h1.first
  have hstop := h1.stop
  simp only [oneFrame] at hs ht hfirst hstop
  obtain rfl : s = 0 := by omega
  obtain rfl : t = 0 := by omega
  obtain rfl : a = 30 := by omega
  decide +kernel

end Inferno
