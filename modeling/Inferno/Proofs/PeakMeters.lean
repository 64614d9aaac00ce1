import Inferno.Spec.Meters

/-! What the two readers of the input meters get. A telemetry query gets the loudest sample
since the last one. The heartbeat's meter is raised to what telemetry's holds, so it gets,
beyond the loudest since its own last take, what telemetry had not taken by the first
packet since. -/

namespace Inferno

open Lib

def AoipRx.held (rx : AoipRx) (c : ℕ) : Held ℕ := ⟨rx.peakIn c, rx.peakHb c⟩

theorem held_congr {rx rx' : AoipRx} {c : ℕ} (hin : rx'.peakIn = rx.peakIn) (hhb : rx'.peakHb = rx.peakHb) :
    rx'.held c = rx.held c := by
  rw [AoipRx.held, AoipRx.held, hin, hhb]

theorem slotPeak_eq (samples : Mem) (nframes nslots s pk : ℕ) :
    slotPeak samples nframes nslots s pk = max pk (slotLoud samples nframes nslots s) := by
  induction nframes with
  | zero => exact (max_eq_left (Nat.zero_le pk)).symm
  | succ n ih =>
    have hloud : slotLoud samples (n + 1) nslots s =
        max (peak24 samples ((n * nslots + s) * 3)) (slotLoud samples n nslots s) := by
      rw [slotLoud, Finset.range_add_one, Finset.sup_insert]
      rfl
    rw [slotPeak] at ih
    rw [slotPeak, List.range_succ, List.foldl_append, ih, List.foldl_cons, List.foldl_nil, hloud]
    dsimp only
    split_ifs with h <;> omega

theorem held_meterSlot (samples : Mem) (nframes nslots : ℕ) (map : ℕ → ℤ) (rx : AoipRx) (s : ℕ) {c : ℕ} (hc : c < AP_NCH) :
    (meterSlot samples nframes nslots map rx s).held c =
      (rx.held c).after (if map s = c then some (slotLoud samples nframes nslots s) else none) := by
  unfold meterSlot
  by_cases hmap : map s = c
  · have hin : ¬(map s < 0 ∨ map s ≥ AP_NCH) := by omega
    have hch : (map s).toNat = c := by omega
    rw [if_neg hin, if_pos hmap]
    simp only [AoipRx.held, Held.after, hch, Function.update_self, slotPeak_eq]
    congr 1
    split_ifs with hgt
    · rw [Function.update_self]
      exact (max_eq_right hgt.le).symm
    · exact (max_eq_left (not_lt.mp hgt)).symm
  · rw [if_neg hmap]
    split_ifs with hout
    · rfl
    · have hne : c ≠ (map s).toNat := by omega
      simp only [AoipRx.held, Held.after, Function.update_of_ne hne]
      split_ifs
      · rw [Function.update_of_ne hne]
      · rfl

theorem after_after (h : Held ℕ) (v w : ℕ) : (h.after (some v)).after (some w) = h.after (some (v ⊔ w)) := by
  simp only [Held.after, Held.mk.injEq]
  omega

theorem held_meters (samples : Mem) (nframes nslots : ℕ) (map : ℕ → ℤ) (rx : AoipRx) {c : ℕ} (hc : c < AP_NCH) (n : ℕ) :
    ((List.range n).foldl (meterSlot samples nframes nslots map) rx).held c =
      (rx.held c).after (if ∃ s < n, map s = c then
        some ((Finset.range n).sup fun s => if map s = c then slotLoud samples nframes nslots s else 0) else none) := by
  induction n with
  | zero =>
    rw [if_neg (by simp)]
    rfl
  | succ n ih =>
    rw [List.range_succ, List.foldl_append, List.foldl_cons, List.foldl_nil, held_meterSlot _ _ _ _ _ _ hc, ih,
      Finset.range_add_one, Finset.sup_insert]
    by_cases hn : map n = c
    · have hex : ∃ s < n + 1, map s = c := ⟨n, Nat.lt_succ_self n, hn⟩
      rw [if_pos hex, if_pos hn]
      by_cases hsome : ∃ s < n, map s = c
      · rw [if_pos hsome, after_after, sup_comm, if_pos hn]
      · have hzero : ((Finset.range n).sup fun s => if map s = c then slotLoud samples nframes nslots s else 0) = ⊥ := by
          rw [Finset.sup_eq_bot_iff]
          exact fun s hs => if_neg fun h => hsome ⟨s, Finset.mem_range.mp hs, h⟩
        rw [if_neg hsome, hzero, sup_bot_eq, if_pos hn]
        rfl
    · have hiff : (∃ s < n + 1, map s = c) ↔ ∃ s < n, map s = c := by
        constructor
        · rintro ⟨s, hs, h⟩
          rcases Nat.lt_succ_iff_lt_or_eq.mp hs with hlt | rfl
          · exact ⟨s, hlt, h⟩
          · exact absurd h hn
        · rintro ⟨s, hs, h⟩
          exact ⟨s, by omega, h⟩
      simp only [if_neg hn, hiff]
      rw [← bot_eq_zero, bot_sup_eq]
      rfl

theorem held_noteLatency (hz : ℕ) (now : Option ℕ) (i : Fin AP_MAX_FLOWS) (idx : ℤ) (rx : AoipRx) (c : ℕ) :
    (noteLatency hz now i idx rx).held c = rx.held c := by
  cases now <;> rfl

theorem soundOf_layout {fl fl' : RxFlow} (h : SameLayout fl fl') (c : ℕ) : soundOf fl' c = soundOf fl c := by
  funext a
  simp only [soundOf, h.nslots, h.slotToCh, h.fpp]

theorem held_takePacket (hz : ℕ) (now : Option ℕ) (us : ℤ) (i : Fin AP_MAX_FLOWS) (h : AudioHdr) (rx : AoipRx)
    (jb : JitterBuf) {c : ℕ} (hc : c < AP_NCH) :
    (takePacket hz now us i h rx jb).1.held c = (rx.held c).after (soundOf (rx.flows i) c h) := by
  have hm := held_meters h.samples (rx.flows i).fpp (rx.flows i).nslots (rx.flows i).slotToCh
    (noteLatency hz now i (aoipTsToSamples h.seconds h.subsecSamples hz) rx) hc (rx.flows i).nslots
  rw [held_noteLatency] at hm
  exact (held_congr rfl rfl).trans hm

theorem held_handlePacket (hz : ℕ) (now : Option ℕ) (us : ℤ) (i : Fin AP_MAX_FLOWS) (buf : Mem) (len : ℕ) (rx : AoipRx)
    (jb : JitterBuf) {c : ℕ} (hc : c < AP_NCH) :
    (handlePacket hz now us i buf len rx jb).1.held c =
      (rx.held c).after ((wellFormed (rx.flows i) buf len).bind (soundOf (rx.flows i) c)) := by
  rcases handlePacket_eq hz now us i buf len rx jb with ⟨h, hw, he⟩ | ⟨hw, st, he⟩
  · rw [hw, he]
    exact held_takePacket hz now us i h rx jb hc
  · rw [hw, he]
    rfl

theorem wellFormed_same {fl fl' : RxFlow} (h : SameLayout fl fl') (buf : Mem) (len c : ℕ) :
    (wellFormed fl' buf len).bind (soundOf fl' c) = (wellFormed fl buf len).bind (soundOf fl c) := by
  rw [wellFormed_layout h, soundOf_layout h]

theorem held_noteSource (i : Fin AP_MAX_FLOWS) (r : AudioRef) (rx : AoipRx) (c : ℕ) :
    (noteSource i r rx).held c = rx.held c := by
  unfold noteSource
  split_ifs <;> rfl

theorem held_fastInput (hz : ℕ) (now : Option ℕ) (us : ℤ) (r : AudioRef) (payload : Mem) (len : ℕ) (rx : AoipRx)
    (jb : JitterBuf) {c : ℕ} (hc : c < AP_NCH) :
    (fastInput hz now us r payload len rx jb).1.1.held c =
      (rx.held c).after ((flowOfPort r.dport).bind fun i =>
        if rx.fast ∧ (rx.flows i).active ∧ (rx.flows i).sock then
          (wellFormed (rx.flows i) payload len).bind (soundOf (rx.flows i) c) else none) := by
  unfold fastInput
  by_cases hfast : rx.fast = true
  · rw [if_neg (by simp [hfast])]
    cases flowOfPort r.dport with
    | none => rfl
    | some i =>
      dsimp only [Option.bind_some]
      by_cases hopen : (rx.flows i).active = true ∧ (rx.flows i).sock = true
      · have hshut : ¬(!(rx.flows i).active || !(rx.flows i).sock) = true := by simp [hopen]
        have hp := held_handlePacket hz now us i payload len (noteSource i r rx) jb hc
        rw [held_noteSource, wellFormed_same ((noteSource_frame i r rx).2 i).1] at hp
        rw [if_neg hshut, if_pos ⟨hfast, hopen⟩, ← hp]
        exact held_congr rfl rfl
      · have hshut : (!(rx.flows i).active || !(rx.flows i).sock) = true := by
          simpa [Bool.or_eq_true, or_iff_not_imp_left] using hopen
        rw [if_pos hshut, if_neg fun h => hopen h.2]
        rfl
  · rw [if_pos (by simpa using hfast)]
    cases flowOfPort r.dport with
    | none => rfl
    | some i =>
      rw [Option.bind_some, if_neg fun h => hfast h.1]
      rfl

theorem held_frame (hz : ℕ) (s : RxSys) (f : Frame) (now : Option ℕ) (us : ℤ) {c : ℕ} (hc : c < AP_NCH) :
    (rxStep hz s (.frame f now us)).rx.held c = (s.rx.held c).after (soundAt s c (.sys (.frame f now us))) := by
  simp only [rxStep, audioInput, soundAt]
  cases isAudioFrame f AOIP_RX_AUDIO_PORT AP_MAX_FLOWS with
  | none => rfl
  | some r => exact held_fastInput hz now us r (fun k => f.mem (r.payload + k)) r.plen s.rx s.jb hc

theorem held_socket (hz : ℕ) (s : RxSys) (i : Fin AP_MAX_FLOWS) (sip : List UInt8) (sport : ℕ) (buf : Mem) (len : ℕ)
    (now : Option ℕ) (us : ℤ) {c : ℕ} (hc : c < AP_NCH) :
    (flowStep hz s (.socket i sip sport buf len now us)).rx.held c =
      (s.rx.held c).after (soundAt s c (.socket i sip sport buf len now us)) := by
  simp only [flowStep, socketInput, soundAt]
  by_cases hopen : (s.rx.flows i).active = true ∧ (s.rx.flows i).sock = true
  · rw [if_neg (by simp [hopen])]
    by_cases hlen : len = 0
    · rw [if_pos hlen, if_neg fun h => h.2.2 hlen]
      rfl
    · have hall : (s.rx.flows i).active = true ∧ (s.rx.flows i).sock = true ∧ len ≠ 0 := ⟨hopen.1, hopen.2, hlen⟩
      rw [if_neg hlen, if_pos hall, held_handlePacket hz now us i buf len _ s.jb hc]
      split_ifs
      · rw [wellFormed_same (latched_frame i s.rx i).1]
        rfl
      · rfl
  · have hshut : (!(s.rx.flows i).active || !(s.rx.flows i).sock) = true := by
      simpa [Bool.or_eq_true, or_iff_not_imp_left] using hopen
    rw [if_pos hshut, if_neg fun h => hopen ⟨h.1, h.2.1⟩]
    rfl

/-- An event raises the meters of a channel by what it brings the channel. -/
theorem held_flowStep (hz : ℕ) (s : RxSys) (e : FlowEvent) {c : ℕ} (hc : c < AP_NCH) :
    (flowStep hz s e).rx.held c = (s.rx.held c).after (soundAt s c e) := by
  cases e with
  | socket i sip sport buf len now us => exact held_socket hz s i sip sport buf len now us hc
  | sys e =>
    cases e with
    | frame f now us => exact held_frame hz s f now us hc
    | _ => rfl

/-- The meters of a channel are the two holds over what the channel hears. -/
theorem held_meterAt (hz : ℕ) (jb : JitterBuf) (es : ℕ → MeterEvent) {c : ℕ} (hc : c < AP_NCH) (k : ℕ) :
    (meterAt hz ⟨aoipRxStart, jb⟩ es k).rx.held c = heldAt (meterLog hz ⟨aoipRxStart, jb⟩ es c) k := by
  induction k with
  | zero => rfl
  | succ k ih =>
    rw [meterAt, heldAt, ← ih, meterLog]
    cases es k with
    | flow e => exact held_flowStep hz _ e hc
    | query => simp only [meterStep, aoipRxTakePeaks, AoipRx.held, if_pos hc, Held.next, bot_eq_zero]
    | heartbeat => simp only [meterStep, aoipRxTakePeaksHb, AoipRx.held, if_pos hc, Held.next, bot_eq_zero]

/-- In every run from boot, on every channel: a telemetry query at `k` takes the loudest
sample since the last query. The heartbeat takes nothing where no packet fed the channel
since its own last take; else, with `f` the first packet since, the louder of what came
since its own take and what came between the last query before `f` and that take. -/
theorem meters_taken (hz : ℕ) (jb : JitterBuf) (es : ℕ → MeterEvent) (c : Fin AP_NCH) (k : ℕ) :
    let s := meterAt hz ⟨aoipRxStart, jb⟩ es
    let log := meterLog hz ⟨aoipRxStart, jb⟩ es c
    let query := since fun j => (log j).isTakeLive
    let own := since (fun j => (log j).isTakeCopy) k
    (aoipRxTakePeaks (s k).rx).1 c = loudest log (query k) k ∧
      ((∀ j ∈ Finset.Ico own k, (log j).sound = none) → (aoipRxTakePeaksHb (s k).rx).1 c = 0) ∧
      ∀ f ∈ Finset.Ico own k, (log f).sound ≠ none → (∀ j ∈ Finset.Ico own f, (log j).sound = none) →
        (aoipRxTakePeaksHb (s k).rx).1 c = max (loudest log own k) (loudest log (query f) own) := by
  intro s log query own
  have h := held_meterAt hz jb es c.isLt k
  have hlive : (s k).rx.peakIn c = (heldAt log k).live := congrArg Held.live h
  have hcopy : (s k).rx.peakHb c = (heldAt log k).copy := congrArg Held.copy h
  refine ⟨hlive.trans (live_eq log k), fun hsilent => hcopy.trans (copy_silent hsilent), fun f hf hs hfirst => ?_⟩
  exact hcopy.trans (copy_eq_own hf hs hfirst)

/-- A loud packet on output 2, a heartbeat, and silence; nobody queries. -/
def oneLoud : ℕ → MeterEvent
  | 0 => .flow (.sys (.bind 0 1 (fun _ => 2) 1 true))
  | 1 => .flow (.socket 0 [192, 168, 1, 20] 4321 (memOf [0x02, 0, 0, 0, 0, 0, 0, 0x10, 0x68, 0x40, 0, 0]) 12 none 0)
  | 2 => .heartbeat
  | 3 => .flow (.socket 0 [192, 168, 1, 20] 4321 (memOf [0x02, 0, 0, 0, 0, 0, 0, 0x10, 0x69, 0, 0, 0]) 12 none 0)
  | _ => .heartbeat

/-- The second heartbeat shows the loud packet again. -/
example :
    (aoipRxTakePeaksHb (meterAt 48000 ⟨aoipRxStart, jbStart (fun _ => 0) 0 65536⟩ oneLoud 4).rx).1 2 = 0x400000 := by
  decide +kernel

end Inferno
