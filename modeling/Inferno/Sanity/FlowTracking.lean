import Inferno.Proofs.Ingest

/-! What each event does to the loss tracking of one flow: a packet of the flow's own
layout is noted by its timestamp and by the answer of `jb_write`, and nothing else short
of binding the flow again moves it. -/

namespace Inferno

open Lib

structure Tracking where
  missed : ℕ
  nextIdx : ℤ
  haveNext : Bool
  deriving DecidableEq, Repr

def RxFlow.tracking (f : RxFlow) : Tracking := ⟨f.missed, f.nextIdx, f.haveNext⟩

def Tracking.gap (n : ℕ) (t : Tracking) (idx : ℤ) : ℕ :=
  if t.haveNext ∧ idx - t.nextIdx > 0 then missedGap idx t.nextIdx n else 0

/-- A packet of `n` frames at index `idx`; `ok` is the answer of `jb_write`. -/
def Tracking.note (n : ℕ) (t : Tracking) (idx : ℤ) (ok : Bool) : Tracking :=
  let missed := if t.haveNext ∧ idx - t.nextIdx > 0 then u32 (t.missed + missedGap idx t.nextIdx n) else t.missed
  { missed := if !ok then u32 (missed + 1) else missed
    nextIdx := if !t.haveNext ∨ idx - t.nextIdx ≥ 0 then idx + n else t.nextIdx
    haveNext := decide (!t.haveNext ∨ idx - t.nextIdx ≥ 0) || t.haveNext }

/-- What a packet must fit: the fields only the subscriber's calls change. -/
structure SameLayout (f f' : RxFlow) : Prop where
  active : f'.active = f.active
  sock : f'.sock = f.sock
  nslots : f'.nslots = f.nslots
  slotToCh : f'.slotToCh = f.slotToCh
  fpp : f'.fpp = f.fpp

theorem SameLayout.refl (f : RxFlow) : SameLayout f f := ⟨rfl, rfl, rfl, rfl, rfl⟩

theorem SameLayout.trans {f g h : RxFlow} (h1 : SameLayout f g) (h2 : SameLayout g h) : SameLayout f h :=
  ⟨h2.active.trans h1.active, h2.sock.trans h1.sock, h2.nslots.trans h1.nslots, h2.slotToCh.trans h1.slotToCh,
    h2.fpp.trans h1.fpp⟩

theorem noteTimestamp_layout (idx : ℤ) (n : ℕ) (fl : RxFlow) : SameLayout fl (noteTimestamp idx n fl) := by
  simp only [noteTimestamp]
  split_ifs <;> exact ⟨rfl, rfl, rfl, rfl, rfl⟩

theorem noteTimestamp_tracking (idx : ℤ) (n : ℕ) (fl : RxFlow) :
    (noteTimestamp idx n fl).tracking = fl.tracking.note n idx true := by
  obtain ⟨sock, active, nslots, map, fpp, port, packets, missed, next, known, src⟩ := fl
  simp only [noteTimestamp, Tracking.note, RxFlow.tracking]
  cases known with
  | false => simp
  | true =>
    by_cases hgt : next < idx
    · simp [hgt, hgt.le]
    · by_cases hge : next ≤ idx <;> simp [hgt, hge]

theorem Tracking.note_refused (n : ℕ) (t : Tracking) (idx : ℤ) :
    t.note n idx false = { t.note n idx true with missed := u32 ((t.note n idx true).missed + 1) } := rfl

theorem takePacket_flow (hz : ℕ) (now : Option ℕ) (us : ℤ) (i : Fin AP_MAX_FLOWS) (h : AudioHdr) (rx : AoipRx)
    (jb : JitterBuf) :
    SameLayout (rx.flows i) ((takePacket hz now us i h rx jb).1.flows i) ∧
      ((takePacket hz now us i h rx jb).1.flows i).tracking =
        (rx.flows i).tracking.note (rx.flows i).fpp (aoipTsToSamples h.seconds h.subsecSamples hz)
          (jbWrite hz us ⟨aoipTsToSamples h.seconds h.subsecSamples hz, (rx.flows i).fpp, (rx.flows i).nslots,
            (rx.flows i).slotToCh, h.samples⟩ jb).2 := by
  have hlayout := noteTimestamp_layout (aoipTsToSamples h.seconds h.subsecSamples hz) (rx.flows i).fpp (rx.flows i)
  have htrack := noteTimestamp_tracking (aoipTsToSamples h.seconds h.subsecSamples hz) (rx.flows i).fpp (rx.flows i)
  simp only [takePacket, AoipRx.setFlow, Function.update_self]
  cases (jbWrite hz us ⟨aoipTsToSamples h.seconds h.subsecSamples hz, (rx.flows i).fpp, (rx.flows i).nslots,
      (rx.flows i).slotToCh, h.samples⟩ jb).2 with
  | true =>
    rw [← htrack]
    exact ⟨⟨hlayout.active, hlayout.sock, hlayout.nslots, hlayout.slotToCh, hlayout.fpp⟩, rfl⟩
  | false =>
    rw [Tracking.note_refused, ← htrack]
    exact ⟨⟨hlayout.active, hlayout.sock, hlayout.nslots, hlayout.slotToCh, hlayout.fpp⟩, rfl⟩

theorem takePacket_other (hz : ℕ) (now : Option ℕ) (us : ℤ) {i j : Fin AP_MAX_FLOWS} (hj : j ≠ i) (h : AudioHdr)
    (rx : AoipRx) (jb : JitterBuf) : (takePacket hz now us i h rx jb).1.flows j = rx.flows j := by
  simp only [takePacket, AoipRx.setFlow, flows_meter, flows_noteLatency, Function.update_of_ne hj]

theorem fast_meter (h : AudioHdr) (fl : RxFlow) (rx : AoipRx) (n : ℕ) :
    ((List.range n).foldl (meterSlot h.samples fl.fpp fl.nslots fl.slotToCh) rx).fast = rx.fast := by
  refine foldl_induct (P := fun r : AoipRx => r.fast = rx.fast) (fun r hr s _ => ?_) rfl
  unfold meterSlot
  split_ifs
  · exact hr
  · exact hr

theorem takePacket_fast (hz : ℕ) (now : Option ℕ) (us : ℤ) (i : Fin AP_MAX_FLOWS) (h : AudioHdr) (rx : AoipRx)
    (jb : JitterBuf) : (takePacket hz now us i h rx jb).1.fast = rx.fast := by
  simp only [takePacket, AoipRx.setFlow, fast_meter]
  cases now <;> rfl

/-- The header of a packet of flow `fl`'s own layout. -/
def wellFormed (fl : RxFlow) (buf : Mem) (len : ℕ) : Option AudioHdr :=
  (aoipAudioParse buf len).filter fun h => fl.nslots * 3 ≠ 0 ∧ h.sampleBytes = fl.nslots * 3 * fl.fpp

theorem handlePacket_eq (hz : ℕ) (now : Option ℕ) (us : ℤ) (i : Fin AP_MAX_FLOWS) (buf : Mem) (len : ℕ) (rx : AoipRx)
    (jb : JitterBuf) :
    (∃ h, wellFormed (rx.flows i) buf len = some h ∧ handlePacket hz now us i buf len rx jb = takePacket hz now us i h rx jb) ∨
      wellFormed (rx.flows i) buf len = none ∧
        ∃ st, handlePacket hz now us i buf len rx jb = ({ rx with st := st }, jb) := by
  unfold handlePacket wellFormed
  cases aoipAudioParse buf len with
  | none =>
    refine Or.inr ⟨rfl, ?_⟩
    dsimp only
    split_ifs <;> exact ⟨_, rfl⟩
  | some h =>
    dsimp only
    split_ifs with hlen
    · refine Or.inr ⟨?_, _, rfl⟩
      rw [Option.filter_some, if_neg]
      simp only [decide_eq_true_eq]
      tauto
    · refine Or.inl ⟨h, ?_, rfl⟩
      rw [Option.filter_some, if_pos]
      simp only [decide_eq_true_eq]
      tauto

/-- The timestamp of a packet for flow `fl`, and the answer `jb_write` gives it. -/
def arrivalOf (hz : ℕ) (us : ℤ) (fl : RxFlow) (jb : JitterBuf) (h : AudioHdr) : ℤ × Bool :=
  (aoipTsToSamples h.seconds h.subsecSamples hz,
    (jbWrite hz us ⟨aoipTsToSamples h.seconds h.subsecSamples hz, fl.fpp, fl.nslots, fl.slotToCh, h.samples⟩ jb).2)

/-- The tracking after what an event brings the flow, if it brings anything. -/
def Tracking.after (n : ℕ) (t : Tracking) : Option (ℤ × Bool) → Tracking
  | none => t
  | some d => t.note n d.1 d.2

/-- The flow's layout stands, and its tracking takes note of `d`. -/
structure Takes (fl fl' : RxFlow) (d : Option (ℤ × Bool)) : Prop where
  layout : SameLayout fl fl'
  tracking : fl'.tracking = fl.tracking.after fl.fpp d

theorem Takes.nothing (fl : RxFlow) : Takes fl fl none := ⟨SameLayout.refl fl, rfl⟩

theorem wellFormed_layout {fl fl' : RxFlow} (h : SameLayout fl fl') (buf : Mem) (len : ℕ) :
    wellFormed fl' buf len = wellFormed fl buf len := by
  simp only [wellFormed, h.nslots, h.fpp]

theorem arrivalOf_layout {fl fl' : RxFlow} (h : SameLayout fl fl') (hz : ℕ) (us : ℤ) (jb : JitterBuf) :
    arrivalOf hz us fl' jb = arrivalOf hz us fl jb := by
  funext a
  simp only [arrivalOf, h.fpp, h.nslots, h.slotToCh]

theorem handlePacket_flow (hz : ℕ) (now : Option ℕ) (us : ℤ) (i : Fin AP_MAX_FLOWS) (buf : Mem) (len : ℕ) (rx : AoipRx)
    (jb : JitterBuf) :
    Takes (rx.flows i) ((handlePacket hz now us i buf len rx jb).1.flows i)
      ((wellFormed (rx.flows i) buf len).map (arrivalOf hz us (rx.flows i) jb)) := by
  rcases handlePacket_eq hz now us i buf len rx jb with ⟨h, hw, he⟩ | ⟨hw, st, he⟩
  · obtain ⟨hlayout, htrack⟩ := takePacket_flow hz now us i h rx jb
    rw [hw, he]
    exact ⟨hlayout, htrack⟩
  · rw [hw, he]
    exact Takes.nothing _

theorem handlePacket_frame (hz : ℕ) (now : Option ℕ) (us : ℤ) (i : Fin AP_MAX_FLOWS) (buf : Mem) (len : ℕ)
    (rx : AoipRx) (jb : JitterBuf) :
    (handlePacket hz now us i buf len rx jb).1.fast = rx.fast ∧
      ∀ j, j ≠ i → (handlePacket hz now us i buf len rx jb).1.flows j = rx.flows j := by
  rcases handlePacket_eq hz now us i buf len rx jb with ⟨h, -, he⟩ | ⟨-, st, he⟩
  · rw [he]
    exact ⟨takePacket_fast hz now us i h rx jb, fun j hj => takePacket_other hz now us hj h rx jb⟩
  · rw [he]
    exact ⟨rfl, fun _ _ => rfl⟩

theorem latched_frame (i : Fin AP_MAX_FLOWS) (rx : AoipRx) (j : Fin AP_MAX_FLOWS) :
    SameLayout (rx.flows j) ((rx.setFlow i { rx.flows i with haveSrc := true }).flows j) ∧
      ((rx.setFlow i { rx.flows i with haveSrc := true }).flows j).tracking = (rx.flows j).tracking := by
  rcases eq_or_ne j i with rfl | hj
  · simp only [AoipRx.setFlow, Function.update_self]
    exact ⟨⟨rfl, rfl, rfl, rfl, rfl⟩, rfl⟩
  · simp only [AoipRx.setFlow, Function.update_of_ne hj, and_true]
    exact SameLayout.refl _

theorem noteSource_frame (i : Fin AP_MAX_FLOWS) (r : AudioRef) (rx : AoipRx) :
    (noteSource i r rx).fast = rx.fast ∧
      ∀ j, SameLayout (rx.flows j) ((noteSource i r rx).flows j) ∧
        ((noteSource i r rx).flows j).tracking = (rx.flows j).tracking := by
  unfold noteSource
  split_ifs
  · exact ⟨rfl, latched_frame i rx⟩
  · exact ⟨rfl, fun j => ⟨SameLayout.refl _, rfl⟩⟩
  · exact ⟨rfl, fun j => ⟨SameLayout.refl _, rfl⟩⟩

theorem Takes.of_same {fl fl' fl'' : RxFlow} {d : Option (ℤ × Bool)} (h : SameLayout fl fl')
    (ht : fl'.tracking = fl.tracking) (h' : Takes fl' fl'' d) : Takes fl fl'' d :=
  ⟨h.trans h'.layout, by rw [h'.tracking, ht, h.fpp]⟩

/-- What an event brings flow `i`: a frame on its port, or a packet from its socket, of its
own layout. -/
def arrival (hz : ℕ) (i : Fin AP_MAX_FLOWS) (s : RxSys) : FlowEvent → Option (ℤ × Bool)
  | .sys (.frame f _ us) =>
    match isAudioFrame f AOIP_RX_AUDIO_PORT AP_MAX_FLOWS with
    | none => none
    | some r =>
      if s.rx.fast ∧ flowOfPort r.dport = some i ∧ (s.rx.flows i).active ∧ (s.rx.flows i).sock then
        (wellFormed (s.rx.flows i) (fun k => f.mem (r.payload + k)) r.plen).map (arrivalOf hz us (s.rx.flows i) s.jb)
      else none
  | .socket j _ _ buf len _ us =>
    if j = i ∧ (s.rx.flows i).active ∧ (s.rx.flows i).sock ∧ len ≠ 0 then
      (wellFormed (s.rx.flows i) buf len).map (arrivalOf hz us (s.rx.flows i) s.jb)
    else none
  | _ => none

/-- A packet handed to flow `j`, as flow `i` sees it, after the source was looked at. -/
theorem handled_flow (hz : ℕ) (now : Option ℕ) (us : ℤ) (j : Fin AP_MAX_FLOWS) (buf : Mem) (len : ℕ)
    (rx : AoipRx) {rx' : AoipRx} (jb : JitterBuf) (hfast : rx'.fast = rx.fast)
    (hframe : ∀ k, SameLayout (rx.flows k) (rx'.flows k) ∧ (rx'.flows k).tracking = (rx.flows k).tracking)
    (i : Fin AP_MAX_FLOWS) :
    (handlePacket hz now us j buf len rx' jb).1.fast = rx.fast ∧
      Takes (rx.flows i) ((handlePacket hz now us j buf len rx' jb).1.flows i)
        (if j = i then (wellFormed (rx.flows i) buf len).map (arrivalOf hz us (rx.flows i) jb) else none) := by
  obtain ⟨hpf, hps⟩ := handlePacket_frame hz now us j buf len rx' jb
  obtain ⟨hlayout, htrack⟩ := hframe i
  refine ⟨hpf.trans hfast, ?_⟩
  split_ifs with hj
  · subst hj
    have htake := handlePacket_flow hz now us j buf len rx' jb
    rw [wellFormed_layout hlayout, arrivalOf_layout hlayout] at htake
    exact Takes.of_same hlayout htrack htake
  · rw [hps i (Ne.symm hj)]
    exact Takes.of_same hlayout htrack (Takes.nothing _)

theorem fastInput_flow (hz : ℕ) (now : Option ℕ) (us : ℤ) (r : AudioRef) (payload : Mem) (len : ℕ) (rx : AoipRx)
    (jb : JitterBuf) (i : Fin AP_MAX_FLOWS) :
    (fastInput hz now us r payload len rx jb).1.1.fast = rx.fast ∧
      Takes (rx.flows i) ((fastInput hz now us r payload len rx jb).1.1.flows i)
        (if rx.fast ∧ flowOfPort r.dport = some i ∧ (rx.flows i).active ∧ (rx.flows i).sock then
          (wellFormed (rx.flows i) payload len).map (arrivalOf hz us (rx.flows i) jb) else none) := by
  unfold fastInput
  by_cases hfast : rx.fast = true
  · rw [if_neg (by simp [hfast])]
    cases hport : flowOfPort r.dport with
    | none =>
      rw [if_neg (by simp)]
      exact ⟨rfl, Takes.nothing _⟩
    | some j =>
      dsimp only
      by_cases hopen : (rx.flows j).active = true ∧ (rx.flows j).sock = true
      · rw [if_neg (by simp [hopen])]
        obtain ⟨hnf, hns⟩ := noteSource_frame j r rx
        have htake := handled_flow hz now us j payload len rx jb hnf hns i
        by_cases hj : j = i
        · subst hj
          rw [if_pos ⟨hfast, rfl, hopen.1, hopen.2⟩]
          rwa [if_pos rfl] at htake
        · rw [if_neg (by simp [hj])]
          rwa [if_neg hj] at htake
      · rw [if_pos (by simpa [imp_iff_not_or] using hopen), if_neg]
        · exact ⟨rfl, Takes.nothing _⟩
        · rintro ⟨-, hji, h1, h2⟩
          cases hji
          exact hopen ⟨h1, h2⟩
  · rw [if_pos (by simp [hfast]), if_neg (by simp [hfast])]
    exact ⟨rfl, Takes.nothing _⟩

theorem socketInput_flow (hz : ℕ) (now : Option ℕ) (us : ℤ) (j : Fin AP_MAX_FLOWS) (sip : List UInt8) (sport : ℕ)
    (buf : Mem) (len : ℕ) (rx : AoipRx) (jb : JitterBuf) (i : Fin AP_MAX_FLOWS) :
    (socketInput hz now us j sip sport buf len rx jb).1.fast = rx.fast ∧
      Takes (rx.flows i) ((socketInput hz now us j sip sport buf len rx jb).1.flows i)
        (if j = i ∧ (rx.flows i).active ∧ (rx.flows i).sock ∧ len ≠ 0 then
          (wellFormed (rx.flows i) buf len).map (arrivalOf hz us (rx.flows i) jb) else none) := by
  unfold socketInput
  by_cases hopen : (rx.flows j).active = true ∧ (rx.flows j).sock = true
  · rw [if_neg (by simp [hopen])]
    by_cases hlen : len = 0
    · rw [if_pos hlen, if_neg (by simp [hlen])]
      exact ⟨rfl, Takes.nothing _⟩
    · rw [if_neg hlen]
      have hiff : (j = i ∧ (rx.flows i).active = true ∧ (rx.flows i).sock = true ∧ len ≠ 0) ↔ j = i := by
        refine ⟨fun h => h.1, ?_⟩
        rintro rfl
        exact ⟨rfl, hopen.1, hopen.2, hlen⟩
      simp only [hiff]
      by_cases hsrc : (!(rx.flows j).haveSrc) = true
      · rw [if_pos hsrc]
        refine handled_flow hz now us j buf len rx jb ?_ ?_ i
        · rfl
        · exact latched_frame j rx
      · rw [if_neg hsrc]
        exact handled_flow hz now us j buf len rx jb rfl (fun _ => ⟨SameLayout.refl _, rfl⟩) i
  · rw [if_pos (by simpa [imp_iff_not_or] using hopen), if_neg]
    · exact ⟨rfl, Takes.nothing _⟩
    · rintro ⟨rfl, h1, h2, -⟩
      exact hopen ⟨h1, h2⟩

theorem remapFlow_tracking (nslots : ℕ) (map : ℕ → ℤ) (fl : RxFlow) :
    (aoipRxRemapFlow nslots map fl).1.tracking = fl.tracking ∧ (aoipRxRemapFlow nslots map fl).1.fpp = fl.fpp := by
  unfold aoipRxRemapFlow
  split_ifs <;> exact ⟨rfl, rfl⟩

theorem setFlow_other {rx : AoipRx} {i j : Fin AP_MAX_FLOWS} (hj : i ≠ j) (fl : RxFlow) :
    (rx.setFlow j fl).flows i = rx.flows i := Function.update_of_ne hj _ _

theorem setFlow_self (rx : AoipRx) (i : Fin AP_MAX_FLOWS) (fl : RxFlow) : (rx.setFlow i fl).flows i = fl :=
  Function.update_self _ _ _

/-- Short of binding the flow again, every event leaves its packet size alone, and its
tracking takes note of what the event brings. -/
theorem flowStep_tracking (hz : ℕ) (i : Fin AP_MAX_FLOWS) (s : RxSys) {e : FlowEvent}
    (he : ∀ nslots map fpp ok, e ≠ .sys (.bind i nslots map fpp ok)) :
    ((flowStep hz s e).rx.flows i).fpp = (s.rx.flows i).fpp ∧
      ((flowStep hz s e).rx.flows i).tracking =
        (s.rx.flows i).tracking.after (s.rx.flows i).fpp (arrival hz i s e) := by
  cases e with
  | socket j sip sport buf len now us =>
    have h := (socketInput_flow hz now us j sip sport buf len s.rx s.jb i).2
    exact ⟨h.layout.fpp, h.tracking⟩
  | sys e =>
    cases e with
    | bind j nslots map fpp ok =>
      have hj : i ≠ j := by
        rintro rfl
        exact he nslots map fpp ok rfl
      simp only [flowStep, rxStep, setFlow_other hj]
      exact ⟨trivial, rfl⟩
    | remap j nslots map =>
      rcases eq_or_ne i j with rfl | hj
      · simp only [flowStep, rxStep, setFlow_self]
        exact ⟨(remapFlow_tracking nslots map _).2, (remapFlow_tracking nslots map _).1⟩
      · simp only [flowStep, rxStep, setFlow_other hj]
        exact ⟨trivial, rfl⟩
    | unbind j =>
      rcases eq_or_ne i j with rfl | hj
      · simp only [flowStep, rxStep, setFlow_self]
        exact ⟨rfl, rfl⟩
      · simp only [flowStep, rxStep, setFlow_other hj]
        exact ⟨trivial, rfl⟩
    | frame f now us =>
      simp only [flowStep, rxStep, audioInput, arrival]
      cases isAudioFrame f AOIP_RX_AUDIO_PORT AP_MAX_FLOWS with
      | none => exact ⟨rfl, rfl⟩
      | some r =>
        have h := (fastInput_flow hz now us r (fun k => f.mem (r.payload + k)) r.plen s.rx s.jb i).2
        exact ⟨h.layout.fpp, h.tracking⟩
    | fastPath on => exact ⟨rfl, rfl⟩
    | attach nbufs frames => exact ⟨rfl, rfl⟩
    | isr p t => exact ⟨rfl, rfl⟩
    | reset us idx => exact ⟨rfl, rfl⟩
    | step delta => exact ⟨rfl, rfl⟩
    | gain level db => exact ⟨rfl, rfl⟩
    | mute level on => exact ⟨rfl, rfl⟩

end Inferno
