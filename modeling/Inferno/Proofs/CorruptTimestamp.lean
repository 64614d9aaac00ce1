import Inferno.Proofs.MissedPackets

/-! A packet whose timestamp lies beyond the future guard. The ring refuses it, but
`handle_packet` has moved the mark that losses are measured from before it asks the ring:
only a flow that already expects something later keeps its mark. -/

namespace Inferno

open Lib

/-- The packet `jb_write` refuses as beyond the future guard. -/
structure BeyondGuard (hz : ℕ) (now : ℤ) (p : Packet) (jb : JitterBuf) : Prop where
  nframes : p.nframes ≠ 0
  nslots : p.nslots ≠ 0
  ready : jb.ready = true
  anchored : jb.anchored = true
  beyond : readHead hz now jb + AP_FUTURE_GUARD_FRAMES < p.firstIdx + p.nframes

theorem jbWrite_beyond {hz : ℕ} {now : ℤ} {p : Packet} {jb : JitterBuf} (h : BeyondGuard hz now p jb) :
    jbWrite hz now p jb = ({ jb with st := { jb.st with pktFuture := u32 (jb.st.pktFuture + 1) } }, false) := by
  obtain ⟨hf, hs, hr, ha, hb⟩ := h
  have h1 : ¬ (p.nframes = 0 ∨ p.nslots = 0) := not_or.mpr ⟨hf, hs⟩
  simp only [readHead] at hb
  have hguard : (0 : ℤ) ≤ AP_FUTURE_GUARD_FRAMES := Int.natCast_nonneg _
  simp only [jbWrite, jbWriteBegin, if_neg h1, hr, ha, Bool.not_true, Bool.or_self, Bool.false_eq_true, if_false]
  rw [if_neg (by omega), if_pos (by omega)]

theorem handlePacket_takes {hz : ℕ} {now : Option ℕ} {us : ℤ} {i : Fin AP_MAX_FLOWS} {buf : Mem} {len : ℕ} {rx : AoipRx}
    {jb : JitterBuf} {h : AudioHdr} (hw : wellFormed (rx.flows i) buf len = some h) :
    handlePacket hz now us i buf len rx jb = takePacket hz now us i h rx jb := by
  rcases handlePacket_eq hz now us i buf len rx jb with ⟨h', hw', he⟩ | ⟨hw', -⟩
  · rw [hw, Option.some_inj] at hw'
    rw [he, hw']
  · rw [hw] at hw'
    exact absurd hw' (Option.some_ne_none _)

def gapAt (hz : ℕ) (i : Fin AP_MAX_FLOWS) (s : RxSys) (e : FlowEvent) : ℕ :=
  match arrival hz i s e with
  | none => 0
  | some d => (s.rx.flows i).tracking.gap (s.rx.flows i).fpp d.1

/-- Flows that expect the same packets next. -/
structure FlowAlike (f f' : RxFlow) : Prop where
  layout : SameLayout f f'
  nextIdx : f'.nextIdx = f.nextIdx
  haveNext : f'.haveNext = f.haveNext

/-- Systems in which flow `i` is charged alike. -/
structure Alike (i : Fin AP_MAX_FLOWS) (s s' : RxSys) : Prop where
  fast : s'.rx.fast = s.rx.fast
  flow : FlowAlike (s.rx.flows i) (s'.rx.flows i)

section Alike

variable {hz : ℕ} {i : Fin AP_MAX_FLOWS} {s s' : RxSys}

theorem Alike.arrival_fst (h : Alike i s s') (hz : ℕ) (e : FlowEvent) :
    (arrival hz i s' e).map Prod.fst = (arrival hz i s e).map Prod.fst := by
  have hmap : ∀ us buf len,
      ((wellFormed (s'.rx.flows i) buf len).map (arrivalOf hz us (s'.rx.flows i) s'.jb)).map Prod.fst =
        ((wellFormed (s.rx.flows i) buf len).map (arrivalOf hz us (s.rx.flows i) s.jb)).map Prod.fst := by
    intro us buf len
    rw [wellFormed_layout h.flow.layout, Option.map_map, Option.map_map]
    rfl
  cases e with
  | socket j sip sport buf len now us =>
    simp only [arrival, h.flow.layout.active, h.flow.layout.sock]
    split_ifs
    · exact hmap us buf len
    · rfl
  | sys e =>
    cases e with
    | frame f now us =>
      simp only [arrival, h.fast, h.flow.layout.active, h.flow.layout.sock]
      cases isAudioFrame f AOIP_RX_AUDIO_PORT AP_MAX_FLOWS with
      | none => rfl
      | some r =>
        dsimp only
        split_ifs
        · exact hmap us _ r.plen
        · rfl
    | _ => rfl

theorem gap_congr {t t' : Tracking} (hn : t'.nextIdx = t.nextIdx) (hk : t'.haveNext = t.haveNext) (n : ℕ) (idx : ℤ) :
    t'.gap n idx = t.gap n idx := by
  obtain ⟨missed, next, known⟩ := t
  obtain ⟨missed', next', known'⟩ := t'
  obtain rfl := hn
  obtain rfl := hk
  rfl

theorem Alike.gapAt_eq (h : Alike i s s') (e : FlowEvent) : gapAt hz i s' e = gapAt hz i s e := by
  have ha := h.arrival_fst hz e
  simp only [gapAt]
  cases hd : arrival hz i s e with
  | none =>
    rw [hd, Option.map_none, Option.map_eq_none_iff] at ha
    rw [ha]
  | some d =>
    rw [hd, Option.map_some, Option.map_eq_some_iff] at ha
    obtain ⟨d', hd', hfst⟩ := ha
    rw [hd', h.flow.layout.fpp]
    dsimp only
    rw [hfst]
    exact gap_congr h.flow.nextIdx h.flow.haveNext _ _

/-- The mark after a packet depends on the mark before it and on the timestamp. -/
theorem after_alike (n : ℕ) {t t' : Tracking} (hn : t'.nextIdx = t.nextIdx) (hk : t'.haveNext = t.haveNext)
    {d d' : Option (ℤ × Bool)} (hd : d'.map Prod.fst = d.map Prod.fst) :
    (t'.after n d').nextIdx = (t.after n d).nextIdx ∧ (t'.after n d').haveNext = (t.after n d).haveNext := by
  cases d with
  | none =>
    rw [Option.map_none, Option.map_eq_none_iff] at hd
    rw [hd]
    exact ⟨hn, hk⟩
  | some d =>
    rw [Option.map_some, Option.map_eq_some_iff] at hd
    obtain ⟨a, rfl, hfst⟩ := hd
    simp only [Tracking.after, Tracking.note, hn, hk, hfst, and_self]

theorem Alike.of_takes (h : Alike i s s') {d d' : Option (ℤ × Bool)} {r r' : RxSys} (hd : d'.map Prod.fst = d.map Prod.fst)
    (hf : r.rx.fast = s.rx.fast) (hf' : r'.rx.fast = s'.rx.fast) (ht : Takes (s.rx.flows i) (r.rx.flows i) d)
    (ht' : Takes (s'.rx.flows i) (r'.rx.flows i) d') : Alike i r r' := by
  have hnext : (s'.rx.flows i).tracking.nextIdx = (s.rx.flows i).tracking.nextIdx := h.flow.nextIdx
  have hafter := after_alike (s.rx.flows i).fpp hnext h.flow.haveNext hd
  have hn : (r'.rx.flows i).tracking.nextIdx = (r.rx.flows i).tracking.nextIdx := by
    rw [ht.tracking, ht'.tracking, h.flow.layout.fpp]
    exact hafter.1
  have hk : (r'.rx.flows i).tracking.haveNext = (r.rx.flows i).tracking.haveNext := by
    rw [ht.tracking, ht'.tracking, h.flow.layout.fpp]
    exact hafter.2
  refine ⟨hf'.trans (h.fast.trans hf.symm), ⟨?_, hn, hk⟩⟩
  exact ⟨ht'.layout.active.trans (h.flow.layout.active.trans ht.layout.active.symm),
    ht'.layout.sock.trans (h.flow.layout.sock.trans ht.layout.sock.symm),
    ht'.layout.nslots.trans (h.flow.layout.nslots.trans ht.layout.nslots.symm),
    ht'.layout.slotToCh.trans (h.flow.layout.slotToCh.trans ht.layout.slotToCh.symm),
    ht'.layout.fpp.trans (h.flow.layout.fpp.trans ht.layout.fpp.symm)⟩

theorem FlowAlike.bind {f f' : RxFlow} (h : FlowAlike f f') (idx nslots : ℕ) (map : ℕ → ℤ) (fpp : ℕ) (ok : Bool) :
    FlowAlike (aoipRxBindFlow idx nslots map fpp ok f).1 (aoipRxBindFlow idx nslots map fpp ok f').1 := by
  unfold aoipRxBindFlow
  split_ifs
  · exact h
  · exact ⟨⟨rfl, rfl, h.layout.nslots, h.layout.slotToCh, h.layout.fpp⟩, h.nextIdx, h.haveNext⟩
  · exact ⟨⟨rfl, rfl, rfl, rfl, rfl⟩, h.nextIdx, rfl⟩

theorem FlowAlike.remap {f f' : RxFlow} (h : FlowAlike f f') (nslots : ℕ) (map : ℕ → ℤ) :
    FlowAlike (aoipRxRemapFlow nslots map f).1 (aoipRxRemapFlow nslots map f').1 := by
  unfold aoipRxRemapFlow
  rw [h.layout.active]
  split_ifs
  · exact h
  · exact h
  · exact ⟨⟨rfl, h.layout.sock, rfl, rfl, h.layout.fpp⟩, h.nextIdx, h.haveNext⟩

theorem FlowAlike.unbind {f f' : RxFlow} (h : FlowAlike f f') : FlowAlike (aoipRxUnbindFlow f) (aoipRxUnbindFlow f') :=
  ⟨⟨rfl, rfl, h.layout.nslots, h.layout.slotToCh, h.layout.fpp⟩, h.nextIdx, h.haveNext⟩

theorem Alike.step (h : Alike i s s') (e : FlowEvent) : Alike i (flowStep hz s e) (flowStep hz s' e) := by
  have hd := h.arrival_fst hz e
  cases e with
  | socket j sip sport buf len now us =>
    have ht := socketInput_flow hz now us j sip sport buf len s.rx s.jb i
    have ht' := socketInput_flow hz now us j sip sport buf len s'.rx s'.jb i
    exact h.of_takes hd ht.1 ht'.1 ht.2 ht'.2
  | sys e =>
    cases e with
    | bind j nslots map fpp ok =>
      refine ⟨h.fast, ?_⟩
      rcases eq_or_ne i j with rfl | hj
      · simp only [flowStep, rxStep, setFlow_self]
        exact h.flow.bind i nslots map fpp ok
      · simp only [flowStep, rxStep, setFlow_other hj]
        exact h.flow
    | remap j nslots map =>
      refine ⟨h.fast, ?_⟩
      rcases eq_or_ne i j with rfl | hj
      · simp only [flowStep, rxStep, setFlow_self]
        exact h.flow.remap nslots map
      · simp only [flowStep, rxStep, setFlow_other hj]
        exact h.flow
    | unbind j =>
      refine ⟨h.fast, ?_⟩
      rcases eq_or_ne i j with rfl | hj
      · simp only [flowStep, rxStep, setFlow_self]
        exact h.flow.unbind
      · simp only [flowStep, rxStep, setFlow_other hj]
        exact h.flow
    | fastPath on => exact ⟨rfl, h.flow⟩
    | frame f now us =>
      simp only [flowStep, rxStep, audioInput]
      simp only [arrival] at hd
      cases hr : isAudioFrame f AOIP_RX_AUDIO_PORT AP_MAX_FLOWS with
      | none => exact ⟨h.fast, h.flow⟩
      | some r =>
        rw [hr] at hd
        have ht := fastInput_flow hz now us r (fun k => f.mem (r.payload + k)) r.plen s.rx s.jb i
        have ht' := fastInput_flow hz now us r (fun k => f.mem (r.payload + k)) r.plen s'.rx s'.jb i
        exact h.of_takes hd ht.1 ht'.1 ht.2 ht'.2
    | attach nbufs frames => exact ⟨h.fast, h.flow⟩
    | isr p t => exact ⟨h.fast, h.flow⟩
    | reset us idx => exact ⟨h.fast, h.flow⟩
    | step delta => exact ⟨h.fast, h.flow⟩
    | gain level db => exact ⟨h.fast, h.flow⟩
    | mute level on => exact ⟨h.fast, h.flow⟩

end Alike

theorem note_keeps_iff {n : ℕ} (hn : 0 < n) (t : Tracking) (idx : ℤ) (ok : Bool) :
    (t.note n idx ok).nextIdx = t.nextIdx ∧ (t.note n idx ok).haveNext = t.haveNext ↔
      t.haveNext = true ∧ idx < t.nextIdx := by
  obtain ⟨missed, next, known⟩ := t
  simp only [Tracking.note]
  cases known with
  | false => simp
  | true =>
    simp only [Bool.not_true, Bool.false_eq_true, false_or, Bool.or_true, and_true, true_and]
    split_ifs <;> omega

/-- A packet of the flow's layout beyond the guard leaves the ring as it was, save for the
count of such packets. It leaves the flow's mark alone, and every later event charged as if
it had not come, just when the flow expects something later already. -/
theorem corrupt_timestamp_iff (hz : ℕ) (now : Option ℕ) (us : ℤ) (i : Fin AP_MAX_FLOWS) (buf : Mem) (len : ℕ) (rx : AoipRx)
    (jb : JitterBuf) {h : AudioHdr} (hw : wellFormed (rx.flows i) buf len = some h)
    (hb : BeyondGuard hz us ⟨aoipTsToSamples h.seconds h.subsecSamples hz, (rx.flows i).fpp, (rx.flows i).nslots,
      (rx.flows i).slotToCh, h.samples⟩ jb) :
    (handlePacket hz now us i buf len rx jb).2 =
        { jb with st := { jb.st with pktFuture := u32 (jb.st.pktFuture + 1) } } ∧
    ((((handlePacket hz now us i buf len rx jb).1.flows i).nextIdx = (rx.flows i).nextIdx ∧
        ((handlePacket hz now us i buf len rx jb).1.flows i).haveNext = (rx.flows i).haveNext ∧
        ∀ l, trace (flowStep hz) (gapAt hz i)
            ⟨(handlePacket hz now us i buf len rx jb).1, (handlePacket hz now us i buf len rx jb).2⟩ l =
          trace (flowStep hz) (gapAt hz i) ⟨rx, jb⟩ l) ↔
      (rx.flows i).haveNext = true ∧ (aoipTsToSamples h.seconds h.subsecSamples hz : ℤ) < (rx.flows i).nextIdx) := by
  have htake := handlePacket_flow hz now us i buf len rx jb
  have hfast := (handlePacket_frame hz now us i buf len rx jb).1
  rw [hw, Option.map_some] at htake
  have hn : 0 < (rx.flows i).fpp := Nat.pos_of_ne_zero hb.nframes
  have hmark := note_keeps_iff hn (rx.flows i).tracking (arrivalOf hz us (rx.flows i) jb h).1
    (arrivalOf hz us (rx.flows i) jb h).2
  have htrack : ((handlePacket hz now us i buf len rx jb).1.flows i).tracking =
      (rx.flows i).tracking.note (rx.flows i).fpp _ _ := htake.tracking
  rw [← htrack] at hmark
  refine ⟨?_, ?_, ?_⟩
  · rw [handlePacket_takes hw, takePacket]
    exact congrArg Prod.fst (jbWrite_beyond hb)
  · rintro ⟨hnext, hknown, -⟩
    exact hmark.mp ⟨hnext, hknown⟩
  · intro hlater
    obtain ⟨hnext, hknown⟩ := hmark.mpr hlater
    refine ⟨hnext, hknown, fun l => ?_⟩
    have halike : Alike i ⟨rx, jb⟩ ⟨(handlePacket hz now us i buf len rx jb).1, (handlePacket hz now us i buf len rx jb).2⟩ :=
      ⟨hfast, htake.layout, hnext, hknown⟩
    exact (trace_congr (flowStep hz) (R := Alike i) (fun _ _ e ha => ha.step e)
      (fun _ _ e ha => (ha.gapAt_eq e).symm) halike l).symm

def afterOnePacket : RxSys := flowStep 96000 oneSlotFlow (framePacketIn 30)

/-- A packet with a timestamp beyond the guard: seconds 1, so index 96000. -/
def corruptPacket : Mem := fun i => [2, 0, 0, 0, 1].getD i 0

/-- The mark jumps to the corrupt timestamp, and the loss of index 31 goes uncounted when
index 32 comes. -/
theorem corrupt_timestamp_hides_losses :
    (((handlePacket 96000 none 0 0 corruptPacket 12 afterOnePacket.rx afterOnePacket.jb).1.flows 0).nextIdx = 96001 ∧
      (afterOnePacket.rx.flows 0).nextIdx = 31) ∧
    trace (flowStep 96000) (gapAt 96000 0) afterOnePacket [framePacketIn 32] = [1] ∧
      trace (flowStep 96000) (gapAt 96000 0)
        (flowStep 96000 afterOnePacket (.socket 0 [] 0 corruptPacket 12 none 0)) [framePacketIn 32] = [0] := by
  refine ⟨⟨?_, ?_⟩, ?_, ?_⟩ <;> decide +kernel

/-- A flow that already expects something later keeps its mark. -/
def aheadOfCorrupt : RxSys :=
  { afterOnePacket with rx := afterOnePacket.rx.setFlow 0 { afterOnePacket.rx.flows 0 with nextIdx := 96002 } }

theorem corrupt_timestamp_iff_ahead :
    ((handlePacket 96000 none 0 0 corruptPacket 12 aheadOfCorrupt.rx aheadOfCorrupt.jb).1.flows 0).nextIdx = 96002 := by
  have hb : BeyondGuard 96000 0 ⟨aoipTsToSamples 1 0 96000, (aheadOfCorrupt.rx.flows 0).fpp,
      (aheadOfCorrupt.rx.flows 0).nslots, (aheadOfCorrupt.rx.flows 0).slotToCh, fun i => corruptPacket (9 + i)⟩
      aheadOfCorrupt.jb := by
    constructor <;> decide +kernel
  exact ((corrupt_timestamp_iff 96000 none 0 0 corruptPacket 12 aheadOfCorrupt.rx aheadOfCorrupt.jb
    (h := ⟨1, 0, fun i => corruptPacket (9 + i), 3⟩) rfl hb).2.mpr ⟨by decide +kernel, by decide +kernel⟩).1

end Inferno
