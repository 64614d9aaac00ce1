import Inferno.Proofs.DmaPosition
import Inferno.Proofs.PacketStore
import Inferno.Proofs.RingTimeline
import Inferno.Sanity.FlowTracking
import Inferno.Spec.AoipMsg
import Inferno.Spec.Receiver

/-! Every word the DAC plays is the sample last received for it through the patch of that
moment, or silence: the receive flows, the ring and the DMA together refine the patch the
subscriber's calls describe. -/

namespace Inferno

open Lib

variable {hz : ℕ}

def Receiver.at (hz : ℕ) (r : Receiver) (l : List ReceiverEvent) (k : ℕ) : Receiver := before (receiverStep hz) r l k

def RxFlow.layout (f : RxFlow) : Option FlowLayout := if f.active then some ⟨f.nslots, f.slotToCh, f.fpp⟩ else none

/-- The flows have the layouts of `t`, and one is active just when its socket is open. -/
structure Routes (t : Fin AP_MAX_FLOWS → Option FlowLayout) (rx : AoipRx) : Prop where
  layout : ∀ i, (rx.flows i).layout = t i
  sock : ∀ i, (rx.flows i).sock = (rx.flows i).active

theorem SameLayout.layout {f f' : RxFlow} (h : SameLayout f f') : f'.layout = f.layout := by
  simp only [RxFlow.layout, h.active, h.nslots, h.slotToCh, h.fpp]

theorem Routes.of_same {t : Fin AP_MAX_FLOWS → Option FlowLayout} {rx rx' : AoipRx} (h : Routes t rx)
    (hs : ∀ i, SameLayout (rx.flows i) (rx'.flows i)) : Routes t rx' where
  layout i := (hs i).layout.trans (h.layout i)
  sock i := by rw [(hs i).sock, (hs i).active, h.sock i]

theorem Routes.set {t : Fin AP_MAX_FLOWS → Option FlowLayout} {rx : AoipRx} (h : Routes t rx) {i : Fin AP_MAX_FLOWS}
    {fl : RxFlow} {y : Option FlowLayout} (hy : fl.layout = y) (hsock : fl.sock = fl.active) :
    Routes (Function.update t i y) (rx.setFlow i fl) := by
  constructor <;> intro j <;> rcases eq_or_ne j i with rfl | hj
  · simp only [AoipRx.setFlow, Function.update_self, hy]
  · simp only [AoipRx.setFlow, Function.update_of_ne hj, h.layout j]
  · simp only [AoipRx.setFlow, Function.update_self, hsock]
  · simp only [AoipRx.setFlow, Function.update_of_ne hj, h.sock j]

theorem setFlow_same (rx : AoipRx) (i : Fin AP_MAX_FLOWS) : rx.setFlow i (rx.flows i) = rx := by
  simp only [AoipRx.setFlow, Function.update_eq_self]

theorem handlePacket_layout (now : Option ℕ) (us : ℤ) (i : Fin AP_MAX_FLOWS) (buf : Mem) (len : ℕ) (rx : AoipRx)
    (jb : JitterBuf) (j : Fin AP_MAX_FLOWS) :
    SameLayout (rx.flows j) ((handlePacket hz now us i buf len rx jb).1.flows j) := by
  rcases eq_or_ne j i with rfl | hj
  · exact (handlePacket_flow hz now us j buf len rx jb).layout
  · rw [(handlePacket_frame hz now us i buf len rx jb).2 j hj]
    exact SameLayout.refl _

theorem fastInput_layout (now : Option ℕ) (us : ℤ) (r : AudioRef) (payload : Mem) (len : ℕ) (rx : AoipRx) (jb : JitterBuf)
    (j : Fin AP_MAX_FLOWS) : SameLayout (rx.flows j) ((fastInput hz now us r payload len rx jb).1.1.flows j) := by
  unfold fastInput
  split_ifs
  · exact SameLayout.refl _
  · cases flowOfPort r.dport with
    | none => exact SameLayout.refl _
    | some i =>
      dsimp only
      split_ifs
      · exact SameLayout.refl _
      · exact ((noteSource_frame i r rx).2 j).1.trans (handlePacket_layout now us i payload len _ jb j)

theorem audioInput_layout (now : Option ℕ) (us : ℤ) (f : Frame) (rx : AoipRx) (jb : JitterBuf) (j : Fin AP_MAX_FLOWS) :
    SameLayout (rx.flows j) ((audioInput hz now us f rx jb).1.1.flows j) := by
  unfold audioInput
  cases isAudioFrame f AOIP_RX_AUDIO_PORT AP_MAX_FLOWS with
  | none => exact SameLayout.refl _
  | some r => exact fastInput_layout now us r _ r.plen rx jb j

theorem socketInput_layout (now : Option ℕ) (us : ℤ) (i : Fin AP_MAX_FLOWS) (sip : List UInt8) (sport : ℕ) (buf : Mem)
    (len : ℕ) (rx : AoipRx) (jb : JitterBuf) (j : Fin AP_MAX_FLOWS) :
    SameLayout (rx.flows j) ((socketInput hz now us i sip sport buf len rx jb).1.flows j) := by
  unfold socketInput
  split_ifs
  · exact SameLayout.refl _
  · exact SameLayout.refl _
  · exact (latched_frame i rx j).1.trans (handlePacket_layout now us i buf len
      { rx.setFlow i { rx.flows i with haveSrc := true } with src := Function.update rx.src i (sip, sport), kaNow := true } jb j)
  · exact handlePacket_layout now us i buf len rx jb j

theorem routes_step {t : Fin AP_MAX_FLOWS → Option FlowLayout} {s : Receiver} (h : Routes t s.rx) (e : ReceiverEvent) :
    Routes (routeStep t e) (receiverStep hz s e).rx := by
  cases e with
  | bind i nslots map fpp ok =>
    simp only [receiverStep, routeStep, aoipRxBindFlow]
    by_cases hn : nslots = 0 ∨ nslots > AP_MAX_CH_PER_FLOW
    · simp only [if_pos hn, setFlow_same]
      exact h
    · simp only [if_neg hn]
      cases ok with
      | false => exact h.set rfl rfl
      | true => exact h.set rfl rfl
  | remap i nslots map =>
    simp only [receiverStep, routeStep, aoipRxRemapFlow]
    by_cases hn : nslots = 0 ∨ nslots > AP_MAX_CH_PER_FLOW
    · simp only [if_pos hn, setFlow_same]
      exact h
    · simp only [if_neg hn]
      have hlayout := h.layout i
      rw [RxFlow.layout] at hlayout
      cases hact : (s.rx.flows i).active with
      | false =>
        rw [hact] at hlayout
        have hnone : t i = none := hlayout.symm
        simp only [Bool.not_false, if_true, setFlow_same, hnone, Option.map_none]
        rw [← hnone, Function.update_eq_self]
        exact h
      | true =>
        rw [hact] at hlayout
        simp only [Bool.not_true, Bool.false_eq_true, if_false]
        refine h.set ?_ ((h.sock i).trans hact)
        rw [← hlayout]
        rfl
  | unbind i => exact h.set rfl rfl
  | fastPath on => exact h.of_same fun _ => SameLayout.refl _
  | fetch n => exact h
  | frame f now us => exact h.of_same (audioInput_layout now us f s.rx s.out.dac.jb)
  | socket i sip sport buf len now us => exact h.of_same (socketInput_layout now us i sip sport buf len s.rx s.out.dac.jb)
  | isr adv t => exact h
  | anchor m => exact h
  | gain level db => exact h
  | mute level on => exact h

theorem routes_at (P : Player) (l : List ReceiverEvent) (k : ℕ) :
    Routes (routed (l.take k)) ((⟨aoipRxStart, P⟩ : Receiver).at hz l k).rx :=
  run_induct (receiverStep hz) (P := fun l s => Routes (routed l) s.rx) (s := ⟨aoipRxStart, P⟩)
    ⟨fun _ => rfl, fun _ => rfl⟩
    (fun l e h => by
      rw [routed, List.foldl_append]
      exact routes_step h e) (l.take k)

def Receiver.brought (hz : ℕ) (s : Receiver) (e : ReceiverEvent) : Option (ℤ × Packet) :=
  (e.brings s.rx.fast).bind fun b => (s.rx.flows b.1).layout.bind fun y =>
    if y.Fits b.2.2 then some (b.2.1, y.packet hz b.2.2) else none

def Receiver.takes (hz : ℕ) (s : Receiver) (e : ReceiverEvent) : Option Written :=
  (s.brought hz e).bind fun q => s.out.accepts? hz (.dac (.write q.1 q.2))

/-- At `us` the estimate keeps up with the DMA and leaves the guard inside the lap. -/
def Player.KeptUp (hz : ℕ) (P : Player) (us : ℤ) : Prop :=
  elapsed hz us P.dac.jb ≤ LAP_SLACK ∧ P.pos ≤ dmaPosNow hz us P.dac.jb + AP_DMA_AHEAD_FRAMES

/-- The estimate keeps up where a packet comes in; an interrupt reports descriptors the DMA
has read to their end; and the DMA does not come round to a buffer before the interrupt
that has it zeroed. -/
def Receiver.InReach (hz : ℕ) (s : Receiver) : ReceiverEvent → Prop
  | .frame _ _ us => s.out.KeptUp hz us
  | .socket _ _ _ _ _ _ us => s.out.KeptUp hz us
  | .isr adv t => s.out.InReach hz (.dac (.isr adv t))
  | .fetch n => s.out.InReach hz (.fetch n)
  | _ => True

def Player.given (hz : ℕ) (P : Player) : Option (ℤ × Packet) → Player
  | none => P
  | some q => P.step hz (.dac (.write q.1 q.2))

theorem handlePacket_given (now : Option ℕ) (us : ℤ) (i : Fin AP_MAX_FLOWS) (buf : Mem) (len : ℕ) {rx : AoipRx} (P : Player)
    {y : FlowLayout} (hy : (rx.flows i).layout = some y) :
    P.withJb (handlePacket hz now us i buf len rx P.dac.jb).2 =
      P.given hz ((aoipAudioParse buf len).bind fun h => if y.Fits h then some (us, y.packet hz h) else none) := by
  have hact : (rx.flows i).active = true := by
    by_contra hno
    rw [RxFlow.layout, if_neg hno] at hy
    exact absurd hy (by simp)
  rw [RxFlow.layout, if_pos hact] at hy
  obtain rfl := Option.some_injective _ hy
  rcases handlePacket_eq hz now us i buf len rx P.dac.jb with ⟨h, hw, he⟩ | ⟨hw, st, he⟩
  · obtain ⟨hparse, hfits⟩ := Option.filter_eq_some_iff.1 hw
    rw [he, hparse, Option.bind_some, if_pos]
    · rfl
    · simp only [decide_eq_true_eq] at hfits
      exact ⟨fun h0 => hfits.1 (by simp only at h0; rw [h0]), hfits.2⟩
  · rw [he]
    cases hparse : aoipAudioParse buf len with
    | none => rfl
    | some h =>
      rw [wellFormed, hparse, Option.filter_some] at hw
      rw [Option.bind_some, if_neg]
      · rfl
      · rintro ⟨hne, hlen⟩
        rw [if_pos] at hw
        · exact absurd hw (by simp)
        · simp only [decide_eq_true_eq]
          exact ⟨by simp only at hne; omega, hlen⟩

theorem fastInput_given (now : Option ℕ) (us : ℤ) (r : AudioRef) (payload : Mem) (len : ℕ) {t : Fin AP_MAX_FLOWS → Option FlowLayout}
    {rx : AoipRx} (hrx : Routes t rx) (P : Player) :
    P.withJb (fastInput hz now us r payload len rx P.dac.jb).1.2 =
      P.given hz (if rx.fast then (flowOfPort r.dport).bind fun i => (aoipAudioParse payload len).bind fun h =>
        (rx.flows i).layout.bind fun y => if y.Fits h then some (us, y.packet hz h) else none else none) := by
  unfold fastInput
  cases hfast : rx.fast with
  | false => rfl
  | true =>
    cases flowOfPort r.dport with
    | none => rfl
    | some i =>
      simp only [Bool.not_true, Bool.false_eq_true, if_false, if_true, Option.bind_some]
      cases hact : (rx.flows i).active with
      | false =>
        have hnone : (rx.flows i).layout = none := by rw [RxFlow.layout, if_neg (by simp [hact])]
        rw [hnone]
        cases aoipAudioParse payload len <;> rfl
      | true =>
        have hsock : (rx.flows i).sock = true := (hrx.sock i).trans hact
        obtain ⟨y, hy⟩ : ∃ y, (rx.flows i).layout = some y := ⟨_, by rw [RxFlow.layout, if_pos hact]⟩
        have hy' : ((noteSource i r rx).flows i).layout = some y := ((noteSource_frame i r rx).2 i).1.layout.trans hy
        rw [hsock, hy]
        simp only [Bool.not_true, Bool.or_self, Bool.false_eq_true, if_false, Option.bind_some]
        exact handlePacket_given now us i payload len P hy'

theorem socketInput_given (now : Option ℕ) (us : ℤ) (i : Fin AP_MAX_FLOWS) (sip : List UInt8) (sport : ℕ) (buf : Mem)
    (len : ℕ) {t : Fin AP_MAX_FLOWS → Option FlowLayout} {rx : AoipRx} (hrx : Routes t rx) (P : Player) :
    P.withJb (socketInput hz now us i sip sport buf len rx P.dac.jb).2 =
      P.given hz (if len = 0 then none else (aoipAudioParse buf len).bind fun h =>
        (rx.flows i).layout.bind fun y => if y.Fits h then some (us, y.packet hz h) else none) := by
  unfold socketInput
  cases hact : (rx.flows i).active with
  | false =>
    have hnone : (rx.flows i).layout = none := by rw [RxFlow.layout, if_neg (by simp [hact])]
    simp only [hnone, Bool.not_false, Bool.true_or, if_true, Option.bind_none]
    by_cases hlen : len = 0
    · rw [if_pos hlen]
      rfl
    · rw [if_neg hlen]
      cases aoipAudioParse buf len <;> rfl
  | true =>
    have hsock : (rx.flows i).sock = true := (hrx.sock i).trans hact
    obtain ⟨y, hy⟩ : ∃ y, (rx.flows i).layout = some y := ⟨_, by rw [RxFlow.layout, if_pos hact]⟩
    rw [hsock, hy]
    by_cases hlen : len = 0
    · simp only [Bool.not_true, Bool.or_self, Bool.false_eq_true, if_false, if_pos hlen]
      rfl
    · simp only [Bool.not_true, Bool.or_self, Bool.false_eq_true, if_false, if_neg hlen, Option.bind_some]
      refine handlePacket_given now us i buf len P ?_
      split_ifs
      · exact (latched_frame i rx i).1.layout.trans hy
      · exact hy

theorem audioInput_given (now : Option ℕ) (us : ℤ) (f : Frame) {t : Fin AP_MAX_FLOWS → Option FlowLayout} {rx : AoipRx}
    (hrx : Routes t rx) (P : Player) :
    P.withJb (audioInput hz now us f rx P.dac.jb).1.2 =
      P.given hz ((isAudioFrame f AOIP_RX_AUDIO_PORT AP_MAX_FLOWS).bind fun r =>
        if rx.fast then (flowOfPort r.dport).bind fun i => (aoipAudioParse (fun k => f.mem (r.payload + k)) r.plen).bind fun h =>
          (rx.flows i).layout.bind fun y => if y.Fits h then some (us, y.packet hz h) else none else none) := by
  unfold audioInput
  cases isAudioFrame f AOIP_RX_AUDIO_PORT AP_MAX_FLOWS with
  | none => rfl
  | some r => exact fastInput_given now us r _ r.plen hrx P

theorem brought_frame (s : Receiver) (f : Frame) (now : Option ℕ) (us : ℤ) :
    s.brought hz (.frame f now us) = (isAudioFrame f AOIP_RX_AUDIO_PORT AP_MAX_FLOWS).bind fun r =>
      if s.rx.fast then (flowOfPort r.dport).bind fun i => (aoipAudioParse (fun k => f.mem (r.payload + k)) r.plen).bind fun h =>
        (s.rx.flows i).layout.bind fun y => if y.Fits h then some (us, y.packet hz h) else none else none := by
  simp only [Receiver.brought, ReceiverEvent.brings, Option.bind_eq_bind, Option.pure_def]
  cases s.rx.fast with
  | false => simp only [Bool.false_eq_true, if_false, Option.bind_none, Option.bind_fun_none]
  | true => simp only [if_true, Option.bind_assoc, Option.bind_some]

theorem frame_given {t : Fin AP_MAX_FLOWS → Option FlowLayout} {s : Receiver} (hrx : Routes t s.rx) (f : Frame)
    (now : Option ℕ) (us : ℤ) :
    (receiverStep hz s (.frame f now us)).out = s.out.given hz (s.brought hz (.frame f now us)) := by
  rw [brought_frame]
  exact audioInput_given now us f hrx s.out

theorem socket_given {t : Fin AP_MAX_FLOWS → Option FlowLayout} {s : Receiver} (hrx : Routes t s.rx) (i : Fin AP_MAX_FLOWS)
    (sip : List UInt8) (sport : ℕ) (buf : Mem) (len : ℕ) (now : Option ℕ) (us : ℤ) :
    (receiverStep hz s (.socket i sip sport buf len now us)).out =
      s.out.given hz (s.brought hz (.socket i sip sport buf len now us)) := by
  simp only [receiverStep, Receiver.ingest, Receiver.brought, ReceiverEvent.brings]
  rw [socketInput_given now us i sip sport buf len hrx]
  split_ifs
  · rfl
  · rw [Option.bind_map]
    rfl

/-- What an event brings, it brings for the flow, the time and the layout of the moment. -/
theorem brought_eq_some_iff {s : Receiver} {e : ReceiverEvent} {q : ℤ × Packet} :
    s.brought hz e = some q ↔
      ∃ i us h y, e.brings s.rx.fast = some (i, us, h) ∧ (s.rx.flows i).layout = some y ∧ y.Fits h ∧ q = (us, y.packet hz h) := by
  simp only [Receiver.brought, Option.bind_eq_some_iff]
  constructor
  · rintro ⟨⟨i, us, h⟩, hb, y, hy, hq⟩
    split_ifs at hq with hfits
    exact ⟨i, us, h, y, hb, hy, hfits, (Option.some_injective _ hq).symm⟩
  · rintro ⟨i, us, h, y, hb, hy, hfits, rfl⟩
    exact ⟨(i, us, h), hb, y, hy, if_pos hfits⟩

theorem brings_frame {fast : Bool} {f : Frame} {now : Option ℕ} {us : ℤ} {b : Fin AP_MAX_FLOWS × ℤ × AudioHdr}
    (h : (ReceiverEvent.frame f now us).brings fast = some b) : b.2.1 = us := by
  simp only [ReceiverEvent.brings] at h
  split_ifs at h
  simp only [Option.bind_eq_bind, Option.bind_eq_some_iff, Option.pure_def, Option.some.injEq] at h
  obtain ⟨r, -, i, -, hdr, -, rfl⟩ := h
  rfl

theorem brings_socket {fast : Bool} {i : Fin AP_MAX_FLOWS} {sip : List UInt8} {sport : ℕ} {buf : Mem} {len : ℕ}
    {now : Option ℕ} {us : ℤ} {b : Fin AP_MAX_FLOWS × ℤ × AudioHdr}
    (h : (ReceiverEvent.socket i sip sport buf len now us).brings fast = some b) : b.2.1 = us := by
  simp only [ReceiverEvent.brings] at h
  split_ifs at h
  obtain ⟨hdr, -, rfl⟩ := Option.map_eq_some_iff.1 h
  rfl

theorem follows_receiver {P0 : Player} {hist : List Written} {t : Fin AP_MAX_FLOWS → Option FlowLayout} {s : Receiver}
    (hrx : Routes t s.rx) (h : Follows P0 hist s.out) {e : ReceiverEvent} (hr : s.InReach hz e) (hno : ∀ m, e ≠ .anchor m) :
    Follows P0 (hist ++ (s.takes hz e).toList) (receiverStep hz s e).out := by
  have hgiven : ∀ o : Option (ℤ × Packet), (∀ q ∈ o, s.out.KeptUp hz q.1) →
      Follows P0 (hist ++ (o.bind fun q => s.out.accepts? hz (.dac (.write q.1 q.2))).toList) (s.out.given hz o) := by
    intro o ho
    cases o with
    | none =>
      rw [Option.bind_none, Option.toList_none, List.append_nil]
      exact h
    | some q => exact follows_step (e := .dac (.write q.1 q.2)) h (ho q rfl)
  have hquiet : s.takes hz e = none → Follows P0 hist (receiverStep hz s e).out →
      Follows P0 (hist ++ (s.takes hz e).toList) (receiverStep hz s e).out := by
    intro hnone hf
    rw [hnone, Option.toList_none, List.append_nil]
    exact hf
  have hown : ∀ e' : PlayerEvent, s.out.InReach hz e' → s.out.accepts? hz e' = none → Follows P0 hist (s.out.step hz e') := by
    intro e' hr' hnone
    have hstep := follows_step h hr'
    rwa [hnone, Option.toList_none, List.append_nil] at hstep
  cases e with
  | bind i nslots map fpp ok => exact hquiet rfl h
  | remap i nslots map => exact hquiet rfl h
  | unbind i => exact hquiet rfl h
  | fastPath on => exact hquiet rfl h
  | anchor m => exact absurd rfl (hno m)
  | fetch n => exact hquiet rfl (hown (.fetch n) hr rfl)
  | isr adv t => exact hquiet rfl (hown (.dac (.isr adv t)) hr rfl)
  | gain level db => exact hquiet rfl (hown (.dac (.gain level db)) trivial rfl)
  | mute level on => exact hquiet rfl (hown (.dac (.mute level on)) trivial rfl)
  | frame f now us =>
    rw [frame_given hrx]
    exact hgiven _ fun q hq => by
      obtain ⟨i, us', h, y, hb, -, -, rfl⟩ := brought_eq_some_iff.1 hq
      exact brings_frame hb ▸ hr
  | socket i sip sport buf len now us =>
    rw [socket_given hrx]
    exact hgiven _ fun q hq => by
      obtain ⟨i', us', h, y, hb, -, -, rfl⟩ := brought_eq_some_iff.1 hq
      exact brings_socket hb ▸ hr

theorem playing_given {P : Player} (hp : Playing P) (o : Option (ℤ × Packet)) : Playing (P.given hz o) := by
  cases o with
  | none => exact hp
  | some q =>
    obtain ⟨mem, log, head, st, he⟩ := jbWrite_frame hz q.1 q.2 P.dac.jb
    simp only [Player.given, Player.step, Dac.step, he]
    exact hp.of_eq ⟨rfl, rfl, rfl, rfl⟩ rfl rfl rfl rfl

theorem playing_receiver {t : Fin AP_MAX_FLOWS → Option FlowLayout} {s : Receiver} (hrx : Routes t s.rx)
    (hp : Playing s.out) {e : ReceiverEvent} (hr : s.InReach hz e) : Playing (receiverStep hz s e).out := by
  cases e with
  | bind i nslots map fpp ok => exact hp
  | remap i nslots map => exact hp
  | unbind i => exact hp
  | fastPath on => exact hp
  | frame f now us =>
    rw [frame_given hrx]
    exact playing_given hp _
  | socket i sip sport buf len now us =>
    rw [socket_given hrx]
    exact playing_given hp _
  | fetch n => exact hp.fetch hr
  | isr adv t => exact hp.finish hr.1 hr.2 t
  | anchor m => exact (follows_anchor hz hp m).playing
  | gain level db =>
    have hset : Playing (s.out.withJb (jbSetGainDb level db s.out.dac.jb)) := hp.of_eq ⟨rfl, rfl, rfl, rfl⟩ rfl rfl rfl rfl
    exact hset
  | mute level on =>
    have hset : Playing (s.out.withJb (jbSetMute level on s.out.dac.jb)) := hp.of_eq ⟨rfl, rfl, rfl, rfl⟩ rfl rfl rfl rfl
    exact hset

/-- Event `j` of a run from boot brings a packet of a routed flow's own layout, the ring takes
it, and its frame for index `a` has a wire slot that the route sends to output `c`: the
sample, at the gain of the moment, is `v`. -/
def Sounds (hz : ℕ) (P : Player) (l : List ReceiverEvent) (j : ℕ) (a : ℤ) (c : Fin AP_NCH) (v : ℤ) : Prop :=
  ∃ (hj : j < l.length) (i : Fin AP_MAX_FLOWS) (us : ℤ) (h : AudioHdr) (y : FlowLayout) (w : ℕ),
    l[j].brings ((⟨aoipRxStart, P⟩ : Receiver).at hz l j).rx.fast = some (i, us, h) ∧
      routed (l.take j) i = some y ∧ y.Fits h ∧
      (jbWrite hz us (y.packet hz h) ((⟨aoipRxStart, P⟩ : Receiver).at hz l j).out.dac.jb).2 = true ∧
      (y.packet hz h).Lands (readHead hz us ((⟨aoipRxStart, P⟩ : Receiver).at hz l j).out.dac.jb) a ∧
      (y.packet hz h).Feeds w c ∧
      v = scaledWord ((⟨aoipRxStart, P⟩ : Receiver).at hz l j).out.dac.jb.gainQ16 ((y.packet hz h).sample a w)

/-- Between the anchoring at `t` and event `k`, `v` is what came last for index `a` of
output `c`, and silence where nothing did. -/
def LastSound (hz : ℕ) (P : Player) (l : List ReceiverEvent) (t k : ℕ) (a : ℤ) (c : Fin AP_NCH) (v : ℤ) : Prop :=
  (∃ j, t < j ∧ j < k ∧ Sounds hz P l j a c v ∧ ∀ j', j < j' → j' < k → ∀ v', ¬Sounds hz P l j' a c v') ∨
    v = 0 ∧ ∀ j, t < j → j < k → ∀ v', ¬Sounds hz P l j a c v'

theorem accepts_sampleAt {P : Player} {us : ℤ} {p : Packet} {a : ℤ} {c : Fin AP_NCH} {v : ℤ} :
    ((P.accepts? hz (.dac (.write us p))).bind fun w => w.sampleAt a c) = some v ↔
      (jbWrite hz us p P.dac.jb).2 = true ∧ p.Lands (readHead hz us P.dac.jb) a ∧
        ∃ w, p.Feeds w c ∧ v = scaledWord P.dac.jb.gainQ16 (p.sample a w) := by
  simp only [Player.accepts?, accepts?, jbWrite]
  rcases jbWriteBegin_cases hz us p P.dac.jb with ⟨st, he⟩ | ⟨sn, he, ha⟩
  · simp [he]
  · have hread : sn.readA = readHead hz us P.dac.jb := ha.readA
    rw [he, Option.map_some, Option.bind_some, Written.sampleAt, Packet.sampleAt_eq_some_iff, hread]
    simp only [true_and, eq_comm]

theorem takes_iff (P : Player) (l : List ReceiverEvent) {j : ℕ} (hj : j < l.length) {a : ℤ} {c : Fin AP_NCH} {v : ℤ} :
    ((((⟨aoipRxStart, P⟩ : Receiver).at hz l j).takes hz l[j]).bind fun w => w.sampleAt a c) = some v ↔
      Sounds hz P l j a c v := by
  have hroutes : Routes _ ((⟨aoipRxStart, P⟩ : Receiver).at hz l j).rx := routes_at P l j
  rw [Receiver.takes, Option.bind_assoc, Option.bind_eq_some_iff]
  simp only [accepts_sampleAt, brought_eq_some_iff, hroutes.layout]
  constructor
  · rintro ⟨q, ⟨i, us, h, y, hb, hy, hfits, rfl⟩, htaken, hlands, w, hfeeds, hv⟩
    exact ⟨hj, i, us, h, y, w, hb, hy, hfits, htaken, hlands, hfeeds, hv⟩
  · rintro ⟨_, i, us, h, y, w, hb, hy, hfits, htaken, hlands, hfeeds, hv⟩
    exact ⟨(us, y.packet hz h), ⟨i, us, h, y, hb, hy, hfits, rfl⟩, htaken, hlands, w, hfeeds, hv⟩

theorem lastSound_step {P : Player} {l : List ReceiverEvent} {t k : ℕ} (htk : t < k) (hk : k < l.length) {a : ℤ}
    {c : Fin AP_NCH} {v : ℤ} (h : LastSound hz P l t k a c v) :
    LastSound hz P l t (k + 1) a c
      (((((⟨aoipRxStart, P⟩ : Receiver).at hz l k).takes hz l[k]).bind fun w => w.sampleAt a c).getD v) := by
  cases hw : (((⟨aoipRxStart, P⟩ : Receiver).at hz l k).takes hz l[k]).bind fun w => w.sampleAt a c with
  | some v' =>
    exact Or.inl ⟨k, htk, Nat.lt_succ_self k, (takes_iff P l hk).1 hw, fun j' h1 h2 => by omega⟩
  | none =>
    have hquiet : ∀ v', ¬Sounds hz P l k a c v' := fun v' hs => by
      rw [(takes_iff P l hk).2 hs] at hw
      exact absurd hw (by simp)
    rcases h with ⟨j, htj, hjk, hs, hlast⟩ | ⟨hv, hnone⟩
    · refine Or.inl ⟨j, htj, hjk.trans (Nat.lt_succ_self k), hs, fun j' h1 h2 => ?_⟩
      rcases Nat.lt_succ_iff_lt_or_eq.1 h2 with h2 | rfl
      · exact hlast j' h1 h2
      · exact hquiet
    · refine Or.inr ⟨hv, fun j h1 h2 => ?_⟩
      rcases Nat.lt_succ_iff_lt_or_eq.1 h2 with h2 | rfl
      · exact hnone j h1 h2
      · exact hquiet

theorem playing_at {P : Player} (hp : Playing P) {l : List ReceiverEvent}
    (hr : ∀ k (hk : k < l.length), ((⟨aoipRxStart, P⟩ : Receiver).at hz l k).InReach hz l[k]) {k : ℕ} (hk : k ≤ l.length) :
    Playing ((⟨aoipRxStart, P⟩ : Receiver).at hz l k).out := by
  induction k with
  | zero => exact hp
  | succ k ih =>
    have hlt : k < l.length := hk
    rw [Receiver.at, before_succ _ _ _ hlt]
    exact playing_receiver (routes_at P l k) (ih hlt.le) (hr k hlt)

theorem follows_since {P : Player} (hp : Playing P) {l : List ReceiverEvent}
    (hr : ∀ k (hk : k < l.length), ((⟨aoipRxStart, P⟩ : Receiver).at hz l k).InReach hz l[k]) {t : ℕ} (ht : t < l.length)
    {m : Anchoring} (hm : l[t] = .anchor m) {k : ℕ} (htk : t < k) (hk : k ≤ l.length)
    (hno : ∀ j (hj : j < l.length), t < j → j < k → ∀ m, l[j] ≠ .anchor m) :
    ∃ hist, Follows ((⟨aoipRxStart, P⟩ : Receiver).at hz l (t + 1)).out hist ((⟨aoipRxStart, P⟩ : Receiver).at hz l k).out ∧
      ∀ a c, LastSound hz P l t k a c (heard hist a c) := by
  induction k, htk using Nat.le_induction with
  | base =>
    refine ⟨[], ?_, fun a c => Or.inr ⟨heard_nil a c, fun j h1 h2 => by omega⟩⟩
    rw [Receiver.at, before_succ _ _ _ ht, hm]
    exact follows_anchor hz (playing_at hp hr ht.le) m
  | succ k htk ih =>
    have hlt : k < l.length := hk
    obtain ⟨hist, hf, hlast⟩ := ih hlt.le fun j hj h1 h2 => hno j hj h1 (h2.trans (Nat.lt_succ_self k))
    have hstep := follows_receiver (routes_at P l k) hf (hr k hlt) (hno k hlt htk (Nat.lt_succ_self k))
    refine ⟨hist ++ (((⟨aoipRxStart, P⟩ : Receiver).at hz l k).takes hz l[k]).toList, ?_, fun a c => ?_⟩
    · have hat : (⟨aoipRxStart, P⟩ : Receiver).at hz l (k + 1) = _ := before_succ _ _ _ hlt
      rw [hat]
      exact hstep
    · have hsound := lastSound_step htk hlt (hlast a c)
      cases htakes : ((⟨aoipRxStart, P⟩ : Receiver).at hz l k).takes hz l[k] with
      | none =>
        rw [htakes] at hsound
        simpa using hsound
      | some w =>
        rw [htakes] at hsound
        simpa using hsound

/-- In any run from boot over a learned ring, of calls that do not overlap, DMA reads and
interrupts however late: the word the DMA plays in a slot is the last sample that came,
since the last anchoring, for the slot's index through a route to that output, or silence
where none came; as long as the estimate keeps up with the DMA where packets come in. -/
theorem outputs_play_their_patch {P : Player} (hp : Playing P) {l : List ReceiverEvent}
    (hr : ∀ k (hk : k < l.length), ((⟨aoipRxStart, P⟩ : Receiver).at hz l k).InReach hz l[k]) {t : ℕ} (ht : t < l.length)
    {m : Anchoring} (hm : l[t] = .anchor m) {k : ℕ} (htk : t < k) (hk : k ≤ l.length)
    (hno : ∀ j (hj : j < l.length), t < j → j < k → ∀ m, l[j] ≠ .anchor m) {s : ℤ} (c : Fin AP_NCH)
    (h1 : ((⟨aoipRxStart, P⟩ : Receiver).at hz l t).out.pos ≤ s)
    (h2 : s < ((⟨aoipRxStart, P⟩ : Receiver).at hz l k).out.pos) :
    LastSound hz P l t k (s - ((⟨aoipRxStart, P⟩ : Receiver).at hz l (t + 1)).out.dac.jb.off) c
      (((⟨aoipRxStart, P⟩ : Receiver).at hz l k).out.played s c) := by
  obtain ⟨hist, hf, hlast⟩ := follows_since hp hr ht hm htk hk hno
  have hpos : ((⟨aoipRxStart, P⟩ : Receiver).at hz l (t + 1)).out.pos =
      ((⟨aoipRxStart, P⟩ : Receiver).at hz l t).out.pos := by
    rw [Receiver.at, before_succ _ _ _ ht, hm]
    rfl
  rw [hf.played s c (by rwa [hpos]) h2]
  exact hlast _ c

instance (hz : ℕ) (P : Player) (us : ℤ) : Decidable (P.KeptUp hz us) := inferInstanceAs (Decidable (_ ∧ _))

instance (hz : ℕ) (s : Receiver) : (e : ReceiverEvent) → Decidable (s.InReach hz e)
  | .frame _ _ us => inferInstanceAs (Decidable (s.out.KeptUp hz us))
  | .socket _ _ _ _ _ _ us => inferInstanceAs (Decidable (s.out.KeptUp hz us))
  | .isr adv t => inferInstanceAs (Decidable (s.out.InReach hz (.dac (.isr adv t))))
  | .fetch n => inferInstanceAs (Decidable (s.out.InReach hz (.fetch n)))
  | .bind .. => isTrue trivial
  | .remap .. => isTrue trivial
  | .unbind _ => isTrue trivial
  | .fastPath _ => isTrue trivial
  | .anchor _ => isTrue trivial
  | .gain .. => isTrue trivial
  | .mute .. => isTrue trivial

/-- Flow 0 is bound with its two slots on outputs 2 and 5, and a packet of two frames comes
in for indices 4207 and 4208, on both sides of a buffer's end. -/
def patchedPair : List ReceiverEvent :=
  [.bind 0 2 (fun k => [2, 5].getD k (-1)) 2 true, .anchor (.reset 0 4088),
    .socket 0 [192, 168, 1, 20] 4321
      (memOf [0x02, 0, 0, 0, 0, 0, 0, 0x10, 0x6F, 1, 2, 3, 4, 5, 6, 7, 8, 9, 10, 11, 12]) 21 none 0,
    .fetch 100, .isr 6 2000, .fetch 20]

theorem outputs_play_their_patch_pair :
    ((⟨aoipRxStart, contiguousPlayer 4 256⟩ : Receiver).at 48000 patchedPair 6).out.played 4207 2 = 0x01020300 ∧
      ((⟨aoipRxStart, contiguousPlayer 4 256⟩ : Receiver).at 48000 patchedPair 6).out.played 4208 5 = 0x0A0B0C00 ∧
      LastSound 48000 (contiguousPlayer 4 256) patchedPair 1 6
        (4208 - ((⟨aoipRxStart, contiguousPlayer 4 256⟩ : Receiver).at 48000 patchedPair 2).out.dac.jb.off) 5
        (((⟨aoipRxStart, contiguousPlayer 4 256⟩ : Receiver).at 48000 patchedPair 6).out.played 4208 5) := by
  refine ⟨by decide +kernel, by decide +kernel, outputs_play_their_patch (playing_contiguous 4 256 (by decide))
    (by decide +kernel) (m := .reset 0 4088) (by decide) rfl (by decide) le_rfl ?_ 5 (by decide +kernel) (by decide +kernel)⟩
  intro j hj h1 h2 m
  have h6 : j < 6 := h2
  interval_cases j <;> exact fun h => by simp [patchedPair] at h

end Inferno
