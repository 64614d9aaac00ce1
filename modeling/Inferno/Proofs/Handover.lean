import Inferno.Proofs.NamedFlows

/-! Make before break. Where a transmitter accepts the request that is to replace its
flow, the old flow is not touched before the new one has received a packet, or has been
silent through the hundred polls of the wait. The wait is bounded, so a silent flow
replaces one that plays. -/

namespace Inferno

open Lib

variable {prof : RateProfile} {o : Outcomes} {s v : Sub} {snap : Fin AP_NCH → RxChannel} {i j r : Fin AP_MAX_FLOWS}
  {w : Want} {k : ℕ}

/-- Flow `i` is bound in the receiver and feeds a channel from a transmitter. -/
def FeedsFrom (m : Sub) (i : Fin AP_MAX_FLOWS) (d : CStr) (c : Fin AP_NCH) : Prop :=
  (m.flow i).state = .active ∧ (m.flow i).device = d ∧ (m.rx i).active = true ∧
    ∃ p < (m.rx i).nslots, (m.rx i).slotToCh p = (c : ℕ)

/-- Flow `i` has received a packet, or the counter has read zero at all hundred polls. -/
def Heard (o : Outcomes) (k : ℕ) (m : Sub) (i : Fin AP_MAX_FLOWS) : Prop :=
  (m.rx i).packets ≠ 0 ∨ ∀ t < 100, o.packets k t = 0

theorem SlotOk.feeds {m : Sub} (h : SlotOk (m.flow i) (m.rx i)) (hnamed : (m.flow i).device ≠ []) {c : Fin AP_NCH}
    (hc : c ∈ (m.flow i).slotToCh) : FeedsFrom m i (m.flow i).device c := by
  have hactive := h.device.2 hnamed
  obtain ⟨hn, hmap⟩ := h.bound hactive
  obtain ⟨p, hp, hpc⟩ := List.getElem_of_mem hc
  refine ⟨hactive, rfl, h.rx.2 hactive, p, by rw [hn]; exact hp, ?_⟩
  rw [hmap, slotMap, List.getElem?_eq_getElem hp, hpc]
  rfl

/-- The wait ends with a packet, or after a hundred polls that found none. -/
theorem awaitPackets_heard (p : ℕ → ℕ) : awaitPackets p ≠ 0 ∨ ∀ t < 100, p t = 0 := by
  unfold awaitPackets
  cases hfind : (List.range 100).find? fun t => p t ≠ 0 with
  | none =>
    refine Or.inr fun t ht => ?_
    have hnone := List.find?_eq_none.1 hfind t (List.mem_range.2 ht)
    simpa using hnone
  | some t =>
    have hsome := List.find?_some hfind
    exact Or.inl (by simpa using hsome)

/-- Slot `i` holds the flow that the want asks for, and it has been heard. -/
structure TakenOver (o : Outcomes) (k : ℕ) (w : Want) (m : Sub) (i : Fin AP_MAX_FLOWS) : Prop where
  device : (m.flow i).device = w.device
  slots : (m.flow i).slotToCh = w.slotToCh
  ok : SlotOk (m.flow i) (m.rx i)
  heard : Heard o k m i

theorem TakenOver.of_untouched {m : Sub} (h : TakenOver o k w v i) (hself : Untouched i v m) : TakenOver o k w m i := by
  refine ⟨?_, ?_, ?_, ?_⟩
  · rw [hself.flow]
    exact h.device
  · rw [hself.flow]
    exact h.slots
  · rw [hself.flow, hself.rx]
    exact h.ok
  · rw [Heard, hself.rx]
    exact h.heard

/-- While an accepted replacement is waited for the old flow is untouched, and after the
wait the new one has taken over. -/
theorem flowUpMoments_handover (hw : WantOk w) (hri : r ≠ i) {port : ℕ} {handle : List UInt8} {x : RxFlow}
    (hx : x.active = true ∧ x.nslots = w.slotToCh.length ∧ x.slotToCh = slotMap w.slotToCh) {a : Sub} (ha : a.rx i = x)
    (hself : Untouched r v a) :
    ∀ m ∈ flowUpMoments o snap k i (w.asked i port) (some r) handle a,
      Untouched r v m ∨ TakenOver o k w m i := by
  intro m hm
  set g : FlowSlot := w.upSlot i port handle (o.now k) with hg
  set up : Sub := { a.setFlow i g with st := { a.st with requestsOk := u32 (a.st.requestsOk + 1) } } with hupdef
  have hup : Untouched r v up := (hself.setFlow hri g).same rfl rfl rfl
  set heard : Sub := up.setRx i { up.rx i with packets := awaitPackets (o.packets k) } with hheard
  have hflow : heard.flow i = g := Function.update_self _ _ _
  have hrx : heard.rx i = { x with packets := awaitPackets (o.packets k) } := by
    have hxi : up.rx i = x := ha
    rw [hheard, Sub.setRx, hxi]
    exact Function.update_self _ _ _
  have htaken : TakenOver o k w heard i := by
    refine ⟨?_, ?_, ?_, ?_⟩
    · rw [hflow]
      exact List.take_of_length_le hw.short
    · rw [hflow]
      rfl
    · rw [hflow, hrx]
      exact hw.slotOk rfl rfl rfl rfl hx.1 hx.2.1 hx.2.2
    · rw [Heard, hrx]
      exact awaitPackets_heard (o.packets k)
  have hm : m ∈ up :: awaitMoments (o.packets k) i up ++ tearDownMoments r heard ++
      [activateSlots snap g (tearDown r heard)] := hm
  simp only [List.mem_append, List.mem_cons, List.not_mem_nil, or_false] at hm
  rcases hm with ((rfl | hm) | hm) | rfl
  · exact Or.inl hup
  · exact Or.inl (hup.awaitMoments hri _ m hm)
  · exact Or.inr (htaken.of_untouched ((Untouched.refl i heard).tearDownMoments hri.symm m hm))
  · exact Or.inr (htaken.of_untouched (((Untouched.refl i heard).tearDown hri.symm).setStatuses _ _))

theorem requestMoments_handover (hw : WantOk w) (hr : w.replaces = some r) (hne : freeSlot v ≠ some r) {handle : List UInt8}
    (hrequest : o.request k false = some handle) :
    ∀ m ∈ requestMoments o snap v (w, k), Untouched r v m ∨ ∃ i, TakenOver o k w m i := by
  intro m hm
  obtain ⟨i, hfree, hcases⟩ := mem_requestMoments hm
  have hri : r ≠ i := fun hri => hne (by rw [hri]; exact hfree)
  rcases hcases with hfirst | ⟨x, port, handle', hb, -, hup⟩ | ⟨hrefused, -⟩
  · exact Or.inl (hfirst r hri)
  · have hx := aoipRxBindFlow_some hw hb
    have hout : (w.out i x port v).rx i = x := Function.update_self _ _ _
    rw [hr] at hup
    have hself := (Untouched.refl r v).out hri w x port
    exact (flowUpMoments_handover hw hri hx hout hself m hup).imp_right fun h => ⟨i, h⟩
  · rw [hrequest] at hrefused
    cases hrefused

theorem handover (hs : NamedInv s) (hnamed : (s.flow r).device ≠ []) (hk : k < (wantAll prof o s).want.length)
    (hd : (wantAll prof o s).want[k].device = (s.flow r).device) (haccepted : (o.request k false).isSome = true) :
    ∀ m ∈ rebuildMoments prof o s, Untouched r s m ∨ ∃ i, TakenOver o k (wantAll prof o s).want[k] m i := by
  have hlive : s.live r = true := live_iff.2 ⟨hnamed, (hs.slot r hnamed).device.2 hnamed⟩
  have hkept := not_retired hlive (List.getElem_mem hk) hd
  have hk' : k < (reconciledTable prof o s).2.length := by simpa [marked_wants hs.one] using hk
  obtain ⟨_, hget⟩ := marked_getElem hs.one hk'
  set x := (reconciledTable prof o s).2[k] with hx
  have hdx : x.device = (s.flow r).device := by rw [hget, Want.markedIn, flagOn_device, hd]
  have hslots : x.slotToCh = (wantAll prof o s).want[k].slotToCh := by rw [hget, Want.markedIn, flagOn_slotToCh]
  have hw : WantOk x := marked_wantOk hs.one hs.names x (List.getElem_mem hk') (hdx ▸ hnamed)
  have htaken : ∀ m i, TakenOver o k x m i → TakenOver o k (wantAll prof o s).want[k] m i :=
    fun m i h => ⟨h.device.trans (hdx.trans hd.symm), h.slots.trans hslots, h.ok, h.heard⟩
  obtain ⟨hself, huntil⟩ := untouched_until hs.one hk' hlive hdx
  obtain ⟨handle, hrequest⟩ := Option.isSome_iff_exists.1 haccepted
  -- within the turn, and so at its end
  have hturn : ∀ m ∈ requestMoments o s.ch (rebuildTurn prof o s k) (x, k),
      Untouched r s m ∨ ∃ i, TakenOver o k x m i := by
    by_cases hsame : sameSlots (s.flow r) (wantAll prof o s).want[k] = true
    · have hdone : x.done = true := by rw [hget, marked_live hs.one hlive hd, if_pos hsame]
      rw [(turn_of_done hk' hdone).1]
      simp
    · have hr : x.replaces = some r := by rw [hget, marked_live hs.one hlive hd, if_neg hsame]
      have hne : freeSlot (rebuildTurn prof o s k) ≠ some r := by
        apply freeSlot_ne_named
        rwa [hself.flow]
      intro m hm
      exact (requestMoments_handover hw hr hne hrequest m hm).imp_left hself.trans
  have hend : Untouched r s (rebuildTurn prof o s (k + 1)) ∨ ∃ i, TakenOver o k x (rebuildTurn prof o s (k + 1)) i := by
    have hlast := holds_last (P := fun m => Untouched r s m ∨ ∃ i, TakenOver o k x m i) (Or.inl hself) hturn
    rw [requestMoments_last] at hlast
    rwa [rebuildTurn, atTurn_succ hk']
  intro m hm
  rcases mem_rebuildMoments hs.one hm with hm | ⟨n, hn, hm⟩
  · exact Or.inl (hm r hkept)
  rcases lt_trichotomy n k with hnk | rfl | hkn
  · exact Or.inl (huntil n hn hnk m hm)
  · rcases hturn m hm with hold | ⟨i, hnew⟩
    · exact Or.inl hold
    · exact Or.inr ⟨i, htaken m i hnew⟩
  · rcases hend with hold | ⟨i, hnew⟩
    · have hsince := untouched_since hs.one hk' hw.named (by rw [hold.flow, hdx])
      exact Or.inl (hold.trans (hsince.2 n hn hkn m hm))
    · have hsince := untouched_since hs.one hk' hw.named hnew.device
      exact Or.inr ⟨i, htaken m i (hnew.of_untouched (hsince.2 n hn hkn m hm))⟩

/-- In every rebuild that a run comes to, a transmitter that accepts the overlapping
request feeds, in every state, the channels of its old flow from that flow, untouched, or
those of the new list from a flow that has been heard. -/
theorem make_before_break {l : List TaskEvent} (hs : s = { l.foldl (taskStep prof) Sub.boot with dirty := false })
    (hnamed : (s.flow r).device ≠ []) (hk : k < (wantAll prof o s).want.length)
    (hd : (wantAll prof o s).want[k].device = (s.flow r).device) (haccepted : (o.request k false).isSome = true) :
    ∀ m ∈ rebuildMoments prof o s,
      (Untouched r s m ∧ ∀ c ∈ (s.flow r).slotToCh, FeedsFrom m r (s.flow r).device c) ∨
        ∃ i, Heard o k m i ∧ ∀ c ∈ (wantAll prof o s).want[k].slotToCh, FeedsFrom m i (s.flow r).device c := by
  have hrun : NamedInv (l.foldl (taskStep prof) Sub.boot) := namedInv_run l
  have hinv : NamedInv s := by
    rw [hs]
    exact hrun.same rfl rfl hrun.names
  intro m hm
  rcases handover hinv hnamed hk hd haccepted m hm with hself | ⟨i, htaken⟩
  · refine Or.inl ⟨hself, fun c hc => ?_⟩
    have hslot : SlotOk (m.flow r) (m.rx r) := by
      rw [hself.flow, hself.rx]
      exact hinv.slot r hnamed
    rw [← hself.flow] at hnamed hc ⊢
    exact hslot.feeds hnamed hc
  · refine Or.inr ⟨i, htaken.heard, fun c hc => ?_⟩
    have hdevice : (m.flow i).device = (s.flow r).device := htaken.device.trans hd
    rw [← htaken.slots] at hc
    rw [← hdevice] at hnamed ⊢
    exact htaken.ok.feeds hnamed hc

/-- A transmitter feeds one channel, and is patched to a second. -/
def secondChannel : List TaskEvent :=
  [.step (.set 0 [1] [65]), .step (.check allSucceed 0 0), .step (.set 1 [2] [65])]

/-- The first channel is fed in every state. -/
theorem make_before_break_second_channel :
    let s := { secondChannel.foldl (taskStep rate48k) Sub.boot with dirty := false }
    ∀ m ∈ rebuildMoments rate48k allSucceed s,
      (Untouched 0 s m ∧ FeedsFrom m 0 (s.flow 0).device 0) ∨
        ∃ i, Heard allSucceed 0 m i ∧ FeedsFrom m i (s.flow 0).device 0 := by
  intro s m hm
  have hs : s = { secondChannel.foldl (taskStep rate48k) Sub.boot with dirty := false } := rfl
  have h := make_before_break (o := allSucceed) (r := 0) (k := 0) hs (by decide +kernel) (by decide +kernel)
    (by decide +kernel) rfl m hm
  rcases h with ⟨hself, hold⟩ | ⟨i, hheard, hnew⟩
  · exact Or.inl ⟨hself, hold 0 (by decide +kernel)⟩
  · exact Or.inr ⟨i, hheard, hnew 0 (by decide +kernel)⟩

def silent : Outcomes := { allSucceed with packets := fun _ _ => 0 }

/-- The request that is to replace the flow is accepted at once, the new flow stays
silent, and the old one is stopped all the same: no flow that is left has received
anything. -/
theorem silent_flow_takes_over :
    let s := { secondChannel.foldl (taskStep rate48k) Sub.boot with dirty := false }
    (∃ w ∈ (wantAll rate48k silent s).want, w.device = (s.flow 0).device ∧ 0 ∈ w.slotToCh) ∧
      (s.flow 0).state = .active ∧ 0 ∈ (s.flow 0).slotToCh ∧ (silent.request 0 false).isSome = true ∧
      ∃ m ∈ rebuildMoments rate48k silent s, .stop 0 (s.flow 0).req ∈ m.log ∧
        ∀ i, (m.rx i).active = true → (m.rx i).packets = 0 := by
  decide +kernel

end Inferno
