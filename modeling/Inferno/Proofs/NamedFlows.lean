import Inferno.Proofs.TableRuns
import Inferno.Proofs.Undisturbed

/-! The slots with a transmitter's name, in every run: whatever resolves, each of them is
in order, and no two have the same name. A subscription without a name that resolves can
upset only slots without one. -/

namespace Inferno

open Lib

variable {prof : RateProfile} {o : Outcomes} {s u v : Sub} {snap : Fin AP_NCH → RxChannel} {i j : Fin AP_MAX_FLOWS}
  {w : Want} {k : ℕ}

theorem flowUp_flow_self {replaces : Option (Fin AP_MAX_FLOWS)} (hr : replaces ≠ some i) (f : FlowSlot) (handle : List UInt8) :
    (flowUp o snap k i f replaces handle v).flow i = { f with
      state := .active, handle := handle, lastPackets := 0, nextActionUs := o.now k + KEEPALIVE_MS * 1000 } := by
  unfold flowUp activateSlots
  rw [setStatuses_flow]
  cases replaces with
  | none => exact Function.update_self _ _ _
  | some r =>
    have hir : i ≠ r := fun h => hr (by rw [h])
    dsimp only
    rw [tearDown_flow, Function.update_of_ne hir]
    exact Function.update_self _ _ _

theorem flowUp_rx_self {replaces : Option (Fin AP_MAX_FLOWS)} (hr : replaces ≠ some i) (f : FlowSlot) (handle : List UInt8) :
    ∃ n, (flowUp o snap k i f replaces handle v).rx i = { v.rx i with packets := n } := by
  unfold flowUp activateSlots
  rw [setStatuses_rx]
  cases replaces with
  | none => exact ⟨(v.rx i).packets, rfl⟩
  | some r =>
    have hir : i ≠ r := fun h => hr (by rw [h])
    dsimp only
    rw [tearDown_rx_of_ne hir]
    exact ⟨awaitPackets (o.packets k), Function.update_self _ _ _⟩

theorem flowUp_flow_replaced (r : Fin AP_MAX_FLOWS) (f : FlowSlot) (handle : List UInt8) :
    (flowUp o snap k i f (some r) handle v).flow r = FlowSlot.zero := by
  unfold flowUp activateSlots
  rw [setStatuses_flow]
  dsimp only
  rw [tearDown_flow, Function.update_self]

theorem Untouched.flowUp (h : Untouched j s u) (hj : j ≠ i) (f : FlowSlot) (handle : List UInt8) :
    Untouched j s (flowUp o snap k i f none handle u) := by
  have hnone : none ≠ some j := nofun
  have hmoments : ∀ m ∈ Inferno.flowUpMoments o snap k i f none handle u, Untouched j s m :=
    h.flowUpMoments hj hnone f handle
  have hlast := holds_last (P := Untouched j s) h hmoments
  rwa [flowUpMoments_last] at hlast

theorem Untouched.flowRefused (h : Untouched j s u) (hj : j ≠ i) (f : FlowSlot) (w : Want) :
    Untouched j s (flowRefused snap i f w u) := by
  have hmoments : ∀ m ∈ Inferno.flowRefusedMoments snap i f w u, Untouched j s m := h.flowRefusedMoments hj f w
  have hlast := holds_last (P := Untouched j s) h hmoments
  rwa [flowRefusedMoments_last] at hlast

theorem flowRefused_device (f : FlowSlot) (w : Want) : ((flowRefused snap i f w v).flow i).device = [] := by
  unfold flowRefused
  rw [setStatuses_flow]
  simp [Sub.setFlow]

/-- The want has come up in slot `i`. -/
structure Up (o : Outcomes) (k : ℕ) (w : Want) (i : Fin AP_MAX_FLOWS) (v : Sub) : Prop where
  flow : ∃ port handle, v.flow i = w.upSlot i port handle (o.now k)
  rx : ∃ b r x port n, aoipRxBindFlow i w.req.nslots (slotMap w.slotToCh) w.req.fpp b r = (x, some port) ∧
    v.rx i = { x with packets := n }

theorem Want.again_flow {r : Fin AP_MAX_FLOWS} {x : RxFlow} {port : ℕ} : (w.again i r x port u).flow r = FlowSlot.zero := by
  show (tearDown r (w.out i x port u)).flow r = FlowSlot.zero
  rw [tearDown_flow, Function.update_self]

theorem Want.again_rx {r : Fin AP_MAX_FLOWS} (hri : r ≠ i) {x : RxFlow} {port : ℕ} : (w.again i r x port u).rx i = x :=
  (tearDown_rx_of_ne hri.symm (w.out i x port u)).trans (Function.update_self _ _ _)

theorem Bound.up {x : RxFlow} {port : ℕ} (hb : Bound o k w u i x (some port)) (hx : v.rx i = x)
    {replaces : Option (Fin AP_MAX_FLOWS)} (hr : replaces ≠ some i) {handle : List UInt8} :
    Up o k w i (flowUp o snap k i (w.asked i port) replaces handle v) := by
  obtain ⟨n, hn⟩ : ∃ n, (flowUp o snap k i (w.asked i port) replaces handle v).rx i = { v.rx i with packets := n } :=
    flowUp_rx_self hr _ handle
  exact ⟨⟨port, handle, flowUp_flow_self hr _ handle⟩, _, _, x, port, n, hb.bind, by rw [hn, hx]⟩

/-- What the turn of a want can do to the free slot, and to the slot that it replaces. -/
theorem requestWant_cases (o : Outcomes) (snap : Fin AP_NCH → RxChannel) (k : ℕ)
    (hne : ∀ i, freeSlot v = some i → w.replaces ≠ some i) :
    requestWant o snap v (w, k) = v ∨ ∃ i, freeSlot v = some i ∧ w.done = false ∧
      (((requestWant o snap v (w, k)).flow i).device = [] ∧
        (∀ r, w.replaces = some r → Untouched r v (requestWant o snap v (w, k)) ∨
          (requestWant o snap v (w, k)).flow r = FlowSlot.zero) ∨
      Up o k w i (requestWant o snap v (w, k)) ∧
        ∀ r, w.replaces = some r → (requestWant o snap v (w, k)).flow r = FlowSlot.zero) := by
  have hturn := requestWant_turn o snap k w v
  generalize requestWant o snap v (w, k) = v' at hturn ⊢
  cases hturn with
  | done hdone => exact Or.inl rfl
  | full hdone hfree => exact Or.inl rfl
  | @unbound i x hb =>
    refine Or.inr ⟨i, hb.free, hb.done, Or.inl ⟨by simp [Sub.setFlow], fun r hr => Or.inl ?_⟩⟩
    have hri : r ≠ i := fun hri => hne i hb.free (by rw [hr, hri])
    exact (((Untouched.refl r v).call_one (c := .bind i) hri.symm).setRx hri x).setFlow hri _
  | @up i x port handle hb hbeside =>
    refine Or.inr ⟨i, hb.free, hb.done, Or.inr ⟨hb.up (Function.update_self _ _ _) (hne i hb.free), fun r hr => ?_⟩⟩
    rw [hr]
    exact flowUp_flow_replaced r _ handle
  | @refused i x port hb hbeside hrep =>
    refine Or.inr ⟨i, hb.free, hb.done, Or.inl ⟨flowRefused_device _ w, fun r hr => ?_⟩⟩
    rw [hrep] at hr
    cases hr
  | @upAlone i r x port handle hb hbeside hrep halone =>
    have hri : r ≠ i := fun hri => hne i hb.free (by rw [hrep, hri])
    refine Or.inr ⟨i, hb.free, hb.done, Or.inr ⟨hb.up (Want.again_rx hri) (by simp), fun r' hr' => ?_⟩⟩
    cases hrep.symm.trans hr'
    exact ((Untouched.refl r _).flowUp hri _ handle).flow.trans Want.again_flow
  | @refusedAlone i r x port hb hbeside hrep halone =>
    have hri : r ≠ i := fun hri => hne i hb.free (by rw [hrep, hri])
    refine Or.inr ⟨i, hb.free, hb.done, Or.inl ⟨flowRefused_device _ w, fun r' hr' => Or.inr ?_⟩⟩
    cases hrep.symm.trans hr'
    exact ((Untouched.refl r _).flowRefused hri _ w).flow.trans Want.again_flow

theorem Up.slotOk (h : Up o k w i v) (hw : WantOk w) : (v.flow i).device = w.device ∧ SlotOk (v.flow i) (v.rx i) := by
  obtain ⟨port, handle, hf⟩ := h.flow
  obtain ⟨b, r, x, port', n, hb, hx⟩ := h.rx
  obtain ⟨hactive, hn, hmap⟩ := aoipRxBindFlow_some hw hb
  rw [hf, hx]
  exact ⟨List.take_of_length_le hw.short, hw.slotOk rfl rfl rfl rfl hactive hn hmap⟩

theorem Up.device (h : Up o k w i v) : (v.flow i).device = strncpy31 w.device := by
  obtain ⟨port, handle, hf⟩ := h.flow
  rw [hf]
  rfl

/-- What holds of the named slots between the steps of the task. -/
structure NamedInv (s : Sub) : Prop where
  slot : ∀ i, (s.flow i).device ≠ [] → SlotOk (s.flow i) (s.rx i)
  one : OneSlotEach s
  names : ∀ c, (s.ch c).txDevice.length ≤ 31

/-- What holds before the turn of the `k`-th want: besides, a want that is still to come
and not done replaces the flow that its transmitter has. -/
structure TurnInv (ws : List Want) (k : ℕ) (v : Sub) : Prop where
  slot : ∀ i, (v.flow i).device ≠ [] → SlotOk (v.flow i) (v.rx i)
  one : OneSlotEach v
  own : ReplacesOwn ws k v
  all : ∀ n (hn : n < ws.length), k ≤ n → ws[n].done = false → ws[n].device ≠ [] →
    ∀ x, (v.flow x).device = ws[n].device → ws[n].replaces = some x

section Turns

variable {ws : List Want}

theorem ReplacesOwn.ne_free (h : ReplacesOwn ws k v) (hk : k < ws.length) :
    ∀ i, freeSlot v = some i → ws[k].replaces ≠ some i := by
  intro i hfree hr
  obtain ⟨hd, hne⟩ := h k hk le_rfl i hr
  exact hne (hd.symm.trans (freeSlot_eq_some hfree))

/-- The want has come up in the free slot, and the flow that it replaces has gone. -/
structure CameUp (w : Want) (v v' : Sub) (j : Fin AP_MAX_FLOWS) : Prop where
  free : freeSlot v = some j
  done : w.done = false
  ok : WantOk w
  device : (v'.flow j).device = w.device
  slot : SlotOk (v'.flow j) (v'.rx j)
  gone : ∀ r, w.replaces = some r → v'.flow r = FlowSlot.zero

/-- A named slot after a turn is as it was, or the one that has come up. -/
theorem TurnInv.slot_cases (o : Outcomes) (snap : Fin AP_NCH → RxChannel) (h : TurnInv ws k v) (hk : k < ws.length)
    (hok : ws[k].device ≠ [] → WantOk ws[k]) (hj : ((requestWant o snap v (ws[k], k)).flow j).device ≠ []) :
    Untouched j v (requestWant o snap v (ws[k], k)) ∨ CameUp ws[k] v (requestWant o snap v (ws[k], k)) j := by
  rcases requestWant_cases o snap k (h.own.ne_free hk) with heq | ⟨i, hfree, hdone, hcases⟩
  · rw [heq]
    exact Or.inl (Untouched.refl j v)
  by_cases hji : j = i
  · subst hji
    rcases hcases with ⟨hnone, -⟩ | ⟨hup, hgone⟩
    · exact absurd hnone hj
    · have hnamed : ws[k].device ≠ [] := by
        intro hd
        rw [hup.device, hd] at hj
        exact hj rfl
      obtain ⟨hd, hslot⟩ := hup.slotOk (hok hnamed)
      exact Or.inr ⟨hfree, hdone, hok hnamed, hd, hslot, hgone⟩
  · by_cases hr : ws[k].replaces = some j
    · rcases hcases with ⟨-, hkept⟩ | ⟨-, hgone⟩
      · rcases hkept j hr with hkept | hzero
        · exact Or.inl hkept
        · rw [hzero] at hj
          exact absurd rfl hj
      · rw [hgone j hr] at hj
        exact absurd rfl hj
    · apply Or.inl
      apply untouched_requestWant _ hr
      rw [hfree]
      exact fun h => hji (Option.some.inj h).symm

theorem TurnInv.cameUp_one (h : TurnInv ws k v) (hk : k < ws.length) {v' : Sub} {a b : Fin AP_MAX_FLOWS}
    (ha : CameUp ws[k] v v' a) (hb : Untouched b v v') : (v'.flow b).device ≠ ws[k].device := by
  intro hd
  have hr := h.all k hk le_rfl ha.done ha.ok.named b (by rw [← hb.flow, hd])
  rw [ha.gone b hr] at hd
  exact ha.ok.named hd.symm

theorem TurnInv.step (hnd : (ws.map (·.device)).Nodup) (h : TurnInv ws k v) (hk : k < ws.length)
    (hok : ws[k].device ≠ [] → WantOk ws[k]) : TurnInv ws (k + 1) (requestWant o snap v (ws[k], k)) := by
  have hcases := fun j => h.slot_cases o snap (j := j) hk hok
  refine ⟨fun j hj => ?_, fun a b ha hab => ?_, h.own.step hnd hk, fun n hn hkn hdone hne x hx => ?_⟩
  · rcases hcases j hj with hself | hup
    · rw [hself.flow] at hj
      rw [hself.flow, hself.rx]
      exact h.slot j hj
    · exact hup.slot
  · rcases hcases a ha with hself | hup
    · rcases hcases b (hab ▸ ha) with hself' | hup
      · rw [hself.flow] at ha
        rw [hself.flow, hself'.flow] at hab
        exact h.one a b ha hab
      · exact absurd (hab.trans hup.device) (h.cameUp_one hk hup hself)
    · rcases hcases b (hab ▸ ha) with hself | hup'
      · exact absurd (hab.symm.trans hup.device) (h.cameUp_one hk hup hself)
      · exact Option.some.inj (hup.free.symm.trans hup'.free)
  · have hx' : ((requestWant o snap v (ws[k], k)).flow x).device ≠ [] := by
      rw [hx]
      exact hne
    rcases hcases x hx' with hself | hup
    · rw [hself.flow] at hx
      exact h.all n hn (by omega) hdone hne x hx
    · have := index_of_key hnd hn hk (hx.symm.trans hup.device)
      omega

theorem turnInv_atTurn (hnd : (ws.map (·.device)).Nodup) (h : TurnInv ws 0 u) (hok : ∀ w ∈ ws, w.device ≠ [] → WantOk w)
    (hk : k ≤ ws.length) : TurnInv ws k (atTurn o snap u ws k) := by
  induction k with
  | zero => rwa [atTurn_zero]
  | succ k ih =>
    rw [atTurn_succ hk]
    exact (ih (by omega)).step hnd hk (hok _ (List.getElem_mem _))

end Turns

theorem marked_wantOk (hs : OneSlotEach s) (hnames : ∀ c, (s.ch c).txDevice.length ≤ 31) :
    ∀ w ∈ (reconciledTable prof o s).2, w.device ≠ [] → WantOk w := by
  rw [marked_wants hs]
  intro w hw hnamed
  obtain ⟨x, hx, rfl⟩ := List.mem_map.1 hw
  rw [Want.markedIn, flagOn_device] at hnamed
  exact ((wantAll_spec prof o s).1.wantOk_of_named hnames hx hnamed).flagOn _

theorem untouched_of_named (hs : OneSlotEach s) (hj : ((reconciledTable prof o s).1.flow j).device ≠ []) :
    Untouched j s (reconciledTable prof o s).1 := by
  by_cases hret : Retired (wanted prof o s) (wantAll prof o s).want j
  · rw [(marked hs).gone j (List.mem_finRange j) hret] at hj
    exact absurd rfl hj
  · exact (untouched_wanted prof o j s).trans ((marked hs).stays j (Or.inr hret))

theorem NamedInv.turnInv_zero (h : NamedInv s) :
    TurnInv (reconciledTable prof o s).2 0 (reconciledTable prof o s).1 := by
  have hself : ∀ j, ((reconciledTable prof o s).1.flow j).device ≠ [] → Untouched j s (reconciledTable prof o s).1 :=
    fun j hj => untouched_of_named h.one hj
  refine ⟨fun j hj => ?_, fun a b ha hab => ?_, replacesOwn_marked h.one, fun n hn _ hdone hne x hx => ?_⟩
  · have hu := hself j hj
    rw [hu.flow] at hj
    rw [hu.flow, hu.rx]
    exact h.slot j hj
  · have hua := hself a ha
    have hub := hself b (hab ▸ ha)
    rw [hua.flow] at ha
    rw [hua.flow, hub.flow] at hab
    exact h.one a b ha hab
  · have hu := hself x (by rw [hx]; exact hne)
    obtain ⟨hn', hget⟩ := marked_getElem h.one hn
    rw [hget] at hx hdone hne ⊢
    rw [Want.markedIn, flagOn_device] at hx hne
    rw [hu.flow] at hx
    have hnamed : (s.flow x).device ≠ [] := by
      rw [hx]
      exact hne
    have hlive : s.live x = true := live_iff.2 ⟨hnamed, (h.slot x hnamed).device.2 hnamed⟩
    rw [marked_live h.one hlive hx.symm] at hdone ⊢
    split_ifs at hdone ⊢
    rfl

theorem NamedInv.turnInv (h : NamedInv s) {k : ℕ} (hk : k ≤ (reconciledTable prof o s).2.length) :
    TurnInv (reconciledTable prof o s).2 k (rebuildTurn prof o s k) :=
  turnInv_atTurn (marked_nodup h.one) h.turnInv_zero (marked_wantOk h.one h.names) hk

theorem SameSub.flowUp (h : SameSub snap v) (replaces : Option (Fin AP_MAX_FLOWS)) (f : FlowSlot) (handle : List UInt8) :
    SameSub snap (flowUp o snap k i f replaces handle v) := by
  unfold Inferno.flowUp activateSlots
  apply SameSub.setStatuses
  cases replaces with
  | none => exact h
  | some r => exact SameSub.of_ch h (tearDown_ch r _)

theorem SameSub.flowRefused (h : SameSub snap v) (f : FlowSlot) (w : Want) : SameSub snap (flowRefused snap i f w v) := by
  unfold Inferno.flowRefused
  apply SameSub.setStatuses
  exact h

theorem SameSub.requestWant (h : SameSub snap v) (wk : Want × ℕ) : SameSub snap (requestWant o snap v wk) := by
  obtain ⟨w, k⟩ := wk
  have hturn := requestWant_turn o snap k w v
  generalize Inferno.requestWant o snap v (w, k) = v' at hturn ⊢
  cases hturn with
  | done hdone => exact h
  | full hdone hfree => exact h
  | unbound hb => exact h.of_ch rfl
  | up hb hbeside =>
    apply SameSub.flowUp
    exact h.of_ch rfl
  | refused hb hbeside hrep =>
    apply SameSub.flowRefused
    exact h.of_ch rfl
  | upAlone hb hbeside hrep halone =>
    apply SameSub.flowUp
    exact h.of_ch Want.again_ch
  | refusedAlone hb hbeside hrep halone =>
    apply SameSub.flowRefused
    exact h.of_ch Want.again_ch

theorem sameSub_rebuild (hs : OneSlotEach s) : SameSub s.ch (rebuild prof o s) := by
  have hrun := run_induct (requestWant o s.ch) (s := (reconciledTable prof o s).1) (P := fun _ t => SameSub s.ch t)
    (marked hs).same (fun _ wk ih => ih.requestWant wk)
  rw [rebuild_eq]
  exact hrun _

theorem NamedInv.rebuild (h : NamedInv s) : NamedInv (Inferno.rebuild prof o s) := by
  have hturn : TurnInv (reconciledTable prof o s).2 _ (rebuildTurn prof o s _) := h.turnInv le_rfl
  rw [rebuildTurn_length] at hturn
  refine ⟨hturn.slot, hturn.one, fun c => ?_⟩
  rw [(sameSub_rebuild h.one c).2]
  exact h.names c

theorem namedInv_boot : NamedInv Sub.boot := ⟨fun _ h => absurd rfl h, fun _ _ h => absurd rfl h, fun _ => Nat.zero_le _⟩

/-- Slots may lose their names, and what is in order may change as long as it stays so. -/
theorem NamedInv.of_slots (h : NamedInv s) (hslots : ∀ j, (u.flow j).device ≠ [] →
      (u.flow j).device = (s.flow j).device ∧ SlotOk (u.flow j) (u.rx j))
    (hnames : ∀ c, (u.ch c).txDevice.length ≤ 31) : NamedInv u := by
  refine ⟨fun j hj => (hslots j hj).2, fun a b ha hab => ?_, hnames⟩
  have hda := (hslots a ha).1
  have hdb := (hslots b (hab ▸ ha)).1
  exact h.one a b (hda ▸ ha) (hda.symm.trans (hab.trans hdb))

theorem NamedInv.same (h : NamedInv s) (hf : u.flow = s.flow) (hr : u.rx = s.rx)
    (hnames : ∀ c, (u.ch c).txDevice.length ≤ 31) : NamedInv u := by
  apply h.of_slots _ hnames
  rw [hf, hr]
  exact fun j hj => ⟨rfl, h.slot j hj⟩

theorem NamedInv.tearDown (h : NamedInv s) (i : Fin AP_MAX_FLOWS) : NamedInv (tearDown i s) := by
  apply h.of_slots
  · intro j hj
    have hji : j ≠ i := by
      rintro rfl
      rw [tearDown_flow, Function.update_self] at hj
      exact hj rfl
    have hself := (Untouched.refl j s).tearDown hji
    rw [hself.flow] at hj
    rw [hself.flow, hself.rx]
    exact ⟨rfl, h.slot j hj⟩
  · rw [tearDown_ch]
    exact h.names

theorem NamedInv.livenessFlow (h : NamedInv s) (now : ℤ) (pk : Fin AP_MAX_FLOWS → ℕ) (i : Fin AP_MAX_FLOWS) :
    NamedInv (livenessFlow now pk s i) := by
  unfold Inferno.livenessFlow
  dsimp only
  split_ifs
  · exact h
  · refine h.of_slots (fun j hj => ?_) h.names
    have hself := h.slot j
    simp only [Sub.setFlow, Function.update_apply] at hj ⊢
    split_ifs at hj ⊢ with hji
    · subst hji
      exact ⟨rfl, (hself hj).device, (hself hj).rx, (hself hj).bound, (hself hj).ids, (hself hj).sorted, (hself hj).ne⟩
    · exact ⟨rfl, hself hj⟩
  · have hforgot : NamedInv (forgetDevice (s.flow i).device
        { s with st := { s.st with keepalivesLost := u32 (s.st.keepalivesLost + 1) } }) := h.same rfl rfl h.names
    have hdown := hforgot.tearDown i
    exact hdown.same rfl rfl hdown.names

theorem NamedInv.step (h : NamedInv s) (e : TaskEvent) : NamedInv (taskStep prof s e) := by
  cases e with
  | table names dirty => exact h.same rfl rfl fun c => List.length_take_le _ _
  | step e =>
    cases e with
    | set c txChannel txDevice => exact h.same rfl rfl (subscriberSet_names h.names c txChannel txDevice)
    | refresh => exact h.same rfl rfl h.names
    | check o now t =>
      show NamedInv (subCheck prof o now t s)
      by_cases hr : Rebuilds now s
      · have hclean : NamedInv { s with dirty := false } := h.same rfl rfl h.names
        have hrebuilt : NamedInv (Inferno.rebuild prof o { s with dirty := false }) := hclean.rebuild
        rw [subCheck_of_rebuilds hr]
        exact hrebuilt.same rfl rfl hrebuilt.names
      · rw [subCheck_of_not_rebuilds hr]
        exact h
    | liveness now pk =>
      have hrun := run_induct (Inferno.livenessFlow now pk) (s := s) (P := fun _ t => NamedInv t) h
        (fun _ i ih => ih.livenessFlow now pk i)
      exact hrun _

theorem namedInv_run (l : List TaskEvent) : NamedInv (l.foldl (taskStep prof) Sub.boot) := by
  have hrun := run_induct (taskStep prof) (s := Sub.boot) (P := fun _ t => NamedInv t) namedInv_boot
    (fun _ e ih => ih.step e)
  exact hrun l

end Inferno
