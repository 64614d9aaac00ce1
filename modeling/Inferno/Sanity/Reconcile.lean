import Inferno.Sanity.FlowTable

/-! Step 2 of a rebuild: every flow of a transmitter that is no longer wanted goes, and
each want learns whether its transmitter already has the right flow or has one to be
replaced. -/

namespace Inferno

open Lib

/-- What steps 2 and 3 rely on in the want table. -/
structure WantTable (snap : Fin AP_NCH → RxChannel) (want : List Want) : Prop where
  nodup : (want.map (·.device)).Nodup
  named : ∀ w ∈ want, w.device ≠ []
  fresh : ∀ w ∈ want, w.done = false ∧ w.replaces = none
  sub : ∀ w ∈ want, ∀ c ∈ w.slotToCh, (snap c).txChannel ≠ []

variable {snap : Fin AP_NCH → RxChannel} {s : Sub} {want : List Want} {l : List (Fin AP_MAX_FLOWS)}
  {i : Fin AP_MAX_FLOWS} {w : Want}

/-- A want with what the flows in the slots of `l` say about it. -/
def Want.flagOn (s : Sub) (l : List (Fin AP_MAX_FLOWS)) (w : Want) : Want :=
  match l.find? fun i => (s.flow i).device = w.device with
  | none => w
  | some i => if sameSlots (s.flow i) w then { w with done := true } else { w with replaces := some i }

@[simp] theorem flagOn_device : (w.flagOn s l).device = w.device := by
  unfold Want.flagOn
  split
  · rfl
  · split_ifs <;> rfl

@[simp] theorem flagOn_slotToCh : (w.flagOn s l).slotToCh = w.slotToCh := by
  unfold Want.flagOn
  split
  · rfl
  · split_ifs <;> rfl

@[simp] theorem flagOn_req : (w.flagOn s l).req = w.req := by
  unfold Want.flagOn
  split
  · rfl
  · split_ifs <;> rfl

theorem flagOn_eq_self (h : ∀ j ∈ l, (s.flow j).device ≠ w.device) : w.flagOn s l = w := by
  have hfind : (l.find? fun i => (s.flow i).device = w.device) = none := by
    rw [List.find?_eq_none]
    intro j hj
    simpa using h j hj
  rw [Want.flagOn, hfind]

theorem flagOn_concat_of_ne (h : (s.flow i).device ≠ w.device) : w.flagOn s (l ++ [i]) = w.flagOn s l := by
  have hfind : ((l ++ [i]).find? fun i => (s.flow i).device = w.device) =
      l.find? fun i => (s.flow i).device = w.device := by
    simp [List.find?_append, h]
  rw [Want.flagOn, hfind, ← Want.flagOn]

theorem flagOn_concat_of_eq (h : (s.flow i).device = w.device) (hl : ∀ j ∈ l, (s.flow j).device ≠ w.device) :
    w.flagOn s (l ++ [i]) =
      if sameSlots (s.flow i) w then { w with done := true } else { w with replaces := some i } := by
  have hfind : ((l ++ [i]).find? fun i => (s.flow i).device = w.device) = some i := by
    rw [List.find?_append, List.find?_eq_none.2 (by simpa using hl)]
    simp [h]
  rw [Want.flagOn, hfind]

theorem modify_flags {k : ℕ} {g : Want → Want} (hnd : (want.map (·.device)).Nodup) (hk : k < want.length)
    (hd : want[k].device = (s.flow i).device) (hg : g (want[k].flagOn s l) = want[k].flagOn s (l ++ [i])) :
    (want.map (Want.flagOn s l)).modify k g = want.map (Want.flagOn s (l ++ [i])) := by
  refine List.ext_getElem (by simp) fun j hj hj' => ?_
  rw [List.length_map] at hj'
  rw [List.getElem_modify, List.getElem_map, List.getElem_map]
  by_cases hkj : k = j
  · subst hkj
    rw [if_pos rfl, hg]
  · rw [if_neg hkj, flagOn_concat_of_ne]
    intro hdj
    exact hkj (index_of_key hnd hk hj' (hd.trans hdj))

theorem reconcileFlow_of_idle {t : Sub × List Want} (h : (t.1.flow i).device = []) : reconcileFlow snap t i = t := by
  rw [reconcileFlow]
  exact if_pos h

/-- A named flow that is active is torn down when no open want names its transmitter,
and otherwise marks that want. -/
theorem reconcileFlow_cases (snap : Fin AP_NCH → RxChannel) {t : Sub × List Want}
    (hactive : (t.1.flow i).state = .active) (hne : (t.1.flow i).device ≠ []) :
    ((∀ w ∈ t.2, w.done = false → w.device ≠ (t.1.flow i).device) ∧
      reconcileFlow snap t i = (tearDown i t.1, t.2)) ∨
    ∃ k, ∃ hk : k < t.2.length, t.2[k].device = (t.1.flow i).device ∧
      reconcileFlow snap t i =
        if sameSlots (t.1.flow i) t.2[k] then
          (activateSlots snap (t.1.flow i) t.1, t.2.modify k fun w => { w with done := true })
        else (t.1, t.2.modify k fun w => { w with replaces := some i }) := by
  rw [reconcileFlow, if_neg hne]
  cases hfind : t.2.findIdx? fun w => !w.done && w.device = (t.1.flow i).device with
  | none =>
    refine Or.inl ⟨fun w hw hdone hd => ?_, rfl⟩
    have := List.findIdx?_eq_none_iff.1 hfind w hw
    simp [hdone, hd] at this
  | some k =>
    obtain ⟨hk, hp, -⟩ := List.findIdx?_eq_some_iff_getElem.1 hfind
    have hd : t.2[k].device = (t.1.flow i).device := by
      rw [Bool.and_eq_true, decide_eq_true_eq] at hp
      exact hp.2
    refine Or.inr ⟨k, hk, hd, ?_⟩
    simp only [List.getElem?_eq_getElem hk, Option.any_some, hactive, ne_eq, not_true_eq_false, if_false]

/-- The flow in the slot is not wanted any more. -/
def Unwanted (s : Sub) (want : List Want) (i : Fin AP_MAX_FLOWS) : Prop :=
  (s.flow i).device ≠ [] ∧ ∀ w ∈ want, w.device ≠ (s.flow i).device

/-- A channel of a flow, in one of the slots of `l`, that is as wanted. -/
def KeptOn (s : Sub) (want : List Want) (l : List (Fin AP_MAX_FLOWS)) (c : Fin AP_NCH) : Prop :=
  ∃ i ∈ l, ∃ w ∈ want, w.device = (s.flow i).device ∧ sameSlots (s.flow i) w = true ∧ c ∈ w.slotToCh

/-- The subscriber and the want table after the slots of `l`. -/
structure ReconciledOn (snap : Fin AP_NCH → RxChannel) (s : Sub) (want : List Want) (l : List (Fin AP_MAX_FLOWS))
    (t : Sub × List Want) : Prop where
  gone : ∀ i ∈ l, Unwanted s want i → t.1.flow i = FlowSlot.zero ∧ (t.1.rx i).active = false
  stays : ∀ i, i ∉ l ∨ ¬ Unwanted s want i → t.1.flow i = s.flow i ∧ t.1.rx i = s.rx i
  flags : t.2 = want.map (Want.flagOn s l)
  same : SameSub snap t.1
  dirty : t.1.dirty = s.dirty
  kept : ∀ c, KeptOn s want l c → (t.1.ch c).status = .active
  other : ∀ c, ¬ KeptOn s want l c → (t.1.ch c).status = (s.ch c).status

theorem keptOn_concat {c : Fin AP_NCH} :
    KeptOn s want (l ++ [i]) c ↔ KeptOn s want l c ∨
      ∃ w ∈ want, w.device = (s.flow i).device ∧ sameSlots (s.flow i) w = true ∧ c ∈ w.slotToCh := by
  simp only [KeptOn, List.mem_append, List.mem_singleton]
  constructor
  · rintro ⟨j, hj | rfl, h⟩
    · exact Or.inl ⟨j, hj, h⟩
    · exact Or.inr h
  · rintro (⟨j, hj, h⟩ | h)
    · exact ⟨j, Or.inl hj, h⟩
    · exact ⟨i, Or.inr rfl, h⟩

theorem keptOn_concat_of_none {c : Fin AP_NCH}
    (h : ∀ w ∈ want, w.device = (s.flow i).device → ¬ sameSlots (s.flow i) w = true) :
    KeptOn s want (l ++ [i]) c ↔ KeptOn s want l c := by
  rw [keptOn_concat, or_iff_left_iff_imp]
  rintro ⟨w, hwm, hwd, hsame, -⟩
  exact absurd hsame (h w hwm hwd)

/-- The slots of `l` hold no other flow of the transmitter in slot `i`. -/
theorem FlowInv.device_ne (hs : FlowInv s) (hi : (s.flow i).device ≠ []) (hl : i ∉ l) :
    ∀ j ∈ l, (s.flow j).device ≠ (s.flow i).device := by
  intro j hj hd
  have hai := (hs.slot i).device.2 hi
  have haj := (hs.slot j).device.2 (hd ▸ hi)
  have := hs.keys j i _ _ _ (entry_eq_some.2 ⟨haj, hd, rfl⟩) (entry_eq_some.2 ⟨hai, rfl, rfl⟩)
  exact hl (this ▸ hj)

section Slot

variable {t : Sub × List Want}

theorem ReconciledOn.gone_concat (h : ReconciledOn snap s want l t) (hu : ¬ Unwanted s want i) :
    ∀ j ∈ l ++ [i], Unwanted s want j → t.1.flow j = FlowSlot.zero ∧ (t.1.rx j).active = false := by
  intro j hj huj
  rcases List.mem_append.1 hj with hj | hj
  · exact h.gone j hj huj
  · rw [List.mem_singleton.1 hj] at huj
    exact absurd huj hu

theorem ReconciledOn.stays_concat (h : ReconciledOn snap s want l t) :
    ∀ j, j ∉ l ++ [i] ∨ ¬ Unwanted s want j → t.1.flow j = s.flow j ∧ t.1.rx j = s.rx j := by
  intro j hj
  apply h.stays j
  exact hj.imp_left fun hj hl => hj (List.mem_append_left _ hl)

theorem ReconciledOn.skip (hw : WantTable snap want) (h : ReconciledOn snap s want l t) (hd : (s.flow i).device = []) :
    ReconciledOn snap s want (l ++ [i]) t := by
  have hnone : ∀ w ∈ want, w.device ≠ (s.flow i).device := by
    intro w hwm
    rw [hd]
    exact hw.named w hwm
  have hkept : ∀ c, KeptOn s want (l ++ [i]) c ↔ KeptOn s want l c :=
    fun c => keptOn_concat_of_none fun w hwm hwd => absurd hwd (hnone w hwm)
  refine ⟨h.gone_concat fun hu => hu.1 hd, h.stays_concat, ?_, h.same, h.dirty, fun c hc => h.kept c ((hkept c).1 hc),
    fun c hc => h.other c (hc ∘ (hkept c).2)⟩
  rw [h.flags]
  exact List.map_congr_left fun w hwm => (flagOn_concat_of_ne (hnone w hwm).symm).symm

theorem ReconciledOn.retire (hs : FlowInv s) (h : ReconciledOn snap s want l t) (hi : i ∉ l)
    (hu : Unwanted s want i) : ReconciledOn snap s want (l ++ [i]) (tearDown i t.1, t.2) := by
  have hok : SlotOk (t.1.flow i) (t.1.rx i) := by
    rw [(h.stays i (Or.inl hi)).1, (h.stays i (Or.inl hi)).2]
    exact hs.slot i
  have hkept : ∀ c, KeptOn s want (l ++ [i]) c ↔ KeptOn s want l c :=
    fun c => keptOn_concat_of_none fun w hwm hwd => absurd hwd (hu.2 w hwm)
  refine ⟨fun j hj huj => ?_, fun j hj => ?_, ?_, h.same.of_ch (tearDown_ch i t.1),
    (tearDown_dirty i t.1).trans h.dirty, fun c hc => ?_, fun c hc => ?_⟩
  · by_cases hji : j = i
    · subst hji
      rw [tearDown_flow, Function.update_self]
      exact ⟨rfl, hok.tearDown⟩
    · have hj : j ∈ l := by simpa [hji] using hj
      rw [tearDown_flow, Function.update_of_ne hji, tearDown_rx_of_ne hji]
      exact h.gone j hj huj
  · have hji : j ≠ i := by
      rintro rfl
      rcases hj with hj | hj
      · exact hj (by simp)
      · exact hj hu
    rw [tearDown_flow, Function.update_of_ne hji, tearDown_rx_of_ne hji]
    exact h.stays_concat j hj
  · rw [h.flags]
    exact List.map_congr_left fun w hwm => (flagOn_concat_of_ne (hu.2 w hwm).symm).symm
  · rw [tearDown_ch]
    exact h.kept c ((hkept c).1 hc)
  · rw [tearDown_ch]
    exact h.other c (hc ∘ (hkept c).2)

variable {k : ℕ}

/-- The want of the transmitter in slot `i` is the `k`-th, not marked so far. -/
structure Wants (s : Sub) (want : List Want) (l : List (Fin AP_MAX_FLOWS)) (i : Fin AP_MAX_FLOWS) (w : Want) : Prop where
  mem : w ∈ want
  device : w.device = (s.flow i).device
  unique : ∀ v ∈ want, v.device = (s.flow i).device → v = w
  unmarked : w.flagOn s l = w
  marked : w.flagOn s (l ++ [i]) =
    if sameSlots (s.flow i) w then { w with done := true } else { w with replaces := some i }

theorem wants_getElem (hs : FlowInv s) (hw : WantTable snap want) (hi : i ∉ l) (hd : (s.flow i).device ≠ [])
    (hk : k < want.length) (hkd : want[k].device = (s.flow i).device) : Wants s want l i want[k] := by
  have hothers : ∀ j ∈ l, (s.flow j).device ≠ want[k].device := by
    rw [hkd]
    exact hs.device_ne hd hi
  exact ⟨List.getElem_mem hk, hkd,
    fun v hv hvd => List.inj_on_of_nodup_map hw.nodup hv (List.getElem_mem hk) (hvd.trans hkd.symm),
    flagOn_eq_self hothers, flagOn_concat_of_eq hkd.symm hothers⟩

theorem ReconciledOn.keep (hw : WantTable snap want) (h : ReconciledOn snap s want l t) (hk : k < want.length)
    (hwants : Wants s want l i want[k]) (hsame : sameSlots (s.flow i) want[k] = true) :
    ReconciledOn snap s want (l ++ [i])
      (activateSlots snap (s.flow i) t.1, t.2.modify k fun w => { w with done := true }) := by
  have hslots : (s.flow i).slotToCh = want[k].slotToCh := by
    simp only [sameSlots, Bool.decide_and, Bool.and_eq_true, decide_eq_true_eq] at hsame
    exact hsame.2
  have hu : ¬ Unwanted s want i := fun hu => hu.2 _ hwants.mem hwants.device
  have hkept : ∀ c, KeptOn s want (l ++ [i]) c ↔ KeptOn s want l c ∨ c ∈ want[k].slotToCh := by
    intro c
    rw [keptOn_concat]
    apply or_congr_right
    constructor
    · rintro ⟨w, hwm, hwd, -, hc⟩
      rwa [← hwants.unique w hwm hwd]
    · intro hc
      exact ⟨_, hwants.mem, hwants.device, hsame, hc⟩
  have hstatus := fun c => h.same.setStatuses_status want[k].slotToCh .active c
  rw [activateSlots, hslots]
  refine ⟨?_, ?_, ?_, h.same.setStatuses _ _, (setStatuses_dirty _ _).trans h.dirty, fun c hc => ?_, fun c hc => ?_⟩
  · simp only [setStatuses_flow, setStatuses_rx]
    exact h.gone_concat hu
  · simp only [setStatuses_flow, setStatuses_rx]
    exact h.stays_concat
  · rw [h.flags]
    apply modify_flags hw.nodup hk hwants.device
    rw [hwants.unmarked, hwants.marked, if_pos hsame]
  · rw [hstatus c]
    rcases (hkept c).1 hc with hc | hc
    · rw [h.kept c hc, ite_self]
    · rw [if_pos ⟨hc, hw.sub _ hwants.mem c hc⟩]
  · rw [hkept c, not_or] at hc
    rw [hstatus c, if_neg fun h => hc.2 h.1, h.other c hc.1]

theorem ReconciledOn.replace (hw : WantTable snap want) (h : ReconciledOn snap s want l t) (hk : k < want.length)
    (hwants : Wants s want l i want[k]) (hsame : ¬ sameSlots (s.flow i) want[k] = true) :
    ReconciledOn snap s want (l ++ [i]) (t.1, t.2.modify k fun w => { w with replaces := some i }) := by
  have hu : ¬ Unwanted s want i := fun hu => hu.2 _ hwants.mem hwants.device
  have hkept : ∀ c, KeptOn s want (l ++ [i]) c ↔ KeptOn s want l c := by
    intro c
    apply keptOn_concat_of_none
    intro w hwm hwd
    rwa [hwants.unique w hwm hwd]
  refine ⟨h.gone_concat hu, h.stays_concat, ?_, h.same, h.dirty, fun c hc => h.kept c ((hkept c).1 hc),
    fun c hc => h.other c (hc ∘ (hkept c).2)⟩
  rw [h.flags]
  apply modify_flags hw.nodup hk hwants.device
  rw [hwants.unmarked, hwants.marked, if_neg hsame]

theorem ReconciledOn.concat (hs : FlowInv s) (hw : WantTable snap want) (h : ReconciledOn snap s want l t)
    (hi : i ∉ l) : ReconciledOn snap s want (l ++ [i]) (reconcileFlow snap t i) := by
  have hflow := (h.stays i (Or.inl hi)).1
  have hok : SlotOk (t.1.flow i) (t.1.rx i) := by
    rw [hflow, (h.stays i (Or.inl hi)).2]
    exact hs.slot i
  by_cases hd : (s.flow i).device = []
  · rw [reconcileFlow_of_idle (by rw [hflow]; exact hd)]
    exact h.skip hw hd
  have hne : (t.1.flow i).device ≠ [] := by rwa [hflow]
  rcases reconcileFlow_cases snap (hok.device.2 hne) hne with ⟨hnone, heq⟩ | ⟨k, hk, hkd, heq⟩
  · rw [heq]
    apply h.retire hs hi
    refine ⟨hd, fun w hwm hwd => ?_⟩
    have hself : w.flagOn s l = w := by
      apply flagOn_eq_self
      rw [hwd]
      exact hs.device_ne hd hi
    apply hnone w _ (hw.fresh w hwm).1
    · rw [hflow, hwd]
    · rw [h.flags, ← hself]
      exact List.mem_map_of_mem hwm
  · have hkw : k < want.length := by simpa [h.flags] using hk
    have hget : t.2[k] = want[k].flagOn s l := by simp [h.flags]
    rw [hget, flagOn_device, hflow] at hkd
    have hwants := wants_getElem hs hw hi hd hkw hkd
    rw [heq, hget, hwants.unmarked, hflow]
    by_cases hsame : sameSlots (s.flow i) want[k] = true
    · rw [if_pos hsame]
      exact h.keep hw hkw hwants hsame
    · rw [if_neg hsame]
      exact h.replace hw hkw hwants hsame

end Slot

theorem reconciled (hs : FlowInv s) (hw : WantTable snap want) (hsame : SameSub snap s) :
    ReconciledOn snap s want (List.finRange AP_MAX_FLOWS)
      ((List.finRange AP_MAX_FLOWS).foldl (reconcileFlow snap) (s, want)) := by
  apply run_induct_nodup (reconcileFlow snap) (P := fun l t => ReconciledOn snap s want l t)
  · exact ⟨by simp, fun _ _ => ⟨rfl, rfl⟩, (List.map_id want).symm, hsame, rfl, by simp [KeptOn], fun _ _ => rfl⟩
  · exact fun l i _ hi ih => ih.concat hs hw hi
  · exact List.nodup_finRange AP_MAX_FLOWS

/-- The flags of a want are true of the flow table, and the channels of a want that is
done are active. -/
structure Flagged (u : Sub) (w : Want) : Prop where
  done : w.done = true ↔ flowTable u w.device = some (w.slotToCh.zip w.req.txChannelId)
  replaces : w.done = false →
    ∀ j, w.replaces = some j ↔ (u.flow j).state = .active ∧ (u.flow j).device = w.device
  active : w.done = true → ∀ c ∈ w.slotToCh, (u.ch c).status = .active

variable {t : Sub × List Want}

theorem ReconciledOn.inv (h : ReconciledOn snap s want (List.finRange AP_MAX_FLOWS) t) (hs : FlowInv s) :
    FlowInv t.1 := by
  have hslot : ∀ j, ((t.1.flow j) = FlowSlot.zero ∧ (t.1.rx j).active = false) ∨
      (t.1.flow j = s.flow j ∧ t.1.rx j = s.rx j) := by
    intro j
    by_cases hu : Unwanted s want j
    · exact Or.inl (h.gone j (List.mem_finRange j) hu)
    · exact Or.inr (h.stays j (Or.inr hu))
  have hentry : ∀ j e, (t.1.flow j).entry = some e → (s.flow j).entry = some e := by
    intro j e he
    rcases hslot j with ⟨hz, -⟩ | ⟨hf, -⟩
    · rw [hz] at he
      cases he
    · rwa [hf] at he
  refine ⟨fun j => ?_, fun j k d v w hj hk => hs.keys j k d v w (hentry j _ hj) (hentry k _ hk)⟩
  rcases hslot j with ⟨hz, hr⟩ | ⟨hf, hr⟩
  · rw [hz]
    exact SlotOk.idle rfl rfl hr
  · rw [hf, hr]
    exact hs.slot j

theorem ReconciledOn.wanted (h : ReconciledOn snap s want (List.finRange AP_MAX_FLOWS) t)
    {d : CStr} (hd : d ∈ want.map (·.device)) (hne : d ≠ []) (j : Fin AP_MAX_FLOWS) :
    (t.1.flow j).device = d ↔ (s.flow j).device = d := by
  by_cases hu : Unwanted s want j
  · rw [(h.gone j (List.mem_finRange j) hu).1]
    refine iff_of_false (fun hz => hne hz.symm) ?_
    rintro rfl
    obtain ⟨w, hw, hwd⟩ := List.mem_map.1 hd
    exact hu.2 w hw hwd
  · rw [(h.stays j (Or.inr hu)).1]

theorem ReconciledOn.table (h : ReconciledOn snap s want (List.finRange AP_MAX_FLOWS) t) (hs : FlowInv s) :
    flowTable t.1 = retain (want.map (·.device)) (flowTable s) := by
  funext d
  refine Option.ext fun v => ?_
  rw [(h.inv hs).lookup_eq_some, retain, Option.ite_none_right_eq_some, hs.lookup_eq_some]
  constructor
  · rintro ⟨j, ha, hd, hv⟩
    by_cases hu : Unwanted s want j
    · rw [(h.gone j (List.mem_finRange j) hu).1] at ha
      cases ha
    · rw [(h.stays j (Or.inr hu)).1] at ha hd hv
      refine ⟨?_, j, ha, hd, hv⟩
      by_contra hnot
      refine hu ⟨(hs.slot j).device.1 ha, fun w hwm hwd => hnot ?_⟩
      rw [← hd, ← hwd]
      exact List.mem_map_of_mem hwm
  · rintro ⟨hd, j, ha, hjd, hv⟩
    obtain ⟨w, hwm, hwd⟩ := List.mem_map.1 hd
    have hu : ¬ Unwanted s want j := fun hu => hu.2 w hwm (hwd.trans hjd.symm)
    rw [← (h.stays j (Or.inr hu)).1] at ha hjd hv
    exact ⟨j, ha, hjd, hv⟩

theorem sameSlots_iff {f : FlowSlot} {w : Want} (hf : f.req.txChannelId.length = f.slotToCh.length)
    (hw : w.req.txChannelId.length = w.slotToCh.length) :
    sameSlots f w = true ↔ f.carry = w.slotToCh.zip w.req.txChannelId := by
  simp only [sameSlots, Bool.decide_and, Bool.and_eq_true, decide_eq_true_eq]
  constructor
  · rintro ⟨hid, hch⟩
    rw [FlowSlot.carry, hid, hch]
  · intro h
    have hfst := congrArg (List.map Prod.fst) h
    have hsnd := congrArg (List.map Prod.snd) h
    rw [FlowSlot.carry, List.map_fst_zip hf.ge, List.map_fst_zip hw.ge] at hfst
    rw [FlowSlot.carry, List.map_snd_zip hf.le, List.map_snd_zip hw.le] at hsnd
    exact ⟨hsnd, hfst⟩

theorem ReconciledOn.flagged (h : ReconciledOn snap s want (List.finRange AP_MAX_FLOWS) t) (hs : FlowInv s)
    (hw : WantTable snap want) (hwm : w ∈ want) (hlen : w.req.txChannelId.length = w.slotToCh.length) :
    Flagged t.1 (w.flagOn s (List.finRange AP_MAX_FLOWS)) := by
  have hmem : w.device ∈ want.map (·.device) := List.mem_map_of_mem hwm
  have hne := hw.named w hwm
  have hfresh := hw.fresh w hwm
  have hwanted := h.wanted hmem hne
  have hactive : ∀ j, (t.1.flow j).state = .active ∧ (t.1.flow j).device = w.device ↔ (s.flow j).device = w.device := by
    intro j
    rw [hwanted j, and_iff_right_iff_imp]
    intro hd
    rw [((h.inv hs).slot j).device, (hwanted j).2 hd]
    exact hne
  have htable : flowTable t.1 w.device = flowTable s w.device := by
    rw [h.table hs, retain, if_pos hmem]
  refine ⟨?_, fun hdone j => ?_, fun hdone c hc => ?_⟩
  · rw [flagOn_device, flagOn_slotToCh, flagOn_req, htable, Want.flagOn]
    cases hfind : (List.finRange AP_MAX_FLOWS).find? fun i => (s.flow i).device = w.device with
    | none =>
      rw [List.find?_eq_none] at hfind
      have hnone : flowTable s w.device = none :=
        flowTable_eq_none.2 fun j _ => by simpa using hfind j (List.mem_finRange j)
      simp [hfresh.1, hnone]
    | some i =>
      have hd : (s.flow i).device = w.device := by simpa using List.find?_some hfind
      have ha : (s.flow i).state = .active := (hs.slot i).device.2 (hd ▸ hne)
      have hsome : flowTable s w.device = some (s.flow i).carry := hs.lookup_eq_some.2 ⟨i, ha, hd, rfl⟩
      dsimp only
      rw [hsome, Option.some.injEq, ← sameSlots_iff ((hs.slot i).ids ha) hlen]
      by_cases hsame : sameSlots (s.flow i) w = true
      · simp [hsame]
      · simp [hsame, hfresh.1]
  · rw [flagOn_device, hactive]
    rw [Want.flagOn] at hdone ⊢
    cases hfind : (List.finRange AP_MAX_FLOWS).find? fun i => (s.flow i).device = w.device with
    | none =>
      rw [List.find?_eq_none] at hfind
      have := hfind j (List.mem_finRange j)
      simp only [hfresh.2, reduceCtorEq, false_iff]
      simpa using this
    | some i =>
      have hd : (s.flow i).device = w.device := by simpa using List.find?_some hfind
      rw [hfind] at hdone
      dsimp only at hdone ⊢
      by_cases hsame : sameSlots (s.flow i) w = true
      · rw [if_pos hsame] at hdone
        cases hdone
      · rw [if_neg hsame]
        refine ⟨fun h => by rw [← Option.some.inj h]; exact hd, fun hj => ?_⟩
        have hij : j = i := by
          by_contra hji
          exact hs.device_ne (l := [j]) (hd ▸ hne) (by simpa using Ne.symm hji) j (by simp) (hj.trans hd.symm)
        rw [hij]
  · rw [flagOn_slotToCh] at hc
    rw [Want.flagOn] at hdone
    cases hfind : (List.finRange AP_MAX_FLOWS).find? fun i => (s.flow i).device = w.device with
    | none => simp [hfind, hfresh.1] at hdone
    | some i =>
      have hd : (s.flow i).device = w.device := by simpa using List.find?_some hfind
      refine h.kept c ⟨i, List.mem_finRange i, w, hwm, hd.symm, ?_, hc⟩
      by_contra hsame
      simp [hfind, hsame, hfresh.1] at hdone

end Inferno
