import Inferno.Sanity.Wanting

/-! The flow table between two steps: a slot is active, named and bound in the receiver
together, no transmitter has two flows, and tearing a slot down or moving a flow to
another slot keeps it so. -/

namespace Inferno

open Lib

/-- A flow slot and the receive flow of the same index agree. -/
structure SlotOk (f : FlowSlot) (r : RxFlow) : Prop where
  device : f.state = .active ↔ f.device ≠ []
  rx : r.active = true ↔ f.state = .active
  bound : f.state = .active → r.nslots = f.slotToCh.length ∧ r.slotToCh = slotMap f.slotToCh
  ids : f.state = .active → f.req.txChannelId.length = f.slotToCh.length
  sorted : f.state = .active → f.slotToCh.Pairwise (· < ·)
  ne : f.state = .active → f.slotToCh ≠ []

structure FlowInv (s : Sub) : Prop where
  slot : ∀ i, SlotOk (s.flow i) (s.rx i)
  keys : KeysDistinct fun i => (s.flow i).entry

theorem SlotOk.idle {f : FlowSlot} {r : RxFlow} (hf : f.state = .idle) (hd : f.device = []) (hr : r.active = false) :
    SlotOk f r := by
  have hne : f.state ≠ .active := by simp [hf]
  exact ⟨by simp [hf, hd], by simp [hf, hr], fun h => absurd h hne, fun h => absurd h hne,
    fun h => absurd h hne, fun h => absurd h hne⟩

theorem entry_eq_some {f : FlowSlot} {d : CStr} {v : Carry} :
    f.entry = some (d, v) ↔ f.state = .active ∧ f.device = d ∧ f.carry = v := by
  simp only [FlowSlot.entry, Option.ite_none_right_eq_some, Option.some.injEq, Prod.mk.injEq]

theorem entry_eq_none {f : FlowSlot} : f.entry = none ↔ f.state ≠ .active := by
  simp [FlowSlot.entry]

theorem SlotOk.entry_eq_none {f : FlowSlot} {r : RxFlow} (h : SlotOk f r) : f.entry = none ↔ f.device = [] := by
  rw [Inferno.entry_eq_none, Ne, h.device, not_not]

theorem SlotOk.channels {f : FlowSlot} {r : RxFlow} (h : SlotOk f r) (hf : f.state = .active) :
    f.carry.map Prod.fst = f.slotToCh :=
  List.map_fst_zip (h.ids hf).ge

theorem FlowInv.lookup_eq_some {s : Sub} (h : FlowInv s) {d : CStr} {v : Carry} :
    flowTable s d = some v ↔ ∃ i, (s.flow i).state = .active ∧ (s.flow i).device = d ∧ (s.flow i).carry = v := by
  rw [flowTable, h.keys.lookup_eq_some]
  exact exists_congr fun i => entry_eq_some

theorem flowTable_eq_none {s : Sub} {d : CStr} :
    flowTable s d = none ↔ ∀ i, (s.flow i).state = .active → (s.flow i).device ≠ d := by
  rw [flowTable, lookup_eq_none]
  refine forall_congr' fun i => ⟨fun h ha hd => h _ (entry_eq_some.2 ⟨ha, hd, rfl⟩), fun h v hv => ?_⟩
  obtain ⟨ha, hd, -⟩ := entry_eq_some.1 hv
  exact h ha hd

theorem flowTable_congr {s u : Sub} (h : u.flow = s.flow) : flowTable u = flowTable s := by
  rw [flowTable, h, ← flowTable]

theorem FlowInv.congr {s u : Sub} (h : FlowInv s) (hf : u.flow = s.flow) (hr : u.rx = s.rx) : FlowInv u :=
  ⟨fun i => by rw [hf, hr]; exact h.slot i, by rw [hf]; exact h.keys⟩

theorem flowInv_boot : FlowInv Sub.boot :=
  ⟨fun _ => SlotOk.idle rfl rfl rfl, fun _ _ _ _ _ h => absurd h (by simp [Sub.boot, FlowSlot.entry, FlowSlot.zero])⟩

/-- Slot `i` now holds `g`, received by `x`; the slot named by `r`, if any, is torn down. -/
structure Moved (u u' : Sub) (i : Fin AP_MAX_FLOWS) (r : Option (Fin AP_MAX_FLOWS)) (g : FlowSlot) (x : RxFlow) :
    Prop where
  flow : ∀ j, u'.flow j = if j = i then g else if r = some j then FlowSlot.zero else u.flow j
  here : u'.rx i = x
  gone : ∀ j, j ≠ i → r = some j → (u'.rx j).active = false
  rx : ∀ j, j ≠ i → r ≠ some j → u'.rx j = u.rx j

section Moves

variable {u u' : Sub} {i : Fin AP_MAX_FLOWS} {r : Option (Fin AP_MAX_FLOWS)} {g : FlowSlot} {x : RxFlow}

theorem Moved.entries (h : Moved u u' i r g x) :
    (fun j => (u'.flow j).entry) = Function.update (clear (fun j => (u.flow j).entry) r) i g.entry := by
  funext j
  rw [h.flow]
  by_cases hj : j = i
  · subst hj
    simp
  · rw [if_neg hj, Function.update_of_ne hj]
    cases r with
    | none => simp [clear]
    | some r =>
      by_cases hr : r = j
      · subst hr
        simp [clear, FlowSlot.entry, FlowSlot.zero]
      · simp [clear, hr, Ne.symm hr]

/-- Filling a free slot with a flow of transmitter `d`, or with nothing, when the slot
torn down is the one that `d` had. -/
theorem Moved.inv {d : CStr} {v : Option Carry} (h : Moved u u' i r g x) (hok : SlotOk g x) (hu : FlowInv u)
    (hr : ∀ j, r = some j ↔ (u.flow j).state = .active ∧ (u.flow j).device = d)
    (hg : g.entry = v.map (d, ·)) : FlowInv u' := by
  refine ⟨fun j => ?_, ?_⟩
  · by_cases hj : j = i
    · subst hj
      rw [h.flow, if_pos rfl, h.here]
      exact hok
    · rw [h.flow, if_neg hj]
      by_cases hrj : r = some j
      · rw [if_pos hrj]
        exact SlotOk.idle rfl rfl (h.gone j hj hrj)
      · rw [if_neg hrj, h.rx j hj hrj]
        exact hu.slot j
  · rw [h.entries, hg]
    refine hu.keys.put fun j v hv => ?_
    obtain ⟨ha, hd, -⟩ := entry_eq_some.1 hv
    exact (hr j).2 ⟨ha, hd⟩

theorem Moved.table {d : CStr} {v : Option Carry} (h : Moved u u' i r g x) (hu : FlowInv u)
    (hi : (u.flow i).device = [])
    (hr : ∀ j, r = some j ↔ (u.flow j).state = .active ∧ (u.flow j).device = d)
    (hg : g.entry = v.map (d, ·)) : flowTable u' = Function.update (flowTable u) d v := by
  rw [flowTable, h.entries, hg]
  refine hu.keys.lookup_put ((hu.slot i).entry_eq_none.2 hi) (fun j v hv => ?_) fun j hj => ?_
  · obtain ⟨ha, hd, -⟩ := entry_eq_some.1 hv
    exact (hr j).2 ⟨ha, hd⟩
  · obtain ⟨ha, hd⟩ := (hr j).1 hj
    exact ⟨_, entry_eq_some.2 ⟨ha, hd, rfl⟩⟩

theorem Moved.elsewhere {d e : CStr} {v : Option Carry} (h : Moved u u' i r g x) (hu : FlowInv u)
    (hi : (u.flow i).device = [])
    (hr : ∀ j, r = some j ↔ (u.flow j).state = .active ∧ (u.flow j).device = d)
    (hg : g.entry = v.map (d, ·)) (he : e ≠ d) (j : Fin AP_MAX_FLOWS) :
    (u'.flow j).state = .active ∧ (u'.flow j).device = e ↔ (u.flow j).state = .active ∧ (u.flow j).device = e := by
  rw [h.flow]
  by_cases hj : j = i
  · subst hj
    have hidle : (u.flow j).state ≠ .active := by rw [Ne, (hu.slot j).device, hi]; simp
    rw [if_pos rfl, iff_false_right (fun h => hidle h.1)]
    rintro ⟨ha, hd⟩
    cases v with
    | none => exact entry_eq_none.1 hg ha
    | some v => exact he (hd.symm.trans (entry_eq_some.1 hg).2.1)
  · rw [if_neg hj]
    by_cases hrj : r = some j
    · have hd := ((hr j).1 hrj).2
      rw [if_pos hrj, iff_false_right (fun h => he (h.2.symm.trans hd))]
      rintro ⟨ha, -⟩
      cases ha
    · rw [if_neg hrj]

theorem Moved.idle_entry (h : Moved u u' i none g x) (hu : FlowInv u)
    (hi : (u.flow i).device = []) (hg : g.state = .idle) :
    (fun j => (u'.flow j).entry) = fun j => (u.flow j).entry := by
  have hgn : g.entry = none := entry_eq_none.2 (by simp [hg])
  rw [h.entries, hgn]
  show Function.update (fun j => (u.flow j).entry) i none = _
  rw [← (hu.slot i).entry_eq_none.2 hi]
  exact Function.update_eq_self i _

theorem Moved.idle_inv (h : Moved u u' i none g x) (hok : SlotOk g x) (hu : FlowInv u)
    (hi : (u.flow i).device = []) (hg : g.state = .idle) : FlowInv u' := by
  refine ⟨fun j => ?_, by rw [h.idle_entry hu hi hg]; exact hu.keys⟩
  rw [h.flow]
  by_cases hj : j = i
  · subst hj
    rw [if_pos rfl, h.here]
    exact hok
  · rw [if_neg hj, if_neg (by simp), h.rx j hj (by simp)]
    exact hu.slot j

theorem Moved.refl (u : Sub) (i : Fin AP_MAX_FLOWS) : Moved u u i none (u.flow i) (u.rx i) := by
  refine ⟨fun j => ?_, rfl, fun j _ h => absurd h (by simp), fun j _ _ => rfl⟩
  by_cases hj : j = i
  · rw [if_pos hj, hj]
  · rw [if_neg hj, if_neg (by simp)]

theorem Moved.congr {u'' : Sub} (h : Moved u u' i r g x) (hf : u''.flow = u'.flow) (hr : u''.rx = u'.rx) :
    Moved u u'' i r g x :=
  ⟨by rw [hf]; exact h.flow, by rw [hr]; exact h.here, by rw [hr]; exact h.gone, by rw [hr]; exact h.rx⟩

theorem Moved.setFlow (h : Moved u u' i r g x) (g' : FlowSlot) : Moved u (u'.setFlow i g') i r g' x := by
  refine ⟨fun j => ?_, h.here, h.gone, h.rx⟩
  by_cases hj : j = i
  · subst hj
    simp [Sub.setFlow]
  · rw [if_neg hj]
    simpa [Sub.setFlow, hj] using h.flow j

theorem Moved.setRx (h : Moved u u' i r g x) (x' : RxFlow) : Moved u (u'.setRx i x') i r g x' := by
  refine ⟨h.flow, by simp [Sub.setRx], fun j hj hr => ?_, fun j hj hr => ?_⟩
  · simpa [Sub.setRx, hj] using h.gone j hj hr
  · simpa [Sub.setRx, hj] using h.rx j hj hr

@[simp] theorem tearDown_ch (i : Fin AP_MAX_FLOWS) (s : Sub) : (tearDown i s).ch = s.ch := by
  unfold tearDown
  split_ifs <;> rfl

@[simp] theorem tearDown_dirty (i : Fin AP_MAX_FLOWS) (s : Sub) : (tearDown i s).dirty = s.dirty := by
  unfold tearDown
  split_ifs <;> rfl

theorem tearDown_flow (i : Fin AP_MAX_FLOWS) (s : Sub) :
    (tearDown i s).flow = Function.update s.flow i FlowSlot.zero := by
  unfold tearDown
  split_ifs <;> rfl

theorem tearDown_rx (i : Fin AP_MAX_FLOWS) (s : Sub) :
    (tearDown i s).rx =
      if (s.flow i).state = .active then Function.update s.rx i (aoipRxUnbindFlow (s.rx i)) else s.rx := by
  unfold tearDown
  split_ifs <;> rfl

theorem tearDown_rx_of_ne {i j : Fin AP_MAX_FLOWS} (h : j ≠ i) (s : Sub) : (tearDown i s).rx j = s.rx j := by
  rw [tearDown_rx]
  split_ifs
  · exact Function.update_of_ne h _ _
  · rfl

theorem SlotOk.tearDown {i : Fin AP_MAX_FLOWS} {s : Sub} (h : SlotOk (s.flow i) (s.rx i)) :
    ((Inferno.tearDown i s).rx i).active = false := by
  rw [tearDown_rx]
  split_ifs with ha
  · rw [Function.update_self]
    rfl
  · rw [← Bool.not_eq_true, h.rx]
    exact ha

theorem tearDown_entries (i : Fin AP_MAX_FLOWS) (s : Sub) :
    (fun j => ((tearDown i s).flow j).entry) = clear (fun j => (s.flow j).entry) (some i) := by
  funext j
  rw [tearDown_flow]
  by_cases hj : j = i
  · subst hj
    simp [clear, FlowSlot.entry, FlowSlot.zero]
  · simp [clear, hj]

theorem Moved.tearDown {k : Fin AP_MAX_FLOWS} (h : Moved u u' i none g x) (hk : k ≠ i)
    (hok : SlotOk (u.flow k) (u.rx k)) : Moved u (Inferno.tearDown k u') i (some k) g x := by
  have hok' : SlotOk (u'.flow k) (u'.rx k) := by
    rw [h.flow, if_neg hk, if_neg (by simp), h.rx k hk (by simp)]
    exact hok
  refine ⟨fun j => ?_, by rw [tearDown_rx_of_ne hk.symm, h.here], fun j _ hj => ?_, fun j hj hjk => ?_⟩
  · rw [tearDown_flow]
    by_cases hjk : j = k
    · subst hjk
      rw [Function.update_self, if_neg hk, if_pos rfl]
    · rw [Function.update_of_ne hjk, h.flow, if_neg (by simp : ¬ (none : Option (Fin AP_MAX_FLOWS)) = some j),
        if_neg (fun hkj : some k = some j => hjk (Option.some.inj hkj).symm)]
  · rw [← Option.some.inj hj]
    exact hok'.tearDown
  · rw [tearDown_rx_of_ne fun h => hjk (by rw [h])]
    exact h.rx j hj (by simp)

end Moves

theorem FlowInv.tearDown {s : Sub} (h : FlowInv s) (i : Fin AP_MAX_FLOWS) : FlowInv (Inferno.tearDown i s) := by
  refine ⟨fun j => ?_, ?_⟩
  · by_cases hj : j = i
    · subst hj
      rw [tearDown_flow, Function.update_self]
      exact SlotOk.idle rfl rfl (h.slot j).tearDown
    · rw [tearDown_flow, Function.update_of_ne hj, tearDown_rx_of_ne hj]
      exact h.slot j
  · rw [tearDown_entries]
    intro j k d v w hj hk
    exact h.keys j k d v w (clear_eq_some.1 hj).1 (clear_eq_some.1 hk).1

theorem FlowInv.tearDown_table {s : Sub} (h : FlowInv s) {i : Fin AP_MAX_FLOWS} (hi : (s.flow i).state = .active) :
    flowTable (Inferno.tearDown i s) = Function.update (flowTable s) (s.flow i).device none := by
  funext d
  refine Option.ext fun v => ?_
  rw [(h.tearDown i).lookup_eq_some]
  by_cases hd : d = (s.flow i).device
  · subst hd
    rw [Function.update_self]
    refine iff_of_false ?_ (by simp)
    rintro ⟨j, ha, hd, -⟩
    rw [tearDown_flow] at ha hd
    by_cases hj : j = i
    · subst hj
      rw [Function.update_self] at ha
      cases ha
    · rw [Function.update_of_ne hj] at ha hd
      exact hj (h.keys j i _ _ _ (entry_eq_some.2 ⟨ha, hd, rfl⟩) (entry_eq_some.2 ⟨hi, rfl, rfl⟩))
  · rw [Function.update_of_ne hd, h.lookup_eq_some]
    refine exists_congr fun j => ?_
    rw [tearDown_flow]
    by_cases hj : j = i
    · subst hj
      rw [Function.update_self]
      exact iff_of_false (fun h => by cases h.1) (fun h => hd h.2.1.symm)
    · rw [Function.update_of_ne hj]

end Inferno
