import Inferno.Sanity.Request

/-! A rebuild refines the reconciliation of the abstract table: the flow of every
transmitter meets the fate that the patch, the slots and the answers decide, and the
statuses follow. -/

namespace Inferno

open Lib

variable {prof : RateProfile} {o : Outcomes} {s : Sub}

/-- What holds of the subscriber between two steps of its task. -/
structure SubInv (s : Sub) : Prop where
  flows : FlowInv s
  names : ∀ c, (s.ch c).txDevice.length ≤ 31

theorem wantedDevices_nodup : (wantedDevices prof o s).Nodup := devicesOn_nodup _

theorem wantedDevices_length : (wantedDevices prof o s).length ≤ AP_MAX_FLOWS := devicesOn_length _

theorem mem_wantedDevices {d : CStr} (h : d ∈ wantedDevices prof o s) :
    ∃ c, (feed prof o s c).isSome = true ∧ (s.ch c).txDevice = d := by
  have hmem := List.mem_eraseDups.1 (List.mem_of_mem_take h)
  obtain ⟨c, hc, hd⟩ := List.mem_map.1 hmem
  exact ⟨c, by simpa using (List.mem_filter.1 hc).2, hd⟩

theorem goal_ne_nil {d : CStr} (h : d ∈ wantedDevices prof o s) : goal prof o s d ≠ [] := by
  obtain ⟨c, hc, hd⟩ := mem_wantedDevices h
  obtain ⟨tx, htx⟩ := Option.isSome_iff_exists.1 hc
  exact List.ne_nil_of_mem (mem_goal.2 ⟨hd, tx, htx, rfl⟩ : (c, tx.txChannelId) ∈ goal prof o s d)

theorem goal_zip (d : CStr) :
    ((goal prof o s d).map Prod.fst).zip ((goal prof o s d).map Prod.snd) = goal prof o s d := by
  rw [← List.unzip_fst, ← List.unzip_snd, List.zip_unzip]

section Table

variable {want : List Want} (hw : WantsOn prof o s (List.finRange AP_NCH) want)
include hw

theorem WantsOn.mem_wanted {w : Want} (hwm : w ∈ want) : w.device ∈ wantedDevices prof o s := by
  rw [wantedDevices, ← hw.devices]
  exact List.mem_map_of_mem hwm

theorem WantsOn.carry {w : Want} (hwm : w ∈ want) :
    w.slotToCh.zip w.req.txChannelId = goal prof o s w.device := by
  rw [hw.slots w hwm, hw.ids w hwm]
  exact goal_zip w.device

theorem WantsOn.mem_slots {w : Want} (hwm : w ∈ want) {c : Fin AP_NCH} :
    c ∈ w.slotToCh ↔ (s.ch c).txDevice = w.device ∧ (feed prof o s c).isSome = true := by
  rw [hw.slots w hwm]
  exact mem_goal_channels

theorem WantsOn.table (hnamed : Named prof o s) : WantTable s.ch want := by
  refine ⟨hw.devices ▸ devicesOn_nodup _, fun w hwm => ?_, hw.fresh, fun w hwm c hc => ?_⟩
  · obtain ⟨c, hc, hd⟩ := mem_wantedDevices (hw.mem_wanted hwm)
    exact hd ▸ hnamed c hc
  · exact feed_subscribed ((hw.mem_slots hwm).1 hc).2

theorem WantsOn.wantOk_of_named (hnames : ∀ c, (s.ch c).txDevice.length ≤ 31) {w : Want} (hwm : w ∈ want)
    (hnamed : w.device ≠ []) : WantOk w := by
  obtain ⟨c, -, hd⟩ := mem_wantedDevices (hw.mem_wanted hwm)
  refine ⟨hnamed, hd ▸ hnames c, ?_, ?_, ?_⟩
  · rw [hw.slots w hwm, hw.ids w hwm, List.length_map, List.length_map]
  · rw [hw.slots w hwm]
    exact goal_sorted w.device
  · rw [hw.slots w hwm, Ne, List.map_eq_nil_iff]
    exact goal_ne_nil (hw.mem_wanted hwm)

theorem WantsOn.wantOk (hs : SubInv s) (hnamed : Named prof o s) {w : Want} (hwm : w ∈ want) : WantOk w :=
  hw.wantOk_of_named hs.names hwm ((hw.table hnamed).named w hwm)

end Table

variable (prof o s)

/-- The subscriber before the turn of the `k`-th want, when step 2 left `u`. -/
structure AtWant (u : Sub) (ws : List Want) (k : ℕ) (v : Sub) : Prop where
  inv : FlowInv v
  same : SameSub s.ch v
  dirty : v.dirty = u.dirty
  table : flowTable v =
    tableAt AP_MAX_FLOWS (wantedDevices prof o s) (goal prof o s) (attempts o) (flowTable s) k
  flags : ∀ j (hj : j < ws.length), k ≤ j → Flagged v ws[j]
  status : ∀ c, (v.ch c).status =
    if (feed prof o s c).isSome = true ∧ (s.ch c).txDevice ∈ (wantedDevices prof o s).take k then
      statusAfter (u.ch c).status (flowFate prof o s (s.ch c).txDevice)
    else (u.ch c).status

variable {prof o s}

theorem AtWant.step {u v : Sub} {ws : List Want} {k : ℕ} (h : AtWant prof o s u ws k v)
    (hdevices : ws.map (·.device) = wantedDevices prof o s) (hk : k < ws.length) (hok : WantOk ws[k])
    (hcarry : goal prof o s ws[k].device = ws[k].slotToCh.zip ws[k].req.txChannelId)
    (hslots : ∀ c, c ∈ ws[k].slotToCh ↔ (s.ch c).txDevice = ws[k].device ∧ (feed prof o s c).isSome = true)
    (hdisjoint : ∀ j (hj : j < ws.length), ∀ c ∈ ws[j].slotToCh, (s.ch c).txDevice = ws[j].device) :
    AtWant prof o s u ws (k + 1) (requestWant o s.ch v (ws[k], k)) := by
  have hlen : ws.length = (wantedDevices prof o s).length := by rw [← hdevices, List.length_map]
  have hk' : k < (wantedDevices prof o s).length := hlen ▸ hk
  have hkey : ws[k].device = (wantedDevices prof o s)[k] := by
    simp only [← hdevices, List.getElem_map]
  have hfull : freeSlot v = none ↔ Full AP_MAX_FLOWS (wantedDevices prof o s) (flowTable v) := by
    refine h.inv.freeSlot_iff wantedDevices_nodup fun d hd => ?_
    by_contra hnot
    rw [h.table, tableAt_apply wantedDevices_nodup (by omega), if_neg fun hm => hnot (List.mem_of_mem_take hm),
      retain, if_neg hnot] at hd
    exact hd rfl
  have hreq := requestWant_requested (o := o) (k := k) h.inv h.same hok (h.flags k hk le_rfl) hcarry hfull
  have hfate : fateNow AP_MAX_FLOWS (wantedDevices prof o s) (goal prof o s) (attempts o) (flowTable v) (ws[k].device, k) =
      flowFate prof o s ws[k].device := by
    rw [h.table, hkey, flowFate, fateOf_getElem wantedDevices_nodup hk']
  have hne : ∀ j (hj : j < ws.length), k + 1 ≤ j → ws[j].device ≠ ws[k].device := by
    intro j hj hkj heq
    have hnd : (ws.map (·.device)).Nodup := hdevices ▸ wantedDevices_nodup
    have := index_of_key hnd hj hk heq
    omega
  refine ⟨hreq.inv, hreq.same, hreq.dirty.trans h.dirty, ?_, fun j hj hkj => ?_, fun c => ?_⟩
  · rw [hreq.table, h.table, tableAt_succ hk', hkey]
  · have hflag := h.flags j hj (by omega)
    have htable : flowTable (requestWant o s.ch v (ws[k], k)) ws[j].device = flowTable v ws[j].device := by
      rw [hreq.table, attend, Function.update_of_ne (hne j hj hkj)]
    refine ⟨by rw [htable]; exact hflag.done, fun hdone r => ?_, fun hdone c hc => ?_⟩
    · rw [hreq.elsewhere _ (hne j hj hkj)]
      exact hflag.replaces hdone r
    · have hnot : c ∉ ws[k].slotToCh := by
        intro hck
        exact hne j hj hkj ((hdisjoint j hj c hc).symm.trans (hdisjoint k hk c hck))
      rw [hreq.status, if_neg fun hc => hnot hc.1]
      exact hflag.active hdone c hc
  · have hnot : ws[k].device ∉ (wantedDevices prof o s).take k := by
      rw [hkey, List.mem_take_iff_idxOf_lt (List.getElem_mem _), wantedDevices_nodup.idxOf_getElem]
      exact lt_irrefl k
    have htake : ∀ d, d ∈ (wantedDevices prof o s).take (k + 1) ↔
        d ∈ (wantedDevices prof o s).take k ∨ d = ws[k].device := by
      intro d
      rw [← List.take_concat_get' _ k hk', List.mem_append, List.mem_singleton, hkey]
    rw [hreq.status, h.status, hfate]
    simp only [htake]
    by_cases hf : (feed prof o s c).isSome = true
    · by_cases hd : (s.ch c).txDevice = ws[k].device
      · rw [if_pos ⟨(hslots c).2 ⟨hd, hf⟩, feed_subscribed hf⟩, if_neg (fun h => hnot (hd ▸ h.2)), if_pos ⟨hf, Or.inr hd⟩, hd]
      · rw [if_neg fun h => hd ((hslots c).1 h.1).1]
        simp only [hf, hd, true_and, or_false]
    · rw [if_neg fun h => hf ((hslots c).1 h.1).2, if_neg fun h => hf h.1, if_neg fun h => hf h.1]

def wanted (prof : RateProfile) (o : Outcomes) (s : Sub) : Sub :=
  { (wantAll prof o s).s with latencyFloorUs := (wantAll prof o s).floorUs }

def reconciledTable (prof : RateProfile) (o : Outcomes) (s : Sub) : Sub × List Want :=
  (List.finRange AP_MAX_FLOWS).foldl (reconcileFlow s.ch) (wanted prof o s, (wantAll prof o s).want)

theorem rebuild_eq : rebuild prof o s =
    (reconciledTable prof o s).2.zipIdx.foldl (requestWant o s.ch) (reconciledTable prof o s).1 := rfl

theorem wanted_flows (hs : SubInv s) : FlowInv (wanted prof o s) :=
  hs.flows.congr (wantAll_spec prof o s).2.flow (wantAll_spec prof o s).2.rx

theorem wanted_table : flowTable (wanted prof o s) = flowTable s := flowTable_congr (wantAll_spec prof o s).2.flow

theorem reconciledTable_spec (hs : SubInv s) (hnamed : Named prof o s) :
    ReconciledOn s.ch (wanted prof o s) (wantAll prof o s).want (List.finRange AP_MAX_FLOWS) (reconciledTable prof o s) :=
  reconciled (wanted_flows hs) ((wantAll_spec prof o s).1.table hnamed) ((wantAll_spec prof o s).2.same.of_ch rfl)

theorem reconciledTable_want (hs : SubInv s) (hnamed : Named prof o s) {j : ℕ}
    (hj : j < (reconciledTable prof o s).2.length) :
    ∃ w ∈ (wantAll prof o s).want,
      (reconciledTable prof o s).2[j] = w.flagOn (wanted prof o s) (List.finRange AP_MAX_FLOWS) := by
  have hflags := (reconciledTable_spec hs hnamed).flags
  have hj' : j < (wantAll prof o s).want.length := by simpa [hflags] using hj
  exact ⟨_, List.getElem_mem hj', by simp [hflags]⟩

theorem reconciledTable_devices (hs : SubInv s) (hnamed : Named prof o s) :
    (reconciledTable prof o s).2.map (·.device) = wantedDevices prof o s := by
  rw [(reconciledTable_spec hs hnamed).flags, List.map_map, wantedDevices, ← (wantAll_spec prof o s).1.devices]
  exact List.map_congr_left fun w _ => flagOn_device

theorem reconciledTable_length (hs : SubInv s) (hnamed : Named prof o s) :
    (reconciledTable prof o s).2.length = (wantedDevices prof o s).length := by
  rw [← reconciledTable_devices hs hnamed, List.length_map]

theorem reconciledTable_slots (hs : SubInv s) (hnamed : Named prof o s) {j : ℕ}
    (hj : j < (reconciledTable prof o s).2.length) (c : Fin AP_NCH) :
    c ∈ (reconciledTable prof o s).2[j].slotToCh ↔
      (s.ch c).txDevice = (reconciledTable prof o s).2[j].device ∧ (feed prof o s c).isSome = true := by
  obtain ⟨w, hwm, hwj⟩ := reconciledTable_want hs hnamed hj
  rw [hwj, flagOn_slotToCh, flagOn_device]
  exact (wantAll_spec prof o s).1.mem_slots hwm

theorem atWant_zero (hs : SubInv s) (hnamed : Named prof o s) :
    AtWant prof o s (reconciledTable prof o s).1 (reconciledTable prof o s).2 0 (reconciledTable prof o s).1 := by
  have hwants := (wantAll_spec prof o s).1
  have hrec := reconciledTable_spec hs hnamed
  refine ⟨hrec.inv (wanted_flows hs), hrec.same, rfl, ?_, fun j hj _ => ?_, fun c => ?_⟩
  · rw [hrec.table (wanted_flows hs), wanted_table, hwants.devices]
    rfl
  · obtain ⟨w, hwm, hwj⟩ := reconciledTable_want hs hnamed hj
    rw [hwj]
    exact hrec.flagged (wanted_flows hs) (hwants.table hnamed) hwm (hwants.wantOk hs hnamed hwm).ids
  · simp

theorem atWant_run (hs : SubInv s) (hnamed : Named prof o s) {k : ℕ} (hk : k ≤ (reconciledTable prof o s).2.length) :
    AtWant prof o s (reconciledTable prof o s).1 (reconciledTable prof o s).2 k
      (before (requestWant o s.ch) (reconciledTable prof o s).1 (reconciledTable prof o s).2.zipIdx k) := by
  induction k with
  | zero => exact atWant_zero hs hnamed
  | succ k ih =>
    have hlt : k < (reconciledTable prof o s).2.length := hk
    have hwants := (wantAll_spec prof o s).1
    obtain ⟨w, hwm, hwk⟩ := reconciledTable_want hs hnamed hlt
    have hok := hwants.wantOk hs hnamed hwm
    rw [before_succ _ _ _ (by simpa using hlt), List.getElem_zipIdx, Nat.zero_add]
    apply (ih hlt.le).step (reconciledTable_devices hs hnamed) hlt
    · rw [hwk]
      exact hok.flagOn _
    · rw [hwk, flagOn_device, flagOn_slotToCh, flagOn_req, hwants.carry hwm]
    · exact reconciledTable_slots hs hnamed hlt
    · exact fun j hj c hc => ((reconciledTable_slots hs hnamed hj c).1 hc).1

theorem atWant_rebuild (hs : SubInv s) (hnamed : Named prof o s) :
    AtWant prof o s (reconciledTable prof o s).1 (reconciledTable prof o s).2 (wantedDevices prof o s).length
      (rebuild prof o s) := by
  have h := atWant_run hs hnamed le_rfl
  have hend : before (requestWant o s.ch) (reconciledTable prof o s).1 (reconciledTable prof o s).2.zipIdx
      (reconciledTable prof o s).2.length = rebuild prof o s := by
    rw [← List.length_zipIdx, before_length, rebuild_eq]
  rwa [hend, reconciledTable_length hs hnamed] at h

theorem kept_of_keptOn (hs : SubInv s) (hnamed : Named prof o s) {c : Fin AP_NCH}
    (h : KeptOn (wanted prof o s) (wantAll prof o s).want (List.finRange AP_MAX_FLOWS) c) :
    Placed prof o s c ∧ flowFate prof o s (s.ch c).txDevice = .kept := by
  have hwants := (wantAll_spec prof o s).1
  obtain ⟨i, -, w, hwm, hwi, hsame, hc⟩ := h
  obtain ⟨hcd, hf⟩ := (hwants.mem_slots hwm).1 hc
  have hmem := hwants.mem_wanted hwm
  have hok := hwants.wantOk hs hnamed hwm
  have hslot : SlotOk ((wanted prof o s).flow i) ((wanted prof o s).rx i) := (wanted_flows hs).slot i
  have hactive := hslot.device.2 (hwi ▸ hok.named)
  refine ⟨⟨hf, hcd ▸ hmem⟩, ?_⟩
  rw [hcd, flowFate, fateOf_eq_kept wantedDevices_nodup hmem, ← wanted_table, (wanted_flows hs).lookup_eq_some,
    ← hwants.carry hwm]
  exact ⟨i, hactive, hwi.symm, (sameSlots_iff (hslot.ids hactive) hok.ids).1 hsame⟩

/-- What a rebuild does, in terms of the patch. -/
structure Rebuilt (prof : RateProfile) (o : Outcomes) (s s' : Sub) : Prop where
  inv : SubInv s'
  same : SameSub s.ch s'
  table : flowTable s' = patched prof o s
  status : ∀ c, (s'.ch c).status =
    if (s.ch c).txChannel = [] then (s.ch c).status
    else if Placed prof o s c then statusAfter (s.ch c).status (flowFate prof o s (s.ch c).txDevice)
    else .pending

theorem patched_apply (d : CStr) : patched prof o s d =
    if d ∈ wantedDevices prof o s then (flowFate prof o s d).after (goal prof o s d) (flowTable s d) else none := by
  rw [patched, reconcile_apply wantedDevices_nodup]
  by_cases hd : d ∈ wantedDevices prof o s
  · rw [if_pos hd, if_pos hd]
    rfl
  · rw [if_neg hd, if_neg hd]

theorem rebuild_status (hs : SubInv s) (hnamed : Named prof o s) (c : Fin AP_NCH) :
    ((rebuild prof o s).ch c).status =
      if (s.ch c).txChannel = [] then (s.ch c).status
      else if Placed prof o s c then statusAfter (s.ch c).status (flowFate prof o s (s.ch c).txDevice)
      else .pending := by
  have hplaced : Placed prof o s c ↔ PlacedOn prof o s (List.finRange AP_NCH) c := Iff.rfl
  have hbase : ((wanted prof o s).ch c).status = _ := (wantAll_spec prof o s).2.status c
  have hother := (reconciledTable_spec hs hnamed).other c
  have hend : ((rebuild prof o s).ch c).status =
      if Placed prof o s c then
        statusAfter ((reconciledTable prof o s).1.ch c).status (flowFate prof o s (s.ch c).txDevice)
      else ((reconciledTable prof o s).1.ch c).status := by
    have h := (atWant_rebuild hs hnamed).status c
    rwa [List.take_length] at h
  rw [hend]
  by_cases hp : Placed prof o s c
  · rw [if_pos hp, if_neg (feed_subscribed hp.1), if_pos hp]
    rw [if_neg fun h => h.2.2 (hplaced.1 hp)] at hbase
    -- only a stuck flow shows the old status, and step 2 marks no channel of it
    cases hfate : flowFate prof o s (s.ch c).txDevice with
    | stuck =>
      refine (hother fun h => ?_).trans hbase
      rw [(kept_of_keptOn hs hnamed h).2] at hfate
      cases hfate
    | _ => rfl
  · rw [if_neg hp, hother fun h => hp (kept_of_keptOn hs hnamed h).1]
    by_cases hunsub : (s.ch c).txChannel = []
    · rw [if_pos hunsub]
      rwa [if_neg fun h => h.2.1 hunsub] at hbase
    · rw [if_neg hunsub, if_neg hp]
      rwa [if_pos ⟨List.mem_finRange c, hunsub, hp ∘ hplaced.2⟩] at hbase

/-- A rebuild refines the reconciliation of the abstract table. -/
theorem rebuild_rebuilt (hs : SubInv s) (hnamed : Named prof o s) : Rebuilt prof o s (rebuild prof o s) := by
  have hfinal := atWant_rebuild hs hnamed
  refine ⟨⟨hfinal.inv, fun c => ?_⟩, hfinal.same, hfinal.table.trans tableAt_length, rebuild_status hs hnamed⟩
  rw [(hfinal.same c).2]
  exact hs.names c

theorem rebuild_dirty (hs : SubInv s) (hnamed : Named prof o s) : (rebuild prof o s).dirty = s.dirty :=
  ((atWant_rebuild hs hnamed).dirty.trans (reconciledTable_spec hs hnamed).dirty).trans (wantAll_spec prof o s).2.dirty

section Congr

variable {u : Sub} (hch : u.ch = s.ch) (hres : u.res = s.res)
include hch hres

theorem feed_congr : feed prof o u = feed prof o s := by
  funext c
  rw [feed, answer, hch, resolveCached_congr _ (congrFun hres c), ← answer, ← feed]

theorem goal_congr : goal prof o u = goal prof o s := by
  funext d
  rw [goal, goalOn, hch, feed_congr hch hres, ← goalOn, ← goal]

theorem wantedDevices_congr : wantedDevices prof o u = wantedDevices prof o s := by
  rw [wantedDevices, devicesOn, hch, feed_congr hch hres, ← devicesOn, ← wantedDevices]

theorem Named.congr (h : Named prof o s) : Named prof o u := by
  rw [Named, hch, feed_congr hch hres]
  exact h

theorem Rebuilt.of_congr {s' : Sub} (hflow : u.flow = s.flow) (h : Rebuilt prof o u s') : Rebuilt prof o s s' := by
  have hfate : flowFate prof o u = flowFate prof o s := by
    funext d
    rw [flowFate, wantedDevices_congr hch hres, goal_congr hch hres, flowTable_congr hflow, ← flowFate]
  refine ⟨h.inv, hch ▸ h.same, ?_, fun c => ?_⟩
  · rw [h.table, patched, wantedDevices_congr hch hres, goal_congr hch hres, flowTable_congr hflow, ← patched]
  · rw [h.status, hch, hfate]
    refine if_congr Iff.rfl rfl (if_congr ?_ rfl rfl)
    rw [Placed, feed_congr hch hres, hch, wantedDevices_congr hch hres, ← Placed]

end Congr

end Inferno
