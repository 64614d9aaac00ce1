import Inferno.Sanity.Slots

/-! Which slots a rebuild touches, when no two slots have the same transmitter. Step 1
touches none. Step 2 touches those that it retires, and notes in a want the flow that it
replaces. Step 3 touches these flows, and free slots. -/

namespace Inferno

open Lib

def OneSlotEach (s : Sub) : Prop := ∀ i j, (s.flow i).device ≠ [] → (s.flow i).device = (s.flow j).device → i = j

instance (s : Sub) : Decidable (OneSlotEach s) := inferInstanceAs (Decidable (∀ _ _, _ → _ → _))

variable {prof : RateProfile} {o : Outcomes} {s u : Sub} {snap : Fin AP_NCH → RxChannel} {want : List Want}
  {l : List (Fin AP_MAX_FLOWS)} {t : Sub × List Want} {i j : Fin AP_MAX_FLOWS} {w : Want} {k : ℕ}

theorem resolveCached_frame (o : Outcomes) (c : Fin AP_NCH) (ch : RxChannel) (u : Sub) :
    ∃ res, (resolveCached o c ch u).1 = { u with res := res } := by
  unfold resolveCached
  dsimp only
  split_ifs
  · exact ⟨u.res, rfl⟩
  · cases o.resolve c with
    | none => exact ⟨_, rfl⟩
    | some tx => exact ⟨_, rfl⟩

theorem Untouched.wantChannel {t : Wanting} (h : Untouched j s t.s) (c : Fin AP_NCH) :
    Untouched j s (wantChannel prof o snap t c).s := by
  have hpending : ∀ v, Untouched j s v → Untouched j s (setStatusIfCurrent snap c .pending v) :=
    fun v hv => hv.setStatuses [c] .pending
  obtain ⟨res, hres⟩ := resolveCached_frame o c (snap c) t.s
  have hresolved : Untouched j s { t.s with res := res } := h.same rfl rfl rfl
  unfold Inferno.wantChannel
  by_cases hsub : (snap c).txChannel = []
  · rw [if_pos hsub]
    exact h.same rfl rfl rfl
  rw [if_neg hsub]
  rcases hr : resolveCached o c (snap c) t.s with ⟨v, _ | tx⟩
  all_goals
    rw [hr] at hres
    subst hres
    dsimp only
  · exact hpending _ (h.same rfl rfl rfl)
  by_cases hz : tx.sampleRate ≠ prof.hz
  · rw [if_pos hz]
    exact hpending _ hresolved
  rw [if_neg hz]
  cases t.want.findIdx? fun w => w.device = (snap c).txDevice with
  | none =>
    dsimp only
    split_ifs
    · exact hpending _ hresolved
    · exact hresolved
  | some n =>
    dsimp only
    split_ifs
    · exact hpending _ hresolved
    · exact hresolved

theorem untouched_before_wantChannel (prof : RateProfile) (o : Outcomes) (j : Fin AP_MAX_FLOWS) (s : Sub)
    (snap : Fin AP_NCH → RxChannel) (cs : List (Fin AP_NCH)) (n : ℕ) :
    Untouched j s (before (wantChannel prof o snap) ⟨s, [], 0⟩ cs n).s := by
  have hrun := run_induct (wantChannel prof o snap) (s := ⟨s, [], 0⟩) (P := fun _ t => Untouched j s t.s)
    (Untouched.refl j s) (fun _ c ih => ih.wantChannel c)
  exact hrun _

theorem reconcileMoments_last (snap : Fin AP_NCH → RxChannel) (t : Sub × List Want) (i : Fin AP_MAX_FLOWS) :
    (reconcileMoments snap t i).getLastD t = reconcileFlow snap t i := by
  have hdown : ∀ d : Sub × List Want, ((tearDownMoments i t.1).map (·, t.2)).getLastD d = (tearDown i t.1, t.2) := by
    intro d
    unfold tearDownMoments
    split_ifs <;> rfl
  unfold reconcileMoments reconcileFlow
  dsimp only
  by_cases hd : (t.1.flow i).device = []
  · rw [if_pos hd, if_pos hd]
    rfl
  rw [if_neg hd, if_neg hd]
  cases hfind : t.2.findIdx? fun w => !w.done && w.device = (t.1.flow i).device with
  | none => exact hdown t
  | some n =>
    dsimp only
    by_cases hactive : (t.1.flow i).state ≠ .active
    · rw [if_pos hactive, if_pos hactive]
      exact hdown t
    · rw [if_neg hactive, if_neg hactive]
      rfl

theorem untouched_reconcileMoments (hj : j ≠ i) :
    ∀ m ∈ reconcileMoments snap t i, Untouched j t.1 m.1 := by
  have hdown : ∀ m ∈ (tearDownMoments i t.1).map (·, t.2), Untouched j t.1 m.1 := by
    intro m hm
    obtain ⟨v, hv, rfl⟩ := List.mem_map.1 hm
    exact (Untouched.refl j t.1).tearDownMoments hj v hv
  intro m hm
  unfold reconcileMoments at hm
  dsimp only at hm
  by_cases hd : (t.1.flow i).device = []
  · rw [if_pos hd] at hm
    cases hm
  rw [if_neg hd] at hm
  cases hfind : t.2.findIdx? fun w => !w.done && w.device = (t.1.flow i).device with
  | none =>
    rw [hfind] at hm
    exact hdown m hm
  | some n =>
    rw [hfind] at hm
    dsimp only at hm
    by_cases hactive : (t.1.flow i).state = .active
    · rw [if_neg (not_not.2 hactive), List.mem_singleton] at hm
      rw [hm]
      rcases reconcileFlow_cases snap hactive hd with ⟨-, heq⟩ | ⟨n, hn, -, heq⟩
      · rw [heq]
        exact (Untouched.refl j t.1).tearDown hj
      · rw [heq]
        split_ifs
        · exact (Untouched.refl j t.1).setStatuses _ _
        · exact Untouched.refl j t.1
    · rw [if_pos hactive] at hm
      exact hdown m hm

/-- The slot holds a flow that step 2 may keep. -/
def Sub.live (s : Sub) (i : Fin AP_MAX_FLOWS) : Bool := (s.flow i).device ≠ [] ∧ (s.flow i).state = .active

theorem live_iff : s.live i = true ↔ (s.flow i).device ≠ [] ∧ (s.flow i).state = .active := decide_eq_true_iff

def Retired (s : Sub) (want : List Want) (i : Fin AP_MAX_FLOWS) : Prop :=
  (s.flow i).device ≠ [] ∧ ((s.flow i).state ≠ .active ∨ ∀ w ∈ want, w.device ≠ (s.flow i).device)

/-- The want table of step 1, as far as step 2 relies on it. -/
structure FreshWants (want : List Want) : Prop where
  nodup : (want.map (·.device)).Nodup
  fresh : ∀ w ∈ want, w.done = false ∧ w.replaces = none

/-- The subscriber and the want table after the slots of `l`. -/
structure MarkedOn (snap : Fin AP_NCH → RxChannel) (s : Sub) (want : List Want) (l : List (Fin AP_MAX_FLOWS))
    (t : Sub × List Want) : Prop where
  stays : ∀ i, i ∉ l ∨ ¬ Retired s want i → Untouched i s t.1
  gone : ∀ i ∈ l, Retired s want i → t.1.flow i = FlowSlot.zero
  flags : t.2 = want.map (Want.flagOn s (l.filter s.live))
  same : SameSub snap t.1

theorem MarkedOn.stays_concat (h : MarkedOn snap s want l t) :
    ∀ j, j ∉ l ++ [i] ∨ ¬ Retired s want j → Untouched j s t.1 := by
  intro j hj
  apply h.stays j
  exact hj.imp_left fun hj hl => hj (List.mem_append_left _ hl)

theorem MarkedOn.gone_concat (h : MarkedOn snap s want l t) (hi : ¬ Retired s want i) :
    ∀ j ∈ l ++ [i], Retired s want j → t.1.flow j = FlowSlot.zero := by
  intro j hj hret
  rcases List.mem_append.1 hj with hj | hj
  · exact h.gone j hj hret
  · rw [List.mem_singleton.1 hj] at hret
    exact absurd hret hi

theorem filter_live_concat (l : List (Fin AP_MAX_FLOWS)) (i : Fin AP_MAX_FLOWS) :
    (l ++ [i]).filter s.live = if s.live i = true then l.filter s.live ++ [i] else l.filter s.live := by
  rw [List.filter_append]
  split_ifs with hlive
  · rw [List.filter_cons_of_pos hlive, List.filter_nil]
  · rw [List.filter_cons_of_neg hlive, List.filter_nil, List.append_nil]

theorem flags_concat_of_none (h : s.live i = true → ∀ w ∈ want, w.device ≠ (s.flow i).device) :
    want.map (Want.flagOn s ((l ++ [i]).filter s.live)) = want.map (Want.flagOn s (l.filter s.live)) := by
  rw [filter_live_concat]
  split_ifs with hlive
  · exact List.map_congr_left fun w hw => flagOn_concat_of_ne (h hlive w hw).symm
  · rfl

theorem MarkedOn.skip (h : MarkedOn snap s want l t) (hd : (s.flow i).device = []) :
    MarkedOn snap s want (l ++ [i]) t := by
  refine ⟨h.stays_concat, h.gone_concat fun hret => hret.1 hd, ?_, h.same⟩
  rw [h.flags, flags_concat_of_none]
  intro hlive
  exact absurd hd (live_iff.1 hlive).1

theorem MarkedOn.retire (h : MarkedOn snap s want l t) (hi : Retired s want i) :
    MarkedOn snap s want (l ++ [i]) (tearDown i t.1, t.2) := by
  refine ⟨fun j hj => ?_, fun j hj hret => ?_, ?_, h.same.of_ch (tearDown_ch i t.1)⟩
  · have hji : j ≠ i := by
      rintro rfl
      rcases hj with hj | hj
      · exact hj (by simp)
      · exact hj hi
    exact (h.stays_concat j hj).tearDown hji
  · rw [tearDown_flow]
    by_cases hji : j = i
    · rw [hji, Function.update_self]
    · have hjl : j ∈ l := by simpa [hji] using hj
      rw [Function.update_of_ne hji]
      exact h.gone j hjl hret
  · rw [h.flags, flags_concat_of_none]
    intro hlive w hw
    exact (hi.2.resolve_left (not_not.2 (live_iff.1 hlive).2)) w hw

/-- The live slots of `l` hold no other flow of the transmitter in slot `i`. -/
theorem OneSlotEach.device_ne (hs : OneSlotEach s) (hi : (s.flow i).device ≠ []) (hl : i ∉ l) :
    ∀ j ∈ l.filter s.live, (s.flow j).device ≠ (s.flow i).device := by
  intro j hj hd
  have hji := hs i j hi hd.symm
  rw [← hji] at hj
  exact hl (List.mem_of_mem_filter hj)

/-- A flow of a wanted transmitter stays, and the want is marked with it. -/
theorem MarkedOn.mark (hw : FreshWants want) (hs : OneSlotEach s) (h : MarkedOn snap s want l t) (hi : i ∉ l)
    (hlive : s.live i = true) (hk : k < want.length) (hd : want[k].device = (s.flow i).device) {v : Sub} {g : Want → Want}
    (hv : ∀ j, Untouched j t.1 v) (hsame : SameSub snap v)
    (hg : g want[k] = if sameSlots (s.flow i) want[k] then { want[k] with done := true }
      else { want[k] with replaces := some i }) : MarkedOn snap s want (l ++ [i]) (v, t.2.modify k g) := by
  have hkept : ¬ Retired s want i := by
    rintro ⟨-, hret | hret⟩
    · exact hret (live_iff.1 hlive).2
    · exact hret _ (List.getElem_mem hk) hd
  have hothers : ∀ j ∈ l.filter s.live, (s.flow j).device ≠ want[k].device := by
    rw [hd]
    exact hs.device_ne (live_iff.1 hlive).1 hi
  refine ⟨fun j hj => (h.stays_concat j hj).trans (hv j), fun j hj hret => ?_, ?_, hsame⟩
  · rw [(hv j).flow]
    exact h.gone_concat hkept j hj hret
  · rw [h.flags, filter_live_concat, if_pos hlive]
    apply modify_flags hw.nodup hk hd
    rw [flagOn_eq_self hothers, flagOn_concat_of_eq hd.symm hothers, hg]

theorem MarkedOn.concat (hw : FreshWants want) (hs : OneSlotEach s) (h : MarkedOn snap s want l t) (hi : i ∉ l) :
    MarkedOn snap s want (l ++ [i]) (reconcileFlow snap t i) := by
  have hself := (h.stays i (Or.inl hi)).flow
  by_cases hd : (s.flow i).device = []
  · rw [reconcileFlow_of_idle (by rw [hself]; exact hd)]
    exact h.skip hd
  have hne : (t.1.flow i).device ≠ [] := by rwa [hself]
  by_cases hactive : (s.flow i).state = .active
  · have hlive : s.live i = true := live_iff.2 ⟨hd, hactive⟩
    rcases reconcileFlow_cases snap (by rwa [hself]) hne with ⟨hnone, heq⟩ | ⟨n, hn, hnd, heq⟩
    · rw [heq]
      refine h.retire ⟨hd, Or.inr fun w hwm hwd => ?_⟩
      have hunmarked : w.flagOn s (l.filter s.live) = w := by
        apply flagOn_eq_self
        rw [hwd]
        exact hs.device_ne hd hi
      have hmem : w ∈ t.2 := by
        rw [h.flags, ← hunmarked]
        exact List.mem_map_of_mem hwm
      exact hnone w hmem (hw.fresh w hwm).1 (by rw [hself, hwd])
    · have hnw : n < want.length := by simpa [h.flags] using hn
      have hget : t.2[n] = want[n].flagOn s (l.filter s.live) := by simp [h.flags]
      rw [hget, flagOn_device, hself] at hnd
      have hothers : ∀ j ∈ l.filter s.live, (s.flow j).device ≠ want[n].device := by
        rw [hnd]
        exact hs.device_ne hd hi
      rw [heq, hget, flagOn_eq_self hothers, hself]
      by_cases hsame : sameSlots (s.flow i) want[n] = true
      · rw [if_pos hsame]
        apply h.mark hw hs hi hlive hnw hnd
        · exact fun j => (Untouched.refl j t.1).setStatuses _ _
        · exact h.same.setStatuses _ _
        · rw [if_pos hsame]
      · rw [if_neg hsame]
        apply h.mark hw hs hi hlive hnw hnd
        · exact fun j => Untouched.refl j t.1
        · exact h.same
        · rw [if_neg hsame]
  · have hret : Retired s want i := ⟨hd, Or.inl hactive⟩
    have hdown : reconcileFlow snap t i = (tearDown i t.1, t.2) := by
      unfold reconcileFlow
      rw [if_neg hne]
      cases t.2.findIdx? fun w => !w.done && w.device = (t.1.flow i).device with
      | none => rfl
      | some n => exact if_pos (by rwa [hself])
    rw [hdown]
    exact h.retire hret

theorem markedOn_run (hw : FreshWants want) (hs : OneSlotEach s) (hsame : SameSub snap s) {l : List (Fin AP_MAX_FLOWS)}
    (hl : l.Nodup) : MarkedOn snap s want l (l.foldl (reconcileFlow snap) (s, want)) := by
  apply run_induct_nodup (reconcileFlow snap) (P := fun l t => MarkedOn snap s want l t)
  · exact ⟨fun i _ => Untouched.refl i s, by simp, (List.map_id want).symm, hsame⟩
  · exact fun l i _ hi ih => ih.concat hw hs hi
  · exact hl

theorem reconcileMoments_of_wanted (snap : Fin AP_NCH → RxChannel) (hactive : (t.1.flow i).state = .active)
    (hd : (t.1.flow i).device ≠ []) (hw : ∃ w ∈ t.2, w.done = false ∧ w.device = (t.1.flow i).device) :
    reconcileMoments snap t i = [reconcileFlow snap t i] := by
  obtain ⟨w, hwm, hdone, hwd⟩ := hw
  unfold reconcileMoments
  dsimp only
  rw [if_neg hd]
  cases hfind : t.2.findIdx? fun w => !w.done && w.device = (t.1.flow i).device with
  | none =>
    have := List.findIdx?_eq_none_iff.1 hfind w hwm
    simp [hdone, hwd] at this
  | some n => exact if_neg (not_not.2 hactive)

/-- All through step 2 a slot that it does not retire is left alone. -/
theorem untouched_reconcile (hw : FreshWants want) (hs : OneSlotEach s) (hsame : SameSub snap s)
    (hj : ¬ Retired s want j) :
    ∀ m ∈ passes (reconcileFlow snap) (reconcileMoments snap) (s, want) (List.finRange AP_MAX_FLOWS),
      Untouched j s m.1 := by
  intro m hm
  obtain ⟨n, hn, hm⟩ := (mem_passes (reconcileFlow snap)).1 hm
  set i := (List.finRange AP_MAX_FLOWS)[n] with hidef
  have hnodup := List.nodup_finRange AP_MAX_FLOWS
  have hi : i ∉ (List.finRange AP_MAX_FLOWS).take n := by
    rw [List.mem_take_iff_idxOf_lt (List.getElem_mem _), hnodup.idxOf_getElem]
    exact lt_irrefl n
  have hmarked : MarkedOn snap s want ((List.finRange AP_MAX_FLOWS).take n)
      (before (reconcileFlow snap) (s, want) (List.finRange AP_MAX_FLOWS) n) :=
    markedOn_run hw hs hsame (hnodup.sublist (List.take_sublist n _))
  set t := before (reconcileFlow snap) (s, want) (List.finRange AP_MAX_FLOWS) n with ht
  have hself := hmarked.stays j (Or.inr hj)
  by_cases hji : j = i
  · subst hji
    by_cases hd : (s.flow i).device = []
    · unfold reconcileMoments at hm
      dsimp only at hm
      rw [if_pos (by rw [hself.flow]; exact hd)] at hm
      cases hm
    have hkept := hj
    simp only [Retired, not_and, not_or, not_not, not_forall] at hkept
    obtain ⟨hactive, w, hwm, hwd⟩ := hkept hd
    have hunmarked : w.flagOn s (((List.finRange AP_MAX_FLOWS).take n).filter s.live) = w := by
      apply flagOn_eq_self
      rw [hwd]
      exact hs.device_ne hd hi
    have hmem : w ∈ t.2 := by
      rw [hmarked.flags, ← hunmarked]
      exact List.mem_map_of_mem hwm
    rw [reconcileMoments_of_wanted snap (by rw [hself.flow]; exact hactive) (by rw [hself.flow]; exact hd)
      ⟨w, hmem, (hw.fresh w hwm).1, by rw [hself.flow, hwd]⟩, List.mem_singleton] at hm
    rw [hm]
    exact (hmarked.concat hw hs hi).stays i (Or.inr hj)
  · exact hself.trans (untouched_reconcileMoments hji m hm)

/-- The want of a flow that step 2 keeps is done when its list is the same, and replaces
the flow otherwise. -/
theorem flagOn_of_live (hs : OneSlotEach s) (hj : s.live j = true) (hd : (s.flow j).device = w.device) :
    w.flagOn s ((List.finRange AP_MAX_FLOWS).filter s.live) =
      if sameSlots (s.flow j) w then { w with done := true } else { w with replaces := some j } := by
  have hmem : j ∈ (List.finRange AP_MAX_FLOWS).filter s.live := List.mem_filter.2 ⟨List.mem_finRange j, hj⟩
  have hfind : (((List.finRange AP_MAX_FLOWS).filter s.live).find? fun i => (s.flow i).device = w.device) = some j := by
    cases hf : ((List.finRange AP_MAX_FLOWS).filter s.live).find? fun i => (s.flow i).device = w.device with
    | none =>
      have := List.find?_eq_none.1 hf j hmem
      simp [hd] at this
    | some i =>
      have hi : (s.flow i).device = w.device := by simpa using List.find?_some hf
      rw [hs j i (live_iff.1 hj).1 (hd.trans hi.symm)]
  rw [Want.flagOn, hfind]

theorem flagOn_replaces (h : (w.flagOn s l).replaces = some j) (hw : w.replaces = none) :
    j ∈ l ∧ (s.flow j).device = w.device := by
  unfold Want.flagOn at h
  split at h
  · rw [hw] at h
    cases h
  · rename_i i hfind
    split_ifs at h with hsame
    · rw [hw] at h
      cases h
    · rw [← Option.some.inj h]
      exact ⟨List.mem_of_find?_eq_some hfind, by simpa using List.find?_some hfind⟩

/-- The wants whose turn is still to come replace flows of their own transmitters only. -/
def ReplacesOwn (ws : List Want) (k : ℕ) (v : Sub) : Prop :=
  ∀ n (hn : n < ws.length), k ≤ n → ∀ x, ws[n].replaces = some x →
    (v.flow x).device = ws[n].device ∧ ws[n].device ≠ []

section Turns

variable {ws : List Want} {v : Sub}

theorem ReplacesOwn.untouched_moments (h : ReplacesOwn ws k v) (hk : k < ws.length) (hj : (v.flow j).device ≠ [])
    (hne : (v.flow j).device ≠ ws[k].device) : ∀ m ∈ requestMoments o snap v (ws[k], k), Untouched j v m := by
  apply untouched_requestMoments (freeSlot_ne_named hj)
  intro hr
  exact hne (h k hk le_rfl j hr).1

theorem ReplacesOwn.untouched (h : ReplacesOwn ws k v) (hk : k < ws.length) (hj : (v.flow j).device ≠ [])
    (hne : (v.flow j).device ≠ ws[k].device) : Untouched j v (requestWant o snap v (ws[k], k)) :=
  untouched_requestWant (freeSlot_ne_named hj) fun hr => hne (h k hk le_rfl j hr).1

theorem ReplacesOwn.step (hnd : (ws.map (·.device)).Nodup) (h : ReplacesOwn ws k v) (hk : k < ws.length) :
    ReplacesOwn ws (k + 1) (requestWant o snap v (ws[k], k)) := by
  intro n hn hkn x hx
  obtain ⟨hd, hne⟩ := h n hn (by omega) x hx
  have hother : (v.flow x).device ≠ ws[k].device := by
    rw [hd]
    intro heq
    have := index_of_key hnd hn hk heq
    omega
  rw [(h.untouched hk (by rw [hd]; exact hne) hother).flow]
  exact ⟨hd, hne⟩

def atTurn (o : Outcomes) (snap : Fin AP_NCH → RxChannel) (u : Sub) (ws : List Want) (k : ℕ) : Sub :=
  before (requestWant o snap) u ws.zipIdx k

theorem atTurn_zero : atTurn o snap u ws 0 = u := before_zero _ _ _

theorem atTurn_succ (hk : k < ws.length) :
    atTurn o snap u ws (k + 1) = requestWant o snap (atTurn o snap u ws k) (ws[k], k) := by
  rw [atTurn, before_succ _ _ _ (by simpa using hk), List.getElem_zipIdx, Nat.zero_add, ← atTurn]

theorem atTurn_length : atTurn o snap u ws ws.length = ws.zipIdx.foldl (requestWant o snap) u := by
  have hlen := before_length (requestWant o snap) u ws.zipIdx
  rwa [List.length_zipIdx] at hlen

theorem mem_moments {m : Sub} : m ∈ passes (requestWant o snap) (requestMoments o snap) u ws.zipIdx ↔
    ∃ n, ∃ hn : n < ws.length, m ∈ requestMoments o snap (atTurn o snap u ws n) (ws[n], n) := by
  rw [mem_passes]
  simp only [List.length_zipIdx, List.getElem_zipIdx, Nat.zero_add, atTurn]

variable (hnd : (ws.map (·.device)).Nodup) (h0 : ReplacesOwn ws 0 u)
include hnd h0

theorem replacesOwn_atTurn (hk : k ≤ ws.length) : ReplacesOwn ws k (atTurn o snap u ws k) := by
  induction k with
  | zero => rwa [atTurn_zero]
  | succ k ih =>
    rw [atTurn_succ hk]
    exact (ih (by omega)).step hnd hk

variable {d : CStr} {a b : ℕ} (hd : d ≠ []) (hb : b ≤ ws.length)
  (hout : ∀ n (hn : n < ws.length), a ≤ n → n < b → ws[n].device ≠ d)
include hd hb hout

theorem untouched_turns (ha : ((atTurn o snap u ws a).flow j).device = d) {n : ℕ} (han : a ≤ n) (hnb : n ≤ b) :
    Untouched j (atTurn o snap u ws a) (atTurn o snap u ws n) := by
  induction n, han using Nat.le_induction with
  | base => exact Untouched.refl j _
  | succ n han ih =>
    have hn : n < ws.length := by omega
    have hself := ih (by omega)
    have hdn : ((atTurn o snap u ws n).flow j).device = d := by rw [hself.flow, ha]
    rw [atTurn_succ hn]
    apply hself.trans
    apply (replacesOwn_atTurn hnd h0 hn.le).untouched hn
    · rw [hdn]
      exact hd
    · rw [hdn]
      exact (hout n hn han (by omega)).symm

theorem untouched_turn_moments (ha : ((atTurn o snap u ws a).flow j).device = d) {n : ℕ} (hn : n < ws.length) (han : a ≤ n)
    (hnb : n < b) : ∀ m ∈ requestMoments o snap (atTurn o snap u ws n) (ws[n], n), Untouched j (atTurn o snap u ws a) m := by
  have hself := untouched_turns hnd h0 hd hb hout ha han hnb.le
  have hdn : ((atTurn o snap u ws n).flow j).device = d := by rw [hself.flow, ha]
  intro m hm
  apply hself.trans
  apply (replacesOwn_atTurn hnd h0 hn.le).untouched_moments hn _ _ m hm
  · rw [hdn]
    exact hd
  · rw [hdn]
    exact (hout n hn han hnb).symm

end Turns

end Inferno
