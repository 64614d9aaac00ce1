import Inferno.Spec.Patch

/-! Step 1 of a rebuild collects exactly the patch that the subscriptions ask for. It
moves no flow, and leaves pending every subscription that finds no place in it. -/

namespace Inferno

open Lib

def SameSub (snap : Fin AP_NCH → RxChannel) (s : Sub) : Prop :=
  ∀ c, (s.ch c).txChannel = (snap c).txChannel ∧ (s.ch c).txDevice = (snap c).txDevice

variable {snap : Fin AP_NCH → RxChannel} {s : Sub}

theorem SameSub.of_ch {s' : Sub} (h : SameSub snap s) (hch : s'.ch = s.ch) : SameSub snap s' := by
  intro c
  rw [hch]
  exact h c

theorem setStatusIfCurrent_frame (snap : Fin AP_NCH → RxChannel) (c : Fin AP_NCH) (st : ArcSub) (s : Sub) :
    ∃ ch, setStatusIfCurrent snap c st s = { s with ch := ch } := by
  unfold setStatusIfCurrent
  split_ifs
  · exact ⟨_, rfl⟩
  · exact ⟨s.ch, rfl⟩

theorem setStatuses_frame (snap : Fin AP_NCH → RxChannel) (l : List (Fin AP_NCH)) (st : ArcSub) (s : Sub) :
    ∃ ch, setStatuses snap l st s = { s with ch := ch } := by
  induction l generalizing s with
  | nil => exact ⟨s.ch, rfl⟩
  | cons c l ih =>
    obtain ⟨ch, h⟩ := setStatusIfCurrent_frame snap c st s
    obtain ⟨ch', h'⟩ := ih (setStatusIfCurrent snap c st s)
    refine ⟨ch', h'.trans ?_⟩
    rw [h]

@[simp] theorem setStatuses_flow (l : List (Fin AP_NCH)) (st : ArcSub) : (setStatuses snap l st s).flow = s.flow := by
  obtain ⟨ch, h⟩ := setStatuses_frame snap l st s
  rw [h]

@[simp] theorem setStatuses_rx (l : List (Fin AP_NCH)) (st : ArcSub) : (setStatuses snap l st s).rx = s.rx := by
  obtain ⟨ch, h⟩ := setStatuses_frame snap l st s
  rw [h]

@[simp] theorem setStatuses_dirty (l : List (Fin AP_NCH)) (st : ArcSub) :
    (setStatuses snap l st s).dirty = s.dirty := by
  obtain ⟨ch, h⟩ := setStatuses_frame snap l st s
  rw [h]

theorem SameSub.setStatusIfCurrent (h : SameSub snap s) (c : Fin AP_NCH) (st : ArcSub) :
    SameSub snap (setStatusIfCurrent snap c st s) := by
  intro e
  unfold Inferno.setStatusIfCurrent
  split_ifs with hc
  · by_cases he : e = c
    · subst he
      simpa [setStatus] using h e
    · simpa [setStatus, Function.update_of_ne he] using h e
  · exact h e

theorem SameSub.setStatusIfCurrent_status (h : SameSub snap s) (c e : Fin AP_NCH) (st : ArcSub) :
    ((Inferno.setStatusIfCurrent snap c st s).ch e).status =
      if e = c ∧ (snap e).txChannel ≠ [] then st else (s.ch e).status := by
  unfold Inferno.setStatusIfCurrent
  simp only [(h c).1, (h c).2, true_and]
  by_cases hc : (snap c).txChannel = []
  · rw [if_neg (by simpa using hc), if_neg]
    rintro ⟨rfl, h⟩
    exact h hc
  · rw [if_pos hc]
    by_cases he : e = c
    · subst he
      simp [setStatus, hc]
    · simp [setStatus, he]

theorem SameSub.setStatuses (h : SameSub snap s) (l : List (Fin AP_NCH)) (st : ArcSub) :
    SameSub snap (setStatuses snap l st s) := by
  induction l generalizing s with
  | nil => exact h
  | cons c l ih => exact ih (h.setStatusIfCurrent c st)

theorem SameSub.setStatuses_status (h : SameSub snap s) (l : List (Fin AP_NCH)) (st : ArcSub) (e : Fin AP_NCH) :
    ((Inferno.setStatuses snap l st s).ch e).status =
      if e ∈ l ∧ (snap e).txChannel ≠ [] then st else (s.ch e).status := by
  induction l generalizing s with
  | nil => simp [Inferno.setStatuses]
  | cons c l ih =>
    rw [Inferno.setStatuses, List.foldl_cons, ← Inferno.setStatuses, ih (h.setStatusIfCurrent c st),
      h.setStatusIfCurrent_status]
    by_cases hl : e ∈ l ∧ (snap e).txChannel ≠ []
    · rw [if_pos hl, if_pos ⟨List.mem_cons_of_mem _ hl.1, hl.2⟩]
    · rw [if_neg hl]
      refine if_congr ?_ rfl rfl
      rw [List.mem_cons, or_and_right, or_iff_left hl]

variable {prof : RateProfile} {o : Outcomes}

theorem feed_of_unsubscribed {c : Fin AP_NCH} (h : (s.ch c).txChannel = []) : feed prof o s c = none := by
  simp [feed, answer, h]

theorem feed_subscribed {c : Fin AP_NCH} (h : (feed prof o s c).isSome = true) : (s.ch c).txChannel ≠ [] := by
  intro hunsub
  rw [feed_of_unsubscribed hunsub] at h
  cases h

theorem goalOn_concat (l : List (Fin AP_NCH)) (c : Fin AP_NCH) (d : CStr) :
    goalOn prof o s (l ++ [c]) d = goalOn prof o s l d ++
      (if (s.ch c).txDevice = d then (feed prof o s c).map fun tx => (c, tx.txChannelId) else none).toList := by
  rw [goalOn, List.filterMap_append, ← goalOn, List.filterMap_cons, List.filterMap_nil]
  cases (if (s.ch c).txDevice = d then (feed prof o s c).map fun tx => (c, tx.txChannelId) else none) <;> rfl

theorem mem_goalOn {l : List (Fin AP_NCH)} {d : CStr} {p : Fin AP_NCH × ℕ} :
    p ∈ goalOn prof o s l d ↔
      p.1 ∈ l ∧ (s.ch p.1).txDevice = d ∧ ∃ tx, feed prof o s p.1 = some tx ∧ tx.txChannelId = p.2 := by
  simp only [goalOn, List.mem_filterMap, Option.ite_none_right_eq_some, Option.map_eq_some_iff]
  constructor
  · rintro ⟨c, hc, hd, tx, htx, rfl⟩
    exact ⟨hc, hd, tx, htx, rfl⟩
  · rintro ⟨hc, hd, tx, htx, hid⟩
    exact ⟨p.1, hc, hd, tx, htx, by rw [hid]⟩

theorem mem_goal {d : CStr} {p : Fin AP_NCH × ℕ} :
    p ∈ goal prof o s d ↔
      (s.ch p.1).txDevice = d ∧ ∃ tx, feed prof o s p.1 = some tx ∧ tx.txChannelId = p.2 := by
  simp [goal, mem_goalOn]

/-- A channel is wanted from its own transmitter, when that resolves at our rate. -/
theorem mem_goal_channels {d : CStr} {c : Fin AP_NCH} :
    c ∈ (goal prof o s d).map Prod.fst ↔ (s.ch c).txDevice = d ∧ (feed prof o s c).isSome = true := by
  rw [List.mem_map, Option.isSome_iff_exists]
  constructor
  · rintro ⟨p, hp, rfl⟩
    obtain ⟨hd, tx, htx, -⟩ := mem_goal.1 hp
    exact ⟨hd, tx, htx⟩
  · rintro ⟨hd, tx, htx⟩
    exact ⟨(c, tx.txChannelId), mem_goal.2 ⟨hd, tx, htx, rfl⟩, rfl⟩

theorem goalOn_channels (l : List (Fin AP_NCH)) (d : CStr) :
    ((goalOn prof o s l d).map Prod.fst).Sublist l := by
  induction l with
  | nil => simp [goalOn]
  | cons c l ih =>
    rw [goalOn, List.filterMap_cons, ← goalOn]
    by_cases hd : (s.ch c).txDevice = d
    · cases hf : feed prof o s c with
      | none => simpa [hd, hf] using ih.cons c
      | some tx => simpa [hd, hf] using ih.cons_cons c
    · simpa [hd] using ih.cons c

theorem goal_sorted (d : CStr) : ((goal prof o s d).map Prod.fst).Pairwise (· < ·) :=
  (List.pairwise_lt_finRange AP_NCH).sublist (goalOn_channels _ d)

theorem devicesOn_length (l : List (Fin AP_NCH)) : (devicesOn prof o s l).length ≤ AP_MAX_FLOWS :=
  List.length_take_le _ _

theorem devicesOn_nodup (l : List (Fin AP_NCH)) : (devicesOn prof o s l).Nodup :=
  (nodup_eraseDups _).sublist (List.take_sublist _ _)

theorem devicesOn_full {l : List (Fin AP_NCH)} {c : Fin AP_NCH} (hc : c ∈ l) (hf : (feed prof o s c).isSome = true)
    (hd : (s.ch c).txDevice ∉ devicesOn prof o s l) : AP_MAX_FLOWS ≤ (devicesOn prof o s l).length := by
  by_contra hlt
  have hmem : (s.ch c).txDevice ∈
      ((l.filter fun c => (feed prof o s c).isSome).map fun c => (s.ch c).txDevice).eraseDups := by
    rw [List.mem_eraseDups]
    exact List.mem_map_of_mem (List.mem_filter.2 ⟨hc, hf⟩)
  rw [devicesOn, List.length_take] at hlt
  refine hd ?_
  rw [devicesOn, List.take_of_length_le (by omega)]
  exact hmem

theorem devicesOn_concat (l : List (Fin AP_NCH)) (c : Fin AP_NCH) :
    devicesOn prof o s (l ++ [c]) =
      if (feed prof o s c).isSome = true ∧ (s.ch c).txDevice ∉ devicesOn prof o s l ∧
        (devicesOn prof o s l).length < AP_MAX_FLOWS then devicesOn prof o s l ++ [(s.ch c).txDevice]
      else devicesOn prof o s l := by
  by_cases hf : (feed prof o s c).isSome = true
  · have hfilter : ((l ++ [c]).filter fun c => (feed prof o s c).isSome) =
        (l.filter fun c => (feed prof o s c).isSome) ++ [c] := by
      simp [List.filter_append, hf]
    simp only [hf, true_and]
    rw [devicesOn, hfilter, List.map_append, List.map_singleton, take_eraseDups_concat]
    rfl
  · have hfilter : ((l ++ [c]).filter fun c => (feed prof o s c).isSome) = l.filter fun c => (feed prof o s c).isSome := by
      simp [List.filter_append, hf]
    rw [if_neg (fun h => hf h.1), devicesOn, hfilter, ← devicesOn]

theorem goalOn_eq_nil {l : List (Fin AP_NCH)} {d : CStr} (hd : d ∉ devicesOn prof o s l)
    (hlt : (devicesOn prof o s l).length < AP_MAX_FLOWS) : goalOn prof o s l d = [] := by
  refine List.eq_nil_iff_forall_not_mem.2 fun p hp => ?_
  obtain ⟨hl, hdev, tx, htx, -⟩ := mem_goalOn.1 hp
  have := devicesOn_full hl (by simp [htx]) (hdev ▸ hd)
  omega

/-- Nothing but the cache entry of a channel has moved. -/
structure Touched (c : Fin AP_NCH) (s u : Sub) : Prop where
  flow : u.flow = s.flow
  rx : u.rx = s.rx
  ch : u.ch = s.ch
  dirty : u.dirty = s.dirty
  res : ∀ e, e ≠ c → u.res e = s.res e

theorem resolveCached_touched (c : Fin AP_NCH) (ch : RxChannel) : Touched c s (resolveCached o c ch s).1 := by
  unfold resolveCached
  dsimp only
  split_ifs with h
  · exact ⟨rfl, rfl, rfl, rfl, fun _ _ => rfl⟩
  · cases o.resolve c with
    | none => exact ⟨rfl, rfl, rfl, rfl, fun e he => Function.update_of_ne he _ _⟩
    | some tx => exact ⟨rfl, rfl, rfl, rfl, fun e he => Function.update_of_ne he _ _⟩

theorem resolveCached_congr {u : Sub} {c : Fin AP_NCH} (ch : RxChannel) (h : u.res c = s.res c) :
    (resolveCached o c ch u).2 = (resolveCached o c ch s).2 := by
  unfold resolveCached
  rw [h]
  dsimp only
  split_ifs
  · rfl
  · cases o.resolve c <;> rfl

theorem setStatusIfCurrent_unsubscribed {c : Fin AP_NCH} (st : ArcSub)
    (h : (snap c).txChannel = []) : setStatusIfCurrent snap c st s = s := by
  rw [setStatusIfCurrent, if_neg]
  rintro ⟨hc, -, hne⟩
  exact hne (hc.trans h)

theorem wantChannel_of_none {t : Wanting} {c : Fin AP_NCH} (hres : t.s.res c = s.res c)
    (hf : feed prof o s c = none) :
    ∃ u, Touched c t.s u ∧
      wantChannel prof o s.ch t c = { t with s := setStatusIfCurrent s.ch c .pending u } := by
  by_cases hc : (s.ch c).txChannel = []
  · refine ⟨{ t.s with res := Function.update t.s.res c { t.s.res c with valid := false } },
      ⟨rfl, rfl, rfl, rfl, fun e he => Function.update_of_ne he _ _⟩, ?_⟩
    rw [setStatusIfCurrent_unsubscribed _ hc, wantChannel, if_pos hc]
  · have htouched := resolveCached_touched (o := o) (s := t.s) c (s.ch c)
    have hsnd := resolveCached_congr (o := o) (s.ch c) hres
    rw [feed, answer, if_neg hc, ← hsnd] at hf
    rw [wantChannel, if_neg hc]
    rcases hr : resolveCached o c (s.ch c) t.s with ⟨u, _ | tx⟩
    · rw [hr] at htouched
      exact ⟨{ u with st := { u.st with resolveFailed := u32 (u.st.resolveFailed + 1) } },
        ⟨htouched.flow, htouched.rx, htouched.ch, htouched.dirty, htouched.res⟩, rfl⟩
    · rw [hr, Option.filter_some, ite_eq_right_iff] at hf
      rw [hr] at htouched
      refine ⟨u, htouched, ?_⟩
      by_cases hz : tx.sampleRate = prof.hz
      · exact absurd (hf (by simpa using hz)) (by simp)
      · simp only [ne_eq, hz, not_false_eq_true, if_true]

theorem wantChannel_of_some {t : Wanting} {c : Fin AP_NCH} {tx : TxChannel} (hres : t.s.res c = s.res c)
    (hf : feed prof o s c = some tx) :
    ∃ u, Touched c t.s u ∧
      wantChannel prof o s.ch t c =
        match t.want.findIdx? fun w => w.device = (s.ch c).txDevice with
        | none =>
          if t.want.length ≥ AP_MAX_FLOWS then { t with s := setStatusIfCurrent s.ch c .pending u }
          else
            { s := u
              want := t.want ++ [(newWant prof (s.ch c).txDevice tx).add c tx]
              floorUs := max t.floorUs (tx.latencyNs / 1000) }
        | some w =>
          if ((t.want[w]?).elim 0 fun x => x.req.nslots) ≥ AP_MAX_CH_PER_FLOW then
            { t with s := setStatusIfCurrent s.ch c .pending u }
          else
            { s := u
              want := t.want.modify w fun x => x.add c tx
              floorUs := max t.floorUs (tx.latencyNs / 1000) } := by
  have hc : (s.ch c).txChannel ≠ [] := feed_subscribed (by rw [hf]; rfl)
  have htouched := resolveCached_touched (o := o) (s := t.s) c (s.ch c)
  rw [feed, answer, if_neg hc, ← resolveCached_congr (o := o) (s.ch c) hres, Option.filter_eq_some_iff] at hf
  obtain ⟨hsnd, hz⟩ := hf
  rw [wantChannel, if_neg hc]
  rcases hr : resolveCached o c (s.ch c) t.s with ⟨u, r⟩
  rw [hr] at htouched hsnd
  dsimp only at hsnd
  subst hsnd
  have hz : tx.sampleRate = prof.hz := by simpa using hz
  exact ⟨u, htouched, if_neg fun h => h hz⟩

/-- A channel of the list has its place among the transmitters seen so far. -/
def PlacedOn (prof : RateProfile) (o : Outcomes) (s : Sub) (l : List (Fin AP_NCH)) (c : Fin AP_NCH) : Prop :=
  (feed prof o s c).isSome = true ∧ (s.ch c).txDevice ∈ devicesOn prof o s l

instance (l : List (Fin AP_NCH)) (c : Fin AP_NCH) : Decidable (PlacedOn prof o s l c) :=
  inferInstanceAs (Decidable (_ ∧ _))

/-- The want table after the channels of `l`. -/
structure WantsOn (prof : RateProfile) (o : Outcomes) (s : Sub) (l : List (Fin AP_NCH)) (want : List Want) : Prop where
  devices : want.map (·.device) = devicesOn prof o s l
  slots : ∀ w ∈ want, w.slotToCh = (goalOn prof o s l w.device).map Prod.fst
  ids : ∀ w ∈ want, w.req.txChannelId = (goalOn prof o s l w.device).map Prod.snd
  fresh : ∀ w ∈ want, w.done = false ∧ w.replaces = none

/-- The subscriber after the channels of `l`. -/
structure StateOn (prof : RateProfile) (o : Outcomes) (s : Sub) (l : List (Fin AP_NCH)) (u : Sub) : Prop where
  flow : u.flow = s.flow
  rx : u.rx = s.rx
  dirty : u.dirty = s.dirty
  res : ∀ c ∉ l, u.res c = s.res c
  same : SameSub s.ch u
  status : ∀ c, (u.ch c).status =
    if c ∈ l ∧ (s.ch c).txChannel ≠ [] ∧ ¬ PlacedOn prof o s l c then .pending else (s.ch c).status

theorem placedOn_concat {l : List (Fin AP_NCH)} {c e : Fin AP_NCH} (he : e ∈ l) :
    PlacedOn prof o s (l ++ [c]) e ↔ PlacedOn prof o s l e := by
  refine and_congr_right fun hf => ?_
  rw [devicesOn_concat]
  split_ifs with hc
  · rw [List.mem_append, List.mem_singleton, or_iff_left_iff_imp]
    intro hec
    by_contra hnot
    have := devicesOn_full he hf hnot
    omega
  · rfl

theorem StateOn.pending {l : List (Fin AP_NCH)} {c : Fin AP_NCH} {t u : Sub} (h : StateOn prof o s l t)
    (htouched : Touched c t u) (hc : c ∉ l) (hp : ¬ PlacedOn prof o s (l ++ [c]) c) :
    StateOn prof o s (l ++ [c]) (setStatusIfCurrent s.ch c .pending u) := by
  have hsame : SameSub s.ch u := h.same.of_ch htouched.ch
  obtain ⟨ch, hframe⟩ := setStatusIfCurrent_frame s.ch c .pending u
  refine ⟨by rw [hframe]; exact htouched.flow.trans h.flow, by rw [hframe]; exact htouched.rx.trans h.rx,
    by rw [hframe]; exact htouched.dirty.trans h.dirty, fun e he => ?_, hsame.setStatusIfCurrent c _, fun e => ?_⟩
  · rw [List.mem_append, List.mem_singleton, not_or] at he
    rw [hframe]
    exact (htouched.res e he.2).trans (h.res e he.1)
  · rw [hsame.setStatusIfCurrent_status, htouched.ch, h.status]
    simp only [List.mem_append, List.mem_singleton]
    by_cases hec : e = c
    · subst hec
      simp [hc, hp]
    · by_cases hel : e ∈ l
      · simp [hec, hel, placedOn_concat]
      · simp [hec, hel]

theorem StateOn.placed {l : List (Fin AP_NCH)} {c : Fin AP_NCH} {t u : Sub} (h : StateOn prof o s l t)
    (htouched : Touched c t u) (hc : c ∉ l) (hp : PlacedOn prof o s (l ++ [c]) c) :
    StateOn prof o s (l ++ [c]) u := by
  refine ⟨by rw [htouched.flow, h.flow], by rw [htouched.rx, h.rx], by rw [htouched.dirty, h.dirty], fun e he => ?_,
    h.same.of_ch htouched.ch, fun e => ?_⟩
  · rw [List.mem_append, List.mem_singleton, not_or] at he
    rw [htouched.res e he.2, h.res e he.1]
  · rw [htouched.ch, h.status]
    simp only [List.mem_append, List.mem_singleton]
    by_cases hec : e = c
    · subst hec
      simp [hc, hp]
    · by_cases hel : e ∈ l
      · simp [hec, hel, placedOn_concat]
      · simp [hec, hel]

theorem goalOn_concat_of_ne {l : List (Fin AP_NCH)} {c : Fin AP_NCH} {d : CStr}
    (h : (feed prof o s c).isSome = true → (s.ch c).txDevice ≠ d) :
    goalOn prof o s (l ++ [c]) d = goalOn prof o s l d := by
  rw [goalOn_concat]
  by_cases hd : (s.ch c).txDevice = d
  · have hf : feed prof o s c = none := by
      rw [← Option.not_isSome_iff_eq_none]
      exact fun hf => h hf hd
    simp [hf]
  · simp [hd]

theorem goalOn_concat_of_eq {l : List (Fin AP_NCH)} {c : Fin AP_NCH} {tx : TxChannel}
    (hf : feed prof o s c = some tx) :
    goalOn prof o s (l ++ [c]) (s.ch c).txDevice = goalOn prof o s l (s.ch c).txDevice ++ [(c, tx.txChannelId)] := by
  simp [goalOn_concat, hf]

theorem WantsOn.skip {l : List (Fin AP_NCH)} {c : Fin AP_NCH} {want : List Want} (h : WantsOn prof o s l want)
    (hp : ¬ PlacedOn prof o s (l ++ [c]) c) : WantsOn prof o s (l ++ [c]) want := by
  have hdev : devicesOn prof o s (l ++ [c]) = devicesOn prof o s l := by
    rw [devicesOn_concat, if_neg]
    rintro ⟨hf, hnot, hlt⟩
    refine hp ⟨hf, ?_⟩
    rw [devicesOn_concat, if_pos ⟨hf, hnot, hlt⟩]
    simp
  have hgoal : ∀ w ∈ want, goalOn prof o s (l ++ [c]) w.device = goalOn prof o s l w.device := by
    intro w hw
    refine goalOn_concat_of_ne fun hf hd => hp ⟨hf, ?_⟩
    rw [hdev, hd, ← h.devices]
    exact List.mem_map_of_mem hw
  exact ⟨by rw [hdev, h.devices], fun w hw => by rw [hgoal w hw, h.slots w hw],
    fun w hw => by rw [hgoal w hw, h.ids w hw], h.fresh⟩

theorem WantsOn.append {l : List (Fin AP_NCH)} {c : Fin AP_NCH} {tx : TxChannel} {want : List Want}
    (h : WantsOn prof o s l want) (hf : feed prof o s c = some tx)
    (hd : (s.ch c).txDevice ∉ devicesOn prof o s l) (hlt : (devicesOn prof o s l).length < AP_MAX_FLOWS) :
    WantsOn prof o s (l ++ [c]) (want ++ [(newWant prof (s.ch c).txDevice tx).add c tx]) := by
  have hsome : (feed prof o s c).isSome = true := by rw [hf]; rfl
  have hold : ∀ w ∈ want, goalOn prof o s (l ++ [c]) w.device = goalOn prof o s l w.device := by
    intro w hw
    refine goalOn_concat_of_ne fun _ hwd => hd ?_
    rw [hwd, ← h.devices]
    exact List.mem_map_of_mem hw
  have hnew := goalOn_concat_of_eq (l := l) hf
  rw [goalOn_eq_nil hd hlt, List.nil_append] at hnew
  refine ⟨?_, fun w hw => ?_, fun w hw => ?_, fun w hw => ?_⟩
  · rw [devicesOn_concat, if_pos ⟨hsome, hd, hlt⟩, List.map_append, h.devices]
    rfl
  all_goals rw [List.mem_append, List.mem_singleton] at hw
  · rcases hw with hw | rfl
    · rw [hold w hw, h.slots w hw]
    · show [c] = (goalOn prof o s (l ++ [c]) (s.ch c).txDevice).map Prod.fst
      rw [hnew]
      rfl
  · rcases hw with hw | rfl
    · rw [hold w hw, h.ids w hw]
    · show [tx.txChannelId] = (goalOn prof o s (l ++ [c]) (s.ch c).txDevice).map Prod.snd
      rw [hnew]
      rfl
  · rcases hw with hw | rfl
    · exact h.fresh w hw
    · exact ⟨rfl, rfl⟩

theorem WantsOn.modify {l : List (Fin AP_NCH)} {c : Fin AP_NCH} {tx : TxChannel} {want : List Want} {k : ℕ}
    (h : WantsOn prof o s l want) (hf : feed prof o s c = some tx) (hk : k < want.length)
    (hd : want[k].device = (s.ch c).txDevice) :
    WantsOn prof o s (l ++ [c]) (want.modify k fun x => x.add c tx) := by
  have hmem : (s.ch c).txDevice ∈ devicesOn prof o s l := by
    rw [← h.devices, ← hd]
    exact List.mem_map_of_mem (List.getElem_mem hk)
  have hnd : (want.map (·.device)).Nodup := h.devices ▸ devicesOn_nodup l
  -- an entry of the new table is the entry of the old one, with the channel added at `k`
  have hget : ∀ w ∈ want.modify k fun x => x.add c tx, ∃ v ∈ want, w.device = v.device ∧
      w = if v.device = (s.ch c).txDevice then v.add c tx else v := by
    intro w hw
    obtain ⟨j, hj, rfl⟩ := List.getElem_of_mem hw
    rw [List.length_modify] at hj
    refine ⟨want[j], List.getElem_mem hj, ?_⟩
    rw [List.getElem_modify]
    by_cases hkj : k = j
    · subst hkj
      rw [if_pos rfl, if_pos hd]
      exact ⟨rfl, rfl⟩
    · rw [if_neg hkj, if_neg]
      · exact ⟨rfl, rfl⟩
      · intro hdj
        exact hkj (index_of_key hnd hk hj (hd.trans hdj.symm))
  refine ⟨?_, fun w hw => ?_, fun w hw => ?_, fun w hw => ?_⟩
  · rw [devicesOn_concat, if_neg (fun hc => hc.2.1 hmem), ← h.devices]
    refine List.ext_getElem (by simp) fun j hj hj' => ?_
    rw [List.getElem_map, List.getElem_map, List.getElem_modify]
    split_ifs <;> rfl
  all_goals
    obtain ⟨v, hv, hdev, hw⟩ := hget w hw
  · by_cases hvd : v.device = (s.ch c).txDevice
    · rw [if_pos hvd] at hw
      rw [hdev, hvd, goalOn_concat_of_eq hf, hw, List.map_append, ← hvd, ← h.slots v hv]
      rfl
    · rw [if_neg hvd] at hw
      rw [hw, goalOn_concat_of_ne fun _ => Ne.symm hvd, h.slots v hv]
  · by_cases hvd : v.device = (s.ch c).txDevice
    · rw [if_pos hvd] at hw
      rw [hdev, hvd, goalOn_concat_of_eq hf, hw, List.map_append, ← hvd, ← h.ids v hv]
      rfl
    · rw [if_neg hvd] at hw
      rw [hw, goalOn_concat_of_ne fun _ => Ne.symm hvd, h.ids v hv]
  · have hfresh := h.fresh v hv
    rw [hw]
    split_ifs
    · exact hfresh
    · exact hfresh

theorem wantChannel_step {l : List (Fin AP_NCH)} {c : Fin AP_NCH} {t : Wanting} (hw : WantsOn prof o s l t.want)
    (hs : StateOn prof o s l t.s) (hc : c ∉ l) (hl : l.length < AP_MAX_CH_PER_FLOW) :
    WantsOn prof o s (l ++ [c]) (wantChannel prof o s.ch t c).want ∧
      StateOn prof o s (l ++ [c]) (wantChannel prof o s.ch t c).s := by
  have hlen : t.want.length = (devicesOn prof o s l).length := by rw [← hw.devices, List.length_map]
  cases hf : feed prof o s c with
  | none =>
    have hp : ¬ PlacedOn prof o s (l ++ [c]) c := fun h => by
      have := h.1
      rw [hf] at this
      cases this
    obtain ⟨u, htouched, heq⟩ := wantChannel_of_none (hs.res c hc) hf
    rw [heq]
    exact ⟨hw.skip hp, hs.pending htouched hc hp⟩
  | some tx =>
    obtain ⟨u, htouched, heq⟩ := wantChannel_of_some (hs.res c hc) hf
    have hsome : (feed prof o s c).isSome = true := by rw [hf]; rfl
    rw [heq]
    cases hfind : t.want.findIdx? fun w => w.device = (s.ch c).txDevice with
    | none =>
      have hd : (s.ch c).txDevice ∉ devicesOn prof o s l := by
        rw [List.findIdx?_eq_none_iff] at hfind
        rw [← hw.devices, List.mem_map]
        rintro ⟨w, hwm, hwd⟩
        simpa [hwd] using hfind w hwm
      dsimp only
      by_cases hlt : t.want.length ≥ AP_MAX_FLOWS
      · have hp : ¬ PlacedOn prof o s (l ++ [c]) c := by
          rintro ⟨-, h⟩
          rw [devicesOn_concat, if_neg (fun h => by omega)] at h
          exact hd h
        rw [if_pos hlt]
        exact ⟨hw.skip hp, hs.pending htouched hc hp⟩
      · have hp : PlacedOn prof o s (l ++ [c]) c := by
          refine ⟨hsome, ?_⟩
          rw [devicesOn_concat, if_pos ⟨hsome, hd, by omega⟩]
          simp
        rw [if_neg hlt]
        exact ⟨hw.append hf hd (by omega), hs.placed htouched hc hp⟩
    | some k =>
      obtain ⟨hk, hd, -⟩ := List.findIdx?_eq_some_iff_getElem.1 hfind
      have hd : t.want[k].device = (s.ch c).txDevice := by simpa using hd
      have hmem : (s.ch c).txDevice ∈ devicesOn prof o s l := by
        rw [← hw.devices, ← hd]
        exact List.mem_map_of_mem (List.getElem_mem hk)
      have hp : PlacedOn prof o s (l ++ [c]) c :=
        ⟨hsome, by rwa [devicesOn_concat, if_neg (fun h => h.2.1 hmem)]⟩
      have hslots : t.want[k].req.nslots < AP_MAX_CH_PER_FLOW := by
        have := List.length_filterMap_le (fun c => if (s.ch c).txDevice = t.want[k].device then
          (feed prof o s c).map fun tx => (c, tx.txChannelId) else none) l
        rw [FlowRequest.nslots, hw.ids _ (List.getElem_mem hk), List.length_map, goalOn]
        omega
      dsimp only
      rw [List.getElem?_eq_getElem hk, Option.elim_some, if_neg (by omega)]
      exact ⟨hw.modify hf hk hd, hs.placed htouched hc hp⟩

/-- The want table of a rebuild is the patch. -/
theorem wantAll_spec (prof : RateProfile) (o : Outcomes) (s : Sub) :
    WantsOn prof o s (List.finRange AP_NCH) (wantAll prof o s).want ∧
      StateOn prof o s (List.finRange AP_NCH) (wantAll prof o s).s := by
  apply run_induct_nodup (wantChannel prof o s.ch)
    (P := fun l t => WantsOn prof o s l t.want ∧ StateOn prof o s l t.s)
  · exact ⟨⟨rfl, by simp, by simp, by simp⟩, ⟨rfl, rfl, rfl, fun _ _ => rfl, fun _ => ⟨rfl, rfl⟩, fun c => by simp⟩⟩
  · intro l c hnd hc ih
    have hlen : (l.concat c).length ≤ AP_NCH := by
      simpa using (List.nodup_concat l c |>.2 ⟨hc, hnd⟩).length_le_card
    rw [List.length_concat] at hlen
    exact wantChannel_step ih.1 ih.2 hc hlen
  · exact List.nodup_finRange AP_NCH

end Inferno
