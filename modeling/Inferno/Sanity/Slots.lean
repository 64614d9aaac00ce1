import Inferno.Spec.Handover
import Inferno.Sanity.Request

/-! What one step of a rebuild leaves alone. A slot is untouched when the slot, the receive
flow of the same index and the calls made on it are as they were; every step touches at
most the slot it works on and the one it replaces. The states within a step end in the
step's result, so all that is said of them is said of the step. -/

namespace Inferno

open Lib

def Call.slot : Call → Fin AP_MAX_FLOWS
  | .bind i => i
  | .unbind i => i
  | .request i _ => i
  | .stop i _ => i

def callsOn (j : Fin AP_MAX_FLOWS) (s : Sub) : List Call := s.log.filter fun c => c.slot = j

structure Untouched (j : Fin AP_MAX_FLOWS) (s s' : Sub) : Prop where
  flow : s'.flow j = s.flow j
  rx : s'.rx j = s.rx j
  calls : callsOn j s' = callsOn j s

variable {i j : Fin AP_MAX_FLOWS} {s u u' : Sub} {prof : RateProfile} {o : Outcomes} {snap : Fin AP_NCH → RxChannel}
  {k : ℕ} {w : Want}

theorem Untouched.refl (j : Fin AP_MAX_FLOWS) (s : Sub) : Untouched j s s := ⟨rfl, rfl, rfl⟩

theorem Untouched.trans (h : Untouched j s u) (h' : Untouched j u u') : Untouched j s u' :=
  ⟨h'.flow.trans h.flow, h'.rx.trans h.rx, h'.calls.trans h.calls⟩

theorem Untouched.same (h : Untouched j s u) (hf : u'.flow = u.flow) (hr : u'.rx = u.rx) (hl : u'.log = u.log) :
    Untouched j s u' :=
  ⟨by rw [hf]; exact h.flow, by rw [hr]; exact h.rx, by rw [callsOn, hl]; exact h.calls⟩

theorem Untouched.setFlow (h : Untouched j s u) (hj : j ≠ i) (f : FlowSlot) : Untouched j s (u.setFlow i f) :=
  ⟨(Function.update_of_ne hj _ _).trans h.flow, h.rx, h.calls⟩

theorem Untouched.setRx (h : Untouched j s u) (hj : j ≠ i) (x : RxFlow) : Untouched j s (u.setRx i x) :=
  ⟨h.flow, (Function.update_of_ne hj _ _).trans h.rx, h.calls⟩

theorem Untouched.call (h : Untouched j s u) {l : List Call} (hl : ∀ c ∈ l, c.slot ≠ j) : Untouched j s (u.call l) := by
  refine ⟨h.flow, h.rx, ?_⟩
  have hnone : l.filter (fun c => c.slot = j) = [] := by
    rw [List.filter_eq_nil_iff]
    intro c hc
    simpa using hl c hc
  rw [callsOn, Sub.call, List.filter_append, hnone, List.append_nil]
  exact h.calls

theorem Untouched.call_one (h : Untouched j s u) {c : Call} (hc : c.slot ≠ j) : Untouched j s (u.call [c]) := by
  apply h.call
  intro d hd
  rwa [List.mem_singleton.1 hd]

theorem Untouched.setStatuses (h : Untouched j s u) (l : List (Fin AP_NCH)) (st : ArcSub) :
    Untouched j s (setStatuses snap l st u) := by
  obtain ⟨ch, hch⟩ := setStatuses_frame snap l st u
  rw [hch]
  exact h.same rfl rfl rfl

theorem Untouched.forgetDevice (h : Untouched j s u) (dev : CStr) : Untouched j s (forgetDevice dev u) :=
  h.same rfl rfl rfl

/-- What holds of a state and of all that follow it holds of the last. -/
theorem holds_last {α : Type*} {P : α → Prop} {a : α} {l : List α} (ha : P a) (hl : ∀ b ∈ l, P b) : P (l.getLastD a) := by
  rcases List.mem_cons.1 (List.getLastD_mem_cons (l := l) (a := a)) with h | h
  · rw [h]
    exact ha
  · exact hl _ h

theorem tearDownMoments_last (i : Fin AP_MAX_FLOWS) (u d : Sub) : (tearDownMoments i u).getLastD d = tearDown i u := by
  unfold tearDownMoments
  split_ifs <;> rfl

theorem Untouched.tearDownMoments (h : Untouched j s u) (hj : j ≠ i) :
    ∀ m ∈ Inferno.tearDownMoments i u, Untouched j s m := by
  have hstopped := h.call_one (c := .stop i (u.flow i).req) hj.symm
  have hunbound := (hstopped.setRx hj (aoipRxUnbindFlow (u.rx i))).call_one (c := .unbind i) hj.symm
  have hcalls : ∀ c ∈ [Call.stop i (u.flow i).req, .unbind i], c.slot ≠ j := by
    intro c hc
    rcases List.mem_pair.1 hc with rfl | rfl
    · exact hj.symm
    · exact hj.symm
  have hdown : Untouched j s (tearDown i u) := by
    unfold tearDown
    split_ifs
    · exact ((h.setRx hj _).call hcalls).setFlow hj _
    · exact h.setFlow hj _
  intro m hm
  unfold Inferno.tearDownMoments at hm
  split_ifs at hm
  · simp only [List.mem_cons, List.not_mem_nil, or_false] at hm
    rcases hm with rfl | rfl | rfl
    · exact hstopped
    · exact hunbound
    · exact hdown
  · rw [List.mem_singleton] at hm
    rw [hm]
    exact hdown

theorem Untouched.tearDown (h : Untouched j s u) (hj : j ≠ i) : Untouched j s (tearDown i u) := by
  have hlast := holds_last (P := Untouched j s) h (h.tearDownMoments hj)
  rwa [tearDownMoments_last] at hlast

theorem Untouched.awaitMoments (h : Untouched j s u) (hj : j ≠ i) (p : ℕ → ℕ) :
    ∀ m ∈ Inferno.awaitMoments p i u, Untouched j s m := by
  intro m hm
  obtain ⟨t, -, rfl⟩ := List.mem_map.1 hm
  exact h.setRx hj _

theorem flowUpMoments_last (f : FlowSlot) (replaces : Option (Fin AP_MAX_FLOWS)) (handle : List UInt8) (u d : Sub) :
    (flowUpMoments o snap k i f replaces handle u).getLastD d = flowUp o snap k i f replaces handle u := by
  unfold flowUpMoments flowUp
  cases replaces with
  | none => rfl
  | some r => exact List.getLastD_concat

theorem Untouched.flowUpMoments (h : Untouched j s u) (hj : j ≠ i) {replaces : Option (Fin AP_MAX_FLOWS)}
    (hr : replaces ≠ some j) (f : FlowSlot) (handle : List UInt8) :
    ∀ m ∈ Inferno.flowUpMoments o snap k i f replaces handle u, Untouched j s m := by
  intro m hm
  set g : FlowSlot := { f with
    state := .active, handle := handle, lastPackets := 0, nextActionUs := o.now k + KEEPALIVE_MS * 1000 } with hg
  set up : Sub := { u.setFlow i g with st := { u.st with requestsOk := u32 (u.st.requestsOk + 1) } } with hupdef
  have hup : Untouched j s up := (h.setFlow hj g).same rfl rfl rfl
  cases replaces with
  | none =>
    have hm : m ∈ [up, activateSlots snap g up] := hm
    rcases List.mem_pair.1 hm with rfl | rfl
    · exact hup
    · exact hup.setStatuses _ _
  | some r =>
    have hjr : j ≠ r := fun hjr => hr (by rw [hjr])
    set heard : Sub := up.setRx i { up.rx i with packets := awaitPackets (o.packets k) } with hheard
    have hm : m ∈ up :: Inferno.awaitMoments (o.packets k) i up ++ Inferno.tearDownMoments r heard ++
        [activateSlots snap g (Inferno.tearDown r heard)] := hm
    simp only [List.mem_append, List.mem_cons, List.not_mem_nil, or_false] at hm
    rcases hm with ((rfl | hm) | hm) | rfl
    · exact hup
    · exact hup.awaitMoments hj _ m hm
    · exact (hup.setRx hj _).tearDownMoments hjr m hm
    · exact ((hup.setRx hj _).tearDown hjr).setStatuses _ _

theorem flowRefusedMoments_last (f : FlowSlot) (w : Want) (u d : Sub) :
    (flowRefusedMoments snap i f w u).getLastD d = flowRefused snap i f w u := rfl

theorem Untouched.flowRefusedMoments (h : Untouched j s u) (hj : j ≠ i) (f : FlowSlot) (w : Want) :
    ∀ m ∈ Inferno.flowRefusedMoments snap i f w u, Untouched j s m := by
  intro m hm
  have hforgot : Untouched j s (Inferno.forgetDevice w.device
      { u with st := { u.st with requestsFailed := u32 (u.st.requestsFailed + 1) } }) := h.same rfl rfl rfl
  have hunbound := (hforgot.setRx hj (aoipRxUnbindFlow (u.rx i))).call_one (c := .unbind i) hj.symm
  have hfree := hunbound.setFlow hj { f with device := [] }
  simp only [Inferno.flowRefusedMoments, List.mem_cons, List.not_mem_nil, or_false] at hm
  rcases hm with rfl | rfl | rfl | rfl
  · exact hforgot
  · exact hunbound
  · exact hfree
  · exact hfree.setStatuses _ _

theorem requestMoments_last (o : Outcomes) (snap : Fin AP_NCH → RxChannel) (u : Sub) (wk : Want × ℕ) :
    (requestMoments o snap u wk).getLastD u = requestWant o snap u wk := by
  obtain ⟨w, k⟩ := wk
  unfold requestMoments requestWant
  dsimp only
  by_cases hdone : w.done = true
  · rw [if_pos hdone, if_pos hdone]
    rfl
  rw [if_neg hdone, if_neg hdone]
  cases freeSlot u with
  | none => rfl
  | some i =>
    dsimp only
    rcases aoipRxBindFlow i w.req.nslots (slotMap w.slotToCh) w.req.fpp (o.bind k) ((u.call [.bind i]).rx i) with
      ⟨x, _ | port⟩
    · rfl
    dsimp only
    rw [List.getLastD_cons, List.getLastD_cons, List.getLastD_cons]
    cases o.request k false with
    | some handle => exact flowUpMoments_last _ _ _ _ _
    | none =>
      cases w.replaces with
      | none => exact flowRefusedMoments_last _ _ _ _
      | some r =>
        dsimp only
        rw [getLastD_append, List.getLastD_cons]
        cases o.request k true with
        | some handle => exact flowUpMoments_last _ _ _ _ _
        | none => exact flowRefusedMoments_last _ _ _ _

theorem Untouched.out (h : Untouched j s u) (hj : j ≠ i) (w : Want) (x : RxFlow) (port : ℕ) :
    Untouched j s (w.out i x port u) :=
  (((h.call_one (c := .bind i) hj.symm).setRx hj x).setFlow hj _).call_one hj.symm

/-- Within its turn a want has touched only the free slot, or it has been accepted beside
the flow that it replaces, or it has not, and has touched that slot too. -/
theorem mem_requestMoments {m : Sub} (hm : m ∈ requestMoments o snap u (w, k)) :
    ∃ i, freeSlot u = some i ∧ ((∀ j, j ≠ i → Untouched j u m) ∨
      (∃ x port handle,
        aoipRxBindFlow i w.req.nslots (slotMap w.slotToCh) w.req.fpp (o.bind k) (u.rx i) = (x, some port) ∧
          o.request k false = some handle ∧
          m ∈ flowUpMoments o snap k i (w.asked i port) w.replaces handle (w.out i x port u)) ∨
      (o.request k false = none ∧ ∀ j, j ≠ i → w.replaces ≠ some j → Untouched j u m)) := by
  unfold requestMoments at hm
  dsimp only at hm
  by_cases hdone : w.done = true
  · rw [if_pos hdone] at hm
    cases hm
  rw [if_neg hdone] at hm
  cases hfree : freeSlot u with
  | none =>
    rw [hfree] at hm
    cases hm
  | some i =>
    refine ⟨i, rfl, ?_⟩
    have hfilled : ∀ j, j ≠ i → Untouched j u (u.setFlow i w.slot) := fun j hj => (Untouched.refl j u).setFlow hj w.slot
    rw [hfree] at hm
    dsimp only at hm
    rcases hb : aoipRxBindFlow i w.req.nslots (slotMap w.slotToCh) w.req.fpp (o.bind k) ((u.call [.bind i]).rx i) with
      ⟨x, _ | port⟩
    all_goals
      have hbound : ∀ (j : Fin AP_MAX_FLOWS) (f : FlowSlot), j ≠ i →
          Untouched j u (((u.call [.bind i]).setRx i x).setFlow i f) := fun j f hj =>
        (((Untouched.refl j u).call_one (c := .bind i) hj.symm).setRx hj x).setFlow hj f
      rw [hb] at hm
    · rcases List.mem_pair.1 hm with rfl | rfl
      · exact Or.inl hfilled
      · exact Or.inl fun j hj => hbound j _ hj
    have hout : ∀ j, j ≠ i → Untouched j u (w.out i x port u) := fun j hj => (Untouched.refl j u).out hj w x port
    rcases List.mem_cons.1 hm with rfl | hm
    · exact Or.inl hfilled
    rcases List.mem_cons.1 hm with rfl | hm
    · exact Or.inl fun j hj => hbound j _ hj
    rcases List.mem_cons.1 hm with rfl | hm
    · exact Or.inl hout
    cases hrequest : o.request k false with
    | some handle =>
      rw [hrequest] at hm
      exact Or.inr (Or.inl ⟨x, port, handle, hb, rfl, hm⟩)
    | none =>
      refine Or.inr (Or.inr ⟨rfl, fun j hj hr => ?_⟩)
      rw [hrequest] at hm
      cases hrep : w.replaces with
      | none =>
        rw [hrep] at hm
        exact (hout j hj).flowRefusedMoments hj _ _ m hm
      | some r =>
        have hjr : j ≠ r := fun hjr => hr (by rw [hrep, hjr])
        have hdown := ((hout j hj).tearDown hjr).call_one (c := .request i (w.asked i port).req) hj.symm
        have hagain : ∀ st, Untouched j u
            { (tearDown r (w.out i x port u)).call [.request i (w.asked i port).req] with st := st } :=
          fun st => hdown.same rfl rfl rfl
        rw [hrep] at hm
        rcases List.mem_append.1 hm with hm | hm
        · exact (hout j hj).tearDownMoments hjr m hm
        rcases List.mem_cons.1 hm with rfl | hm
        · exact hagain _
        cases halone : o.request k true with
        | some handle =>
          rw [halone] at hm
          exact (hagain _).flowUpMoments hj (by simp) _ _ m hm
        | none =>
          rw [halone] at hm
          exact (hagain _).flowRefusedMoments hj _ _ m hm

/-- The turn of a want touches the free slot it takes and the slot it replaces. -/
theorem untouched_requestMoments (hj : freeSlot u ≠ some j) (hr : w.replaces ≠ some j) :
    ∀ m ∈ requestMoments o snap u (w, k), Untouched j u m := by
  intro m hm
  obtain ⟨i, hfree, hcases⟩ := mem_requestMoments hm
  have hji : j ≠ i := fun hji => hj (by rw [hji]; exact hfree)
  rcases hcases with hfirst | ⟨x, port, handle, -, -, hup⟩ | ⟨-, hrefused⟩
  · exact hfirst j hji
  · exact ((Untouched.refl j u).out hji w x port).flowUpMoments hji hr _ _ m hup
  · exact hrefused j hji hr

theorem freeSlot_ne_named (hj : (u.flow j).device ≠ []) : freeSlot u ≠ some j := fun h => hj (freeSlot_eq_some h)

theorem untouched_requestWant (hj : freeSlot u ≠ some j) (hr : w.replaces ≠ some j) :
    Untouched j u (requestWant o snap u (w, k)) := by
  have hmoments : ∀ m ∈ requestMoments o snap u (w, k), Untouched j u m := untouched_requestMoments hj hr
  have hlast := holds_last (P := Untouched j u) (Untouched.refl j u) hmoments
  rwa [requestMoments_last] at hlast

end Inferno
