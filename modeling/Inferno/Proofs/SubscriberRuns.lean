import Inferno.Proofs.Rebuild

/-! Runs of the subscriber's task. Between two steps the flow table is in order, as long
as no channel without a transmitter's name resolves at a rebuild; a liveness pass only
takes flows away, and asks for a rebuild when it does. -/

namespace Inferno

open Lib

variable {prof : RateProfile} {s s' : Sub}

def Rebuilds (now : ℤ) (s : Sub) : Prop := s.dirty = true ∨ (now ≥ s.nextRetry ∧ anyPending s = true)

instance (now : ℤ) (s : Sub) : Decidable (Rebuilds now s) := inferInstanceAs (Decidable (_ ∨ _))

/-- A condition on the answers to a rebuild and the state before it, for the steps that
rebuild. -/
def AtRebuild (P : Outcomes → Sub → Prop) (s : Sub) : SubEvent → Prop
  | .check o now _ => Rebuilds now s → P o s
  | _ => True

instance (P : Outcomes → Sub → Prop) [∀ o s, Decidable (P o s)] (s : Sub) (e : SubEvent) :
    Decidable (AtRebuild P s e) := by
  cases e <;> unfold AtRebuild <;> infer_instance

theorem subCheck_of_rebuilds {o : Outcomes} {now t : ℤ} (h : Rebuilds now s) :
    subCheck prof o now t s = { rebuild prof o { s with dirty := false } with nextRetry := t + RETRY_MS * 1000 } := by
  unfold subCheck
  by_cases hd : s.dirty = true
  · rw [if_pos hd]
  · have hself : { s with dirty := false } = s := by
      rw [Bool.not_eq_true] at hd
      rw [← hd]
    rw [if_neg hd, if_pos (h.resolve_left hd), hself]

theorem subCheck_of_not_rebuilds {o : Outcomes} {now t : ℤ} (h : ¬ Rebuilds now s) : subCheck prof o now t s = s := by
  rw [Rebuilds, not_or] at h
  rw [subCheck, if_neg h.1, if_neg h.2]

theorem SubInv.congr (h : SubInv s) (hf : s'.flow = s.flow) (hr : s'.rx = s.rx) (hch : s'.ch = s.ch) : SubInv s' :=
  ⟨h.flows.congr hf hr, by rw [hch]; exact h.names⟩

theorem Rebuilt.congr {o : Outcomes} {u : Sub} (h : Rebuilt prof o s s') (hf : u.flow = s'.flow) (hr : u.rx = s'.rx)
    (hch : u.ch = s'.ch) : Rebuilt prof o s u :=
  ⟨h.inv.congr hf hr hch, h.same.of_ch hch, by rw [flowTable_congr hf]; exact h.table, by rw [hch]; exact h.status⟩

theorem subCheck_rebuilt {o : Outcomes} {now t : ℤ} (hs : SubInv s) (h : Rebuilds now s) (hnamed : Named prof o s) :
    Rebuilt prof o s (subCheck prof o now t s) ∧ (subCheck prof o now t s).dirty = false := by
  rw [subCheck_of_rebuilds h]
  have hs' : SubInv { s with dirty := false } := hs.congr rfl rfl rfl
  have hnamed' : Named prof o { s with dirty := false } := hnamed.congr (s := s) rfl rfl
  have hrebuilt : Rebuilt prof o s (rebuild prof o { s with dirty := false }) :=
    Rebuilt.of_congr (s := s) (u := { s with dirty := false }) rfl rfl rfl (rebuild_rebuilt hs' hnamed')
  exact ⟨hrebuilt.congr rfl rfl rfl, rebuild_dirty hs' hnamed'⟩

/-- Flows have only gone, and where one has, a rebuild is due. -/
structure Quieter (s s' : Sub) : Prop where
  inv : SubInv s'
  ch : s'.ch = s.ch
  dirty : s.dirty = true → s'.dirty = true
  table : ∀ d, flowTable s' d = flowTable s d ∨ (flowTable s' d = none ∧ s'.dirty = true)

theorem Quieter.refl (h : SubInv s) : Quieter s s := ⟨h, rfl, id, fun _ => Or.inl rfl⟩

theorem Quieter.trans {u : Sub} (h : Quieter s s') (h' : Quieter s' u) : Quieter s u := by
  refine ⟨h'.inv, h'.ch.trans h.ch, h'.dirty ∘ h.dirty, fun d => ?_⟩
  rcases h'.table d with hd | hd
  · rcases h.table d with he | ⟨he, hdirty⟩
    · exact Or.inl (hd.trans he)
    · exact Or.inr ⟨hd.trans he, h'.dirty hdirty⟩
  · exact Or.inr hd

theorem quieter_heard {i : Fin AP_MAX_FLOWS} {n : ℕ} {t : ℤ} {st : SubStats} (h : SubInv s) :
    Quieter s { s.setFlow i { s.flow i with lastPackets := n, nextActionUs := t } with st := st } := by
  have hentry : (fun j => (Function.update s.flow i { s.flow i with lastPackets := n, nextActionUs := t } j).entry) =
      fun j => (s.flow j).entry := by
    funext j
    by_cases hj : j = i
    · subst hj
      rw [Function.update_self]
      rfl
    · rw [Function.update_of_ne hj]
  refine ⟨⟨⟨fun j => ?_, ?_⟩, h.names⟩, rfl, id, fun d => Or.inl ?_⟩
  · have hslot := h.flows.slot j
    by_cases hj : j = i
    · subst hj
      show SlotOk (Function.update s.flow j _ j) (s.rx j)
      rw [Function.update_self]
      exact ⟨hslot.device, hslot.rx, hslot.bound, hslot.ids, hslot.sorted, hslot.ne⟩
    · show SlotOk (Function.update s.flow i _ j) (s.rx j)
      rwa [Function.update_of_ne hj]
  · show KeysDistinct fun j => (Function.update s.flow i _ j).entry
    rw [hentry]
    exact h.flows.keys
  · show lookup (fun j => (Function.update s.flow i _ j).entry) d = _
    rw [hentry, ← flowTable]

theorem quieter_livenessFlow (now : ℤ) (pk : Fin AP_MAX_FLOWS → ℕ) (h : SubInv s) (i : Fin AP_MAX_FLOWS) :
    Quieter s (livenessFlow now pk s i) := by
  unfold livenessFlow
  dsimp only
  by_cases hidle : (s.flow i).state ≠ .active ∨ now < (s.flow i).nextActionUs
  · rw [if_pos hidle]
    exact Quieter.refl h
  rw [if_neg hidle]
  by_cases hheard : pk i ≠ (s.flow i).lastPackets
  · rw [if_pos hheard]
    exact quieter_heard h
  · have hactive : (s.flow i).state = .active := by
      by_contra hne
      exact hidle (Or.inl hne)
    rw [if_neg hheard]
    set u : Sub := forgetDevice (s.flow i).device
      { s with st := { s.st with keepalivesLost := u32 (s.st.keepalivesLost + 1) } } with hu
    have hinv : FlowInv u := h.flows.congr rfl rfl
    refine ⟨⟨(hinv.tearDown i).congr rfl rfl, fun c => ?_⟩, tearDown_ch i u, fun _ => rfl, fun d => ?_⟩
    · show ((tearDown i u).ch c).txDevice.length ≤ 31
      rw [tearDown_ch]
      exact h.names c
    · have htable : flowTable { tearDown i u with dirty := true } =
          Function.update (flowTable s) (s.flow i).device none :=
        hinv.tearDown_table (i := i) hactive
      rw [htable]
      by_cases hd : d = (s.flow i).device
      · subst hd
        exact Or.inr ⟨Function.update_self _ _ _, rfl⟩
      · exact Or.inl (Function.update_of_ne hd _ _)

theorem quieter_subLiveness (now : ℤ) (pk : Fin AP_MAX_FLOWS → ℕ) (h : SubInv s) : Quieter s (subLiveness now pk s) := by
  have hrun := run_induct (livenessFlow now pk) (s := s) (P := fun _ t => Quieter s t) (Quieter.refl h)
    (fun _ i ht => ht.trans (quieter_livenessFlow now pk ht.inv i))
  exact hrun _

theorem subInv_boot : SubInv Sub.boot := ⟨flowInv_boot, fun _ => Nat.zero_le _⟩

theorem subscriberSet_names (h : ∀ e, (s.ch e).txDevice.length ≤ 31) (c : Fin AP_NCH) (txChannel txDevice : CStr) :
    ∀ e, ((subscriberSet c txChannel txDevice s).ch e).txDevice.length ≤ 31 := by
  intro e
  by_cases he : e = c
  · subst he
    simp only [subscriberSet, Function.update_self]
    split_ifs
    · exact Nat.zero_le _
    · exact List.length_take_le _ _
  · simpa [subscriberSet, he] using h e

theorem SubInv.set (h : SubInv s) (c : Fin AP_NCH) (txChannel txDevice : CStr) :
    SubInv (subscriberSet c txChannel txDevice s) :=
  ⟨h.flows.congr rfl rfl, subscriberSet_names h.names c txChannel txDevice⟩

theorem SubInv.step (h : SubInv s) (e : SubEvent) (hnamed : AtRebuild (Named prof) s e) :
    SubInv (subStep prof s e) := by
  cases e with
  | set c txChannel txDevice => exact h.set c txChannel txDevice
  | refresh => exact h.congr rfl rfl rfl
  | check o now t =>
    by_cases hr : Rebuilds now s
    · exact (subCheck_rebuilt h hr (hnamed hr)).1.inv
    · rw [subStep, subCheck_of_not_rebuilds hr]
      exact h
  | liveness now pk => exact (quieter_subLiveness now pk h).inv

def subRun (prof : RateProfile) (l : List SubEvent) : Sub := l.foldl (subStep prof) Sub.boot

/-- The flow table is in order in every state of a run. -/
theorem subInv_run {l : List SubEvent}
    (hnamed : ∀ k (hk : k < l.length), AtRebuild (Named prof) (before (subStep prof) Sub.boot l k) l[k]) {k : ℕ}
    (hk : k ≤ l.length) : SubInv (before (subStep prof) Sub.boot l k) :=
  guarded_run (subStep prof) (P := fun _ t => SubInv t) (G := fun _ t e => AtRebuild (Named prof) t e) subInv_boot
    (fun _ _ e h hn => h.step e hn) hnamed hk

theorem subInv_subRun {l : List SubEvent}
    (hnamed : ∀ k (hk : k < l.length), AtRebuild (Named prof) (before (subStep prof) Sub.boot l k) l[k]) :
    SubInv (subRun prof l) := by
  have h := subInv_run hnamed le_rfl
  rwa [before_length] at h

end Inferno
