import Inferno.Proofs.DoubleFeed

/-! A channel marked active is fed. Between rebuilds the mark may outlive a flow that a
liveness pass took away, because a rebuild is due then; and the rebuild clears it,
unless the new flow's socket cannot be bound. -/

namespace Inferno

open Lib

variable {prof : RateProfile} {o : Outcomes} {s s' : Sub}

/-- Every channel marked active is in the slot map of an active flow of its transmitter. -/
def Honest (s : Sub) : Prop :=
  ∀ c, (s.ch c).status = .active →
    ∃ i, (s.flow i).state = .active ∧ (s.flow i).device = (s.ch c).txDevice ∧ c ∈ (s.flow i).slotToCh

instance (s : Sub) : Decidable (Honest s) := inferInstanceAs (Decidable (∀ _, _ → _))

/-- No bind fails for a wanted transmitter without a flow while one of its channels is
still marked active. -/
def Cleared (prof : RateProfile) (o : Outcomes) (s : Sub) : Prop :=
  ∀ c, Placed prof o s c → (s.ch c).status = .active → flowTable s (s.ch c).txDevice = none →
    o.bind (turn (wantedDevices prof o s) (s.ch c).txDevice) = true

instance : Decidable (Cleared prof o s) := inferInstanceAs (Decidable (∀ _, _ → _ → _ → _))

/-- A channel marked active is subscribed, and carried unless its transmitter has lost
its flow and a rebuild is due. -/
def StatusInv (s : Sub) : Prop :=
  ∀ c, (s.ch c).status = .active →
    (s.ch c).txChannel ≠ [] ∧
      ((∃ v, flowTable s (s.ch c).txDevice = some v ∧ c ∈ v.map Prod.fst) ∨
        (s.dirty = true ∧ flowTable s (s.ch c).txDevice = none))

theorem FlowInv.carried_iff (h : FlowInv s) {c : Fin AP_NCH} {d : CStr} :
    (∃ v, flowTable s d = some v ∧ c ∈ v.map Prod.fst) ↔
      ∃ i, (s.flow i).state = .active ∧ (s.flow i).device = d ∧ c ∈ (s.flow i).slotToCh := by
  constructor
  · rintro ⟨v, hv, hc⟩
    obtain ⟨i, hi, hd, rfl⟩ := h.lookup_eq_some.1 hv
    rw [(h.slot i).channels hi] at hc
    exact ⟨i, hi, hd, hc⟩
  · rintro ⟨i, hi, hd, hc⟩
    rw [← (h.slot i).channels hi] at hc
    exact ⟨_, h.lookup_eq_some.2 ⟨i, hi, hd, rfl⟩, hc⟩

/-- A rebuild leaves the statuses honest just when no bind fails where it would leave a
stale mark. -/
theorem Rebuilt.honest_iff (h : Rebuilt prof o s s') (hstatus : StatusInv s) : Honest s' ↔ Cleared prof o s := by
  constructor
  · intro hhonest c hp hactive hnone
    by_contra hbind
    have hstuck : flowFate prof o s (s.ch c).txDevice = .stuck :=
      (fateOf_fresh wantedDevices_nodup wantedDevices_length hp.2 hnone).2 (Bool.not_eq_true _ ▸ hbind)
    have hactive' : (s'.ch c).status = .active := by
      rw [h.status, if_neg (hstatus c hactive).1, if_pos hp, hstuck]
      exact hactive
    have hnone' : flowTable s' (s.ch c).txDevice = none := by
      rw [h.table, patched_apply, if_pos hp.2, hstuck]
      exact hnone
    obtain ⟨i, hi, hd, -⟩ := hhonest c hactive'
    rw [(h.same c).2] at hd
    exact flowTable_eq_none.1 hnone' i hi hd
  · intro hcleared c hactive
    rw [← h.inv.flows.carried_iff, (h.same c).2]
    rw [h.status] at hactive
    by_cases hsub : (s.ch c).txChannel = []
    · rw [if_pos hsub] at hactive
      exact absurd hsub (hstatus c hactive).1
    rw [if_neg hsub] at hactive
    by_cases hp : Placed prof o s c
    · have hc : c ∈ (goal prof o s (s.ch c).txDevice).map Prod.fst := mem_goal_channels.2 ⟨rfl, hp.1⟩
      have htable := congrFun h.table (s.ch c).txDevice
      rw [patched_apply, if_pos hp.2] at htable
      rw [if_pos hp] at hactive
      cases hfate : flowFate prof o s (s.ch c).txDevice with
      | kept =>
        rw [hfate] at htable
        exact ⟨_, htable.trans ((fateOf_eq_kept wantedDevices_nodup hp.2).1 hfate), hc⟩
      | up =>
        rw [hfate] at htable
        exact ⟨_, htable, hc⟩
      | lost =>
        rw [hfate] at hactive
        cases hactive
      | stuck =>
        rw [hfate] at hactive htable
        rcases (hstatus c hactive).2 with ⟨v, hv, hcv⟩ | ⟨-, hnone⟩
        · exact ⟨v, htable.trans hv, hcv⟩
        · have hbind := (fateOf_fresh wantedDevices_nodup wantedDevices_length hp.2 hnone).1 hfate
          have htrue := hcleared c hp hactive hnone
          exact absurd (htrue.symm.trans hbind) (by simp)
    · rw [if_neg hp] at hactive
      cases hactive

theorem Quieter.statusInv (h : Quieter s s') (hstatus : StatusInv s) : StatusInv s' := by
  intro c hc
  rw [h.ch] at hc ⊢
  obtain ⟨hsub, hold⟩ := hstatus c hc
  refine ⟨hsub, ?_⟩
  rcases h.table (s.ch c).txDevice with htable | ⟨hnone, hdirty⟩
  · rw [htable]
    rcases hold with hcarried | ⟨hdirty, hnone⟩
    · exact Or.inl hcarried
    · exact Or.inr ⟨h.dirty hdirty, hnone⟩
  · exact Or.inr ⟨hdirty, hnone⟩

theorem StatusInv.set (h : StatusInv s) (c : Fin AP_NCH) (txChannel txDevice : CStr) :
    StatusInv (subscriberSet c txChannel txDevice s) := by
  intro e he
  by_cases hec : e = c
  · subst hec
    simp only [subscriberSet, Function.update_self] at he
    split_ifs at he
  · simp only [subscriberSet, Function.update_of_ne hec] at he ⊢
    obtain ⟨hsub, hold⟩ := h e he
    exact ⟨hsub, hold.imp_right fun hnone => ⟨trivial, hnone.2⟩⟩

theorem StatusInv.dirty (h : StatusInv s) : StatusInv { s with dirty := true } := by
  intro c hc
  obtain ⟨hsub, hold⟩ := h c hc
  exact ⟨hsub, hold.imp_right fun hnone => ⟨rfl, hnone.2⟩⟩

theorem Rebuilt.statusInv (h : Rebuilt prof o s s') (hstatus : StatusInv s) (hcleared : Cleared prof o s) :
    StatusInv s' := by
  intro c hc
  have hcarried := h.inv.flows.carried_iff.2 ((h.honest_iff hstatus).2 hcleared c hc)
  refine ⟨fun hsub => ?_, Or.inl hcarried⟩
  rw [(h.same c).1] at hsub
  rw [h.status, if_pos hsub] at hc
  exact (hstatus c hc).1 hsub

theorem StatusInv.step (h : StatusInv s) (hs : SubInv s) (e : SubEvent) (hnamed : AtRebuild (Named prof) s e)
    (hcleared : AtRebuild (Cleared prof) s e) : StatusInv (subStep prof s e) := by
  cases e with
  | set c txChannel txDevice => exact h.set c txChannel txDevice
  | refresh => exact h.dirty
  | check o now t =>
    by_cases hr : Rebuilds now s
    · exact (subCheck_rebuilt hs hr (hnamed hr)).1.statusInv h (hcleared hr)
    · rw [subStep, subCheck_of_not_rebuilds hr]
      exact h
  | liveness now pk => exact (quieter_subLiveness now pk hs).statusInv h

/-- The statuses are honest at the end of the rebuild, if the step is one. -/
def HonestAfter (prof : RateProfile) (s : Sub) (e : SubEvent) : Prop :=
  AtRebuild (fun _ _ => Honest (subStep prof s e)) s e

theorem honestAfter_iff (h : StatusInv s) (hs : SubInv s) (e : SubEvent) (hnamed : AtRebuild (Named prof) s e) :
    HonestAfter prof s e ↔ AtRebuild (Cleared prof) s e := by
  cases e with
  | check o now t =>
    refine forall_congr' fun hr => ?_
    exact (subCheck_rebuilt hs hr (hnamed hr)).1.honest_iff h
  | _ => exact Iff.rfl

theorem statusInv_boot : StatusInv Sub.boot := by
  intro c hc
  cases hc

/-- In every run from boot the statuses are honest at the end of every rebuild just when
no rebuild fails to bind where it would leave a stale mark. -/
theorem status_honest {l : List SubEvent}
    (hnamed : ∀ k (hk : k < l.length), AtRebuild (Named prof) (before (subStep prof) Sub.boot l k) l[k]) :
    (∀ k (hk : k < l.length), HonestAfter prof (before (subStep prof) Sub.boot l k) l[k]) ↔
      ∀ k (hk : k < l.length), AtRebuild (Cleared prof) (before (subStep prof) Sub.boot l k) l[k] :=
  guarded_run_iff (subStep prof) (P := fun t => SubInv t ∧ StatusInv t) (H := fun t e => AtRebuild (Named prof) t e)
    (G := fun t e => AtRebuild (Cleared prof) t e) (Q := fun t e => HonestAfter prof t e)
    ⟨subInv_boot, statusInv_boot⟩ (fun _ e ht hn hg => ⟨ht.1.step e hn, ht.2.step ht.1 e hn hg⟩)
    (fun _ e ht hn => honestAfter_iff ht.2 ht.1 e hn) hnamed

/-- A transmitter's flow dies, and the socket for the new one cannot be bound. -/
def deadFlow : List SubEvent :=
  [.set 0 [1] [65], .check allSucceed 0 0, .liveness 3000000 fun _ => 0,
    .check { allSucceed with bind := fun _ => false } 3000000 3000000]

/-- Up to the liveness pass every rebuild was honest. -/
theorem status_honest_first_patch :
    HonestAfter rate48k (subRun rate48k (deadFlow.take 1)) (.check allSucceed 0 0) :=
  (status_honest (l := deadFlow.take 3) (by decide +kernel)).2 (by decide +kernel) 1 (by decide)

/-- The channel is marked active, no flow is, and nothing will be retried. -/
theorem dead_flow_still_active :
    let s := subRun rate48k deadFlow
    (s.ch 0).status = .active ∧ (∀ i, (s.flow i).state = .idle) ∧ ¬ Honest s ∧ s.dirty = false ∧ anyPending s = false := by
  decide +kernel

end Inferno
