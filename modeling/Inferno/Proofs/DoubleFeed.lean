import Inferno.Proofs.SubscriberRuns

/-! No output is fed twice. A rebuild works on disjoint lists of channels, so two flows
can only share one when a flow that should have changed was left as it was while a new
flow took one of its channels. -/

namespace Inferno

open Lib

variable {prof : RateProfile} {o : Outcomes} {s s' : Sub}

/-- No local channel is in the slot maps of two active flows. -/
def NoDoubleFeed (s : Sub) : Prop :=
  ∀ i j, i ≠ j → (s.flow i).state = .active → (s.flow j).state = .active →
    ∀ c ∈ (s.flow i).slotToCh, c ∉ (s.flow j).slotToCh

instance (s : Sub) : Decidable (NoDoubleFeed s) := inferInstanceAs (Decidable (∀ _ _, _))

/-- No flow that comes up in the rebuild takes a channel of a flow that is left in place
although its list has changed. -/
def Apart (prof : RateProfile) (o : Outcomes) (s : Sub) : Prop :=
  ∀ d ∈ wantedDevices prof o s, ∀ e ∈ wantedDevices prof o s,
    flowFate prof o s d = .stuck → flowFate prof o s e = .up →
      ∀ v ∈ flowTable s d, ∀ c ∈ v.map Prod.fst, c ∉ (goal prof o s e).map Prod.fst

instance : Decidable (Apart prof o s) := inferInstanceAs (Decidable (∀ _ ∈ _, _))

theorem FlowInv.noDoubleFeed_iff (h : FlowInv s) :
    NoDoubleFeed s ↔ ∀ d e v w, d ≠ e → flowTable s d = some v → flowTable s e = some w →
      ∀ c ∈ v.map Prod.fst, c ∉ w.map Prod.fst := by
  constructor
  · intro hfeed d e v w hde hd he c hc
    obtain ⟨i, hi, hid, rfl⟩ := h.lookup_eq_some.1 hd
    obtain ⟨j, hj, hje, rfl⟩ := h.lookup_eq_some.1 he
    rw [(h.slot i).channels hi] at hc
    rw [(h.slot j).channels hj]
    apply hfeed i j _ hi hj c hc
    rintro rfl
    exact hde (hid.symm.trans hje)
  · intro htable i j hij hi hj c hc
    have hd : flowTable s (s.flow i).device = some (s.flow i).carry := h.lookup_eq_some.2 ⟨i, hi, rfl, rfl⟩
    have he : flowTable s (s.flow j).device = some (s.flow j).carry := h.lookup_eq_some.2 ⟨j, hj, rfl, rfl⟩
    have hne : (s.flow i).device ≠ (s.flow j).device := by
      intro heq
      exact hij (h.keys i j _ _ _ (entry_eq_some.2 ⟨hi, rfl, rfl⟩) (entry_eq_some.2 ⟨hj, heq.symm, rfl⟩))
    rw [← (h.slot i).channels hi] at hc
    rw [← (h.slot j).channels hj]
    exact htable _ _ _ _ hne hd he c hc

/-- The patch itself wants every channel from one transmitter only. -/
theorem goal_disjoint {d e : CStr} (hde : d ≠ e) {c : Fin AP_NCH} (hc : c ∈ (goal prof o s d).map Prod.fst) :
    c ∉ (goal prof o s e).map Prod.fst := by
  intro hc'
  exact hde ((mem_goal_channels.1 hc).1.symm.trans (mem_goal_channels.1 hc').1)

/-- The flow of a transmitter after the rebuild is the one it had, which was as wanted or
is stuck, or came up as wanted. -/
theorem Rebuilt.flow_cases (h : Rebuilt prof o s s') {d : CStr} {v : Carry} (hv : flowTable s' d = some v) :
    d ∈ wantedDevices prof o s ∧
      ((flowTable s d = some v ∧ (flowFate prof o s d = .stuck ∨ v = goal prof o s d)) ∨
        (flowFate prof o s d = .up ∧ v = goal prof o s d)) := by
  have htable := congrFun h.table d
  rw [hv, patched_apply] at htable
  by_cases hd : d ∈ wantedDevices prof o s
  · rw [if_pos hd] at htable
    refine ⟨hd, ?_⟩
    cases hfate : flowFate prof o s d with
    | kept =>
      have hkept := (fateOf_eq_kept wantedDevices_nodup hd).1 hfate
      rw [hfate] at htable
      have hold : flowTable s d = some v := htable.symm
      exact Or.inl ⟨hold, Or.inr (Option.some.inj (hold.symm.trans hkept))⟩
    | stuck =>
      rw [hfate] at htable
      exact Or.inl ⟨htable.symm, Or.inl rfl⟩
    | up =>
      rw [hfate] at htable
      exact Or.inr ⟨rfl, Option.some.inj htable⟩
    | lost =>
      rw [hfate] at htable
      cases htable
  · rw [if_neg hd] at htable
    cases htable

/-- A rebuild keeps every output fed once just when it keeps apart what is stuck and
what comes up. -/
theorem Rebuilt.noDoubleFeed_iff (h : Rebuilt prof o s s') (hs : SubInv s) (hfeed : NoDoubleFeed s) :
    NoDoubleFeed s' ↔ Apart prof o s := by
  have hold := hs.flows.noDoubleFeed_iff.1 hfeed
  rw [h.inv.flows.noDoubleFeed_iff]
  constructor
  · intro htable d hd e he hstuck hup v hv c hc
    have hd' : flowTable s' d = some v := by
      rw [h.table, patched_apply, if_pos hd, hstuck]
      exact hv
    have he' : flowTable s' e = some (goal prof o s e) := by
      rw [h.table, patched_apply, if_pos he, hup]
      rfl
    apply htable d e v _ _ hd' he' c hc
    rintro rfl
    rw [hstuck] at hup
    cases hup
  · intro hapart d e v w hde hv hw c hc hc'
    obtain ⟨hd, hdv⟩ := h.flow_cases hv
    obtain ⟨he, hew⟩ := h.flow_cases hw
    rcases hdv with ⟨hvold, hdstuck⟩ | ⟨hdup, rfl⟩
    · rcases hew with ⟨hwold, -⟩ | ⟨heup, rfl⟩
      · exact hold d e v w hde hvold hwold c hc hc'
      · rcases hdstuck with hdstuck | rfl
        · exact hapart d hd e he hdstuck heup v hvold c hc hc'
        · exact goal_disjoint hde hc hc'
    · rcases hew with ⟨hwold, hestuck | rfl⟩ | ⟨-, rfl⟩
      · exact hapart e he d hd hestuck hdup w hwold c hc' hc
      · exact goal_disjoint hde hc hc'
      · exact goal_disjoint hde hc hc'

theorem Quieter.noDoubleFeed (h : Quieter s s') (hs : SubInv s) (hfeed : NoDoubleFeed s) : NoDoubleFeed s' := by
  have hold := hs.flows.noDoubleFeed_iff.1 hfeed
  rw [h.inv.flows.noDoubleFeed_iff]
  intro d e v w hde hv hw
  have hback : ∀ d v, flowTable s' d = some v → flowTable s d = some v := by
    intro d v hv
    rcases h.table d with hd | ⟨hd, -⟩
    · rwa [← hd]
    · rw [hd] at hv
      cases hv
  exact hold d e v w hde (hback d v hv) (hback e w hw)

theorem noDoubleFeed_step_iff (hs : SubInv s) (hfeed : NoDoubleFeed s) (e : SubEvent)
    (hnamed : AtRebuild (Named prof) s e) :
    NoDoubleFeed (subStep prof s e) ↔ AtRebuild (Apart prof) s e := by
  cases e with
  | set c txChannel txDevice => exact iff_of_true hfeed trivial
  | refresh => exact iff_of_true hfeed trivial
  | check o now t =>
    by_cases hr : Rebuilds now s
    · have h := (subCheck_rebuilt (t := t) hs hr (hnamed hr)).1.noDoubleFeed_iff hs hfeed
      exact h.trans ⟨fun ha _ => ha, fun ha => ha hr⟩
    · rw [subStep, subCheck_of_not_rebuilds hr]
      exact iff_of_true hfeed fun h => absurd h hr
  | liveness now pk => exact iff_of_true ((quieter_subLiveness now pk hs).noDoubleFeed hs hfeed) trivial

theorem noDoubleFeed_boot : NoDoubleFeed Sub.boot := by
  intro i j _ hi
  cases hi

/-- In every run from boot no output is fed twice just when every rebuild keeps apart
what is stuck and what comes up. -/
theorem no_double_feed {l : List SubEvent}
    (hnamed : ∀ k (hk : k < l.length), AtRebuild (Named prof) (before (subStep prof) Sub.boot l k) l[k]) :
    (∀ k, k ≤ l.length → NoDoubleFeed (before (subStep prof) Sub.boot l k)) ↔
      ∀ k (hk : k < l.length), AtRebuild (Apart prof) (before (subStep prof) Sub.boot l k) l[k] := by
  have hrun := guarded_run_iff (subStep prof) (P := fun t => SubInv t ∧ NoDoubleFeed t)
    (H := fun t e => AtRebuild (Named prof) t e) (G := fun t e => AtRebuild (Apart prof) t e)
    (Q := fun t e => NoDoubleFeed (subStep prof t e)) ⟨subInv_boot, noDoubleFeed_boot⟩
    (fun t e ht hn hg => ⟨ht.1.step e hn, (noDoubleFeed_step_iff ht.1 ht.2 e hn).2 hg⟩)
    (fun t e ht hn => noDoubleFeed_step_iff ht.1 ht.2 e hn) hnamed
  rw [← hrun, forall_before_iff]
  exact and_iff_right noDoubleFeed_boot

/-- Every call succeeds; channel ids are one more than the channel, at 48 kHz. -/
def allSucceed : Outcomes where
  resolve c := some ⟨0, 0, c + 1, 48000, 16, 32, 0⟩
  bind _ := true
  request _ _ := some []
  packets _ _ := 1
  now _ := 0

/-- Three transmitters feed four channels; then the first channel moves to a fourth. -/
def crowdedPatch : List SubEvent :=
  [.set 0 [1] [65], .set 1 [2] [65], .set 2 [1] [67], .set 3 [1] [68], .check allSucceed 0 0,
    .set 0 [1] [66], .check allSucceed 0 0]

/-- The first patch alone is safe. -/
theorem no_double_feed_first_patch :
    NoDoubleFeed (before (subStep rate48k) Sub.boot (crowdedPatch.take 5) 5) :=
  (no_double_feed (l := crowdedPatch.take 5) (by decide +kernel)).2 (by decide +kernel) 5 (by decide)

/-- After the move the new flow takes the last free slot, and the flow that should give
the channel up is left as it was. -/
theorem crowded_patch_feeds_twice : ¬ NoDoubleFeed (subRun rate48k crowdedPatch) := by
  decide +kernel

end Inferno
