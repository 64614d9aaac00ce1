import Inferno.Proofs.DoubleFeed

/-! When every call of a rebuild succeeds, the flows carry the patch afterwards or a
retry is due, except where a flow has to change while every slot is taken: the old flow
stays, and its channels are still marked active. -/

namespace Inferno

open Lib

variable {prof : RateProfile} {o : Outcomes} {s s' : Sub}

/-- An active flow feeds a channel from a transmit channel of a transmitter. -/
def Fed (s : Sub) (c : Fin AP_NCH) (d : CStr) (id : ℕ) : Prop :=
  ∃ i, (s.flow i).state = .active ∧ (s.flow i).device = d ∧ (c, id) ∈ (s.flow i).carry

/-- The flows of `s'` carry exactly what the subscriptions of `s` ask for: every
subscribed channel from its transmitter and transmit channel, and no other. -/
def Converged (o : Outcomes) (s s' : Sub) : Prop :=
  ∀ c d id, Fed s' c d id ↔ (s.ch c).txDevice = d ∧ ∃ tx, answer o s c = some tx ∧ tx.txChannelId = id

structure Succeeds (o : Outcomes) : Prop where
  resolve : ∀ c, (o.resolve c).isSome = true
  bind : ∀ k, o.bind k = true
  request : ∀ k again, (o.request k again).isSome = true

/-- The flow of a transmitter has to change, but four transmitters are wanted and all
from its turn on have a flow already. -/
def Crowded (prof : RateProfile) (o : Outcomes) (s : Sub) (d : CStr) : Prop :=
  flowTable s d ≠ some (goal prof o s d) ∧ (wantedDevices prof o s).length = AP_MAX_FLOWS ∧
    ∀ e ∈ wantedDevices prof o s, turn (wantedDevices prof o s) d ≤ turn (wantedDevices prof o s) e → flowTable s e ≠ none

instance (d : CStr) : Decidable (Crowded prof o s d) := inferInstanceAs (Decidable (_ ∧ _ ∧ ∀ _ ∈ _, _ → _))

/-- No wanted flow is crowded out, or some subscription has no place in the patch, or
some channel of a flow that is crowded out is not marked active. -/
def Settles (prof : RateProfile) (o : Outcomes) (s : Sub) : Prop :=
  (∀ d ∈ wantedDevices prof o s, ¬ Crowded prof o s d) ∨
    (∃ c, (s.ch c).txChannel ≠ [] ∧ ¬ Placed prof o s c) ∨
    ∃ c, Placed prof o s c ∧ Crowded prof o s (s.ch c).txDevice ∧ (s.ch c).status ≠ .active

instance : Decidable (Settles prof o s) := inferInstanceAs (Decidable (_ ∨ _ ∨ _))

theorem Succeeds.stuck_iff (h : Succeeds o) {d : CStr} (hd : d ∈ wantedDevices prof o s) :
    flowFate prof o s d = .stuck ↔ Crowded prof o s d :=
  fateOf_stuck_of_success wantedDevices_nodup wantedDevices_length (fun k => ⟨h.bind k, h.request k false⟩) hd

theorem Succeeds.not_lost (h : Succeeds o) (d : CStr) : flowFate prof o s d ≠ .lost := by
  have hbeside : ∀ k, (attempts o k).beside = true := fun k => h.request k false
  rw [flowFate, fateOf, fateNow, hbeside]
  split_ifs <;> simp_all

/-- A placed channel is fed as the patch says by what its subscription resolves to. -/
theorem Placed.answer_iff {c : Fin AP_NCH} (h : Placed prof o s c) {id : ℕ} :
    (∃ tx, answer o s c = some tx ∧ tx.txChannelId = id) ↔ (c, id) ∈ goal prof o s (s.ch c).txDevice := by
  obtain ⟨tx, htx⟩ := Option.isSome_iff_exists.1 h.1
  have hanswer : answer o s c = some tx := (Option.filter_eq_some_iff.1 htx).1
  rw [mem_goal, hanswer, htx]
  simp

theorem fed_iff (h : FlowInv s) {c : Fin AP_NCH} {d : CStr} {id : ℕ} :
    Fed s c d id ↔ ∃ v, flowTable s d = some v ∧ (c, id) ∈ v := by
  constructor
  · rintro ⟨i, hi, hd, hc⟩
    exact ⟨_, h.lookup_eq_some.2 ⟨i, hi, hd, rfl⟩, hc⟩
  · rintro ⟨v, hv, hc⟩
    obtain ⟨i, hi, hd, rfl⟩ := h.lookup_eq_some.1 hv
    exact ⟨i, hi, hd, hc⟩

theorem subscribed_of_answer {c : Fin AP_NCH} {tx : TxChannel} (h : answer o s c = some tx) :
    (s.ch c).txChannel ≠ [] := by
  intro hunsub
  simp [answer, hunsub] at h

/-- A retry is due when a subscription has no place, or a channel of a stuck flow is not
marked active. -/
theorem Rebuilt.anyPending_iff (h : Rebuilt prof o s s') (hsucceeds : Succeeds o) :
    anyPending s' = true ↔ (∃ c, (s.ch c).txChannel ≠ [] ∧ ¬ Placed prof o s c) ∨
      ∃ c, Placed prof o s c ∧ Crowded prof o s (s.ch c).txDevice ∧ (s.ch c).status ≠ .active := by
  rw [anyPending, decide_eq_true_eq]
  constructor
  · rintro ⟨c, hsub, hstatus⟩
    rw [(h.same c).1] at hsub
    rw [h.status, if_neg hsub] at hstatus
    by_cases hp : Placed prof o s c
    · rw [if_pos hp] at hstatus
      cases hfate : flowFate prof o s (s.ch c).txDevice with
      | stuck =>
        rw [hfate] at hstatus
        exact Or.inr ⟨c, hp, (hsucceeds.stuck_iff hp.2).1 hfate, hstatus⟩
      | lost => exact absurd hfate (hsucceeds.not_lost _)
      | kept =>
        rw [hfate] at hstatus
        exact absurd rfl hstatus
      | up =>
        rw [hfate] at hstatus
        exact absurd rfl hstatus
    · exact Or.inl ⟨c, hsub, hp⟩
  · rintro (⟨c, hsub, hp⟩ | ⟨c, hp, hcrowded, hstatus⟩)
    · refine ⟨c, by rwa [(h.same c).1], ?_⟩
      rw [h.status, if_neg hsub, if_neg hp]
      simp
    · refine ⟨c, by rw [(h.same c).1]; exact (feed_subscribed hp.1), ?_⟩
      rw [h.status, if_neg (feed_subscribed hp.1), if_pos hp, (hsucceeds.stuck_iff hp.2).2 hcrowded]
      exact hstatus

theorem carry_eq_of_mem_iff {v w : Carry} (hv : (v.map Prod.fst).Pairwise (· < ·))
    (hw : (w.map Prod.fst).Pairwise (· < ·)) (h : ∀ p, p ∈ v ↔ p ∈ w) : v = w := by
  have hirrefl : Std.Irrefl fun p q : Fin AP_NCH × ℕ => p.1 < q.1 := ⟨fun p => lt_irrefl p.1⟩
  have hanti : Std.Antisymm fun p q : Fin AP_NCH × ℕ => p.1 < q.1 := ⟨fun p q hpq hqp => absurd hqp hpq.asymm⟩
  exact (List.pairwise_map.1 hv).eq_of_mem_iff (List.pairwise_map.1 hw) h

/-- Where every subscription has its place, the flows carry the patch when none is
crowded out. -/
theorem Rebuilt.converged_iff (h : Rebuilt prof o s s') (hs : SubInv s) (hsucceeds : Succeeds o)
    (hplaced : ∀ c, (s.ch c).txChannel ≠ [] → Placed prof o s c) :
    Converged o s s' ↔ ∀ d ∈ wantedDevices prof o s, ¬ Crowded prof o s d := by
  have hpatch : ∀ c d id, ((s.ch c).txDevice = d ∧ ∃ tx, answer o s c = some tx ∧ tx.txChannelId = id) ↔
      (c, id) ∈ goal prof o s d := by
    intro c d id
    constructor
    · rintro ⟨rfl, tx, htx, hid⟩
      exact (hplaced c (subscribed_of_answer htx)).answer_iff.1 ⟨tx, htx, hid⟩
    · intro hc
      obtain ⟨rfl, tx, htx, hid⟩ := mem_goal.1 hc
      exact ⟨rfl, tx, (Option.filter_eq_some_iff.1 htx).1, hid⟩
  constructor
  · intro hconv d hd hcrowded
    have hstuck := (hsucceeds.stuck_iff hd).2 hcrowded
    obtain ⟨v, hv⟩ := Option.ne_none_iff_exists'.1 (hcrowded.2.2 d hd le_rfl)
    have hv' : flowTable s' d = some v := by
      rw [h.table, patched_apply, if_pos hd, hstuck]
      exact hv
    obtain ⟨i, hi, -, hcarry⟩ := hs.flows.lookup_eq_some.1 hv
    have hsorted : (v.map Prod.fst).Pairwise (· < ·) := by
      rw [← hcarry, (hs.flows.slot i).channels hi]
      exact (hs.flows.slot i).sorted hi
    apply hcrowded.1
    rw [hv, carry_eq_of_mem_iff hsorted (goal_sorted d)]
    rintro ⟨c, id⟩
    have hc := hconv c d id
    rw [hpatch, fed_iff h.inv.flows, hv'] at hc
    simpa using hc
  · intro hnone c d id
    rw [hpatch, fed_iff h.inv.flows, h.table, patched_apply]
    by_cases hd : d ∈ wantedDevices prof o s
    · rw [if_pos hd]
      cases hfate : flowFate prof o s d with
      | stuck => exact absurd ((hsucceeds.stuck_iff hd).1 hfate) (hnone d hd)
      | lost => exact absurd hfate (hsucceeds.not_lost d)
      | kept =>
        rw [(fateOf_eq_kept wantedDevices_nodup hd).1 hfate]
        simp [Fate.after]
      | up => simp [Fate.after]
    · rw [if_neg hd]
      refine iff_of_false (by simp) fun hc => hd ?_
      obtain ⟨rfl, tx, htx, -⟩ := mem_goal.1 hc
      have hf : (feed prof o s c).isSome = true := by rw [htx]; rfl
      exact (hplaced c (feed_subscribed hf)).2

/-- From every state of a run, a rebuild whose calls all succeed ends with the flows
carrying the patch, or with a retry due, just when it settles. -/
theorem rebuild_converges {l : List SubEvent}
    (hnamed : ∀ k (hk : k < l.length), AtRebuild (Named prof) (before (subStep prof) Sub.boot l k) l[k])
    (hsucceeds : Succeeds o) (hnow : Named prof o (subRun prof l)) :
    (Converged o (subRun prof l) (rebuild prof o (subRun prof l)) ∨
        anyPending (rebuild prof o (subRun prof l)) = true) ↔ Settles prof o (subRun prof l) := by
  have hs := subInv_subRun hnamed
  have h := rebuild_rebuilt hs hnow
  rw [h.anyPending_iff hsucceeds, Settles]
  by_cases hplaced : ∀ c, ((subRun prof l).ch c).txChannel ≠ [] → Placed prof o (subRun prof l) c
  · rw [h.converged_iff hs hsucceeds hplaced]
  · obtain ⟨c, hc⟩ := not_forall.1 hplaced
    have hlost := Classical.not_imp.1 hc
    exact iff_of_true (Or.inr (Or.inl ⟨c, hlost⟩)) (Or.inr (Or.inl ⟨c, hlost⟩))

theorem allSucceed_succeeds : Succeeds allSucceed := ⟨fun _ => rfl, fun _ => rfl, fun _ _ => rfl⟩

/-- A patch of three transmitters is carried, or retried. -/
theorem rebuild_converges_first_patch :
    Converged allSucceed (subRun rate48k (crowdedPatch.take 4))
        (rebuild rate48k allSucceed (subRun rate48k (crowdedPatch.take 4))) ∨
      anyPending (rebuild rate48k allSucceed (subRun rate48k (crowdedPatch.take 4))) = true :=
  (rebuild_converges (by decide +kernel) allSucceed_succeeds (by decide +kernel)).2 (by decide +kernel)

/-- Four transmitters feed five channels, and the second channel of the first is
unsubscribed. -/
def stuckPatch : List SubEvent :=
  [.set 0 [1] [65], .set 1 [2] [65], .set 2 [1] [66], .set 3 [1] [67], .set 4 [1] [68], .check allSucceed 0 0,
    .set 1 [] []]

/-- The channel is still fed after the rebuild, and nothing will be retried. -/
theorem unpatched_channel_still_fed :
    let s := subRun rate48k stuckPatch
    Succeeds allSucceed ∧ (s.ch 1).txChannel = [] ∧ Fed (rebuild rate48k allSucceed s) 1 [65] 2 ∧
      ¬ Converged allSucceed s (rebuild rate48k allSucceed s) ∧ anyPending (rebuild rate48k allSucceed s) = false := by
  have hfed : Fed (rebuild rate48k allSucceed (subRun rate48k stuckPatch)) 1 [65] 2 :=
    ⟨⟨0, by decide⟩, by decide +kernel, by decide +kernel, by decide +kernel⟩
  refine ⟨allSucceed_succeeds, by decide +kernel, hfed, fun hconv => ?_, by decide +kernel⟩
  obtain ⟨-, tx, htx, -⟩ := (hconv 1 [65] 2).1 hfed
  exact absurd (subscribed_of_answer htx) (by decide +kernel)

end Inferno
