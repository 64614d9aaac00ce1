import Inferno.Proofs.DoubleFeed
import Inferno.Sanity.Marks

/-! A rebuild passes a playing flow by when its transmitter is wanted with the list that
it has: whatever becomes of the others, its slot is the same in every state within the
rebuild, and nothing is sent for it. The flow must have a transmitter's name, for a slot
without one counts as free. -/

namespace Inferno

open Lib

variable {prof : RateProfile} {o : Outcomes} {s : Sub} {i j : Fin AP_MAX_FLOWS} {w : Want} {k : ℕ}

theorem wantAll_fresh (prof : RateProfile) (o : Outcomes) (s : Sub) : FreshWants (wantAll prof o s).want := by
  have hwants := (wantAll_spec prof o s).1
  refine ⟨?_, hwants.fresh⟩
  rw [hwants.devices]
  exact devicesOn_nodup _

theorem untouched_wanted (prof : RateProfile) (o : Outcomes) (j : Fin AP_MAX_FLOWS) (s : Sub) :
    Untouched j s (wanted prof o s) := by
  have h := untouched_before_wantChannel prof o j s s.ch (List.finRange AP_NCH)
    (List.finRange AP_NCH).length
  rw [before_length] at h
  exact h.same rfl rfl rfl

theorem wanted_flow : (wanted prof o s).flow = s.flow := funext fun j => (untouched_wanted prof o j s).flow

theorem OneSlotEach.wanted (hs : OneSlotEach s) : OneSlotEach (Inferno.wanted prof o s) := by
  rw [OneSlotEach, wanted_flow]
  exact hs

theorem marked (hs : OneSlotEach s) : MarkedOn s.ch (wanted prof o s) (wantAll prof o s).want
    (List.finRange AP_MAX_FLOWS) (reconciledTable prof o s) :=
  markedOn_run (wantAll_fresh prof o s) hs.wanted ((wantAll_spec prof o s).2.same.of_ch rfl) (List.nodup_finRange _)

/-- A want with the mark that step 2 gives it. -/
def Want.markedIn (prof : RateProfile) (o : Outcomes) (s : Sub) (w : Want) : Want :=
  w.flagOn (wanted prof o s) ((List.finRange AP_MAX_FLOWS).filter (wanted prof o s).live)

theorem marked_wants (hs : OneSlotEach s) :
    (reconciledTable prof o s).2 = (wantAll prof o s).want.map (Want.markedIn prof o s) := (marked hs).flags

theorem marked_devices (hs : OneSlotEach s) :
    (reconciledTable prof o s).2.map (·.device) = (wantAll prof o s).want.map (·.device) := by
  rw [marked_wants hs, List.map_map]
  exact List.map_congr_left fun w _ => flagOn_device

theorem marked_nodup (hs : OneSlotEach s) : ((reconciledTable prof o s).2.map (·.device)).Nodup := by
  rw [marked_devices hs]
  exact (wantAll_fresh prof o s).nodup

theorem marked_getElem (hs : OneSlotEach s) (hk : k < (reconciledTable prof o s).2.length) :
    ∃ hk' : k < (wantAll prof o s).want.length,
      (reconciledTable prof o s).2[k] = ((wantAll prof o s).want[k]).markedIn prof o s := by
  have hflags : (reconciledTable prof o s).2 = (wantAll prof o s).want.map (Want.markedIn prof o s) := marked_wants hs
  exact ⟨by simpa [hflags] using hk, by simp [hflags]⟩

theorem markedIn_replaces (hw : w ∈ (wantAll prof o s).want) (h : (w.markedIn prof o s).replaces = some j) :
    s.live j = true ∧ (s.flow j).device = w.device := by
  obtain ⟨hmem, hd⟩ := flagOn_replaces h ((wantAll_fresh prof o s).fresh w hw).2
  have hlive := (List.mem_filter.1 hmem).2
  rw [wanted_flow] at hd
  rw [live_iff, wanted_flow, ← live_iff] at hlive
  exact ⟨hlive, hd⟩

theorem not_retired (hlive : s.live j = true) (hw : w ∈ (wantAll prof o s).want) (hd : w.device = (s.flow j).device) :
    ¬ Retired (wanted prof o s) (wantAll prof o s).want j := by
  rw [Retired, wanted_flow]
  rintro ⟨-, hret | hret⟩
  · exact hret (live_iff.1 hlive).2
  · exact hret w hw hd

theorem untouched_marked (hs : OneSlotEach s) (hlive : s.live j = true) (hw : w ∈ (wantAll prof o s).want)
    (hd : w.device = (s.flow j).device) : Untouched j s (reconciledTable prof o s).1 :=
  (untouched_wanted prof o j s).trans ((marked hs).stays j (Or.inr (not_retired hlive hw hd)))

theorem replacesOwn_marked (hs : OneSlotEach s) :
    ReplacesOwn (reconciledTable prof o s).2 0 (reconciledTable prof o s).1 := by
  intro n hn _ x hx
  obtain ⟨hn', hget⟩ := marked_getElem hs hn
  have hmem := List.getElem_mem hn'
  rw [hget] at hx ⊢
  obtain ⟨hlive, hd⟩ := markedIn_replaces hmem hx
  rw [(untouched_marked hs hlive hmem hd.symm).flow, Want.markedIn, flagOn_device]
  exact ⟨hd, hd ▸ (live_iff.1 hlive).1⟩

variable (prof o s) in
/-- The subscriber before the turn of the `k`-th want of a rebuild. -/
def rebuildTurn (k : ℕ) : Sub := atTurn o s.ch (reconciledTable prof o s).1 (reconciledTable prof o s).2 k

theorem rebuildTurn_zero : rebuildTurn prof o s 0 = (reconciledTable prof o s).1 := atTurn_zero

theorem rebuildTurn_length : rebuildTurn prof o s (reconciledTable prof o s).2.length = rebuild prof o s := atTurn_length

theorem rebuildMoments_last (prof : RateProfile) (o : Outcomes) (s : Sub) :
    (rebuildMoments prof o s).getLastD s = rebuild prof o s := by
  have hreconciled := passes_getLastD (reconcileFlow s.ch) (reconcileMoments_last s.ch)
    (wanted prof o s, (wantAll prof o s).want) (List.finRange AP_MAX_FLOWS)
  have hrequested := passes_getLastD (requestWant o s.ch) (requestMoments_last o s.ch) (reconciledTable prof o s).1
    (reconciledTable prof o s).2.zipIdx
  rw [← reconciledTable] at hreconciled
  have hfirst : ((passes (reconcileFlow s.ch) (reconcileMoments s.ch) (wanted prof o s, (wantAll prof o s).want)
      (List.finRange AP_MAX_FLOWS)).map (·.1)).getLastD (wanted prof o s) = (reconciledTable prof o s).1 := by
    rw [← hreconciled]
    exact List.getLastD_map (a := (wanted prof o s, (wantAll prof o s).want))
  unfold rebuildMoments
  rw [getLastD_append, getLastD_append, List.getLastD_cons, rebuild_eq, ← hrequested]
  exact congrArg (fun d => (passes (requestWant o s.ch) (requestMoments o s.ch) (reconciledTable prof o s).1
    (reconciledTable prof o s).2.zipIdx).getLastD d) hfirst

/-- A state within a rebuild precedes the requests, or is within the turn of a want. -/
theorem mem_rebuildMoments {m : Sub} (hs : OneSlotEach s) (hm : m ∈ rebuildMoments prof o s) :
    (∀ j, ¬ Retired (wanted prof o s) (wantAll prof o s).want j → Untouched j s m) ∨
      ∃ n, ∃ hn : n < (reconciledTable prof o s).2.length,
        m ∈ requestMoments o s.ch (rebuildTurn prof o s n) ((reconciledTable prof o s).2[n], n) := by
  have hwanted := fun j => untouched_wanted prof o j s
  unfold rebuildMoments at hm
  rw [List.mem_append, List.mem_append, List.mem_cons] at hm
  rcases hm with (hm | rfl | hm) | hm
  · obtain ⟨t, ht, rfl⟩ := List.mem_map.1 hm
    obtain ⟨n, hn, ht⟩ := (mem_passes _).1 ht
    rw [List.mem_singleton] at ht
    rw [ht]
    exact Or.inl fun j _ => (untouched_before_wantChannel prof o j s s.ch _ n).wantChannel _
  · exact Or.inl fun j _ => hwanted j
  · obtain ⟨t, ht, rfl⟩ := List.mem_map.1 hm
    refine Or.inl fun j hj => (hwanted j).trans ?_
    exact untouched_reconcile (wantAll_fresh prof o s) hs.wanted ((wantAll_spec prof o s).2.same.of_ch rfl) hj t ht
  · exact Or.inr (mem_moments.1 hm)

theorem marked_live (hs : OneSlotEach s) (hlive : s.live i = true) (hd : w.device = (s.flow i).device) :
    w.markedIn prof o s = if sameSlots (s.flow i) w then { w with done := true } else { w with replaces := some i } := by
  have hflag := flagOn_of_live (s := wanted prof o s) (w := w) (j := i) hs.wanted
    (by rw [live_iff, wanted_flow, ← live_iff]; exact hlive) (by rw [wanted_flow, hd])
  rwa [wanted_flow] at hflag

theorem turn_of_done (hk : k < (reconciledTable prof o s).2.length)
    (hdone : (reconciledTable prof o s).2[k].done = true) :
    requestMoments o s.ch (rebuildTurn prof o s k) ((reconciledTable prof o s).2[k], k) = [] ∧
      rebuildTurn prof o s (k + 1) = rebuildTurn prof o s k := by
  constructor
  · simp only [requestMoments]
    rw [if_pos hdone]
  · rw [rebuildTurn, atTurn_succ hk, ← rebuildTurn]
    simp only [requestWant]
    rw [if_pos hdone]

section Tracked

variable (hs : OneSlotEach s) (hk : k < (reconciledTable prof o s).2.length)
include hs

theorem marked_device_ne {n : ℕ} (hn : n < (reconciledTable prof o s).2.length) (hnk : n ≠ k) :
    (reconciledTable prof o s).2[n].device ≠ (reconciledTable prof o s).2[k].device :=
  fun heq => hnk (index_of_key (marked_nodup hs) hn hk heq)

theorem untouched_until (hlive : s.live j = true) (hd : (reconciledTable prof o s).2[k].device = (s.flow j).device) :
    Untouched j s (rebuildTurn prof o s k) ∧ ∀ n (hn : n < (reconciledTable prof o s).2.length), n < k →
      ∀ m ∈ requestMoments o s.ch (rebuildTurn prof o s n) ((reconciledTable prof o s).2[n], n), Untouched j s m := by
  have hu : Untouched j s (reconciledTable prof o s).1 := by
    obtain ⟨_, hget⟩ := marked_getElem hs hk
    rw [hget, Want.markedIn, flagOn_device] at hd
    exact untouched_marked hs hlive (List.getElem_mem _) hd
  have hnamed := (live_iff.1 hlive).1
  have hstart : ((rebuildTurn prof o s 0).flow j).device = (s.flow j).device := by rw [rebuildTurn_zero, hu.flow]
  have hout : ∀ n (hn : n < (reconciledTable prof o s).2.length), 0 ≤ n → n < k →
      (reconciledTable prof o s).2[n].device ≠ (s.flow j).device := by
    intro n hn _ hnk
    rw [← hd]
    exact marked_device_ne hs hk hn hnk.ne
  have hnd : ((reconciledTable prof o s).2.map (·.device)).Nodup := marked_nodup hs
  have h0 : ReplacesOwn (reconciledTable prof o s).2 0 (reconciledTable prof o s).1 := replacesOwn_marked hs
  constructor
  · have hrun : Untouched j (rebuildTurn prof o s 0) (rebuildTurn prof o s k) :=
      untouched_turns hnd h0 hnamed hk.le hout hstart (Nat.zero_le k) le_rfl
    rw [rebuildTurn_zero] at hrun
    exact hu.trans hrun
  · intro n hn hnk m hm
    have hrun : Untouched j (rebuildTurn prof o s 0) m :=
      untouched_turn_moments hnd h0 hnamed hk.le hout hstart hn (Nat.zero_le n) hnk m hm
    rw [rebuildTurn_zero] at hrun
    exact hu.trans hrun

theorem untouched_since (hnamed : (reconciledTable prof o s).2[k].device ≠ [])
    (hd : ((rebuildTurn prof o s (k + 1)).flow j).device = (reconciledTable prof o s).2[k].device) :
    Untouched j (rebuildTurn prof o s (k + 1)) (rebuild prof o s) ∧
      ∀ n (hn : n < (reconciledTable prof o s).2.length), k < n →
        ∀ m ∈ requestMoments o s.ch (rebuildTurn prof o s n) ((reconciledTable prof o s).2[n], n),
          Untouched j (rebuildTurn prof o s (k + 1)) m := by
  have hout : ∀ n (hn : n < (reconciledTable prof o s).2.length), k + 1 ≤ n → n < (reconciledTable prof o s).2.length →
      (reconciledTable prof o s).2[n].device ≠ (reconciledTable prof o s).2[k].device :=
    fun n hn hkn _ => marked_device_ne hs hk hn (by omega)
  have hnd : ((reconciledTable prof o s).2.map (·.device)).Nodup := marked_nodup hs
  have h0 : ReplacesOwn (reconciledTable prof o s).2 0 (reconciledTable prof o s).1 := replacesOwn_marked hs
  constructor
  · rw [← rebuildTurn_length]
    exact untouched_turns hnd h0 hnamed le_rfl hout hd hk le_rfl
  · intro n hn hkn m hm
    exact untouched_turn_moments hnd h0 hnamed le_rfl hout hd hn hkn hn m hm

end Tracked

/-- A flow that is wanted as it is stays as it is, in every state within the rebuild, and
no call is made for it. -/
theorem playing_flow_undisturbed (hs : OneSlotEach s) (hactive : (s.flow i).state = .active)
    (hnamed : (s.flow i).device ≠ []) (hw : w ∈ (wantAll prof o s).want) (hd : w.device = (s.flow i).device)
    (hids : w.req.txChannelId = (s.flow i).req.txChannelId) (hslots : w.slotToCh = (s.flow i).slotToCh) :
    (∀ m ∈ rebuildMoments prof o s, Untouched i s m) ∧ Untouched i s (rebuild prof o s) := by
  have hlive : s.live i = true := live_iff.2 ⟨hnamed, hactive⟩
  have hsame : sameSlots (s.flow i) w = true := by simp [sameSlots, hids, hslots]
  have hkept := not_retired hlive hw hd
  obtain ⟨k, hk, rfl⟩ := List.getElem_of_mem hw
  have hk' : k < (reconciledTable prof o s).2.length := by simpa [marked_wants hs] using hk
  obtain ⟨_, hget⟩ := marked_getElem hs hk'
  have hdk : (reconciledTable prof o s).2[k].device = (s.flow i).device := by
    rw [hget, Want.markedIn, flagOn_device, hd]
  have hdone : (reconciledTable prof o s).2[k].done = true := by
    rw [hget, marked_live hs hlive hd, if_pos hsame]
  obtain ⟨hnone, hpass⟩ := turn_of_done hk' hdone
  obtain ⟨hself, huntil⟩ := untouched_until hs hk' hlive hdk
  rw [← hpass] at hself
  obtain ⟨hend, hsince⟩ := untouched_since hs hk' (hdk ▸ hnamed) (by rw [hself.flow, hdk])
  refine ⟨fun m hm => ?_, hself.trans hend⟩
  rcases mem_rebuildMoments hs hm with hm | ⟨n, hn, hm⟩
  · exact hm i hkept
  rcases lt_trichotomy n k with hnk | rfl | hkn
  · exact huntil n hn hnk m hm
  · rw [hnone] at hm
    cases hm
  · exact hself.trans (hsince n hn hkn m hm)

/-- A second transmitter is patched while the flow of the first plays. -/
def secondPatch : List SubEvent := [.set 0 [1] [65], .check allSucceed 0 0, .set 1 [2] [66]]

theorem playing_flow_undisturbed_second :
    Untouched 0 (subRun rate48k secondPatch) (rebuild rate48k allSucceed (subRun rate48k secondPatch)) :=
  (playing_flow_undisturbed (o := allSucceed) (i := 0) (w := (wantAll rate48k allSucceed (subRun rate48k secondPatch)).want.get
    ⟨0, by decide +kernel⟩) (by decide +kernel) (by decide +kernel) (by decide +kernel) (List.get_mem _ _)
    (by decide +kernel) (by decide +kernel) (by decide +kernel)).2

/-- Four transmitters, the last of them without a name, all resolve and come up. -/
def namelessPatch : List SubEvent :=
  [.set 0 [1] [65], .set 1 [1] [66], .set 2 [1] [67], .set 3 [1] [], .check allSucceed 0 0]

/-- The four slots have four transmitters, and the flow without a name is wanted as it is.
The next rebuild takes its slot for a free one, binds it anew and requests it again. -/
theorem nameless_flow_disturbed :
    let s := subRun rate48k namelessPatch
    (∀ i j, (s.flow i).device = (s.flow j).device → i = j) ∧ (s.flow 3).state = .active ∧
      (∃ w ∈ (wantAll rate48k allSucceed s).want, w.device = (s.flow 3).device ∧
        w.req.txChannelId = (s.flow 3).req.txChannelId ∧ w.slotToCh = (s.flow 3).slotToCh) ∧
      ¬ Untouched 3 s (rebuild rate48k allSucceed s) := by
  refine ⟨by decide +kernel, by decide +kernel, by decide +kernel, fun h => ?_⟩
  exact absurd h.calls (by decide +kernel)

end Inferno
