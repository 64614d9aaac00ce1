import Inferno.Lib.Trace
import Inferno.Sanity.JitterIsr
import Inferno.Spec.AnchorRace

/-! PTP steps that an anchor absorbs. The anchor reads the clock first and copies the
step count last, so a step between the two is never noticed. -/

namespace Inferno

open Lib

variable (prof : RateProfile)

def anchorsAt (c : MediaClock) (l : List AnchorStep) (k : ℕ) : AnchorRace :=
  before (AnchorRace.next prof) (AnchorRace.start c) l k

/-- Left alone, the three steps are `mclk_anchor`. -/
theorem anchor_alone (i : ClockIn) {r : AnchorRace} (hr : r.reads = []) (hc : r.copies = 0)
    (hs : i.ptp.stepCount = r.stepCount) :
    ([.read i, .reset 0 i.us, .copy].foldl (AnchorRace.next prof) r).c = mclkAnchor prof i r.c := by
  simp only [List.foldl_cons, List.foldl_nil, mclkAnchor]
  rcases hb : r.c.jb.ready with _ | _
  · simp [AnchorRace.next, hb, hr, hc]
  · rcases hn : mclkNowSamples prof i with _ | now
    · simp [AnchorRace.next, hb, hn, hr, hc]
    · simp [AnchorRace.next, hb, hn, hr, hc, mclkReset, hs]

/-- While `s_last_ptp_steps` equals `step_count`, the `now` the ring was last reset with
was read after the clock step that made that count. -/
def StepsSeen (r : AnchorRace) : Prop := r.c.lastPtpSteps = r.stepCount → ∀ s ∈ r.ringSeen, r.counted ≤ s

/-- The clock is not stepped between an anchor's read and its copy. -/
def StillClock (r : AnchorRace) : AnchorStep → Prop
  | .ptpClock => r.reads = [] ∧ r.copies = 0
  | _ => True

/-- Every anchor under way has seen the clock as it is, and so has the ring while a copy
is due; a copied count is one that was reached. -/
structure StillInv (n : ℕ) (r : AnchorRace) : Prop where
  clock : r.counted ≤ r.clock ∧ r.clock ≤ r.counted + 1
  count : r.stepCount = u32 r.counted
  few : r.counted ≤ n
  reads : ∀ x ∈ r.reads, x.seen = r.clock
  ring : r.copies ≠ 0 → r.ringSeen = some r.clock
  copied : r.copies = 0 → ∀ s ∈ r.ringSeen, ∃ m ≤ r.counted, r.c.lastPtpSteps = u32 m ∧ m ≤ s

theorem StillInv.stepsSeen {n : ℕ} {r : AnchorRace} (h : StillInv n r) (hn : n < 2 ^ 32) : StepsSeen r := by
  intro heq s hs
  by_cases hc : r.copies = 0
  · obtain ⟨m, hm, hlast, hms⟩ := h.copied hc s hs
    have hfew := h.few
    rw [h.count, hlast, u32, u32, Nat.mod_eq_of_lt (by omega), Nat.mod_eq_of_lt (by omega)] at heq
    omega
  · rw [h.ring hc, Option.mem_def, Option.some.injEq] at hs
    exact hs ▸ h.clock.1

theorem StillInv.next {n : ℕ} {r : AnchorRace} (h : StillInv n r) {e : AnchorStep} (hg : StillClock r e) :
    StillInv (n + 1) (r.next prof e) := by
  have hfew := h.few
  have hclock := h.clock
  have hsame : StillInv (n + 1) r := { h with few := by omega }
  cases e with
  | ptpClock =>
    simp only [AnchorRace.next]
    split_ifs with heq
    · obtain ⟨hr, hc⟩ := hg
      exact ⟨⟨by simp only; omega, by simp only; omega⟩, h.count, by simp only; omega,
        fun x hx => absurd hx (by simp [hr]), fun hne => absurd hc hne, h.copied⟩
    · exact hsame
  | ptpCount =>
    simp only [AnchorRace.next]
    split_ifs with heq
    · refine ⟨⟨by simp only; omega, by simp only; omega⟩, ?_, by simp only; omega, h.reads, h.ring, fun hc s hs => ?_⟩
      · simp only [h.count, u32]
        omega
      · obtain ⟨m, hm, hlast, hms⟩ := h.copied hc s hs
        exact ⟨m, by simp only; omega, hlast, hms⟩
    · exact hsame
  | read i =>
    simp only [AnchorRace.next]
    split_ifs
    · exact hsame
    · rcases mclkNowSamples prof i with _ | now
      · exact hsame
      · refine { hsame with reads := fun x hx => ?_ }
        rcases List.mem_append.mp hx with hx | hx
        · exact h.reads x hx
        · rw [List.mem_singleton.mp hx]
  | reset k us =>
    simp only [AnchorRace.next]
    rcases hk : r.reads[k]? with _ | x
    · exact hsame
    · exact
        { clock := h.clock
          count := h.count
          few := by simp only; omega
          reads := fun y hy => h.reads y (List.mem_of_mem_eraseIdx hy)
          ring := fun _ => congrArg some (h.reads x (List.mem_of_getElem? hk))
          copied := fun hc => absurd hc (Nat.succ_ne_zero _) }
  | copy =>
    simp only [AnchorRace.next]
    split_ifs with hc
    · exact hsame
    · refine ⟨h.clock, h.count, by simp only; omega, h.reads, fun _ => h.ring hc, fun _ s hs => ?_⟩
      have hs' : s = r.clock := by
        have hs : s ∈ r.ringSeen := hs
        rw [h.ring hc, Option.mem_def, Option.some.injEq] at hs
        exact hs.symm
      exact ⟨r.counted, le_rfl, h.count, hs' ▸ hclock.1⟩

/-- Over every interleaving of anchors with the PTP task: a clock that is never stepped
between an anchor's read and its copy hides no step. -/
theorem no_step_absorbed_of_still (c : MediaClock) {l : List AnchorStep} (hlen : l.length < 2 ^ 32)
    (hg : ∀ k (hk : k < l.length), StillClock (anchorsAt prof c l k) l[k]) {k : ℕ} (hk : k ≤ l.length) :
    StepsSeen (anchorsAt prof c l k) := by
  have h := guarded_run (AnchorRace.next prof) (s := AnchorRace.start c) (P := fun l r => StillInv l.length r)
    (G := fun _ r e => StillClock r e) ?_ ?_ hg hk
  · exact h.stepsSeen (by rw [List.length_take]; omega)
  · exact ⟨⟨le_rfl, Nat.zero_le _⟩, rfl, Nat.zero_le _, fun x hx => absurd hx (by simp [AnchorRace.start]),
      fun hne => absurd rfl hne, fun _ s hs => absurd hs (by simp [AnchorRace.start])⟩
  · intro l r e h hg
    rw [List.length_append, List.length_singleton]
    exact h.next prof hg

/-- The media clock of the 48 kHz profile on a learned ring, its actuator idle. -/
def learnedClock : MediaClock := mclkInit rate48k none (contiguous 4 256).jb ⟨0, 0, 0, 0, 0, 0, 0, 0, fun _ => 0⟩

def readSecond : AnchorStep := .read ⟨{ ptpv1State0 with haveMaster := true }, some ⟨1, 0⟩, 0⟩

/-- Two anchors with a step of the clock between them. -/
def stepBetweenAnchors : List AnchorStep :=
  [readSecond, .reset 0 0, .copy, .ptpClock, .ptpCount, readSecond, .reset 0 0, .copy]

theorem no_step_absorbed_between_anchors :
    (anchorsAt rate48k learnedClock stepBetweenAnchors 5).c.lastPtpSteps = 0 ∧
      (anchorsAt rate48k learnedClock stepBetweenAnchors 8).c.lastPtpSteps = 1 ∧
      StepsSeen (anchorsAt rate48k learnedClock stepBetweenAnchors 8) := by
  refine ⟨by decide +kernel, by decide +kernel, no_step_absorbed_of_still rate48k learnedClock (by decide) ?_ (by decide)⟩
  intro k hk
  have hk : k < 8 := hk
  interval_cases k
  case «3» => exact ⟨by decide +kernel, by decide +kernel⟩
  all_goals exact trivial

/-- The clock is stepped and the step counted behind an anchor's read: the anchor copies
the new count over a ring placed by the old time, and nothing is left to notice. -/
theorem step_under_anchor_absorbed :
    ¬ StepsSeen (anchorsAt rate48k learnedClock [readSecond, .ptpClock, .ptpCount, .reset 0 0, .copy] 5) := by
  intro h
  exact absurd (h (by decide +kernel) 0 (by decide +kernel)) (by decide +kernel)

end Inferno
