import Inferno.Lib.Simulation
import Inferno.Spec.EmacDma

/-! The receive task asks only whether another frame waits. A walk of the ring that stops
at the first complete frame answers that as the full walk does, and a task that uses
it does the same as one with the full walk, whatever the DMA writes meanwhile. -/

namespace Inferno

open Lib

variable {n : ℕ}

section

variable {ring : Fin n → RxDesc} {iter : Fin n} {remain used : ℕ}

theorem getRemainFrames_stop (early : Bool) (h : ¬((ring iter).own = .cpu ∧ used < n)) :
    getRemainFrames early ring iter remain used = (remain, n - used) := by
  rw [getRemainFrames, if_neg h]

theorem getRemainFrames_next (early : Bool) (h : (ring iter).own = .cpu ∧ used < n)
    (hl : (ring iter).lastDescriptor = false) :
    getRemainFrames early ring iter remain used = getRemainFrames early ring (nextDesc iter) remain (used + 1) := by
  rw [getRemainFrames, if_pos h, hl, if_neg Bool.false_ne_true]

theorem getRemainFrames_found (h : (ring iter).own = .cpu ∧ used < n) (hl : (ring iter).lastDescriptor = true) :
    getRemainFrames true ring iter remain used = (remain + 1, n - (used + 1)) := by
  rw [getRemainFrames, if_pos h, if_pos hl, if_pos rfl]

theorem getRemainFrames_count (h : (ring iter).own = .cpu ∧ used < n) (hl : (ring iter).lastDescriptor = true) :
    getRemainFrames false ring iter remain used = getRemainFrames false ring (nextDesc iter) (remain + 1) (used + 1) := by
  rw [getRemainFrames, if_pos h, if_pos hl, if_neg Bool.false_ne_true]

end

theorem le_getRemainFrames (ring : Fin n → RxDesc) (iter : Fin n) (remain used : ℕ) :
    remain ≤ (getRemainFrames false ring iter remain used).1 := by
  fun_induction getRemainFrames false ring iter remain used with
  | case1 => exact Nat.le_succ _
  | case2 iter remain used _ _ _ ih => exact (Nat.le_succ remain).trans ih
  | case3 iter remain used _ _ ih => exact ih
  | case4 => exact le_refl _

/-- Where no frame is complete the two walks are one; where one is, both count it. -/
theorem getRemainFrames_early (ring : Fin n → RxDesc) (iter : Fin n) (used : ℕ) :
    getRemainFrames true ring iter 0 used = getRemainFrames false ring iter 0 used ∨
      ((getRemainFrames true ring iter 0 used).1 ≠ 0 ∧ (getRemainFrames false ring iter 0 used).1 ≠ 0) := by
  induction hm : n - used generalizing iter used with
  | zero =>
    have hstop : ¬((ring iter).own = .cpu ∧ used < n) := fun h => by omega
    rw [getRemainFrames_stop true hstop, getRemainFrames_stop false hstop]
    exact Or.inl rfl
  | succ m ih =>
    by_cases hgo : (ring iter).own = .cpu ∧ used < n
    · cases hlast : (ring iter).lastDescriptor with
      | true =>
        rw [getRemainFrames_found hgo hlast, getRemainFrames_count hgo hlast]
        have hcount := le_getRemainFrames ring (nextDesc iter) (0 + 1) (used + 1)
        exact Or.inr ⟨Nat.succ_ne_zero 0, by omega⟩
      | false =>
        rw [getRemainFrames_next true hgo hlast, getRemainFrames_next false hgo hlast]
        exact ih (nextDesc iter) (used + 1) (by omega)
    · rw [getRemainFrames_stop true hgo, getRemainFrames_stop false hgo]
      exact Or.inl rfl

theorem getRemainFrames_ne_zero (ring : Fin n → RxDesc) (iter : Fin n) :
    (getRemainFrames true ring iter 0 0).1 ≠ 0 ↔ (getRemainFrames false ring iter 0 0).1 ≠ 0 := by
  rcases getRemainFrames_early ring iter 0 with h | ⟨h₁, h₂⟩
  · rw [h]
  · exact ⟨fun _ => h₂, fun _ => h₁⟩

section

variable {s : Emac n} {iter : Fin n} {used : ℕ} (hpc : s.pc = .walk iter used)
include hpc

theorem walkStep_stop (early ok : Bool) (h : ¬((s.ring iter).own = .cpu ∧ used < n)) :
    rxTaskStep early ok s = some ({ s with freeRxDescriptor := n - used, pc := .test }, none) := by
  simp only [rxTaskStep, hpc, if_neg h]

theorem walkStep_next (early ok : Bool) (h : (s.ring iter).own = .cpu ∧ used < n)
    (hl : (s.ring iter).lastDescriptor = false) :
    rxTaskStep early ok s = some ({ s with pc := .walk (nextDesc iter) (used + 1) }, none) := by
  simp only [rxTaskStep, hpc, if_pos h, hl, Bool.false_eq_true, if_false]

theorem walkStep_found (ok : Bool) (h : (s.ring iter).own = .cpu ∧ used < n)
    (hl : (s.ring iter).lastDescriptor = true) :
    rxTaskStep true ok s =
      some ({ s with framesRemain := s.framesRemain + 1, freeRxDescriptor := n - (used + 1), pc := .test }, none) := by
  simp only [rxTaskStep, hpc, if_pos h, hl, if_true]

theorem walkStep_count (ok : Bool) (h : (s.ring iter).own = .cpu ∧ used < n)
    (hl : (s.ring iter).lastDescriptor = true) :
    rxTaskStep false ok s =
      some ({ s with framesRemain := s.framesRemain + 1, pc := .walk (nextDesc iter) (used + 1) }, none) := by
  simp only [rxTaskStep, hpc, if_pos h, hl, if_true, Bool.false_eq_true, if_false]

end

def walked (r : ℕ × ℕ) (s : Emac n) : Emac n := { s with framesRemain := r.1, freeRxDescriptor := r.2, pc := .test }

/-- Left alone, the task comes from `s` to `s'` within `b` steps, unseen and whatever
`malloc` would answer. -/
def ComesTo (early : Bool) (s : Emac n) (b : ℕ) (s' : Emac n) : Prop :=
  ∃ k ≤ b, (∀ ok, runOn early ok k s = s') ∧ Seen (EmacStep early) s [] s'

theorem ComesTo.refl (early : Bool) (s : Emac n) (b : ℕ) : ComesTo early s b s :=
  ⟨0, Nat.zero_le b, fun _ => rfl, .nil s⟩

theorem ComesTo.step {early : Bool} {s s₁ s' : Emac n} {b : ℕ} (h : ∀ ok, rxTaskStep early ok s = some (s₁, none))
    (hc : ComesTo early s₁ b s') : ComesTo early s (b + 1) s' := by
  obtain ⟨k, hk, hend, hseen⟩ := hc
  refine ⟨k + 1, Nat.succ_le_succ hk, fun ok => ?_, Seen.cons (EmacStep.task true (h true)) hseen⟩
  rw [runOn, h (ok 0)]
  exact hend _

/-- The walk ends after at most one step more than the descriptors it has not looked
at, with the result of the function. -/
theorem walk_ends (early : Bool) (s : Emac n) {iter : Fin n} {used : ℕ} (hpc : s.pc = .walk iter used) :
    ComesTo early s (n - used + 1) (walked (getRemainFrames early s.ring iter s.framesRemain used) s) := by
  induction hm : n - used generalizing s iter used with
  | zero =>
    have hstop : ¬((s.ring iter).own = .cpu ∧ used < n) := fun h => by omega
    rw [getRemainFrames_stop early hstop]
    exact .step (fun ok => walkStep_stop hpc early ok hstop) (.refl early _ 0)
  | succ m ih =>
    have hrest : n - (used + 1) = m := by omega
    by_cases hgo : (s.ring iter).own = .cpu ∧ used < n
    · cases hlast : (s.ring iter).lastDescriptor with
      | false =>
        rw [getRemainFrames_next early hgo hlast]
        have hwalk := ih { s with pc := .walk (nextDesc iter) (used + 1) } rfl hrest
        exact hwalk.step (fun ok => walkStep_next hpc early ok hgo hlast)
      | true =>
        cases early with
        | true =>
          rw [getRemainFrames_found hgo hlast]
          exact .step (fun ok => walkStep_found hpc ok hgo hlast) (.refl true _ (m + 1))
        | false =>
          rw [getRemainFrames_count hgo hlast]
          have hwalk := ih { s with framesRemain := s.framesRemain + 1, pc := .walk (nextDesc iter) (used + 1) } rfl hrest
          exact hwalk.step (fun ok => walkStep_count hpc ok hgo hlast)
    · rw [getRemainFrames_stop early hgo]
      exact .step (fun ok => walkStep_stop hpc early ok hgo) (.refl early _ (m + 1))

/-- The same but for the two counters of the last walk. -/
def Emac.counts (s : Emac n) (remain free : ℕ) : Emac n :=
  { s with framesRemain := remain, freeRxDescriptor := free }

def RxPc.countless : RxPc n → Prop
  | .block => False
  | .walk _ _ => False
  | .test => False
  | _ => True

/-- The task with the early break and the one with the full walk, at the same place:
what differs is what their last walks counted beyond the first frame. -/
inductive InStep : Emac n → Emac n → Prop where
  | between (s : Emac n) (remain free : ℕ) (h : s.pc.countless) : InStep s (s.counts remain free)
  | blocked (s : Emac n) (h : s.pc = .block) : InStep s s
  | walking (s : Emac n) (free : ℕ) {iter : Fin n} {used : ℕ} (h : s.pc = .walk iter used) (h0 : s.framesRemain = 0) :
      InStep s (s.counts 0 free)
  | idle (s : Emac n) (h : s.pc = .test) (h0 : s.framesRemain = 0) : InStep s s
  | waiting (s : Emac n) (remain free : ℕ) (h : s.pc = .test) (h0 : s.framesRemain ≠ 0) (h1 : remain ≠ 0) :
      InStep s (s.counts remain free)

/-- The full walk goes on where the other task has its answer. -/
inductive Paired : Emac n → Emac n → Prop where
  | inStep {s t : Emac n} (h : InStep s t) : Paired s t
  | behind (s : Emac n) (remain free : ℕ) (iter : Fin n) (used : ℕ) (h : s.pc = .test) (h0 : s.framesRemain ≠ 0)
      (h1 : remain ≠ 0) : Paired s { s.counts remain free with pc := .walk iter used }

theorem inStep_startWalk (s : Emac n) (remain free : ℕ) : InStep (startWalk s) (startWalk (s.counts remain free)) :=
  .walking (startWalk s) free rfl rfl

theorem between_step (s : Emac n) (remain free : ℕ) (h : s.pc.countless) (ok : Bool) :
    ∃ s' t' l, rxTaskStep true ok s = some (s', l) ∧ rxTaskStep false ok (s.counts remain free) = some (t', l) ∧
      InStep s' t' := by
  cases hpc : s.pc with
  | block => rw [hpc] at h; exact h.elim
  | walk iter used => rw [hpc] at h; exact h.elim
  | test => rw [hpc] at h; exact h.elim
  | validLen iter used =>
    simp only [rxTaskStep, Emac.counts, hpc]
    split_ifs <;> exact ⟨_, _, _, rfl, rfl, .between _ remain free trivial⟩
  | alloc retLen =>
    simp only [rxTaskStep, Emac.counts, hpc]
    split_ifs
    all_goals first
      | exact ⟨_, _, _, rfl, rfl, .between _ remain free trivial⟩
      | exact ⟨_, _, _, rfl, rfl, inStep_startWalk s remain free⟩
  | copy iter frameLen recvLen copyLen buf =>
    simp only [rxTaskStep, Emac.counts, giveBack, hpc]
    split_ifs <;> exact ⟨_, _, _, rfl, rfl, .between _ remain free trivial⟩
  | rest iter frameLen recvLen buf =>
    simp only [rxTaskStep, Emac.counts, giveBack, hpc]
    split_ifs <;> exact ⟨_, _, _, rfl, rfl, .between _ remain free trivial⟩
  | input frameLen recvLen buf stamp =>
    simp only [rxTaskStep, Emac.counts, hpc]
    split_ifs
    all_goals first
      | exact ⟨_, _, _, rfl, rfl, .between _ remain free trivial⟩
      | exact ⟨_, _, _, rfl, rfl, inStep_startWalk s remain free⟩
  | flush iter =>
    simp only [rxTaskStep, Emac.counts, hpc]
    split_ifs
    · exact ⟨_, _, _, rfl, rfl, inStep_startWalk { giveBack iter s with rxDesc := nextDesc iter } remain free⟩
    · exact ⟨_, _, _, rfl, rfl, .between _ remain free trivial⟩

/-- Tasks in step make the same step; after it the full walk may be behind. -/
theorem InStep.step {s t : Emac n} (h : InStep s t) (ok : Bool) :
    (rxTaskStep true ok s = none ∧ rxTaskStep false ok t = none) ∨
      ∃ s' t' l, rxTaskStep true ok s = some (s', l) ∧ rxTaskStep false ok t = some (t', l) ∧ Paired s' t' := by
  cases h with
  | between remain free hpc =>
    obtain ⟨s', t', l, hs, ht, ha⟩ := between_step s remain free hpc ok
    exact Or.inr ⟨s', t', l, hs, ht, .inStep ha⟩
  | blocked hpc =>
    simp only [rxTaskStep, hpc]
    split_ifs
    · exact Or.inr ⟨_, _, _, rfl, rfl, .inStep (.between _ s.framesRemain s.freeRxDescriptor trivial)⟩
    · exact Or.inl ⟨rfl, rfl⟩
  | @walking free iter used hpc h0 =>
    have htpc : (s.counts 0 free).pc = .walk iter used := hpc
    by_cases hgo : (s.ring iter).own = .cpu ∧ used < n
    · cases hlast : (s.ring iter).lastDescriptor with
      | false =>
        exact Or.inr ⟨_, _, _, walkStep_next hpc true ok hgo hlast, walkStep_next htpc false ok hgo hlast,
          .inStep (.walking _ free rfl h0)⟩
      | true =>
        exact Or.inr ⟨_, _, _, walkStep_found hpc ok hgo hlast, walkStep_count htpc ok hgo hlast,
          .behind _ 1 free (nextDesc iter) (used + 1) rfl (Nat.succ_ne_zero _) Nat.one_ne_zero⟩
    · refine Or.inr ⟨_, _, _, walkStep_stop hpc true ok hgo, walkStep_stop htpc false ok hgo, .inStep ?_⟩
      have hsame : s.counts 0 free = { s with freeRxDescriptor := free } := by rw [Emac.counts, ← h0]
      rw [hsame]
      exact .idle _ rfl h0
  | idle hpc h0 =>
    simp only [rxTaskStep, hpc, h0, ne_eq, not_true_eq_false, if_false]
    exact Or.inr ⟨_, _, _, rfl, rfl, .inStep (.blocked _ rfl)⟩
  | waiting remain free hpc h0 h1 =>
    have htpc : (s.counts remain free).pc = .test := hpc
    have ht0 : (s.counts remain free).framesRemain ≠ 0 := h1
    simp only [rxTaskStep, hpc, htpc, if_pos h0, if_pos ht0]
    exact Or.inr ⟨_, _, _, rfl, rfl, .inStep (.between _ remain free trivial)⟩

theorem Paired.ring_eq {s t : Emac n} (h : Paired s t) : t.ring = s.ring := by
  cases h with
  | inStep h => cases h <;> rfl
  | behind => rfl

theorem Paired.world {s t : Emac n} (h : Paired s t) (f : (Fin n → RxDesc) → Fin n → RxDesc) (g : Bool → Bool) :
    Paired { s with ring := f s.ring, notified := g s.notified } { t with ring := f t.ring, notified := g t.notified } := by
  cases h with
  | inStep h =>
    refine .inStep ?_
    cases h with
    | between remain free hpc => exact .between _ remain free hpc
    | blocked hpc => exact .blocked _ hpc
    | walking free hpc h0 => exact .walking _ free hpc h0
    | idle hpc h0 => exact .idle _ hpc h0
    | waiting remain free hpc h0 h1 => exact .waiting _ remain free hpc h0 h1
  | behind remain free iter used hpc h0 h1 => exact .behind _ remain free iter used hpc h0 h1

theorem testStep (early ok : Bool) {s : Emac n} (hpc : s.pc = .test) (h0 : s.framesRemain ≠ 0) :
    rxTaskStep early ok s = some ({ s with pc := .validLen s.rxDesc 0 }, none) := by
  simp only [rxTaskStep, hpc, if_pos h0]

theorem behind_catches_up (s : Emac n) {remain : ℕ} (free : ℕ) (iter : Fin n) (used : ℕ) (h1 : remain ≠ 0) :
    ∃ remain' free', Seen (EmacStep false) { s.counts remain free with pc := .walk iter used } []
      { s.counts remain' free' with pc := .validLen s.rxDesc 0 } := by
  obtain ⟨-, -, -, hend⟩ := walk_ends false { s.counts remain free with pc := .walk iter used } rfl
  set r := getRemainFrames false s.ring iter remain used
  have hcount : remain ≤ r.1 := le_getRemainFrames s.ring iter remain used
  have hleft : r.1 ≠ 0 := by omega
  have htest : EmacStep false (walked r s) none { walked r s with pc := .validLen s.rxDesc 0 } :=
    EmacStep.task true (testStep false true rfl hleft)
  exact ⟨r.1, r.2, hend.append (Seen.single htest)⟩

/-- What the task with the early break does, the one with the full walk does. -/
theorem Paired.forward {s t s' : Emac n} {l : Option (EmacAct n)} (h : Paired s t) (hs : EmacStep true s l s') :
    ∃ t', Seen (EmacStep false) t l.toList t' ∧ Paired s' t' := by
  cases hs with
  | dma ring hown =>
    rw [← h.ring_eq] at hown
    exact ⟨_, Seen.single (.dma t ring hown), h.world (fun _ => ring) id⟩
  | notify => exact ⟨_, Seen.single (.notify t), h.world id fun _ => true⟩
  | task ok hs =>
    cases h with
    | inStep h =>
      rcases h.step ok with ⟨hnone, -⟩ | ⟨s₁, t₁, l₁, hs₁, ht₁, ha⟩
      · rw [hnone] at hs
        cases hs
      · rw [hs₁] at hs
        cases hs
        exact ⟨t₁, Seen.single (.task ok ht₁), ha⟩
    | behind remain free iter used hpc h0 h1 =>
      rw [testStep true ok hpc h0] at hs
      cases hs
      obtain ⟨remain', free', hseen⟩ := behind_catches_up s free iter used h1
      exact ⟨_, hseen, .inStep (.between _ remain' free' trivial)⟩

/-- And the other way round: while the full walk counts on, the other task waits. -/
theorem Paired.backward {s t t' : Emac n} {l : Option (EmacAct n)} (h : Paired s t) (ht : EmacStep false t l t') :
    ∃ s', Seen (EmacStep true) s l.toList s' ∧ Paired s' t' := by
  cases ht with
  | dma ring hown =>
    rw [h.ring_eq] at hown
    exact ⟨_, Seen.single (.dma s ring hown), h.world (fun _ => ring) id⟩
  | notify => exact ⟨_, Seen.single (.notify s), h.world id fun _ => true⟩
  | task ok ht =>
    cases h with
    | inStep h =>
      rcases h.step ok with ⟨-, hnone⟩ | ⟨s₁, t₁, l₁, hs₁, ht₁, ha⟩
      · rw [hnone] at ht
        cases ht
      · rw [ht₁] at ht
        cases ht
        exact ⟨s₁, Seen.single (.task ok hs₁), ha⟩
    | behind remain free iter used hpc h0 h1 =>
      set t : Emac n := { s.counts remain free with pc := .walk iter used } with htdef
      have htpc : t.pc = .walk iter used := rfl
      by_cases hgo : (t.ring iter).own = .cpu ∧ used < n
      · cases hlast : (t.ring iter).lastDescriptor with
        | false =>
          rw [walkStep_next htpc false ok hgo hlast] at ht
          cases ht
          exact ⟨s, .nil s, .behind s remain free (nextDesc iter) (used + 1) hpc h0 h1⟩
        | true =>
          rw [walkStep_count htpc ok hgo hlast] at ht
          cases ht
          exact ⟨s, .nil s, .behind s (remain + 1) free (nextDesc iter) (used + 1) hpc h0 (Nat.succ_ne_zero remain)⟩
      · rw [walkStep_stop htpc false ok hgo] at ht
        cases ht
        refine ⟨s, .nil s, .inStep ?_⟩
        have hend : ({ t with freeRxDescriptor := n - used, pc := .test } : Emac n) = s.counts remain (n - used) := by
          rw [htdef, Emac.counts, Emac.counts, ← hpc]
        rw [hend]
        exact .waiting s remain (n - used) hpc h0 h1

theorem Paired.eq_of_block {s t : Emac n} (h : Paired s t) (hb : s.pc = .block ∨ t.pc = .block) : s = t := by
  cases h with
  | inStep h =>
    cases h with
    | between remain free hpc =>
      have hblock : s.pc = .block := hb.elim id id
      rw [hblock] at hpc
      exact hpc.elim
    | blocked => rfl
    | walking free hpc h0 =>
      have hblock : s.pc = .block := hb.elim id id
      rw [hblock] at hpc
      cases hpc
    | idle => rfl
    | waiting remain free hpc h0 h1 =>
      have hblock : s.pc = .block := hb.elim id id
      rw [hblock] at hpc
      cases hpc
  | behind remain free iter used hpc h0 h1 =>
    rcases hb with hb | hb
    · rw [hb] at hpc
      cases hpc
    · cases hb

/-- The early break decides as the full walk does: over every ring one of them counts a
frame exactly if the other does, and both end; so from the task's start, whatever the
DMA, the interrupt and `malloc` do, the two tasks show the same (the frames handed
to the stack among it, in order) and block in the same states. -/
theorem remain_frames_early_break (s : Emac n) (hs : s.pc = .block) :
    (∀ (ring : Fin n → RxDesc) iter,
      (getRemainFrames true ring iter 0 0).1 ≠ 0 ↔ (getRemainFrames false ring iter 0 0).1 ≠ 0) ∧
    (∀ early (w : Emac n),
      ComesTo early (startWalk w) (n + 1) (walked (getRemainFrames early w.ring w.rxDesc 0 0) w)) ∧
    (∀ ls, (∃ s', Seen (EmacStep true) s ls s') ↔ ∃ s', Seen (EmacStep false) s ls s') ∧
    ∀ ls s', s'.pc = .block → (Seen (EmacStep true) s ls s' ↔ Seen (EmacStep false) s ls s') := by
  have hstart : Paired s s := .inStep (.blocked s hs)
  have hforward : ∀ {ls s'}, Seen (EmacStep true) s ls s' → ∃ t', Seen (EmacStep false) s ls t' ∧ Paired s' t' :=
    fun hr => hr.simulated (R := Paired) (fun _ _ _ _ h => h.forward) hstart
  have hbackward : ∀ {ls t'}, Seen (EmacStep false) s ls t' → ∃ s', Seen (EmacStep true) s ls s' ∧ Paired s' t' :=
    fun hr => hr.simulated (R := fun t s => Paired s t) (fun _ _ _ _ h => h.backward) hstart
  refine ⟨getRemainFrames_ne_zero, fun early w => walk_ends early (startWalk w) rfl, fun ls => ?_, fun ls s' hb => ?_⟩
  · constructor
    · rintro ⟨s', hr⟩
      obtain ⟨t', ht, -⟩ := hforward hr
      exact ⟨t', ht⟩
    · rintro ⟨t', hr⟩
      obtain ⟨s', hs', -⟩ := hbackward hr
      exact ⟨s', hs'⟩
  · constructor
    · intro hr
      obtain ⟨t', ht, ha⟩ := hforward hr
      rwa [← ha.eq_of_block (Or.inl hb)] at ht
    · intro hr
      obtain ⟨s₁, hs₁, ha⟩ := hbackward hr
      rwa [ha.eq_of_block (Or.inr hb)] at hs₁

/-- Two descriptors, a complete frame of 60 bytes in each. -/
def twoFrameRing : Fin 2 → RxDesc
  | 0 => ⟨.cpu, true, true, false, 64, List.replicate 64 0xAA, none⟩
  | 1 => ⟨.cpu, true, true, false, 64, List.replicate 64 0xBB, none⟩

def twoFramesWaiting : Emac 2 := ⟨twoFrameRing, 0, 0, 0, true, .block⟩

def secondFrameRing : Fin 2 → RxDesc := Function.update twoFrameRing 0 { twoFrameRing 0 with own := .dma }

def twoFramesTaken : Emac 2 := ⟨fun i => { twoFrameRing i with own := .dma }, 0, 0, 2, false, .block⟩

/-- Both frames come up over the full walk, which counts them both where the early break
counts one. -/
theorem remain_frames_early_break_two :
    (getRemainFrames true twoFrameRing 0 0 0).1 = 1 ∧ (getRemainFrames false twoFrameRing 0 0 0).1 = 2 ∧
      Seen (EmacStep false) twoFramesWaiting
        [.wake, .malloc true, .poll, .stackInput (List.replicate 60 0xAA) (0, 0),
          .malloc true, .poll, .stackInput (List.replicate 60 0xBB) (0, 0), .block] twoFramesTaken := by
  have hnext : nextDesc (0 : Fin 2) = 1 := rfl
  refine ⟨?_, ?_, ((remain_frames_early_break twoFramesWaiting rfl).2.2.2 _ twoFramesTaken rfl).mp ?_⟩
  · rw [getRemainFrames_found ⟨rfl, by decide⟩ rfl]
  · rw [getRemainFrames_count ⟨rfl, by decide⟩ rfl, hnext, getRemainFrames_count ⟨rfl, by decide⟩ rfl,
      getRemainFrames_stop false (by decide)]
  have hring : Function.update secondFrameRing 1 { secondFrameRing 1 with own := .dma } =
      fun i => { twoFrameRing i with own := .dma } := funext (Fin.forall_fin_two.mpr ⟨rfl, rfl⟩)
  have hlen : rxTaskStep true true { twoFramesWaiting with notified := false, pc := .validLen 0 0 } =
      some ({ twoFramesWaiting with notified := false, pc := .alloc 60 }, none) := rfl
  have hcopy : rxTaskStep true true { twoFramesWaiting with notified := false, pc := .copy 0 60 60 60 [] } =
      some ({ twoFramesWaiting with notified := false, pc := .rest 0 60 60 (List.replicate 60 0xAA) }, none) := rfl
  have hlen' : rxTaskStep true true ⟨secondFrameRing, 1, 1, 1, false, .validLen 1 0⟩ =
      some (⟨secondFrameRing, 1, 1, 1, false, .alloc 60⟩, none) := rfl
  have hcopy' : rxTaskStep true true ⟨secondFrameRing, 1, 1, 1, false, .copy 1 60 60 60 []⟩ =
      some (⟨secondFrameRing, 1, 1, 1, false, .rest 1 60 60 (List.replicate 60 0xBB)⟩, none) := rfl
  have hfirst : Seen (EmacStep true) twoFramesWaiting _ ⟨secondFrameRing, 1, 1, 1, false, .validLen 1 0⟩ :=
    .cons (.task true rfl) (.cons (.task true hlen) (.cons (.task true rfl) (.cons (.task true hcopy)
      (.cons (.task true rfl) (.cons (.task true rfl) (.cons (.task true rfl) (.cons (.task true rfl) (.nil _))))))))
  have hsecond : Seen (EmacStep true) ⟨secondFrameRing, 1, 1, 1, false, .validLen 1 0⟩ _
      { twoFramesTaken with ring := Function.update secondFrameRing 1 { secondFrameRing 1 with own := .dma } } :=
    .cons (.task true hlen') (.cons (.task true rfl) (.cons (.task true hcopy') (.cons (.task true rfl)
      (.cons (.task true rfl) (.cons (.task true rfl) (.cons (.task true rfl) (.nil _)))))))
  rw [hring] at hsecond
  exact hfirst.append hsecond

end Inferno
