import Inferno.Proofs.PtpPairing

/-! The books of the pairing balance. Every two-step Sync ends as an offset, as a lost
Follow_Up or as the one awaited, and every Follow_Up as an offset, an orphan or a
mispair. -/

namespace Inferno

open Lib

variable {D : Type} (A : Dbl D)

def twoStepSync (p : Ptp D) : PtpEvent → Bool
  | .frame f => stampedSync p.uuid f && f.assist
  | .tick _ _ => false

def oneStepSync (p : Ptp D) : PtpEvent → Bool
  | .frame f => stampedSync p.uuid f && !f.assist
  | .tick _ _ => false

def followupFrame (p : Ptp D) : PtpEvent → Bool
  | .frame f => wholeFollowup p.uuid f
  | .tick _ _ => false

/-- The Follow_Up that is awaited: the handler goes on to `compute_offset`. -/
def answers (p : Ptp D) : PtpEvent → Bool
  | .frame f => wholeFollowup p.uuid f && p.awaitingFollowup && f.assoc == p.pendingSyncSeq
  | .tick _ _ => false

/-- A Follow_Up while none is awaited. -/
def orphaned (p : Ptp D) : PtpEvent → Bool
  | .frame f => wholeFollowup p.uuid f && !p.awaitingFollowup
  | .tick _ _ => false

/-- A Follow_Up of another Sync than the one that awaits its own. -/
def mispaired (p : Ptp D) : PtpEvent → Bool
  | .frame f => wholeFollowup p.uuid f && p.awaitingFollowup && f.assoc != p.pendingSyncSeq
  | .tick _ _ => false

/-- A stamped Sync while a Follow_Up is awaited. -/
def overtaken (p : Ptp D) : PtpEvent → Bool
  | .frame f => stampedSync p.uuid f && p.awaitingFollowup
  | .tick _ _ => false

def moved (c : PairBook → ℕ) (b b' : PairBook) : Bool := c b' != c b

def moves (c : PairBook → ℕ) (p : Ptp D) (e : PtpEvent) : Bool := moved c p.book (ptpStep A p e).book

def followupOffset (p : Ptp D) (e : PtpEvent) : Bool := followupFrame p e && moves A (·.pairs.length) p e

/-- How often `obs` is seen over a run from `ptpv1_start`. -/
def seen (obs : Ptp D → PtpEvent → Bool) (mac : List UInt8) (l : List PtpEvent) : ℕ :=
  tally (ptpStep A) obs (ptpv1Start A mac) l

theorem u32_succ_bne (n : ℕ) : (u32 (n + 1) != n) = true := bne_iff_ne.mpr (u32_succ_ne n)

theorem succ_bne (n : ℕ) : (n + 1 != n) = true := bne_iff_ne.mpr (Nat.succ_ne_self n)

theorem u32_succ (n : ℕ) : u32 (u32 n + 1) = u32 (n + 1) := by
  simp only [u32]
  omega

def Moves1 (c : PairBook → ℕ) (b b' : PairBook) : Prop := c b' = c b ∨ c b' = u32 (c b + 1)

/-- What a step enters in the books. -/
structure Entry (p : Ptp D) (e : PtpEvent) (b : PairBook) : Prop where
  await : b.awaitingFollowup = true → b.haveT2 = true ∧ b.haveT1 = false
  syncs : (twoStepSync p e).toNat + p.awaitingFollowup.toNat =
    (followupFrame p e && moved (·.pairs.length) p.book b).toNat + (moved (·.lostFollowup) p.book b).toNat +
      b.awaitingFollowup.toNat
  followups : (moved (·.rxFollowup) p.book b).toNat =
    (followupFrame p e && moved (·.pairs.length) p.book b).toNat + (moved (·.orphanFollowup) p.book b).toNat +
      (moved (·.mispair) p.book b).toNat
  pairs : b.pairs.length = p.book.pairs.length + (oneStepSync p e).toNat + (answers p e).toNat
  isPaired : (followupFrame p e && moved (·.pairs.length) p.book b) = answers p e
  isFollowup : moved (·.rxFollowup) p.book b = followupFrame p e
  isOrphan : moved (·.orphanFollowup) p.book b = orphaned p e
  isMispair : moved (·.mispair) p.book b = mispaired p e
  isLost : moved (·.lostFollowup) p.book b = overtaken p e
  rxFollowup : Moves1 (·.rxFollowup) p.book b
  lostFollowup : Moves1 (·.lostFollowup) p.book b
  orphanFollowup : Moves1 (·.orphanFollowup) p.book b
  mispair : Moves1 (·.mispair) p.book b

theorem stamped_not_followup {mac : List UInt8} {f : EthTsPtpFrame} (hs : stampedSync mac f = true) :
    wholeFollowup mac f = false := by
  refine not_followup_of_control fun hc => ?_
  rw [not_stamped_of_control (by rw [hc]; decide)] at hs
  exact absurd hs (by simp)

theorem charged_cases (p : Ptp D) :
    (p.awaitingFollowup = true ∧ p.charged = u32 (p.g.lostFollowup + 1)) ∨
      (p.awaitingFollowup = false ∧ p.charged = p.g.lostFollowup) := by
  rcases hw : p.awaitingFollowup with _ | _
  · exact Or.inr ⟨rfl, by simp [Ptp.charged, hw]⟩
  · exact Or.inl ⟨rfl, by simp [Ptp.charged, hw]⟩

theorem ptpStep_entry {p : Ptp D} (hp : p.awaitingFollowup = true → p.haveT2 = true ∧ p.haveT1 = false)
    (e : PtpEvent) : Entry p e (ptpStep A p e).book := by
  have hturn := ptpStep_turn A p e
  generalize (ptpStep A p e).book = b at hturn ⊢
  cases hturn with
  | twoStep hs ha =>
    have hf := stamped_not_followup hs
    rcases charged_cases p with ⟨hw, hc⟩ | ⟨hw, hc⟩ <;>
      refine ⟨fun _ => ⟨rfl, rfl⟩, ?_, ?_, ?_, ?_, ?_, ?_, ?_, ?_, ?_, ?_, ?_, ?_⟩ <;>
      simp [twoStepSync, oneStepSync, followupFrame, answers, orphaned, mispaired, overtaken, moved, Moves1, Ptp.book,
        Ptp.pairing, hs, ha, hf, hw,
        hc, u32_succ_bne]
  | oneStep hs ha =>
    have hf := stamped_not_followup hs
    rcases charged_cases p with ⟨hw, hc⟩ | ⟨hw, hc⟩ <;>
      refine ⟨fun h => absurd h (by simp), ?_, ?_, ?_, ?_, ?_, ?_, ?_, ?_, ?_, ?_, ?_, ?_⟩ <;>
      simp [twoStepSync, oneStepSync, followupFrame, answers, orphaned, mispaired, overtaken, moved, Moves1, Ptp.book,
        Ptp.pairing, hs, ha, hf, hw,
        hc, u32_succ_bne]
  | matched hs hf hw hq h =>
    rw [h (hp hw).1]
    refine ⟨fun h => absurd h (by simp), ?_, ?_, ?_, ?_, ?_, ?_, ?_, ?_, ?_, ?_, ?_, ?_⟩ <;>
      simp [twoStepSync, oneStepSync, followupFrame, answers, orphaned, mispaired, overtaken, moved, Moves1, Ptp.book,
        Ptp.pairing, hs, hf, hw, hq,
        u32_succ_bne, succ_bne]
  | orphan hs hf hw =>
    refine ⟨fun h => absurd (h.symm.trans hw) (by simp), ?_, ?_, ?_, ?_, ?_, ?_, ?_, ?_, ?_, ?_, ?_, ?_⟩ <;>
      simp [twoStepSync, oneStepSync, followupFrame, answers, orphaned, mispaired, overtaken, moved, Moves1, Ptp.book,
        Ptp.pairing, hs, hf, hw,
        u32_succ_bne]
  | mispair hs hf hw hq =>
    refine ⟨hp, ?_, ?_, ?_, ?_, ?_, ?_, ?_, ?_, ?_, ?_, ?_, ?_⟩ <;>
      simp [twoStepSync, oneStepSync, followupFrame, answers, orphaned, mispaired, overtaken, moved, Moves1, Ptp.book,
        Ptp.pairing, hs, hf, hw, hq,
        u32_succ_bne]
  | other hs =>
    have hnone : twoStepSync p e = false ∧ oneStepSync p e = false ∧ followupFrame p e = false ∧
        answers p e = false ∧ orphaned p e = false ∧ mispaired p e = false ∧ overtaken p e = false := by
      cases e with
      | tick now tx => exact ⟨rfl, rfl, rfl, rfl, rfl, rfl, rfl⟩
      | frame f =>
        obtain ⟨h1, h2⟩ := hs f rfl
        simp [twoStepSync, oneStepSync, followupFrame, answers, orphaned, mispaired, overtaken, h1, h2]
    obtain ⟨h1, h2, h3, h4, h5, h6, h7⟩ := hnone
    refine ⟨hp, ?_, ?_, ?_, ?_, ?_, ?_, ?_, ?_, ?_, ?_, ?_, ?_⟩ <;> simp [moved, Moves1, Ptp.book, h1, h2, h3, h4, h5, h6, h7]
    rfl

@[simp] theorem seen_nil (obs : Ptp D → PtpEvent → Bool) (mac : List UInt8) : seen A obs mac [] = 0 := rfl

theorem seen_concat (obs : Ptp D → PtpEvent → Bool) (mac : List UInt8) (l : List PtpEvent) (e : PtpEvent) :
    seen A obs mac (l ++ [e]) = seen A obs mac l + (obs (l.foldl (ptpStep A) (ptpv1Start A mac)) e).toNat :=
  tally_concat (ptpStep A) obs (ptpv1Start A mac) l e

theorem counter_concat {c : PairBook → ℕ} {mac : List UInt8} {l : List PtpEvent} {e : PtpEvent} {p : Ptp D}
    (hl : p = l.foldl (ptpStep A) (ptpv1Start A mac)) (hm : Moves1 c p.book (ptpStep A p e).book)
    (h : c p.book = u32 (seen A (moves A c) mac l)) :
    c (ptpStep A p e).book = u32 (seen A (moves A c) mac (l ++ [e])) := by
  rw [seen_concat, ← hl]
  rcases hm with hm | hm
  · have hno : moves A c p e = false := by simp [moves, moved, hm]
    rw [hm, h, hno, Bool.toNat_false, Nat.add_zero]
  · have hyes : moves A c p e = true := by
      rw [moves, moved, hm]
      exact u32_succ_bne _
    rw [hm, h, u32_succ, hyes, Bool.toNat_true]

structure Balanced (mac : List UInt8) (l : List PtpEvent) (p : Ptp D) : Prop where
  await : p.awaitingFollowup = true → p.haveT2 = true ∧ p.haveT1 = false
  syncs : seen A twoStepSync mac l =
    seen A (followupOffset A) mac l + seen A (moves A (·.lostFollowup)) mac l + p.awaitingFollowup.toNat
  followups : seen A (moves A (·.rxFollowup)) mac l =
    seen A (followupOffset A) mac l + seen A (moves A (·.orphanFollowup)) mac l +
      seen A (moves A (·.mispair)) mac l
  pairs : p.pairing.pairs.length = seen A oneStepSync mac l + seen A answers mac l
  arePaired : seen A (followupOffset A) mac l = seen A answers mac l
  areFollowups : seen A (moves A (·.rxFollowup)) mac l = seen A followupFrame mac l
  areOrphans : seen A (moves A (·.orphanFollowup)) mac l = seen A orphaned mac l
  areMispairs : seen A (moves A (·.mispair)) mac l = seen A mispaired mac l
  areLost : seen A (moves A (·.lostFollowup)) mac l = seen A overtaken mac l
  rxFollowup : p.g.rxFollowup = u32 (seen A (moves A (·.rxFollowup)) mac l)
  lostFollowup : p.g.lostFollowup = u32 (seen A (moves A (·.lostFollowup)) mac l)
  orphanFollowup : p.g.orphanFollowup = u32 (seen A (moves A (·.orphanFollowup)) mac l)
  mispair : p.g.mispair = u32 (seen A (moves A (·.mispair)) mac l)

theorem balanced_start (mac : List UInt8) : Balanced A mac [] (ptpv1Start A mac) where
  await h := absurd h (by simp [ptpv1Start])
  syncs := rfl
  followups := rfl
  pairs := rfl
  arePaired := rfl
  areFollowups := rfl
  areOrphans := rfl
  areMispairs := rfl
  areLost := rfl
  rxFollowup := rfl
  lostFollowup := rfl
  orphanFollowup := rfl
  mispair := rfl

theorem Balanced.step {mac : List UInt8} {l : List PtpEvent} {p : Ptp D}
    (hl : p = l.foldl (ptpStep A) (ptpv1Start A mac)) (h : Balanced A mac l p) (e : PtpEvent) :
    Balanced A mac (l ++ [e]) (ptpStep A p e) := by
  have he := ptpStep_entry A h.await e
  have hs : (twoStepSync p e).toNat + p.awaitingFollowup.toNat = (followupOffset A p e).toNat +
      (moves A (·.lostFollowup) p e).toNat + (ptpStep A p e).awaitingFollowup.toNat := he.syncs
  have hf : (moves A (·.rxFollowup) p e).toNat = (followupOffset A p e).toNat +
      (moves A (·.orphanFollowup) p e).toNat + (moves A (·.mispair) p e).toNat := he.followups
  have hp : (ptpStep A p e).pairing.pairs.length =
      p.pairing.pairs.length + (oneStepSync p e).toNat + (answers p e).toNat := he.pairs
  have hsame : ∀ obs obs' : Ptp D → PtpEvent → Bool, seen A obs mac l = seen A obs' mac l → obs p e = obs' p e →
      seen A obs mac (l ++ [e]) = seen A obs' mac (l ++ [e]) := fun obs obs' hbefore hnow => by
    rw [seen_concat, seen_concat, ← hl, hbefore, hnow]
  refine ⟨he.await, ?_, ?_, ?_, hsame _ _ h.arePaired he.isPaired, hsame _ _ h.areFollowups he.isFollowup,
    hsame _ _ h.areOrphans he.isOrphan, hsame _ _ h.areMispairs he.isMispair, hsame _ _ h.areLost he.isLost, ?_, ?_, ?_, ?_⟩
  · have := h.syncs
    rw [seen_concat, seen_concat, seen_concat, ← hl]
    omega
  · have := h.followups
    rw [seen_concat, seen_concat, seen_concat, seen_concat, ← hl]
    omega
  · have := h.pairs
    rw [seen_concat, seen_concat, ← hl]
    omega
  · exact counter_concat A hl he.rxFollowup h.rxFollowup
  · exact counter_concat A hl he.lostFollowup h.lostFollowup
  · exact counter_concat A hl he.orphanFollowup h.orphanFollowup
  · exact counter_concat A hl he.mispair h.mispair

theorem balanced_run (mac : List UInt8) (l : List PtpEvent) :
    Balanced A mac l (l.foldl (ptpStep A) (ptpv1Start A mac)) :=
  run_induct (ptpStep A) (balanced_start A mac) (fun _ e h => h.step A rfl e) l

/-- Over every sequence of events: each stamped two-step Sync is paired by a Follow_Up,
charged to `lost_followup`, or the one awaited; each whole Follow_Up is paired, an orphan
or a mispair; while a Follow_Up is awaited `t2` is held and `t1` is not, and
`compute_offset` forms one pair for every stamped one-step Sync and every Follow_Up that
answers. The counters hold these counts modulo `2 ^ 32`, and each moves on the frames it
is for: `rx_followup` on whole Follow_Ups, `orphan_followup` on those that come while none
is awaited, `mispair` on those of another Sync, `lost_followup` on stamped Syncs that come
while one is awaited. -/
theorem pairing_events_balance (mac : List UInt8) (l : List PtpEvent) :
    (seen A twoStepSync mac l = seen A (followupOffset A) mac l + seen A (moves A (·.lostFollowup)) mac l +
        (ptpAt A mac l l.length).awaitingFollowup.toNat) ∧
      (seen A (moves A (·.rxFollowup)) mac l = seen A (followupOffset A) mac l +
        seen A (moves A (·.orphanFollowup)) mac l + seen A (moves A (·.mispair)) mac l) ∧
      ((ptpAt A mac l l.length).awaitingFollowup = true →
        (ptpAt A mac l l.length).haveT2 = true ∧ (ptpAt A mac l l.length).haveT1 = false) ∧
      (ptpAt A mac l l.length).pairing.pairs.length = seen A oneStepSync mac l + seen A answers mac l ∧
      ((ptpAt A mac l l.length).g.rxFollowup = u32 (seen A (moves A (·.rxFollowup)) mac l) ∧
        (ptpAt A mac l l.length).g.lostFollowup = u32 (seen A (moves A (·.lostFollowup)) mac l) ∧
        (ptpAt A mac l l.length).g.orphanFollowup = u32 (seen A (moves A (·.orphanFollowup)) mac l) ∧
        (ptpAt A mac l l.length).g.mispair = u32 (seen A (moves A (·.mispair)) mac l)) ∧
      (seen A (followupOffset A) mac l = seen A answers mac l ∧
        seen A (moves A (·.rxFollowup)) mac l = seen A followupFrame mac l ∧
        seen A (moves A (·.orphanFollowup)) mac l = seen A orphaned mac l ∧
        seen A (moves A (·.mispair)) mac l = seen A mispaired mac l ∧
        seen A (moves A (·.lostFollowup)) mac l = seen A overtaken mac l) := by
  have h := balanced_run A mac l
  rw [← before_length (ptpStep A) (ptpv1Start A mac) l] at h
  exact ⟨h.syncs, h.followups, h.await, h.pairs, ⟨h.rxFollowup, h.lostFollowup, h.orphanFollowup, h.mispair⟩,
    h.arePaired, h.areFollowups, h.areOrphans, h.areMispairs, h.areLost⟩

end Inferno
