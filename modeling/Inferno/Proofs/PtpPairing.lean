import Inferno.Lib.Trace
import Inferno.Spec.Ptpv1
import Inferno.Proofs.ServoLock

/-! Which `t2 - t1` the slave forms. A Sync and a Follow_Up are paired by sequence id
alone, so the pair is proper as long as no Follow_Up of another source answers the
pending id. -/

namespace Inferno

open Lib

variable {D : Type} (A : Dbl D)

def PtpOut.pair? : PtpOut → Option (ℤ × ℤ)
  | .formed t1 t2 => some (t1, t2)
  | _ => none

/-- The part of the slave that pairs Syncs with Follow_Ups. -/
structure Pairing where
  uuid : List UInt8
  t1 : ℤ
  t2 : ℤ
  haveT1 : Bool
  haveT2 : Bool
  awaitingFollowup : Bool
  pendingSyncSeq : ℕ
  pairs : List (ℤ × ℤ)

def Ptp.pairing (p : Ptp D) : Pairing where
  uuid := p.uuid
  t1 := p.t1
  t2 := p.t2
  haveT1 := p.haveT1
  haveT2 := p.haveT2
  awaitingFollowup := p.awaitingFollowup
  pendingSyncSeq := p.pendingSyncSeq
  pairs := p.out.filterMap PtpOut.pair?

def accepted (mac : List UInt8) (f : EthTsPtpFrame) : Bool := ptp1HeaderOk f.byte f.len && f.srcUuid != mac

def stampedSync (mac : List UInt8) (f : EthTsPtpFrame) : Bool :=
  accepted mac f && f.control == PTP1_CTRL_SYNC && !(f.bodyLen < 8) && f.tsValid

def wholeFollowup (mac : List UInt8) (f : EthTsPtpFrame) : Bool :=
  accepted mac f && f.control == PTP1_CTRL_FOLLOWUP && !(f.len < PTP1_HDR_LEN + PTP1_FOLLOWUP_BODY_LEN)

/-- The pairing with the counters of its anomalies. -/
structure PairBook extends Pairing where
  rxFollowup : ℕ
  lostFollowup : ℕ
  orphanFollowup : ℕ
  mispair : ℕ

def Ptp.book (p : Ptp D) : PairBook where
  toPairing := p.pairing
  rxFollowup := p.g.rxFollowup
  lostFollowup := p.g.lostFollowup
  orphanFollowup := p.g.orphanFollowup
  mispair := p.g.mispair

theorem book_applyServo (p : Ptp D) (o : ℤ) : (applyServo A p o).book = p.book := by
  simp only [applyServo]
  split_ifs <;> simp [Ptp.book, Ptp.pairing, pathDelayInvalidate, PtpOut.pair?]

theorem book_acquire (p : Ptp D) (raw : ℤ) : (acquire A p raw).book = p.book := by
  simp only [acquire]
  split_ifs
  · exact book_applyServo A { p with snapped := false } raw
  · exact book_applyServo A { p with snapped := false } raw
  · simp [Ptp.book, Ptp.pairing, PtpOut.pair?]
  · exact book_applyServo A { p with snapped := true } _
  · exact book_applyServo A p _
  · exact book_applyServo A p _
  · rfl

theorem book_computeOffset {p : Ptp D} (h1 : p.haveT1 = true) (h2 : p.haveT2 = true) :
    (computeOffset A p).book =
      { p.book with haveT1 := false, haveT2 := false, pairs := p.pairing.pairs ++ [(p.t1, p.t2)] } := by
  set p' : Ptp D := { p with
    lastMs := p.t2 - p.t1, haveMs := true, out := p.out ++ [.formed p.t1 p.t2] } with hp
  have he : computeOffset A p = { acquire A p' (p.t2 - p.t1) with haveT1 := false, haveT2 := false } := by
    rw [computeOffset, if_neg (by simp [h1, h2])]
  calc (computeOffset A p).book
      = { (acquire A p' (p.t2 - p.t1)).book with haveT1 := false, haveT2 := false } := by rw [he]; rfl
    _ = { p'.book with haveT1 := false, haveT2 := false } := by rw [book_acquire]
    _ = _ := by simp [hp, Ptp.book, Ptp.pairing, PtpOut.pair?]

/-- The lost Follow_Up a Sync is charged with, should one still be awaited. -/
def Ptp.charged (p : Ptp D) : ℕ := if p.awaitingFollowup then u32 (p.g.lostFollowup + 1) else p.g.lostFollowup

/-- What an event does to the pairing and to its counters. -/
inductive PtpTurn (p : Ptp D) : PtpEvent → PairBook → Prop where
  | twoStep {f} (hs : stampedSync p.uuid f = true) (ha : f.assist = true) :
      PtpTurn p (.frame f) { p.book with
        t2 := f.ts.ns, haveT2 := true, pendingSyncSeq := f.seq, awaitingFollowup := true, haveT1 := false,
        lostFollowup := p.charged }
  | oneStep {f} (hs : stampedSync p.uuid f = true) (ha : f.assist = false) :
      PtpTurn p (.frame f) { p.book with
        t1 := f.origin, t2 := f.ts.ns, haveT1 := false, haveT2 := false, awaitingFollowup := false,
        pairs := p.pairing.pairs ++ [(f.origin, f.ts.ns)], lostFollowup := p.charged }
  | matched {f b} (hs : stampedSync p.uuid f = false) (hf : wholeFollowup p.uuid f = true)
      (hw : p.awaitingFollowup = true) (hq : f.assoc = p.pendingSyncSeq)
      (h : p.haveT2 = true → b = { p.book with
        t1 := f.precise, haveT1 := false, haveT2 := false, awaitingFollowup := false,
        pairs := p.pairing.pairs ++ [(f.precise, p.t2)], rxFollowup := u32 (p.g.rxFollowup + 1) }) :
      PtpTurn p (.frame f) b
  | orphan {f} (hs : stampedSync p.uuid f = false) (hf : wholeFollowup p.uuid f = true)
      (hw : p.awaitingFollowup = false) :
      PtpTurn p (.frame f) { p.book with
        rxFollowup := u32 (p.g.rxFollowup + 1), orphanFollowup := u32 (p.g.orphanFollowup + 1) }
  | mispair {f} (hs : stampedSync p.uuid f = false) (hf : wholeFollowup p.uuid f = true)
      (hw : p.awaitingFollowup = true) (hq : f.assoc ≠ p.pendingSyncSeq) :
      PtpTurn p (.frame f) { p.book with
        rxFollowup := u32 (p.g.rxFollowup + 1), mispair := u32 (p.g.mispair + 1) }
  | other {e} (hs : ∀ f, e = .frame f → stampedSync p.uuid f = false ∧ wholeFollowup p.uuid f = false) :
      PtpTurn p e p.book

theorem book_pathDelayAdd (p : Ptp D) (d : ℤ) : (pathDelayAdd p d).book = p.book := by
  simp only [pathDelayAdd]
  split_ifs <;> rfl

theorem book_handleDelayResp (p : Ptp D) (f : EthTsPtpFrame) : (handleDelayResp p f).book = p.book := by
  simp only [handleDelayResp]
  split_ifs <;> first | rfl | exact book_pathDelayAdd _ _

theorem book_ptpTaskTick (p : Ptp D) (now : ℤ) (tx : Option EthTsTime) :
    (ptpTaskTick p now tx).book = p.book := by
  simp only [ptpTaskTick, sendDelayReq]
  cases tx <;> split_ifs <;> rfl

theorem not_stamped_of_control {mac : List UInt8} {f : EthTsPtpFrame} (h : f.control ≠ PTP1_CTRL_SYNC) :
    stampedSync mac f = false := by
  simp [stampedSync, h]

theorem not_followup_of_control {mac : List UInt8} {f : EthTsPtpFrame} (h : f.control ≠ PTP1_CTRL_FOLLOWUP) :
    wholeFollowup mac f = false := by
  simp [wholeFollowup, h]

theorem ptpTurn_sync {p : Ptp D} {f : EthTsPtpFrame} (ha : p.accepts f = true) (hc : f.control = PTP1_CTRL_SYNC) :
    PtpTurn p (.frame f) (handleSync A p f).book := by
  have hacc : accepted p.uuid f = true := ha
  have hnf : wholeFollowup p.uuid f = false := not_followup_of_control (by rw [hc]; decide)
  by_cases hl : f.bodyLen < 8
  · rw [handleSync, if_pos hl]
    exact .other fun g hg => by cases hg; exact ⟨by simp [stampedSync, Nat.not_le.mpr hl], hnf⟩
  · simp only [handleSync, if_neg hl]
    cases ht : f.tsValid with
    | false => exact .other fun g hg => by cases hg; exact ⟨by simp [stampedSync, ht], hnf⟩
    | true =>
      have hs : stampedSync p.uuid f = true := by
        simp [stampedSync, hacc, hc, not_lt.mp hl, ht]
      simp only [Bool.not_true, Bool.false_eq_true, if_false]
      cases haw : p.awaitingFollowup <;> cases has : f.assist <;>
        simp only [Bool.false_eq_true, if_false, if_true]
      · rw [book_computeOffset A rfl rfl]
        have h := PtpTurn.oneStep hs has
        simp only [Ptp.charged, haw, Bool.false_eq_true, if_false] at h
        exact h
      · have h := PtpTurn.twoStep hs has
        simp only [Ptp.charged, haw, Bool.false_eq_true, if_false] at h
        exact h
      · rw [book_computeOffset A rfl rfl]
        have h := PtpTurn.oneStep hs has
        simp only [Ptp.charged, haw, if_true] at h
        exact h
      · have h := PtpTurn.twoStep hs has
        simp only [Ptp.charged, haw, if_true] at h
        exact h

theorem ptpTurn_followup {p : Ptp D} {f : EthTsPtpFrame} (ha : p.accepts f = true)
    (hc : f.control = PTP1_CTRL_FOLLOWUP) : PtpTurn p (.frame f) (handleFollowup A p f).book := by
  have hacc : accepted p.uuid f = true := ha
  have hns : stampedSync p.uuid f = false := not_stamped_of_control (by rw [hc]; decide)
  by_cases hl : f.len < PTP1_HDR_LEN + PTP1_FOLLOWUP_BODY_LEN
  · rw [handleFollowup, if_pos hl]
    refine .other fun g hg => ?_
    cases hg
    exact ⟨hns, by simp [wholeFollowup, hl]⟩
  · have hf : wholeFollowup p.uuid f = true := by simp [wholeFollowup, hacc, hc, not_lt.mp hl]
    simp only [handleFollowup, if_neg hl]
    rcases Bool.eq_false_or_eq_true p.awaitingFollowup with haw | haw
    · rw [if_neg (by simp [haw])]
      by_cases hq : f.assoc = p.pendingSyncSeq
      · rw [if_neg (not_not.mpr hq)]
        refine .matched hns hf haw hq fun h2 => ?_
        refine (book_computeOffset A ?_ ?_).trans ?_
        · rfl
        · exact h2
        · rfl
      · rw [if_pos hq]
        exact .mispair hns hf haw hq
    · rw [if_pos (by simp [haw])]
      exact .orphan hns hf haw

theorem ptpStep_turn (p : Ptp D) (e : PtpEvent) : PtpTurn p e (ptpStep A p e).book := by
  cases e with
  | tick now tx =>
    simp only [ptpStep, book_ptpTaskTick]
    exact .other fun f hf => by cases hf
  | frame f =>
    simp only [ptpStep, ptpTaskFrame]
    cases ha : p.accepts f with
    | false =>
      have hacc : accepted p.uuid f = false := ha
      exact .other fun g hg => by cases hg; simp [stampedSync, wholeFollowup, hacc]
    | true =>
      simp only [if_true]
      by_cases hs : f.control = PTP1_CTRL_SYNC
      · rw [if_pos hs]
        exact ptpTurn_sync A ha hs
      · rw [if_neg hs]
        by_cases hf : f.control = PTP1_CTRL_FOLLOWUP
        · rw [if_pos hf]
          exact ptpTurn_followup A ha hf
        · have hoth : ∀ g, PtpEvent.frame f = .frame g →
              stampedSync p.uuid g = false ∧ wholeFollowup p.uuid g = false := fun g hg => by
            cases hg
            exact ⟨not_stamped_of_control hs, not_followup_of_control hf⟩
          rw [if_neg hf]
          split_ifs with hd
          · rw [book_handleDelayResp]
            exact .other hoth
          · exact .other hoth

/-- What an event does to the pairing. -/
inductive PairStep (p : Ptp D) : PtpEvent → Pairing → Prop where
  | twoStep {f} (hs : stampedSync p.uuid f = true) (ha : f.assist = true) :
      PairStep p (.frame f) { p.pairing with
        t2 := f.ts.ns, haveT2 := true, pendingSyncSeq := f.seq, awaitingFollowup := true, haveT1 := false }
  | oneStep {f} (hs : stampedSync p.uuid f = true) (ha : f.assist = false) :
      PairStep p (.frame f) { p.pairing with
        t1 := f.origin, t2 := f.ts.ns, haveT1 := false, haveT2 := false, awaitingFollowup := false,
        pairs := p.pairing.pairs ++ [(f.origin, f.ts.ns)] }
  | followup {f q} (hs : stampedSync p.uuid f = false) (hf : wholeFollowup p.uuid f = true)
      (hw : p.awaitingFollowup = true) (hq : f.assoc = p.pendingSyncSeq)
      (h : p.haveT2 = true → q = { p.pairing with
        t1 := f.precise, haveT1 := false, haveT2 := false, awaitingFollowup := false,
        pairs := p.pairing.pairs ++ [(f.precise, p.t2)] }) :
      PairStep p (.frame f) q
  | other {e} (hs : ∀ f, e = .frame f → stampedSync p.uuid f = false) : PairStep p e p.pairing

theorem ptpStep_pairs (p : Ptp D) (e : PtpEvent) : PairStep p e (ptpStep A p e).pairing := by
  have hturn := ptpStep_turn A p e
  have hbook : (ptpStep A p e).pairing = (ptpStep A p e).book.toPairing := rfl
  rw [hbook]
  generalize (ptpStep A p e).book = b at hturn ⊢
  cases hturn with
  | twoStep hs ha => exact .twoStep hs ha
  | oneStep hs ha => exact .oneStep hs ha
  | matched hs hf hw hq h => exact .followup hs hf hw hq fun h2 => by rw [h h2]; rfl
  | orphan hs hf hw => exact .other fun g hg => by cases hg; exact hs
  | mispair hs hf hw hq => exact .other fun g hg => by cases hg; exact hs
  | other hs => exact .other fun f hf => (hs f hf).1

def PtpEvent.frame? : PtpEvent → Option EthTsPtpFrame
  | .frame f => some f
  | .tick _ _ => none

def frames (l : List PtpEvent) : List EthTsPtpFrame := l.filterMap PtpEvent.frame?

@[simp] theorem frames_concat_frame (l : List PtpEvent) (f : EthTsPtpFrame) :
    frames (l ++ [.frame f]) = frames l ++ [f] := by
  simp [frames, PtpEvent.frame?]

@[simp] theorem frames_concat_tick (l : List PtpEvent) (now : ℤ) (tx : Option EthTsTime) :
    frames (l ++ [.tick now tx]) = frames l := by
  simp [frames, PtpEvent.frame?]

theorem frames_mono (l : List PtpEvent) (e : PtpEvent) : ∀ f ∈ frames l, f ∈ frames (l ++ [e]) := by
  intro f hf
  simp only [frames, List.filterMap_append, List.mem_append]
  exact Or.inl hf

def lastSync (mac : List UInt8) (fs : List EthTsPtpFrame) : Option EthTsPtpFrame :=
  (fs.filter (stampedSync mac)).getLast?

theorem lastSync_concat (mac : List UInt8) (fs : List EthTsPtpFrame) (f : EthTsPtpFrame) :
    lastSync mac (fs ++ [f]) = if stampedSync mac f then some f else lastSync mac fs := by
  cases h : stampedSync mac f <;> simp [lastSync, h]

theorem lastSync_mem {mac : List UInt8} {fs : List EthTsPtpFrame} {s : EthTsPtpFrame}
    (h : lastSync mac fs = some s) : s ∈ fs ∧ stampedSync mac s = true :=
  List.mem_filter.mp (List.mem_of_getLast? h)

/-- `t2` is the hardware stamp of a Sync of `fs`, and `t1` its own origin time or the
precise one of a Follow_Up of the same source that names it. -/
def ProperPair (mac : List UInt8) (fs : List EthTsPtpFrame) (t1 t2 : ℤ) : Prop :=
  ∃ s ∈ fs, stampedSync mac s = true ∧ t2 = s.ts.ns ∧
    ((s.assist = false ∧ t1 = s.origin) ∨
      (s.assist = true ∧ ∃ f ∈ fs, wholeFollowup mac f = true ∧ f.srcUuid = s.srcUuid ∧
        f.srcPortId = s.srcPortId ∧ f.assoc = s.seq ∧ t1 = f.precise))

instance (mac : List UInt8) (fs : List EthTsPtpFrame) (t1 t2 : ℤ) : Decidable (ProperPair mac fs t1 t2) :=
  inferInstanceAs (Decidable (∃ s ∈ fs, _ ∧ _ ∧ (_ ∨ (_ ∧ ∃ f ∈ fs, _))))

theorem ProperPair.mono {mac : List UInt8} {fs gs : List EthTsPtpFrame} {t1 t2 : ℤ}
    (h : ProperPair mac fs t1 t2) (hs : ∀ f ∈ fs, f ∈ gs) : ProperPair mac gs t1 t2 := by
  obtain ⟨s, hm, hst, h2, ho | ⟨ha, f, hf, hr⟩⟩ := h
  · exact ⟨s, hs s hm, hst, h2, Or.inl ho⟩
  · exact ⟨s, hs s hm, hst, h2, Or.inr ⟨ha, f, hs f hf, hr⟩⟩

/-- A Follow_Up about to be paired comes from the source of the last stamped Sync. -/
def SameSource (fs : List EthTsPtpFrame) (p : Ptp D) : PtpEvent → Prop
  | .frame f => wholeFollowup p.uuid f = true ∧ p.awaitingFollowup = true ∧ f.assoc = p.pendingSyncSeq →
      (lastSync p.uuid fs).all fun s => f.srcUuid = s.srcUuid ∧ f.srcPortId = s.srcPortId
  | .tick _ _ => True

instance (fs : List EthTsPtpFrame) (p : Ptp D) (e : PtpEvent) : Decidable (SameSource fs p e) := by
  cases e with
  | frame f => exact inferInstanceAs (Decidable (_ → _))
  | tick now tx => exact inferInstanceAs (Decidable True)

/-- A pending id is that of the last stamped Sync, whose stamp is `t2`; every pair
formed so far is proper. -/
structure PairInv (mac : List UInt8) (fs : List EthTsPtpFrame) (q : Pairing) : Prop where
  uuid : q.uuid = mac
  await : q.awaitingFollowup = true → q.haveT2 = true ∧ ∃ s, lastSync mac fs = some s ∧
    s.assist = true ∧ s.seq = q.pendingSyncSeq ∧ q.t2 = s.ts.ns
  formed : ∀ x ∈ q.pairs, ProperPair mac fs x.1 x.2

theorem pairInv_start (mac : List UInt8) : PairInv mac [] (ptpv1Start A mac).pairing where
  uuid := rfl
  await h := absurd h (by simp [ptpv1Start, Ptp.pairing])
  formed x hx := absurd hx (by simp [ptpv1Start, Ptp.pairing])

theorem pairInv_step {mac : List UInt8} {l : List PtpEvent} {p : Ptp D} {e : PtpEvent}
    (hi : PairInv mac (frames l) p.pairing) (hs : SameSource (frames l) p e) :
    PairInv mac (frames (l ++ [e])) (ptpStep A p e).pairing := by
  have hu : p.uuid = mac := hi.uuid
  have hold : ∀ x ∈ p.pairing.pairs, ProperPair mac (frames (l ++ [e])) x.1 x.2 := fun x hx =>
    (hi.formed x hx).mono (frames_mono l e)
  have hstep := ptpStep_pairs A p e
  generalize (ptpStep A p e).pairing = q at hstep ⊢
  cases hstep with
  | @twoStep f hst ha =>
    refine ⟨hu, fun _ => ⟨rfl, f, ?_, ha, rfl, rfl⟩, hold⟩
    rw [frames_concat_frame, lastSync_concat, ← hu, if_pos hst]
  | @oneStep f hst ha =>
    refine ⟨hu, fun h => absurd h (by simp), fun x hx => ?_⟩
    rcases List.mem_append.mp hx with hx | hx
    · exact hold x hx
    · obtain rfl := List.mem_singleton.mp hx
      exact ⟨f, by simp, hu ▸ hst, rfl, Or.inl ⟨ha, rfl⟩⟩
  | @followup f _ hns hf hw hq h =>
    obtain ⟨h2, s, hl, ha, hseq, ht2⟩ := hi.await hw
    rw [h h2]
    refine ⟨hu, fun h => absurd h (by simp), fun x hx => ?_⟩
    rcases List.mem_append.mp hx with hx | hx
    · exact hold x hx
    · obtain rfl := List.mem_singleton.mp hx
      have hsrc := hs ⟨hf, hw, hq⟩
      rw [hu, hl, Option.all_some, decide_eq_true_eq] at hsrc
      obtain ⟨hsm, hst⟩ := lastSync_mem hl
      exact ⟨s, frames_mono l _ s hsm, hst, ht2,
        Or.inr ⟨ha, f, by simp, hu ▸ hf, hsrc.1, hsrc.2, hq.trans hseq.symm, rfl⟩⟩
  | other hns =>
    refine ⟨hu, fun hw => ?_, hold⟩
    obtain ⟨h2, s, hl, hrest⟩ := hi.await hw
    refine ⟨h2, s, ?_, hrest⟩
    cases e with
    | tick now tx => rwa [frames_concat_tick]
    | frame f => rw [frames_concat_frame, lastSync_concat, ← hu, hns f rfl, if_neg (by simp), hu, hl]

/-- The slave before the `k`-th event of a run from `ptpv1_start`. -/
def ptpAt (mac : List UInt8) (l : List PtpEvent) (k : ℕ) : Ptp D := before (ptpStep A) (ptpv1Start A mac) l k

theorem pairInv_run {mac : List UInt8} {l : List PtpEvent}
    (h : ∀ k (hk : k < l.length), SameSource (frames (l.take k)) (ptpAt A mac l k) l[k]) {k : ℕ}
    (hk : k ≤ l.length) : PairInv mac (frames (l.take k)) (ptpAt A mac l k).pairing :=
  guarded_run (ptpStep A) (P := fun l p => PairInv mac (frames l) p.pairing)
    (G := fun l p e => SameSource (frames l) p e) (pairInv_start A mac)
    (fun _ _ _ hi hs => pairInv_step A hi hs) h hk

/-- In a run where every paired Follow_Up comes from the Sync's own source, every
`t2 - t1` is formed from a proper pair. -/
theorem pairs_proper (mac : List UInt8) (l : List PtpEvent)
    (h : ∀ k (hk : k < l.length), SameSource (frames (l.take k)) (ptpAt A mac l k) l[k]) :
    ∀ k ≤ l.length, ∀ t1 t2, PtpOut.formed t1 t2 ∈ (ptpAt A mac l k).out →
      ProperPair mac (frames (l.take k)) t1 t2 := by
  intro k hk t1 t2 hm
  refine (pairInv_run A h hk).formed (t1, t2) ?_
  exact List.mem_filterMap.mpr ⟨_, hm, rfl⟩

/-- A PTPv1 header of the station whose UUID ends in `src`. -/
def headerOf (src seq control flags : UInt8) : List UInt8 :=
  [0, 1, 0, 0, 0x5F, 0x44, 0x46, 0x4C, 0x54, 0, 0, 0, 0, 0, 0, 0, 0, 0, 0, 0, 0, 0,
    0x00, 0x1D, 0xC1, 0, 0, src, 0, 1, 0, seq, control, 0, 0, flags, 0, 0, 0, 0]

def syncOf (src seq : UInt8) (ns : ℕ) : PtpEvent :=
  .frame ⟨headerOf src seq 0 8 ++ List.replicate 84 0, PTP1_EVENT_PORT, ⟨0, ns⟩, true⟩

/-- A Follow_Up that names Sync `seq` and gives `sec` as its origin time. -/
def followupOf (src seq sec : UInt8) : PtpEvent :=
  .frame ⟨headerOf src 0 2 0 ++ [0, 0, 0, seq, 0, 0, 0, sec, 0, 0, 0, 0], PTP1_GENERAL_PORT, ⟨0, 0⟩, false⟩

def ownMac : List UInt8 := [0x02, 0, 0, 0, 0, 1]

theorem pairs_proper_one_leader :
    PtpOut.formed 5000000000 900 ∈ (ptpAt flatDbl ownMac [syncOf 1 7 900, followupOf 1 7 5] 2).out ∧
      ProperPair ownMac (frames [syncOf 1 7 900, followupOf 1 7 5]) 5000000000 900 := by
  have hm : PtpOut.formed 5000000000 900 ∈ (ptpAt flatDbl ownMac [syncOf 1 7 900, followupOf 1 7 5] 2).out := by
    decide +kernel
  exact ⟨hm, pairs_proper flatDbl ownMac [syncOf 1 7 900, followupOf 1 7 5] (by decide +kernel) 2 le_rfl _ _ hm⟩

/-- The Sync of one leader is paired with the Follow_Up another leader sent for a
Sync of its own with the same sequence id. -/
theorem crossed_leaders_paired :
    PtpOut.formed 5000000000 900 ∈ (ptpAt flatDbl ownMac [syncOf 1 7 900, followupOf 2 7 5] 2).out ∧
      ¬ ProperPair ownMac (frames [syncOf 1 7 900, followupOf 2 7 5]) 5000000000 900 := by
  decide +kernel

end Inferno
