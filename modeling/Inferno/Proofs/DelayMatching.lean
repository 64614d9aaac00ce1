import Inferno.Proofs.PathSamples

/-! Which request a Delay_Resp is taken for. The slave keeps one `t3`, that of the last
request that got a stamp, and any Delay_Resp to us uses it up: the sequence id the answer
names is not looked at. Requests are numbered by the attempts to send one, failed ones
included. -/

namespace Inferno

open Lib

variable {D : Type} (A : Dbl D)

def EthTsPtpFrame.reqSeq (f : EthTsPtpFrame) : ℕ := dwRd16 f.byte (PTP1_HDR_LEN + 18)

def usesT3 (p : Ptp D) (e : PtpEvent) : Option EthTsPtpFrame := if p.haveT3 then respToUs p e else none

theorem usesT3_eq_some {p : Ptp D} {e : PtpEvent} {f : EthTsPtpFrame} :
    usesT3 p e = some f ↔ p.haveT3 = true ∧ respToUs p e = some f := by
  unfold usesT3
  split_ifs with h <;> simp [h]

theorem Samples.usesT3 {p : Ptp D} {e : PtpEvent} (h : Samples p e) : (usesT3 p e).isSome = true := by
  cases e with
  | tick now tx => cases h
  | frame f =>
    simp only [Samples, delaySample] at h
    split_ifs at h with hc
    · obtain ⟨ha, hctl, hlen, hu, hp, h3, -⟩ := hc
      have hto : toUs p f := ⟨ha, hctl, hlen, hu, hp⟩
      have hresp : respToUs p (.frame f) = some f := if_pos hto
      rw [usesT3_eq_some.mpr ⟨h3, hresp⟩]
      rfl
    · cases h

theorem seq_computeOffset {p p' : Ptp D} (h : p'.delayReqSeq = p.delayReqSeq) :
    (computeOffset A p').delayReqSeq = p.delayReqSeq :=
  (congrArg Outside.delayReqSeq (outside_computeOffset A p')).trans h

theorem seq_ptpStep (p : Ptp D) (e : PtpEvent) :
    (ptpStep A p e).delayReqSeq = if dueReq p e then u16 (p.delayReqSeq + 1) else p.delayReqSeq := by
  cases e with
  | tick now tx =>
    simp only [ptpStep, ptpTaskTick, dueReq, Bool.and_eq_true, decide_eq_true_eq]
    split_ifs <;> cases tx <;> rfl
  | frame f =>
    have hadd : ∀ (q : Ptp D) (d : ℤ), (pathDelayAdd q d).delayReqSeq = q.delayReqSeq := by
      intro q d
      simp only [pathDelayAdd]
      split_ifs <;> rfl
    have hsync : (handleSync A p f).delayReqSeq = p.delayReqSeq := by
      simp only [handleSync]
      split_ifs <;> first | rfl | exact seq_computeOffset A rfl
    have hfollow : (handleFollowup A p f).delayReqSeq = p.delayReqSeq := by
      simp only [handleFollowup]
      split_ifs <;> first | rfl | exact seq_computeOffset A rfl
    have hresp : (handleDelayResp p f).delayReqSeq = p.delayReqSeq := by
      simp only [handleDelayResp]
      split_ifs <;> first | rfl | exact hadd _ _
    simp only [ptpStep, ptpTaskFrame, dueReq, Bool.false_eq_true, if_false]
    split_ifs
    · exact hsync
    · exact hfollow
    · exact hresp
    · rfl
    · rfl

def reqAttempts (mac : List UInt8) (l : List PtpEvent) (k : ℕ) : ℕ :=
  tally (ptpStep A) dueReq (ptpv1Start A mac) (l.take k)

/-- A request carries the number of attempts before its own, as a 16-bit id. -/
theorem seq_attempts (mac : List UInt8) (l : List PtpEvent) (k : ℕ) :
    (ptpAt A mac l k).delayReqSeq = reqAttempts A mac l k % 2 ^ 16 := by
  refine run_induct (ptpStep A) (s := ptpv1Start A mac)
    (P := fun l p => p.delayReqSeq = tally (ptpStep A) dueReq (ptpv1Start A mac) l % 2 ^ 16) rfl ?_ (l.take k)
  intro l e ih
  rw [seq_ptpStep, tally_concat]
  cases hd : dueReq (l.foldl (ptpStep A) (ptpv1Start A mac)) e with
  | false => simpa using ih
  | true =>
    simp only [if_true, u16, ih, Bool.toNat_true]
    omega

/-- Event `j` is the last before event `k` at which a request got its stamp. -/
abbrev LastSent (mac : List UInt8) (l : List PtpEvent) (k j : ℕ) : Prop :=
  LastBefore (Occurs A mac l fun p e => (sentReq p e).isSome = true) k j

/-- Since event `j` neither a Delay_Resp to us nor a step of the clock has come. -/
def UndisturbedSince (mac : List UInt8) (l : List PtpEvent) (k j : ℕ) : Prop :=
  ∀ i, j < i → i < k → ¬ Occurs A mac l (fun p e => (respToUs p e).isSome = true ∨ stepsClock A p e = true) i

theorem haveT3_sent {p : Ptp D} {e : PtpEvent} (h : (sentReq p e).isSome = true) : (ptpStep A p e).haveT3 = true := by
  cases ptpStep_pathTurn A p e with
  | other hq => simp [hq] at h
  | request hq hr hout ha ht h3 => exact h3
  | twoStep hq => simp [hq] at h
  | formed hq => simp [hq] at h

/-- After the last request sent its stamp is pending for as long as nothing disturbs it. -/
theorem pending_iff {mac : List UInt8} {l : List PtpEvent} {k j : ℕ} (hk : k ≤ l.length) (hlast : LastSent A mac l k j) :
    (ptpAt A mac l k).haveT3 = true ↔ UndisturbedSince A mac l k j := by
  have hspan : ∀ n, j < n → n ≤ k → ((ptpAt A mac l n).haveT3 = true ↔ UndisturbedSince A mac l n j) := by
    intro n hjn hnk
    induction n, hjn using Nat.le_induction with
    | base =>
      obtain ⟨hj, hs⟩ := hlast.holds
      have hsent : (ptpAt A mac l (j + 1)).haveT3 = true := by
        rw [ptpAt_succ A mac l hj]
        exact haveT3_sent A hs
      exact ⟨fun _ i h1 h2 => absurd h1 (by omega), fun _ => hsent⟩
    | succ n hjn ih =>
      have hlt : n < l.length := by omega
      have hq : sentReq (ptpAt A mac l n) l[n] = none := by
        by_contra hne
        exact hlast.since n hjn (by omega) ⟨hlt, Option.isSome_iff_ne_none.mpr hne⟩
      rw [ptpAt_succ A mac l hlt, haveT3_turn A hq, Bool.and_eq_true, Bool.and_eq_true, ih (by omega)]
      constructor
      · rintro ⟨⟨hund, hd⟩, hst⟩ i h1 h2 ho
        rcases occurs_succ A hlt h2 ho with ⟨h2, ho⟩ | ⟨rfl, ho | ho⟩
        · exact hund i h1 h2 ho
        · simp [ho] at hd
        · simp [ho] at hst
      · intro hund
        have hno : ¬ ((respToUs (ptpAt A mac l n) l[n]).isSome = true ∨ stepsClock A (ptpAt A mac l n) l[n] = true) :=
          fun h => hund n hjn (Nat.lt_succ_self n) ⟨hlt, h⟩
        rw [not_or, Bool.not_eq_true, Bool.not_eq_true] at hno
        exact ⟨⟨fun i h1 h2 => hund i h1 (h2.trans (Nat.lt_succ_self n)), by simp [hno.1]⟩, by simp [hno.2]⟩
  exact hspan k hlast.lt le_rfl

theorem pending_t3 {mac : List UInt8} {l : List PtpEvent} {k : ℕ} (hk : k ≤ l.length)
    (h : (ptpAt A mac l k).haveT3 = true) : ∃ j, LastSent A mac l k j ∧ ∃ hj : j < l.length, ∃ t,
      sentReq (ptpAt A mac l j) l[j] = some t ∧ (ptpAt A mac l k).t3 = t.ns := by
  have hp := (stampedAt_run A mac l hk).1
  have hreq := requestFresh_run A mac l hk
  obtain ⟨hlt, hj, t, hs, ht⟩ := hreq.sent (hp ▸ h)
  have hlast : LastSent A mac l k (stampedAt A mac l k).t3At :=
    ⟨hlt, ⟨hj, by simp [hs]⟩, fun i h1 h2 ho => absurd (hreq.last i h2 ho) (not_le.mpr h1)⟩
  exact ⟨_, hlast, hj, t, hs, hp ▸ ht⟩

/-- Every sample comes of a Delay_Resp that uses the pending `t3` up, and those answer the
request stamped with it in exactly the runs where each Delay_Resp to us that is the first
disturbance since the last request sent names that one's id: the attempts before it. -/
theorem delay_matched_iff (mac : List UInt8) (l : List PtpEvent) :
    (∀ k, Occurs A mac l Samples k → Occurs A mac l (fun p e => (usesT3 p e).isSome = true) k) ∧
    ((∀ k f, Occurs A mac l (fun p e => usesT3 p e = some f) k →
      ∃ j, ∃ hj : j < l.length, ∃ t, j < k ∧ sentReq (ptpAt A mac l j) l[j] = some t ∧
        (ptpAt A mac l k).t3 = t.ns ∧ LastSent A mac l k j ∧ f.reqSeq = (ptpAt A mac l j).delayReqSeq) ↔
    ∀ k f, Occurs A mac l (fun p e => respToUs p e = some f) k →
      ∀ j, LastSent A mac l k j → UndisturbedSince A mac l k j → f.reqSeq = reqAttempts A mac l j % 2 ^ 16) := by
  refine ⟨fun k ⟨hk, h⟩ => ⟨hk, h.usesT3⟩, fun h k f ho j hj hund => ?_, fun h k f ho => ?_⟩
  · obtain ⟨hk, hto⟩ := ho
    have h3 := (pending_iff A hk.le hj).mpr hund
    obtain ⟨i, hi, t, -, -, -, hlast, hseq⟩ := h k f ⟨hk, usesT3_eq_some.mpr ⟨h3, hto⟩⟩
    obtain rfl := hj.unique hlast
    rw [hseq, seq_attempts]
  · obtain ⟨hk, huse⟩ := ho
    obtain ⟨h3, hto⟩ := usesT3_eq_some.mp huse
    obtain ⟨j, hlast, hj, t, hs, ht⟩ := pending_t3 A hk.le h3
    have hund := (pending_iff A hk.le hlast).mp h3
    exact ⟨j, hj, t, hlast.lt, hs, ht, hlast, by rw [h k f ⟨hk, hto⟩ j hlast hund, seq_attempts]⟩

/-- A Sync, two requests a quarter of a second apart, and the answer to the first. -/
def lateAnswer : List PtpEvent :=
  [oneStepOf 1 0 0, .tick 0 (some ⟨1, 0⟩), .tick 250000 (some ⟨1, 250000000⟩), answerOf 1 0 1]

/-- It uses up the stamp of the second, numbered one. -/
theorem late_answer_taken : ∃ f, usesT3 (ptpAt flatDbl ownMac lateAnswer 3) lateAnswer[3] = some f ∧ f.reqSeq = 0 ∧
    (ptpAt flatDbl ownMac lateAnswer 3).t3 = 1250000000 ∧ LastSent flatDbl ownMac lateAnswer 3 2 ∧
    (ptpAt flatDbl ownMac lateAnswer 2).delayReqSeq = 1 ∧
    ¬ ∀ k f, Occurs flatDbl ownMac lateAnswer (fun p e => usesT3 p e = some f) k →
      ∃ j, ∃ hj : j < lateAnswer.length, ∃ t, j < k ∧
        sentReq (ptpAt flatDbl ownMac lateAnswer j) lateAnswer[j] = some t ∧
        (ptpAt flatDbl ownMac lateAnswer k).t3 = t.ns ∧ LastSent flatDbl ownMac lateAnswer k j ∧
        f.reqSeq = (ptpAt flatDbl ownMac lateAnswer j).delayReqSeq := by
  have hans : (usesT3 (ptpAt flatDbl ownMac lateAnswer 3) lateAnswer[3]).map EthTsPtpFrame.reqSeq = some 0 := by
    decide +kernel
  obtain ⟨f, hf, hseq⟩ := Option.map_eq_some_iff.mp hans
  have hsent : (sentReq (ptpAt flatDbl ownMac lateAnswer 2) lateAnswer[2]).isSome = true := by decide +kernel
  have hlast : LastSent flatDbl ownMac lateAnswer 3 2 :=
    ⟨by decide, ⟨by decide, hsent⟩, fun i h1 h2 => absurd h1 (by omega)⟩
  have hone : (ptpAt flatDbl ownMac lateAnswer 2).delayReqSeq = 1 := by decide +kernel
  refine ⟨f, hf, hseq, by decide +kernel, hlast, hone, fun h => ?_⟩
  obtain ⟨j, hj, t, -, -, -, hlj, hmatch⟩ := h 3 f ⟨by decide, hf⟩
  obtain rfl := hlj.unique hlast
  rw [hseq, hone] at hmatch
  exact absurd hmatch (by decide)

end Inferno
