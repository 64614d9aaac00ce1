import Inferno.Proofs.LowEdge
import Inferno.Proofs.PtpPairing

/-! What one event can do to the two halves of a path-delay sample: the pending `t3`, and
the latest `t2 - t1` with the servo window behind it. A step of the clock drops both; the
end of the frequency estimate drops neither. -/

namespace Inferno

open Lib

variable {D : Type} (A : Dbl D)

def dueReq (p : Ptp D) : PtpEvent → Bool
  | .tick now _ => p.g.haveMaster && decide (now ≥ p.nextDreqUs)
  | .frame _ => false

def sentReq (p : Ptp D) (e : PtpEvent) : Option EthTsTime :=
  match e with
  | .tick _ tx => if dueReq p e then tx else none
  | .frame _ => none

def recordsT2 (p : Ptp D) : PtpEvent → Bool
  | .frame f => stampedSync p.uuid f
  | .tick _ _ => false

def toUs (p : Ptp D) (f : EthTsPtpFrame) : Prop :=
  p.accepts f = true ∧ f.control = PTP1_CTRL_DELAY_RESP ∧ ¬ f.len < PTP1_HDR_LEN + PTP1_DELAY_RESP_BODY_LEN ∧
    f.reqUuid = p.uuid ∧ f.reqPortId = p.portId

instance (p : Ptp D) (f : EthTsPtpFrame) : Decidable (toUs p f) := inferInstanceAs (Decidable (_ ∧ _))

def respToUs (p : Ptp D) : PtpEvent → Option EthTsPtpFrame
  | .frame f => if toUs p f then some f else none
  | .tick _ _ => none

def PtpOut.isStep : PtpOut → Bool
  | .stepTime _ => true
  | _ => false

def news (p : Ptp D) (e : PtpEvent) : List PtpOut := (ptpStep A p e).out.drop p.out.length

def forms (p : Ptp D) (e : PtpEvent) : Bool := (news A p e).any fun o => o.pair?.isSome

/-- The clock is stepped: a coarse step, a jump step or the phase snap. -/
def stepsClock (p : Ptp D) (e : PtpEvent) : Bool := (news A p e).any PtpOut.isStep

def endsEstimate (p : Ptp D) (e : PtpEvent) : Bool := !p.servo.estDone && (ptpStep A p e).servo.estDone

theorem window_of_step (s : PtpServo D) (o t : ℤ) (h : (ptpServoUpdate A s o t).stepNs ≠ 0) :
    (ptpServoUpdate A s o t).s.winCount = 0 ∧
      ((ptpServoUpdate A s o t).s.estDone = true → s.estDone = true) := by
  simp only [ptpServoUpdate, servoFront_eq] at h ⊢
  split_ifs at h ⊢ with hc hd
  · exact ⟨rfl, fun h => absurd h Bool.false_ne_true⟩
  · exact absurd rfl h
  · have hd : s.estDone = true := by simpa using hd
    refine ⟨?_, fun _ => hd⟩
    simp only [jumpCheck] at h ⊢
    split_ifs at h ⊢ <;> first | rfl | exact absurd rfl h

/-- Without a step, the estimate adds nothing to the window and does not end twice. -/
theorem window_of_no_step (s : PtpServo D) (o t : ℤ) (h : (ptpServoUpdate A s o t).stepNs = 0) :
    (s.estDone = true → (ptpServoUpdate A s o t).s.estDone = true) ∧
      (s.estDone = false → (ptpServoUpdate A s o t).s.winCount = s.winCount) := by
  have hnear : ¬ (o > PS_STEP_NS ∨ o < -PS_STEP_NS) := by
    intro hc
    rw [ptpServoUpdate, if_pos hc] at h
    have h0 : -o = 0 := h
    simp only [PS_STEP_NS] at hc
    omega
  refine ⟨fun hd => estDone_update A hd hnear, fun hd => ?_⟩
  have hest : (!s.estDone) = true := by rw [hd, Bool.not_false]
  rw [ptpServoUpdate, if_neg hnear, if_pos hest]
  exact congrArg (fun w => w.2.2) (window_estimate A { s with offsetNs := o } o t)

/-- What a path-delay sample is made of, and what tells of it. -/
structure Halves (D : Type) where
  t3 : ℤ
  haveT3 : Bool
  haveMs : Bool
  awaiting : Bool
  servo : PtpServo D
  out : List PtpOut

def Ptp.halves (p : Ptp D) : Halves D := ⟨p.t3, p.haveT3, p.haveMs, p.awaitingFollowup, p.servo, p.out⟩

/-- An event leaves the servo alone, clears its filter, or updates it. -/
inductive ServoTurn (s s' : PtpServo D) : Prop
  | left (h : s' = s)
  | cleared (h : s' = ptpServoClearFilter s)
  | updated (o t : ℤ) (h : s' = (ptpServoUpdate A s o t).s)

/-- What follows once a `t2 - t1` is formed: the clock is stepped and both halves dropped,
or neither is. -/
inductive Acquires (a b : Halves D) : Prop
  | kept (new : List PtpOut) (hout : b.out = a.out ++ new) (hpair : new.any (fun o => o.pair?.isSome) = false)
      (hnew : new.any PtpOut.isStep = false) (h3 : b.haveT3 = a.haveT3)
      (he : a.servo.estDone = true → b.servo.estDone = true)
      (hw : a.servo.estDone = false → b.servo.winCount = a.servo.winCount) (hst : ServoTurn A a.servo b.servo)
  | stepped (new : List PtpOut) (hout : b.out = a.out ++ new) (hpair : new.any (fun o => o.pair?.isSome) = false)
      (hnew : new.any PtpOut.isStep = true) (h3 : b.haveT3 = false) (hms : b.haveMs = false)
      (hw : b.servo.winCount = 0) (he : b.servo.estDone = true → a.servo.estDone = true)
      (hst : ServoTurn A a.servo b.servo)

theorem acquires_applyServo (p : Ptp D) (o : ℤ) : Acquires A p.halves (applyServo A p o).halves := by
  by_cases h : (ptpServoUpdate A p.servo o p.t2).stepNs ≠ 0
  · obtain ⟨hw, he⟩ := window_of_step A p.servo o p.t2 h
    simp only [applyServo, if_pos h]
    split_ifs <;> exact .stepped _ rfl rfl rfl rfl rfl hw he (.updated o p.t2 rfl)
  · obtain ⟨he, hw⟩ := window_of_no_step A p.servo o p.t2 (not_not.mp h)
    simp only [applyServo, if_neg h]
    exact .kept _ rfl rfl rfl rfl he hw (.updated o p.t2 rfl)

theorem acquires_acquire (p : Ptp D) (raw : ℤ) : Acquires A p.halves (acquire A p raw).halves := by
  simp only [acquire]
  split_ifs
  · -- the end of the estimate clears the average only
    exact acquires_applyServo A { p with snapped := false } raw
  · exact acquires_applyServo A { p with snapped := false } raw
  · -- the phase snap
    exact .stepped [_] rfl rfl rfl rfl rfl rfl (fun h => h) (.cleared rfl)
  · exact acquires_applyServo A { p with snapped := true } (raw - p.g.meanPathDelayNs)
  · exact acquires_applyServo A p (raw - p.g.meanPathDelayNs)
  · exact acquires_applyServo A p (raw - p.g.meanPathDelayNs)
  · exact .kept [] (List.append_nil _).symm rfl rfl rfl (fun h => h) (fun _ => rfl) (.left rfl)

/-- The fields the servo and its caller leave alone. -/
structure Outside where
  uuid : List UInt8
  portId : ℕ
  delayReqSeq : ℕ
  t3 : ℤ
  awaitingFollowup : Bool

def Ptp.outside (p : Ptp D) : Outside := ⟨p.uuid, p.portId, p.delayReqSeq, p.t3, p.awaitingFollowup⟩

theorem outside_applyServo (p : Ptp D) (o : ℤ) : (applyServo A p o).outside = p.outside := by
  simp only [applyServo]
  split_ifs <;> rfl

theorem outside_acquire (p : Ptp D) (raw : ℤ) : (acquire A p raw).outside = p.outside := by
  simp only [acquire]
  split_ifs
  · exact outside_applyServo A { p with snapped := false } raw
  · exact outside_applyServo A { p with snapped := false } raw
  · rfl
  · exact outside_applyServo A { p with snapped := true } (raw - p.g.meanPathDelayNs)
  · exact outside_applyServo A p (raw - p.g.meanPathDelayNs)
  · exact outside_applyServo A p (raw - p.g.meanPathDelayNs)
  · rfl

theorem outside_computeOffset (p : Ptp D) : (computeOffset A p).outside = p.outside := by
  simp only [computeOffset]
  split_ifs
  · rfl
  · exact outside_acquire A { p with lastMs := _, haveMs := true, out := _ } _

/-- Everything an event can do to the halves of a sample. -/
inductive PathTurn (p : Ptp D) (e : PtpEvent) (q : Ptp D) : Prop
  | other (hq : sentReq p e = none) (hr : recordsT2 p e = false) (hout : q.out = p.out)
      (ha : q.awaitingFollowup = true → p.awaitingFollowup = true) (ht : q.t3 = p.t3)
      (h3 : if (respToUs p e).isSome then q.haveT3 = false else q.haveT3 = p.haveT3) (hms : q.haveMs = p.haveMs)
      (hsv : q.servo = p.servo) (hlm : q.lastMs = p.lastMs)
  | request {t} (hq : sentReq p e = some t) (hr : recordsT2 p e = false) (hout : q.out = p.out)
      (ha : q.awaitingFollowup = p.awaitingFollowup) (ht : q.t3 = t.ns) (h3 : q.haveT3 = true)
      (hms : q.haveMs = p.haveMs) (hsv : q.servo = p.servo) (hlm : q.lastMs = p.lastMs)
  | twoStep (hq : sentReq p e = none) (hr : recordsT2 p e = true) (hout : q.out = p.out) (ht : q.t3 = p.t3)
      (h3 : q.haveT3 = p.haveT3) (hms : q.haveMs = p.haveMs) (hsv : q.servo = p.servo) (hlm : q.lastMs = p.lastMs)
      (hd : respToUs p e = none)
  | formed {t1 t2} (hq : sentReq p e = none) (hr : recordsT2 p e = true ∨ p.awaitingFollowup = true)
      (ha : q.awaitingFollowup = false) (ht : q.t3 = p.t3)
      (hacq : Acquires A { p.halves with out := p.out ++ [.formed t1 t2], haveMs := true } q.halves)
      (hd : respToUs p e = none)

theorem pathTurn_compute {p p' : Ptp D} {e : PtpEvent} (hq : sentReq p e = none) (hd : respToUs p e = none)
    (hr : recordsT2 p e = true ∨ p.awaitingFollowup = true) (h1 : p'.haveT1 = true) (h2 : p'.haveT2 = true)
    (haw : p'.awaitingFollowup = false) (hh : p'.t3 = p.t3 ∧ p'.haveT3 = p.haveT3 ∧ p'.servo = p.servo ∧ p'.out = p.out) :
    PathTurn A p e (computeOffset A p') := by
  set q : Ptp D := { p' with
    lastMs := p'.t2 - p'.t1, haveMs := true, out := p'.out ++ [.formed p'.t1 p'.t2] } with hqd
  have he : computeOffset A p' = { acquire A q (p'.t2 - p'.t1) with haveT1 := false, haveT2 := false } := by
    rw [computeOffset, if_neg (by simp [h1, h2])]
  have ht : (acquire A q (p'.t2 - p'.t1)).t3 = p'.t3 := congrArg Outside.t3 (outside_acquire A q _)
  have ha : (acquire A q (p'.t2 - p'.t1)).awaitingFollowup = p'.awaitingFollowup :=
    congrArg Outside.awaitingFollowup (outside_acquire A q _)
  have hacq := acquires_acquire A q (p'.t2 - p'.t1)
  have hhalves : q.halves = { p.halves with
      out := p.out ++ [.formed p'.t1 p'.t2], haveMs := true, awaiting := false } := by
    simp only [Ptp.halves, hqd, hh.1, hh.2.1, hh.2.2.1, hh.2.2.2, haw]
  rw [hhalves] at hacq
  rw [he]
  have hformed : Acquires A { p.halves with out := p.out ++ [.formed p'.t1 p'.t2], haveMs := true }
      { acquire A q (p'.t2 - p'.t1) with haveT1 := false, haveT2 := false }.halves := by
    cases hacq with
    | kept new hout hpair hnew h3 he hw hst => exact .kept new hout hpair hnew h3 he hw hst
    | stepped new hout hpair hnew h3 hms hw he hst => exact .stepped new hout hpair hnew h3 hms hw he hst
  exact .formed hq hr (ha.trans haw) (ht.trans hh.1) hformed hd

theorem respToUs_of_control {p : Ptp D} {f : EthTsPtpFrame} (h : f.control ≠ PTP1_CTRL_DELAY_RESP) :
    respToUs p (.frame f) = none := if_neg fun hto => h hto.2.1

theorem pathTurn_sync {p : Ptp D} {f : EthTsPtpFrame} (ha : p.accepts f = true) (hc : f.control = PTP1_CTRL_SYNC) :
    PathTurn A p (.frame f) (handleSync A p f) := by
  have hacc : accepted p.uuid f = true := ha
  have hd : respToUs p (.frame f) = none := respToUs_of_control (by rw [hc]; decide)
  by_cases hl : f.bodyLen < 8
  · rw [handleSync, if_pos hl]
    exact .other rfl (by simp [recordsT2, stampedSync, Nat.not_le.mpr hl]) rfl id rfl (by simp [hd]) rfl rfl rfl
  · simp only [handleSync, if_neg hl]
    cases ht : f.tsValid with
    | false => exact .other rfl (by simp [recordsT2, stampedSync, ht]) rfl id rfl (by simp [hd]) rfl rfl rfl
    | true =>
      have hr : recordsT2 p (.frame f) = true := by
        simp [recordsT2, stampedSync, hacc, hc, not_lt.mp hl, ht]
      simp only [Bool.not_true, Bool.false_eq_true, if_false]
      split_ifs
      · exact .twoStep rfl hr rfl rfl rfl rfl rfl rfl hd
      · exact .twoStep rfl hr rfl rfl rfl rfl rfl rfl hd
      · exact pathTurn_compute A rfl hd (.inl hr) rfl rfl rfl ⟨rfl, rfl, rfl, rfl⟩
      · exact pathTurn_compute A rfl hd (.inl hr) rfl rfl rfl ⟨rfl, rfl, rfl, rfl⟩

theorem pathTurn_followup {p : Ptp D} {f : EthTsPtpFrame} (hc : f.control = PTP1_CTRL_FOLLOWUP) :
    PathTurn A p (.frame f) (handleFollowup A p f) := by
  have hr : recordsT2 p (.frame f) = false := not_stamped_of_control (by rw [hc]; decide)
  have hd : respToUs p (.frame f) = none := respToUs_of_control (by rw [hc]; decide)
  by_cases hl : f.len < PTP1_HDR_LEN + PTP1_FOLLOWUP_BODY_LEN
  · rw [handleFollowup, if_pos hl]
    exact .other rfl hr rfl id rfl (by simp [hd]) rfl rfl rfl
  · simp only [handleFollowup, if_neg hl]
    split_ifs with haw hq
    · exact .other rfl hr rfl id rfl (by simp [hd]) rfl rfl rfl
    · exact .other rfl hr rfl id rfl (by simp [hd]) rfl rfl rfl
    · have haw : p.awaitingFollowup = true := by simpa using haw
      cases h2 : p.haveT2 with
      | true => exact pathTurn_compute A rfl hd (.inr haw) rfl rfl rfl ⟨rfl, rfl, rfl, rfl⟩
      | false =>
        -- no Sync stamp stands: the pair is not formed
        simp only [computeOffset, Bool.not_false, Bool.or_true, if_true]
        exact .other rfl hr rfl (fun h => absurd h Bool.false_ne_true) rfl (by simp [hd]) rfl rfl rfl

theorem pathTurn_delayResp {p : Ptp D} {f : EthTsPtpFrame} (ha : p.accepts f = true)
    (hc : f.control = PTP1_CTRL_DELAY_RESP) : PathTurn A p (.frame f) (handleDelayResp p f) := by
  have hr : recordsT2 p (.frame f) = false := not_stamped_of_control (by rw [hc]; decide)
  have hadd : ∀ (q : Ptp D) (d : ℤ),
      (pathDelayAdd q d).halves = q.halves ∧ (pathDelayAdd q d).lastMs = q.lastMs := by
    intro q d
    simp only [pathDelayAdd]
    split_ifs <;> exact ⟨rfl, rfl⟩
  simp only [handleDelayResp]
  split_ifs with hl hu hp h3 hms hd
  · have hnot : respToUs p (.frame f) = none := if_neg fun h => h.2.2.1 hl
    exact .other rfl hr rfl id rfl (by simp [hnot]) rfl rfl rfl
  · have hnot : respToUs p (.frame f) = none := if_neg fun h => hu h.2.2.2.1
    exact .other rfl hr rfl id rfl (by simp [hnot]) rfl rfl rfl
  · have hnot : respToUs p (.frame f) = none := if_neg fun h => hp h.2.2.2.2
    exact .other rfl hr rfl id rfl (by simp [hnot]) rfl rfl rfl
  · have h3 : p.haveT3 = false := by simpa using h3
    exact .other rfl hr rfl id rfl (by simp [h3]) rfl rfl rfl
  · have hto : respToUs p (.frame f) = some f := if_pos ⟨ha, hc, hl, not_not.mp hu, not_not.mp hp⟩
    exact .other rfl hr rfl id rfl (by simp [hto]) rfl rfl rfl
  · have hto : respToUs p (.frame f) = some f := if_pos ⟨ha, hc, hl, not_not.mp hu, not_not.mp hp⟩
    exact .other rfl hr rfl id rfl (by simp [hto]) rfl rfl rfl
  · have hto : respToUs p (.frame f) = some f := if_pos ⟨ha, hc, hl, not_not.mp hu, not_not.mp hp⟩
    obtain ⟨h, hlm⟩ := hadd { p with
      g := { p.g with rxDelayResp := u32 (p.g.rxDelayResp + 1) }, t4 := f.receipt, haveT3 := false }
      ((p.lastMs + (f.receipt - p.t3)).tdiv 2)
    simp only [Ptp.halves, Halves.mk.injEq] at h
    obtain ⟨ht, h3', hms', haw, hsv, hout⟩ := h
    exact .other rfl hr hout (fun h => haw.symm.trans h) ht (by simpa [hto] using h3') hms' hsv hlm

theorem ptpStep_pathTurn (p : Ptp D) (e : PtpEvent) : PathTurn A p e (ptpStep A p e) := by
  cases e with
  | tick now tx =>
    by_cases hdue : p.g.haveMaster = true ∧ now ≥ p.nextDreqUs
    · have hd : dueReq p (.tick now tx) = true := by simp [dueReq, hdue.1, hdue.2]
      simp only [ptpStep, ptpTaskTick, if_pos hdue]
      cases tx with
      | some t => exact .request (t := t) (by simp [sentReq, hd]) rfl rfl rfl rfl rfl rfl rfl rfl
      | none => exact .other (by simp [sentReq]) rfl rfl id rfl rfl rfl rfl rfl
    · have hd : dueReq p (.tick now tx) = false := by
        simp only [dueReq, Bool.and_eq_false_iff, decide_eq_false_iff_not]
        cases hm : p.g.haveMaster with
        | false => exact Or.inl rfl
        | true => exact Or.inr fun h => hdue ⟨hm, h⟩
      simp only [ptpStep, ptpTaskTick, if_neg hdue]
      exact .other (by simp [sentReq, hd]) rfl rfl id rfl rfl rfl rfl rfl
  | frame f =>
    simp only [ptpStep, ptpTaskFrame]
    split_ifs with ha hs hf hd
    · exact pathTurn_sync A ha hs
    · exact pathTurn_followup A hf
    · exact pathTurn_delayResp A ha hd
    · have hnot : respToUs p (.frame f) = none := respToUs_of_control hd
      exact .other rfl (not_stamped_of_control hs) rfl id rfl (by simp [hnot]) rfl rfl rfl
    · have hacc : accepted p.uuid f = false := by
        have h : p.accepts f = accepted p.uuid f := rfl
        rw [← h]
        simpa using ha
      have hnot : respToUs p (.frame f) = none := if_neg fun h => ha h.1
      exact .other rfl (by simp [recordsT2, stampedSync, hacc]) rfl id rfl (by simp [hnot]) rfl rfl rfl

theorem ptpStep_servoTurn (p : Ptp D) (e : PtpEvent) : ServoTurn A p.servo (ptpStep A p e).servo := by
  cases ptpStep_pathTurn A p e with
  | other hq hr hout ha ht h3 hms hsv => exact .left hsv
  | request hq hr hout ha ht h3 hms hsv => exact .left hsv
  | twoStep hq hr hout ht h3 hms hsv => exact .left hsv
  | formed hq hr ha ht hacq =>
    cases hacq with
    | kept new hout hpair hnew h3 he hw hst => exact hst
    | stepped new hout hpair hnew h3 hms hw he hst => exact hst

end Inferno
