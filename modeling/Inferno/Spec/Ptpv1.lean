import Inferno.Spec.PtpServo
import Inferno.Spec.EthTs

/-! The PTPv1 slave of `ptpv1.c`: Sync and Follow_Up pairing, the path delay, the
acquisition order, and the commands to the PTP clock. -/

namespace Inferno

def DELAY_REQ_MS : ℕ := 4000
def DELAY_REQ_FAST_MS : ℕ := 250
def PD_MIN_SAMPLES : ℕ := 4
def SMALL_STEP_NS : ℤ := 100000

/-- `ptpv1_state_t`, without the diagnostics of a failed rate command. -/
structure Ptpv1State where
  locked : Bool
  haveMaster : Bool
  masterUuid : List UInt8
  masterPortId : ℕ
  offsetNs : ℤ
  filteredNs : ℤ
  lockLosses : ℕ
  meanPathDelayNs : ℤ
  rxSync : ℕ
  rxFollowup : ℕ
  rxDelayResp : ℕ
  rxOther : ℕ
  lostFollowup : ℕ
  orphanFollowup : ℕ
  mispair : ℕ
  noHwTs : ℕ
  txDelayReq : ℕ
  servoUpdates : ℕ
  ratePpb : ℤ
  stepCount : ℕ
  pathDelayRejected : ℕ
  phaseShifts : ℕ
  outPpb : ℤ

/-- What the slave tells the PTP clock, and each `t2 - t1` it forms. -/
inductive PtpOut where
  | formed (t1 t2 : ℤ)
  | stepTime (ns : ℤ)
  | setRate (ppb : ℤ)
  deriving DecidableEq, Repr

/-- The statics of `ptpv1.c`, `g_ptpv1`, and what was sent to the clock so far. -/
structure Ptp (D : Type) where
  g : Ptpv1State
  servo : PtpServo D
  uuid : List UInt8
  portId : ℕ
  delayReqSeq : ℕ
  t1 : ℤ
  t2 : ℤ
  t3 : ℤ
  t4 : ℤ
  haveT1 : Bool
  haveT2 : Bool
  haveT3 : Bool
  awaitingFollowup : Bool
  pendingSyncSeq : ℕ
  pathDelayAcc : ℤ
  pathDelayN : ℕ
  lastMs : ℤ
  snapped : Bool
  pathFresh : Bool
  haveMs : Bool
  wasLocked : Bool
  nextDreqUs : ℤ
  out : List PtpOut

variable {D : Type} (A : Dbl D)

def ptpv1State0 : Ptpv1State where
  locked := false
  haveMaster := false
  masterUuid := List.replicate 6 0
  masterPortId := 0
  offsetNs := 0
  filteredNs := 0
  lockLosses := 0
  meanPathDelayNs := 0
  rxSync := 0
  rxFollowup := 0
  rxDelayResp := 0
  rxOther := 0
  lostFollowup := 0
  orphanFollowup := 0
  mispair := 0
  noHwTs := 0
  txDelayReq := 0
  servoUpdates := 0
  ratePpb := 0
  stepCount := 0
  pathDelayRejected := 0
  phaseShifts := 0
  outPpb := 0

def ptpv1Start (mac : List UInt8) : Ptp D where
  g := ptpv1State0
  servo := ptpServoInit A
  uuid := mac
  portId := 1
  delayReqSeq := 0
  t1 := 0
  t2 := 0
  t3 := 0
  t4 := 0
  haveT1 := false
  haveT2 := false
  haveT3 := false
  awaitingFollowup := false
  pendingSyncSeq := 0
  pathDelayAcc := 0
  pathDelayN := 0
  lastMs := 0
  snapped := false
  pathFresh := false
  haveMs := false
  wasLocked := false
  nextDreqUs := 0
  out := []

def pathDelayInvalidate (p : Ptp D) : Ptp D :=
  { p with pathFresh := false, haveT3 := false, haveMs := false, pathDelayAcc := 0, pathDelayN := 0 }

def tsNs (sec nsec : ℕ) : ℤ := sec * 1000000000 + nsec

def EthTsTime.ns (t : EthTsTime) : ℤ := tsNs t.seconds t.nanoseconds

namespace EthTsPtpFrame

def byte (f : EthTsPtpFrame) : Mem := fun i => f.payload.getD i 0
def srcUuid (f : EthTsPtpFrame) : List UInt8 := bytesAt f.byte 22 6
def srcPortId (f : EthTsPtpFrame) : ℕ := dwRd16 f.byte 28
def seq (f : EthTsPtpFrame) : ℕ := dwRd16 f.byte 30
def control (f : EthTsPtpFrame) : ℕ := (f.byte 32).toNat
/-- `blen`: the bytes behind the header, a `size_t`. -/
def bodyLen (f : EthTsPtpFrame) : ℕ := u32 (f.len + 2 ^ 32 - PTP1_HDR_LEN)
def assist (f : EthTsPtpFrame) : Bool := ptpAssist (f.byte 35)
/-- Sync: `originTimestamp`. -/
def origin (f : EthTsPtpFrame) : ℤ := tsNs (dwRd32 f.byte PTP1_HDR_LEN) (dwRd32 f.byte (PTP1_HDR_LEN + 4))
/-- Follow_Up: `associatedSequenceId`. -/
def assoc (f : EthTsPtpFrame) : ℕ := dwRd16 f.byte (PTP1_HDR_LEN + 2)
/-- Follow_Up: `preciseOriginTimestamp`. -/
def precise (f : EthTsPtpFrame) : ℤ :=
  tsNs (dwRd32 f.byte (PTP1_HDR_LEN + 4)) (dwRd32 f.byte (PTP1_HDR_LEN + 8))
/-- Delay_Resp: `delayReceiptTimestamp` and the request it answers. -/
def receipt (f : EthTsPtpFrame) : ℤ := tsNs (dwRd32 f.byte PTP1_HDR_LEN) (dwRd32 f.byte (PTP1_HDR_LEN + 4))
def reqUuid (f : EthTsPtpFrame) : List UInt8 := bytesAt f.byte (PTP1_HDR_LEN + 10) 6
def reqPortId (f : EthTsPtpFrame) : ℕ := dwRd16 f.byte (PTP1_HDR_LEN + 16)

end EthTsPtpFrame

def applyServo (p : Ptp D) (offsetNs : ℤ) : Ptp D :=
  let u := ptpServoUpdate A p.servo offsetNs p.t2
  let p := { p with servo := u.s, g := { p.g with outPpb := u.ppb } }
  let p :=
    if u.stepNs ≠ 0 then
      let p := pathDelayInvalidate { p with out := p.out ++ [.stepTime u.stepNs, .setRate u.ppb] }
      if u.stepNs > SMALL_STEP_NS ∨ u.stepNs < -SMALL_STEP_NS then
        { p with g := { p.g with stepCount := u32 (p.g.stepCount + 1) } }
      else { p with g := { p.g with phaseShifts := u32 (p.g.phaseShifts + 1) } }
    else { p with out := p.out ++ [.setRate u.ppb] }
  let lost := !u.s.locked && p.wasLocked
  { p with
    wasLocked := u.s.locked
    g := { p.g with
      lockLosses := if lost then u32 (p.g.lockLosses + 1) else p.g.lockLosses
      locked := u.s.locked
      offsetNs := u.s.offsetNs
      filteredNs := u.s.filteredNs
      ratePpb := u.s.ratePpb
      servoUpdates := u.s.updates } }

/-- The acquisition order of `compute_offset`, once `raw = t2 - t1` is formed. -/
def acquire (p : Ptp D) (raw : ℤ) : Ptp D :=
  let offset := raw - p.g.meanPathDelayNs
  let pathKnown := p.g.meanPathDelayNs ≠ 0 ∧ p.pathFresh = true
  if !p.servo.estDone then
    let p := applyServo A { p with snapped := false } raw
    if p.servo.estDone then { p with pathDelayAcc := 0, pathDelayN := 0, pathFresh := false } else p
  else if ¬ pathKnown then { p with g := { p.g with offsetNs := offset } }
  else if !p.snapped then
    let p := { p with snapped := true }
    if offset > 5000 ∨ offset < -5000 then
      { p with
        out := p.out ++ [.stepTime (-offset)]
        haveT3 := false
        haveMs := false
        servo := ptpServoClearFilter p.servo
        g := { p.g with stepCount := u32 (p.g.stepCount + 1) } }
    else applyServo A p offset
  else
    let p := applyServo A p offset
    if p.servo.estDone && p.servo.locked then
      { p with lastMs := p.servo.filteredNs + p.g.meanPathDelayNs }
    else p

def computeOffset (p : Ptp D) : Ptp D :=
  if !p.haveT1 || !p.haveT2 then p
  else
    let raw := p.t2 - p.t1
    let p := acquire A { p with lastMs := raw, haveMs := true, out := p.out ++ [.formed p.t1 p.t2] } raw
    { p with haveT1 := false, haveT2 := false }

def handleSync (p : Ptp D) (f : EthTsPtpFrame) : Ptp D :=
  if f.bodyLen < 8 then p
  else
    let p := { p with g := { p.g with
      rxSync := u32 (p.g.rxSync + 1)
      masterUuid := f.srcUuid
      masterPortId := f.srcPortId
      haveMaster := true } }
    if !f.tsValid then { p with g := { p.g with noHwTs := u32 (p.g.noHwTs + 1) } }
    else
      let p := { p with t2 := f.ts.ns, haveT2 := true }
      let p := if p.awaitingFollowup then
          { p with g := { p.g with lostFollowup := u32 (p.g.lostFollowup + 1) } }
        else p
      if f.assist then { p with pendingSyncSeq := f.seq, awaitingFollowup := true, haveT1 := false }
      else computeOffset A { p with t1 := f.origin, haveT1 := true, awaitingFollowup := false }

def handleFollowup (p : Ptp D) (f : EthTsPtpFrame) : Ptp D :=
  if f.len < PTP1_HDR_LEN + PTP1_FOLLOWUP_BODY_LEN then p
  else
    let p := { p with g := { p.g with rxFollowup := u32 (p.g.rxFollowup + 1) } }
    if !p.awaitingFollowup then
      { p with g := { p.g with orphanFollowup := u32 (p.g.orphanFollowup + 1) } }
    else if f.assoc ≠ p.pendingSyncSeq then
      { p with g := { p.g with mispair := u32 (p.g.mispair + 1) } }
    else computeOffset A { p with t1 := f.precise, haveT1 := true, awaitingFollowup := false }

def pathDelayAdd (p : Ptp D) (d : ℤ) : Ptp D :=
  let p := { p with pathDelayAcc := p.pathDelayAcc + d, pathDelayN := u32 (p.pathDelayN + 1) }
  if p.pathDelayN ≥ PD_MIN_SAMPLES then
    let p := if p.servo.estDone && !p.pathFresh then { p with pathFresh := true } else p
    let p := { p with g := { p.g with meanPathDelayNs := p.pathDelayAcc.tdiv p.pathDelayN } }
    if p.pathDelayN > 16 then
      { p with pathDelayAcc := p.pathDelayAcc.tdiv 2, pathDelayN := p.pathDelayN / 2 }
    else p
  else p

def handleDelayResp (p : Ptp D) (f : EthTsPtpFrame) : Ptp D :=
  if f.len < PTP1_HDR_LEN + PTP1_DELAY_RESP_BODY_LEN then p
  else
    let p := { p with g := { p.g with rxDelayResp := u32 (p.g.rxDelayResp + 1) } }
    if f.reqUuid ≠ p.uuid then p
    else if f.reqPortId ≠ p.portId then p
    else if !p.haveT3 then p
    else
      let p := { p with t4 := f.receipt, haveT3 := false }
      if !p.haveMs then p
      else
        let d := (p.lastMs + (p.t4 - p.t3)).tdiv 2
        if d < 0 ∨ d > 10000000 then
          { p with g := { p.g with pathDelayRejected := u32 (p.g.pathDelayRejected + 1) } }
        else pathDelayAdd p d

/-- A frame `ptp_task` dispatches: a PTPv1 header from somebody else. -/
def Ptp.accepts (p : Ptp D) (f : EthTsPtpFrame) : Bool := ptp1HeaderOk f.byte f.len && f.srcUuid != p.uuid

def ptpTaskFrame (p : Ptp D) (f : EthTsPtpFrame) : Ptp D :=
  if p.accepts f then
    if f.control = PTP1_CTRL_SYNC then handleSync A p f
    else if f.control = PTP1_CTRL_FOLLOWUP then handleFollowup A p f
    else if f.control = PTP1_CTRL_DELAY_RESP then handleDelayResp p f
    else { p with g := { p.g with rxOther := u32 (p.g.rxOther + 1) } }
  else p

/-- `send_delay_req`; `tx` is the transmit stamp when the frame went out. -/
def sendDelayReq (p : Ptp D) (tx : Option EthTsTime) : Ptp D :=
  let p := match tx with
    | some t => { p with t3 := t.ns, haveT3 := true, g := { p.g with txDelayReq := u32 (p.g.txDelayReq + 1) } }
    | none => p
  { p with delayReqSeq := u16 (p.delayReqSeq + 1) }

def ptpTaskTick (p : Ptp D) (now : ℤ) (tx : Option EthTsTime) : Ptp D :=
  if p.g.haveMaster ∧ now ≥ p.nextDreqUs then
    let p := sendDelayReq p tx
    let period := if p.pathDelayN ≥ PD_MIN_SAMPLES then DELAY_REQ_MS else DELAY_REQ_FAST_MS
    { p with nextDreqUs := now + (period : ℤ) * 1000 }
  else p

/-- What reaches the PTP task: a frame, or the time to think of a Delay_Req. -/
inductive PtpEvent where
  | frame (f : EthTsPtpFrame)
  | tick (now : ℤ) (tx : Option EthTsTime)

def ptpStep (p : Ptp D) : PtpEvent → Ptp D
  | .frame f => ptpTaskFrame A p f
  | .tick now tx => ptpTaskTick p now tx

end Inferno
