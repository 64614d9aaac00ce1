import Inferno.Lib.Trace
import Inferno.Spec.Subscriber

/-! The states that a rebuild passes through. A call that blocks lets the receiver and
the other tasks run, so what a rebuild leaves behind is not all that it does: each state
between two calls of `rebuild` is listed here, the polls of the packet counter included. -/

namespace Inferno

open Lib

def tearDownMoments (i : Fin AP_MAX_FLOWS) (s : Sub) : List Sub :=
  if (s.flow i).state = .active then
    let stopped := s.call [.stop i (s.flow i).req]
    [stopped, (stopped.setRx i (aoipRxUnbindFlow (s.rx i))).call [.unbind i], tearDown i s]
  else [tearDown i s]

/-- How many polls of the packet counter come before the last. -/
def awaitPolls (p : ℕ → ℕ) : ℕ := ((List.range 100).find? fun t => p t ≠ 0).getD 100

/-- Flow `i` at each poll while its first packet is waited for. -/
def awaitMoments (p : ℕ → ℕ) (i : Fin AP_MAX_FLOWS) (s : Sub) : List Sub :=
  (List.range (awaitPolls p + 1)).map fun t => s.setRx i { s.rx i with packets := p t }

def flowUpMoments (o : Outcomes) (snap : Fin AP_NCH → RxChannel) (k : ℕ) (i : Fin AP_MAX_FLOWS) (f : FlowSlot)
    (replaces : Option (Fin AP_MAX_FLOWS)) (handle : List UInt8) (s : Sub) : List Sub :=
  let f := { f with
    state := .active, handle := handle, lastPackets := 0, nextActionUs := o.now k + KEEPALIVE_MS * 1000 }
  let up := { s.setFlow i f with st := { s.st with requestsOk := u32 (s.st.requestsOk + 1) } }
  match replaces with
  | some r =>
    let heard := up.setRx i { up.rx i with packets := awaitPackets (o.packets k) }
    up :: awaitMoments (o.packets k) i up ++ tearDownMoments r heard ++ [activateSlots snap f (tearDown r heard)]
  | none => [up, activateSlots snap f up]

def flowRefusedMoments (snap : Fin AP_NCH → RxChannel) (i : Fin AP_MAX_FLOWS) (f : FlowSlot) (w : Want) (s : Sub) :
    List Sub :=
  let s := { s with st := { s.st with requestsFailed := u32 (s.st.requestsFailed + 1) } }
  let forgot := forgetDevice w.device s
  let unbound := (forgot.setRx i (aoipRxUnbindFlow (forgot.rx i))).call [.unbind i]
  let free := unbound.setFlow i { f with device := [] }
  [forgot, unbound, free, setStatuses snap w.slotToCh .pending free]

def requestMoments (o : Outcomes) (snap : Fin AP_NCH → RxChannel) (s : Sub) (wk : Want × ℕ) : List Sub :=
  let (w, k) := wk
  if w.done then []
  else
    match freeSlot s with
    | none => []
    | some i =>
      let filled := s.setFlow i w.slot
      let s := s.call [.bind i]
      match aoipRxBindFlow i w.req.nslots (slotMap w.slotToCh) w.req.fpp (o.bind k) (s.rx i) with
      | (rx, none) => [filled, (s.setRx i rx).setFlow i { w.slot with device := [] }]
      | (rx, some port) =>
        let f := { w.slot with
          req := { w.req with rxPort := port, rxFlowName := "rx" ++ toString (i : ℕ) } }
        let bound := (s.setRx i rx).setFlow i f
        let s := bound.call [.request i f.req]
        filled :: bound :: s ::
          match o.request k false, w.replaces with
          | some handle, replaces => flowUpMoments o snap k i f replaces handle s
          | none, some r =>
            let again := (tearDown r s).call [.request i f.req]
            let again := { again with st := { again.st with fallbacks := u32 (again.st.fallbacks + 1) } }
            tearDownMoments r s ++ again ::
              match o.request k true with
              | some handle => flowUpMoments o snap k i f none handle again
              | none => flowRefusedMoments snap i f w again
          | none, none => flowRefusedMoments snap i f w s

/-- The states within `reconcileFlow`, and the want table that goes with each of them. -/
def reconcileMoments (snap : Fin AP_NCH → RxChannel) (t : Sub × List Want) (i : Fin AP_MAX_FLOWS) :
    List (Sub × List Want) :=
  let f := t.1.flow i
  if f.device = [] then []
  else
    match t.2.findIdx? fun w => !w.done && w.device = f.device with
    | none => (tearDownMoments i t.1).map (·, t.2)
    | some _ =>
      if f.state ≠ .active then (tearDownMoments i t.1).map (·, t.2)
      else [reconcileFlow snap t i]

/-- The states that a rebuild passes through, in order: the channels resolved one after
another, the flows reconciled, the wants requested. -/
def rebuildMoments (prof : RateProfile) (o : Outcomes) (s : Sub) : List Sub :=
  let t := wantAll prof o s
  let want := ({ t.s with latencyFloorUs := t.floorUs }, t.want)
  let u := (List.finRange AP_MAX_FLOWS).foldl (reconcileFlow s.ch) want
  (passes (wantChannel prof o s.ch) (fun t c => [wantChannel prof o s.ch t c]) ⟨s, [], 0⟩ (List.finRange AP_NCH)).map (·.s) ++
    want.1 :: (passes (reconcileFlow s.ch) (reconcileMoments s.ch) want (List.finRange AP_MAX_FLOWS)).map (·.1) ++
    passes (requestWant o s.ch) (requestMoments o s.ch) u.1 u.2.zipIdx

end Inferno
