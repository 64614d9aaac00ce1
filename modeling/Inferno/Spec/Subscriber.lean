import Inferno.Spec.AoipRx

/-! The subscriber of `subscriber.c`: the subscription table, the flow table, the
resolve cache, and the task that reconciles the one with the other. What the network,
the sockets and the clock answer during a rebuild is an `Outcomes`; the calls a rebuild
makes are logged. Strings are the bytes before their terminating NUL. -/

namespace Inferno

def KEEPALIVE_MS : ℤ := 3000
def RETRY_MS : ℤ := 5000

abbrev CStr := List UInt8

def strncpy31 (s : CStr) : CStr := s.take 31

inductive ArcSub where
  | none
  | pending
  | active
  deriving DecidableEq, Repr

structure RxChannel where
  txChannel : CStr
  txDevice : CStr
  friendly : CStr
  status : ArcSub
  deriving DecidableEq

/-- The fields of `tx_channel_t` that the subscriber reads. -/
structure TxChannel where
  ip : ℕ
  flowPort : ℕ
  txChannelId : ℕ
  sampleRate : ℕ
  fppMin : ℕ
  fppMax : ℕ
  latencyNs : ℕ
  deriving DecidableEq

structure Resolved where
  txChannel : CStr
  txDevice : CStr
  tx : TxChannel
  valid : Bool

/-- `flow_request_t`; the channel ids are the used slots, `nslots` of them. -/
structure FlowRequest where
  txIp : ℕ
  txFlowPort : ℕ
  txChannelId : List ℕ
  fpp : ℕ
  rxPort : ℕ
  rxFlowName : String
  deriving DecidableEq

def FlowRequest.nslots (r : FlowRequest) : ℕ := r.txChannelId.length

inductive FState where
  | idle
  | active
  deriving DecidableEq, Repr

/-- `flow_slot_t`; the slot map is its used prefix. -/
structure FlowSlot where
  state : FState
  device : CStr
  req : FlowRequest
  handle : List UInt8
  slotToCh : List (Fin AP_NCH)
  nextActionUs : ℤ
  lastPackets : ℕ
  deriving DecidableEq

def FlowSlot.zero : FlowSlot where
  state := .idle
  device := []
  req := ⟨0, 0, [], 0, 0, ""⟩
  handle := []
  slotToCh := []
  nextActionUs := 0
  lastPackets := 0

structure Want where
  device : CStr
  req : FlowRequest
  slotToCh : List (Fin AP_NCH)
  done : Bool
  replaces : Option (Fin AP_MAX_FLOWS)

structure SubStats where
  requestsOk : ℕ
  requestsFailed : ℕ
  keepalivesOk : ℕ
  keepalivesLost : ℕ
  resolveFailed : ℕ
  fallbacks : ℕ

/-- The calls a rebuild makes on a flow slot. -/
inductive Call where
  | bind (i : Fin AP_MAX_FLOWS)
  | unbind (i : Fin AP_MAX_FLOWS)
  | request (i : Fin AP_MAX_FLOWS) (req : FlowRequest)
  | stop (i : Fin AP_MAX_FLOWS) (req : FlowRequest)
  deriving DecidableEq

/-- The statics of `subscriber.c`, the receive flows, and the calls made so far. -/
structure Sub where
  ch : Fin AP_NCH → RxChannel
  flow : Fin AP_MAX_FLOWS → FlowSlot
  res : Fin AP_NCH → Resolved
  rx : Fin AP_MAX_FLOWS → RxFlow
  st : SubStats
  dirty : Bool
  nextRetry : ℤ
  latencyFloorUs : ℕ
  log : List Call

/-- What the calls of one rebuild answer: the resolution of each channel, and for the
`k`-th want its bind, its request (first attempt and the one after the fallback), the
packet counter at each poll, and the clock. -/
structure Outcomes where
  resolve : Fin AP_NCH → Option TxChannel
  bind : ℕ → Bool
  request : ℕ → Bool → Option (List UInt8)
  packets : ℕ → ℕ → ℕ
  now : ℕ → ℤ

def Sub.boot : Sub where
  ch := fun _ => ⟨[], [], [], .none⟩
  flow := fun _ => FlowSlot.zero
  res := fun _ => ⟨[], [], ⟨0, 0, 0, 0, 0, 0, 0⟩, false⟩
  rx := fun _ => RxFlow.zero
  st := ⟨0, 0, 0, 0, 0, 0⟩
  dirty := true
  nextRetry := 0
  latencyFloorUs := 0
  log := []

def subscriberSet (c : Fin AP_NCH) (txChannel txDevice : CStr) (s : Sub) : Sub :=
  { s with
    ch := Function.update s.ch c
      (if txChannel = [] then { s.ch c with txChannel := [], txDevice := [], status := .none }
        else { s.ch c with
          txChannel := strncpy31 txChannel, txDevice := strncpy31 txDevice, status := .pending })
    dirty := true }

def Sub.setFlow (s : Sub) (i : Fin AP_MAX_FLOWS) (f : FlowSlot) : Sub := { s with flow := Function.update s.flow i f }

def Sub.setRx (s : Sub) (i : Fin AP_MAX_FLOWS) (f : RxFlow) : Sub := { s with rx := Function.update s.rx i f }

def Sub.call (s : Sub) (l : List Call) : Sub := { s with log := s.log ++ l }

def tearDown (i : Fin AP_MAX_FLOWS) (s : Sub) : Sub :=
  let s' := if (s.flow i).state = .active then
      (s.setRx i (aoipRxUnbindFlow (s.rx i))).call [.stop i (s.flow i).req, .unbind i]
    else s
  s'.setFlow i FlowSlot.zero

def setStatus (c : Fin AP_NCH) (st : ArcSub) (s : Sub) : Sub :=
  { s with ch := Function.update s.ch c { s.ch c with status := st } }

def setStatusIfCurrent (snap : Fin AP_NCH → RxChannel) (c : Fin AP_NCH) (st : ArcSub) (s : Sub) : Sub :=
  if (s.ch c).txChannel = (snap c).txChannel ∧ (s.ch c).txDevice = (snap c).txDevice ∧ (s.ch c).txChannel ≠ [] then
    setStatus c st s
  else s

/-- Set the status of every channel of a slot map. -/
def setStatuses (snap : Fin AP_NCH → RxChannel) (l : List (Fin AP_NCH)) (st : ArcSub) (s : Sub) : Sub :=
  l.foldl (fun s c => setStatusIfCurrent snap c st s) s

def activateSlots (snap : Fin AP_NCH → RxChannel) (f : FlowSlot) (s : Sub) : Sub :=
  setStatuses snap f.slotToCh .active s

def sameSlots (f : FlowSlot) (w : Want) : Bool := f.req.txChannelId = w.req.txChannelId ∧ f.slotToCh = w.slotToCh

def resolveCached (o : Outcomes) (c : Fin AP_NCH) (ch : RxChannel) (s : Sub) : Sub × Option TxChannel :=
  let r := s.res c
  if r.valid = true ∧ r.txChannel = ch.txChannel ∧ r.txDevice = ch.txDevice then (s, some r.tx)
  else
    match o.resolve c with
    | none => ({ s with res := Function.update s.res c { r with valid := false } }, none)
    | some tx => ({ s with res := Function.update s.res c ⟨ch.txChannel, ch.txDevice, tx, true⟩ }, some tx)

def forgetDevice (dev : CStr) (s : Sub) : Sub :=
  { s with res := fun c =>
      if (s.res c).valid = true ∧ (s.res c).txDevice = dev then { s.res c with valid := false } else s.res c }

def newWant (prof : RateProfile) (dev : CStr) (tx : TxChannel) : Want :=
  let fpp := if prof.fpp > tx.fppMax then tx.fppMax else prof.fpp
  let fpp := if fpp < tx.fppMin then tx.fppMin else fpp
  { device := dev, req := ⟨tx.ip, tx.flowPort, [], fpp, 0, ""⟩, slotToCh := [], done := false, replaces := none }

def Want.add (w : Want) (c : Fin AP_NCH) (tx : TxChannel) : Want :=
  { w with
    req := { w.req with txChannelId := w.req.txChannelId ++ [tx.txChannelId] }
    slotToCh := w.slotToCh ++ [c] }

/-- The subscriber, the want table, and the latency floor, while step 1 runs. -/
structure Wanting where
  s : Sub
  want : List Want
  floorUs : ℕ

/-- One channel of step 1. -/
def wantChannel (prof : RateProfile) (o : Outcomes) (snap : Fin AP_NCH → RxChannel) (t : Wanting)
    (c : Fin AP_NCH) : Wanting :=
  if (snap c).txChannel = [] then
    { t with s := { t.s with res := Function.update t.s.res c { t.s.res c with valid := false } } }
  else
    match resolveCached o c (snap c) t.s with
    | (s, none) =>
      let s := { s with st := { s.st with resolveFailed := u32 (s.st.resolveFailed + 1) } }
      { t with s := setStatusIfCurrent snap c .pending s }
    | (s, some tx) =>
      if tx.sampleRate ≠ prof.hz then { t with s := setStatusIfCurrent snap c .pending s }
      else
        match t.want.findIdx? fun w => w.device = (snap c).txDevice with
        | none =>
          if t.want.length ≥ AP_MAX_FLOWS then { t with s := setStatusIfCurrent snap c .pending s }
          else
            { s := s
              want := t.want ++ [(newWant prof (snap c).txDevice tx).add c tx]
              floorUs := max t.floorUs (tx.latencyNs / 1000) }
        | some w =>
          if ((t.want[w]?).elim 0 fun x => x.req.nslots) ≥ AP_MAX_CH_PER_FLOW then
            { t with s := setStatusIfCurrent snap c .pending s }
          else
            { s := s
              want := t.want.modify w fun x => x.add c tx
              floorUs := max t.floorUs (tx.latencyNs / 1000) }

/-- One flow slot of step 2. -/
def reconcileFlow (snap : Fin AP_NCH → RxChannel) (t : Sub × List Want) (i : Fin AP_MAX_FLOWS) : Sub × List Want :=
  let f := t.1.flow i
  if f.device = [] then t
  else
    match t.2.findIdx? fun w => !w.done && w.device = f.device with
    | none => (tearDown i t.1, t.2)
    | some k =>
      if f.state ≠ .active then (tearDown i t.1, t.2)
      else if (t.2[k]?).any fun w => sameSlots f w then
        (activateSlots snap f t.1, t.2.modify k fun w => { w with done := true })
      else (t.1, t.2.modify k fun w => { w with replaces := some i })

def freeSlot (s : Sub) : Option (Fin AP_MAX_FLOWS) :=
  (List.finRange AP_MAX_FLOWS).find? fun j => (s.flow j).device = []

/-- The packet counter when the wait for the new flow's audio ends: after at most a
hundred polls. -/
def awaitPackets (p : ℕ → ℕ) : ℕ :=
  p (((List.range 100).find? fun t => p t ≠ 0).getD 100)

/-- The slot a want is about to be requested in. -/
def Want.slot (w : Want) : FlowSlot :=
  { FlowSlot.zero with device := strncpy31 w.device, req := w.req, slotToCh := w.slotToCh }

def flowUp (o : Outcomes) (snap : Fin AP_NCH → RxChannel) (k : ℕ) (i : Fin AP_MAX_FLOWS) (f : FlowSlot)
    (replaces : Option (Fin AP_MAX_FLOWS)) (handle : List UInt8) (s : Sub) : Sub :=
  let f := { f with
    state := .active, handle := handle, lastPackets := 0, nextActionUs := o.now k + KEEPALIVE_MS * 1000 }
  let s := { s.setFlow i f with st := { s.st with requestsOk := u32 (s.st.requestsOk + 1) } }
  let s := match replaces with
    | some r => tearDown r (s.setRx i { s.rx i with packets := awaitPackets (o.packets k) })
    | none => s
  activateSlots snap f s

def flowRefused (snap : Fin AP_NCH → RxChannel) (i : Fin AP_MAX_FLOWS) (f : FlowSlot) (w : Want) (s : Sub) : Sub :=
  let s := { s with st := { s.st with requestsFailed := u32 (s.st.requestsFailed + 1) } }
  let s := forgetDevice w.device s
  let s := (s.setRx i (aoipRxUnbindFlow (s.rx i))).call [.unbind i]
  setStatuses snap w.slotToCh .pending (s.setFlow i { f with device := [] })

/-- The `k`-th want of step 3. -/
def requestWant (o : Outcomes) (snap : Fin AP_NCH → RxChannel) (s : Sub) (wk : Want × ℕ) : Sub :=
  let (w, k) := wk
  if w.done then s
  else
    match freeSlot s with
    | none => s
    | some i =>
      let s := s.call [.bind i]
      match aoipRxBindFlow i w.req.nslots (slotMap w.slotToCh) w.req.fpp (o.bind k) (s.rx i) with
      | (rx, none) => (s.setRx i rx).setFlow i { w.slot with device := [] }
      | (rx, some port) =>
        let f := { w.slot with
          req := { w.req with rxPort := port, rxFlowName := "rx" ++ toString (i : ℕ) } }
        let s := ((s.setRx i rx).setFlow i f).call [.request i f.req]
        match o.request k false, w.replaces with
        | some handle, replaces => flowUp o snap k i f replaces handle s
        | none, some r =>
          let s := (tearDown r s).call [.request i f.req]
          let s := { s with st := { s.st with fallbacks := u32 (s.st.fallbacks + 1) } }
          match o.request k true with
          | some handle => flowUp o snap k i f none handle s
          | none => flowRefused snap i f w s
        | none, none => flowRefused snap i f w s

def wantAll (prof : RateProfile) (o : Outcomes) (s : Sub) : Wanting :=
  (List.finRange AP_NCH).foldl (wantChannel prof o s.ch) ⟨s, [], 0⟩

def rebuild (prof : RateProfile) (o : Outcomes) (s : Sub) : Sub :=
  let t := wantAll prof o s
  let u := (List.finRange AP_MAX_FLOWS).foldl (reconcileFlow s.ch) ({ t.s with latencyFloorUs := t.floorUs }, t.want)
  u.2.zipIdx.foldl (requestWant o s.ch) u.1

def anyPending (s : Sub) : Bool := decide (∃ c, (s.ch c).txChannel ≠ [] ∧ (s.ch c).status ≠ .active)

/-- The first half of `sub_task`'s loop body: rebuild when something changed, or when a
retry is due. -/
def subCheck (prof : RateProfile) (o : Outcomes) (now t : ℤ) (s : Sub) : Sub :=
  if s.dirty then { rebuild prof o { s with dirty := false } with nextRetry := t + RETRY_MS * 1000 }
  else if now ≥ s.nextRetry ∧ anyPending s = true then
    { rebuild prof o s with nextRetry := t + RETRY_MS * 1000 }
  else s

/-- The second half for one slot, when its packet counter reads `pk`. -/
def livenessFlow (now : ℤ) (pk : Fin AP_MAX_FLOWS → ℕ) (s : Sub) (i : Fin AP_MAX_FLOWS) : Sub :=
  let f := s.flow i
  if f.state ≠ .active ∨ now < f.nextActionUs then s
  else if pk i ≠ f.lastPackets then
    let s := s.setFlow i { f with lastPackets := pk i, nextActionUs := now + KEEPALIVE_MS * 1000 }
    { s with st := { s.st with keepalivesOk := u32 (s.st.keepalivesOk + 1) } }
  else
    let s := { s with st := { s.st with keepalivesLost := u32 (s.st.keepalivesLost + 1) } }
    { tearDown i (forgetDevice f.device s) with dirty := true }

def subLiveness (now : ℤ) (pk : Fin AP_MAX_FLOWS → ℕ) (s : Sub) : Sub :=
  (List.finRange AP_MAX_FLOWS).foldl (livenessFlow now pk) s

/-- What moves the subscriber: a controller's patch, a forced refresh, and the two
halves of the task's loop body. -/
inductive SubEvent where
  | set (c : Fin AP_NCH) (txChannel txDevice : CStr)
  | refresh
  | check (o : Outcomes) (now t : ℤ)
  | liveness (now : ℤ) (pk : Fin AP_MAX_FLOWS → ℕ)

def subStep (prof : RateProfile) (s : Sub) : SubEvent → Sub
  | .set c txChannel txDevice => subscriberSet c txChannel txDevice s
  | .refresh => { s with dirty := true }
  | .check o now t => subCheck prof o now t s
  | .liveness now pk => subLiveness now pk s

end Inferno
