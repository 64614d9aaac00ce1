import Inferno.Spec.AudioRx

/-! The flow keepalive of `aoip_rx.c`: the receive path latches the source of a flow and
flags the keepalive task, which sends to every latched source, while the subscriber opens
and closes flows. Each access to what the tasks share is a step of its own. -/

namespace Inferno

def KEEPALIVE_US : ℤ := 250000

def kaDatagram (secs : UInt32) : List UInt8 :=
  [0x02, 0x00, 0x00, 0x00, secs.toUInt8, (secs >>> 8).toUInt8, (secs >>> 16).toUInt8, (secs >>> 24).toUInt8]

/-- The next store of a latch under way. -/
inductive LatchPc where
  | addr
  | port
  | flag
  | now
  deriving DecidableEq, Repr

/-- A first packet of flow `i`, on its way into `src`, `have_src` and `s_ka_now`. -/
structure Latch where
  i : Fin AP_MAX_FLOWS
  ip : List UInt8
  sport : ℕ
  pc : LatchPc
  deriving DecidableEq, Repr

structure BindArgs where
  nslots : ℕ
  map : ℕ → ℤ
  fpp : ℕ

/-- The next step of an unbind or bind under way. -/
inductive SubPc where
  | close
  | socket
  | fill
  | activate
  deriving DecidableEq, Repr

structure SubCall where
  i : Fin AP_MAX_FLOWS
  args : Option BindArgs
  pc : SubPc

/-- Where `ka_task` is: at its loop's check, past it, or in `send_keepalives` at flow `i`,
about to read `active`, `sock` or `have_src`, or to send. -/
inductive KaPc where
  | waiting
  | clear (now : ℤ)
  | active (now : ℤ) (secs : UInt32) (i : ℕ)
  | sock (now : ℤ) (secs : UInt32) (i : ℕ)
  | haveSrc (now : ℤ) (secs : UInt32) (i : ℕ)
  | send (now : ℤ) (secs : UInt32) (i : ℕ)

/-- The tasks over the receive flows. The two latches are those of the fast path and of
the socket path. `checked` is when the loop last looked, `passes` when it sent, the
latest first, and `sent` is what went out. `told i` is how many passes had begun at the last
attempt since flow `i`'s source was latched, and `early i` when flow `i` opened with a source
already latched. -/
structure KaSys where
  rx : AoipRx
  latch : Bool → Option Latch
  sub : Option SubCall
  ka : KaPc
  nextKa : ℤ
  kaSent : ℕ
  kaFailed : ℕ
  checked : ℤ
  passes : List ℤ
  sent : List ((List UInt8 × ℕ) × List UInt8)
  told : Fin AP_MAX_FLOWS → Option ℕ
  early : Fin AP_MAX_FLOWS → Option ℕ

def kaStart : KaSys where
  rx := aoipRxStart
  latch := fun _ => none
  sub := none
  ka := .waiting
  nextKa := 0
  kaSent := 0
  kaFailed := 0
  checked := 0
  passes := []
  sent := []
  told := fun _ => none
  early := fun _ => none

inductive KaStep where
  | packet (b : Bool) (i : Fin AP_MAX_FLOWS) (ip : List UInt8) (sport : ℕ)
  | latch (b : Bool)
  | call (i : Fin AP_MAX_FLOWS) (args : Option BindArgs)
  | sub (ok : Bool)
  | check (now : ℤ)
  | ka (secs : UInt32) (ok : Bool)

def KaSys.setFlow (s : KaSys) (i : Fin AP_MAX_FLOWS) (fl : RxFlow) : KaSys := { s with rx := s.rx.setFlow i fl }

def latchStep (s : KaSys) (b : Bool) (x : Latch) : KaSys :=
  match x.pc with
  | .addr =>
    { s with
      rx := { s.rx with src := Function.update s.rx.src x.i (x.ip, (s.rx.src x.i).2) }
      latch := Function.update s.latch b (some { x with pc := .port }) }
  | .port =>
    { s with
      rx := { s.rx with src := Function.update s.rx.src x.i ((s.rx.src x.i).1, x.sport) }
      latch := Function.update s.latch b (some { x with pc := .flag }) }
  | .flag =>
    { s.setFlow x.i { s.rx.flows x.i with haveSrc := true } with
      latch := Function.update s.latch b (some { x with pc := .now })
      told := Function.update s.told x.i none
      early := Function.update s.early x.i none }
  | .now =>
    { s with
      rx := { s.rx with kaNow := true }
      latch := Function.update s.latch b none }

/-- What a bind writes into flow `i` while it is closed. -/
def filled (i : ℕ) (a : BindArgs) (f : RxFlow) : RxFlow :=
  { f with
    nslots := a.nslots
    slotToCh := fun k => if k < a.nslots then a.map k else -1
    fpp := a.fpp
    port := u16 (AOIP_RX_AUDIO_PORT + i)
    packets := 0
    missed := 0
    haveNext := false
    haveSrc := false }

/-- A step of `aoip_rx_unbind_flow` or `aoip_rx_bind_flow`; `ok` is whether the socket
opens and binds. -/
def subCallStep (s : KaSys) (ok : Bool) (x : SubCall) : KaSys :=
  match x.pc with
  | .close =>
    { s.setFlow x.i { s.rx.flows x.i with sock := false } with sub := x.args.map fun _ => { x with pc := .socket } }
  | .socket =>
    if ok then { s.setFlow x.i { s.rx.flows x.i with sock := true } with sub := some { x with pc := .fill } }
    else { s with sub := none }
  | .fill =>
    match x.args with
    | none => s
    | some a =>
      { s.setFlow x.i (filled x.i a (s.rx.flows x.i)) with sub := some { x with pc := .activate } }
  | .activate =>
    { s.setFlow x.i { s.rx.flows x.i with active := true } with
      sub := none
      -- a packet of the flow this one replaces may still latch behind the reset above
      early := Function.update s.early x.i (if (s.rx.flows x.i).haveSrc then some s.passes.length else none) }

/-- A step of `ka_task` behind its check; `ok` is whether `sendto` sends the datagram. -/
def kaTaskStep (s : KaSys) (secs : UInt32) (ok : Bool) : KaSys :=
  match s.ka with
  | .waiting => s
  | .clear now => { s with rx := { s.rx with kaNow := false }, ka := .active now secs 0 }
  | .active now secs i =>
    if h : i < AP_MAX_FLOWS then
      if (s.rx.flows ⟨i, h⟩).active then { s with ka := .sock now secs i } else { s with ka := .active now secs (i + 1) }
    else { s with ka := .waiting, nextKa := now + KEEPALIVE_US }
  | .sock now secs i =>
    if h : i < AP_MAX_FLOWS then
      if (s.rx.flows ⟨i, h⟩).sock then { s with ka := .haveSrc now secs i } else { s with ka := .active now secs (i + 1) }
    else s
  | .haveSrc now secs i =>
    if h : i < AP_MAX_FLOWS then
      if (s.rx.flows ⟨i, h⟩).haveSrc then { s with ka := .send now secs i } else { s with ka := .active now secs (i + 1) }
    else s
  | .send now secs i =>
    if h : i < AP_MAX_FLOWS then
      { s with
        ka := .active now secs (i + 1)
        kaSent := if ok then u32 (s.kaSent + 1) else s.kaSent
        kaFailed := if ok then s.kaFailed else u32 (s.kaFailed + 1)
        sent := if ok then s.sent ++ [(s.rx.src ⟨i, h⟩, kaDatagram secs)] else s.sent
        told := Function.update s.told ⟨i, h⟩ (some s.passes.length) }
    else s

def kaNext (s : KaSys) : KaStep → KaSys
  | .packet b i ip sport =>
    if s.latch b = none ∧ (s.rx.flows i).active ∧ (s.rx.flows i).sock ∧ (s.rx.flows i).haveSrc = false then
      { s with latch := Function.update s.latch b (some ⟨i, ip, sport, .addr⟩) }
    else s
  | .latch b =>
    match s.latch b with
    | none => s
    | some x => latchStep s b x
  | .call i args =>
    match s.sub with
    | some _ => s
    | none =>
      if ∃ a, args = some a ∧ (a.nslots = 0 ∨ a.nslots > AP_MAX_CH_PER_FLOW) then s
      else { s.setFlow i { s.rx.flows i with active := false } with sub := some ⟨i, args, .close⟩ }
  | .sub ok =>
    match s.sub with
    | none => s
    | some x => subCallStep s ok x
  | .check now =>
    match s.ka with
    | .waiting =>
      if s.rx.kaNow ∨ now ≥ s.nextKa then { s with ka := .clear now, checked := now, passes := now :: s.passes }
      else { s with checked := now }
    | _ => s
  | .ka secs ok => kaTaskStep s secs ok

end Inferno
