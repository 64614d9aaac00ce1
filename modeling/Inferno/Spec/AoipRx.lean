import Inferno.Spec.Wire

/-! The receive flows of `aoip_rx.c`, as the subscriber opens and closes them. -/

namespace Inferno

/-- `flow_t`. A slot map beyond `nslots` reads `-1`. -/
structure RxFlow where
  sock : Bool
  active : Bool
  nslots : ℕ
  slotToCh : ℕ → ℤ
  fpp : ℕ
  port : ℕ
  packets : ℕ
  missed : ℕ
  nextIdx : ℤ
  haveNext : Bool
  haveSrc : Bool

/-- `aoip_rx_start`: no socket, everything else zero. -/
def RxFlow.zero : RxFlow where
  sock := false
  active := false
  nslots := 0
  slotToCh := fun _ => 0
  fpp := 0
  port := 0
  packets := 0
  missed := 0
  nextIdx := 0
  haveNext := false
  haveSrc := false

/-- A map of local channels as the wire slots see it. -/
def slotMap (l : List (Fin AP_NCH)) : ℕ → ℤ := fun k => (l[k]?).elim (-1) fun c => (c : ℕ)

def aoipRxUnbindFlow (f : RxFlow) : RxFlow := { f with active := false, sock := false }

/-- `aoip_rx_bind_flow` on flow `idx`; `ok` is whether the socket opens and binds. On
success the port is returned. -/
def aoipRxBindFlow (idx nslots : ℕ) (slotToCh : ℕ → ℤ) (fpp : ℕ) (ok : Bool) (f : RxFlow) : RxFlow × Option ℕ :=
  if nslots = 0 ∨ nslots > AP_MAX_CH_PER_FLOW then (f, none)
  else if !ok then (aoipRxUnbindFlow f, none)
  else
    ({ aoipRxUnbindFlow f with
        sock := true
        nslots := nslots
        slotToCh := fun k => if k < nslots then slotToCh k else -1
        fpp := fpp
        port := u16 (AOIP_RX_AUDIO_PORT + idx)
        packets := 0
        missed := 0
        haveNext := false
        haveSrc := false
        active := true }, some (u16 (AOIP_RX_AUDIO_PORT + idx)))

def aoipRxRemapFlow (nslots : ℕ) (slotToCh : ℕ → ℤ) (f : RxFlow) : RxFlow × Bool :=
  if nslots = 0 ∨ nslots > AP_MAX_CH_PER_FLOW then (f, false)
  else if !f.active then (f, false)
  else ({ f with nslots := nslots, slotToCh := fun k => if k < nslots then slotToCh k else -1 }, true)

end Inferno
