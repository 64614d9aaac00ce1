import Inferno.Spec.Config

/-! The receive watchdog of `eth_ts.c`, one turn of its loop every 250 ms. -/

namespace Inferno

/-- What a turn reads: the frame count, the link, the receive DMA's state, the drops
since the last read, and two fields of `emacdebug`. -/
structure RxSample where
  frames : ℕ
  linkUp : Bool
  dmaState : ℕ
  missed : ℕ
  overflow : ℕ
  rfrcs : ℕ
  rffls : ℕ
  deriving DecidableEq, Repr

/-- The DMA waits for a frame and nothing was dropped. -/
def RxSample.healthy (s : RxSample) : Bool := s.dmaState == 3 && s.missed == 0 && s.overflow == 0

/-- The read controller is stuck on a frame's status, the FIFO full. -/
def RxSample.fifoHang (s : RxSample) : Bool := s.rfrcs == 2 && s.rffls == 3

/-- The locals of `rx_watchdog_task` and the counters it keeps. `idleMs` is an `int`
that only a silence of 24 days would overflow. -/
structure RxWatchdog where
  last : ℕ
  idleMs : ℕ
  quiet : Bool
  rxDmaState : ℕ
  rxMissed : ℕ
  rxFifoOvf : ℕ
  rxKicks : ℕ
  rxRestarts : ℕ
  phyResets : ℕ
  fifoHangReboots : ℕ
  rebooted : Bool
  deriving DecidableEq, Repr

/-- What a turn does about a silence. -/
inductive RxAction where
  | kick
  | reboot
  | restart
  | phyReset
  deriving DecidableEq, Repr

/-- As the task starts: the frames counted so far, and the reboots counted before. -/
def rxWatchdogStart (frames reboots : ℕ) : RxWatchdog where
  last := frames
  idleMs := 0
  quiet := false
  rxDmaState := 0
  rxMissed := 0
  rxFifoOvf := 0
  rxKicks := 0
  rxRestarts := 0
  phyResets := 0
  fifoHangReboots := reboots
  rebooted := false

/-- A turn without a frame while the link is up. -/
def RxWatchdog.idle (w : RxWatchdog) (s : RxSample) : Bool := s.frames == w.last && s.linkUp

def rxDiagnose (w : RxWatchdog) (s : RxSample) : RxWatchdog :=
  if w.idleMs = 1000 then
    { w with
      rxDmaState := s.dmaState
      rxMissed := u32 (w.rxMissed + s.missed)
      rxFifoOvf := u32 (w.rxFifoOvf + s.overflow)
      quiet := s.healthy }
  else w

/-- The escalation: a kick, a reboot out of the FIFO hang, a restart of the EMAC, a
reset of the PHY. -/
def rxEscalate (w : RxWatchdog) (s : RxSample) : RxWatchdog × Option RxAction :=
  if w.quiet && decide (w.idleMs > 2000) then (w, none)
  else if w.idleMs = 1000 ∨ w.idleMs = 2000 then ({ w with rxKicks := u32 (w.rxKicks + 1) }, some .kick)
  else if w.idleMs = 3000 ∧ s.fifoHang then
    ({ w with fifoHangReboots := u32 (w.fifoHangReboots + 1), rebooted := true }, some .reboot)
  else if w.idleMs = 4000 then ({ w with rxRestarts := u32 (w.rxRestarts + 1) }, some .restart)
  else if w.idleMs ≥ 8000 then ({ w with phyResets := u32 (w.phyResets + 1), idleMs := 0 }, some .phyReset)
  else (w, none)

/-- One turn of `rx_watchdog_task`; after a reboot there is none. -/
def rxWatchdogTurn (w : RxWatchdog) (s : RxSample) : RxWatchdog × Option RxAction :=
  if w.rebooted then (w, none)
  else if !w.idle s then ({ w with last := s.frames, idleMs := 0, quiet := false }, none)
  else rxEscalate (rxDiagnose { w with idleMs := w.idleMs + 250 } s) s

end Inferno
