import Inferno.Spec.Subscriber

/-! Patches and the subscriber task interleaved. A `subscriber_set` is three steps under
`s_lock`; the task reads and clears `s_dirty` without it, and takes it once for the
snapshot and twice for each status: to judge the channel current, and to write. -/

namespace Inferno

structure SetCall where
  c : Fin AP_NCH
  txChannel : CStr
  txDevice : CStr
  deriving DecidableEq

def SetCall.write (x : SetCall) (ch : Fin AP_NCH → RxChannel) : Fin AP_NCH → RxChannel :=
  Function.update ch x.c
    (if x.txChannel = [] then { ch x.c with txChannel := [], txDevice := [], status := .none }
      else { ch x.c with
        txChannel := strncpy31 x.txChannel, txDevice := strncpy31 x.txDevice, status := .pending })

/-- Where the task is: at the top of its loop, past reading a set flag, on its way into
`rebuild`, inside it, or between judging a channel current and writing its status. -/
inductive TaskPc where
  | top
  | sawDirty
  | entering
  | rebuilding
  | writing (c : Fin AP_NCH) (st : ArcSub)
  deriving DecidableEq

/-- The table, the flag, the `subscriber_set` that holds the lock and whether it has set
the flag, the task, the last snapshot, and the calls completed so far. -/
structure SubRace where
  ch : Fin AP_NCH → RxChannel
  dirty : Bool
  lock : Option (SetCall × Bool)
  pc : TaskPc
  snap : Fin AP_NCH → RxChannel
  sets : List SetCall

/-- `load`: what was saved, and the status that goes with it. -/
def loadTable (sv : Fin AP_NCH → CStr × CStr × CStr) : Fin AP_NCH → RxChannel := fun c =>
  { txChannel := strncpy31 (sv c).1
    txDevice := strncpy31 (sv c).2.1
    friendly := (sv c).2.2
    status := if strncpy31 (sv c).1 ≠ [] then .pending else .none }

def SubRace.start (sv : Fin AP_NCH → CStr × CStr × CStr) : SubRace where
  ch := loadTable sv
  dirty := true
  lock := none
  pc := .top
  snap := loadTable sv
  sets := []

/-- One atomic step of a `subscriber_set`, of a forced refresh, or of the task. -/
inductive SubRaceStep where
  | setWrite (x : SetCall)
  | setFlag
  | setGive
  | refresh
  | readDirty
  | clearDirty
  | retry
  | snapshot
  | check (c : Fin AP_NCH) (up : Bool)
  | write
  | finish
  | liveness (died : Bool)
  deriving DecidableEq

/-- `set_status_if_current` finds the subscription still the one of the snapshot. -/
def SubRace.current (s : SubRace) (c : Fin AP_NCH) : Prop :=
  (s.ch c).txChannel = (s.snap c).txChannel ∧ (s.ch c).txDevice = (s.snap c).txDevice ∧ (s.ch c).txChannel ≠ []

instance (s : SubRace) (c : Fin AP_NCH) : Decidable (s.current c) := inferInstanceAs (Decidable (_ ∧ _ ∧ _))

def statusOf (up : Bool) : ArcSub := if up then .active else .pending

/-- A step that has to wait for the lock, or is not the task's next, changes nothing. -/
def SubRace.next (s : SubRace) : SubRaceStep → SubRace
  | .setWrite x => if s.lock = none then { s with ch := x.write s.ch, lock := some (x, false) } else s
  | .setFlag =>
    match s.lock with
    | some (x, false) => { s with dirty := true, lock := some (x, true) }
    | _ => s
  | .setGive =>
    match s.lock with
    | some (x, true) => { s with lock := none, sets := s.sets ++ [x] }
    | _ => s
  | .refresh => { s with dirty := true }
  | .readDirty => if s.pc = .top ∧ s.dirty = true then { s with pc := .sawDirty } else s
  | .clearDirty => if s.pc = .sawDirty then { s with dirty := false, pc := .entering } else s
  | .retry => if s.pc = .top then { s with pc := .entering } else s
  | .snapshot => if s.pc = .entering ∧ s.lock = none then { s with snap := s.ch, pc := .rebuilding } else s
  | .check c up =>
    if s.pc = .rebuilding ∧ s.lock = none ∧ s.current c then { s with pc := .writing c (statusOf up) } else s
  | .write =>
    match s.pc with
    | .writing c st =>
      if s.lock = none then
        { s with ch := Function.update s.ch c { s.ch c with status := st }, pc := .rebuilding }
      else s
    | _ => s
  | .finish => if s.pc = .rebuilding then { s with pc := .top } else s
  | .liveness died => if s.pc = .top ∧ died = true then { s with dirty := true } else s

def subRaceRun (sv : Fin AP_NCH → CStr × CStr × CStr) (l : List SubRaceStep) : SubRace :=
  l.foldl SubRace.next (SubRace.start sv)

end Inferno
