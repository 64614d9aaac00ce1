import Inferno.Lib.Reconcile
import Inferno.Spec.Subscriber

/-! What the flow table is for. The subscriptions ask for a patch: for each transmitter
the local channels it feeds and the transmit channel of each. The table holds at most
one flow for a transmitter, and a rebuild brings it to the patch as far as the slots
and the answers allow. -/

namespace Inferno

open Lib

variable (prof : RateProfile) (o : Outcomes) (s : Sub)

/-- What a channel's subscription resolves to, from the cache or from the network. -/
def answer (c : Fin AP_NCH) : Option TxChannel :=
  if (s.ch c).txChannel = [] then none else (resolveCached o c (s.ch c) s).2

def feed (c : Fin AP_NCH) : Option TxChannel := (answer o s c).filter fun tx => tx.sampleRate = prof.hz

/-- Local channels, each with the transmit channel id that feeds it. -/
abbrev Carry := List (Fin AP_NCH × ℕ)

/-- What the channels of a list want from a transmitter. -/
def goalOn (l : List (Fin AP_NCH)) (d : CStr) : Carry :=
  l.filterMap fun c => if (s.ch c).txDevice = d then (feed prof o s c).map fun tx => (c, tx.txChannelId) else none

def goal (d : CStr) : Carry := goalOn prof o s (List.finRange AP_NCH) d

/-- The transmitters that get a flow: the first four that the channels of a list name. -/
def devicesOn (l : List (Fin AP_NCH)) : List CStr :=
  (((l.filter fun c => (feed prof o s c).isSome).map fun c => (s.ch c).txDevice).eraseDups).take AP_MAX_FLOWS

def wantedDevices : List CStr := devicesOn prof o s (List.finRange AP_NCH)

def Placed (c : Fin AP_NCH) : Prop := (feed prof o s c).isSome = true ∧ (s.ch c).txDevice ∈ wantedDevices prof o s

instance (c : Fin AP_NCH) : Decidable (Placed prof o s c) := inferInstanceAs (Decidable (_ ∧ _))

/-- Every channel that resolves at our rate names its transmitter. -/
def Named : Prop := ∀ c, (feed prof o s c).isSome = true → (s.ch c).txDevice ≠ []

instance : Decidable (Named prof o s) := inferInstanceAs (Decidable (∀ _, _ → _))

def FlowSlot.carry (f : FlowSlot) : Carry := f.slotToCh.zip f.req.txChannelId

def FlowSlot.entry (f : FlowSlot) : Option (CStr × Carry) := if f.state = .active then some (f.device, f.carry) else none

def flowTable : CStr → Option Carry := lookup fun i => (s.flow i).entry

/-- The outcomes of step 3, as the table sees them. -/
def attempts (k : ℕ) : Attempt where
  place := o.bind k
  beside := (o.request k false).isSome
  alone := (o.request k true).isSome

def patched : CStr → Option Carry :=
  reconcile AP_MAX_FLOWS (wantedDevices prof o s) (goal prof o s) (attempts o) (flowTable s)

/-- What becomes of the flow of a transmitter in a rebuild. -/
def flowFate (d : CStr) : Fate :=
  fateOf AP_MAX_FLOWS (wantedDevices prof o s) (goal prof o s) (attempts o) (flowTable s) d

/-- The status that the fate of its flow leaves a channel of the patch in. -/
def statusAfter (old : ArcSub) : Fate → ArcSub
  | .kept => .active
  | .stuck => old
  | .up => .active
  | .lost => .pending

end Inferno
