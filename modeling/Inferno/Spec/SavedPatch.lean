import Inferno.Spec.ChannelNames

/-! The subscriptions in NVS: `save` and `load` of `subscriber.c` on the name arrays of the
channels, over the calls that save and the resets that load. -/

namespace Inferno

open Lib

structure ChannelArrays where
  names : ChannelNames
  friendly : CharArray 31
  status : ArcSub

def argStr (p : List UInt8) : CStr := p.takeWhile fun c => decide (c ≠ 0)

/-- `sizeof(saved_ch_t)`. -/
def SAVED_CH_LEN : ℕ := 96

/-- A channel of `save`: whole arrays, with what lies behind the strings. -/
def savedCh (a : ChannelArrays) : List UInt8 := a.names.txChannel.bytes ++ (a.names.txDevice.bytes ++ a.friendly.bytes)

def saveBlob (t : Fin AP_NCH → ChannelArrays) : List UInt8 := (List.finRange AP_NCH).flatMap fun c => savedCh (t c)

/-- The 32 bytes at `i`, with a NUL stored over the last. -/
def fieldAt (blob : List UInt8) (i : ℕ) : CharArray 31 where
  bytes := padded 31 (blob.drop i) ++ [0]
  size := by rw [List.length_append, padded_length, List.length_singleton]
  ended := by rw [List.getElem?_append_right (padded_length _ _).le, padded_length, Nat.sub_self, List.getElem?_cons_zero]

/-- `load` of what NVS holds under the key; a blob of another size is left alone. -/
def loadBlob (blob : List UInt8) (t : Fin AP_NCH → ChannelArrays) : Fin AP_NCH → ChannelArrays :=
  if blob.length ≠ AP_NCH * SAVED_CH_LEN then t
  else fun c =>
    let i := SAVED_CH_LEN * c
    let friendly := fieldAt blob (i + 64)
    { names := ⟨fieldAt blob i, fieldAt blob (i + 32)⟩
      friendly := if friendly.str ≠ [] then friendly else (t c).friendly
      status := if (fieldAt blob i).str ≠ [] then .pending else .none }

def zeroArray : CharArray 31 := ⟨List.replicate 32 0, rfl, rfl⟩

/-- The statics as `subscriber_start` leaves them before `load`: names of one digit. -/
def bootChannels (c : Fin AP_NCH) : ChannelArrays :=
  ⟨⟨zeroArray, zeroArray⟩, zeroArray.strncpy [UInt8.ofNat (48 + (c + 1))], .none⟩

/-- The NVS calls of a `save`, and whether its blob is in flash in the end. -/
structure SaveTry where
  opens : Bool
  lands : Bool
  deriving DecidableEq

structure PatchSys where
  ch : Fin AP_NCH → ChannelArrays
  flash : Option (List UInt8)

def PatchSys.save (s : PatchSys) (t : SaveTry) : PatchSys :=
  { s with flash := if t.opens ∧ t.lands then some (saveBlob s.ch) else s.flash }

def PatchSys.reset (s : PatchSys) (readable : Bool) : PatchSys :=
  { s with ch := if readable then (s.flash.map fun blob => loadBlob blob bootChannels).getD bootChannels else bootChannels }

/-- `task` is whatever the subscriber task makes of the statuses. -/
inductive PatchEvent where
  | set (c : ℕ) (txChannel txDevice : List UInt8) (t : SaveTry)
  | rename (c : ℕ) (friendly : List UInt8) (t : SaveTry)
  | task (status : Fin AP_NCH → ArcSub)
  | reset (readable : Bool)

def patchStep (s : PatchSys) : PatchEvent → PatchSys
  | .set c txChannel txDevice t =>
    if h : c < AP_NCH then
      let a := s.ch ⟨c, h⟩
      let a := { a with
        names := a.names.store (argStr txChannel) (argStr txDevice)
        status := if argStr txChannel = [] then .none else .pending }
      { s with ch := Function.update s.ch ⟨c, h⟩ a }.save t
    else s
  | .rename c friendly t =>
    if h : c < AP_NCH then
      let a := s.ch ⟨c, h⟩
      { s with ch := Function.update s.ch ⟨c, h⟩ { a with friendly := a.friendly.strncpy (argStr friendly) } }.save t
    else s
  | .task status => { s with ch := fun c => { s.ch c with status := status c } }
  | .reset readable => s.reset readable

/-- A run after the first boot, on whatever NVS holds. -/
def patchRun (flash : Option (List UInt8)) (readable : Bool) (l : List PatchEvent) : PatchSys :=
  l.foldl patchStep (PatchSys.reset ⟨bootChannels, flash⟩ readable)

/-- A channel as its user knows it. -/
structure PatchRow where
  channel : CStr
  device : CStr
  name : CStr
  deriving DecidableEq

def ChannelArrays.row (a : ChannelArrays) : PatchRow := ⟨a.names.txChannel.str, a.names.txDevice.str, a.friendly.str⟩

/-- The patch in force, and the one that survives a reset. -/
structure PatchBook where
  now : Fin AP_NCH → PatchRow
  kept : Option (Fin AP_NCH → PatchRow)

def unpatched (c : Fin AP_NCH) : PatchRow := (bootChannels c).row

/-- A channel kept without a name gets its number again. -/
def PatchRow.named (r : PatchRow) (c : Fin AP_NCH) : PatchRow :=
  if r.name = [] then { r with name := (unpatched c).name } else r

def PatchBook.write (x : PatchBook) (c : ℕ) (f : PatchRow → PatchRow) (t : SaveTry) : PatchBook :=
  if h : c < AP_NCH then
    let now := Function.update x.now ⟨c, h⟩ (f (x.now ⟨c, h⟩))
    ⟨now, if t.opens ∧ t.lands then some now else x.kept⟩
  else x

def PatchBook.reset (x : PatchBook) (readable : Bool) : PatchBook :=
  { x with now := if readable then (x.kept.map fun k c => (k c).named c).getD unpatched else unpatched }

def bookStep (x : PatchBook) : PatchEvent → PatchBook
  | .set c txChannel txDevice t =>
    x.write c (fun r =>
      if argStr txChannel = [] then { r with channel := [], device := [] }
      else { r with channel := strncpy31 (argStr txChannel), device := strncpy31 (argStr txDevice) }) t
  | .rename c friendly t => x.write c (fun r => { r with name := strncpy31 (argStr friendly) }) t
  | .task _ => x
  | .reset readable => x.reset readable

def readBlob (blob : List UInt8) : Option (Fin AP_NCH → PatchRow) :=
  if blob.length ≠ AP_NCH * SAVED_CH_LEN then none
  else some fun c =>
    let i := SAVED_CH_LEN * c
    ⟨(fieldAt blob i).str, (fieldAt blob (i + 32)).str, (fieldAt blob (i + 64)).str⟩

def bookRun (flash : Option (List UInt8)) (readable : Bool) (l : List PatchEvent) : PatchBook :=
  l.foldl bookStep (PatchBook.reset ⟨unpatched, flash.bind readBlob⟩ readable)

end Inferno
