import Inferno.Spec.EthTx

/-! The sample rate of `rate.c`: chosen once at boot from the build, the selection pin and
NVS, and stored in NVS for the next boot when a controller asks. -/

namespace Inferno

def ESP_ERR_INVALID_ARG : EspErr := .other 0x102
def ESP_ERR_NOT_SUPPORTED : EspErr := .other 0x106

def profileRates : List ℕ := [AP_RATE_48K, AP_RATE_96K]

def rateSupported (hz : ℕ) : Bool := profileRates.any fun r => r == hz

/-- `AP_RATE_DEFAULT`, `AP_RATE_PINNED` and whether there is an `AP_PIN_RATE_SEL`. A build
with another default stops in `rate_select`. -/
structure RateBuild where
  default : ℕ
  pinned : Bool
  hasPin : Bool
  supported : rateSupported default = true

/-- The NVS calls of a write, and whether its value is in flash in spite of an error. -/
structure NvsTry where
  opens : EspErr
  sets : EspErr
  commits : EspErr
  lands : Bool
  deriving DecidableEq, Repr

def nvsRate (readable : Bool) (stored : Option ℕ) : ℕ := if readable then stored.getD 0 else 0

def rateRequest (b : RateBuild) (hz : ℕ) (t : NvsTry) (stored : Option ℕ) : EspErr × Option ℕ :=
  if b.pinned then (ESP_ERR_NOT_SUPPORTED, stored)
  else if !rateSupported hz then (ESP_ERR_INVALID_ARG, stored)
  else if t.opens ≠ .ok then (t.opens, stored)
  else
    let err := if t.sets = .ok then t.commits else t.sets
    (err, if err = .ok ∨ t.lands then some hz else stored)

/-- The rate the selection pin asks for; `none` is a pin that `gpio_config` refuses. -/
def pinRate (b : RateBuild) (pin : Option Bool) : ℕ :=
  if !b.hasPin then b.default
  else
    match pin with
    | none => b.default
    | some level => if b.pinned then b.default else if level then AP_RATE_48K else AP_RATE_96K

/-- `want` of `rate_select`, before the profiles are searched for it. -/
def rateWanted (b : RateBuild) (pin : Option Bool) (readable : Bool) (stored : Option ℕ) : ℕ :=
  let want := pinRate b pin
  if b.pinned then want
  else
    let v := nvsRate readable stored
    if v ≠ 0 ∧ rateSupported v then v else want

/-- `rate_select`; `none` is its error. -/
def rateSelect (b : RateBuild) (pin : Option Bool) (readable : Bool) (stored : Option ℕ) : Option RateProfile :=
  let want := rateWanted b pin readable stored
  if rateSupported want then some (rateProfile want) else none

theorem pinRate_supported (b : RateBuild) (pin : Option Bool) : rateSupported (pinRate b pin) = true := by
  cases pin with
  | none =>
    simp only [pinRate]
    split_ifs <;> exact b.supported
  | some level =>
    simp only [pinRate]
    split_ifs
    · exact b.supported
    · exact b.supported
    · rfl
    · rfl

theorem rateWanted_supported (b : RateBuild) (pin : Option Bool) (readable : Bool) (stored : Option ℕ) :
    rateSupported (rateWanted b pin readable stored) = true := by
  simp only [rateWanted]
  split_ifs with _ hv
  · exact pinRate_supported b pin
  · exact hv.2
  · exact pinRate_supported b pin

/-- Every boot comes up, on a rate with a profile. -/
theorem rateSelect_eq (b : RateBuild) (pin : Option Bool) (readable : Bool) (stored : Option ℕ) :
    rateSelect b pin readable stored = some (rateProfile (rateWanted b pin readable stored)) :=
  if_pos (rateWanted_supported b pin readable stored)

end Inferno
