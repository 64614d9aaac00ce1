import Inferno.Spec.Config

/-! The APLL actuator of `mclk_hw.c`: the commanded rate in fixed point, the sigma-delta
dither that renders it at `MCLK_DITHER_HZ`, and the byte-wise register write. -/

namespace Inferno

def AP_MCLK_PPB_CLAMP : ℤ := 2000
def AP_MCLK_FF_PPB_MAX : ℤ := 200000
def AP_MCLK_TOTAL_PPB_MAX : ℤ := AP_MCLK_FF_PPB_MAX + AP_MCLK_PPB_CLAMP
def SDM_BASE_OFFSET : ℕ := 4 <<< 16
def SDM_MAX : ℤ := 0x3FFFFF

/-- The analog-bus registers that hold the SDM word, with their place in it. -/
inductive Dsdm where
  | dsdm2
  | dsdm1
  | dsdm0
  deriving DecidableEq, Repr

def Dsdm.shift : Dsdm → ℕ
  | dsdm2 => 16
  | dsdm1 => 8
  | dsdm0 => 0

def Dsdm.mask : Dsdm → ℕ
  | dsdm2 => 0x3F
  | dsdm1 => 0xFF
  | dsdm0 => 0xFF

/-- The bits of an SDM word that register `r` holds. -/
def Dsdm.byte (r : Dsdm) (sdm : ℕ) : ℕ := (sdm >>> r.shift) &&& r.mask

/-- The statics of `mclk_hw.c` and the registers behind them. -/
structure MclkHw where
  ppb : ℤ
  sdmBase : ℕ
  odiv : ℕ
  targetQ16 : ℤ
  sdmApplied : ℕ
  ditherAcc : ℤ
  lsbPpb : ℕ
  sdmHw : ℕ
  regs : Dsdm → ℕ

def dsdmWrite (sdmHw sdm : ℕ) (r : Dsdm) : Option (Dsdm × ℕ) :=
  if (sdm ^^^ sdmHw) &&& (r.mask <<< r.shift) ≠ 0 then some (r, r.byte sdm) else none

/-- The writes of `apll_write_sdm`, in order: the bytes that differ from what the shadow
says the registers hold. -/
def apllWrites (sdmHw sdm : ℕ) : List (Dsdm × ℕ) :=
  [Dsdm.dsdm2, Dsdm.dsdm1, Dsdm.dsdm0].filterMap (dsdmWrite sdmHw sdm)

def regi2cWrite (regs : Dsdm → ℕ) (w : Dsdm × ℕ) : Dsdm → ℕ := Function.update regs w.1 w.2

def apllWriteSdm (h : MclkHw) (sdm : ℕ) : MclkHw :=
  { h with regs := (apllWrites h.sdmHw sdm).foldl regi2cWrite h.regs, sdmHw := sdm }

/-- The SDM word `dither_cb` computes, and the accumulator it leaves. `>> 16` and
`& 0xFFFF` on a negative target are the floor and its remainder. -/
def ditherRender (acc target : ℤ) : ℕ × ℤ :=
  let whole := target / 65536
  let acc := acc + target % 65536
  let p := if acc ≥ 65536 then (whole + 1, acc - 65536) else (whole, acc)
  ((if p.1 < 0 then 0 else if p.1 > SDM_MAX then SDM_MAX else p.1).toNat, p.2)

def ditherCb (h : MclkHw) : MclkHw :=
  let p := ditherRender h.ditherAcc h.targetQ16
  let h := { h with ditherAcc := p.2 }
  if p.1 ≠ h.sdmApplied then apllWriteSdm { h with sdmApplied := p.1 } p.1 else h

def ditherWrites (h : MclkHw) : List (Dsdm × ℕ) :=
  let sdm := (ditherRender h.ditherAcc h.targetQ16).1
  if sdm ≠ h.sdmApplied then apllWrites h.sdmHw sdm else []

def mclkHwSetPpb (h : MclkHw) (ppb : ℤ) : MclkHw :=
  let ppb := clamp (-AP_MCLK_TOTAL_PPB_MAX) AP_MCLK_TOTAL_PPB_MAX ppb
  let span : ℤ := SDM_BASE_OFFSET + h.sdmBase
  let deltaQ16 := (ppb * span * 65536).tdiv 1000000000
  { h with ppb := ppb, targetQ16 := h.sdmBase * 65536 + deltaQ16 }

/-- `mclk_hw_init` with the coefficients `clk_ll_apll_get_config` reads back: six bits in
the first register and a byte in each of the others. No actuator if they read as zero. -/
def mclkHwInit (odiv : ℕ) (s2 : Fin 64) (s1 s0 : Fin 256) : Option MclkHw :=
  let base := (s2.val <<< 16) ||| (s1.val <<< 8) ||| s0.val
  if base = 0 then none
  else some
    { ppb := 0
      sdmBase := base
      odiv := odiv
      targetQ16 := base * 65536
      sdmApplied := base
      ditherAcc := 0
      lsbPpb := 1000000000 / (SDM_BASE_OFFSET + base)
      sdmHw := base
      regs := fun
        | .dsdm2 => s2
        | .dsdm1 => s1
        | .dsdm0 => s0 }

/-- What happens to the actuator: a commanded rate, or the dither timer. -/
inductive HwEvent where
  | setPpb (ppb : ℤ)
  | dither
  deriving DecidableEq, Repr

def hwStep (h : MclkHw) : HwEvent → MclkHw
  | .setPpb ppb => mclkHwSetPpb h ppb
  | .dither => ditherCb h

def hwRun (h : MclkHw) (l : List HwEvent) : MclkHw := l.foldl hwStep h

def hwTargets (h : MclkHw) : List HwEvent → List ℤ
  | [] => []
  | .setPpb ppb :: l => hwTargets (mclkHwSetPpb h ppb) l
  | .dither :: l => h.targetQ16 :: hwTargets (ditherCb h) l

/-- The SDM word after each dither callback of a run. -/
def hwWords (h : MclkHw) : List HwEvent → List ℕ
  | [] => []
  | .setPpb ppb :: l => hwWords (mclkHwSetPpb h ppb) l
  | .dither :: l => (ditherCb h).sdmApplied :: hwWords (ditherCb h) l

end Inferno
