import Mathlib.Tactic

/-! Stream geometry and servo constants of `app_config.h`, the two rate profiles
of `rate.c`, and the fixed-width wrap-arounds the sources rely on. -/

namespace Inferno

def AP_NCH : ℕ := 8
instance : NeZero AP_NCH := ⟨by decide⟩
def AP_RATE_48K : ℕ := 48000
def AP_RATE_96K : ℕ := 96000
def AP_BLOCKS_PER_S : ℕ := 3000
def AP_MAX_CH_PER_FLOW : ℕ := 8
def AP_MAX_FLOWS : ℕ := 4
instance : NeZero AP_MAX_FLOWS := ⟨by decide⟩
def AP_LATENCY_US_DEFAULT : ℕ := 2000
def AP_LATENCY_US_MAX : ℕ := 10000
def AP_RING_FRAMES : ℕ := 4096
def AP_FUTURE_GUARD_FRAMES : ℕ := AP_RING_FRAMES / 2
def AP_DMA_AHEAD_FRAMES : ℕ := 16
def AP_I2S_FIFO_FRAMES : ℕ := 8

/-- `AP_OUT_SLOT`: the outputs are reversed where the samples enter the ring. -/
def AP_OUT_SLOT (ch : ℕ) : ℕ := AP_NCH - 1 - ch

def u8 (n : ℕ) : ℕ := n % 2 ^ 8

def u16 (n : ℕ) : ℕ := n % 2 ^ 16

def u32 (n : ℕ) : ℕ := n % 2 ^ 32

theorem u32_succ_ne (n : ℕ) : u32 (n + 1) ≠ n := by
  simp only [u32]
  omega

def asU32 (z : ℤ) : ℕ := (z % 2 ^ 32).toNat

/-- The sources' `if (x > hi) x = hi; if (x < lo) x = lo;`. -/
def clamp (lo hi x : ℤ) : ℤ :=
  let y := if x > hi then hi else x
  if y < lo then lo else y

theorem clamp_mem {lo hi : ℤ} (h : lo ≤ hi) (x : ℤ) : lo ≤ clamp lo hi x ∧ clamp lo hi x ≤ hi := by
  simp only [clamp]
  split_ifs <;> omega

theorem clamp_eq (lo hi x : ℤ) : clamp lo hi x = max (min x hi) lo := by
  simp only [clamp]
  split_ifs <;> omega

theorem clamp_of_mem {lo hi x : ℤ} (hlo : lo ≤ x) (hhi : x ≤ hi) : clamp lo hi x = x := by
  rw [clamp_eq, min_eq_left hhi, max_eq_left hlo]

theorem abs_clamp_le {c : ℤ} (hc : 0 ≤ c) (x : ℤ) : |clamp (-c) c x| ≤ c :=
  abs_le.mpr (clamp_mem (neg_le_self hc) x)

theorem abs_clamp_sub_le (lo hi x y : ℤ) : |clamp lo hi x - clamp lo hi y| ≤ |x - y| := by
  rw [clamp_eq, clamp_eq]
  refine (abs_max_sub_max_le_abs _ _ _).trans ((abs_min_sub_min_le_max x hi y hi).trans ?_)
  simp

def LATENCY_MARGIN_US : ℕ := 500

/-- The fields of `rate_profile_t` that the receive path reads. -/
structure RateProfile where
  hz : ℕ
  fpp : ℕ
  dmaFrames : ℕ
  dmaDepthFrames : ℕ
  dmaDepthUs : ℕ
  latencyMinUs : ℕ
  deriving DecidableEq, Repr

/-- What `rate_select` latches for a profile of `s_profiles` running at `hz`. -/
def rateProfile (hz : ℕ) : RateProfile :=
  let depth := AP_DMA_AHEAD_FRAMES + AP_I2S_FIFO_FRAMES
  let depthUs := depth * 1000000 / hz
  { hz := hz
    fpp := hz / AP_BLOCKS_PER_S
    dmaFrames := hz / AP_BLOCKS_PER_S
    dmaDepthFrames := depth
    dmaDepthUs := depthUs
    latencyMinUs := depthUs + LATENCY_MARGIN_US }

def rate48k : RateProfile := rateProfile AP_RATE_48K
def rate96k : RateProfile := rateProfile AP_RATE_96K

end Inferno
