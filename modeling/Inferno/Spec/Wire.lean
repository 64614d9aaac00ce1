import Inferno.Spec.Config

/-! Byte helpers and header constants of `aoip_wire.h`. Everything on the wire is
big-endian. A pointer is a memory `ℕ → UInt8` with an offset, so a read past the
end of a datagram yields whatever lies there instead of being ruled out. -/

namespace Inferno

abbrev Mem := ℕ → UInt8

def dwRd16 (p : Mem) (i : ℕ) : ℕ := (p i).toNat * 2 ^ 8 + (p (i + 1)).toNat

def dwRd32 (p : Mem) (i : ℕ) : ℕ :=
  (p i).toNat * 2 ^ 24 + (p (i + 1)).toNat * 2 ^ 16 + (p (i + 2)).toNat * 2 ^ 8 + (p (i + 3)).toNat

/-- The `n` bytes at offset `i`, as `memcpy` takes them. -/
def bytesAt (p : Mem) (i n : ℕ) : List UInt8 := (List.range n).map fun k => p (i + k)

@[simp] theorem bytesAt_length (p : Mem) (i n : ℕ) : (bytesAt p i n).length = n := by
  simp [bytesAt]

def memcpy (p : Mem) (i : ℕ) (bs : List UInt8) : Mem :=
  fun k => if i ≤ k ∧ k < i + bs.length then bs.getD (k - i) 0 else p k

/-- The first `n` bytes of a buffer are those of `src`. -/
def Holds (p : Mem) (src : List UInt8) (n : ℕ) : Prop := ∀ k < n, p k = src.getD k 0

theorem Holds.mono {p : Mem} {src : List UInt8} {m n : ℕ} (h : Holds p src n) (hm : m ≤ n) :
    Holds p src m := fun k hk => h k (by omega)

/-- Copying in the next piece of `src` extends what the buffer holds of it. -/
theorem Holds.memcpy {p : Mem} {src : List UInt8} {n m : ℕ} (h : Holds p src n) :
    Holds (memcpy p n ((src.drop n).take m)) src (n + ((src.drop n).take m).length) := by
  intro k hk
  unfold Inferno.memcpy
  by_cases hkn : k < n
  · rw [if_neg (by omega), h k hkn]
  · rw [if_pos (by omega)]
    have hlt : k - n < m := by
      rw [List.length_take] at hk
      omega
    simp only [List.getD_eq_getElem?_getD, List.getElem?_take, hlt, if_true, List.getElem?_drop]
    rw [show n + (k - n) = k by omega]

theorem Holds.bytesAt {p : Mem} {src : List UInt8} {n : ℕ} (h : Holds p src n) (hn : n ≤ src.length) :
    bytesAt p 0 n = src.take n := by
  apply List.ext_getElem
  · simp [hn]
  · intro k hk hk'
    rw [bytesAt_length] at hk
    simp only [Inferno.bytesAt, List.getElem_map, List.getElem_range, Nat.zero_add, List.getElem_take]
    rw [h k hk, List.getD_eq_getElem?_getD, List.getElem?_eq_getElem (by omega), Option.getD_some]

def AOIP_RX_AUDIO_PORT : ℕ := 14336
def PTP1_EVENT_PORT : ℕ := 319
def PTP1_GENERAL_PORT : ℕ := 320
def PTP1_GROUP_IP : ℕ := 0xE0000181

def PTP1_HDR_LEN : ℕ := 40
def PTP1_SYNC_BODY_LEN : ℕ := 84
def PTP1_FOLLOWUP_BODY_LEN : ℕ := 12
def PTP1_DELAY_RESP_BODY_LEN : ℕ := 20
def PTP1_CTRL_SYNC : ℕ := 0
def PTP1_CTRL_DELAY_REQ : ℕ := 1
def PTP1_CTRL_FOLLOWUP : ℕ := 2
def PTP1_CTRL_DELAY_RESP : ℕ := 3

/-- `flags & PTP1_FLAG_PTP_ASSIST`: a Follow_Up will carry the precise origin time. -/
def ptpAssist (flags : UInt8) : Bool := flags.toNat.testBit 3

/-- Version 1 and the subdomain `_DFLT`. -/
def ptp1HeaderOk (p : Mem) (len : ℕ) : Bool :=
  if len < PTP1_HDR_LEN then false
  else if dwRd16 p 0 ≠ 1 then false
  else p 4 == 0x5F && p 5 == 0x44 && p 6 == 0x46 && p 7 == 0x4C && p 8 == 0x54

end Inferno
