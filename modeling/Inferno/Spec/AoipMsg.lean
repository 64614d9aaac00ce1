import Inferno.Lib.Bytes
import Inferno.Lib.Checked
import Inferno.Spec.Subscriber

/-! Request and response framing of `aoip_msg.c`, and the writing byte helpers of
`aoip_wire.h`. A buffer is the bytes written into it so far; every store is checked
against its size and every fetch against the bytes received. -/

namespace Inferno

open Lib

def AOIP_HDR_LEN : ℕ := 10
def DRR_HDR_LEN : ℕ := 10
def AP_BITS_PER_SAMPLE : ℕ := 24
def AOIP_CODE_OK : ℕ := 1
def AOIP_CODE_MORE : ℕ := 0x8112

/-- What an access to a message can do wrong. -/
inductive MsgFault where
  | request (i : ℕ)
  | store
  | patch (i : ℕ)
  | null
  | slot (k : ℕ)
  | table (i : ℕ)
  deriving DecidableEq, Repr

def memOf (b : List UInt8) : Mem := fun k => b.getD k 0

/-- `dw_wr16`; what does not fit the type is cut off where it is passed. -/
def dwWr16 (v : ℕ) : List UInt8 := [UInt8.ofNat (v / 2 ^ 8), UInt8.ofNat v]

def dwWr32 (v : ℕ) : List UInt8 :=
  [UInt8.ofNat (v / 2 ^ 24), UInt8.ofNat (v / 2 ^ 16), UInt8.ofNat (v / 2 ^ 8), UInt8.ofNat v]

@[simp] theorem dwWr16_length (v : ℕ) : (dwWr16 v).length = 2 := rfl

@[simp] theorem dwWr32_length (v : ℕ) : (dwWr32 v).length = 4 := rfl

theorem u16_of_lt {n : ℕ} (h : n < 2 ^ 16) : u16 n = n := Nat.mod_eq_of_lt h

theorem u16_u16 (n : ℕ) : u16 (u16 n) = u16 n := Nat.mod_mod n (2 ^ 16)

theorem dwRd16_of_sits {b : List UInt8} {v i : ℕ} (h : Sits (dwWr16 v) b i) : dwRd16 (memOf b) i = u16 v := by
  have h0 : b.getD (i + 0) 0 = UInt8.ofNat (v / 2 ^ 8) := h.getD 0 (by simp)
  have h1 : b.getD (i + 1) 0 = UInt8.ofNat v := h.getD 0 (by simp)
  simp only [dwRd16, memOf, u16]
  rw [Nat.add_zero] at h0
  rw [h0, h1, UInt8.toNat_ofNat', UInt8.toNat_ofNat']
  omega

theorem dwRd32_of_sits {b : List UInt8} {v i : ℕ} (h : Sits (dwWr32 v) b i) : dwRd32 (memOf b) i = u32 v := by
  have h0 : b.getD (i + 0) 0 = UInt8.ofNat (v / 2 ^ 24) := h.getD 0 (by simp)
  have h1 : b.getD (i + 1) 0 = UInt8.ofNat (v / 2 ^ 16) := h.getD 0 (by simp)
  have h2 : b.getD (i + 2) 0 = UInt8.ofNat (v / 2 ^ 8) := h.getD 0 (by simp)
  have h3 : b.getD (i + 3) 0 = UInt8.ofNat v := h.getD 0 (by simp)
  simp only [dwRd32, memOf, u32]
  rw [Nat.add_zero] at h0
  rw [h0, h1, h2, h3, UInt8.toNat_ofNat', UInt8.toNat_ofNat', UInt8.toNat_ofNat', UInt8.toNat_ofNat']
  omega

theorem bytesAt_of_sits {b bs : List UInt8} {i : ℕ} (h : Sits bs b i) : bytesAt (memOf b) i bs.length = bs := by
  apply List.ext_getElem (bytesAt_length _ _ _)
  intro k hk hk'
  have hget : (bytesAt (memOf b) i bs.length)[k] = b.getD (i + k) 0 := by simp [bytesAt, memOf]
  rw [hget, h.getD 0 hk', List.getD_eq_getElem?_getD, List.getElem?_eq_getElem hk', Option.getD_some]

theorem memOf_only {b b' : List UInt8} {lo hi i : ℕ} (h : Only lo hi b b') (hi' : i < b.length)
    (hout : i < lo ∨ hi ≤ i) : memOf b' i = memOf b i := by
  rw [memOf, memOf, List.getD_eq_getElem?_getD, List.getD_eq_getElem?_getD, h.same i hi' hout]

structure Fits31 (s : CStr) : Prop where
  len : s.length ≤ 31
  noNul : 0 ∉ s

def cstrAt (b : List UInt8) (off : ℕ) : CStr := (b.drop off).takeWhile fun c => decide (c ≠ 0)

theorem cstrAt_of_sits {b : List UInt8} {s : CStr} {off : ℕ} (h : Sits (s ++ [0]) b off) (hs : 0 ∉ s) :
    cstrAt b off = s := h.takeWhile hs

def reqByte (req : List UInt8) (i : ℕ) : Except MsgFault UInt8 :=
  fetch (.request i) req.length i 1 (memOf req i)

def aoipReqU16 (req : List UInt8) (off : ℕ) : Except MsgFault ℕ :=
  fetch (.request off) req.length off 2 (dwRd16 (memOf req) off)

def aoipReqU32 (req : List UInt8) (off : ℕ) : Except MsgFault ℕ :=
  fetch (.request off) req.length off 4 (dwRd32 (memOf req) off)

/-- `sizeof(tx)` of `arc_task`. -/
def ARC_TX_LEN : ℕ := 1024

/-- A writer of `aoip_msg_t`; its state is the first `len` bytes of `buf`. -/
abbrev AoipMsg := StateT (List UInt8) (Except MsgFault)

/-- The response header with the request's start code, sequence number and opcode. -/
def aoipMsgBegin (req : List UInt8) : Except MsgFault (List UInt8) := do
  let b0 ← reqByte req 0
  let b1 ← reqByte req 1
  let b4 ← reqByte req 4
  let b5 ← reqByte req 5
  let b6 ← reqByte req 6
  let b7 ← reqByte req 7
  .ok [b0, b1, 0, 0, b4, b5, b6, b7, 0, 0]

def aoipMsgLen : AoipMsg ℕ := fun m => .ok (m.length, m)

def aoipMsgBytes (bs : List UInt8) : AoipMsg Unit :=
  fun m => checked .store (m.length + bs.length ≤ ARC_TX_LEN) ((), m ++ bs)

def aoipMsgU8 (v : ℕ) : AoipMsg Unit := aoipMsgBytes [UInt8.ofNat v]

def aoipMsgU16 (v : ℕ) : AoipMsg Unit := aoipMsgBytes (dwWr16 v)

def aoipMsgU32 (v : ℕ) : AoipMsg Unit := aoipMsgBytes (dwWr32 v)

def aoipMsgZeros (n : ℕ) : AoipMsg Unit := aoipMsgBytes (List.replicate n 0)

/-- Append a string with its NUL and return the offset it lies at. -/
def aoipMsgStr (s : CStr) : AoipMsg ℕ := do
  let off ← aoipMsgLen
  aoipMsgBytes (s ++ [0])
  pure (u16 off)

def aoipMsgPut (i : ℕ) (bs : List UInt8) : AoipMsg Unit :=
  fun m => checked (.patch i) (i + bs.length ≤ m.length) ((), overwrite m i bs)

def aoipMsgPatchU16 (i v : ℕ) : AoipMsg Unit := aoipMsgPut i (dwWr16 v)

def aoipMsgFinish (opcode2 : ℕ) : AoipMsg ℕ := do
  aoipMsgPatchU16 2 (← aoipMsgLen)
  aoipMsgPatchU16 8 opcode2
  aoipMsgLen

section
variable {m : List UInt8} {Q : Unit → List UInt8 → Prop}

theorem ends_bytes {bs : List UInt8} (hfit : m.length + bs.length ≤ 1024) (h : Q () (m ++ bs)) :
    Ends (aoipMsgBytes bs) m Q := ⟨(), m ++ bs, checked_ok hfit _, h⟩

theorem ends_put {i : ℕ} {bs : List UInt8} (hin : i + bs.length ≤ m.length) :
    Ends (aoipMsgPut i bs) m fun _ m' => Overwritten bs m m' i :=
  ⟨(), overwrite m i bs, checked_ok hin _, overwritten hin⟩

theorem ends_len {Q : ℕ → List UInt8 → Prop} (h : Q m.length m) : Ends aoipMsgLen m Q := ⟨m.length, m, rfl, h⟩

theorem ends_str {s : CStr} (hfit : m.length + s.length + 1 ≤ 1024) :
    Ends (aoipMsgStr s) m fun off m' => off = m.length ∧ Appended (s ++ [0]) m m' := by
  apply (ends_len (Q := fun off m' => off = m.length ∧ m' = m) ⟨rfl, rfl⟩).bind
  rintro off m' ⟨rfl, rfl⟩
  apply Ends.bind (Q := fun _ m'' => m'' = m' ++ (s ++ [0]))
  · exact ends_bytes (by rw [List.length_append]; exact hfit) rfl
  · rintro _ _ rfl
    exact ends_pure ⟨u16_of_lt (by omega), appended m' (s ++ [0])⟩

theorem aoipMsgBytes_append (bs cs : List UInt8) :
    (do aoipMsgBytes bs; aoipMsgBytes cs) = aoipMsgBytes (bs ++ cs) := by
  funext m
  change (aoipMsgBytes bs m >>= fun r => aoipMsgBytes cs r.2) = _
  simp only [aoipMsgBytes, checked]
  by_cases hfit : m.length + bs.length ≤ ARC_TX_LEN
  · rw [if_pos hfit, ok_bind, List.length_append, List.append_assoc, List.length_append, Nat.add_assoc]
  · rw [if_neg hfit, if_neg (by rw [List.length_append]; omega)]
    rfl

end

end Inferno
