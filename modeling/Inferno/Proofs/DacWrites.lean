import Inferno.Lib.Trace
import Inferno.Spec.Pcm1690

/-! On a board that straps the DAC for SPI the part hears exactly the writes the calls
make, whatever the probe and the parked pins did before and between them. -/

namespace Inferno

open Lib

theorem msbFirst_foldl (bits : List Bool) (acc : ℕ) :
    bits.foldl (fun acc b => 2 * acc + b.toNat) acc = acc * 2 ^ bits.length + msbFirst bits := by
  induction bits generalizing acc with
  | nil => simp [msbFirst]
  | cons b bits ih =>
    rw [msbFirst, List.foldl_cons, List.foldl_cons, ih, ih (2 * 0 + _), List.length_cons, pow_succ]
    ring

theorem msbFirst_cons (b : Bool) (bits : List Bool) : msbFirst (b :: bits) = b.toNat * 2 ^ bits.length + msbFirst bits := by
  rw [msbFirst, List.foldl_cons, msbFirst_foldl, Nat.mul_zero, Nat.zero_add]

/-- The low bits of a number, the highest of them first. -/
def lowBits (w n : ℕ) : List Bool := (List.range n).reverse.map w.testBit

@[simp] theorem lowBits_length (w n : ℕ) : (lowBits w n).length = n := by simp [lowBits]

theorem msbFirst_lowBits (w n : ℕ) : msbFirst (lowBits w n) = w % 2 ^ n := by
  induction n with
  | zero => simp [lowBits, msbFirst, Nat.mod_one]
  | succ n ih =>
    have hcons : lowBits w (n + 1) = w.testBit n :: lowBits w n := by simp [lowBits, List.range_succ]
    rw [hcons, msbFirst_cons, ih, lowBits_length, Nat.toNat_testBit, Nat.mod_pow_succ, Nat.add_comm, Nat.mul_comm]

/-- The part has nothing of a frame: it is not selected, or no bit came in since it was. -/
def DacPort.Settled (d : DacPort) : Prop := d.ms = true ∨ d.bits = []

/-- The levels `park` leaves: the hardware mode reads them as 24-bit TDM without de-emphasis. -/
def DacPort.Parked (d : DacPort) : Prop := d.ms = false ∧ d.mc = true ∧ d.md = false ∧ d.bits = []

def DacPort.heard (d : DacPort) : List (List Bool) := d.frames.filter (· ≠ [])

theorem cs_high {d : DacPort} (h : d.Settled) :
    (d.act (.level .cs true)).ms = true ∧ (d.act (.level .cs true)).heard = d.heard := by
  refine ⟨rfl, ?_⟩
  cases hms : d.ms with
  | true => simp [DacPort.act, DacPort.heard, hms]
  | false =>
    have hbits : d.bits = [] := h.resolve_left (by rw [hms]; exact Bool.false_ne_true)
    simp [DacPort.act, DacPort.heard, hms, hbits]

theorem deselected (probe : List (Bool × Bool)) {d : DacPort} (h : d.ms = true) :
    ((probe.map fun p => DacAct.level (if p.1 then .clk else .mosi) p.2).foldl DacPort.act d).ms = true ∧
      ((probe.map fun p => DacAct.level (if p.1 then .clk else .mosi) p.2).foldl DacPort.act d).heard = d.heard := by
  induction probe generalizing d with
  | nil => exact ⟨h, rfl⟩
  | cons p probe ih =>
    obtain ⟨clk, high⟩ := p
    cases clk <;> exact ih h

theorem shift_in (word : ℕ) (bs : List ℕ) {d : DacPort} (hms : d.ms = false) (hmc : d.mc = false) :
    ∃ md, (bs.flatMap fun b => [DacAct.level .mosi (word.testBit b), .level .clk true, .level .clk false]).foldl DacPort.act d =
      { d with md := md, bits := d.bits ++ bs.map word.testBit } := by
  induction bs generalizing d with
  | nil => exact ⟨d.md, by simp⟩
  | cons b bs ih =>
    obtain ⟨md, hmd⟩ := ih (d := { d with md := word.testBit b, bits := d.bits ++ [word.testBit b] }) hms hmc
    refine ⟨md, ?_⟩
    rw [List.flatMap_cons, List.foldl_append]
    have hone : [DacAct.level .mosi (word.testBit b), .level .clk true, .level .clk false].foldl DacPort.act d =
        { d with md := word.testBit b, bits := d.bits ++ [word.testBit b] } := by
      simp [DacPort.act, hms, hmc]
    rw [hone, hmd]
    simp

theorem wr_heard {d : DacPort} (h : d.Settled) (reg val : UInt8) :
    ((wr .spi reg val).foldl DacPort.act d).ms = true ∧
      ((wr .spi reg val).foldl DacPort.act d).heard =
        d.heard ++ [lowBits ((reg &&& 0x7F).toNat <<< 8 ||| val.toNat) 16] := by
  obtain ⟨hms, hheard⟩ := cs_high h
  obtain ⟨md, hshift⟩ := shift_in ((reg &&& 0x7F).toNat <<< 8 ||| val.toNat) (List.range 16).reverse
    (d := [DacAct.level .clk false, .level .cs false].foldl DacPort.act (d.act (.level .cs true))) rfl rfl
  have hopen : [DacAct.level .cs true, .level .clk false, .level .cs false].foldl DacPort.act d =
      [DacAct.level .clk false, .level .cs false].foldl DacPort.act (d.act (.level .cs true)) := rfl
  rw [wr, List.foldl_append, List.foldl_append, hopen, hshift, ← hheard]
  refine ⟨rfl, ?_⟩
  change ((d.act (.level .cs true)).frames ++ [[] ++ _]).filter (· ≠ []) = _
  rw [List.filter_append, List.nil_append, List.filter_cons_of_pos (by simp), List.filter_nil]
  rfl

/-- The frame of a write is that write, the register number cut to its seven bits. -/
theorem frameWrite_wr (reg val : UInt8) :
    frameWrite (lowBits ((reg &&& 0x7F).toNat <<< 8 ||| val.toNat) 16) = some (reg &&& 0x7F, val) := by
  have hval : val.toNat < 2 ^ 8 := val.toNat_lt
  have hreg : (reg &&& 0x7F).toNat < 2 ^ 7 := by
    rw [UInt8.toNat_and]
    exact Nat.lt_succ_of_le Nat.and_le_right
  rw [← Nat.shiftLeft_add_eq_or_of_lt hval, Nat.shiftLeft_eq, frameWrite, msbFirst_lowBits, lowBits_length]
  have hword : ((reg &&& 0x7F).toNat * 2 ^ 8 + val.toNat) % 2 ^ 16 = (reg &&& 0x7F).toNat * 2 ^ 8 + val.toNat :=
    Nat.mod_eq_of_lt (by omega)
  rw [hword, if_pos ⟨rfl, by omega⟩, Nat.mul_comm, Nat.mul_add_div (by decide), Nat.div_eq_of_lt hval, Nat.mul_add_mod,
    Nat.mod_eq_of_lt hval, Nat.add_zero, UInt8.ofNat_toNat, UInt8.ofNat_toNat]

theorem wrs_heard (ws : List (UInt8 × UInt8)) {d : DacPort} (h : d.Settled) :
    ((ws.flatMap fun w => wr .spi w.1 w.2).foldl DacPort.act d).Settled ∧
      ((ws.flatMap fun w => wr .spi w.1 w.2).foldl DacPort.act d).heard.map frameWrite =
        d.heard.map frameWrite ++ ws.map fun w => some (w.1 &&& 0x7F, w.2) := by
  induction ws generalizing d with
  | nil => exact ⟨h, (List.append_nil _).symm⟩
  | cons w ws ih =>
    obtain ⟨hms, hone⟩ := wr_heard h w.1 w.2
    obtain ⟨hset, hmore⟩ := ih (Or.inl hms)
    rw [List.flatMap_cons, List.foldl_append]
    refine ⟨hset, ?_⟩
    rw [hmore, hone, List.map_append, List.append_assoc, List.map_singleton, frameWrite_wr]
    rfl

/-- A settled part with MS high, or low with the clock up, is parked without a bit. -/
theorem park_quiet {d : DacPort} (h : d.Settled) (hclk : d.ms = true ∨ d.mc = true) :
    (park.foldl DacPort.act d).Parked ∧ (park.foldl DacPort.act d).heard = d.heard := by
  obtain ⟨ms, mc, md, bits, frames⟩ := d
  cases ms with
  | true => simp [park, DacPort.act, DacPort.Parked, DacPort.heard]
  | false =>
    obtain rfl : mc = true := hclk.resolve_left Bool.false_ne_true
    obtain rfl : bits = [] := h.resolve_left Bool.false_ne_true
    simp [park, DacPort.act, DacPort.Parked, DacPort.heard]

theorem wrs_ms (ws : List (UInt8 × UInt8)) {d : DacPort} (h : d.ms = true ∨ d.mc = true) (hs : d.Settled) :
    ((ws.flatMap fun w => wr .spi w.1 w.2).foldl DacPort.act d).ms = true ∨
      ((ws.flatMap fun w => wr .spi w.1 w.2).foldl DacPort.act d).mc = true := by
  induction ws generalizing d with
  | nil => exact h
  | cons w ws ih =>
    rw [List.flatMap_cons, List.foldl_append]
    exact ih (Or.inl (wr_heard hs w.1 w.2).1) (Or.inl (wr_heard hs w.1 w.2).1)

theorem wrs_park {d : DacPort} (ws : List (UInt8 × UInt8)) (h : d.Settled) (hclk : d.ms = true ∨ d.mc = true) :
    (((ws.flatMap fun w => wr .spi w.1 w.2) ++ park).foldl DacPort.act d).Parked ∧
      (((ws.flatMap fun w => wr .spi w.1 w.2) ++ park).foldl DacPort.act d).heard.map frameWrite =
        d.heard.map frameWrite ++ ws.map fun w => some (w.1 &&& 0x7F, w.2) := by
  obtain ⟨hset, hheard⟩ := wrs_heard ws h
  obtain ⟨hpark, hquiet⟩ := park_quiet hset (wrs_ms ws hclk h)
  rw [List.foldl_append]
  exact ⟨hpark, by rw [hquiet, hheard]⟩

theorem start_heard {d : DacPort} (h : d.Settled) (bus : DacBus) (probe : List (Bool × Bool)) (fmt : UInt8) :
    (((DacCall.start probe false fmt).acts bus).foldl DacPort.act d).Parked ∧
      (((DacCall.start probe false fmt).acts bus).foldl DacPort.act d).heard.map frameWrite =
        d.heard.map frameWrite ++ (startWrites fmt).map fun w => some (w.1 &&& 0x7F, w.2) := by
  obtain ⟨hms, hheard⟩ := cs_high h
  obtain ⟨hms', hheard'⟩ := deselected probe hms
  -- the probe leaves MS high, and so does taking the pins over
  have hinit := cs_high (Or.inl hms')
  have hbody := wrs_park (startWrites fmt)
    (d := initSpi.foldl DacPort.act ((tryI2c probe).foldl DacPort.act d)) (Or.inl rfl) (Or.inl rfl)
  have hquiet : (initSpi.foldl DacPort.act ((tryI2c probe).foldl DacPort.act d)).heard = d.heard :=
    hinit.2.trans (hheard'.trans hheard)
  rw [hquiet] at hbody
  simpa [DacCall.acts, DacCall.bus, DacCall.writes, List.foldl_append] using hbody

theorem call_heard {d : DacPort} (h : d.Parked) {c : DacCall} (hc : ∀ probe found fmt, c = .start probe found fmt → found = false) :
    (dacRun (.spi, d) c).1 = .spi ∧ (dacRun (.spi, d) c).2.Parked ∧
      (dacRun (.spi, d) c).2.heard.map frameWrite =
        d.heard.map frameWrite ++ c.writes.map fun w => some (w.1 &&& 0x7F, w.2) := by
  have hset : d.Settled := Or.inr h.2.2.2
  have hclk : d.ms = true ∨ d.mc = true := Or.inr h.2.1
  cases c with
  | start probe found fmt =>
    obtain rfl := hc probe found fmt rfl
    exact ⟨rfl, start_heard hset .spi probe fmt⟩
  | setMute mute => exact ⟨rfl, wrs_park [(REG_SOFT_MUTE, if mute then 0xFF else 0x00)] hset hclk⟩
  | write reg val => exact ⟨rfl, wrs_park [(reg, val)] hset hclk⟩
  | setAttenuation ch code =>
    by_cases hch : ch ≥ 8
    · refine ⟨rfl, ?_⟩
      simpa [dacRun, DacCall.acts, DacCall.writes, hch] using h
    · refine ⟨rfl, ?_⟩
      have hone := wrs_park [(REG_ATT_BASE + ch, code)] hset hclk
      simpa only [dacRun, DacCall.acts, DacCall.writes, DacCall.bus, if_neg hch, if_true] using hone

theorem calls_heard {cs : List DacCall} (hc : ∀ c ∈ cs, ∀ probe found fmt, c = .start probe found fmt → found = false)
    {d : DacPort} (h : d.Parked) :
    (cs.foldl dacRun (.spi, d)).2.Parked ∧ (cs.foldl dacRun (.spi, d)).2.heard.map frameWrite =
      d.heard.map frameWrite ++ (cs.flatMap DacCall.writes).map fun w => some (w.1 &&& 0x7F, w.2) := by
  induction cs generalizing d with
  | nil => exact ⟨h, (List.append_nil _).symm⟩
  | cons c cs ih =>
    obtain ⟨hbus, hpark, hheard⟩ := call_heard h (hc c List.mem_cons_self)
    have hstate : dacRun (.spi, d) c = (.spi, (dacRun (.spi, d) c).2) := Prod.ext hbus rfl
    rw [List.foldl_cons, hstate, List.flatMap_cons, List.map_append, ← List.append_assoc, ← hheard]
    exact ih (fun c' hc' => hc c' (List.mem_cons_of_mem _ hc')) hpark

/-- From the first start on, with no answer on I2C, whatever the probes did: the part has
heard exactly the writes of the calls, in their order, each register number cut to seven
bits, and every call leaves the pins parked. -/
theorem dac_hears_the_writes {d : DacPort} (hd : d.Settled) (hfresh : d.heard = []) (probe : List (Bool × Bool)) (fmt : UInt8)
    (cs : List DacCall) (hc : ∀ c ∈ cs, ∀ probe found fmt, c = .start probe found fmt → found = false) :
    ((DacCall.start probe false fmt :: cs).foldl dacRun (.none, d)).2.Parked ∧
      ((DacCall.start probe false fmt :: cs).foldl dacRun (.none, d)).2.heard.map frameWrite =
        ((DacCall.start probe false fmt :: cs).flatMap DacCall.writes).map fun w => some (w.1 &&& 0x7F, w.2) := by
  obtain ⟨hpark, hheard⟩ := start_heard hd .none probe fmt
  rw [hfresh, List.map_nil, List.nil_append] at hheard
  obtain ⟨hp, hh⟩ := calls_heard hc hpark
  refine ⟨hp, hh.trans ?_⟩
  rw [hheard, List.flatMap_cons, List.map_append]
  rfl

theorem dac_hears_the_writes_unmute :
    ((DacCall.start [(true, true), (false, true)] false 8 :: [.setMute true, .setAttenuation 3 10]).foldl dacRun
        (.none, ⟨false, true, true, [], []⟩)).2.Parked ∧
      ((DacCall.start [(true, true), (false, true)] false 8 :: [.setMute true, .setAttenuation 3 10]).foldl dacRun
        (.none, ⟨false, true, true, [], []⟩)).2.heard.map frameWrite =
        ((DacCall.start [(true, true), (false, true)] false 8 :: [.setMute true, .setAttenuation 3 10]).flatMap
          DacCall.writes).map fun w => some (w.1 &&& 0x7F, w.2) :=
  dac_hears_the_writes (Or.inr rfl) rfl _ _ _ (by simp)

end Inferno
