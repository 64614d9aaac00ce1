import Inferno.Spec.Config

/-! The control port of the DAC (`pcm1690.c`): register writes over I2C, or bit-banged on
three pins that are parked between calls, and the serial port of the part as its
datasheet has it in the source's comments. -/

namespace Inferno

inductive DacPin where
  | cs
  | clk
  | mosi
  deriving DecidableEq, Repr

/-- What the driver does to the control port: `gpio_set_level` on a pin, or a write on the I2C bus. -/
inductive DacAct where
  | level (pin : DacPin) (high : Bool)
  | i2cTransmit (bytes : List UInt8)
  deriving DecidableEq, Repr

/-- The serial port: the levels it sees, the bits shifted in since MS fell, and the frames
that ended with MS rising. -/
structure DacPort where
  ms : Bool
  mc : Bool
  md : Bool
  bits : List Bool
  frames : List (List Bool)

/-- MD is taken on MC's rising edge while MS is low, the frame on MS's rising edge. -/
def DacPort.act (d : DacPort) : DacAct → DacPort
  | .level .cs high =>
    if high then { d with ms := true, bits := [], frames := if d.ms then d.frames else d.frames ++ [d.bits] }
    else { d with ms := false, bits := if d.ms then [] else d.bits }
  | .level .clk high =>
    { d with mc := high, bits := if high && !d.mc && !d.ms then d.bits ++ [d.md] else d.bits }
  | .level .mosi high => { d with md := high }
  | .i2cTransmit _ => d

/-- A frame of 16 bits, MSB first: `'0'` (write), `ADR[6:0]`, `D[7:0]`. -/
def msbFirst (bits : List Bool) : ℕ := bits.foldl (fun acc b => 2 * acc + b.toNat) 0

def frameWrite (bits : List Bool) : Option (UInt8 × UInt8) :=
  if bits.length = 16 ∧ msbFirst bits < 2 ^ 15 then
    some (UInt8.ofNat (msbFirst bits / 2 ^ 8), UInt8.ofNat (msbFirst bits % 2 ^ 8))
  else none

def REG_MODE_CONTROL : UInt8 := 64
def REG_FORMAT : UInt8 := 65
def REG_SOFT_MUTE : UInt8 := 68
def REG_ATT_BASE : UInt8 := 72

inductive DacBus where
  | none
  | i2c
  | spi
  deriving DecidableEq, Repr

/-- `wr`, with `s_bus` for the bus. -/
def wr (bus : DacBus) (reg val : UInt8) : List DacAct :=
  match bus with
  | .i2c => [.i2cTransmit [reg, val]]
  | .spi =>
    let word := (reg &&& 0x7F).toNat <<< 8 ||| val.toNat
    [.level .cs true, .level .clk false, .level .cs false] ++
      ((List.range 16).reverse.flatMap fun b =>
        [.level .mosi (word.testBit b), .level .clk true, .level .clk false]) ++
      [.level .cs true]
  | .none => []

def park : List DacAct := [.level .mosi false, .level .clk true, .level .cs false]

/-- The calls of the other modules. The probe of `try_i2c` toggles the clock and the data
line at will and answers `found`; `fmt` is the running profile's `pcm1690_fmt`. -/
inductive DacCall where
  | start (probe : List (Bool × Bool)) (found : Bool) (fmt : UInt8)
  | setMute (mute : Bool)
  | write (reg val : UInt8)
  | setAttenuation (ch code : UInt8)

def tryI2c (probe : List (Bool × Bool)) : List DacAct :=
  .level .cs true :: probe.map fun p => .level (if p.1 then .clk else .mosi) p.2

def initSpi : List DacAct := [.level .cs true, .level .clk false]

def startWrites (fmt : UInt8) : List (UInt8 × UInt8) :=
  [(REG_FORMAT, fmt), (REG_MODE_CONTROL, 0xC0), (REG_SOFT_MUTE, 0x00)] ++
    (List.range 8).map fun ch => (REG_ATT_BASE + UInt8.ofNat ch, 0xFF)

def DacCall.writes : DacCall → List (UInt8 × UInt8)
  | .start _ _ fmt => startWrites fmt
  | .setMute mute => [(REG_SOFT_MUTE, if mute then 0xFF else 0x00)]
  | .write reg val => [(reg, val)]
  | .setAttenuation ch code => if ch ≥ 8 then [] else [(REG_ATT_BASE + ch, code)]

def DacCall.bus (bus : DacBus) : DacCall → DacBus
  | .start _ found _ => if found then .i2c else .spi
  | _ => bus

/-- What a call does to the port. An attenuator that does not exist is refused before the port. -/
def DacCall.acts (bus : DacBus) (c : DacCall) : List DacAct :=
  let bus' := c.bus bus
  let body := c.writes.flatMap fun w => wr bus' w.1 w.2
  match c with
  | .start probe found _ =>
    tryI2c probe ++ (if found then [] else initSpi) ++ body ++ if bus' = .spi then park else []
  | .setAttenuation ch _ => if ch ≥ 8 then [] else body ++ if bus' = .spi then park else []
  | _ => body ++ if bus' = .spi then park else []

def dacRun (s : DacBus × DacPort) (c : DacCall) : DacBus × DacPort :=
  (c.bus s.1, (c.acts s.1).foldl DacPort.act s.2)

end Inferno
