import Inferno.Lib.JsonString
import Inferno.Spec.ChannelNames
import Inferno.Spec.Web

/-! The names on the status page of `web.c`: `jstr` with every fetch and store checked,
and the channel objects `status_get` prints them in. A string is the bytes of memory
from its pointer on, whatever lies behind the NUL. -/

namespace Inferno

open Lib

/-- What `jstr` can do wrong: fetch past the memory of its string, or store past that of
its buffer. -/
inductive NameFault where
  | fetch
  | store (i : ℕ)
  deriving DecidableEq, Repr

def storeAt (i : ℕ) (bs out : List UInt8) : Except NameFault (List UInt8) :=
  checked (.store i) (i + bs.length ≤ out.length) (overwrite out i bs)

/-- What `snprintf` stores of a text in `size` bytes; it returns the text's length all
the same. -/
def snprintf (size : ℕ) (text : List UInt8) : List UInt8 :=
  if size = 0 then [] else text.take (size - 1) ++ [0]

/-- `"\\u%04x"` of a byte. -/
def u04x (c : UInt8) : List UInt8 := [jsonBackslash, jsonU] ++ hex4 c.toNat

def jstrByte (n : ℕ) (c : UInt8) (o : ℕ) (out : List UInt8) : Except NameFault (ℕ × List UInt8) :=
  if c = jsonQuote ∨ c = jsonBackslash then do
    let out ← storeAt o [jsonBackslash] out
    let out ← storeAt (o + 1) [c] out
    .ok (o + 2, out)
  else if c < 0x20 then do
    let out ← storeAt o (snprintf (n - o) (u04x c)) out
    .ok (o + (u04x c).length, out)
  else do
    let out ← storeAt o [c] out
    .ok (o + 1, out)

/-- The loop of `jstr`. No buffer is within seven bytes of the whole address space, so
`o + 7` does not wrap. -/
def jstrLoop (n : ℕ) : List UInt8 → ℕ → List UInt8 → Except NameFault (ℕ × List UInt8)
  | [], _, _ => .error .fetch
  | c :: s, o, out =>
    if c ≠ 0 ∧ o + 7 < n then do
      let (o, out) ← jstrByte n c o out
      jstrLoop n s o out
    else .ok (o, out)

def jstr (out : List UInt8) (n : ℕ) (s : Option (List UInt8)) : Except NameFault (List UInt8) := do
  let (o, out) ← match s with
    | none => .ok (0, out)
    | some s => jstrLoop n s 0 out
  storeAt o [0] out

def pointed (s : Option (List UInt8)) : CStr := cstr (s.getD [])

/-- `sizeof(name)`, and of `a` and `b`. -/
def STATUS_NAME_LEN : ℕ := 80

/-- The locals of `status_get` that `jstr` fills, one after the other for every channel. -/
structure NameBufs where
  name : List UInt8
  a : List UInt8
  b : List UInt8

def ascii (s : String) : List UInt8 := s.toList.map fun c => UInt8.ofNat c.toNat

/-- The text of `%s` is read up to its NUL, out of memory that may go on behind the
buffer. -/
def channelText (first : Bool) (m : NameBufs) : List UInt8 :=
  (if first then [] else ascii ",") ++ ascii "\x7b\"name\":\"" ++ cstr m.name ++ ascii "\",\"tx_channel\":\"" ++ cstr m.a ++
    ascii "\",\"tx_device\":\"" ++ cstr m.b ++ ascii "\"\x7d"

def escapeNames (friendly txChannel txDevice : List UInt8) (m : NameBufs) : Except NameFault NameBufs := do
  let name ← jstr m.name STATUS_NAME_LEN (some friendly)
  let a ← jstr m.a STATUS_NAME_LEN (some txChannel)
  let b ← jstr m.b STATUS_NAME_LEN (some txDevice)
  .ok { name := name, a := a, b := b }

end Inferno
