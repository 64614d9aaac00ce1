import Inferno.Lib.CString
import Inferno.Spec.MediaClock

/-! The event ring of `telem.c`, one memory access at a time: two producers inside
`telem_push`, the higher of which may preempt the lower between any two accesses, and the
drain of `telem_task`. What is stored carries the call that stored it. Also the query that
forces a latency. -/

namespace Inferno

def RING_N : ℕ := 256

structure TelemRec where
  tMs : ℤ
  type : ℤ
  flags : ℤ
  a : ℤ
  b : ℤ
  c : ℤ
  d : ℤ
  deriving DecidableEq, Repr

def TelemRec.field (r : TelemRec) : Fin 7 → ℤ := ![r.tMs, r.type, r.flags, r.a, r.b, r.c, r.d]

/-- A field of a slot: the call that stored it, if one did, and the value. -/
structure Cell where
  call : Option ℕ
  val : ℤ
  deriving DecidableEq, Repr

abbrev Slot := Fin 7 → Cell

structure TelemCall where
  no : ℕ
  r : TelemRec
  deriving DecidableEq, Repr

/-- The slot a call leaves behind when nothing disturbs it. -/
def TelemCall.slot (c : TelemCall) : Slot := fun f => ⟨some c.no, c.r.field f⟩

/-- The ring and its indices, with the calls published and the records taken so far. -/
structure TelemMem where
  ring : ℕ → Slot
  wr : ℕ
  rd : ℕ
  published : List TelemCall
  taken : ℕ

/-- Where a call is. `w` is the index it read, `seen` how many calls had published then,
and `j` fields are stored. -/
inductive PushPc where
  | readWr
  | readRd (w seen : ℕ)
  | store (w seen j : ℕ)
  deriving DecidableEq

structure Push where
  call : TelemCall
  pc : PushPc
  deriving DecidableEq

/-- The next access of a `telem_push`; `none` once it has returned. -/
def pushAccess (m : TelemMem) (x : Push) : TelemMem × Option Push :=
  match x.pc with
  | .readWr => (m, some { x with pc := .readRd m.wr m.published.length })
  | .readRd w seen => if (w + 1) % RING_N = m.rd then (m, none) else (m, some { x with pc := .store w seen 0 })
  | .store w seen j =>
    if h : j < 7 then
      ({ m with ring := Function.update m.ring w (Function.update (m.ring w) ⟨j, h⟩ (x.call.slot ⟨j, h⟩)) },
        some { x with pc := .store w seen (j + 1) })
    else ({ m with wr := (w + 1) % RING_N, published := m.published ++ [x.call] }, none)

def telemPush (m : TelemMem) (c : TelemCall) : TelemMem :=
  let next := (m.wr + 1) % RING_N
  if next = m.rd then m
  else { m with ring := Function.update m.ring m.wr c.slot, wr := next, published := m.published ++ [c] }

/-- Where the drain is: at the test of its loop, `j` fields into a `memcpy`, about to move
`s_rd` on, or about to set it to the `s_wr` it read while nobody listens. -/
inductive DrainPc where
  | look
  | copy (j : ℕ) (got : Slot)
  | advance
  | skip (w upTo : ℕ)

/-- The next access of the drain, and the record whose copy it completes. `listening` is
`s_dest_ip` as the loop finds it. -/
def drainAccess (m : TelemMem) (pc : DrainPc) (listening : Bool) : TelemMem × DrainPc × Option Slot :=
  match pc with
  | .look =>
    if !listening then (m, .skip m.wr m.published.length, none)
    else if m.rd = m.wr then (m, .look, none)
    else (m, .copy 0 fun _ => ⟨none, 0⟩, none)
  | .copy j got =>
    if h : j < 7 then (m, .copy (j + 1) (Function.update got ⟨j, h⟩ (m.ring m.rd ⟨j, h⟩)), none)
    else (m, .advance, some got)
  | .advance => ({ m with rd := (m.rd + 1) % RING_N, taken := m.taken + 1 }, .look, none)
  | .skip w upTo => ({ m with rd := w, taken := upTo }, .look, none)

/-- The ring, the two producers, the drain, the calls begun and the records copied out. -/
structure Telem where
  m : TelemMem
  lo : Option Push
  hi : Option Push
  drain : DrainPc
  begun : List TelemCall
  out : List Slot

def Telem.start : Telem where
  m := { ring := fun _ _ => ⟨none, 0⟩, wr := 0, rd := 0, published := [], taken := 0 }
  lo := none
  hi := none
  drain := .look
  begun := []
  out := []

/-- A producer enters `telem_push`, or makes its next access, or the drain does. -/
inductive TelemStep where
  | beginLo (r : TelemRec)
  | beginHi (r : TelemRec)
  | pushLo
  | pushHi
  | drain (listening : Bool)
  deriving DecidableEq

/-- The lower producer stands still while the higher one is inside `telem_push`. -/
def Telem.next (s : Telem) : TelemStep → Telem
  | .beginLo r =>
    if s.hi.isSome || s.lo.isSome then s
    else { s with lo := some ⟨⟨s.begun.length, r⟩, .readWr⟩, begun := s.begun ++ [⟨s.begun.length, r⟩] }
  | .beginHi r =>
    if s.hi.isSome then s
    else { s with hi := some ⟨⟨s.begun.length, r⟩, .readWr⟩, begun := s.begun ++ [⟨s.begun.length, r⟩] }
  | .pushLo =>
    match s.hi, s.lo with
    | none, some x => { s with m := (pushAccess s.m x).1, lo := (pushAccess s.m x).2 }
    | _, _ => s
  | .pushHi =>
    match s.hi with
    | some x => { s with m := (pushAccess s.m x).1, hi := (pushAccess s.m x).2 }
    | none => s
  | .drain listening =>
    let t := drainAccess s.m s.drain listening
    { s with m := t.1, drain := t.2.1, out := s.out ++ t.2.2.toList }

/-- What a query leaves in `char q[8]`: `telem_task` puts a NUL in the last byte. -/
def queryText (q : List UInt8) : List UInt8 := q.take 7

def forcedUs (q : List UInt8) : ℕ := asU32 (Lib.atoi (queryText q).tail)

def forceQuery (prof : RateProfile) (i : ClockIn) (q : List UInt8) (c : MediaClock) : MediaClock :=
  if q.head? = some 0x46 then mclkForceLatencyUs prof i (forcedUs q) c else c

end Inferno
