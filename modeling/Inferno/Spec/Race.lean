import Inferno.Spec.JitterBuf

/-! Packet writes and anchorings interleaved. A `jb_write` is three atomic steps and a
`jb_reset` or `jb_step_playout` two; any number of them may be under way at once. -/

namespace Inferno

/-- A `jb_write` past its snapshot. `gen` counts the anchorings published before it. -/
structure Pending where
  gen : ℕ
  p : Packet
  sn : Snap

structure Stored where
  gen : ℕ
  w : Written

/-- The buffer, the calls under way in each phase, and the packets stored and reported
written so far. -/
structure Race where
  jb : JitterBuf
  gen : ℕ
  snaps : List Pending
  posts : List Stored
  clears : ℕ
  stored : List Stored
  returned : List Stored

/-- One atomic step of one of the calls. -/
inductive RaceStep where
  | snapshot (now : ℤ) (p : Packet)
  | store (i : ℕ)
  | publish (i : ℕ)
  | reset (now playoutIdx : ℤ)
  | step (deltaFrames : ℤ)
  | clear

def Race.start (jb : JitterBuf) : Race :=
  { jb := jb, gen := 0, snaps := [], posts := [], clears := 0, stored := [], returned := [] }

def Race.next (hz : ℕ) (r : Race) : RaceStep → Race
  | .snapshot now p =>
    match jbWriteBegin hz now p r.jb with
    | (jb, none) => { r with jb := jb }
    | (jb, some sn) => { r with jb := jb, snaps := r.snaps ++ [⟨r.gen, p, sn⟩] }
  | .store i =>
    match r.snaps[i]? with
    | none => r
    | some x =>
      let y : Stored := ⟨x.gen, x.p, r.jb.gainQ16, x.sn⟩
      { r with
        jb := jbWriteStore x.sn x.p r.jb
        snaps := r.snaps.eraseIdx i
        posts := r.posts ++ [y]
        stored := r.stored ++ [y] }
  | .publish i =>
    match r.posts[i]? with
    | none => r
    | some y =>
      { r with
        jb := jbWritePublish y.w.p r.jb
        posts := r.posts.eraseIdx i
        returned := r.returned ++ [y] }
  | .reset now playoutIdx =>
    if !r.jb.ready then r
    else { r with jb := jbResetPublish hz now playoutIdx r.jb, gen := r.gen + 1, clears := r.clears + 1 }
  | .step delta => { r with jb := jbStepPublish delta r.jb, gen := r.gen + 1, clears := r.clears + 1 }
  | .clear => if r.clears = 0 then r else { r with jb := clearRing r.jb, clears := r.clears - 1 }

def Race.AtRest (r : Race) : Prop := r.snaps = [] ∧ r.posts = [] ∧ r.clears = 0

end Inferno
