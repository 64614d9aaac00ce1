import Inferno.Lib.Trace
import Inferno.Spec.Telem

/-! The event ring with two producers. Nothing is torn and nothing read twice as long as
the lower producer, once the higher one has published over it, stores no more. -/

namespace Inferno

open Lib

/-- The next access of a call that has not returned. -/
def pushOn (t : TelemMem × Option Push) : TelemMem × Option Push :=
  match t.2 with
  | some x => pushAccess t.1 x
  | none => t

/-- Undisturbed, the accesses of a call are `telem_push`. -/
theorem push_alone (m : TelemMem) (c : TelemCall) : pushOn^[10] (m, some ⟨c, .readWr⟩) = (telemPush m c, none) := by
  by_cases hfull : (m.wr + 1) % RING_N = m.rd
  · simp [Function.iterate_succ, pushOn, pushAccess, telemPush, hfull]
  · have hslot : c.slot = Function.update (Function.update (Function.update (Function.update (Function.update
        (Function.update (Function.update (m.ring m.wr) 0 (c.slot 0)) 1 (c.slot 1)) 2 (c.slot 2)) 3 (c.slot 3))
        4 (c.slot 4)) 5 (c.slot 5)) 6 (c.slot 6) := by
      funext f
      fin_cases f <;> simp [Function.update]
    rw [telemPush]
    simp only [hfull, if_false]
    rw [hslot]
    simp [Function.iterate_succ, pushOn, pushAccess, hfull]

/-- What is published and not yet taken lies in its slots, at most `RING_N - 1` records. -/
structure TelemMemInv (m : TelemMem) : Prop where
  wr : m.wr = m.published.length % RING_N
  rd : m.rd = m.taken % RING_N
  le : m.taken ≤ m.published.length
  room : m.published.length ≤ m.taken + 255
  live : ∀ i c, m.taken ≤ i → m.published[i]? = some c → m.ring (i % RING_N) = c.slot
  nodup : m.published.Nodup

theorem TelemMemInv.full_iff {m : TelemMem} (h : TelemMemInv m) :
    (m.wr + 1) % RING_N = m.rd ↔ m.published.length = m.taken + 255 := by
  have hle := h.le
  have hroom := h.room
  rw [h.wr, h.rd]
  simp only [RING_N]
  omega

/-- A ring found not full has room for the record and the gap behind it. -/
theorem TelemMemInv.room_of_not_full {m : TelemMem} (h : TelemMemInv m) (hfull : ¬ (m.wr + 1) % RING_N = m.rd) :
    m.published.length ≤ m.taken + 254 := by
  rw [h.full_iff] at hfull
  have := h.room
  omega

theorem TelemMemInv.empty_iff {m : TelemMem} (h : TelemMemInv m) : m.rd = m.wr ↔ m.taken = m.published.length := by
  have hle := h.le
  have hroom := h.room
  rw [h.wr, h.rd]
  simp only [RING_N]
  omega

/-- With room left, the slot at `s_wr` holds nothing that is still to be read. -/
theorem TelemMemInv.store {m : TelemMem} (h : TelemMemInv m) (hroom : m.published.length ≤ m.taken + 254) (s : Slot) :
    TelemMemInv { m with ring := Function.update m.ring m.wr s } where
  wr := h.wr
  rd := h.rd
  le := h.le
  room := h.room
  live i c hi hc := by
    have hi : m.taken ≤ i := hi
    have hlt : i < m.published.length := (List.getElem?_eq_some_iff.mp hc).1
    have hne : i % RING_N ≠ m.wr := by
      rw [h.wr]
      simp only [RING_N]
      omega
    show Function.update m.ring m.wr s (i % RING_N) = c.slot
    rw [Function.update_of_ne hne]
    exact h.live i c hi hc
  nodup := h.nodup

theorem TelemMemInv.publish {m : TelemMem} (h : TelemMemInv m) (hroom : m.published.length ≤ m.taken + 254)
    {c : TelemCall} (hslot : m.ring m.wr = c.slot) (hnew : c ∉ m.published) :
    TelemMemInv { m with wr := (m.wr + 1) % RING_N, published := m.published ++ [c] } where
  wr := by
    show (m.wr + 1) % RING_N = (m.published ++ [c]).length % RING_N
    rw [h.wr, List.length_append, List.length_singleton]
    simp only [RING_N]
    omega
  rd := h.rd
  le := by
    have := h.le
    simp only [List.length_append, List.length_singleton]
    omega
  room := by
    simp only [List.length_append, List.length_singleton]
    omega
  live i c' hi hc := by
    have hc : (m.published ++ [c])[i]? = some c' := hc
    rcases Nat.lt_or_ge i m.published.length with hlt | hge
    · rw [List.getElem?_append_left hlt] at hc
      exact h.live i c' hi hc
    · rw [List.getElem?_append_right hge, List.getElem?_singleton] at hc
      split_ifs at hc with h0
      obtain rfl := Option.some.inj hc
      have hi : i = m.published.length := by omega
      show m.ring (i % RING_N) = c.slot
      rw [hi, ← h.wr, hslot]
  nodup := by
    rw [← List.concat_eq_append, List.nodup_concat]
    exact ⟨hnew, h.nodup⟩

/-- Where a call stands whose `seen` is still the number of calls published: it has the
current index, room for its record, and, while it is alone, its stored fields in the slot. -/
def PushAt (m : TelemMem) (alone : Prop) (x : Push) : Prop :=
  match x.pc with
  | .readWr => True
  | .readRd w seen => seen ≤ m.published.length ∧ (seen = m.published.length → w = m.wr)
  | .store w seen j => seen ≤ m.published.length ∧ (seen = m.published.length →
      w = m.wr ∧ m.published.length ≤ m.taken + 254 ∧ (alone → ∀ f : Fin 7, f.val < j → m.ring w f = x.call.slot f))

def PushPc.Current (m : TelemMem) : PushPc → Prop
  | .readWr => True
  | .readRd _ seen => m.published.length = seen
  | .store _ seen _ => m.published.length = seen

def PushPc.Storing : PushPc → Prop
  | .store _ _ _ => True
  | _ => False

def DrainAt (m : TelemMem) : DrainPc → Prop
  | .look => True
  | .copy j got => ∃ c, m.published[m.taken]? = some c ∧ ∀ f : Fin 7, f.val < j → got f = c.slot f
  | .advance => m.taken < m.published.length
  | .skip w upTo => m.taken ≤ upTo ∧ upTo ≤ m.published.length ∧ w = upTo % RING_N

/-- The records before this one may have been copied out. -/
def copied (m : TelemMem) : DrainPc → ℕ
  | .advance => m.taken + 1
  | _ => m.taken

def Underway (s : Telem) (x : Push) : Prop := x.call ∈ s.begun ∧ x.call ∉ s.m.published

structure TelemInv (s : Telem) : Prop where
  mem : TelemMemInv s.m
  numbered : s.begun.map TelemCall.no = List.range s.begun.length
  sub : ∀ c ∈ s.m.published, c ∈ s.begun
  hi : ∀ x, s.hi = some x → Underway s x ∧ PushAt s.m True x ∧ x.pc.Current s.m
  lo : ∀ x, s.lo = some x → Underway s x ∧ PushAt s.m (∀ y, s.hi = some y → ¬ y.pc.Storing) x
  apart : ∀ x y, s.lo = some x → s.hi = some y → x.call ≠ y.call
  drain : DrainAt s.m s.drain
  out : ∃ cs : List TelemCall, s.out = cs.map TelemCall.slot ∧ cs.Sublist (s.m.published.take (copied s.m s.drain))

theorem drainAt_publish {m : TelemMem} (c : TelemCall) (wr : ℕ) {pc : DrainPc} (h : DrainAt m pc) :
    DrainAt { m with wr := wr, published := m.published ++ [c] } pc := by
  cases pc with
  | look => trivial
  | copy j got =>
    obtain ⟨c', hc, hgot⟩ := h
    exact ⟨c', by rw [List.getElem?_append_left (List.getElem?_eq_some_iff.mp hc).1, hc], hgot⟩
  | advance =>
    simp only [DrainAt, List.length_append] at h ⊢
    omega
  | skip w upTo =>
    simp only [DrainAt, List.length_append] at h ⊢
    omega

theorem copied_le {m : TelemMem} (hm : TelemMemInv m) {pc : DrainPc} (h : DrainAt m pc) :
    copied m pc ≤ m.published.length := by
  cases pc with
  | advance => exact h
  | look => exact hm.le
  | copy j got => exact hm.le
  | skip w upTo => exact hm.le

/-- A call stands where it stood while nothing is published, and while what it has stored
stays for as long as it is alone. -/
theorem PushAt.same {m m' : TelemMem} {alone alone' : Prop} {x : Push} (h : PushAt m alone x)
    (hp : m'.published = m.published) (hw : m'.wr = m.wr) (ht : m.taken ≤ m'.taken)
    (hf : alone' → alone ∧ m'.ring = m.ring) : PushAt m' alone' x := by
  unfold PushAt at h ⊢
  rw [hp, hw]
  cases hpc : x.pc with
  | readWr => trivial
  | readRd w seen =>
    rw [hpc] at h
    exact h
  | store w seen j =>
    rw [hpc] at h
    refine ⟨h.1, fun hs => ?_⟩
    obtain ⟨hat, hroom, hstored⟩ := h.2 hs
    refine ⟨hat, by omega, fun ha f hlt => ?_⟩
    rw [(hf ha).2]
    exact hstored (hf ha).1 f hlt

theorem PushAt.taken {m : TelemMem} {alone : Prop} {x : Push} (h : PushAt m alone x) {rd taken : ℕ}
    (ht : m.taken ≤ taken) : PushAt { m with rd := rd, taken := taken } alone x :=
  h.same rfl rfl ht fun ha => ⟨ha, rfl⟩

theorem PushAt.mono {m : TelemMem} {alone alone' : Prop} {x : Push} (h : PushAt m alone x) (ha : alone' → alone) :
    PushAt m alone' x :=
  h.same rfl rfl le_rfl fun h' => ⟨ha h', rfl⟩

theorem PushAt.ring {m : TelemMem} {alone : Prop} {x : Push} (h : PushAt m alone x) (hna : ¬ alone) (ring : ℕ → Slot) :
    PushAt { m with ring := ring } alone x :=
  h.same rfl rfl le_rfl fun h' => absurd h' hna

theorem telemInv_take {s : Telem} (h : TelemInv s) {taken : ℕ} (h1 : s.m.taken ≤ taken)
    (h2 : taken ≤ s.m.published.length) (hc : copied s.m s.drain ≤ taken) :
    TelemInv { s with m := { s.m with rd := taken % RING_N, taken := taken }, drain := .look } := by
  obtain ⟨cs, hout, hsub⟩ := h.out
  have hroom := h.mem.room
  exact
    { mem :=
        { wr := h.mem.wr
          rd := rfl
          le := h2
          room := by simp only; omega
          live := fun i c hi hc => h.mem.live i c (h1.trans hi) hc
          nodup := h.mem.nodup }
      numbered := h.numbered
      sub := h.sub
      hi := fun x hx => by
        obtain ⟨hu, hat, hcur⟩ := h.hi x hx
        refine ⟨hu, hat.taken h1, ?_⟩
        cases hpc : x.pc <;> rw [hpc] at hcur <;> exact hcur
      lo := fun x hx => ⟨(h.lo x hx).1, (h.lo x hx).2.taken h1⟩
      apart := h.apart
      drain := trivial
      out := ⟨cs, hout, hsub.trans (List.take_sublist_take_left hc)⟩ }

/-- The drain sees whole records only, each of them once. -/
theorem telemInv_drain {s : Telem} (h : TelemInv s) (listening : Bool) : TelemInv (s.next (.drain listening)) := by
  obtain ⟨cs, hout, hsub⟩ := h.out
  have hdrain := h.drain
  have hle := h.mem.le
  simp only [Telem.next]
  cases hpc : s.drain with
  | look =>
    rw [hpc] at hdrain hsub
    simp only [drainAccess]
    rcases listening with _ | _
    · refine { h with drain := ⟨h.mem.le, le_rfl, h.mem.wr⟩, out := ⟨cs, by simp [hout], hsub⟩ }
    · simp only [Bool.not_true, Bool.false_eq_true, if_false]
      split_ifs with he
      · exact { h with drain := trivial, out := ⟨cs, by simp [hout], hsub⟩ }
      · -- something is published and not taken
        have hlt : s.m.taken < s.m.published.length := by
          rw [h.mem.empty_iff] at he
          omega
        exact { h with
          drain := ⟨_, List.getElem?_eq_getElem hlt, fun f hf => absurd hf (Nat.not_lt_zero _)⟩
          out := ⟨cs, by simp [hout], hsub⟩ }
  | copy j got =>
    rw [hpc] at hdrain hsub
    obtain ⟨c, hc, hgot⟩ := hdrain
    have hslot : s.m.ring s.m.rd = c.slot := by
      rw [h.mem.rd]
      exact h.mem.live _ c le_rfl hc
    simp only [drainAccess]
    split_ifs with hj
    · refine { h with drain := ⟨c, hc, fun f hf => ?_⟩, out := ⟨cs, by simp [hout], hsub⟩ }
      rcases Nat.lt_or_ge f.val j with hlt | hge
      · rw [Function.update_of_ne (by rw [ne_eq, Fin.ext_iff]; simp only; omega)]
        exact hgot f hlt
      · obtain rfl : f = ⟨j, hj⟩ := Fin.ext (by simp only; omega)
        rw [Function.update_self, hslot]
    · -- the copy is complete: it is record `taken`
      have hrec : got = c.slot := funext fun f => hgot f (by omega)
      have hlt := (List.getElem?_eq_some_iff.mp hc).1
      refine { h with drain := hlt, out := ⟨cs ++ [c], by simp [hout, hrec], ?_⟩ }
      have htake : s.m.published.take (s.m.taken + 1) = s.m.published.take s.m.taken ++ [c] := by
        rw [List.take_add_one, hc, Option.toList_some]
      show (cs ++ [c]).Sublist (s.m.published.take (s.m.taken + 1))
      rw [htake]
      exact hsub.append (List.Sublist.refl _)
  | advance =>
    rw [hpc] at hdrain
    have hrd : (s.m.rd + 1) % RING_N = (s.m.taken + 1) % RING_N := by
      rw [h.mem.rd]
      simp only [RING_N]
      omega
    have hnext := telemInv_take h (Nat.le_succ s.m.taken) hdrain (by rw [hpc]; exact le_rfl)
    simpa only [drainAccess, hrd, Option.toList_none, List.append_nil] using hnext
  | skip w upTo =>
    rw [hpc] at hdrain
    obtain ⟨h1, h2, hw⟩ := hdrain
    have hnext := telemInv_take h h1 h2 (by rw [hpc]; exact h1)
    simpa only [drainAccess, ← hw, Option.toList_none, List.append_nil] using hnext

theorem PushAt.publish {m : TelemMem} {alone alone' : Prop} {x : Push} (h : PushAt m alone x) (wr : ℕ)
    (c : TelemCall) : PushAt { m with wr := wr, published := m.published ++ [c] } alone' x := by
  unfold PushAt at h ⊢
  cases hpc : x.pc with
  | readWr => trivial
  | readRd w seen =>
    rw [hpc] at h
    have hle : seen ≤ m.published.length := h.1
    simp only [List.length_append, List.length_singleton]
    exact ⟨by omega, fun hs => absurd hs (by omega)⟩
  | store w seen j =>
    rw [hpc] at h
    have hle : seen ≤ m.published.length := h.1
    simp only [List.length_append, List.length_singleton]
    exact ⟨by omega, fun hs => absurd hs (by omega)⟩

theorem stored_succ {ring : ℕ → Slot} {w j : ℕ} {t : Slot} (hj : j < 7)
    (h : ∀ f : Fin 7, f.val < j → ring w f = t f) :
    ∀ f : Fin 7, f.val < j + 1 →
      Function.update ring w (Function.update (ring w) ⟨j, hj⟩ (t ⟨j, hj⟩)) w f = t f := by
  intro f hf
  rw [Function.update_self]
  rcases Nat.lt_or_ge f.val j with hlt | hge
  · rw [Function.update_of_ne (by rw [ne_eq, Fin.ext_iff]; simp only; omega)]
    exact h f hlt
  · obtain rfl : f = ⟨j, hj⟩ := Fin.ext (by simp only; omega)
    rw [Function.update_self]

theorem telemInv_publish {s : Telem} (h : TelemInv s) {x : Push} (hu : Underway s x)
    (hroom : s.m.published.length ≤ s.m.taken + 254) (hslot : s.m.ring s.m.wr = x.call.slot) :
    TelemMemInv { s.m with wr := (s.m.wr + 1) % RING_N, published := s.m.published ++ [x.call] } ∧
      (∀ c ∈ s.m.published ++ [x.call], c ∈ s.begun) ∧
      ∃ cs : List TelemCall, s.out = cs.map TelemCall.slot ∧
        cs.Sublist ((s.m.published ++ [x.call]).take (copied s.m s.drain)) := by
  obtain ⟨cs, hout, hsub⟩ := h.out
  refine ⟨h.mem.publish hroom hslot hu.2, fun c hc => ?_, cs, hout, ?_⟩
  · rcases List.mem_append.mp hc with hc | hc
    · exact h.sub c hc
    · rw [List.mem_singleton.mp hc]
      exact hu.1
  · rwa [List.take_append_of_le_length (copied_le h.mem h.drain)]

theorem telemInv_pushHi {s : Telem} (h : TelemInv s) : TelemInv (s.next .pushHi) := by
  simp only [Telem.next]
  cases hx : s.hi with
  | none => exact h
  | some x =>
    obtain ⟨hu, hat, hcur⟩ := h.hi x hx
    have hap : ∀ y, s.lo = some y → y.call ≠ x.call := fun y hy => h.apart y x hy hx
    have hlo := h.lo
    rw [hx] at hlo
    obtain ⟨c, pc⟩ := x
    cases pc with
    | readWr =>
      simp only [pushAccess]
      exact { h with
        hi := fun y hy => by
          cases hy
          exact ⟨hu, ⟨le_rfl, fun _ => rfl⟩, rfl⟩
        lo := fun y hy => ⟨(hlo y hy).1, (hlo y hy).2.mono fun _ z hz => by cases hz; exact not_false⟩
        apart := fun y z hy hz => by
          cases hz
          exact hap y hy }
    | readRd w seen =>
      have hw : w = s.m.wr := hat.2 hcur.symm
      simp only [pushAccess]
      split_ifs with hfull
      · exact { h with
          hi := fun y hy => by cases hy
          lo := fun y hy => ⟨(hlo y hy).1, (hlo y hy).2.mono fun _ z hz => by cases hz; exact not_false⟩
          apart := fun y z _ hz => by cases hz }
      · rw [hw] at hfull
        have hroom := h.mem.room_of_not_full hfull
        exact { h with
          hi := fun y hy => by
            cases hy
            exact ⟨hu, ⟨hat.1, fun _ => ⟨hw, hroom, fun _ f hf => absurd hf (Nat.not_lt_zero _)⟩⟩, hcur⟩
          lo := fun y hy => ⟨(hlo y hy).1, (hlo y hy).2.mono fun _ z hz => by cases hz; exact not_false⟩
          apart := fun y z hy hz => by
            cases hz
            exact hap y hy }
    | store w seen j =>
      obtain ⟨rfl, hroom, hf⟩ := hat.2 hcur.symm
      simp only [pushAccess]
      split_ifs with hj
      · -- the lower producer waits meanwhile, and will find its fields overwritten
        have hna : ¬ ∀ y, some (Push.mk c (.store s.m.wr seen (j + 1))) = some y → ¬ y.pc.Storing := fun hno =>
          hno _ rfl trivial
        exact
          { mem := h.mem.store hroom _
            numbered := h.numbered
            sub := h.sub
            hi := fun y hy => by
              cases hy
              exact ⟨hu, ⟨hat.1, fun _ => ⟨rfl, hroom, fun _ => stored_succ hj (hf trivial)⟩⟩, hcur⟩
            lo := fun y hy =>
              ⟨(hlo y hy).1, ((hlo y hy).2.mono fun hno => absurd hno hna).ring hna _⟩
            apart := fun y z hy hz => by
              cases hz
              exact hap y hy
            drain := h.drain
            out := h.out }
      · obtain ⟨hmem, hsub, hout⟩ := telemInv_publish h hu hroom (funext fun f => hf trivial f (by omega))
        exact
          { mem := hmem
            numbered := h.numbered
            sub := hsub
            hi := fun y hy => by cases hy
            lo := fun y hy => by
              refine ⟨⟨(hlo y hy).1.1, fun hmem => ?_⟩, (hlo y hy).2.publish _ _⟩
              rcases List.mem_append.mp hmem with hm | hm
              · exact (hlo y hy).1.2 hm
              · exact hap y hy (List.mem_singleton.mp hm)
            apart := fun y z _ hz => by cases hz
            drain := drainAt_publish c _ h.drain
            out := hout }

/-- The lower producer comes to a store, or to the publication, only while no call has
published since it read `s_wr`. -/
def PushInTime (s : Telem) : TelemStep → Prop
  | .pushLo => s.hi = none → ∀ x, s.lo = some x → ∀ w seen j, x.pc = .store w seen j → s.m.published.length = seen
  | _ => True

theorem telemInv_pushLo {s : Telem} (h : TelemInv s) (hg : PushInTime s .pushLo) : TelemInv (s.next .pushLo) := by
  simp only [Telem.next]
  cases hy : s.hi with
  | some y => exact h
  | none =>
    cases hx : s.lo with
    | none => exact h
    | some x =>
      obtain ⟨hu, hat⟩ := h.lo x hx
      have halone : ∀ y, s.hi = some y → ¬ y.pc.Storing := fun y hy' => by
        rw [hy] at hy'
        cases hy'
      have hhi : ∀ z, (none : Option Push) = some z → False := fun z hz => by cases hz
      obtain ⟨c, pc⟩ := x
      cases pc with
      | readWr =>
        simp only [pushAccess]
        exact { h with
          hi := fun z hz => by cases hz
          lo := fun z hz => by
            cases hz
            exact ⟨hu, le_rfl, fun _ => rfl⟩
          apart := fun y z _ hz => (hhi z hz).elim }
      | readRd w seen =>
        simp only [pushAccess]
        split_ifs with hfull
        · exact { h with
            hi := fun z hz => (hhi z hz).elim
            lo := fun z hz => (hhi z hz).elim
            apart := fun y z _ hz => (hhi z hz).elim }
        · exact { h with
            hi := fun z hz => (hhi z hz).elim
            lo := fun z hz => by
              cases hz
              refine ⟨hu, hat.1, fun hs => ?_⟩
              have hw : w = s.m.wr := hat.2 hs
              rw [hw] at hfull
              exact ⟨hw, h.mem.room_of_not_full hfull, fun _ f hf => absurd hf (Nat.not_lt_zero _)⟩
            apart := fun y z _ hz => (hhi z hz).elim }
      | store w seen j =>
        obtain ⟨rfl, hroom, hf⟩ := hat.2 (hg hy _ hx w seen j rfl).symm
        simp only [pushAccess]
        split_ifs with hj
        · exact
            { mem := h.mem.store hroom _
              numbered := h.numbered
              sub := h.sub
              hi := fun z hz => (hhi z hz).elim
              lo := fun z hz => by
                cases hz
                exact ⟨hu, hat.1, fun _ => ⟨rfl, hroom, fun _ => stored_succ hj (hf halone)⟩⟩
              apart := fun y z _ hz => (hhi z hz).elim
              drain := h.drain
              out := h.out }
        · obtain ⟨hmem, hsub, hout⟩ := telemInv_publish h hu hroom (funext fun f => hf halone f (by omega))
          exact
            { mem := hmem
              numbered := h.numbered
              sub := hsub
              hi := fun z hz => (hhi z hz).elim
              lo := fun z hz => (hhi z hz).elim
              apart := fun y z _ hz => (hhi z hz).elim
              drain := drainAt_publish c _ h.drain
              out := hout }

theorem TelemInv.no_lt {s : Telem} (h : TelemInv s) {c : TelemCall} (hc : c ∈ s.begun) : c.no < s.begun.length := by
  have hmem := List.mem_map_of_mem (f := TelemCall.no) hc
  rw [h.numbered] at hmem
  exact List.mem_range.mp hmem

theorem telemInv_begin {s : Telem} (h : TelemInv s) (r : TelemRec) :
    (s.begun ++ [TelemCall.mk s.begun.length r]).map TelemCall.no =
        List.range (s.begun ++ [TelemCall.mk s.begun.length r]).length ∧
      (∀ c ∈ s.begun, c ∈ s.begun ++ [TelemCall.mk s.begun.length r]) ∧
      TelemCall.mk s.begun.length r ∉ s.begun := by
  refine ⟨?_, fun c hc => List.mem_append_left _ hc, fun hc => absurd (h.no_lt hc) (lt_irrefl _)⟩
  rw [List.map_append, h.numbered, List.length_append, List.length_singleton, List.range_succ]
  rfl

theorem telemInv_beginHi {s : Telem} (h : TelemInv s) (r : TelemRec) : TelemInv (s.next (.beginHi r)) := by
  obtain ⟨hnum, hsub, hnew⟩ := telemInv_begin h r
  simp only [Telem.next]
  split_ifs with hi
  · exact h
  · have hnone : s.hi = none := by simpa using hi
    have hlo := h.lo
    rw [hnone] at hlo
    exact { h with
      numbered := hnum
      sub := fun c hc => hsub c (h.sub c hc)
      hi := fun x hx => by
        cases hx
        exact ⟨⟨by simp, fun hc => hnew (h.sub _ hc)⟩, trivial, trivial⟩
      lo := fun x hx =>
        ⟨⟨hsub _ (hlo x hx).1.1, (hlo x hx).1.2⟩, (hlo x hx).2.mono fun _ z hz => by cases hz⟩
      apart := fun x y hx hy => by
        cases hy
        intro heq
        have heq : x.call = ⟨s.begun.length, r⟩ := heq
        exact hnew (heq ▸ (hlo x hx).1.1) }

theorem telemInv_beginLo {s : Telem} (h : TelemInv s) (r : TelemRec) : TelemInv (s.next (.beginLo r)) := by
  obtain ⟨hnum, hsub, hnew⟩ := telemInv_begin h r
  simp only [Telem.next]
  split_ifs with hi
  · exact h
  · have hnone : s.hi = none := by
      simp only [Bool.or_eq_true, not_or, Bool.not_eq_true, Option.isSome_eq_false_iff, Option.isNone_iff_eq_none] at hi
      exact hi.1
    exact { h with
      numbered := hnum
      sub := fun c hc => hsub c (h.sub c hc)
      hi := fun x hx => by
        rw [hnone] at hx
        cases hx
      lo := fun x hx => by
        cases hx
        exact ⟨⟨by simp, fun hc => hnew (h.sub _ hc)⟩, trivial⟩
      apart := fun x y _ hy => by
        rw [hnone] at hy
        cases hy }

theorem telemInv_start : TelemInv Telem.start where
  mem :=
    { wr := rfl
      rd := rfl
      le := le_rfl
      room := Nat.zero_le _
      live := fun i c _ hc => absurd hc (by simp [Telem.start])
      nodup := List.nodup_nil }
  numbered := rfl
  sub c hc := absurd hc (by simp [Telem.start])
  hi x hx := by cases hx
  lo x hx := by cases hx
  apart x y hx _ := by cases hx
  drain := trivial
  out := ⟨[], rfl, List.nil_sublist _⟩

theorem telemInv_next {s : Telem} (h : TelemInv s) {e : TelemStep} (hg : PushInTime s e) : TelemInv (s.next e) := by
  cases e with
  | beginLo r => exact telemInv_beginLo h r
  | beginHi r => exact telemInv_beginHi h r
  | pushLo => exact telemInv_pushLo h hg
  | pushHi => exact telemInv_pushHi h
  | drain listening => exact telemInv_drain h listening

def telemAt (l : List TelemStep) (k : ℕ) : Telem := before Telem.next Telem.start l k

/-- Every record copied out was stored, whole, by one call, and no two of them hold a
field of the same call. -/
structure Faithful (s : Telem) : Prop where
  whole : ∀ x ∈ s.out, ∃ c ∈ s.begun, x = c.slot
  once : s.out.Pairwise fun x y => ∀ f g, (x f).call ≠ (y g).call

theorem TelemInv.faithful {s : Telem} (h : TelemInv s) : Faithful s := by
  obtain ⟨cs, hout, hsub⟩ := h.out
  have hmem : ∀ c ∈ cs, c ∈ s.begun := fun c hc => h.sub c (List.mem_of_mem_take (hsub.subset hc))
  have hnodup : cs.Nodup := (h.mem.nodup.sublist (List.take_sublist _ _)).sublist hsub
  constructor
  · intro x hx
    rw [hout] at hx
    obtain ⟨c, hc, rfl⟩ := List.mem_map.mp hx
    exact ⟨c, hmem c hc, rfl⟩
  · rw [hout, List.pairwise_map]
    refine hnodup.imp_of_mem fun {c c'} hc hc' hne f g heq => hne ?_
    have hno : c.no = c'.no := Option.some.inj heq
    have hinj : (s.begun.map TelemCall.no).Nodup := by
      rw [h.numbered]
      exact List.nodup_range
    exact List.inj_on_of_nodup_map hinj (hmem c hc) (hmem c' hc') hno

/-- In every run in which the lower producer stores and publishes only while no call has
published since it read `s_wr`, the drain copies out whole records, each once. -/
theorem telem_ring_faithful (l : List TelemStep) (hg : ∀ k (hk : k < l.length), PushInTime (telemAt l k) l[k]) :
    ∀ k ≤ l.length, Faithful (telemAt l k) := by
  intro k hk
  have h := guarded_run Telem.next (P := fun _ s => TelemInv s) (G := fun _ s e => PushInTime s e) telemInv_start
    (fun _ _ _ h hg => telemInv_next h hg) hg hk
  exact h.faithful

def pushHiAll (r : TelemRec) : List TelemStep := .beginHi r :: List.replicate 10 .pushHi

def drainOne : List TelemStep := List.replicate 10 (.drain true)

def mclkEvent : TelemRec := ⟨1, 2, 8, 1, 0, 0, 0⟩

/-- The lower producer is about to store, or to publish, and a call has published since it
read `s_wr`. -/
def Telem.stale (s : Telem) : Bool :=
  match s.hi, s.lo with
  | none, some ⟨_, .store _ seen _⟩ => decide (s.m.published.length ≠ seen)
  | _, _ => false

theorem pushInTime_iff (s : Telem) (e : TelemStep) : PushInTime s e ↔ (e = .pushLo → s.stale = false) := by
  cases e with
  | pushLo =>
    simp only [PushInTime, Telem.stale, forall_const]
    cases s.hi with
    | some y => simp
    | none =>
      cases s.lo with
      | none => simp
      | some x =>
        rcases x with ⟨c, _ | _ | _⟩ <;> simp
  | beginLo r => simp [PushInTime]
  | beginHi r => simp [PushInTime]
  | pushHi => simp [PushInTime]
  | drain listening => simp [PushInTime]

instance (s : Telem) (e : TelemStep) : Decidable (PushInTime s e) := decidable_of_iff _ (pushInTime_iff s e).symm

/-- The higher producer pushes before the lower one has read `s_wr`, and its record is
drained in the middle of the lower one's stores. -/
def preempted : List TelemStep :=
  [.beginLo mclkEvent] ++ pushHiAll { mclkEvent with type := 3 } ++ List.replicate 5 .pushLo ++ drainOne ++
    List.replicate 5 .pushLo ++ drainOne

theorem telem_ring_faithful_preempted : Faithful (telemAt preempted 42) ∧
    (telemAt preempted 42).out.map (fun x => x 1) = [⟨some 1, 3⟩, ⟨some 0, 2⟩] := by
  have hin : ∀ k (hk : k < preempted.length), PushInTime (telemAt preempted k) preempted[k] := by decide +kernel
  exact ⟨telem_ring_faithful preempted hin 42 (by decide), by decide +kernel⟩

/-- The lower producer has read `s_wr` when the higher one pushes twice and the drain
takes both records; then it stores and publishes, and so sets `s_wr` back. -/
def staleIndex : List TelemStep :=
  [.beginLo mclkEvent, .pushLo, .pushLo] ++ pushHiAll mclkEvent ++ pushHiAll mclkEvent ++ drainOne ++ drainOne ++
    List.replicate 8 .pushLo ++ drainOne

/-- The drain then copies out a slot that no call has ever stored to. -/
theorem stale_index_invents_record : ¬ Faithful (telemAt staleIndex 63) := by
  intro h
  have hnone : (telemAt staleIndex 63).out[2]?.map (fun x => (x 0).call) = some none := by decide +kernel
  obtain ⟨x, hx, hcall⟩ := Option.map_eq_some_iff.mp hnone
  obtain ⟨c, -, rfl⟩ := h.whole x (List.mem_of_getElem? hx)
  exact absurd hcall (by simp [TelemCall.slot])

end Inferno
