import Inferno.Sanity.PathTurn
import Inferno.Proofs.PathDelay

/-! What a path-delay sample is made of. Every stamp a sample uses is followed back to the
event that took it. The steps of the clock drop what was taken before them; the end of the
frequency estimate does not, so a Delay_Resp soon after it can bring a sample from before. -/

namespace Inferno

open Lib

variable {D : Type} (A : Dbl D)

/-- The slave with, for what a sample is made of, the events that took its stamps: of `t2`,
of `t3`, of every `t2` behind the latest `t2 - t1`, and of every `t2` whose offset is in
the servo window. -/
structure StampedPtp (D : Type) where
  p : Ptp D
  now : ℕ
  t2At : ℕ
  t3At : ℕ
  msFrom : List ℕ
  winFrom : List ℕ

/-- The event that took the `t2` that stands after event `e`. -/
def StampedPtp.t2Next (r : StampedPtp D) (e : PtpEvent) : ℕ := if recordsT2 r.p e then r.now else r.t2At

/-- A `t2 - t1` that is formed may be replaced by the low edge of the window, so what the
window holds counts as behind it. An offset that enters the window moves its position. -/
def StampedPtp.step (r : StampedPtp D) (e : PtpEvent) : StampedPtp D where
  p := ptpStep A r.p e
  now := r.now + 1
  t2At := r.t2Next e
  t3At := if (sentReq r.p e).isSome then r.now else r.t3At
  msFrom := if forms A r.p e then r.t2Next e :: r.winFrom else r.msFrom
  winFrom :=
    if (ptpStep A r.p e).servo.winCount = 0 then []
    else if (ptpStep A r.p e).servo.winPos = r.p.servo.winPos then r.winFrom
    else r.t2Next e :: r.winFrom

def stampedAt (mac : List UInt8) (l : List PtpEvent) (k : ℕ) : StampedPtp D :=
  before (StampedPtp.step A) ⟨ptpv1Start A mac, 0, 0, 0, [], []⟩ l k

theorem stampedAt_zero (mac : List UInt8) (l : List PtpEvent) :
    stampedAt A mac l 0 = ⟨ptpv1Start A mac, 0, 0, 0, [], []⟩ :=
  before_zero (StampedPtp.step A) _ l

theorem stampedAt_succ (mac : List UInt8) (l : List PtpEvent) {k : ℕ} (hk : k < l.length) :
    stampedAt A mac l (k + 1) = (stampedAt A mac l k).step A l[k] :=
  before_succ (StampedPtp.step A) _ l hk

theorem ptpAt_succ (mac : List UInt8) (l : List PtpEvent) {k : ℕ} (hk : k < l.length) :
    ptpAt A mac l (k + 1) = ptpStep A (ptpAt A mac l k) l[k] :=
  before_succ (ptpStep A) _ l hk

theorem stampedAt_run (mac : List UInt8) (l : List PtpEvent) {k : ℕ} (hk : k ≤ l.length) :
    (stampedAt A mac l k).p = ptpAt A mac l k ∧ (stampedAt A mac l k).now = k := by
  induction k with
  | zero => exact ⟨by rw [stampedAt_zero, ptpAt, before_zero], by rw [stampedAt_zero]⟩
  | succ k ih =>
    obtain ⟨hp, hnow⟩ := ih (Nat.le_of_succ_le hk)
    rw [stampedAt_succ A mac l hk, ptpAt_succ A mac l hk]
    exact ⟨by rw [StampedPtp.step, hp], by rw [StampedPtp.step, hnow]⟩

/-- `P` holds of event `k` of a run and the slave it finds. -/
def Occurs (mac : List UInt8) (l : List PtpEvent) (P : Ptp D → PtpEvent → Prop) (k : ℕ) : Prop :=
  ∃ hk : k < l.length, P (ptpAt A mac l k) l[k]

theorem occurs_succ {mac : List UInt8} {l : List PtpEvent} {P : Ptp D → PtpEvent → Prop} {n m : ℕ}
    (hn : n < l.length) (hm : m < n + 1) (h : Occurs A mac l P m) :
    (m < n ∧ Occurs A mac l P m) ∨ (m = n ∧ P (ptpAt A mac l n) l[n]) := by
  rcases Nat.lt_succ_iff_lt_or_eq.mp hm with hlt | rfl
  · exact .inl ⟨hlt, h⟩
  · exact .inr ⟨rfl, h.snd⟩

/-- Our clock steps, or the rate it is corrected by is changed for the estimate. -/
def Discontinuity (p : Ptp D) (e : PtpEvent) : Prop := stepsClock A p e = true ∨ endsEstimate A p e = true

theorem news_eq {p : Ptp D} {e : PtpEvent} {new : List PtpOut} (h : (ptpStep A p e).out = p.out ++ new) :
    news A p e = new := by
  rw [news, h, List.drop_left]

theorem news_nil {p : Ptp D} {e : PtpEvent} (h : (ptpStep A p e).out = p.out) : news A p e = [] :=
  news_eq A (h.trans (List.append_nil _).symm)

theorem quiet_of_out {p : Ptp D} {e : PtpEvent} (hout : (ptpStep A p e).out = p.out)
    (hsv : (ptpStep A p e).servo = p.servo) : forms A p e = false ∧ stepsClock A p e = false ∧ ¬ Discontinuity A p e := by
  have hn := news_nil A hout
  refine ⟨by simp [forms, hn], by simp [stepsClock, hn], ?_⟩
  rintro (h | h)
  · simp [stepsClock, hn] at h
  · rw [endsEstimate, hsv] at h
    cases hd : p.servo.estDone <;> simp [hd] at h

/-- A discontinuity comes with a pair formed, and leaves the window empty; a step of the
clock drops both halves. -/
theorem discontinuity_turn {p : Ptp D} {e : PtpEvent} (hw : p.servo.estDone = false → p.servo.winCount = 0)
    (h : Discontinuity A p e) :
    sentReq p e = none ∧ (ptpStep A p e).awaitingFollowup = false ∧ (ptpStep A p e).servo.winCount = 0 ∧
      (stepsClock A p e = true → (ptpStep A p e).haveT3 = false ∧ (ptpStep A p e).haveMs = false) := by
  cases ptpStep_pathTurn A p e with
  | other hq hr hout ha ht h3 hms hsv => exact absurd h (quiet_of_out A hout hsv).2.2
  | request hq hr hout ha ht h3 hms hsv => exact absurd h (quiet_of_out A hout hsv).2.2
  | twoStep hq hr hout ht h3 hms hsv => exact absurd h (quiet_of_out A hout hsv).2.2
  | @formed t1 t2 hq hr ha ht hacq =>
    refine ⟨hq, ha, ?_⟩
    cases hacq with
    | stepped new hout hpair hnew h3 hms hwin he => exact ⟨hwin, fun _ => ⟨h3, hms⟩⟩
    | kept new hout hpair hnew h3 he hwin =>
      have hns : stepsClock A p e = false := by
        have hn : news A p e = .formed t1 t2 :: new := news_eq A (hout.trans (List.append_assoc _ _ _))
        rw [stepsClock, hn, List.any_cons, hnew]
        rfl
      refine ⟨?_, fun h => absurd (hns.symm.trans h) Bool.false_ne_true⟩
      have hend : endsEstimate A p e = true := h.resolve_left (by rw [hns]; exact Bool.false_ne_true)
      simp only [endsEstimate, Bool.and_eq_true, Bool.not_eq_true'] at hend
      exact (hwin hend.1).trans (hw hend.1)

theorem forms_turn {p : Ptp D} {e : PtpEvent}
    (h : forms A p e = true ∨ (ptpStep A p e).servo.winPos ≠ p.servo.winPos) :
    recordsT2 p e = true ∨ p.awaitingFollowup = true := by
  cases ptpStep_pathTurn A p e with
  | other hq hr hout ha ht h3 hms hsv => simp [(quiet_of_out A hout hsv).1, hsv] at h
  | request hq hr hout ha ht h3 hms hsv => simp [(quiet_of_out A hout hsv).1, hsv] at h
  | twoStep hq hr hout ht h3 hms hsv => exact .inl hr
  | formed hq hr ha ht hacq => exact hr

theorem awaiting_turn {p : Ptp D} {e : PtpEvent} (h : (ptpStep A p e).awaitingFollowup = true) :
    recordsT2 p e = true ∨ p.awaitingFollowup = true := by
  cases ptpStep_pathTurn A p e with
  | other hq hr hout ha ht h3 hms hsv => exact .inr (ha h)
  | request hq hr hout ha ht h3 hms hsv => exact .inr (ha.symm.trans h)
  | twoStep hq hr hout ht h3 hms hsv => exact .inl hr
  | formed hq hr ha ht hacq => exact hr

theorem not_forms_turn {p : Ptp D} {e : PtpEvent} (h : forms A p e = false) :
    (ptpStep A p e).lastMs = p.lastMs ∧ (ptpStep A p e).haveMs = p.haveMs ∧ stepsClock A p e = false := by
  cases ptpStep_pathTurn A p e with
  | other hq hr hout ha ht h3 hms hsv hlm => exact ⟨hlm, hms, (quiet_of_out A hout hsv).2.1⟩
  | request hq hr hout ha ht h3 hms hsv hlm => exact ⟨hlm, hms, (quiet_of_out A hout hsv).2.1⟩
  | twoStep hq hr hout ht h3 hms hsv hlm => exact ⟨hlm, hms, (quiet_of_out A hout hsv).2.1⟩
  | @formed t1 t2 hq hr ha ht hacq =>
    have hnew : ∃ new, (ptpStep A p e).out = (p.out ++ [.formed t1 t2]) ++ new := by
      cases hacq with
      | kept new hout hpair hnew h3 he hwin => exact ⟨new, hout⟩
      | stepped new hout hpair hnew h3 hms hwin he => exact ⟨new, hout⟩
    obtain ⟨new, hout⟩ := hnew
    have hn : news A p e = .formed t1 t2 :: new := news_eq A (hout.trans (List.append_assoc _ _ _))
    simp [forms, hn, PtpOut.pair?] at h

theorem window_turn {p : Ptp D} {e : PtpEvent} (hw : p.servo.estDone = false → p.servo.winCount = 0)
    (he : (ptpStep A p e).servo.estDone = false) : (ptpStep A p e).servo.winCount = 0 := by
  cases ptpStep_pathTurn A p e with
  | other hq hr hout ha ht h3 hms hsv => rw [hsv] at he ⊢; exact hw he
  | request hq hr hout ha ht h3 hms hsv => rw [hsv] at he ⊢; exact hw he
  | twoStep hq hr hout ht h3 hms hsv => rw [hsv] at he ⊢; exact hw he
  | formed hq hr ha ht hacq =>
    cases hacq with
    | stepped new hout hpair hnew h3 hms hwin he' => exact hwin
    | kept new hout hpair hnew h3 he' hwin =>
      have hd : p.servo.estDone = false := by
        cases hd : p.servo.estDone with
        | false => rfl
        | true => exact absurd (he.symm.trans (he' hd)) Bool.false_ne_true
      exact (hwin hd).trans (hw hd)

theorem t3_turn (p : Ptp D) (e : PtpEvent) : (ptpStep A p e).t3 = (sentReq p e).elim p.t3 EthTsTime.ns := by
  cases ptpStep_pathTurn A p e with
  | other hq hr hout ha ht => rw [hq, ht, Option.elim_none]
  | request hq hr hout ha ht => rw [hq, ht, Option.elim_some]
  | twoStep hq hr hout ht => rw [hq, ht, Option.elim_none]
  | formed hq hr ha ht => rw [hq, ht, Option.elim_none]

/-- A pending `t3` stays through an event that brings no request, no Delay_Resp to us and
no step of the clock; the last two end it. -/
theorem haveT3_turn {p : Ptp D} {e : PtpEvent} (hq : sentReq p e = none) :
    (ptpStep A p e).haveT3 = (p.haveT3 && !(respToUs p e).isSome && !stepsClock A p e) := by
  cases ptpStep_pathTurn A p e with
  | other hq' hr hout ha ht h3 hms hsv =>
    rw [(quiet_of_out A hout hsv).2.1]
    cases hto : (respToUs p e).isSome with
    | false => simpa [hto] using h3
    | true => simpa [hto] using h3
  | request hq' hr hout ha ht h3 hms hsv => rw [hq] at hq'; cases hq'
  | twoStep hq' hr hout ht h3 hms hsv hlm hd =>
    rw [(quiet_of_out A hout hsv).2.1, hd, h3]
    simp
  | @formed t1 t2 hq' hr ha ht hacq hd =>
    have hsteps : ∀ new, (ptpStep A p e).out = (p.out ++ [.formed t1 t2]) ++ new →
        stepsClock A p e = new.any PtpOut.isStep := fun new hout => by
      rw [stepsClock, news_eq A (hout.trans (List.append_assoc _ _ _)), List.singleton_append, List.any_cons]
      rfl
    cases hacq with
    | kept new hout hpair hnew h3 he hwin =>
      rw [hsteps new hout, hnew, hd, show (ptpStep A p e).haveT3 = p.haveT3 from h3]
      simp
    | stepped new hout hpair hnew h3 hms hwin he =>
      rw [hsteps new hout, hnew, show (ptpStep A p e).haveT3 = false from h3]
      simp

variable {mac : List UInt8} {l : List PtpEvent}

/-- The awaited `t2` and the window are younger than every discontinuity. -/
structure WindowFresh (mac : List UInt8) (l : List PtpEvent) (n : ℕ) (r : StampedPtp D) : Prop where
  t2_le : r.t2At ≤ n
  t2_after : r.p.awaitingFollowup = true → ∀ m < n, Occurs A mac l (Discontinuity A) m → m < r.t2At
  win_le : ∀ x ∈ r.winFrom, x ≤ n
  win_after : ∀ x ∈ r.winFrom, ∀ m < n, Occurs A mac l (Discontinuity A) m → m < x
  win_empty : r.p.servo.estDone = false → r.p.servo.winCount = 0

/-- What stands in the window after an event stood there before, or has entered with a
`t2` just taken or awaiting its Follow_Up. -/
theorem entered {r : StampedPtp D} {e : PtpEvent} {x : ℕ} (hx : x ∈ (r.step A e).winFrom) :
    (ptpStep A r.p e).servo.winCount ≠ 0 ∧ (x ∈ r.winFrom ∨
      (x = r.t2Next e ∧ (recordsT2 r.p e = true ∨ r.p.awaitingFollowup = true))) := by
  simp only [StampedPtp.step] at hx
  split_ifs at hx with h0 hpos
  · simp at hx
  · exact ⟨h0, .inl hx⟩
  · rcases List.mem_cons.mp hx with rfl | hx
    · exact ⟨h0, .inr ⟨rfl, forms_turn A (.inr hpos)⟩⟩
    · exact ⟨h0, .inl hx⟩

theorem WindowFresh.next {n : ℕ} {r : StampedPtp D} (h : WindowFresh A mac l n r) (hnow : r.now = n) {e : PtpEvent}
    (hr : recordsT2 r.p e = true ∨ r.p.awaitingFollowup = true) :
    r.t2Next e ≤ n ∧ ∀ m < n, Occurs A mac l (Discontinuity A) m → m < r.t2Next e := by
  unfold StampedPtp.t2Next
  split_ifs with hrec
  · exact ⟨hnow.le, fun m hm _ => hnow ▸ hm⟩
  · exact ⟨h.t2_le, h.t2_after (hr.resolve_left hrec)⟩

theorem windowFresh_step {n : ℕ} (hlt : n < l.length) (h : WindowFresh A mac l n (stampedAt A mac l n)) :
    WindowFresh A mac l (n + 1) (stampedAt A mac l (n + 1)) := by
  obtain ⟨hp, hnow⟩ := stampedAt_run A mac l hlt.le
  rw [stampedAt_succ A mac l hlt]
  set r := stampedAt A mac l n with hr
  set e := l[n] with he
  have hdisc : ∀ m < n + 1, Occurs A mac l (Discontinuity A) m →
      (m < n ∧ Occurs A mac l (Discontinuity A) m) ∨ Discontinuity A r.p e := fun m hm ho => by
    rcases occurs_succ A hlt hm ho with h | ⟨rfl, h⟩
    · exact .inl h
    · exact .inr (hp ▸ h)
  refine ⟨?_, fun haw m hm ho => ?_, fun x hx => ?_, fun x hx m hm ho => ?_, fun hest => window_turn A h.win_empty hest⟩
  · show r.t2Next e ≤ n + 1
    unfold StampedPtp.t2Next
    split_ifs
    · omega
    · exact h.t2_le.trans (Nat.le_succ n)
  · show m < r.t2Next e
    have haw : (ptpStep A r.p e).awaitingFollowup = true := haw
    rcases hdisc m hm ho with ⟨hlt', ho⟩ | hd
    · exact (h.next A hnow (awaiting_turn A haw)).2 m hlt' ho
    · exact absurd ((discontinuity_turn A h.win_empty hd).2.1.symm.trans haw) Bool.false_ne_true
  · obtain ⟨-, hx | ⟨rfl, hfrom⟩⟩ := entered A hx
    · exact (h.win_le x hx).trans (Nat.le_succ n)
    · exact (h.next A hnow hfrom).1.trans (Nat.le_succ n)
  · obtain ⟨hne, hx⟩ := entered A hx
    rcases hdisc m hm ho with ⟨hlt', ho⟩ | hd
    · rcases hx with hx | ⟨rfl, hfrom⟩
      · exact h.win_after x hx m hlt' ho
      · exact (h.next A hnow hfrom).2 m hlt' ho
    · exact absurd (discontinuity_turn A h.win_empty hd).2.2.1 hne

theorem windowFresh_run (mac : List UInt8) (l : List PtpEvent) {n : ℕ} (hn : n ≤ l.length) :
    WindowFresh A mac l n (stampedAt A mac l n) := by
  induction n with
  | zero =>
    rw [stampedAt_zero]
    exact ⟨le_rfl, fun h => absurd h Bool.false_ne_true, by simp, by simp, fun _ => rfl⟩
  | succ n ih => exact windowFresh_step A hn (ih (Nat.le_of_succ_le hn))

/-- The pending `t3` is that of the last request sent, and younger than every step of the
clock. -/
structure RequestFresh (mac : List UInt8) (l : List PtpEvent) (n : ℕ) (r : StampedPtp D) : Prop where
  sent : r.p.haveT3 = true → r.t3At < n ∧ ∃ hj : r.t3At < l.length, ∃ t,
    sentReq (ptpAt A mac l r.t3At) l[r.t3At] = some t ∧ r.p.t3 = t.ns
  last : ∀ j < n, Occurs A mac l (fun p e => (sentReq p e).isSome) j → j ≤ r.t3At
  after : r.p.haveT3 = true → ∀ m < n, Occurs A mac l (fun p e => stepsClock A p e = true) m → m < r.t3At

theorem requestFresh_step {n : ℕ} (hlt : n < l.length) (h : RequestFresh A mac l n (stampedAt A mac l n)) :
    RequestFresh A mac l (n + 1) (stampedAt A mac l (n + 1)) := by
  have hw := windowFresh_run A mac l hlt.le
  obtain ⟨hp, hnow⟩ := stampedAt_run A mac l hlt.le
  rw [stampedAt_succ A mac l hlt]
  set r := stampedAt A mac l n with hr
  set e := l[n] with he
  cases hq : sentReq r.p e with
  | some t =>
    have hat : (r.step A e).t3At = n := by simp only [StampedPtp.step, hq, Option.isSome_some, if_true, hnow]
    have ht3 : (ptpStep A r.p e).t3 = t.ns := by rw [t3_turn A, hq, Option.elim_some]
    refine ⟨fun _ => ⟨by omega, ?_⟩, fun j hj _ => by omega, fun _ m hm ho => ?_⟩
    · rw [hat]
      exact ⟨hlt, t, hp ▸ hq, ht3⟩
    · rw [hat]
      rcases occurs_succ A hlt hm ho with ⟨h, -⟩ | ⟨rfl, hd⟩
      · exact h
      · -- no step of the clock comes with a request
        rw [← hp] at hd
        have hnone := (discontinuity_turn A hw.win_empty (.inl hd)).1
        rw [hq] at hnone
        cases hnone
  | none =>
    have hat : (r.step A e).t3At = r.t3At := by
      simp only [StampedPtp.step, hq, Option.isSome_none, Bool.false_eq_true, if_false]
    have hstood : (r.step A e).p.haveT3 = true → r.p.haveT3 = true := fun h3 => by
      have h3 : (ptpStep A r.p e).haveT3 = true := h3
      rw [haveT3_turn A hq, Bool.and_eq_true, Bool.and_eq_true] at h3
      exact h3.1.1
    have ht3 : (ptpStep A r.p e).t3 = r.p.t3 := by rw [t3_turn A, hq, Option.elim_none]
    refine ⟨fun h3 => ?_, fun j hj ho => ?_, fun h3 m hm ho => ?_⟩
    · obtain ⟨hlt', hj, t, hs, hv⟩ := h.sent (hstood h3)
      rw [hat]
      exact ⟨hlt'.trans (Nat.lt_succ_self n), hj, t, hs, ht3.trans hv⟩
    · rw [hat]
      rcases occurs_succ A hlt hj ho with ⟨hlt', ho⟩ | ⟨rfl, hs⟩
      · exact h.last j hlt' ho
      · rw [← hp, hq] at hs
        cases hs
    · rw [hat]
      rcases occurs_succ A hlt hm ho with ⟨hlt', ho⟩ | ⟨rfl, hd⟩
      · exact h.after (hstood h3) m hlt' ho
      · rw [← hp] at hd
        have hdrop := ((discontinuity_turn A hw.win_empty (.inl hd)).2.2.2 hd).1
        exact absurd (hdrop.symm.trans h3) Bool.false_ne_true

theorem requestFresh_run (mac : List UInt8) (l : List PtpEvent) {n : ℕ} (hn : n ≤ l.length) :
    RequestFresh A mac l n (stampedAt A mac l n) := by
  induction n with
  | zero =>
    rw [stampedAt_zero]
    exact ⟨fun h => absurd h Bool.false_ne_true, fun j hj => absurd hj (Nat.not_lt_zero j),
      fun h => absurd h Bool.false_ne_true⟩
  | succ n ih => exact requestFresh_step A hn (ih (Nat.le_of_succ_le hn))

/-- What is behind the latest `t2 - t1` is younger than every discontinuity before that
was formed. -/
structure PairFresh (mac : List UInt8) (l : List PtpEvent) (n : ℕ) (r : StampedPtp D) : Prop where
  some : r.p.haveMs = true → r.msFrom ≠ []
  formed : ∀ x ∈ r.msFrom, ∃ i, x ≤ i ∧ i < n ∧ Occurs A mac l (fun p e => forms A p e = true) i
  after : ∀ i < n, Occurs A mac l (fun p e => forms A p e = true) i → ∀ m < i,
    Occurs A mac l (Discontinuity A) m → ∀ x ∈ r.msFrom, m < x
  steps : r.p.haveMs = true → ∀ m < n, Occurs A mac l (fun p e => stepsClock A p e = true) m →
    ∃ i, m < i ∧ i < n ∧ Occurs A mac l (fun p e => forms A p e = true) i

theorem pairFresh_step {n : ℕ} (hlt : n < l.length) (h : PairFresh A mac l n (stampedAt A mac l n)) :
    PairFresh A mac l (n + 1) (stampedAt A mac l (n + 1)) := by
  have hw := windowFresh_run A mac l hlt.le
  obtain ⟨hp, hnow⟩ := stampedAt_run A mac l hlt.le
  rw [stampedAt_succ A mac l hlt]
  set r := stampedAt A mac l n with hr
  set e := l[n] with he
  cases hf : forms A r.p e with
  | true =>
    have hfrom : (r.step A e).msFrom = r.t2Next e :: r.winFrom := by
      simp only [StampedPtp.step, hf, if_true]
    have hnext := hw.next A hnow (forms_turn A (.inl hf))
    have hhere : Occurs A mac l (fun p e => forms A p e = true) n := ⟨hlt, hp ▸ hf⟩
    refine ⟨fun _ => by rw [hfrom]; exact List.cons_ne_nil _ _, fun x hx => ?_, fun i hi _ m hm ho x hx => ?_,
      fun hms m hm ho => ?_⟩
    · rw [hfrom] at hx
      refine ⟨n, ?_, Nat.lt_succ_self n, hhere⟩
      rcases List.mem_cons.mp hx with rfl | hx
      · exact hnext.1
      · exact hw.win_le x hx
    · rw [hfrom] at hx
      have hmn : m < n := by omega
      rcases List.mem_cons.mp hx with rfl | hx
      · exact hnext.2 m hmn ho
      · exact hw.win_after x hx m hmn ho
    · rcases occurs_succ A hlt hm ho with ⟨hlt', -⟩ | ⟨rfl, hd⟩
      · exact ⟨n, hlt', Nat.lt_succ_self n, hhere⟩
      · rw [← hp] at hd
        have hdrop := ((discontinuity_turn A hw.win_empty (.inl hd)).2.2.2 hd).2
        exact absurd (hdrop.symm.trans hms) Bool.false_ne_true
  | false =>
    obtain ⟨-, hkept, hns⟩ := not_forms_turn A hf
    have hfrom : (r.step A e).msFrom = r.msFrom := by
      simp only [StampedPtp.step, hf, Bool.false_eq_true, if_false]
    have hms' : (r.step A e).p.haveMs = true → r.p.haveMs = true := fun h => hkept.symm.trans h
    refine ⟨fun hms => by rw [hfrom]; exact h.some (hms' hms), fun x hx => ?_, fun i hi ho' m hm ho x hx => ?_,
      fun hms m hm ho => ?_⟩
    · obtain ⟨i, hxi, hi, ho⟩ := h.formed x (hfrom ▸ hx)
      exact ⟨i, hxi, hi.trans (Nat.lt_succ_self n), ho⟩
    · rw [hfrom] at hx
      rcases occurs_succ A hlt hi ho' with ⟨hlt', ho'⟩ | ⟨rfl, hf'⟩
      · exact h.after i hlt' ho' m hm ho x hx
      · rw [← hp, hf] at hf'
        cases hf'
    · rcases occurs_succ A hlt hm ho with ⟨hlt', ho⟩ | ⟨rfl, hd⟩
      · obtain ⟨i, hmi, hi, hof⟩ := h.steps (hms' hms) m hlt' ho
        exact ⟨i, hmi, hi.trans (Nat.lt_succ_self n), hof⟩
      · rw [← hp, hns] at hd
        cases hd

theorem pairFresh_run (mac : List UInt8) (l : List PtpEvent) {n : ℕ} (hn : n ≤ l.length) :
    PairFresh A mac l n (stampedAt A mac l n) := by
  induction n with
  | zero =>
    rw [stampedAt_zero]
    exact ⟨fun h => absurd h Bool.false_ne_true, by simp, fun i hi => absurd hi (Nat.not_lt_zero i),
      fun h => absurd h Bool.false_ne_true⟩
  | succ n ih => exact pairFresh_step A hn (ih (Nat.le_of_succ_le hn))

/-- The window holds an offset for each event listed for it. -/
def WindowListed (r : StampedPtp D) : Prop :=
  ∃ vals, WindowHistory r.p.servo vals ∧ vals.length = r.winFrom.length

theorem WindowListed.step {r : StampedPtp D} (h : WindowListed r) (e : PtpEvent) : WindowListed (r.step A e) := by
  obtain ⟨vals, hv, hlen⟩ := h
  have hnil : r.p.servo.winCount = 0 → vals = [] := fun h0 => by
    have hc := hv.windowed.count
    rw [h0] at hc
    simp only [PS_WIN_LOCKED] at hc
    exact List.eq_nil_of_length_eq_zero (by omega)
  have hleft : (ptpStep A r.p e).servo.window = r.p.servo.window →
      WindowListed (r.step A e) := by
    intro hw
    have hsame := hv.same hw
    simp only [PtpServo.window, Prod.mk.injEq] at hw
    refine ⟨vals, hsame, ?_⟩
    simp only [StampedPtp.step, hw.2.1, hw.2.2]
    split_ifs with h0
    · rw [hnil h0]
      rfl
    · exact hlen
  cases ptpStep_servoTurn A r.p e with
  | left h => exact hleft (by rw [h])
  | cleared h =>
    refine ⟨[], ?_, ?_⟩
    · show WindowHistory (ptpStep A r.p e).servo []
      rw [h]
      exact .cleared _
    · have h0 : (ptpStep A r.p e).servo.winCount = 0 := by rw [h]; rfl
      simp only [StampedPtp.step, if_pos h0]
      rfl
  | updated o t h =>
    obtain ⟨vals', hv', hturn⟩ := hv.update A o t
    rw [← h] at hv' hturn
    cases hturn with
    | left hvs hw => exact hleft hw
    | cleared hvs hc =>
      subst hvs
      refine ⟨[], hv', ?_⟩
      simp only [StampedPtp.step, if_pos hc]
      rfl
    | stored v hvs hp hc =>
      subst hvs
      have hmoved : (ptpStep A r.p e).servo.winPos ≠ r.p.servo.winPos := by
        rw [hp]
        simp only [u8, PS_WIN_LOCKED]
        omega
      refine ⟨v :: vals, hv', ?_⟩
      simp only [StampedPtp.step, if_neg hc, if_neg hmoved, List.length_cons, hlen]

theorem winFrom_lists (mac : List UInt8) (l : List PtpEvent) (n : ℕ) : WindowListed (stampedAt A mac l n) :=
  run_induct (StampedPtp.step A) (P := fun _ r => WindowListed r)
    ⟨[], (WindowHistory.cleared (ptpServoInit A)).same rfl, rfl⟩ (fun _ e h => h.step A e) (l.take n)

def Samples (p : Ptp D) (e : PtpEvent) : Prop := (delaySample p e).isSome = true

theorem Samples.halves {p : Ptp D} {e : PtpEvent} (h : Samples p e) : p.haveT3 = true ∧ p.haveMs = true := by
  cases e with
  | tick now tx => cases h
  | frame f =>
    simp only [Samples, delaySample] at h
    split_ifs at h with hc
    · exact ⟨hc.2.2.2.2.2.1, hc.2.2.2.2.2.2.1⟩
    · cases h

/-- After every discontinuity the samples are made of stamps taken later, in exactly the
runs where no Delay_Resp is used between the end of an estimate and the next Delay_Req
sent, nor before the next pair formed. -/
theorem path_samples_fresh_iff (mac : List UInt8) (l : List PtpEvent) :
    (∀ m k, m < k → Occurs A mac l (Discontinuity A) m → Occurs A mac l Samples k →
      m < (stampedAt A mac l k).t3At ∧ ∀ x ∈ (stampedAt A mac l k).msFrom, m < x) ↔
    ∀ m k, m < k → Occurs A mac l (fun p e => endsEstimate A p e = true) m → Occurs A mac l Samples k →
      (∃ j, m < j ∧ j < k ∧ Occurs A mac l (fun p e => (sentReq p e).isSome) j) ∧
        ∃ i, m < i ∧ i < k ∧ Occurs A mac l (fun p e => forms A p e = true) i := by
  have hhalves : ∀ {k}, Occurs A mac l Samples k →
      (stampedAt A mac l k).p.haveT3 = true ∧ (stampedAt A mac l k).p.haveMs = true := fun ⟨hk, hs⟩ => by
    rw [(stampedAt_run A mac l hk.le).1]
    exact hs.halves
  constructor
  · intro h m k hmk hend hs
    have hk : k ≤ l.length := (Exists.fst hs).le
    obtain ⟨h3, hms⟩ := hhalves hs
    obtain ⟨hreq, hfrom⟩ := h m k hmk ⟨hend.fst, .inr hend.snd⟩ hs
    obtain ⟨hlt, hj, t, hsent, -⟩ := (requestFresh_run A mac l hk).sent h3
    refine ⟨⟨_, hreq, hlt, hj, by simp [hsent]⟩, ?_⟩
    obtain ⟨x, hx⟩ := List.exists_mem_of_ne_nil _ ((pairFresh_run A mac l hk).some hms)
    obtain ⟨i, hxi, hik, hof⟩ := (pairFresh_run A mac l hk).formed x hx
    exact ⟨i, (hfrom x hx).trans_le hxi, hik, hof⟩
  · intro h m k hmk hd hs
    have hk : k ≤ l.length := (Exists.fst hs).le
    obtain ⟨h3, hms⟩ := hhalves hs
    have hreq := requestFresh_run A mac l hk
    have hpair := pairFresh_run A mac l hk
    obtain ⟨hm, hd'⟩ := hd
    rcases hd' with hstep | hend
    · obtain ⟨i, hmi, hik, hof⟩ := hpair.steps hms m hmk ⟨hm, hstep⟩
      exact ⟨hreq.after h3 m hmk ⟨hm, hstep⟩, hpair.after i hik hof m hmi ⟨hm, .inl hstep⟩⟩
    · obtain ⟨⟨j, hmj, hjk, hsent⟩, i, hmi, hik, hof⟩ := h m k hmk ⟨hm, hend⟩ hs
      exact ⟨hmj.trans_le (hreq.last j hjk hsent), hpair.after i hik hof m hmi ⟨hm, .inr hend⟩⟩

/-- A one-step Sync sent `sec` seconds after zero and received 24 us later. -/
def oneStepOf (src seq sec : UInt8) : PtpEvent :=
  .frame ⟨headerOf src seq 0 0 ++ [0, 0, 0, sec] ++ List.replicate 80 0, PTP1_EVENT_PORT, ⟨sec.toNat, 24000⟩, true⟩

/-- A Delay_Resp to our request `seq`, which was received 24 us after second `sec`. -/
def answerOf (src seq sec : UInt8) : PtpEvent :=
  .frame ⟨headerOf src 0 3 0 ++ [0, 0, 0, sec, 0, 0, 0x5D, 0xC0, 0, 0] ++ ownMac ++ [0, 1, 0, seq], PTP1_GENERAL_PORT,
    ⟨0, 0⟩, false⟩

/-- Eleven Syncs, a request, the Sync that ends the estimate, and the answer. -/
def earlyAnswer : List PtpEvent :=
  (List.range 11).map (fun k => oneStepOf 1 k.toUInt8 k.toUInt8) ++
    [.tick 0 (some ⟨11, 0⟩), oneStepOf 1 12 12, answerOf 1 0 11]

/-- The answer's sample is made of the request and the Sync from before the estimate. -/
theorem early_answer_straddles :
    Occurs flatDbl ownMac earlyAnswer (fun p e => endsEstimate flatDbl p e = true) 12 ∧
      Occurs flatDbl ownMac earlyAnswer Samples 13 ∧ (stampedAt flatDbl ownMac earlyAnswer 13).t3At = 11 ∧
      (stampedAt flatDbl ownMac earlyAnswer 13).msFrom = [12] ∧
      ¬ ∀ m k, m < k → Occurs flatDbl ownMac earlyAnswer (Discontinuity flatDbl) m →
        Occurs flatDbl ownMac earlyAnswer Samples k → m < (stampedAt flatDbl ownMac earlyAnswer k).t3At ∧
          ∀ x ∈ (stampedAt flatDbl ownMac earlyAnswer k).msFrom, m < x := by
  have hend : Occurs flatDbl ownMac earlyAnswer (fun p e => endsEstimate flatDbl p e = true) 12 :=
    ⟨by decide, by decide +kernel⟩
  have hs : Occurs flatDbl ownMac earlyAnswer Samples 13 :=
    ⟨by decide, (by decide +kernel : (delaySample (ptpAt flatDbl ownMac earlyAnswer 13) earlyAnswer[13]).isSome = true)⟩
  have h3 : (stampedAt flatDbl ownMac earlyAnswer 13).t3At = 11 := by decide +kernel
  have hms : (stampedAt flatDbl ownMac earlyAnswer 13).msFrom = [12] := by decide +kernel
  refine ⟨hend, hs, h3, hms, fun h => ?_⟩
  have hlt := (h 12 13 (by decide) ⟨hend.fst, .inr hend.snd⟩ hs).1
  rw [h3] at hlt
  exact absurd hlt (by decide)

end Inferno
