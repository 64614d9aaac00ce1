import Inferno.Lib.Trace
import Inferno.Spec.Keepalive

/-! No transmitter is forgotten. A first packet's source is flagged to the keepalive task
from another core, between any two of its accesses, and flows come and go meanwhile:
still every latched flow is sent to in every pass, or counted as failed, and the first
time in the turn after its latch. Only a flow whose source was latched before it opened
waits for the next period. -/

namespace Inferno

open Lib

/-- The flow is open and its source is latched. -/
structure RxFlow.Up (f : RxFlow) : Prop where
  active : f.active = true
  sock : f.sock = true
  haveSrc : f.haveSrc = true

/-- The pass under way has yet to reach flow `i`. -/
def KaPc.Ahead (i : ℕ) : KaPc → Prop
  | .waiting => False
  | .clear _ => True
  | .active _ _ j => j ≤ i
  | .sock _ _ j => j ≤ i
  | .haveSrc _ _ j => j ≤ i
  | .send _ _ j => j ≤ i

def KaPc.time : KaPc → Option ℤ
  | .waiting => none
  | .clear now => some now
  | .active now _ _ => some now
  | .sock now _ _ => some now
  | .haveSrc now _ _ => some now
  | .send now _ _ => some now

/-- The flag is up, or a latch of flow `i` is about to raise it. -/
def KaSys.Flagged (s : KaSys) (i : Fin AP_MAX_FLOWS) : Prop :=
  s.rx.kaNow = true ∨ ∃ b x, s.latch b = some x ∧ x.i = i ∧ x.pc = .now

/-- The pass under way is on its way to flow `i`, or flow `i` opened with a source already
latched and no pass began since. -/
def KaSys.Waits (s : KaSys) (i : Fin AP_MAX_FLOWS) : Prop := s.ka.Ahead i ∨ s.early i = some s.passes.length

/-- The flow waits for a pass, or is not yet sent to and flagged, or was sent to in the
last pass. -/
def KaSys.Served (s : KaSys) (i : Fin AP_MAX_FLOWS) : Prop :=
  s.Waits i ∨ (s.told i = none ∧ s.Flagged i) ∨ s.told i = some s.passes.length

def Attended (s : KaSys) : Prop := ∀ i, (s.rx.flows i).Up → s.Served i

/-- A flow under a subscriber's call is closed. -/
def Called (s : KaSys) : Prop := ∀ x, s.sub = some x → (s.rx.flows x.i).active = false

/-- A pass under way is the last one, and between passes the next is due a period after
the last. -/
structure Punctual (s : KaSys) : Prop where
  pass : ∀ now, s.ka.time = some now → s.passes.head? = some now ∧ s.checked = now
  due : s.ka = .waiting → ∀ p, s.passes.head? = some p → s.nextKa = p + KEEPALIVE_US ∧ s.checked < s.nextKa

/-- The loop of `ka_task` looks at least every `d`. -/
def KaSys.Prompt (d : ℤ) (s : KaSys) : KaStep → Prop
  | .check now => s.checked ≤ now ∧ now ≤ s.checked + d
  | _ => True

instance (d : ℤ) (s : KaSys) : (e : KaStep) → Decidable (s.Prompt d e)
  | .check now => inferInstanceAs (Decidable (s.checked ≤ now ∧ now ≤ s.checked + d))
  | .packet .. => isTrue trivial
  | .latch _ => isTrue trivial
  | .call .. => isTrue trivial
  | .sub _ => isTrue trivial
  | .ka .. => isTrue trivial

/-- A latch nobody steps into is what the receive path does with a first packet. -/
theorem latch_alone {s : KaSys} {b : Bool} {i : Fin AP_MAX_FLOWS} (r : AudioRef) (hb : s.latch b = none)
    (hup : (s.rx.flows i).active ∧ (s.rx.flows i).sock ∧ (s.rx.flows i).haveSrc = false) :
    ([KaStep.packet b i r.sipBe r.sport, .latch b, .latch b, .latch b, .latch b].foldl kaNext s).rx = noteSource i r s.rx := by
  have hnote : noteSource i r s.rx = { s.rx.setFlow i { s.rx.flows i with haveSrc := true } with
      src := Function.update s.rx.src i (r.sipBe, r.sport), kaNow := true } := by
    rw [noteSource, hup.2.2]
    rfl
  rw [hnote]
  simp only [List.foldl_cons, List.foldl_nil, kaNext, if_pos (And.intro hb hup), latchStep, Function.update_self,
    KaSys.setFlow, AoipRx.setFlow, Function.update_idem]

/-- A call nobody steps into is the plain unbind or bind. -/
theorem call_alone {s : KaSys} (i : Fin AP_MAX_FLOWS) (args : Option BindArgs) (ok : Bool) (hs : s.sub = none) :
    ([KaStep.call i args, .sub ok, .sub ok, .sub ok, .sub ok].foldl kaNext s).rx.flows =
      Function.update s.rx.flows i
        (match args with
        | none => aoipRxUnbindFlow (s.rx.flows i)
        | some a => (aoipRxBindFlow i a.nslots a.map a.fpp ok (s.rx.flows i)).1) := by
  cases args with
  | none =>
    simp [kaNext, hs, subCallStep, KaSys.setFlow, AoipRx.setFlow, aoipRxUnbindFlow]
  | some a =>
    by_cases ha : a.nslots = 0 ∨ a.nslots > AP_MAX_CH_PER_FLOW
    · simp [kaNext, hs, ha, aoipRxBindFlow]
    · cases ok <;>
        simp [kaNext, hs, ha, subCallStep, KaSys.setFlow, AoipRx.setFlow, filled, aoipRxBindFlow, aoipRxUnbindFlow]

theorem KaSys.Served.of_kept {s s' : KaSys} {i : Fin AP_MAX_FLOWS} (h : s.Served i) (htold : s'.told i = s.told i)
    (hpasses : s'.passes = s.passes) (hwaits : s.Waits i → s'.Waits i) (hflag : s.Flagged i → s'.Flagged i) :
    s'.Served i := by
  rcases h with h | ⟨ht, h⟩ | ht
  · exact Or.inl (hwaits h)
  · exact Or.inr (Or.inl ⟨htold.trans ht, hflag h⟩)
  · exact Or.inr (Or.inr (by rw [hpasses, htold, ht]))

theorem KaSys.Waits.of_eq {s s' : KaSys} {i : Fin AP_MAX_FLOWS} (h : s.Waits i) (hka : s'.ka = s.ka)
    (hpasses : s'.passes = s.passes) (hearly : s'.early i = s.early i) : s'.Waits i := by
  rw [KaSys.Waits, hka, hpasses, hearly]
  exact h

theorem flagged_update {s s' : KaSys} {b : Bool} {y : Option Latch} (hb : ∀ x, s.latch b = some x → x.pc ≠ .now)
    (hl : s'.latch = Function.update s.latch b y) (hnow : s'.rx.kaNow = s.rx.kaNow) (i : Fin AP_MAX_FLOWS)
    (h : s.Flagged i) : s'.Flagged i := by
  rcases h with h | ⟨b', x, hx, hi, hpc⟩
  · exact Or.inl (hnow.trans h)
  · refine Or.inr ⟨b', x, ?_, hi, hpc⟩
    rw [hl, Function.update_of_ne, hx]
    rintro rfl
    exact hb x hx hpc

theorem Attended.of_less {s s' : KaSys} (h : Attended s) (hup : ∀ i, (s'.rx.flows i).Up → (s.rx.flows i).Up)
    (htold : s'.told = s.told) (hka : s'.ka = s.ka) (hpasses : s'.passes = s.passes) (hearly : s'.early = s.early)
    (hflag : ∀ i, s.Flagged i → s'.Flagged i) : Attended s' := fun i hi =>
  (h i (hup i hi)).of_kept (congrFun htold i) hpasses (fun hw => hw.of_eq hka hpasses (congrFun hearly i)) (hflag i)

theorem Attended.setFlow {s s' : KaSys} (h : Attended s) {i : Fin AP_MAX_FLOWS} {fl : RxFlow}
    (hrx : s'.rx = s.rx.setFlow i fl) (hfl : fl.Up → s'.Served i) (htold : ∀ j, j ≠ i → s'.told j = s.told j)
    (hka : s'.ka = s.ka) (hpasses : s'.passes = s.passes) (hearly : ∀ j, j ≠ i → s'.early j = s.early j)
    (hflag : ∀ j, s.Flagged j → s'.Flagged j) : Attended s' := by
  intro j hj
  rw [hrx, AoipRx.setFlow] at hj
  rcases eq_or_ne j i with rfl | hne
  · simp only [Function.update_self] at hj
    exact hfl hj
  · simp only [Function.update_of_ne hne] at hj
    exact (h j hj).of_kept (htold j hne) hpasses (fun hw => hw.of_eq hka hpasses (hearly j hne)) (hflag j)

theorem attended_latch {s : KaSys} (h : Attended s) {b : Bool} {x : Latch} (hx : s.latch b = some x) :
    Attended (latchStep s b x) := by
  have hquiet : x.pc ≠ .now → ∀ y, s.latch b = some y → y.pc ≠ .now := fun hne y hy => by
    obtain rfl := Option.some_injective _ (hy.symm.trans hx)
    exact hne
  unfold latchStep
  cases hpc : x.pc with
  | addr => exact h.of_less (fun _ => id) rfl rfl rfl rfl (flagged_update (hquiet (by rw [hpc]; decide)) rfl rfl)
  | port => exact h.of_less (fun _ => id) rfl rfl rfl rfl (flagged_update (hquiet (by rw [hpc]; decide)) rfl rfl)
  | now => exact h.of_less (fun _ => id) rfl rfl rfl rfl fun i _ => Or.inl rfl
  | flag =>
    refine h.setFlow rfl (fun _ => ?_) (fun j hne => Function.update_of_ne hne _ _) rfl rfl
      (fun j hne => Function.update_of_ne hne _ _) (flagged_update (hquiet (by rw [hpc]; decide)) rfl rfl)
    -- from here on the flow waits for its first keepalive
    exact Or.inr (Or.inl ⟨Function.update_self _ _ _, Or.inr ⟨b, { x with pc := .now }, Function.update_self _ _ _, rfl, rfl⟩⟩)

theorem attended_sub {s : KaSys} (h : Attended s) (hc : Called s) (ok : Bool) {x : SubCall} (hx : s.sub = some x) :
    Attended (subCallStep s ok x) := by
  have hshut : ∀ (fl : RxFlow) (P : Prop), fl.active = (s.rx.flows x.i).active → fl.Up → P := fun fl P hfl hup =>
    absurd (hup.active.symm.trans (hfl.trans (hc x hx))) (by decide)
  unfold subCallStep
  cases hpc : x.pc with
  | close => exact h.setFlow rfl (hshut _ _ rfl) (fun _ _ => rfl) rfl rfl (fun _ _ => rfl) fun _ => id
  | socket =>
    cases ok with
    | true => exact h.setFlow rfl (hshut _ _ rfl) (fun _ _ => rfl) rfl rfl (fun _ _ => rfl) fun _ => id
    | false => exact h.of_less (fun _ => id) rfl rfl rfl rfl fun _ => id
  | fill =>
    cases x.args with
    | none => exact h
    | some a => exact h.setFlow rfl (hshut _ _ rfl) (fun _ _ => rfl) rfl rfl (fun _ _ => rfl) fun _ => id
  | activate =>
    refine h.setFlow rfl (fun hup => Or.inl (Or.inr ?_)) (fun _ _ => rfl) rfl rfl
      (fun j hne => Function.update_of_ne hne _ _) fun _ => id
    have hsrc : (s.rx.flows x.i).haveSrc = true := hup.haveSrc
    simp only [Function.update_self, hsrc, if_true]
    rfl

/-- All that a step of `ka_task` behind its check can do: nothing, begin its pass, move on
within it past no flow that is up, send, or end it. -/
inductive KaTurn (s : KaSys) (ok : Bool) : KaSys → Prop
  | still : KaTurn s ok s
  | clear {now : ℤ} (h : s.ka = .clear now) (secs : UInt32) :
      KaTurn s ok { s with rx := { s.rx with kaNow := false }, ka := .active now secs 0 }
  | walk {pc : KaPc} (htime : pc.time = s.ka.time) (hbusy : pc ≠ .waiting)
      (hahead : ∀ j : Fin AP_MAX_FLOWS, (s.rx.flows j).Up → s.ka.Ahead j → pc.Ahead j) : KaTurn s ok { s with ka := pc }
  | send {now : ℤ} {secs : UInt32} {i : Fin AP_MAX_FLOWS} (h : s.ka = .send now secs i) :
      KaTurn s ok { s with
        ka := .active now secs (i + 1)
        kaSent := if ok then u32 (s.kaSent + 1) else s.kaSent
        kaFailed := if ok then s.kaFailed else u32 (s.kaFailed + 1)
        sent := if ok then s.sent ++ [(s.rx.src i, kaDatagram secs)] else s.sent
        told := Function.update s.told i (some s.passes.length) }
  | finish {now : ℤ} {secs : UInt32} {i : ℕ} (h : s.ka = .active now secs i) (hi : AP_MAX_FLOWS ≤ i) :
      KaTurn s ok { s with ka := .waiting, nextKa := now + KEEPALIVE_US }

theorem kaTaskStep_turn (s : KaSys) (secs : UInt32) (ok : Bool) : KaTurn s ok (kaTaskStep s secs ok) := by
  unfold kaTaskStep
  cases hka : s.ka with
  | waiting => exact .still
  | clear now => exact .clear hka secs
  | active now secs i =>
    dsimp only
    split_ifs with hi hact
    · exact .walk (by rw [hka]; rfl) (by simp) fun j _ hj => by rwa [hka] at hj
    · refine .walk (by rw [hka]; rfl) (by simp) fun j hup hj => ?_
      rw [hka] at hj
      exact Nat.lt_of_le_of_ne hj fun he => hact (by subst he; exact hup.active)
    · exact .finish hka (not_lt.1 hi)
  | sock now secs i =>
    dsimp only
    split_ifs with hi hsock
    · exact .walk (by rw [hka]; rfl) (by simp) fun j _ hj => by rwa [hka] at hj
    · refine .walk (by rw [hka]; rfl) (by simp) fun j hup hj => ?_
      rw [hka] at hj
      exact Nat.lt_of_le_of_ne hj fun he => hsock (by subst he; exact hup.sock)
    · exact .still
  | haveSrc now secs i =>
    dsimp only
    split_ifs with hi hsrc
    · exact .walk (by rw [hka]; rfl) (by simp) fun j _ hj => by rwa [hka] at hj
    · refine .walk (by rw [hka]; rfl) (by simp) fun j hup hj => ?_
      rw [hka] at hj
      exact Nat.lt_of_le_of_ne hj fun he => hsrc (by subst he; exact hup.haveSrc)
    · exact .still
  | send now secs i =>
    dsimp only
    by_cases hi : i < AP_MAX_FLOWS
    · rw [dif_pos hi]
      exact .send (i := ⟨i, hi⟩) hka
    · rw [dif_neg hi]
      exact .still

/-- The other tasks leave the keepalive task and its times alone. -/
structure SameKa (s s' : KaSys) : Prop where
  ka : s'.ka = s.ka
  passes : s'.passes = s.passes
  nextKa : s'.nextKa = s.nextKa
  checked : s'.checked = s.checked

theorem SameKa.refl (s : KaSys) : SameKa s s := ⟨rfl, rfl, rfl, rfl⟩

theorem sameKa_latch (s : KaSys) (b : Bool) (x : Latch) : SameKa s (latchStep s b x) := by
  unfold latchStep
  cases x.pc <;> exact ⟨rfl, rfl, rfl, rfl⟩

theorem sameKa_sub (s : KaSys) (ok : Bool) (x : SubCall) : SameKa s (subCallStep s ok x) := by
  unfold subCallStep
  cases x.pc with
  | close => exact ⟨rfl, rfl, rfl, rfl⟩
  | socket => cases ok <;> exact ⟨rfl, rfl, rfl, rfl⟩
  | fill => cases x.args <;> exact ⟨rfl, rfl, rfl, rfl⟩
  | activate => exact ⟨rfl, rfl, rfl, rfl⟩

theorem sameKa_next (s : KaSys) {e : KaStep} (hcheck : ∀ now, e ≠ .check now) (hka : ∀ secs ok, e ≠ .ka secs ok) :
    SameKa s (kaNext s e) := by
  cases e with
  | packet b i ip sport =>
    simp only [kaNext]
    split_ifs <;> exact ⟨rfl, rfl, rfl, rfl⟩
  | latch b =>
    simp only [kaNext]
    cases s.latch b with
    | none => exact .refl s
    | some x => exact sameKa_latch s b x
  | call i args =>
    simp only [kaNext]
    cases s.sub with
    | some x => exact .refl s
    | none =>
      dsimp only
      split_ifs <;> exact ⟨rfl, rfl, rfl, rfl⟩
  | sub ok =>
    simp only [kaNext]
    cases s.sub with
    | none => exact .refl s
    | some x => exact sameKa_sub s ok x
  | check now => exact absurd rfl (hcheck now)
  | ka secs ok => exact absurd rfl (hka secs ok)

theorem Attended.walk {s s' : KaSys} (h : Attended s) (hrx : s'.rx = s.rx) (htold : s'.told = s.told)
    (hpasses : s'.passes = s.passes) (hearly : s'.early = s.early) (hlatch : s'.latch = s.latch)
    (hahead : ∀ j : Fin AP_MAX_FLOWS, (s.rx.flows j).Up → s.ka.Ahead j → s'.ka.Ahead j) : Attended s' := by
  intro j hup
  rw [hrx] at hup
  refine (h j hup).of_kept (congrFun htold j) hpasses (fun hw => ?_) fun hf => ?_
  · refine hw.imp (hahead j hup) fun he => ?_
    rw [hearly, hpasses]
    exact he
  · rw [KaSys.Flagged, hrx, hlatch]
    exact hf

theorem attended_turn {s s' : KaSys} {ok : Bool} (h : Attended s) (ht : KaTurn s ok s') : Attended s' := by
  cases ht with
  | still => exact h
  | clear hka secs => exact fun i _ => Or.inl (Or.inl (Nat.zero_le _))
  | walk _ _ hahead => exact h.walk rfl rfl rfl rfl rfl hahead
  | @send now secs i hka =>
    intro j hup
    rcases eq_or_ne j i with rfl | hne
    · exact Or.inr (Or.inr (Function.update_self _ _ _))
    · refine (h j hup).of_kept (Function.update_of_ne hne _ _) rfl (fun hw => ?_) fun hf => hf
      refine hw.imp_left fun hj => ?_
      rw [hka] at hj
      exact Nat.lt_of_le_of_ne hj fun he => hne (Fin.ext he.symm)
  | @finish now secs i hka hi =>
    refine h.walk rfl rfl rfl rfl rfl fun j _ hj => ?_
    rw [hka] at hj
    exact absurd (lt_of_lt_of_le j.isLt hi) (not_lt.2 hj)

theorem attended_next {s : KaSys} (h : Attended s) (hc : Called s) (e : KaStep) :
    Attended (kaNext s e) := by
  cases e with
  | packet b i ip sport =>
    simp only [kaNext]
    split_ifs with hfree
    · refine h.of_less (fun _ => id) rfl rfl rfl rfl (flagged_update (fun x hx => ?_) rfl rfl)
      rw [hfree.1] at hx
      exact absurd hx (by simp)
    · exact h
  | latch b =>
    simp only [kaNext]
    cases hx : s.latch b with
    | none => exact h
    | some x => exact attended_latch h hx
  | call i args =>
    simp only [kaNext]
    cases s.sub with
    | some x => exact h
    | none =>
      dsimp only
      split_ifs
      · exact h
      · exact h.setFlow rfl (fun hup => absurd hup.active Bool.false_ne_true) (fun _ _ => rfl) rfl rfl (fun _ _ => rfl)
          fun _ => id
  | sub ok =>
    simp only [kaNext]
    cases hx : s.sub with
    | none => exact h
    | some x => exact attended_sub h hc ok hx
  | check now =>
    simp only [kaNext]
    cases hka : s.ka with
    | waiting =>
      dsimp only
      split_ifs
      · exact fun i _ => Or.inl (Or.inl trivial)
      · exact h.walk rfl rfl rfl rfl rfl fun j _ hj => by rwa [hka] at hj
    | _ => exact h
  | ka secs ok => exact attended_turn h (kaTaskStep_turn s secs ok)

theorem called_latch {s : KaSys} (hc : Called s) (b : Bool) (x : Latch) : Called (latchStep s b x) := by
  unfold latchStep
  cases x.pc with
  | flag =>
    intro y hy
    have hclosed := hc y hy
    rcases eq_or_ne y.i x.i with he | hne
    · simp only [KaSys.setFlow, AoipRx.setFlow, he, Function.update_self]
      rwa [he] at hclosed
    · simpa only [KaSys.setFlow, AoipRx.setFlow, Function.update_of_ne hne] using hclosed
  | _ => exact hc

theorem called_sub {s : KaSys} (hc : Called s) (ok : Bool) {x : SubCall} (hx : s.sub = some x) :
    Called (subCallStep s ok x) := by
  have hidle : ∀ s' : KaSys, s'.sub = none → Called s' := fun s' hs y hy => absurd (hs.symm.trans hy) (by simp)
  have hgoes : ∀ (s' : KaSys) (fl : RxFlow), s'.sub.map (·.i) = some x.i → s'.rx = s.rx.setFlow x.i fl →
      fl.active = false → Called s' := by
    intro s' fl hs hrx hact y hy
    have hi : y.i = x.i := by simpa [hy] using hs
    rw [hi, hrx]
    simpa only [AoipRx.setFlow, Function.update_self] using hact
  have hclosed := hc x hx
  unfold subCallStep
  cases x.pc with
  | close =>
    cases x.args with
    | none => exact hidle _ rfl
    | some a => exact hgoes _ { s.rx.flows x.i with sock := false } rfl rfl hclosed
  | socket =>
    cases ok with
    | true => exact hgoes _ _ rfl rfl hclosed
    | false => exact hidle _ rfl
  | fill =>
    cases x.args with
    | none => exact hc
    | some a => exact hgoes _ (filled x.i a (s.rx.flows x.i)) rfl rfl hclosed
  | activate => exact hidle _ rfl

theorem KaTurn.same {s s' : KaSys} {ok : Bool} (ht : KaTurn s ok s') :
    s'.sub = s.sub ∧ s'.rx.flows = s.rx.flows ∧ s'.passes = s.passes := by
  cases ht <;> exact ⟨rfl, rfl, rfl⟩

theorem called_next {s : KaSys} (hc : Called s) (e : KaStep) : Called (kaNext s e) := by
  cases e with
  | packet b i ip sport =>
    simp only [kaNext]
    split_ifs <;> exact hc
  | latch b =>
    simp only [kaNext]
    cases s.latch b with
    | none => exact hc
    | some x => exact called_latch hc b x
  | call i args =>
    simp only [kaNext]
    cases s.sub with
    | some x => exact hc
    | none =>
      dsimp only
      split_ifs
      · exact hc
      · intro x hx
        obtain rfl := Option.some_injective _ hx
        simp only [KaSys.setFlow, AoipRx.setFlow, Function.update_self]
  | sub ok =>
    simp only [kaNext]
    cases hx : s.sub with
    | none => exact hc
    | some x => exact called_sub hc ok hx
  | check now =>
    simp only [kaNext]
    cases s.ka with
    | waiting =>
      dsimp only
      split_ifs <;> exact hc
    | _ => exact hc
  | ka secs ok =>
    obtain ⟨hsub, hflows, -⟩ := (kaTaskStep_turn s secs ok).same
    intro x hx
    simp only [kaNext] at hx ⊢
    rw [hsub] at hx
    rw [hflows]
    exact hc x hx

theorem Punctual.of_same {s s' : KaSys} (hp : Punctual s) (h : SameKa s s') : Punctual s' where
  pass := by
    rw [h.ka, h.passes, h.checked]
    exact hp.pass
  due := by
    rw [h.ka, h.passes, h.nextKa, h.checked]
    exact hp.due

theorem Punctual.of_pass {s s' : KaSys} (hp : Punctual s) (htime : s'.ka.time = s.ka.time) (hbusy : s'.ka ≠ .waiting)
    (hpasses : s'.passes = s.passes) (hchecked : s'.checked = s.checked) : Punctual s' where
  pass := by
    rw [htime, hpasses, hchecked]
    exact hp.pass
  due h := absurd h hbusy

theorem punctual_turn {s s' : KaSys} {ok : Bool} (hp : Punctual s) (ht : KaTurn s ok s') : Punctual s' := by
  cases ht with
  | still => exact hp
  | clear hka secs => exact hp.of_pass (by rw [hka]; rfl) (by simp) rfl rfl
  | walk htime hbusy => exact hp.of_pass htime hbusy rfl rfl
  | send hka => exact hp.of_pass (by rw [hka]; rfl) (by simp) rfl rfl
  | @finish now secs i hka hi =>
    obtain ⟨hlast, hchecked⟩ := hp.pass now (by rw [hka]; rfl)
    refine ⟨fun t ht => absurd ht (by simp [KaPc.time]), fun _ p hpass => ?_⟩
    obtain rfl := Option.some_injective _ (hpass.symm.trans hlast)
    refine ⟨rfl, ?_⟩
    dsimp only
    rw [hchecked, KEEPALIVE_US]
    omega

theorem passes_next (s : KaSys) {e : KaStep} (he : ∀ now, e ≠ .check now) : (kaNext s e).passes = s.passes := by
  cases e with
  | check now => exact absurd rfl (he now)
  | ka secs ok => exact (kaTaskStep_turn s secs ok).same.2.2
  | _ => exact (sameKa_next s (by simp) (by simp)).passes

theorem punctual_next {s : KaSys} (hp : Punctual s) (e : KaStep) : Punctual (kaNext s e) := by
  cases e with
  | check now =>
    simp only [kaNext]
    cases hka : s.ka with
    | waiting =>
      dsimp only
      split_ifs with hfire
      · refine ⟨fun t ht => ?_, fun h => absurd h (by simp)⟩
        obtain rfl := Option.some_injective _ ht
        exact ⟨rfl, rfl⟩
      · refine ⟨fun t ht => absurd ht (by simp [KaPc.time]), fun _ p hlast => ?_⟩
        have hdue := (hp.due hka p hlast).1
        have hearly := (not_or.1 hfire).2
        exact ⟨hdue, by dsimp only; omega⟩
    | _ => exact hp
  | ka secs ok => exact punctual_turn hp (kaTaskStep_turn s secs ok)
  | _ => exact hp.of_same (sameKa_next s (by simp) (by simp))

/-- A pass under the loop's check comes within a period and a turn of the one before. -/
theorem gaps_next {d : ℤ} {s : KaSys} (hp : Punctual s) {e : KaStep} (he : s.Prompt d e)
    (hgaps : s.passes.IsChain fun late early => late < early + KEEPALIVE_US + d) :
    (kaNext s e).passes.IsChain fun late early => late < early + KEEPALIVE_US + d := by
  cases e with
  | check now =>
    simp only [kaNext]
    obtain ⟨hfwd, hturn⟩ := he
    cases hka : s.ka with
    | waiting =>
      dsimp only
      split_ifs
      · refine hgaps.cons fun p hlast => ?_
        obtain ⟨hdue, hchecked⟩ := hp.due hka p hlast
        omega
      · exact hgaps
    | _ => exact hgaps
  | _ =>
    rw [passes_next s (by simp)]
    exact hgaps

def KaSys.at (l : List KaStep) (k : ℕ) : KaSys := before kaNext kaStart l k

theorem keepalive_run {l : List KaStep} {k : ℕ} (hk : k ≤ l.length) :
    Attended (KaSys.at l k) ∧ Called (KaSys.at l k) ∧ Punctual (KaSys.at l k) := by
  induction k with
  | zero =>
    refine ⟨fun i hi => absurd hi.active Bool.false_ne_true, fun x hx => absurd hx (by simp [KaSys.at, kaStart]),
      fun t ht => absurd ht (by simp [KaSys.at, kaStart, KaPc.time]),
      fun _ p hp => absurd hp (by simp [KaSys.at, kaStart])⟩
  | succ k ih =>
    have hlt : k < l.length := hk
    obtain ⟨ha, hc, hp⟩ := ih hlt.le
    rw [KaSys.at, before_succ _ _ _ hlt]
    exact ⟨attended_next ha hc _, called_next hc _, punctual_next hp _⟩

theorem gaps_run (d : ℤ) {l : List KaStep} (hd : ∀ k (hk : k < l.length), (KaSys.at l k).Prompt d l[k]) {k : ℕ}
    (hk : k ≤ l.length) : (KaSys.at l k).passes.IsChain fun late early => late < early + KEEPALIVE_US + d := by
  induction k with
  | zero => exact List.IsChain.nil
  | succ k ih =>
    have hlt : k < l.length := hk
    have hgaps := ih hlt.le
    rw [KaSys.at, before_succ _ _ _ hlt]
    exact gaps_next (keepalive_run hlt.le).2.2 (hd k hlt) hgaps

def KaSys.Sends (s : KaSys) (i : Fin AP_MAX_FLOWS) : KaStep → Prop
  | .ka _ _ => ∃ now secs, s.ka = .send now secs i
  | _ => False

def KaSys.Latches (s : KaSys) (i : Fin AP_MAX_FLOWS) : KaStep → Prop
  | .latch b => ∃ x, s.latch b = some x ∧ x.i = i ∧ x.pc = .flag
  | _ => False

/-- The step opens the flow with a source already there. -/
def KaSys.OpensLate (s : KaSys) (i : Fin AP_MAX_FLOWS) : KaStep → Prop
  | .sub _ => (∃ x, s.sub = some x ∧ x.i = i ∧ x.pc = .activate) ∧ (s.rx.flows i).haveSrc = true
  | _ => False

/-- A latch has stored to the flow's source and not yet raised `have_src`. -/
def KaSys.Relatching (s : KaSys) (i : Fin AP_MAX_FLOWS) : Prop :=
  ∃ b x, s.latch b = some x ∧ x.i = i ∧ (x.pc = .port ∨ x.pc = .flag)

theorem told_sends {s : KaSys} {i : Fin AP_MAX_FLOWS} {e : KaStep} (h : s.Sends i e) :
    (kaNext s e).told i = some s.passes.length := by
  cases e with
  | ka secs ok =>
    obtain ⟨now, secs', hka⟩ := h
    simp only [kaNext, kaTaskStep, hka, dif_pos i.isLt, Fin.eta, Function.update_self]
  | _ => exact h.elim

theorem told_latches {s : KaSys} {i : Fin AP_MAX_FLOWS} {e : KaStep} (h : s.Latches i e) : (kaNext s e).told i = none := by
  cases e with
  | latch b =>
    obtain ⟨x, hx, rfl, hpc⟩ := h
    simp only [kaNext, hx, latchStep, hpc, Function.update_self]
  | _ => exact h.elim

theorem early_latches {s : KaSys} {i : Fin AP_MAX_FLOWS} {e : KaStep} (h : s.Latches i e) : (kaNext s e).early i = none := by
  cases e with
  | latch b =>
    obtain ⟨x, hx, rfl, hpc⟩ := h
    simp only [kaNext, hx, latchStep, hpc, Function.update_self]
  | _ => exact h.elim

/-- What a step that does not raise the flow's `have_src` does to its source and its marks. -/
structure Unlatched (i : Fin AP_MAX_FLOWS) (s s' : KaSys) (sends opens : Prop) : Prop where
  told : ¬ sends → s'.told i = s.told i
  early : ∀ p, s'.early i = some p → s.early i = some p ∨ opens ∧ p = s.passes.length
  haveSrc : (s'.rx.flows i).haveSrc = true → (s.rx.flows i).haveSrc = true
  src : s'.rx.src i = s.rx.src i ∨ s'.Relatching i
  relatching : s.Relatching i → s'.Relatching i

theorem Unlatched.of_same {i : Fin AP_MAX_FLOWS} {s s' : KaSys} {sends opens : Prop} (htold : s'.told = s.told)
    (hearly : s'.early = s.early) (hlatch : s'.latch = s.latch) (hsrc : s'.rx.src = s.rx.src)
    (hhave : (s'.rx.flows i).haveSrc = true → (s.rx.flows i).haveSrc = true) : Unlatched i s s' sends opens where
  told _ := congrFun htold i
  early p hp := Or.inl (by rwa [← hearly])
  haveSrc := hhave
  src := Or.inl (congrFun hsrc i)
  relatching := by
    rw [KaSys.Relatching, KaSys.Relatching, hlatch]
    exact id

theorem setFlow_haveSrc (rx : AoipRx) {i j : Fin AP_MAX_FLOWS} {fl : RxFlow}
    (hfl : fl.haveSrc = true → (rx.flows j).haveSrc = true) (h : ((rx.setFlow j fl).flows i).haveSrc = true) :
    (rx.flows i).haveSrc = true := by
  rw [AoipRx.setFlow] at h
  rcases eq_or_ne i j with rfl | hne
  · simp only [Function.update_self] at h
    exact hfl h
  · simpa only [Function.update_of_ne hne] using h

/-- A latch of another flow, or one that is at neither of its two places, may move. -/
theorem relatching_update {s s' : KaSys} {i : Fin AP_MAX_FLOWS} {b : Bool} {y : Option Latch}
    (hl : s'.latch = Function.update s.latch b y)
    (hb : ∀ x, s.latch b = some x → x.i = i → x.pc ≠ .port ∧ x.pc ≠ .flag) (h : s.Relatching i) : s'.Relatching i := by
  obtain ⟨b', x, hx, hi, hpc⟩ := h
  refine ⟨b', x, ?_, hi, hpc⟩
  rw [hl, Function.update_of_ne, hx]
  rintro rfl
  obtain ⟨hport, hflag⟩ := hb x hx hi
  exact hpc.elim hport hflag

theorem unlatched_latch {s : KaSys} {i : Fin AP_MAX_FLOWS} {b : Bool} {x : Latch} (hx : s.latch b = some x)
    (hl : ¬(x.i = i ∧ x.pc = .flag)) {sends opens : Prop} : Unlatched i s (latchStep s b x) sends opens := by
  have hthis : ∀ y, s.latch b = some y → y = x := fun y hy => Option.some_injective _ (hy.symm.trans hx)
  have hmoves : ∀ {s' : KaSys}, s'.latch = Function.update s.latch b (some { x with pc := .flag }) →
      x.i = i → s'.Relatching i := fun hs' hi => ⟨b, { x with pc := .flag }, by rw [hs', Function.update_self], hi, Or.inr rfl⟩
  unfold latchStep
  cases hpc : x.pc with
  | addr =>
    refine ⟨fun _ => rfl, fun p hp => Or.inl hp, id, ?_, relatching_update rfl fun y hy _ => ?_⟩
    · rcases eq_or_ne x.i i with hi | hne
      · exact Or.inr ⟨b, { x with pc := .port }, Function.update_self _ _ _, hi, Or.inl rfl⟩
      · exact Or.inl (Function.update_of_ne hne.symm _ _)
    · rw [hthis y hy, hpc]
      exact ⟨by decide, by decide⟩
  | port =>
    refine ⟨fun _ => rfl, fun p hp => Or.inl hp, id, ?_, fun hrel => ?_⟩
    · rcases eq_or_ne x.i i with hi | hne
      · exact Or.inr (hmoves rfl hi)
      · exact Or.inl (Function.update_of_ne hne.symm _ _)
    · by_cases hi : x.i = i
      · exact hmoves rfl hi
      · exact relatching_update rfl (fun y hy hyi => absurd (hthis y hy ▸ hyi) hi) hrel
  | flag =>
    have hne : i ≠ x.i := fun hi => hl ⟨hi.symm, hpc⟩
    refine ⟨fun _ => Function.update_of_ne hne _ _, fun p hp => Or.inl ?_, fun h => ?_, Or.inl rfl,
      relatching_update rfl fun y hy hyi => absurd (hthis y hy ▸ hyi).symm hne⟩
    · simpa only [Function.update_of_ne hne] using hp
    · simpa only [KaSys.setFlow, AoipRx.setFlow, Function.update_of_ne hne] using h
  | now =>
    refine ⟨fun _ => rfl, fun p hp => Or.inl hp, id, Or.inl rfl, relatching_update rfl fun y hy _ => ?_⟩
    rw [hthis y hy, hpc]
    exact ⟨by decide, by decide⟩

theorem unlatched_sub {s : KaSys} (i : Fin AP_MAX_FLOWS) (ok : Bool) {x : SubCall} (hx : s.sub = some x) {sends : Prop} :
    Unlatched i s (subCallStep s ok x) sends (s.OpensLate i (.sub ok)) := by
  unfold subCallStep
  cases hpc : x.pc with
  | close => exact .of_same rfl rfl rfl rfl (setFlow_haveSrc _ id)
  | socket =>
    cases ok with
    | true => exact .of_same rfl rfl rfl rfl (setFlow_haveSrc _ id)
    | false => exact .of_same rfl rfl rfl rfl id
  | fill =>
    cases x.args with
    | none => exact .of_same rfl rfl rfl rfl id
    | some a => exact .of_same rfl rfl rfl rfl (setFlow_haveSrc _ fun h => absurd h Bool.false_ne_true)
  | activate =>
    refine ⟨fun _ => rfl, fun p hp => ?_, setFlow_haveSrc _ id, Or.inl rfl, id⟩
    rcases eq_or_ne i x.i with rfl | hne
    · simp only [Function.update_self] at hp
      split_ifs at hp with hhave
      exact Or.inr ⟨⟨⟨x, hx, rfl, hpc⟩, hhave⟩, (Option.some_injective _ hp).symm⟩
    · simp only [Function.update_of_ne hne] at hp
      exact Or.inl hp

theorem unlatched_turn {s s' : KaSys} {i : Fin AP_MAX_FLOWS} {ok : Bool} (secs : UInt32) (ht : KaTurn s ok s')
    {opens : Prop} : Unlatched i s s' (s.Sends i (.ka secs ok)) opens := by
  cases ht with
  | @send now secs' j hka =>
    refine ⟨fun hs => Function.update_of_ne (fun hi => hs ⟨now, secs', ?_⟩) _ _, fun p hp => Or.inl hp, id, Or.inl rfl, id⟩
    rw [hka, hi]
  | _ => exact .of_same rfl rfl rfl rfl id

theorem unlatched_next {s : KaSys} {i : Fin AP_MAX_FLOWS} {e : KaStep} (hl : ¬ s.Latches i e) :
    Unlatched i s (kaNext s e) (s.Sends i e) (s.OpensLate i e) := by
  cases e with
  | packet b j ip sport =>
    simp only [kaNext]
    split_ifs with hfree
    · refine ⟨fun _ => rfl, fun p hp => Or.inl hp, id, Or.inl rfl, relatching_update rfl fun x hx _ => ?_⟩
      rw [hfree.1] at hx
      exact absurd hx (by simp)
    · exact .of_same rfl rfl rfl rfl id
  | latch b =>
    simp only [kaNext]
    cases hx : s.latch b with
    | none => exact .of_same rfl rfl rfl rfl id
    | some x => exact unlatched_latch hx fun h => hl ⟨x, hx, h⟩
  | call j args =>
    simp only [kaNext]
    cases s.sub with
    | some x => exact .of_same rfl rfl rfl rfl id
    | none =>
      dsimp only
      split_ifs
      · exact .of_same rfl rfl rfl rfl id
      · exact .of_same rfl rfl rfl rfl (setFlow_haveSrc _ id)
  | sub ok =>
    simp only [kaNext]
    cases hx : s.sub with
    | none => exact .of_same rfl rfl rfl rfl id
    | some x => exact unlatched_sub i ok hx
  | check now =>
    simp only [kaNext]
    cases s.ka with
    | waiting =>
      dsimp only
      split_ifs <;> exact .of_same rfl rfl rfl rfl id
    | _ => exact .of_same rfl rfl rfl rfl id
  | ka secs ok => exact unlatched_turn secs (kaTaskStep_turn s secs ok)

section

variable (l : List KaStep) (i : Fin AP_MAX_FLOWS)

/-- In step `j` the flow's keepalive goes out to the source the flow has, or is counted as failed. -/
def SentTo (j : ℕ) : Prop :=
  ∃ now secs secs' ok, (KaSys.at l j).ka = .send now secs i ∧ l[j]? = some (.ka secs' ok) ∧
    if ok then (KaSys.at l (j + 1)).sent = (KaSys.at l j).sent ++ [((KaSys.at l j).rx.src i, kaDatagram secs)]
    else (KaSys.at l (j + 1)).sent = (KaSys.at l j).sent ∧
      (KaSys.at l (j + 1)).kaFailed = u32 ((KaSys.at l j).kaFailed + 1)

def LatchedIn (j : ℕ) : Prop := ∃ hj : j < l.length, (KaSys.at l j).Latches i l[j]

/-- In step `j` the flow opens with a source already there. -/
def OpenedLate (j : ℕ) : Prop := ∃ hj : j < l.length, (KaSys.at l j).OpensLate i l[j]

/-- In step `j` the flow is sent to or its `have_src` is raised. -/
def Minded (j : ℕ) : Prop := SentTo l i j ∨ LatchedIn l i j

/-- Of being latched and being sent to, the last that happened to the flow was that the
last pass sent to it, and then to the source it has unless that is being latched anew; or
it was latched since and is flagged to the task; or it opened since the last pass with its
source already there. -/
def Tended (k : ℕ) : Prop :=
  (∃ j, LastBefore (Minded l i) k j ∧ SentTo l i j ∧ (KaSys.at l j).passes = (KaSys.at l k).passes ∧
      ((KaSys.at l k).rx.src i = (KaSys.at l j).rx.src i ∨ (KaSys.at l k).Relatching i)) ∨
    (∃ j, LastBefore (Minded l i) k j ∧ LatchedIn l i j ∧ (KaSys.at l k).Flagged i) ∨
    ∃ j < k, OpenedLate l i j ∧ (KaSys.at l j).passes = (KaSys.at l k).passes

end

variable {l : List KaStep} {i : Fin AP_MAX_FLOWS} {j k : ℕ}

theorem KaSys.at_succ (hk : k < l.length) : KaSys.at l (k + 1) = kaNext (KaSys.at l k) l[k] := before_succ _ _ _ hk

theorem sentTo_iff (hj : j < l.length) : SentTo l i j ↔ (KaSys.at l j).Sends i l[j] := by
  constructor
  · rintro ⟨now, secs, secs', ok, hka, hstep, -⟩
    rw [List.getElem?_eq_getElem hj, Option.some.injEq] at hstep
    rw [hstep]
    exact ⟨now, secs, hka⟩
  · intro h
    rcases hstep : l[j] with _ | _ | _ | _ | _ | ⟨secs', ok⟩
    case ka =>
      rw [hstep] at h
      obtain ⟨now, secs, hka⟩ := h
      refine ⟨now, secs, secs', ok, hka, by rw [List.getElem?_eq_getElem hj, hstep], ?_⟩
      rw [KaSys.at_succ hj, hstep]
      simp only [kaNext, kaTaskStep, hka, dif_pos i.isLt, Fin.eta]
      cases ok <;> simp
    all_goals
      rw [hstep] at h
      exact h.elim

theorem sends_not_latches {s : KaSys} {e : KaStep} (h : s.Sends i e) : ¬ s.Latches i e := by
  cases e with
  | ka secs ok => exact id
  | _ => exact h.elim

theorem unlatched_at (hk : k < l.length) (h : ¬ LatchedIn l i k) :
    Unlatched i (KaSys.at l k) (KaSys.at l (k + 1)) ((KaSys.at l k).Sends i l[k]) ((KaSys.at l k).OpensLate i l[k]) := by
  rw [KaSys.at_succ hk]
  exact unlatched_next fun hl => h ⟨hk, hl⟩

theorem told_run (hk : k ≤ l.length) :
    ((∀ j < k, ¬ Minded l i j) ∧ (KaSys.at l k).told i = none) ∨
      ∃ j, LastBefore (Minded l i) k j ∧
        (SentTo l i j ∧ (KaSys.at l k).told i = some (KaSys.at l j).passes.length ∨
          LatchedIn l i j ∧ (KaSys.at l k).told i = none) := by
  have hkept := kept_since_last kaNext (s := kaStart) (l := l) (f := fun s => s.told i) (P := Minded l i) ?_ hk
  · refine hkept.imp_right fun ⟨j, hlast, htold⟩ => ⟨j, hlast, ?_⟩
    have hj : j < l.length := hlast.lt.trans_le hk
    have htold : (KaSys.at l k).told i = (KaSys.at l (j + 1)).told i := htold
    rw [htold, KaSys.at_succ hj]
    exact hlast.holds.imp (fun h => ⟨h, told_sends ((sentTo_iff hj).1 h)⟩) fun h => ⟨h, told_latches h.2⟩
  · intro n hn hnot
    obtain ⟨hsent, hlatched⟩ := not_or.1 hnot
    exact (unlatched_next fun h => hlatched ⟨hn, h⟩).told fun h => hsent ((sentTo_iff hn).2 h)

theorem latched_of_haveSrc (hk : k ≤ l.length) (h : ((KaSys.at l k).rx.flows i).haveSrc = true) :
    ∃ j < k, LatchedIn l i j := by
  induction k with
  | zero => exact absurd h Bool.false_ne_true
  | succ k ih =>
    by_cases hl : LatchedIn l i k
    · exact ⟨k, Nat.lt_succ_self k, hl⟩
    · obtain ⟨j, hj, hlatched⟩ := ih (Nat.le_of_succ_le hk) ((unlatched_at hk hl).haveSrc h)
      exact ⟨j, hj.trans (Nat.lt_succ_self k), hlatched⟩

theorem opened_of_early (hk : k ≤ l.length) {p : ℕ} (h : (KaSys.at l k).early i = some p) :
    ∃ j < k, OpenedLate l i j ∧ (KaSys.at l j).passes.length = p := by
  induction k with
  | zero => exact absurd h (by simp [KaSys.at, kaStart])
  | succ k ih =>
    by_cases hl : LatchedIn l i k
    · rw [KaSys.at_succ hk, early_latches hl.2] at h
      exact absurd h (by simp)
    · rcases (unlatched_at hk hl).early p h with h | ⟨hopens, rfl⟩
      · obtain ⟨j, hj, hopened⟩ := ih (Nat.le_of_succ_le hk) h
        exact ⟨j, hj.trans (Nat.lt_succ_self k), hopened⟩
      · exact ⟨k, Nat.lt_succ_self k, ⟨hk, hopens⟩, rfl⟩

/-- With no flag raised in between, a source has stayed or is being latched again. -/
theorem src_run (hjk : j ≤ k) (hk : k ≤ l.length) (h : ∀ m, j ≤ m → m < k → ¬ LatchedIn l i m) :
    (KaSys.at l k).rx.src i = (KaSys.at l j).rx.src i ∨ (KaSys.at l k).Relatching i := by
  induction k, hjk using Nat.le_induction with
  | base => exact Or.inl rfl
  | succ k hjk ih =>
    have hstep := unlatched_at hk (h k hjk (Nat.lt_succ_self k))
    rcases ih (Nat.le_of_succ_le hk) fun m hm hmk => h m hm (hmk.trans (Nat.lt_succ_self k)) with hsame | hrel
    · exact hstep.src.imp_left fun hs => hs.trans hsame
    · exact Or.inr (hstep.relatching hrel)

theorem passes_suffix (hjk : j ≤ k) (hk : k ≤ l.length) : (KaSys.at l j).passes <:+ (KaSys.at l k).passes := by
  induction k, hjk using Nat.le_induction with
  | base => exact List.suffix_rfl
  | succ k hjk ih =>
    refine (ih (Nat.le_of_succ_le hk)).trans ?_
    rw [KaSys.at_succ hk]
    cases l[k] with
    | check now =>
      simp only [kaNext]
      cases (KaSys.at l k).ka with
      | waiting =>
        dsimp only
        split_ifs
        · exact List.suffix_cons _ _
        · exact List.suffix_rfl
      | _ => exact List.suffix_rfl
    | _ => rw [passes_next _ (by simp)]

theorem passes_same (hjk : j ≤ k) (hk : k ≤ l.length)
    (h : (KaSys.at l j).passes.length = (KaSys.at l k).passes.length) : (KaSys.at l j).passes = (KaSys.at l k).passes :=
  (passes_suffix hjk hk).eq_of_length h

/-- Whenever the keepalive task waits, every open flow with a source is tended to, and the
last check is within a period of the last pass. With a check at least every `d`, passes are
less than a period and `d` apart. -/
theorem keepalives_kept (l : List KaStep) {k : ℕ} (hk : k ≤ l.length) :
    ((KaSys.at l k).ka = .waiting →
      (∀ i, ((KaSys.at l k).rx.flows i).Up → Tended l i k) ∧
      ∀ p, (KaSys.at l k).passes.head? = some p → (KaSys.at l k).checked < p + KEEPALIVE_US) ∧
    ∀ d : ℤ, (∀ j (hj : j < l.length), (KaSys.at l j).Prompt d l[j]) →
      (KaSys.at l k).passes.IsChain fun late early => late < early + KEEPALIVE_US + d := by
  obtain ⟨hserved, -, hpunctual⟩ := keepalive_run hk
  refine ⟨fun hwait => ⟨fun i hi => ?_, fun p hp => ?_⟩, fun d hd => gaps_run d hd hk⟩
  · obtain ⟨j₀, hj₀, hlatched⟩ := latched_of_haveSrc hk hi.haveSrc
    obtain ⟨hnone, -⟩ | ⟨j, hlast, hmark⟩ := told_run (i := i) hk
    · exact absurd (Or.inr hlatched) (hnone j₀ hj₀)
    rcases hserved i hi with (hahead | hearly) | ⟨htold, hflag⟩ | htold
    · rw [hwait] at hahead
      exact absurd hahead id
    · obtain ⟨n, hn, hopened, hlen⟩ := opened_of_early hk hearly
      exact Or.inr (Or.inr ⟨n, hn, hopened, passes_same hn.le hk hlen⟩)
    · rcases hmark with ⟨-, hmark⟩ | ⟨hl, -⟩
      · exact absurd (hmark.symm.trans htold) (by simp)
      · exact Or.inr (Or.inl ⟨j, hlast, hl, hflag⟩)
    · rcases hmark with ⟨hsent, hmark⟩ | ⟨-, hmark⟩
      · have hlen := Option.some_injective _ (hmark.symm.trans htold)
        have hj : j < l.length := hlast.lt.trans_le hk
        refine Or.inl ⟨j, hlast, hsent, passes_same hlast.lt.le hk hlen, src_run hlast.lt.le hk fun m hm hmk hl => ?_⟩
        rcases hm.eq_or_lt with rfl | hm
        · exact sends_not_latches ((sentTo_iff hj).1 hsent) hl.2
        · exact hlast.since m hm hmk (Or.inr hl)
      · exact absurd (hmark.symm.trans htold) (by simp)
  · obtain ⟨hdue, hchecked⟩ := hpunctual.due hwait p hp
    rwa [hdue] at hchecked

/-- A pass; then two flows open, and their first packets are latched before the next
check. Its pass sends to the first of them, and fails to send to the second. -/
def kaDemo : List KaStep :=
  .check 10000 :: List.replicate (AP_MAX_FLOWS + 2) (.ka 0 true) ++
    [.call 0 (some ⟨2, fun k => k, 16⟩), .sub true, .sub true, .sub true, .sub true,
      .call 1 (some ⟨2, fun k => k, 16⟩), .sub true, .sub true, .sub true, .sub true,
      .packet true 0 [10, 0, 0, 5] 4440, .latch true, .latch true, .latch true, .latch true,
      .packet true 1 [10, 0, 0, 6] 4440, .latch true, .latch true, .latch true, .latch true, .check 20000,
      .ka 7 true, .ka 0 true, .ka 0 true, .ka 0 true, .ka 0 true, .ka 0 true, .ka 0 true, .ka 0 true, .ka 0 false] ++
    List.replicate (AP_MAX_FLOWS - 1) (.ka 0 true)

theorem keepalives_kept_demo :
    (KaSys.at kaDemo kaDemo.length).passes = [20000, 10000] ∧
      (KaSys.at kaDemo kaDemo.length).sent = [(([10, 0, 0, 5], 4440), kaDatagram 7)] ∧
      (KaSys.at kaDemo kaDemo.length).kaFailed = 1 ∧
      Tended kaDemo 0 kaDemo.length ∧ Tended kaDemo 1 kaDemo.length ∧
      (KaSys.at kaDemo kaDemo.length).passes.IsChain fun late early => late < early + KEEPALIVE_US + 10000 := by
  have hkept := ((keepalives_kept kaDemo le_rfl).1 rfl).1
  exact ⟨by decide, by decide, by decide, hkept 0 ⟨rfl, rfl, rfl⟩, hkept 1 ⟨rfl, rfl, rfl⟩,
    (keepalives_kept kaDemo le_rfl).2 10000 (by decide)⟩

end Inferno
