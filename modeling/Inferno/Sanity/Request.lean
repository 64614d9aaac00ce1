import Inferno.Sanity.Reconcile

/-! Step 3 of a rebuild for one want: the flow table takes the step that the abstract
table takes, and the statuses of its channels follow the fate of the flow. -/

namespace Inferno

open Lib

/-- What step 3 relies on in a want. -/
structure WantOk (w : Want) : Prop where
  named : w.device ≠ []
  short : w.device.length ≤ 31
  ids : w.req.txChannelId.length = w.slotToCh.length
  sorted : w.slotToCh.Pairwise (· < ·)
  ne : w.slotToCh ≠ []

variable {o : Outcomes} {snap : Fin AP_NCH → RxChannel} {k : ℕ} {i : Fin AP_MAX_FLOWS} {u : Sub} {w : Want}

theorem WantOk.flagOn (hw : WantOk w) (l : List (Fin AP_MAX_FLOWS)) : WantOk (w.flagOn u l) :=
  ⟨by simpa using hw.named, by simpa using hw.short, by simpa using hw.ids, by simpa using hw.sorted, by simpa using hw.ne⟩

theorem freeSlot_eq_none : freeSlot u = none ↔ ∀ j, (u.flow j).device ≠ [] := by
  simp [freeSlot]

theorem freeSlot_eq_some (h : freeSlot u = some i) : (u.flow i).device = [] := by
  simpa using List.find?_some h

/-- No slot is free when as many wanted transmitters have a flow as there are slots. -/
theorem FlowInv.freeSlot_iff {keys : List CStr} (hu : FlowInv u) (hk : keys.Nodup)
    (hkeys : ∀ d, flowTable u d ≠ none → d ∈ keys) : freeSlot u = none ↔ Full AP_MAX_FLOWS keys (flowTable u) := by
  rw [freeSlot_eq_none, Full, flowTable, ← hu.keys.taken_iff hk]
  · refine forall_congr' fun j => ?_
    rw [Ne, Ne, (hu.slot j).entry_eq_none]
  · intro j d v hj
    refine hkeys d ?_
    rw [flowTable, hu.keys.lookup_eq_some.2 ⟨j, hj⟩]
    simp

def Want.asked (w : Want) (i : Fin AP_MAX_FLOWS) (port : ℕ) : FlowSlot :=
  { w.slot with req := { w.req with rxPort := port, rxFlowName := "rx" ++ toString (i : ℕ) } }

theorem WantOk.nslots (hw : WantOk w) : ¬ (w.req.nslots = 0 ∨ w.req.nslots > AP_MAX_CH_PER_FLOW) := by
  have hpos := List.length_pos_iff.2 hw.ne
  have hle : w.slotToCh.length ≤ AP_NCH := by
    have hnd : w.slotToCh.Nodup := hw.sorted.imp fun h => h.ne
    simpa using hnd.length_le_card
  have hids : w.req.nslots = w.slotToCh.length := hw.ids
  simp only [AP_NCH, AP_MAX_CH_PER_FLOW] at *
  omega

theorem aoipRxBindFlow_failed (hw : WantOk w) (r : RxFlow) :
    aoipRxBindFlow i w.req.nslots (slotMap w.slotToCh) w.req.fpp false r = (aoipRxUnbindFlow r, none) := by
  rw [aoipRxBindFlow, if_neg hw.nslots]
  rfl

theorem aoipRxBindFlow_ok (hw : WantOk w) (r : RxFlow) :
    ∃ x port, aoipRxBindFlow i w.req.nslots (slotMap w.slotToCh) w.req.fpp true r = (x, some port) ∧
      x.active = true ∧ x.nslots = w.slotToCh.length ∧ x.slotToCh = slotMap w.slotToCh := by
  rw [aoipRxBindFlow, if_neg hw.nslots]
  refine ⟨_, _, rfl, rfl, hw.ids, ?_⟩
  funext n
  by_cases hn : n < w.req.nslots
  · exact if_pos hn
  · have hids : w.req.nslots = w.slotToCh.length := hw.ids
    simp only [if_neg hn, slotMap, List.getElem?_eq_none (show w.slotToCh.length ≤ n by omega), Option.elim_none]

theorem aoipRxBindFlow_some (hw : WantOk w) {b : Bool} {r x : RxFlow} {port : ℕ}
    (h : aoipRxBindFlow i w.req.nslots (slotMap w.slotToCh) w.req.fpp b r = (x, some port)) :
    x.active = true ∧ x.nslots = w.slotToCh.length ∧ x.slotToCh = slotMap w.slotToCh := by
  cases b with
  | false =>
    rw [aoipRxBindFlow_failed hw] at h
    cases h
  | true =>
    obtain ⟨y, port', hy, hok⟩ := aoipRxBindFlow_ok (i := i) hw r
    rw [hy] at h
    cases h
    exact hok

theorem WantOk.slotOk (hw : WantOk w) {g : FlowSlot} {x : RxFlow} (hstate : g.state = .active)
    (hdevice : g.device = strncpy31 w.device) (hslots : g.slotToCh = w.slotToCh)
    (hids : g.req.txChannelId = w.req.txChannelId) (hactive : x.active = true)
    (hn : x.nslots = w.slotToCh.length) (hmap : x.slotToCh = slotMap w.slotToCh) : SlotOk g x := by
  have hd : g.device = w.device := by rw [hdevice, strncpy31, List.take_of_length_le hw.short]
  refine ⟨by simp [hstate, hd, hw.named], by simp [hstate, hactive], fun _ => ?_, fun _ => ?_, fun _ => ?_, fun _ => ?_⟩
  · rw [hslots]
    exact ⟨hn, hmap⟩
  · rw [hids, hslots]
    exact hw.ids
  · rw [hslots]
    exact hw.sorted
  · rw [hslots]
    exact hw.ne

/-- Slot `i` came to hold an entry or nothing, the flow that was to be replaced is gone,
and the channels of the want have the status `st`. -/
structure Answered (snap : Fin AP_NCH → RxChannel) (u u' : Sub) (i : Fin AP_MAX_FLOWS) (w : Want)
    (e : Option (CStr × Carry)) (st : ArcSub) : Prop where
  moved : ∃ g x, Moved u u' i w.replaces g x ∧ SlotOk g x ∧ g.entry = e
  same : SameSub snap u'
  dirty : u'.dirty = u.dirty
  status : ∀ c, (u'.ch c).status = if c ∈ w.slotToCh ∧ (snap c).txChannel ≠ [] then st else (u.ch c).status

theorem answered_setStatuses {v : Sub} {g : FlowSlot} {x : RxFlow} {e : Option (CStr × Carry)} {st : ArcSub}
    (hs : SameSub snap u) (hch : v.ch = u.ch) (hdirty : v.dirty = u.dirty)
    (hmoved : Moved u v i w.replaces g x) (hok : SlotOk g x) (he : g.entry = e) :
    Answered snap u (setStatuses snap w.slotToCh st v) i w e st := by
  have hsame : SameSub snap v := hs.of_ch hch
  refine ⟨⟨g, x, hmoved.congr (setStatuses_flow _ _) (setStatuses_rx _ _), hok, he⟩, hsame.setStatuses _ _, ?_, ?_⟩
  · rw [setStatuses_dirty, hdirty]
  · intro c
    rw [hsame.setStatuses_status, hch]

/-- The state in which a request is answered. -/
structure Asked (u v : Sub) (i : Fin AP_MAX_FLOWS) (w : Want) (r : Option (Fin AP_MAX_FLOWS)) : Prop where
  moved : ∃ g x, Moved u v i r g x ∧ x.active = true ∧ x.nslots = w.slotToCh.length ∧ x.slotToCh = slotMap w.slotToCh
  ch : v.ch = u.ch
  dirty : v.dirty = u.dirty

theorem Asked.refused {v : Sub} {port : ℕ} (h : Asked u v i w w.replaces) (hs : SameSub snap u) :
    Answered snap u (flowRefused snap i (w.asked i port) w v) i w none .pending := by
  obtain ⟨g, x, hmoved, -⟩ := h.moved
  have hmoved' := (hmoved.setRx (aoipRxUnbindFlow (v.rx i))).setFlow { w.asked i port with device := [] }
  rw [flowRefused]
  apply answered_setStatuses hs
  · exact h.ch
  · exact h.dirty
  · exact hmoved'.congr rfl rfl
  · exact SlotOk.idle rfl rfl rfl
  · rfl

def Want.upSlot (w : Want) (i : Fin AP_MAX_FLOWS) (port : ℕ) (handle : List UInt8) (now : ℤ) : FlowSlot :=
  { w.asked i port with
    state := .active, handle := handle, lastPackets := 0, nextActionUs := now + KEEPALIVE_MS * 1000 }

theorem WantOk.upSlot_entry (hw : WantOk w) (port : ℕ) (handle : List UInt8) (now : ℤ) :
    (w.upSlot i port handle now).entry = some (w.device, w.slotToCh.zip w.req.txChannelId) :=
  entry_eq_some.2 ⟨rfl, List.take_of_length_le hw.short, rfl⟩

/-- A request that is accepted when the old flow, if there was one, has gone. -/
theorem Asked.alone {v : Sub} {port : ℕ} {handle : List UInt8} (h : Asked u v i w w.replaces) (hs : SameSub snap u)
    (hw : WantOk w) :
    Answered snap u (flowUp o snap k i (w.asked i port) none handle v) i w
      (some (w.device, w.slotToCh.zip w.req.txChannelId)) .active := by
  obtain ⟨g, x, hmoved, hactive, hn, hmap⟩ := h.moved
  rw [flowUp]
  apply answered_setStatuses hs
  · exact h.ch
  · exact h.dirty
  · exact (hmoved.setFlow (w.upSlot i port handle (o.now k))).congr rfl rfl
  · exact hw.slotOk rfl rfl rfl rfl hactive hn hmap
  · exact hw.upSlot_entry port handle (o.now k)

/-- A request that is accepted beside the old flow, which is then torn down. -/
theorem Asked.beside {v : Sub} {port : ℕ} {handle : List UInt8} {r : Fin AP_MAX_FLOWS} (h : Asked u v i w none)
    (hs : SameSub snap u) (hw : WantOk w) (hr : w.replaces = some r) (hri : r ≠ i) (hok : SlotOk (u.flow r) (u.rx r)) :
    Answered snap u (flowUp o snap k i (w.asked i port) (some r) handle v) i w
      (some (w.device, w.slotToCh.zip w.req.txChannelId)) .active := by
  obtain ⟨g, x, hmoved, hactive, hn, hmap⟩ := h.moved
  have hmoved' : Moved u { v.setFlow i (w.upSlot i port handle (o.now k)) with
      st := { v.st with requestsOk := u32 (v.st.requestsOk + 1) } } i none (w.upSlot i port handle (o.now k)) x :=
    (hmoved.setFlow _).congr rfl rfl
  have hdown := (hmoved'.setRx { v.rx i with packets := awaitPackets (o.packets k) }).tearDown hri hok
  rw [flowUp]
  apply answered_setStatuses hs
  · exact (tearDown_ch r _).trans h.ch
  · exact (tearDown_dirty r _).trans h.dirty
  · rw [hr]
    exact hdown
  · rw [hmoved.here]
    exact hw.slotOk rfl rfl rfl rfl hactive hn hmap
  · exact hw.upSlot_entry port handle (o.now k)

/-- The subscriber once slot `i` is bound and the request of the want is out. -/
def Want.out (w : Want) (i : Fin AP_MAX_FLOWS) (x : RxFlow) (port : ℕ) (u : Sub) : Sub :=
  (((u.call [.bind i]).setRx i x).setFlow i (w.asked i port)).call [.request i (w.asked i port).req]

/-- The same once the flow in slot `r` has gone and the request is out again. -/
def Want.again (w : Want) (i r : Fin AP_MAX_FLOWS) (x : RxFlow) (port : ℕ) (u : Sub) : Sub :=
  let v := (tearDown r (w.out i x port u)).call [.request i (w.asked i port).req]
  { v with st := { v.st with fallbacks := u32 (v.st.fallbacks + 1) } }

theorem Want.again_ch {r : Fin AP_MAX_FLOWS} {x : RxFlow} {port : ℕ} : (w.again i r x port u).ch = u.ch :=
  tearDown_ch r (w.out i x port u)

/-- The slot that a turn takes, and what its bind answers. -/
structure Bound (o : Outcomes) (k : ℕ) (w : Want) (u : Sub) (i : Fin AP_MAX_FLOWS) (x : RxFlow) (port : Option ℕ) :
    Prop where
  done : w.done = false
  free : freeSlot u = some i
  bind : aoipRxBindFlow i w.req.nslots (slotMap w.slotToCh) w.req.fpp (o.bind k) (u.rx i) = (x, port)

/-- What the turn of a want can come to: no step, no socket, the request accepted or
refused beside the old flow, or accepted or refused without it. -/
inductive Turn (o : Outcomes) (snap : Fin AP_NCH → RxChannel) (k : ℕ) (w : Want) (u : Sub) : Sub → Prop where
  | done (hdone : w.done = true) : Turn o snap k w u u
  | full (hdone : w.done = false) (hfree : freeSlot u = none) : Turn o snap k w u u
  | unbound {i : Fin AP_MAX_FLOWS} {x : RxFlow} (hb : Bound o k w u i x none) :
      Turn o snap k w u (((u.call [.bind i]).setRx i x).setFlow i { w.slot with device := [] })
  | up {i : Fin AP_MAX_FLOWS} {x : RxFlow} {port : ℕ} {handle : List UInt8} (hb : Bound o k w u i x (some port))
      (hbeside : o.request k false = some handle) :
      Turn o snap k w u (flowUp o snap k i (w.asked i port) w.replaces handle (w.out i x port u))
  | refused {i : Fin AP_MAX_FLOWS} {x : RxFlow} {port : ℕ} (hb : Bound o k w u i x (some port))
      (hbeside : o.request k false = none) (hrep : w.replaces = none) :
      Turn o snap k w u (flowRefused snap i (w.asked i port) w (w.out i x port u))
  | upAlone {i r : Fin AP_MAX_FLOWS} {x : RxFlow} {port : ℕ} {handle : List UInt8} (hb : Bound o k w u i x (some port))
      (hbeside : o.request k false = none) (hrep : w.replaces = some r) (halone : o.request k true = some handle) :
      Turn o snap k w u (flowUp o snap k i (w.asked i port) none handle (w.again i r x port u))
  | refusedAlone {i r : Fin AP_MAX_FLOWS} {x : RxFlow} {port : ℕ} (hb : Bound o k w u i x (some port))
      (hbeside : o.request k false = none) (hrep : w.replaces = some r) (halone : o.request k true = none) :
      Turn o snap k w u (flowRefused snap i (w.asked i port) w (w.again i r x port u))

theorem requestWant_turn (o : Outcomes) (snap : Fin AP_NCH → RxChannel) (k : ℕ) (w : Want) (u : Sub) :
    Turn o snap k w u (requestWant o snap u (w, k)) := by
  unfold requestWant
  dsimp only
  by_cases hdone : w.done = true
  · rw [if_pos hdone]
    exact .done hdone
  rw [if_neg hdone]
  have hdone : w.done = false := Bool.not_eq_true _ ▸ hdone
  cases hfree : freeSlot u with
  | none => exact .full hdone hfree
  | some i =>
    dsimp only
    rcases hbind : aoipRxBindFlow i w.req.nslots (slotMap w.slotToCh) w.req.fpp (o.bind k) ((u.call [.bind i]).rx i) with
      ⟨x, _ | port⟩
    · exact .unbound ⟨hdone, hfree, hbind⟩
    have hb : Bound o k w u i x (some port) := ⟨hdone, hfree, hbind⟩
    cases hbeside : o.request k false with
    | some handle => exact .up hb hbeside
    | none =>
      cases hrep : w.replaces with
      | none => exact .refused hb hbeside hrep
      | some r =>
        cases halone : o.request k true with
        | some handle => exact .upAlone hb hbeside hrep halone
        | none => exact .refusedAlone hb hbeside hrep halone

theorem Bound.bound {x : RxFlow} {port : ℕ} (hb : Bound o k w u i x (some port)) (hw : WantOk w) : o.bind k = true := by
  have hbind := hb.bind
  cases h : o.bind k with
  | true => rfl
  | false =>
    rw [h, aoipRxBindFlow_failed hw] at hbind
    cases hbind

theorem Bound.not_bound {x : RxFlow} (hb : Bound o k w u i x none) (hw : WantOk w) :
    o.bind k = false ∧ x = aoipRxUnbindFlow (u.rx i) := by
  have hbind := hb.bind
  cases h : o.bind k with
  | true =>
    obtain ⟨x', port, hx, -⟩ := aoipRxBindFlow_ok (i := i) hw (u.rx i)
    rw [h, hx] at hbind
    cases hbind
  | false =>
    rw [h, aoipRxBindFlow_failed hw] at hbind
    cases hbind
    exact ⟨rfl, rfl⟩

theorem Bound.asked {x : RxFlow} {port : ℕ} (hb : Bound o k w u i x (some port)) (hw : WantOk w) :
    Asked u (w.out i x port u) i w none :=
  ⟨⟨_, x, (((Moved.refl u i).congr rfl rfl).setRx x).setFlow _ |>.congr rfl rfl, aoipRxBindFlow_some hw hb.bind⟩, rfl, rfl⟩

theorem Bound.askedAgain {x : RxFlow} {port : ℕ} {r : Fin AP_MAX_FLOWS} (hb : Bound o k w u i x (some port))
    (hw : WantOk w) (hri : r ≠ i) (hok : SlotOk (u.flow r) (u.rx r)) : Asked u (w.again i r x port u) i w (some r) := by
  obtain ⟨⟨g, x', hmoved, hx⟩, -, hdirty⟩ := hb.asked hw
  exact ⟨⟨g, x', (hmoved.tearDown hri hok).congr rfl rfl, hx⟩, Want.again_ch, (tearDown_dirty _ _).trans hdirty⟩

/-- The request of a want that is not done, once a slot is free and bound. -/
theorem requestWant_bound (hs : SameSub snap u) (hw : WantOk w) (hdone : w.done = false) (hfree : freeSlot u = some i)
    (hbind : o.bind k = true)
    (hr : ∀ r, w.replaces = some r → (u.flow r).device ≠ [] ∧ SlotOk (u.flow r) (u.rx r)) :
    Answered snap u (requestWant o snap u (w, k)) i w
      (if (o.request k false).isSome = true ∨ (w.replaces ≠ none ∧ (o.request k true).isSome = true) then
        some (w.device, w.slotToCh.zip w.req.txChannelId) else none)
      (if (o.request k false).isSome = true ∨ (w.replaces ≠ none ∧ (o.request k true).isSome = true) then .active
        else .pending) := by
  have hne : ∀ r, w.replaces = some r → r ≠ i := by
    rintro r hrr rfl
    exact (hr r hrr).1 (freeSlot_eq_some hfree)
  have hturn := requestWant_turn o snap k w u
  generalize requestWant o snap u (w, k) = u' at hturn ⊢
  cases hturn with
  | done h => cases hdone.symm.trans h
  | full _ h => cases hfree.symm.trans h
  | unbound hb => cases hbind.symm.trans (hb.not_bound hw).1
  | up hb hbeside =>
    cases hfree.symm.trans hb.free
    rw [if_pos (by simp [hbeside]), if_pos (by simp [hbeside])]
    cases hrep : w.replaces with
    | none =>
      have hasked : Asked u _ i w w.replaces := hrep ▸ hb.asked hw
      exact hasked.alone hs hw
    | some r => exact (hb.asked hw).beside hs hw hrep (hne r hrep) (hr r hrep).2
  | refused hb hbeside hrep =>
    cases hfree.symm.trans hb.free
    rw [if_neg (by simp [hbeside, hrep]), if_neg (by simp [hbeside, hrep])]
    have hasked : Asked u _ i w w.replaces := hrep ▸ hb.asked hw
    exact hasked.refused hs
  | upAlone hb hbeside hrep halone =>
    cases hfree.symm.trans hb.free
    rw [if_pos (by simp [hrep, halone]), if_pos (by simp [hrep, halone])]
    have hasked : Asked u _ i w w.replaces := hrep ▸ hb.askedAgain hw (hne _ hrep) (hr _ hrep).2
    exact hasked.alone hs hw
  | refusedAlone hb hbeside hrep halone =>
    cases hfree.symm.trans hb.free
    rw [if_neg (by simp [hbeside, halone]), if_neg (by simp [hbeside, halone])]
    have hasked : Asked u _ i w w.replaces := hrep ▸ hb.askedAgain hw (hne _ hrep) (hr _ hrep).2
    exact hasked.refused hs

/-- A slot that cannot be bound is free again, and nothing else has happened. -/
theorem requestWant_unbound (snap : Fin AP_NCH → RxChannel) (hw : WantOk w) (hdone : w.done = false)
    (hfree : freeSlot u = some i) (hbind : o.bind k = false) :
    (∃ g x, Moved u (requestWant o snap u (w, k)) i none g x ∧ SlotOk g x ∧ g.state = .idle) ∧
      (requestWant o snap u (w, k)).ch = u.ch ∧ (requestWant o snap u (w, k)).dirty = u.dirty := by
  have hturn := requestWant_turn o snap k w u
  generalize requestWant o snap u (w, k) = u' at hturn ⊢
  cases hturn with
  | done h => cases hdone.symm.trans h
  | full _ h => cases hfree.symm.trans h
  | @unbound i x hb =>
    cases hfree.symm.trans hb.free
    refine ⟨⟨{ w.slot with device := [] }, x, ?_, ?_, rfl⟩, rfl, rfl⟩
    · exact (((Moved.refl u i).setRx _).setFlow _).congr rfl rfl
    · rw [(hb.not_bound hw).2]
      exact SlotOk.idle rfl rfl rfl
  | up hb _ => cases hbind.symm.trans (hb.bound hw)
  | refused hb _ _ => cases hbind.symm.trans (hb.bound hw)
  | upAlone hb _ _ _ => cases hbind.symm.trans (hb.bound hw)
  | refusedAlone hb _ _ _ => cases hbind.symm.trans (hb.bound hw)

/-- What one turn of step 3 does to the flow table and to the statuses. -/
structure Requested (o : Outcomes) (snap : Fin AP_NCH → RxChannel) (keys : List CStr) (goal : CStr → Carry)
    (u : Sub) (w : Want) (k : ℕ) (u' : Sub) : Prop where
  inv : FlowInv u'
  same : SameSub snap u'
  dirty : u'.dirty = u.dirty
  table : flowTable u' = attend AP_MAX_FLOWS keys goal (attempts o) (flowTable u) (w.device, k)
  elsewhere : ∀ e, e ≠ w.device → ∀ j,
    ((u'.flow j).state = .active ∧ (u'.flow j).device = e ↔ (u.flow j).state = .active ∧ (u.flow j).device = e)
  status : ∀ c, (u'.ch c).status =
    if c ∈ w.slotToCh ∧ (snap c).txChannel ≠ [] then
      statusAfter (u.ch c).status (fateNow AP_MAX_FLOWS keys goal (attempts o) (flowTable u) (w.device, k))
    else (u.ch c).status

theorem Requested.still {keys : List CStr} {goal : CStr → Carry} {u' : Sub} (hinv : FlowInv u') (hs : SameSub snap u)
    (hentry : (fun j => (u'.flow j).entry) = fun j => (u.flow j).entry) (hch : u'.ch = u.ch) (hdirty : u'.dirty = u.dirty)
    (hfate : (fateNow AP_MAX_FLOWS keys goal (attempts o) (flowTable u) (w.device, k) = .kept ∧
        ∀ c ∈ w.slotToCh, (u.ch c).status = .active) ∨
      fateNow AP_MAX_FLOWS keys goal (attempts o) (flowTable u) (w.device, k) = .stuck) :
    Requested o snap keys goal u w k u' := by
  refine ⟨hinv, hs.of_ch hch, hdirty, ?_, fun e _ j => ?_, fun c => ?_⟩
  · rw [flowTable, hentry, ← flowTable, attend]
    rcases hfate with ⟨h, -⟩ | h <;> rw [h] <;> exact (Function.update_eq_self _ _).symm
  · have hj := congrFun hentry j
    constructor
    · rintro ⟨ha, rfl⟩
      obtain ⟨h1, h2, -⟩ := entry_eq_some.1 (hj ▸ entry_eq_some.2 ⟨ha, rfl, rfl⟩)
      exact ⟨h1, h2⟩
    · rintro ⟨ha, rfl⟩
      obtain ⟨h1, h2, -⟩ := entry_eq_some.1 (hj ▸ entry_eq_some.2 ⟨ha, rfl, rfl⟩)
      exact ⟨h1, h2⟩
  · rw [hch]
    rcases hfate with ⟨h, hactive⟩ | h
    · by_cases hc : c ∈ w.slotToCh
      · rw [h, hactive c hc, statusAfter, ite_self]
      · rw [if_neg fun h => hc h.1]
    · rw [h, statusAfter, ite_self]

/-- A want's turn in step 3 is its transmitter's turn in the abstract table. -/
theorem requestWant_requested {keys : List CStr} {goal : CStr → Carry} (hu : FlowInv u) (hs : SameSub snap u)
    (hw : WantOk w) (hflag : Flagged u w) (hgoal : goal w.device = w.slotToCh.zip w.req.txChannelId)
    (hfull : freeSlot u = none ↔ Full AP_MAX_FLOWS keys (flowTable u)) :
    Requested o snap keys goal u w k (requestWant o snap u (w, k)) := by
  have hkept : flowTable u w.device = some (goal w.device) ↔ w.done = true := by rw [hgoal, hflag.done]
  by_cases hdone : w.done = true
  · have heq : requestWant o snap u (w, k) = u := by simp [requestWant, hdone]
    rw [heq]
    refine Requested.still hu hs rfl rfl rfl (Or.inl ⟨?_, hflag.active hdone⟩)
    rw [fateNow, if_pos (hkept.2 hdone)]
  have hnot : ¬ flowTable u w.device = some (goal w.device) := hdone ∘ hkept.1
  have hdone : w.done = false := Bool.not_eq_true _ ▸ hdone
  cases hfree : freeSlot u with
  | none =>
    have heq : requestWant o snap u (w, k) = u := by simp [requestWant, hdone, hfree]
    rw [heq]
    refine Requested.still hu hs rfl rfl rfl (Or.inr ?_)
    rw [fateNow, if_neg hnot, if_pos (Or.inl (hfull.1 hfree))]
  | some i =>
    have hroom : ¬ Full AP_MAX_FLOWS keys (flowTable u) := by
      rw [← hfull, hfree]
      simp
    have hi : (u.flow i).device = [] := freeSlot_eq_some hfree
    cases hbind : o.bind k with
    | false =>
      obtain ⟨⟨g, x, hmoved, hok, hidle⟩, hch, hdirty⟩ := requestWant_unbound snap hw hdone hfree hbind
      refine Requested.still (hmoved.idle_inv hok hu hi hidle) hs (hmoved.idle_entry hu hi hidle) hch hdirty (Or.inr ?_)
      rw [fateNow, if_neg hnot]
      exact if_pos (Or.inr hbind)
    | true =>
      have hr := hflag.replaces hdone
      have hrep : w.replaces ≠ none ↔ flowTable u w.device ≠ none := by
        rw [Ne, Ne, not_iff_not, flowTable_eq_none, Option.eq_none_iff_forall_ne_some]
        refine forall_congr' fun j => ?_
        rw [Ne, hr j, not_and]
      have hanswered := requestWant_bound (o := o) hs hw hdone hfree hbind fun r h =>
        ⟨(hu.slot r).device.1 ((hr r).1 h).1, hu.slot r⟩
      obtain ⟨⟨g, x, hmoved, hok, hg⟩, hsame, hdirty, hstatus⟩ := hanswered
      have hfate : fateNow AP_MAX_FLOWS keys goal (attempts o) (flowTable u) (w.device, k) =
          if (o.request k false).isSome = true ∨ (w.replaces ≠ none ∧ (o.request k true).isSome = true) then .up
          else .lost := by
        rw [fateNow, if_neg hnot, if_neg]
        · refine if_congr ?_ rfl rfl
          rw [hrep]
          rfl
        · rw [not_or]
          exact ⟨hroom, by simp [attempts, hbind]⟩
      by_cases hup : (o.request k false).isSome = true ∨ (w.replaces ≠ none ∧ (o.request k true).isSome = true)
      · rw [if_pos hup] at hg hfate
        have hg' : g.entry = (some (goal w.device)).map (w.device, ·) := by rw [hg, hgoal]; rfl
        refine ⟨hmoved.inv hok hu hr hg', hsame, hdirty, ?_, fun e he j => hmoved.elsewhere hu hi hr hg' he j, fun c => ?_⟩
        · rw [hmoved.table hu hi hr hg', attend, hfate]
          rfl
        · rw [hstatus c, if_pos hup, hfate]
          rfl
      · rw [if_neg hup] at hg hfate
        have hg' : g.entry = (none : Option Carry).map (w.device, ·) := hg
        refine ⟨hmoved.inv hok hu hr hg', hsame, hdirty, ?_, fun e he j => hmoved.elsewhere hu hi hr hg' he j, fun c => ?_⟩
        · rw [hmoved.table hu hi hr hg', attend, hfate]
          rfl
        · rw [hstatus c, if_neg hup, hfate]
          rfl

end Inferno
