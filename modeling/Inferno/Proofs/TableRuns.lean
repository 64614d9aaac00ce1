import Inferno.Proofs.DoubleFeed

/-! The flow table over whole runs of the subscriber's task, with the other tasks writing
the subscription table at any time. A channel without a transmitter's name that never
resolves is all that the table's order needs: the resolve cache then knows named
transmitters only, and so does every rebuild. -/

namespace Inferno

open Lib

variable {prof : RateProfile} {o : Outcomes} {s s' : Sub}

def NamelessFails (o : Outcomes) (s : Sub) : Prop :=
  ∀ c, (s.ch c).txChannel ≠ [] → (s.ch c).txDevice = [] → o.resolve c = none

instance (o : Outcomes) (s : Sub) : Decidable (NamelessFails o s) := inferInstanceAs (Decidable (∀ _, _ → _ → _))

/-- Every resolution in the cache is of a transmitter with a name. -/
def ResNamed (s : Sub) : Prop := ∀ c, (s.res c).valid = true → (s.res c).txDevice ≠ []

theorem ResNamed.of_res (h : ResNamed s) (hres : s'.res = s.res) : ResNamed s' := by
  intro c
  rw [hres]
  exact h c

theorem ResNamed.answer {c : Fin AP_NCH} (h : ResNamed s) (ho : NamelessFails o s)
    (ha : (Inferno.answer o s c).isSome = true) : (s.ch c).txDevice ≠ [] := by
  intro hdevice
  rw [Inferno.answer] at ha
  split_ifs at ha with hsub
  · cases ha
  rw [resolveCached] at ha
  split_ifs at ha with hcached
  · exact h c hcached.1 (hcached.2.2.trans hdevice)
  · rw [ho c hsub hdevice] at ha
    cases ha

theorem ResNamed.named (h : ResNamed s) (ho : NamelessFails o s) : Named prof o s := by
  intro c hc
  apply h.answer ho
  rw [feed] at hc
  cases ha : Inferno.answer o s c with
  | none =>
    rw [ha] at hc
    cases hc
  | some tx => rfl

theorem ResNamed.resolveCached {u : Sub} {c : Fin AP_NCH} {ch : RxChannel} (h : ResNamed u)
    (hc : ch.txDevice = [] → o.resolve c = none) : ResNamed (Inferno.resolveCached o c ch u).1 := by
  unfold Inferno.resolveCached
  dsimp only
  split_ifs with hcached
  · exact h
  cases hr : o.resolve c with
  | none =>
    intro e he
    rcases eq_or_ne e c with rfl | hec
    · simp only [Function.update_self] at he
      cases he
    · simp only [Function.update_of_ne hec] at he ⊢
      exact h e he
  | some tx =>
    intro e he
    rcases eq_or_ne e c with rfl | hec
    · simp only [Function.update_self]
      intro hdevice
      rw [hc hdevice] at hr
      cases hr
    · simp only [Function.update_of_ne hec] at he ⊢
      exact h e he

@[simp] theorem setStatusIfCurrent_res (snap : Fin AP_NCH → RxChannel) (c : Fin AP_NCH) (st : ArcSub) (u : Sub) :
    (setStatusIfCurrent snap c st u).res = u.res := by
  obtain ⟨ch, h⟩ := setStatusIfCurrent_frame snap c st u
  rw [h]

@[simp] theorem setStatuses_res (snap : Fin AP_NCH → RxChannel) (l : List (Fin AP_NCH)) (st : ArcSub) (u : Sub) :
    (setStatuses snap l st u).res = u.res := by
  obtain ⟨ch, h⟩ := setStatuses_frame snap l st u
  rw [h]

@[simp] theorem tearDown_res (i : Fin AP_MAX_FLOWS) (u : Sub) : (tearDown i u).res = u.res := by
  unfold tearDown
  split_ifs <;> rfl

/-- All that step 1 does to the cache is to drop an unsubscribed channel's entry and to
resolve the others. -/
theorem wantChannel_res (snap : Fin AP_NCH → RxChannel) (t : Wanting) (c : Fin AP_NCH) :
    (wantChannel prof o snap t c).s.res =
      if (snap c).txChannel = [] then Function.update t.s.res c { t.s.res c with valid := false }
      else (resolveCached o c (snap c) t.s).1.res := by
  unfold wantChannel
  by_cases hsub : (snap c).txChannel = []
  · rw [if_pos hsub, if_pos hsub]
  rw [if_neg hsub, if_neg hsub]
  rcases resolveCached o c (snap c) t.s with ⟨u, _ | tx⟩
  · exact setStatusIfCurrent_res snap c .pending _
  dsimp only
  by_cases hz : tx.sampleRate ≠ prof.hz
  · rw [if_pos hz]
    exact setStatusIfCurrent_res snap c .pending u
  rw [if_neg hz]
  cases t.want.findIdx? fun w => w.device = (snap c).txDevice with
  | none =>
    dsimp only
    split_ifs
    · exact setStatusIfCurrent_res snap c .pending u
    · rfl
  | some w =>
    dsimp only
    split_ifs
    · exact setStatusIfCurrent_res snap c .pending u
    · rfl

theorem ResNamed.wantAll (h : ResNamed s) (ho : NamelessFails o s) : ResNamed (Inferno.wantAll prof o s).s := by
  have hrun := run_induct (wantChannel prof o s.ch) (s := ⟨s, [], 0⟩) (P := fun _ t => ResNamed t.s) h
    (fun l c ih => by
      generalize l.foldl (wantChannel prof o s.ch) ⟨s, [], 0⟩ = t at ih ⊢
      rw [ResNamed, wantChannel_res]
      split_ifs with hsub
      · intro e he
        rcases eq_or_ne e c with rfl | hec
        · simp only [Function.update_self] at he
          cases he
        · simp only [Function.update_of_ne hec] at he ⊢
          exact ih e he
      · exact ih.resolveCached (ho c hsub))
  exact hrun _

def Forgets (s s' : Sub) : Prop := ∀ c, (s'.res c).valid = true → s'.res c = s.res c

theorem Forgets.of_res (h : s'.res = s.res) : Forgets s s' := fun c _ => congrFun h c

theorem Forgets.trans {u : Sub} (h : Forgets s s') (h' : Forgets s' u) : Forgets s u := by
  intro c hc
  have hc' := h' c hc
  rw [hc'] at hc ⊢
  exact h c hc

theorem Forgets.resNamed (h : Forgets s s') (hs : ResNamed s) : ResNamed s' := by
  intro c hc
  have hres := h c hc
  rw [hres] at hc ⊢
  exact hs c hc

theorem forgets_forgetDevice (dev : CStr) (u : Sub) : Forgets u (forgetDevice dev u) := by
  intro c
  simp only [forgetDevice]
  split_ifs
  · intro hc
    cases hc
  · exact fun _ => rfl

theorem reconcileFlow_res (snap : Fin AP_NCH → RxChannel) (t : Sub × List Want) (i : Fin AP_MAX_FLOWS) :
    (reconcileFlow snap t i).1.res = t.1.res := by
  unfold reconcileFlow
  dsimp only
  by_cases hdevice : (t.1.flow i).device = []
  · rw [if_pos hdevice]
  rw [if_neg hdevice]
  cases t.2.findIdx? fun w => !w.done && w.device = (t.1.flow i).device with
  | none => exact tearDown_res i t.1
  | some k =>
    dsimp only
    split_ifs
    · exact tearDown_res i t.1
    · exact setStatuses_res snap _ .active t.1
    · rfl

theorem flowUp_res (snap : Fin AP_NCH → RxChannel) (k : ℕ) (i : Fin AP_MAX_FLOWS) (f : FlowSlot)
    (replaces : Option (Fin AP_MAX_FLOWS)) (handle : List UInt8) (u : Sub) :
    (flowUp o snap k i f replaces handle u).res = u.res := by
  unfold flowUp activateSlots
  rw [setStatuses_res]
  cases replaces with
  | none => rfl
  | some r => exact tearDown_res r _

theorem forgets_flowRefused (snap : Fin AP_NCH → RxChannel) (i : Fin AP_MAX_FLOWS) (f : FlowSlot) (w : Want) (u : Sub) :
    Forgets u (flowRefused snap i f w u) := by
  have hforget := forgets_forgetDevice w.device { u with st := { u.st with requestsFailed := u32 (u.st.requestsFailed + 1) } }
  refine Forgets.trans hforget (Forgets.of_res ?_)
  rw [flowRefused, setStatuses_res]
  rfl

theorem forgets_requestWant (snap : Fin AP_NCH → RxChannel) (u : Sub) (wk : Want × ℕ) :
    Forgets u (requestWant o snap u wk) := by
  obtain ⟨w, k⟩ := wk
  have hturn := requestWant_turn o snap k w u
  generalize requestWant o snap u (w, k) = u' at hturn ⊢
  cases hturn with
  | done hdone => exact Forgets.of_res rfl
  | full hdone hfree => exact Forgets.of_res rfl
  | unbound hb => exact Forgets.of_res rfl
  | up hb hbeside => exact Forgets.of_res (flowUp_res _ _ _ _ _ _ _)
  | refused hb hbeside hrep => exact forgets_flowRefused _ _ _ _ _
  | upAlone hb hbeside hrep halone =>
    apply Forgets.of_res
    rw [flowUp_res]
    exact tearDown_res _ _
  | refusedAlone hb hbeside hrep halone =>
    refine Forgets.trans (Forgets.of_res ?_) (forgets_flowRefused _ _ _ _ _)
    exact tearDown_res _ _

theorem ResNamed.rebuild (h : ResNamed s) (ho : NamelessFails o s) : ResNamed (Inferno.rebuild prof o s) := by
  rw [rebuild_eq]
  have hwanted : ResNamed (wanted prof o s) := (h.wantAll ho).of_res rfl
  have hreconciled : ResNamed (reconciledTable prof o s).1 := by
    have hrun := run_induct (reconcileFlow s.ch) (s := (wanted prof o s, (Inferno.wantAll prof o s).want))
      (P := fun _ t => ResNamed t.1) hwanted (fun _ i ih => ih.of_res (reconcileFlow_res s.ch _ i))
    exact hrun _
  have hrun := run_induct (requestWant o s.ch) (s := (reconciledTable prof o s).1) (P := fun _ t => ResNamed t)
    hreconciled (fun _ wk ih => (forgets_requestWant s.ch _ wk).resNamed ih)
  exact hrun _

theorem forgets_livenessFlow (now : ℤ) (pk : Fin AP_MAX_FLOWS → ℕ) (u : Sub) (i : Fin AP_MAX_FLOWS) :
    Forgets u (livenessFlow now pk u i) := by
  unfold livenessFlow
  dsimp only
  split_ifs
  · exact Forgets.of_res rfl
  · exact Forgets.of_res rfl
  · have hforget := forgets_forgetDevice (u.flow i).device
      { u with st := { u.st with keepalivesLost := u32 (u.st.keepalivesLost + 1) } }
    exact Forgets.trans hforget (Forgets.of_res (tearDown_res i _))

theorem ResNamed.step (h : ResNamed s) (e : SubEvent) (ho : AtRebuild NamelessFails s e) :
    ResNamed (subStep prof s e) := by
  cases e with
  | set c txChannel txDevice => exact h.of_res rfl
  | refresh => exact h.of_res rfl
  | check o now t =>
    by_cases hr : Rebuilds now s
    · have hclean : ResNamed { s with dirty := false } := h.of_res rfl
      have hrebuilt : ResNamed (Inferno.rebuild prof o { s with dirty := false }) := hclean.rebuild (ho hr)
      rw [subStep, subCheck_of_rebuilds hr]
      exact hrebuilt.of_res rfl
    · rw [subStep, subCheck_of_not_rebuilds hr]
      exact h
  | liveness now pk =>
    have hrun := run_induct (livenessFlow now pk) (s := s) (P := fun _ t => ResNamed t) h
      (fun _ i ih => (forgets_livenessFlow now pk _ i).resNamed ih)
    exact hrun _

/-- A step of the task or of a controller's patch, or all that the other tasks make of
the subscription table and the flag while the task is in the middle of one: rebuild works
on its snapshot, and takes nothing else from the table but whether a status still stands. -/
inductive TaskEvent where
  | step (e : SubEvent)
  | table (names : Fin AP_NCH → CStr × CStr × ArcSub) (dirty : Bool)

def taskStep (prof : RateProfile) (s : Sub) : TaskEvent → Sub
  | .step e => subStep prof s e
  | .table names dirty =>
    { s with
      ch := fun c => { s.ch c with
        txChannel := strncpy31 (names c).1, txDevice := strncpy31 (names c).2.1, status := (names c).2.2 }
      dirty := dirty }

/-- No subscription without a transmitter's name resolves in a rebuild of this step. -/
def NamelessFailsAt (s : Sub) : TaskEvent → Prop
  | .step e => AtRebuild NamelessFails s e
  | .table _ _ => True

instance (s : Sub) (e : TaskEvent) : Decidable (NamelessFailsAt s e) := by
  cases e <;> unfold NamelessFailsAt <;> infer_instance

/-- What holds between the steps of the task. -/
structure TaskInv (s : Sub) : Prop where
  sub : SubInv s
  res : ResNamed s

theorem taskInv_boot : TaskInv Sub.boot := ⟨subInv_boot, fun _ h => by cases h⟩

theorem TaskInv.step (h : TaskInv s) (e : TaskEvent) (ho : NamelessFailsAt s e) : TaskInv (taskStep prof s e) := by
  cases e with
  | step e =>
    refine ⟨h.sub.step e ?_, h.res.step e ho⟩
    cases e with
    | check o now t => exact fun hr => h.res.named (ho hr)
    | _ => trivial
  | table names dirty =>
    exact ⟨⟨h.sub.flows.congr rfl rfl, fun c => List.length_take_le _ _⟩, h.res.of_res rfl⟩

/-- A slot is active, named and received together, no transmitter has two, and an active
one carries one to eight channels, each once, by the map that its receive flow has. -/
structure TableInOrder (s : Sub) : Prop where
  named : ∀ i, (s.flow i).state = .active ↔ (s.flow i).device ≠ []
  received : ∀ i, (s.flow i).state = .active ↔ (s.rx i).active = true
  single : ∀ i j, (s.flow i).state = .active → (s.flow j).state = .active →
    (s.flow i).device = (s.flow j).device → i = j
  slots : ∀ i, (s.flow i).state = .active →
    1 ≤ (s.flow i).req.nslots ∧ (s.flow i).req.nslots ≤ AP_MAX_CH_PER_FLOW ∧
      (s.flow i).slotToCh.length = (s.flow i).req.nslots ∧ (s.flow i).slotToCh.Nodup
  bound : ∀ i, (s.flow i).state = .active →
    (s.rx i).nslots = (s.flow i).req.nslots ∧ (s.rx i).slotToCh = slotMap (s.flow i).slotToCh

theorem FlowInv.inOrder (h : FlowInv s) : TableInOrder s := by
  refine ⟨fun i => (h.slot i).device, fun i => (h.slot i).rx.symm, fun i j hi hj hd => ?_, fun i hi => ?_, fun i hi => ?_⟩
  · exact h.keys i j _ _ _ (entry_eq_some.2 ⟨hi, hd, rfl⟩) (entry_eq_some.2 ⟨hj, rfl, rfl⟩)
  · have hslot := h.slot i
    have hnodup : (s.flow i).slotToCh.Nodup := (hslot.sorted hi).imp fun h => h.ne
    have hids : (s.flow i).req.nslots = (s.flow i).slotToCh.length := hslot.ids hi
    have hpos := List.length_pos_iff.2 (hslot.ne hi)
    have hle : (s.flow i).slotToCh.length ≤ AP_NCH := by simpa using hnodup.length_le_card
    rw [hids]
    exact ⟨hpos, hle, rfl, hnodup⟩
  · have hids : (s.flow i).req.nslots = (s.flow i).slotToCh.length := (h.slot i).ids hi
    rw [hids]
    exact (h.slot i).bound hi

/-- In every run in which no nameless subscription resolves, the flow table is in order
between the steps of the task. -/
theorem flow_table_in_order {l : List TaskEvent}
    (ho : ∀ k (hk : k < l.length), NamelessFailsAt (before (taskStep prof) Sub.boot l k) l[k]) {k : ℕ}
    (hk : k ≤ l.length) : TableInOrder (before (taskStep prof) Sub.boot l k) := by
  have hinv := guarded_run (taskStep prof) (P := fun _ t => TaskInv t) (G := fun _ t e => NamelessFailsAt t e) taskInv_boot
    (fun _ _ e h hn => h.step e hn) ho hk
  exact hinv.sub.flows.inOrder

/-- A first patch is rebuilt and then taken back, before the task looks again. -/
def patchTakenBack : List TaskEvent :=
  [.step (.set 0 [1] [65]), .step (.check allSucceed 0 0), .table (fun _ => ([], [], .none)) true]

theorem flow_table_in_order_first_patch : TableInOrder (before (taskStep rate48k) Sub.boot patchTakenBack 3) :=
  flow_table_in_order (l := patchTakenBack) (by decide +kernel) (by decide)

end Inferno
