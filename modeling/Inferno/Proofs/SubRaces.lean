import Inferno.Lib.Trace
import Inferno.Spec.SubRace

/-! Two laws of the subscriber under every interleaving. No patch is lost: the flag is
cleared before the snapshot is taken, so a snapshot taken later holds every patch the
cleared flag stood for. An unsubscribed channel shows none: this one fails where an
unsubscribe slips in between the currency check and the status write, and only there. -/

namespace Inferno

open Lib

/-- The three steps of a `subscriber_set`, uninterrupted, are the call. -/
theorem setSteps_eq (s : Sub) (x : SetCall) :
    (subscriberSet x.c x.txChannel x.txDevice s).ch = x.write s.ch ∧
      (subscriberSet x.c x.txChannel x.txDevice s).dirty = true := ⟨rfl, rfl⟩

/-- A check and its write, uninterrupted, are `set_status_if_current`. -/
theorem checkWrite_eq (r : SubRace) (s : Sub) (c : Fin AP_NCH) (up : Bool) (hch : r.ch = s.ch)
    (hpc : r.pc = .rebuilding) (hl : r.lock = none) :
    ((r.next (.check c up)).next .write).ch = (setStatusIfCurrent r.snap c (statusOf up) s).ch ∧
      ((r.next (.check c up)).next .write).pc = .rebuilding := by
  by_cases hcur : r.current c
  · have h1 : r.next (.check c up) = { r with pc := .writing c (statusOf up) } := if_pos ⟨hpc, hl, hcur⟩
    have h2 : ({ r with pc := .writing c (statusOf up) } : SubRace).next .write =
        { r with ch := Function.update r.ch c { r.ch c with status := statusOf up }, pc := .rebuilding } :=
      if_pos hl
    have h3 : setStatusIfCurrent r.snap c (statusOf up) s = setStatus c (statusOf up) s := by
      refine if_pos ?_
      rw [← hch]
      exact hcur
    rw [h1, h2, h3]
    exact ⟨by rw [hch]; rfl, rfl⟩
  · have h1 : r.next (.check c up) = r := if_neg fun h => hcur h.2.2
    have h2 : r.next .write = r := by simp only [SubRace.next, hpc]
    have h3 : setStatusIfCurrent r.snap c (statusOf up) s = s := by
      refine if_neg ?_
      rw [← hch]
      exact hcur
    rw [h1, h2, h3]
    exact ⟨hch, hpc⟩

/-- The steps that change something, each with what it waits for and what it leaves. -/
inductive SubRace.Moves (s : SubRace) : SubRaceStep → SubRace → Prop where
  | setWrite {x : SetCall} (hl : s.lock = none) :
      Moves s (.setWrite x) { s with ch := x.write s.ch, lock := some (x, false) }
  | setFlag {x : SetCall} (hl : s.lock = some (x, false)) :
      Moves s .setFlag { s with dirty := true, lock := some (x, true) }
  | setGive {x : SetCall} (hl : s.lock = some (x, true)) :
      Moves s .setGive { s with lock := none, sets := s.sets ++ [x] }
  | refresh : Moves s .refresh { s with dirty := true }
  | readDirty (hpc : s.pc = .top) (hd : s.dirty = true) : Moves s .readDirty { s with pc := .sawDirty }
  | clearDirty (hpc : s.pc = .sawDirty) : Moves s .clearDirty { s with dirty := false, pc := .entering }
  | retry (hpc : s.pc = .top) : Moves s .retry { s with pc := .entering }
  | snapshot (hpc : s.pc = .entering) (hl : s.lock = none) :
      Moves s .snapshot { s with snap := s.ch, pc := .rebuilding }
  | check {c : Fin AP_NCH} {up : Bool} (hpc : s.pc = .rebuilding) (hl : s.lock = none) (hcur : s.current c) :
      Moves s (.check c up) { s with pc := .writing c (statusOf up) }
  | write {c : Fin AP_NCH} {st : ArcSub} (hpc : s.pc = .writing c st) (hl : s.lock = none) :
      Moves s .write { s with ch := Function.update s.ch c { s.ch c with status := st }, pc := .rebuilding }
  | finish (hpc : s.pc = .rebuilding) : Moves s .finish { s with pc := .top }
  | liveness (hpc : s.pc = .top) : Moves s (.liveness true) { s with dirty := true }

theorem SubRace.next_moves (s : SubRace) (e : SubRaceStep) : s.next e = s ∨ s.Moves e (s.next e) := by
  cases e with
  | setWrite x =>
    simp only [SubRace.next]
    split_ifs with hl
    · exact .inr (.setWrite hl)
    · exact .inl rfl
  | setFlag =>
    simp only [SubRace.next]
    split
    · exact .inr (.setFlag ‹_›)
    · exact .inl rfl
  | setGive =>
    simp only [SubRace.next]
    split
    · exact .inr (.setGive ‹_›)
    · exact .inl rfl
  | refresh => exact .inr .refresh
  | readDirty =>
    simp only [SubRace.next]
    split_ifs with h
    · exact .inr (.readDirty h.1 h.2)
    · exact .inl rfl
  | clearDirty =>
    simp only [SubRace.next]
    split_ifs with h
    · exact .inr (.clearDirty h)
    · exact .inl rfl
  | retry =>
    simp only [SubRace.next]
    split_ifs with h
    · exact .inr (.retry h)
    · exact .inl rfl
  | snapshot =>
    simp only [SubRace.next]
    split_ifs with h
    · exact .inr (.snapshot h.1 h.2)
    · exact .inl rfl
  | check c up =>
    simp only [SubRace.next]
    split_ifs with h
    · exact .inr (.check h.1 h.2.1 h.2.2)
    · exact .inl rfl
  | write =>
    simp only [SubRace.next]
    split
    · split_ifs with hl
      · exact .inr (.write ‹_› hl)
      · exact .inl rfl
    · exact .inl rfl
  | finish =>
    simp only [SubRace.next]
    split_ifs with h
    · exact .inr (.finish h)
    · exact .inl rfl
  | liveness died =>
    simp only [SubRace.next]
    split_ifs with h
    · obtain ⟨hpc, rfl⟩ := h
      exact .inr (.liveness hpc)
    · exact .inl rfl

theorem SubRace.next_keeps {P : SubRace → Prop} {s : SubRace} {e : SubRaceStep} (hi : P s)
    (hmoves : ∀ s', s.Moves e s' → P s') : P (s.next e) := by
  rcases s.next_moves e with h | h
  · rw [h]
    exact hi
  · exact hmoves _ h

def names (ch : Fin AP_NCH → RxChannel) : Fin AP_NCH → CStr × CStr := fun c => ((ch c).txChannel, (ch c).txDevice)

theorem names_write {x : SetCall} {ch ch' : Fin AP_NCH → RxChannel} (h : names ch = names ch') :
    names (x.write ch) = names (x.write ch') := by
  funext c
  rcases eq_or_ne c x.c with rfl | hc
  · simp only [names, SetCall.write, Function.update_self]
    split_ifs <;> rfl
  · simp only [names, SetCall.write, Function.update_of_ne hc]
    exact congrFun h c

theorem names_setStatus (ch : Fin AP_NCH → RxChannel) (c : Fin AP_NCH) (st : ArcSub) :
    names (Function.update ch c { ch c with status := st }) = names ch := by
  funext d
  rcases eq_or_ne d c with rfl | hd
  · simp only [names, Function.update_self]
  · simp only [names, Function.update_of_ne hd]

/-- The calls that have written the table: those completed, and the one under way. -/
def SubRace.written (s : SubRace) : List SetCall := s.sets ++ (s.lock.map Prod.fst).toList

def afterSets (ch : Fin AP_NCH → RxChannel) (l : List SetCall) : Fin AP_NCH → RxChannel :=
  l.foldl (fun ch x => x.write ch) ch

/-- What holds between steps: the table names what the calls so far wrote, and a call
that has set the flag is covered by the flag, by the snapshot about to be taken, or by
the last one. -/
structure CoverInv (ch₀ : Fin AP_NCH → RxChannel) (s : SubRace) : Prop where
  table : names s.ch = names (afterSets ch₀ s.written)
  cover : s.dirty = true ∨ s.pc = .entering ∨
    (names s.snap = names (afterSets ch₀ s.sets) ∧ ∀ x, s.lock ≠ some (x, true))

theorem coverInv_start (sv : Fin AP_NCH → CStr × CStr × CStr) :
    CoverInv (loadTable sv) (SubRace.start sv) := ⟨rfl, .inl rfl⟩

/-- A step that touches neither the names nor the lock, and does not undo the cover. -/
theorem CoverInv.of_same {ch₀ : Fin AP_NCH → RxChannel} {s s' : SubRace} (hi : CoverInv ch₀ s)
    (hch : names s'.ch = names s.ch) (hlock : s'.lock = s.lock) (hsets : s'.sets = s.sets)
    (hcover : s'.dirty = true ∨ s'.pc = .entering ∨
      (s'.dirty = s.dirty ∧ s'.snap = s.snap ∧ (s.pc = .entering → s'.pc = .entering))) : CoverInv ch₀ s' := by
  refine ⟨by rw [hch, SubRace.written, hlock, hsets]; exact hi.table, ?_⟩
  rcases hcover with h | h | ⟨hd, hsn, hpc⟩
  · exact .inl h
  · exact .inr (.inl h)
  · rcases hi.cover with h | h | ⟨h1, h2⟩
    · exact .inl (hd.trans h)
    · exact .inr (.inl (hpc h))
    · exact .inr (.inr ⟨by rw [hsn, hsets]; exact h1, fun x => by rw [hlock]; exact h2 x⟩)

theorem CoverInv.setWrite {ch₀ : Fin AP_NCH → RxChannel} {s : SubRace} (hi : CoverInv ch₀ s) (hl : s.lock = none)
    (x : SetCall) : CoverInv ch₀ { s with ch := x.write s.ch, lock := some (x, false) } := by
  have hw : s.written = s.sets := by simp [SubRace.written, hl]
  refine ⟨?_, ?_⟩
  · have htable := hi.table
    rw [hw] at htable
    have hnew : ({ s with ch := x.write s.ch, lock := some (x, false) } : SubRace).written = s.sets ++ [x] := rfl
    rw [hnew, afterSets, List.foldl_append]
    exact names_write htable
  · rcases hi.cover with h | h | ⟨h1, -⟩
    · exact .inl h
    · exact .inr (.inl h)
    · refine .inr (.inr ⟨h1, fun y hy => ?_⟩)
      cases hy

theorem CoverInv.setFlag {ch₀ : Fin AP_NCH → RxChannel} {s : SubRace} (hi : CoverInv ch₀ s) {x : SetCall}
    (hl : s.lock = some (x, false)) : CoverInv ch₀ { s with dirty := true, lock := some (x, true) } := by
  refine ⟨?_, .inl rfl⟩
  have htable := hi.table
  simp only [SubRace.written, hl, Option.map_some] at htable ⊢
  exact htable

theorem CoverInv.setGive {ch₀ : Fin AP_NCH → RxChannel} {s : SubRace} (hi : CoverInv ch₀ s) {x : SetCall}
    (hl : s.lock = some (x, true)) : CoverInv ch₀ { s with lock := none, sets := s.sets ++ [x] } := by
  refine ⟨?_, ?_⟩
  · have htable := hi.table
    simp only [SubRace.written, hl, Option.map_some, Option.toList_some] at htable
    simp only [SubRace.written, Option.map_none, Option.toList_none, List.append_nil]
    exact htable
  · rcases hi.cover with h | h | ⟨-, h2⟩
    · exact .inl h
    · exact .inr (.inl h)
    · exact absurd hl (h2 x)

theorem CoverInv.snapshot {ch₀ : Fin AP_NCH → RxChannel} {s : SubRace} (hi : CoverInv ch₀ s) (hl : s.lock = none) :
    CoverInv ch₀ { s with snap := s.ch, pc := .rebuilding } := by
  have hw : s.written = s.sets := by simp [SubRace.written, hl]
  have htable := hi.table
  refine ⟨htable, .inr (.inr ⟨?_, fun x hx => ?_⟩)⟩
  · rw [hw] at htable
    exact htable
  · cases hl.symm.trans hx

theorem CoverInv.moves {ch₀ : Fin AP_NCH → RxChannel} {s s' : SubRace} {e : SubRaceStep} (hi : CoverInv ch₀ s)
    (h : s.Moves e s') : CoverInv ch₀ s' := by
  cases h with
  | setWrite hl => exact hi.setWrite hl _
  | setFlag hl => exact hi.setFlag hl
  | setGive hl => exact hi.setGive hl
  | refresh => exact hi.of_same rfl rfl rfl (.inl rfl)
  | readDirty hpc hd => exact hi.of_same rfl rfl rfl (.inl hd)
  | clearDirty hpc => exact hi.of_same rfl rfl rfl (.inr (.inl rfl))
  | retry hpc => exact hi.of_same rfl rfl rfl (.inr (.inl rfl))
  | snapshot hpc hl => exact hi.snapshot hl
  | check hpc hl hcur =>
    exact hi.of_same rfl rfl rfl (.inr (.inr ⟨rfl, rfl, fun he => by cases hpc.symm.trans he⟩))
  | write hpc hl =>
    exact hi.of_same (names_setStatus _ _ _) rfl rfl (.inr (.inr ⟨rfl, rfl, fun he => by cases hpc.symm.trans he⟩))
  | finish hpc => exact hi.of_same rfl rfl rfl (.inr (.inr ⟨rfl, rfl, fun he => by cases hpc.symm.trans he⟩))
  | liveness hpc => exact hi.of_same rfl rfl rfl (.inl rfl)

/-- Whenever the flag is down and the task is not on its way into a rebuild, the last
snapshot names what every completed `subscriber_set` left. -/
theorem no_patch_lost (sv : Fin AP_NCH → CStr × CStr × CStr) (l : List SubRaceStep)
    (hpc : (subRaceRun sv l).pc ≠ .entering) (hd : (subRaceRun sv l).dirty = false) :
    names (subRaceRun sv l).snap = names (afterSets (loadTable sv) (subRaceRun sv l).sets) := by
  have hi : CoverInv (loadTable sv) (subRaceRun sv l) :=
    run_induct SubRace.next (P := fun _ s => CoverInv (loadTable sv) s) (coverInv_start sv)
      (fun _ e hi => SubRace.next_keeps hi fun _ h => hi.moves h) l
  rcases hi.cover with h | h | ⟨h, -⟩
  · rw [hd] at h
    cases h
  · exact absurd h hpc
  · exact h

/-- A patch that arrives between the clearing of the flag and the snapshot. -/
theorem no_patch_lost_late : names (subRaceRun (fun _ => ([], [], [])) [.readDirty, .clearDirty,
    .setWrite ⟨0, [76], [68]⟩, .setFlag, .setGive, .snapshot, .finish, .readDirty, .clearDirty, .snapshot,
    .finish]).snap 0 = ([76], [68]) :=
  (congrFun (no_patch_lost (fun _ => ([], [], [])) [.readDirty, .clearDirty, .setWrite ⟨0, [76], [68]⟩, .setFlag,
    .setGive, .snapshot, .finish, .readDirty, .clearDirty, .snapshot, .finish] (by decide) (by decide)) 0).trans
    (by decide)

/-- No channel without a subscription shows one. -/
def ShowsNone (s : SubRace) : Prop := ∀ c, (s.ch c).txChannel = [] → (s.ch c).status = .none

/-- The law: it holds wherever no `subscriber_set` is in progress. -/
def QuietShowsNone (s : SubRace) : Prop := s.lock = none → ShowsNone s

/-- A status write that finds its channel still subscribed to something. -/
def WriteStillSubscribed (s : SubRace) (e : SubRaceStep) : Prop :=
  e = .write → s.lock = none → ∀ c st, s.pc = .writing c st → (s.ch c).txChannel ≠ []

/-- What the task writes is a status of a subscribed channel. -/
structure StatusRace (s : SubRace) : Prop where
  shows : ShowsNone s
  writing : ∀ c st, s.pc = .writing c st → st ≠ .none

theorem statusRace_start (sv : Fin AP_NCH → CStr × CStr × CStr) : StatusRace (SubRace.start sv) := by
  refine ⟨fun c hc => ?_, fun c st h => by cases h⟩
  have hc : strncpy31 (sv c).1 = [] := hc
  simp only [SubRace.start, loadTable, hc, ne_eq, not_true_eq_false, if_false]

theorem showsNone_write {ch : Fin AP_NCH → RxChannel} (h : ∀ c, (ch c).txChannel = [] → (ch c).status = .none)
    (x : SetCall) : ∀ c, (x.write ch c).txChannel = [] → (x.write ch c).status = .none := by
  intro c hc
  rcases eq_or_ne c x.c with rfl | hne
  · simp only [SetCall.write, Function.update_self] at hc ⊢
    split_ifs at hc ⊢ with hx
    · rfl
    · exact absurd ((List.take_eq_nil_iff.mp hc).resolve_left (by decide)) hx
  · simp only [SetCall.write, Function.update_of_ne hne] at hc ⊢
    exact h c hc

theorem StatusRace.of_same {s s' : SubRace} (hi : StatusRace s) (hch : s'.ch = s.ch)
    (hpc : ∀ c st, s'.pc = .writing c st → st ≠ .none) : StatusRace s' :=
  ⟨fun c => by rw [hch]; exact hi.shows c, hpc⟩

/-- Only a status write can break the law, and one that finds its channel subscribed
does not. -/
theorem StatusRace.moves {s s' : SubRace} {e : SubRaceStep} (hi : StatusRace s) (hg : WriteStillSubscribed s e)
    (h : s.Moves e s') : StatusRace s' := by
  cases h with
  | setWrite hl => exact ⟨showsNone_write hi.shows _, hi.writing⟩
  | setFlag hl => exact hi.of_same rfl hi.writing
  | setGive hl => exact hi.of_same rfl hi.writing
  | refresh => exact hi.of_same rfl hi.writing
  | readDirty hpc hd => exact hi.of_same rfl fun c st h => by cases h
  | clearDirty hpc => exact hi.of_same rfl fun c st h => by cases h
  | retry hpc => exact hi.of_same rfl fun c st h => by cases h
  | snapshot hpc hl => exact hi.of_same rfl fun c st h => by cases h
  | @check c up hpc hl hcur =>
    refine hi.of_same rfl fun d st h => ?_
    cases h
    cases up <;> exact ArcSub.noConfusion
  | @write c st hpc hl =>
    refine ⟨fun d hd => ?_, fun d st h => by cases h⟩
    rcases eq_or_ne d c with rfl | hne
    · simp only [Function.update_self] at hd
      exact absurd hd (hg rfl hl d st hpc)
    · simp only [Function.update_of_ne hne] at hd ⊢
      exact hi.shows d hd
  | finish hpc => exact hi.of_same rfl fun c st h => by cases h
  | liveness hpc => exact hi.of_same rfl hi.writing

theorem StatusRace.next {s : SubRace} (hi : StatusRace s) (e : SubRaceStep) (hg : WriteStillSubscribed s e) :
    StatusRace (s.next e) := SubRace.next_keeps hi fun _ h => hi.moves hg h

/-- Before a bad write the law holds and no call is in progress; after it, neither has
changed but the status. -/
theorem quietShowsNone_next_iff {s : SubRace} (hi : StatusRace s) (e : SubRaceStep) :
    QuietShowsNone (s.next e) ↔ WriteStillSubscribed s e := by
  constructor
  · rintro hq rfl hl c st hpc hempty
    have hnext : s.next .write =
        { s with ch := Function.update s.ch c { s.ch c with status := st }, pc := .rebuilding } := by
      simp only [SubRace.next, hpc, if_pos hl]
    rw [hnext] at hq
    have hshow := hq hl c
    simp only [Function.update_self] at hshow
    exact hi.writing c st hpc (hshow hempty)
  · exact fun hg _ => (hi.next e hg).shows

/-- An unsubscribed channel shows none in every quiet state of a run exactly when no
status write of the run finds its channel unsubscribed since the check. -/
theorem unsubscribed_shows_none_iff (sv : Fin AP_NCH → CStr × CStr × CStr) (l : List SubRaceStep) :
    (∀ k ≤ l.length, QuietShowsNone (before SubRace.next (SubRace.start sv) l k)) ↔
      ∀ k (hk : k < l.length), WriteStillSubscribed (before SubRace.next (SubRace.start sv) l k) l[k] := by
  have hrun := guarded_run_iff SubRace.next (P := StatusRace) (H := fun _ _ => True) (G := WriteStillSubscribed)
    (Q := fun s e => QuietShowsNone (s.next e)) (statusRace_start sv) (fun s e hi _ hg => hi.next e hg)
    (fun s e hi _ => quietShowsNone_next_iff hi e) (l := l) (fun _ _ => trivial)
  rw [← hrun, forall_before_iff]
  exact and_iff_right fun _ => (statusRace_start sv).shows

/-- An unsubscribe in between the check and the write of its channel's status: the
channel shows active from then on. -/
theorem unsubscribed_shows_active :
    (subRaceRun (fun _ => ([76], [68], [])) [.readDirty, .clearDirty, .snapshot, .check 0 true,
      .setWrite ⟨0, [], []⟩, .setFlag, .setGive, .write]).lock = none ∧
    ((subRaceRun (fun _ => ([76], [68], [])) [.readDirty, .clearDirty, .snapshot, .check 0 true,
      .setWrite ⟨0, [], []⟩, .setFlag, .setGive, .write]).ch 0).txChannel = [] ∧
    ((subRaceRun (fun _ => ([76], [68], [])) [.readDirty, .clearDirty, .snapshot, .check 0 true,
      .setWrite ⟨0, [], []⟩, .setFlag, .setGive, .write]).ch 0).status = .active := by
  decide

end Inferno
