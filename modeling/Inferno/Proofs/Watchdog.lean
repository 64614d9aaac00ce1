import Inferno.Lib.Trace
import Inferno.Spec.RxWatchdog

/-! What the receive watchdog sleeps through. A silence is diagnosed at the 1 s mark,
and again a second after every PHY reset; one healthy mark puts the watchdog to sleep
until a frame arrives or the link drops. -/

namespace Inferno

open Lib

/-- The watchdog, with the turns of the silence it is in. -/
structure RxRun where
  w : RxWatchdog
  silence : List RxSample

def RxRun.step (r : RxRun) (s : RxSample) : RxRun where
  w := (rxWatchdogTurn r.w s).1
  silence := if r.w.idle s then r.silence ++ [s] else []

def rxRunAt (frames reboots : ℕ) (l : List RxSample) (k : ℕ) : RxRun :=
  before RxRun.step ⟨rxWatchdogStart frames reboots, []⟩ l k

/-- The turn a diagnosis is made on, the `i`-th of a silence. -/
def mark (i : ℕ) : ℕ := 3 + 32 * i

/-- Where the watchdog stands in a silence `S`: awake it counts from the last PHY reset
and has seen no healthy mark; asleep it counts on from a healthy one. -/
inductive Watching (S : List RxSample) (w : RxWatchdog) : Prop where
  | gone (h : w.rebooted = true)
  | awake (hr : w.rebooted = false) (hq : w.quiet = false) (hms : w.idleMs = 250 * (S.length % 32))
      (hm : ∀ i s, S[mark i]? = some s → s.healthy = false)
  | asleep (hr : w.rebooted = false) (hq : w.quiet = true) (i : ℕ) (hi : mark i < S.length)
      (hms : w.idleMs = 250 * (S.length - 32 * i)) (hm : (S[mark i]?).any RxSample.healthy = true)

def acts : Option RxAction → Bool
  | some .reboot => true
  | some .restart => true
  | some .phyReset => true
  | _ => false

theorem turn_idle {w : RxWatchdog} {s : RxSample} (hr : w.rebooted = false) (hi : w.idle s = true) :
    rxWatchdogTurn w s = rxEscalate (rxDiagnose { w with idleMs := w.idleMs + 250 } s) s := by
  rw [rxWatchdogTurn, if_neg (by simp [hr]), if_neg (by simp [hi])]

theorem turn_asleep {w : RxWatchdog} {s : RxSample} (hr : w.rebooted = false) (hi : w.idle s = true)
    (hq : w.quiet = true) {m : ℕ} (hm : 4 ≤ m) (hms : w.idleMs = 250 * m) :
    (rxWatchdogTurn w s).1.rebooted = false ∧ (rxWatchdogTurn w s).1.quiet = true ∧
      (rxWatchdogTurn w s).1.idleMs = 250 * (m + 1) ∧ acts (rxWatchdogTurn w s).2 = false := by
  rw [turn_idle hr hi, rxDiagnose, if_neg (by simp only; omega)]
  simp only [rxEscalate, hq, Bool.true_and]
  split_ifs with h1 h2 h3 h4 h5
  · exact ⟨hr, rfl, by simp only; omega, rfl⟩
  · exact ⟨hr, rfl, by simp only; omega, rfl⟩
  · simp only [decide_eq_true_eq] at h1
    omega
  · simp only [decide_eq_true_eq] at h1
    omega
  · simp only [decide_eq_true_eq] at h1
    omega
  · exact ⟨hr, rfl, by simp only; omega, rfl⟩

/-- The first second, and every second after a PHY reset, ends in a diagnosis. -/
theorem turn_mark {w : RxWatchdog} {s : RxSample} (hr : w.rebooted = false) (hi : w.idle s = true)
    (hms : w.idleMs = 750) :
    (rxWatchdogTurn w s).1.rebooted = false ∧ (rxWatchdogTurn w s).1.quiet = s.healthy ∧
      (rxWatchdogTurn w s).1.idleMs = 1000 ∧ acts (rxWatchdogTurn w s).2 = false := by
  rw [turn_idle hr hi, rxDiagnose, if_pos (by simp only; omega)]
  simp only [rxEscalate, hms, Nat.reduceAdd, Nat.reduceLT, gt_iff_lt, decide_false, Bool.and_false, Bool.false_eq_true,
    if_false, true_or, if_true]
  exact ⟨hr, trivial, trivial, rfl⟩

/-- Awake, any other turn goes up the escalation: the FIFO hang is looked for at 3 s,
4 s restart the EMAC, and 8 s reset the PHY and start over. -/
theorem turn_awake {w : RxWatchdog} {s : RxSample} (hr : w.rebooted = false) (hi : w.idle s = true)
    (hq : w.quiet = false) {m : ℕ} (hlt : m < 32) (hm : m ≠ 3) (hms : w.idleMs = 250 * m) :
    ((rxWatchdogTurn w s).1.rebooted = true ∧ m = 11 ∧ (rxWatchdogTurn w s).2 = some .reboot) ∨
      ((rxWatchdogTurn w s).1.rebooted = false ∧ (rxWatchdogTurn w s).1.quiet = false ∧
        (rxWatchdogTurn w s).1.idleMs = 250 * ((m + 1) % 32) ∧
        (acts (rxWatchdogTurn w s).2 = true ↔ m = 15 ∨ m = 31)) := by
  rw [turn_idle hr hi, rxDiagnose, if_neg (by simp only; omega)]
  simp only [rxEscalate, hq, Bool.false_and, Bool.false_eq_true, if_false]
  split_ifs with h2 h3 h4 h5
  · right
    refine ⟨hr, rfl, by simp only; omega, ?_⟩
    simp only [acts, Bool.false_eq_true, false_iff]
    omega
  · left
    exact ⟨rfl, by omega, rfl⟩
  · right
    refine ⟨hr, rfl, by simp only; omega, ?_⟩
    simp only [acts, true_iff]
    omega
  · right
    refine ⟨hr, rfl, by simp only; omega, ?_⟩
    simp only [acts, true_iff]
    omega
  · right
    refine ⟨hr, rfl, by simp only; omega, ?_⟩
    simp only [acts, Bool.false_eq_true, false_iff]
    omega

theorem turn_gone {w : RxWatchdog} (hr : w.rebooted = true) (s : RxSample) : rxWatchdogTurn w s = (w, none) := by
  rw [rxWatchdogTurn, if_pos hr]

theorem turn_heard {w : RxWatchdog} {s : RxSample} (hr : w.rebooted = false) (hi : w.idle s = false) :
    rxWatchdogTurn w s = ({ w with last := s.frames, idleMs := 0, quiet := false }, none) := by
  rw [rxWatchdogTurn, if_neg (by simp [hr]), if_pos (by simp [hi])]

theorem getElem?_concat {S : List RxSample} {s t : RxSample} {k : ℕ} (h : (S ++ [s])[k]? = some t) :
    S[k]? = some t ∨ k = S.length ∧ t = s := by
  rcases Nat.lt_or_ge k S.length with hk | hk
  · rw [List.getElem?_append_left hk] at h
    exact Or.inl h
  · rw [List.getElem?_append_right hk, List.getElem?_singleton] at h
    split_ifs at h with h0
    exact Or.inr ⟨by omega, (Option.some.inj h).symm⟩

theorem watching_nil {w : RxWatchdog} (hr : w.rebooted = false) (hq : w.quiet = false) (hms : w.idleMs = 0) :
    Watching [] w :=
  .awake hr hq (by simp [hms]) fun i s h => absurd h (by simp)

theorem watching_step {r : RxRun} (h : Watching r.silence r.w) (s : RxSample) :
    Watching (r.step s).silence (r.step s).w := by
  simp only [RxRun.step]
  rcases hi : r.w.idle s with _ | _
  · -- the silence ends
    simp only [Bool.false_eq_true, if_false]
    cases h with
    | gone hr =>
      rw [turn_gone hr]
      exact .gone hr
    | awake hr => exact turn_heard hr hi ▸ watching_nil hr rfl rfl
    | asleep hr => exact turn_heard hr hi ▸ watching_nil hr rfl rfl
  · simp only [if_true]
    have hlen : (r.silence ++ [s]).length = r.silence.length + 1 := by simp
    cases h with
    | gone hr =>
      rw [turn_gone hr]
      exact .gone hr
    | awake hr hq hms hm =>
      have hold : ∀ i t, (r.silence ++ [s])[mark i]? = some t → mark i ≠ r.silence.length → t.healthy = false := by
        intro i t ht hne
        rcases getElem?_concat ht with ht | ⟨hk, -⟩
        · exact hm i t ht
        · exact absurd hk hne
      by_cases h3 : r.silence.length % 32 = 3
      · obtain ⟨hr', hq', hms', -⟩ := turn_mark (s := s) hr hi (by omega)
        rcases hs : s.healthy with _ | _
        · refine .awake hr' (hq'.trans hs) (by rw [hms', hlen]; omega) fun i t ht => ?_
          rcases getElem?_concat ht with ht | ⟨-, rfl⟩
          · exact hm i t ht
          · exact hs
        · have hmark : mark (r.silence.length / 32) = r.silence.length := by
            simp only [mark]
            omega
          refine .asleep hr' (hq'.trans hs) (r.silence.length / 32) (by rw [hmark, hlen]; omega)
            (by rw [hms', hlen]; omega) ?_
          rw [hmark, List.getElem?_append_right le_rfl, Nat.sub_self, List.getElem?_cons_zero]
          exact hs
      · have hne : ∀ i, mark i ≠ r.silence.length := by
          intro i
          simp only [mark]
          omega
        rcases turn_awake (s := s) hr hi hq (Nat.mod_lt _ (by decide)) h3 hms with ⟨hr', -, -⟩ | ⟨hr', hq', hms', -⟩
        · exact .gone hr'
        · refine .awake hr' hq' ?_ fun i t ht => hold i t ht (hne i)
          rw [hms', hlen]
          omega
    | asleep hr hq i hlt hms hm =>
      have hi4 : 4 + 32 * i ≤ r.silence.length := by
        simp only [mark] at hlt
        omega
      obtain ⟨hr', hq', hms', -⟩ := turn_asleep (s := s) hr hi hq (m := r.silence.length - 32 * i) (by omega) hms
      refine .asleep hr' hq' i (by omega) (by rw [hms', hlen]; omega) ?_
      rwa [List.getElem?_append_left hlt]

theorem watching_run (frames reboots : ℕ) (l : List RxSample) {k : ℕ} (hk : k ≤ l.length) :
    Watching (rxRunAt frames reboots l k).silence (rxRunAt frames reboots l k).w :=
  guarded_run RxRun.step (P := fun _ r => Watching r.silence r.w) (G := fun _ _ _ => True)
    (watching_nil rfl rfl rfl) (fun _ _ s h _ => watching_step h s) (fun _ _ => trivial) hk

/-- The receive path is at fault in a turn: its DMA out of the waiting state, frames
being dropped, or the FIFO hung. -/
def RxSample.faulty (s : RxSample) : Bool := s.dmaState != 3 || s.missed != 0 || s.overflow != 0 || s.fifoHang

/-- Thirty-two turns from `r` on, 8 s, without a frame while the link is up, each with
the receive path at fault. -/
structure FaultWindow (r : RxRun) (ws : List RxSample) : Prop where
  length : ws.length = 32
  idle : ∀ j (hj : j < ws.length), (before RxRun.step r ws j).w.idle ws[j] = true
  faulty : ∀ s ∈ ws, s.faulty = true

def ActsIn (r : RxRun) (ws : List RxSample) : Prop :=
  ∃ j, ∃ hj : j < ws.length, acts (rxWatchdogTurn (before RxRun.step r ws j).w ws[j]).2 = true

/-- No mark of the silence so far, nor the one due in the window's first second, is healthy. -/
def NoHealthyMark (r : RxRun) (ws : List RxSample) : Prop :=
  ∀ i, 32 * i ≤ r.silence.length → ((r.silence ++ ws)[mark i]?).any RxSample.healthy = false

theorem FaultWindow.silence {r : RxRun} {ws : List RxSample} (h : FaultWindow r ws) {j : ℕ} (hj : j ≤ ws.length) :
    (before RxRun.step r ws j).silence = r.silence ++ ws.take j := by
  induction j with
  | zero => simp
  | succ j ih =>
    rw [before_succ RxRun.step r ws hj, RxRun.step, h.idle j hj]
    simp only [if_true]
    rw [ih (by omega), List.append_assoc, ← List.take_concat_get' ws j hj]

theorem FaultWindow.silence_length {r : RxRun} {ws : List RxSample} (h : FaultWindow r ws) {j : ℕ} (hj : j ≤ ws.length) :
    (before RxRun.step r ws j).silence.length = r.silence.length + j := by
  rw [h.silence hj, List.length_append, List.length_take, min_eq_left hj]

theorem FaultWindow.watching {r : RxRun} {ws : List RxSample} (hr : Watching r.silence r.w) {j : ℕ}
    (hj : j ≤ ws.length) : Watching (before RxRun.step r ws j).silence (before RxRun.step r ws j).w :=
  guarded_run RxRun.step (P := fun _ r => Watching r.silence r.w) (G := fun _ _ _ => True) hr
    (fun _ _ s h _ => watching_step h s) (fun _ _ => trivial) hj

/-- A mark of the silence up to turn `j` of the window is one of the whole window. -/
theorem mark_of_take {S ws : List RxSample} {j k : ℕ} (hk : k < (S ++ ws.take j).length) :
    (S ++ ws.take j)[k]? = (S ++ ws)[k]? := by
  rcases Nat.lt_or_ge k S.length with h | h
  · rw [List.getElem?_append_left h, List.getElem?_append_left h]
  · rw [List.getElem?_append_right h, List.getElem?_append_right h, List.getElem?_take_of_lt]
    simp only [List.length_append, List.length_take] at hk
    omega

theorem turn_rebooted {w : RxWatchdog} {s : RxSample} (hr : w.rebooted = false)
    (h : (rxWatchdogTurn w s).1.rebooted = true) : acts (rxWatchdogTurn w s).2 = true := by
  rcases hi : w.idle s with _ | _
  · rw [turn_heard hr hi, hr] at h
    exact absurd h (by simp)
  · have hd : (rxDiagnose { w with idleMs := w.idleMs + 250 } s).rebooted = false := by
      rw [rxDiagnose]
      split_ifs <;> exact hr
    rw [turn_idle hr hi] at h ⊢
    generalize rxDiagnose { w with idleMs := w.idleMs + 250 } s = w' at hd h ⊢
    rw [rxEscalate] at h ⊢
    split_ifs at h ⊢
    · rw [hd] at h
      exact absurd h (by simp)
    · rw [hd] at h
      exact absurd h (by simp)
    · rfl
    · rfl
    · rfl
    · rw [hd] at h
      exact absurd h (by simp)

theorem not_rebooted {r : RxRun} {ws : List RxSample} (hr : r.w.rebooted = false) (hno : ¬ ActsIn r ws) {j : ℕ}
    (hj : j ≤ ws.length) : (before RxRun.step r ws j).w.rebooted = false := by
  induction j with
  | zero => rwa [before_zero]
  | succ j ih =>
    have ih := ih (by omega)
    rw [before_succ RxRun.step r ws hj]
    by_contra hne
    exact hno ⟨j, hj, turn_rebooted ih (by simpa [RxRun.step] using hne)⟩

/-- Awake through the window, the watchdog comes to a restart or to a PHY reset. -/
theorem actsIn_of_noHealthyMark {r : RxRun} {ws : List RxSample} (hw : Watching r.silence r.w)
    (hr : r.w.rebooted = false) (h : FaultWindow r ws) (hm : NoHealthyMark r ws) : ActsIn r ws := by
  by_contra hno
  set p := r.silence.length with hp
  -- the turn the next restart or reset is due on
  obtain ⟨j, hj, hdue⟩ : ∃ j < 32, (p + j) % 32 = 15 ∧ j ≤ 15 ∨ (p + j) % 32 = 31 ∧ 16 ≤ p % 32 := by
    rcases Nat.lt_or_ge (p % 32) 16 with hlt | hge
    · exact ⟨15 - p % 32, by omega, by omega⟩
    · exact ⟨31 - p % 32, by omega, by omega⟩
  have hlen := h.length
  have hjw : j < ws.length := by omega
  have hsil := h.silence hjw.le
  have hsl := h.silence_length hjw.le
  have hidle := h.idle j hjw
  cases FaultWindow.watching hw hjw.le with
  | gone hg =>
    rw [not_rebooted hr hno hjw.le] at hg
    exact absurd hg (by simp)
  | awake hr' hq hms hmarks =>
    rw [hsl] at hms
    rcases turn_awake (s := ws[j]) hr' hidle hq (Nat.mod_lt _ (by decide)) (by omega) hms with
      ⟨-, h11, -⟩ | ⟨-, -, -, hact⟩
    · omega
    · exact hno ⟨j, hjw, hact.mpr (by omega)⟩
  | asleep hr' hq i hi hms hmark =>
    rw [hsl, mark] at hi
    have := hm i (by omega)
    rw [hsil, mark_of_take (by rw [← hsil, hsl]; exact hi), this] at hmark
    exact absurd hmark (by simp)

/-- With a healthy mark behind or just ahead of it, no turn of the window acts, and none
reboots. -/
theorem FaultWindow.turn_harmless {r : RxRun} {ws : List RxSample} (h : FaultWindow r ws)
    (hw : Watching r.silence r.w) {i : ℕ} (hi : 32 * i ≤ r.silence.length)
    (hm : ((r.silence ++ ws)[mark i]?).any RxSample.healthy = true) {j : ℕ} (hj : j < ws.length)
    (hr : (before RxRun.step r ws j).w.rebooted = false) :
    acts (rxWatchdogTurn (before RxRun.step r ws j).w ws[j]).2 = false ∧
      (rxWatchdogTurn (before RxRun.step r ws j).w ws[j]).1.rebooted = false := by
  have hlen := h.length
  have hsil := h.silence hj.le
  have hsl := h.silence_length hj.le
  have hidle := h.idle j hj
  cases FaultWindow.watching hw hj.le with
  | gone hg =>
    rw [hr] at hg
    exact absurd hg (by simp)
  | awake _ hq hms hmarks =>
    -- the healthy mark is still to come, so the window has only begun
    have hnear : r.silence.length + j ≤ mark i := by
      by_contra hlt
      rw [not_le, ← hsl, hsil] at hlt
      obtain ⟨s, hs⟩ : ∃ s, (r.silence ++ ws.take j)[mark i]? = some s := ⟨_, List.getElem?_eq_getElem hlt⟩
      have hno := hmarks i s (hsil ▸ hs)
      rw [← mark_of_take hlt, hs] at hm
      exact absurd (hm.symm.trans hno) (by simp)
    rw [hsl] at hms
    simp only [mark] at hnear
    by_cases h3 : (r.silence.length + j) % 32 = 3
    · obtain ⟨hr3, -, -, hact⟩ := turn_mark (s := ws[j]) hr hidle (by omega)
      exact ⟨hact, hr3⟩
    · rcases turn_awake (s := ws[j]) hr hidle hq (Nat.mod_lt _ (by decide)) h3 hms with
        ⟨-, h11, -⟩ | ⟨hr3, -, -, hact⟩
      · omega
      · refine ⟨?_, hr3⟩
        rw [← Bool.not_eq_true, hact]
        omega
  | asleep _ hq i' hi' hms hmark =>
    rw [hsl] at hms
    simp only [mark, hsl] at hi'
    obtain ⟨hr3, -, -, hact⟩ := turn_asleep (s := ws[j]) hr hidle hq (m := r.silence.length + j - 32 * i')
      (by omega) hms
    exact ⟨hact, hr3⟩

theorem not_actsIn_of_healthy {r : RxRun} {ws : List RxSample} (hw : Watching r.silence r.w)
    (hr : r.w.rebooted = false) (h : FaultWindow r ws) {i : ℕ} (hi : 32 * i ≤ r.silence.length)
    (hm : ((r.silence ++ ws)[mark i]?).any RxSample.healthy = true) : ¬ ActsIn r ws := by
  have hthere : ∀ j, j ≤ ws.length → (before RxRun.step r ws j).w.rebooted = false := by
    intro j
    induction j with
    | zero => exact fun _ => by rwa [before_zero]
    | succ j ih =>
      intro hj
      rw [before_succ RxRun.step r ws hj]
      exact (h.turn_harmless hw hi hm hj (ih (by omega))).2
  rintro ⟨j, hj, hact⟩
  rw [(h.turn_harmless hw hi hm hj (hthere j hj.le)).1] at hact
  exact absurd hact (by simp)

/-- From every state the watchdog reaches before it reboots: in a window of 8 s of a
fault it restarts the EMAC, resets the PHY or reboots just when no mark of the silence
was healthy. -/
theorem watchdog_acts_iff (frames reboots : ℕ) (l : List RxSample) {k : ℕ} (hk : k ≤ l.length)
    (hr : (rxRunAt frames reboots l k).w.rebooted = false) {ws : List RxSample}
    (h : FaultWindow (rxRunAt frames reboots l k) ws) :
    ActsIn (rxRunAt frames reboots l k) ws ↔ NoHealthyMark (rxRunAt frames reboots l k) ws := by
  have hw := watching_run frames reboots l hk
  constructor
  · intro hact i hi
    by_contra hm
    exact not_actsIn_of_healthy hw hr h hi (by simpa using hm) hact
  · exact actsIn_of_noHealthyMark hw hr h

def still (dmaState : ℕ) : RxSample := ⟨0, true, dmaState, 0, 0, 0, 0⟩

instance (r : RxRun) (ws : List RxSample) : Decidable (ActsIn r ws) :=
  inferInstanceAs (Decidable (∃ j, ∃ _ : j < ws.length, _))

/-- A suspended DMA from the first turn on is restarted. -/
theorem watchdog_acts_iff_suspended : ActsIn (rxRunAt 0 0 [] 0) (List.replicate 32 (still 4)) := by
  refine (watchdog_acts_iff 0 0 [] le_rfl rfl ⟨rfl, ?_, ?_⟩).mpr ?_
  · decide +kernel
  · decide
  · intro i hi
    have h0 : 32 * i ≤ 0 := hi
    obtain rfl : i = 0 := by omega
    decide +kernel

/-- The DMA waits for the first second and is suspended from then on: for the next 8 s
nothing is done, though not one frame arrives. -/
theorem late_fault_slept_through :
    FaultWindow (rxRunAt 0 0 (List.replicate 4 (still 3)) 4) (List.replicate 32 (still 4)) ∧
      ¬ ActsIn (rxRunAt 0 0 (List.replicate 4 (still 3)) 4) (List.replicate 32 (still 4)) := by
  refine ⟨⟨rfl, ?_, ?_⟩, ?_⟩
  · decide +kernel
  · decide
  · decide +kernel

end Inferno
