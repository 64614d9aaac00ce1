import Inferno.Sanity.JitterIsr
import Inferno.Proofs.UpdateLoop

/-! What a failed update leaves of the output. The handler mutes when it starts and
unmutes when it gives up, whatever it found, so a request that fails after the start
restores the output exactly if it was not muted. -/

namespace Inferno

variable (env : WebEnv)

/-- The gain in force is the one `gain_apply` makes of the set gain and mute. -/
def GainApplied (level : ℤ → ℕ) (jb : JitterBuf) : Prop :=
  (gainApply level jb.gainDb jb).gainDb = jb.gainDb ∧ (gainApply level jb.gainDb jb).gainQ16 = jb.gainQ16

/-- Nothing but mute, the set gain and the gain in force matters to it. -/
theorem GainApplied.of_same {level : ℤ → ℕ} {jb jb' : JitterBuf} (h : GainApplied level jb) (hm : jb'.mute = jb.mute)
    (hd : jb'.gainDb = jb.gainDb) (hq : jb'.gainQ16 = jb.gainQ16) : GainApplied level jb' := by
  unfold GainApplied gainApply at h ⊢
  rw [hm, hd, hq]
  exact h

/-- `gain_apply` clamps what it is given, and a clamped gain stays as it is. -/
theorem gainApply_gainApply (level : ℤ → ℕ) (db : ℤ) (on : Bool) (jb : JitterBuf) :
    gainApply level (gainApply level db jb).gainDb { gainApply level db jb with mute := on } =
      gainApply level db { jb with mute := on } := by
  unfold gainApply
  simp only
  split_ifs <;> rfl

theorem gainApplied_gainApply (level : ℤ → ℕ) (db : ℤ) (jb : JitterBuf) :
    GainApplied level (gainApply level db jb) := by
  have h := gainApply_gainApply level db jb.mute jb
  exact ⟨congrArg JitterBuf.gainDb h, congrArg JitterBuf.gainQ16 h⟩

theorem gainApplied_jbSetMute (level : ℤ → ℕ) (on : Bool) (jb : JitterBuf) :
    GainApplied level (jbSetMute level on jb) :=
  gainApplied_gainApply level jb.gainDb _

theorem gainApplied_jbSetGainDb (level : ℤ → ℕ) (db : ℤ) (jb : JitterBuf) :
    GainApplied level (jbSetGainDb level db jb) :=
  (gainApplied_gainApply level db jb).of_same rfl rfl rfl

theorem gainApplied_jbInit (level : ℤ → ℕ) (jb : JitterBuf) : GainApplied level (jbInit level jb) :=
  (gainApplied_gainApply level (jb.nvsGainDb.getD 0) jb).of_same rfl rfl rfl

theorem jbSetMute_jbSetMute (level : ℤ → ℕ) (on was : Bool) (jb : JitterBuf) :
    jbSetMute level on (jbSetMute level was jb) = jbSetMute level on jb :=
  gainApply_gainApply level jb.gainDb on { jb with mute := was }

/-- Unmuting is heard by no one exactly if nothing was muted. -/
theorem jbSetMute_false_same {level : ℤ → ℕ} {jb : JitterBuf} :
    ((jbSetMute level false jb).mute = jb.mute ∧ (jbSetMute level false jb).gainDb = jb.gainDb ∧
      (jbSetMute level false jb).gainQ16 = jb.gainQ16) ↔ jb.mute = false ∧ GainApplied level jb := by
  constructor
  · rintro ⟨hm, hd, hq⟩
    have hmute : jb.mute = false := hm.symm
    have hjb : { jb with mute := false } = jb := by rw [← hmute]
    rw [jbSetMute, hjb] at hd hq
    exact ⟨hmute, hd, hq⟩
  · rintro ⟨hmute, hd, hq⟩
    have hjb : { jb with mute := false } = jb := by rw [← hmute]
    rw [jbSetMute, hjb]
    exact ⟨rfl, hd, hq⟩

/-- The board from its start: volume requests, gain commands, the audio path, uploads
and the request to go back. -/
inductive BoardRun : Web → Prop where
  | boot (w : Web) : BoardRun { w with jb := jbInit env.level { w.jb with mute := false }, updating := false, upload := none }
  | volume {w} (h : BoardRun w) (db : Option ℤ) (mute : Option Bool) : BoardRun (volumePost env db mute w)
  | gain {w} (h : BoardRun w) (db : ℤ) : BoardRun { w with jb := jbSetGainDb env.level db w.jb }
  | audio {w} (h : BoardRun w) (jb : JitterBuf) (hm : jb.mute = w.jb.mute) (hd : jb.gainDb = w.jb.gainDb)
      (hq : jb.gainQ16 = w.jb.gainQ16) : BoardRun { w with jb := jb }
  | post {w} (h : BoardRun w) (q : PostEnv) (total : ℕ) : BoardRun (updateBegin env q total w).1
  | update {w} (h : BoardRun w) (e : UpdateStep) : BoardRun (updateStep env w e)
  | previous {w} (h : BoardRun w) (hasPart described : Bool) (valid : List UInt8 → Bool) :
      BoardRun (previousPost env hasPart described valid w).1

def Starts (q : PostEnv) (total : ℕ) (w : Web) : Prop :=
  w.updating = false ∧ (∃ size, q.part = some size ∧ 4096 + FW_TRAILER ≤ total ∧ total - FW_TRAILER ≤ size) ∧
    q.memory = true

/-- A call of `update_post` that ends in a refusal or a failure, from the state it
finds to the state it leaves. -/
inductive FailedPost (q : PostEnv) (total : ℕ) (w : Web) : Web → Prop where
  | refused {e} (h : (updateBegin env q total w).2 = some e) : FailedPost q total w (updateBegin env q total w).1
  | failed {es : List UpdateStep} {u : Upload} (hb : (updateBegin env q total w).2 = none)
      (hu : (es.foldl (updateStep env) (updateBegin env q total w).1).upload = some (u, .answer)) (he : u.err ≠ none) :
      FailedPost q total w (updateStep env (es.foldl (updateStep env) (updateBegin env q total w).1) .answer)

/-- Mute, gain and the update flag are the same before and after. -/
def SameOutput (w w' : Web) : Prop :=
  w'.jb.mute = w.jb.mute ∧ w'.jb.gainDb = w.jb.gainDb ∧ w'.jb.gainQ16 = w.jb.gainQ16 ∧ w'.updating = w.updating

theorem updateBegin_of_starts {q : PostEnv} {total : ℕ} {w : Web} (h : Starts q total w) :
    updateBegin env q total w =
      ({ w with
        updating := true
        jb := jbSetMute env.level true w.jb
        upload := some (Upload.start total q.head q.trailer q.beginOk, .receiving) }, none) := by
  obtain ⟨hu, ⟨size, hp, hmin, hmax⟩, hm⟩ := h
  have hsize : ¬(total < 4096 + FW_TRAILER ∨ total - FW_TRAILER > size) := by omega
  simp only [updateBegin, hu, hp, hm, if_neg hsize, Bool.false_eq_true, if_false, Bool.true_eq_false]

theorem updateBegin_of_not_starts {q : PostEnv} {total : ℕ} {w : Web} (h : ¬Starts q total w) :
    (updateBegin env q total w).1 = w ∧ (updateBegin env q total w).2 ≠ none := by
  cases hu : w.updating with
  | true => simp [updateBegin, hu]
  | false =>
    cases hp : q.part with
    | none => simp [updateBegin, hu, hp]
    | some size =>
      by_cases hs : total < 4096 + FW_TRAILER ∨ total - FW_TRAILER > size
      · simp [updateBegin, hu, hp, if_pos hs]
      · have hm : q.memory = false := by
          by_contra hm
          exact h ⟨hu, ⟨size, hp, by omega, by omega⟩, Bool.eq_true_of_not_eq_false hm⟩
        simp [updateBegin, hu, hp, if_neg hs, hm]

theorem updateStep_output (w : Web) (e : UpdateStep) :
    ((updateStep env w e).jb = w.jb ∧ (updateStep env w e).updating = w.updating) ∨
      ((updateStep env w e).jb = jbSetMute env.level false w.jb ∧ (updateStep env w e).upload = none) := by
  cases hw : w.upload with
  | none => exact Or.inl (by simp only [updateStep, hw, and_self])
  | some x =>
    obtain ⟨u, ph⟩ := x
    cases ph <;> cases e
    case answer.answer =>
      simp only [updateStep, hw]
      split_ifs
      · exact Or.inr ⟨rfl, rfl⟩
      · exact Or.inl ⟨rfl, rfl⟩
    case receiving.recv r ok behind =>
      refine Or.inl ?_
      simp only [updateStep, hw, flashed, Web.setSpare]
      split_ifs <;> exact ⟨rfl, rfl⟩
    case receiving.verify =>
      refine Or.inl ?_
      simp only [updateStep, hw]
      split_ifs <;> exact ⟨rfl, rfl⟩
    case wipe.wipe ok =>
      refine Or.inl ?_
      simp only [updateStep, hw, wiped, Web.setSpare]
      split_ifs <;> exact ⟨rfl, rfl⟩
    all_goals exact Or.inl (by simp only [updateStep, hw, and_self])

theorem foldl_updateStep_idle (es : List UpdateStep) {w : Web} (h : w.upload = none) :
    es.foldl (updateStep env) w = w := by
  induction es with
  | nil => rfl
  | cons e es ih =>
    have hstep : updateStep env w e = w := by simp only [updateStep, h]
    rw [List.foldl_cons, hstep, ih]

/-- As long as an update is under way, output and flag are as its start left them. -/
theorem foldl_updateStep_output (es : List UpdateStep) (w : Web)
    (h : (es.foldl (updateStep env) w).upload ≠ none) :
    (es.foldl (updateStep env) w).jb = w.jb ∧ (es.foldl (updateStep env) w).updating = w.updating := by
  induction es generalizing w with
  | nil => exact ⟨rfl, rfl⟩
  | cons e es ih =>
    rw [List.foldl_cons] at h ⊢
    rcases updateStep_output env w e with ⟨hj, hu⟩ | ⟨-, hover⟩
    · obtain ⟨hj', hu'⟩ := ih _ h
      exact ⟨hj'.trans hj, hu'.trans hu⟩
    · rw [foldl_updateStep_idle env es hover] at h
      exact absurd hover h

/-- What a failed call leaves: nothing changed by a refusal, and otherwise the fixed
unmuted state. -/
theorem FailedPost.leaves {q : PostEnv} {total : ℕ} {w w' : Web} (h : FailedPost env q total w w') :
    (¬Starts q total w ∧ w' = w) ∨
      (Starts q total w ∧ w'.jb = jbSetMute env.level false w.jb ∧ w'.updating = false) := by
  by_cases hs : Starts q total w
  · refine Or.inr ⟨hs, ?_⟩
    have hbegin := updateBegin_of_starts env hs
    cases h with
    | refused hb =>
      rw [hbegin] at hb
      cases hb
    | @failed es u hb hu he =>
      obtain ⟨hj, -⟩ := foldl_updateStep_output env es _ (by rw [hu]; exact Option.some_ne_none _)
      have hleft : updateStep env (es.foldl (updateStep env) (updateBegin env q total w).1) .answer =
          { es.foldl (updateStep env) (updateBegin env q total w).1 with
            jb := jbSetMute env.level false (es.foldl (updateStep env) (updateBegin env q total w).1).jb
            updating := false
            upload := none } := by simp only [updateStep, hu, if_pos he]
      rw [hleft]
      refine ⟨?_, rfl⟩
      show jbSetMute env.level false (es.foldl (updateStep env) (updateBegin env q total w).1).jb = _
      rw [hj, hbegin]
      exact jbSetMute_jbSetMute env.level false true w.jb
  · obtain ⟨hsame, herr⟩ := updateBegin_of_not_starts env hs
    refine Or.inl ⟨hs, ?_⟩
    cases h with
    | refused hb => exact hsame
    | failed hb hu he => exact absurd hb herr

theorem BoardRun.gainApplied {w : Web} (h : BoardRun env w) : GainApplied env.level w.jb := by
  induction h with
  | boot w => exact gainApplied_jbInit env.level _
  | @volume w _ db mute ih =>
    cases mute with
    | some on => exact gainApplied_jbSetMute env.level on _
    | none =>
      cases db with
      | some v => exact gainApplied_jbSetGainDb env.level v w.jb
      | none => exact ih
  | @gain w _ db => exact gainApplied_jbSetGainDb env.level db w.jb
  | @audio w _ jb hm hd hq ih => exact ih.of_same hm hd hq
  | @post w _ q total ih =>
    by_cases hs : Starts q total w
    · rw [updateBegin_of_starts env hs]
      exact gainApplied_jbSetMute env.level true w.jb
    · rw [(updateBegin_of_not_starts env hs).1]
      exact ih
  | @update w _ e ih =>
    rcases updateStep_output env w e with ⟨hj, -⟩ | ⟨hj, -⟩
    · rw [hj]
      exact ih
    · rw [hj]
      exact gainApplied_jbSetMute env.level false w.jb
  | @previous w _ hasPart described valid ih =>
    unfold previousPost
    split_ifs <;> first | exact ih | exact gainApplied_jbSetMute env.level true w.jb

/-- A failed update leaves mute, gain and the update flag as it found them exactly if it
was refused before its start, or the output was not muted and its gain the applied one. -/
theorem failed_update_restores_iff {q : PostEnv} {total : ℕ} {w w' : Web} (h : FailedPost env q total w w') :
    SameOutput w w' ↔ (Starts q total w → w.jb.mute = false ∧ GainApplied env.level w.jb) := by
  rcases h.leaves with ⟨hs, rfl⟩ | ⟨hs, hj, hu⟩
  · exact ⟨fun _ hst => absurd hst hs, fun _ => ⟨rfl, rfl, rfl, rfl⟩⟩
  · rw [SameOutput, hj, hu, hs.1]
    constructor
    · rintro ⟨hm, hd, hq, -⟩ _
      exact jbSetMute_false_same.mp ⟨hm, hd, hq⟩
    · intro hc
      obtain ⟨hm, hd, hq⟩ := jbSetMute_false_same.mpr (hc hs)
      exact ⟨hm, hd, hq, rfl⟩

/-- The steps after the loop, on a flash that takes every call. -/
def verdictSteps : List UpdateStep := [.verify, .imageCheck true, .select true, .wipe true]

theorem verdictSteps_of_err {w : Web} {u : Upload} (hw : w.upload = some (u, .receiving)) (he : u.err ≠ none) :
    (verdictSteps.foldl (updateStep env) w).upload = some (u, .answer) := by
  have hr : u.receiving = false := by simp [Upload.receiving, he]
  have hsig : checkSignature env u = u := by rw [checkSignature, if_neg fun h => he h.1]
  have hend : otaEnd true u = u := by rw [otaEnd, if_neg fun h => he h.1]
  have hsel : selectBoot true u = u := by rw [selectBoot, if_neg fun h => he h.1]
  simp only [verdictSteps, List.foldl_cons, List.foldl_nil, updateStep, hw, hr, Bool.false_eq_true, if_false, hsig,
    hend, hsel, he, ne_eq, not_false_eq_true, and_self, if_true]

/-- Every update that starts can fail: the slot does not open, or the connection
breaks. -/
theorem exists_failedPost {q : PostEnv} {total : ℕ} {w : Web} (h : Starts q total w) :
    ∃ w', FailedPost env q total w w' := by
  have hbegin := updateBegin_of_starts env h
  have hnone : (updateBegin env q total w).2 = none := by rw [hbegin]
  have hup : (updateBegin env q total w).1.upload = some (Upload.start total q.head q.trailer q.beginOk, .receiving) := by
    rw [hbegin]
  cases hok : q.beginOk with
  | false =>
    rw [hok] at hup
    exact ⟨_, .failed hnone (verdictSteps_of_err env hup (Option.some_ne_none _)) (Option.some_ne_none _)⟩
  | true =>
    have hpos : 0 < total := by
      obtain ⟨-, ⟨size, -, hmin, -⟩, -⟩ := h
      exact lt_of_lt_of_le (by decide) hmin
    have hr : (Upload.start total q.head q.trailer true).receiving = true := by
      simp [Upload.receiving, Upload.start, hpos]
    have hrecv : (updateStep env (updateBegin env q total w).1 (.recv .fail true [])).upload =
        some (recvStep env .fail true (Upload.start total q.head q.trailer true), .receiving) := by
      simp only [updateStep, hup, hok, hr, if_true]
    have herr : (recvStep env .fail true (Upload.start total q.head q.trailer true)).err ≠ none := Option.some_ne_none _
    have hfold : ((UpdateStep.recv .fail true [] :: verdictSteps).foldl (updateStep env)
        (updateBegin env q total w).1).upload = some (_, .answer) := verdictSteps_of_err env hrecv herr
    exact ⟨_, .failed hnone hfold herr⟩

/-- A board just started, and then muted on its page. -/
def startedBoard : Web where
  jb := jbInit openEnv.level (contiguous 5 2).jb
  updating := false
  upload := none
  slots := fun _ => []
  running := false
  boot := false
  verified := []

def mutedBoard : Web := volumePost openEnv none (some true) startedBoard

/-- An upload of the least size to a board with a spare slot and memory. -/
def leastUpload : PostEnv := ⟨some 4096, true, fun _ => 0, fun _ => 0, true⟩

theorem starts_leastUpload {w : Web} (h : w.updating = false) : Starts leastUpload (4096 + FW_TRAILER) w :=
  ⟨h, ⟨4096, rfl, le_refl _, by decide⟩, rfl⟩

theorem failed_update_restores_iff_started :
    ∃ w', FailedPost openEnv leastUpload (4096 + FW_TRAILER) startedBoard w' ∧ SameOutput startedBoard w' := by
  obtain ⟨w', h⟩ := exists_failedPost openEnv (starts_leastUpload (w := startedBoard) rfl)
  exact ⟨w', h, (failed_update_restores_iff openEnv h).mpr fun _ => ⟨rfl, gainApplied_jbInit openEnv.level _⟩⟩

/-- Sound comes back from a board that was muted when the failing upload arrived. -/
theorem failed_update_unmutes :
    ∃ w', FailedPost openEnv leastUpload (4096 + FW_TRAILER) mutedBoard w' ∧ mutedBoard.jb.mute = true ∧
      w'.jb.mute = false ∧ ¬SameOutput mutedBoard w' := by
  obtain ⟨w', h⟩ := exists_failedPost openEnv (starts_leastUpload (w := mutedBoard) rfl)
  rcases h.leaves with ⟨hs, -⟩ | ⟨-, hj, -⟩
  · exact absurd (starts_leastUpload rfl) hs
  · have hm : w'.jb.mute = false := by rw [hj]; rfl
    refine ⟨w', h, rfl, hm, fun hsame => ?_⟩
    have hkept : w'.jb.mute = true := hsame.1
    rw [hm] at hkept
    cases hkept

end Inferno
