import Inferno.Lib.Trace
import Inferno.Sanity.JitterIsr
import Inferno.Proofs.UpdateLoop

/-! What `Go back` can boot. An image is written before it is verified and wiped only by
the request that refused it, so the spare slot is trustworthy as long as no reset, and
no failing erase, leaves a valid image there that was not accepted. -/

namespace Inferno

open Lib

variable (env : WebEnv) (valid : List UInt8 → Bool)

/-- The slot begins with an image that was accepted or flashed at the factory. -/
def Accepted (verified : List (List UInt8)) (slot : List UInt8) : Prop := ∃ b ∈ verified, b <+: slot

instance (verified : List (List UInt8)) (slot : List UInt8) : Decidable (Accepted verified slot) :=
  inferInstanceAs (Decidable (∃ b ∈ verified, b <+: slot))

def GoBackVerified (w : Web) : Prop :=
  ∀ hasPart described, (previousPost env hasPart described valid w).2 = none → Accepted w.verified w.spare

/-- A slot that the flash driver would boot was accepted. -/
def SlotVerified (w : Web) (slot : Bool) : Prop := valid (w.slots slot) = true → Accepted w.verified (w.slots slot)

instance (w : Web) (slot : Bool) : Decidable (SlotVerified valid w slot) :=
  inferInstanceAs (Decidable (_ → _))

def Web.refused (w : Web) : Bool :=
  match w.upload with
  | some (u, .wipe) => u.err.isSome
  | _ => false

/-- A reset during an update, or a failed erase after a refused one, finds no
unaccepted image in the spare slot. -/
def Survives (w : Web) : WebEvent → Prop
  | .reset _ => w.upload.isSome = true → SlotVerified valid w (!w.running)
  | .update (.wipe false) => w.refused = true → SlotVerified valid w (!w.running)
  | _ => True

instance (w : Web) (e : WebEvent) : Decidable (Survives valid w e) := by
  unfold Survives
  split <;> infer_instance

def StartsWithMagic : Prop := ∀ l, valid l = true → l.getD 0 0 = ESP_IMAGE_HEADER_MAGIC

/-- What is known of an update under way. -/
structure UploadInv (w : Web) (u : Upload) (ph : Phase) : Prop where
  busy : w.updating = true
  same : u.err = none → u.hashed = u.written
  flash : u.err = none → u.written <+: w.spare
  signed : u.err = none → ph ≠ .receiving → u.hashed ∈ w.verified
  answer : ph = .answer → SlotVerified valid w (!w.running)

structure WebInv (w : Web) : Prop where
  running : SlotVerified valid w w.running
  idle : w.upload = none → SlotVerified valid w (!w.running)
  upload : ∀ u ph, w.upload = some (u, ph) → UploadInv valid w u ph

theorem Accepted.mono {v v' : List (List UInt8)} {slot : List UInt8} (h : Accepted v slot)
    (hv : ∀ b ∈ v, b ∈ v') : Accepted v' slot := by
  obtain ⟨b, hb, hp⟩ := h
  exact ⟨b, hv b hb, hp⟩

theorem WebInv.go_back {w : Web} (h : WebInv valid w) : GoBackVerified env valid w := by
  intro hasPart described hsel
  unfold previousPost at hsel
  split_ifs at hsel with hu hp hv
  have hup : w.upload = none := by
    cases hw : w.upload with
    | none => rfl
    | some x => exact absurd (h.upload x.1 x.2 hw).busy hu
  exact h.idle hup (Bool.not_eq_false _ ▸ hv)

theorem spare_setSpare (w : Web) (l : List UInt8) : (w.setSpare l).spare = l := by
  simp [Web.spare, Web.setSpare]

theorem running_setSpare (w : Web) (l : List UInt8) : (w.setSpare l).slots w.running = w.slots w.running := by
  simp [Web.setSpare]

theorem checkHead_log (n : ℕ) (u : Upload) :
    (checkHead env n u).hashed = u.hashed ∧ (checkHead env n u).written = u.written := by
  unfold checkHead
  split_ifs <;> exact ⟨rfl, rfl⟩

/-- A round appends the same bytes to what is hashed and what is written, or fails. -/
theorem recvStep_log (r : Recv) (ok : Bool) (u : Upload) :
    ∃ x, (recvStep env r ok u).hashed = u.hashed ++ x ∧
      ((recvStep env r ok u).written = u.written ++ x ∨ (recvStep env r ok u).err ≠ none) := by
  have hstay : ∀ u' : Upload, u'.hashed = u.hashed → u'.written = u.written →
      ∃ x, u'.hashed = u.hashed ++ x ∧ (u'.written = u.written ++ x ∨ u'.err ≠ none) := fun u' h1 h2 =>
    ⟨[], by rw [h1, List.append_nil], Or.inl (by rw [h2, List.append_nil])⟩
  cases r with
  | timeout =>
    unfold recvStep
    split_ifs <;> exact hstay _ rfl rfl
  | fail => exact hstay _ rfl rfl
  | data bytes =>
    simp only [recvStep]
    split_ifs
    · exact hstay _ rfl rfl
    · exact hstay _ rfl rfl
    · cases ok with
      | true =>
        rw [takePiece_eq]
        exact ⟨_, (checkHead_log env _ _).1, Or.inl (checkHead_log env _ _).2⟩
      | false =>
        unfold takePiece
        by_cases hi : Upload.imgN { u with timeouts := 0 } (bytes.take (min 4096 (u.total - u.got))).length = 0
        · simp only [hi, ne_eq, not_true_eq_false, if_false, false_and]
          refine hstay _ ?_ ?_
          · rw [(checkHead_log env _ _).1]
            split_ifs <;> rfl
          · rw [(checkHead_log env _ _).2]
            split_ifs <;> rfl
        · simp only [hi, ne_eq, not_false_eq_true, if_true, and_self]
          refine ⟨(bytes.take (min 4096 (u.total - u.got))).take
            (Upload.imgN { u with timeouts := 0 } (bytes.take (min 4096 (u.total - u.got))).length), ?_, Or.inr ?_⟩
          · split_ifs <;> rfl
          · exact Option.some_ne_none _

theorem webInv_recv {w : Web} (h : WebInv valid w) {u : Upload} (hw : w.upload = some (u, .receiving))
    (hr : u.receiving = true) (r : Recv) (ok : Bool) (behind : List UInt8) :
    WebInv valid (updateStep env w (.recv r ok behind)) := by
  have hi := h.upload u .receiving hw
  have herr : u.err = none := by
    simp only [Upload.receiving, Bool.and_eq_true, Option.isNone_iff_eq_none] at hr
    exact hr.1
  obtain ⟨x, hh, hwr⟩ := recvStep_log env r ok u
  simp only [updateStep, hw, hr, if_true, flashed]
  set u' := recvStep env r ok u with hu'
  by_cases hsame : u'.hashed = u.hashed
  · rw [if_neg (not_not.mpr hsame)]
    have hx : x = [] := by
      rw [hh] at hsame
      simpa using hsame
    refine ⟨h.running, fun hn => absurd hn (by simp), fun v ph hv => ?_⟩
    simp only [Option.some.injEq, Prod.mk.injEq] at hv
    obtain ⟨rfl, rfl⟩ := hv
    have hwr' : u'.err = none → u'.written = u.written := fun he => by
      rcases hwr with hwr | hne
      · rw [hwr, hx, List.append_nil]
      · exact absurd he hne
    exact ⟨hi.busy, fun he => by rw [hsame, hwr' he, hi.same herr], fun he => by rw [hwr' he]; exact hi.flash herr,
      fun _ hp => absurd rfl hp, fun hp => absurd hp (by simp)⟩
  · rw [if_pos hsame]
    refine ⟨?_, fun hn => absurd hn (by simp), fun v ph hv => ?_⟩
    · show valid ((w.setSpare (u'.written ++ behind)).slots w.running) = true → _
      intro hval
      rw [running_setSpare] at hval
      show Accepted w.verified ((w.setSpare (u'.written ++ behind)).slots w.running)
      rw [running_setSpare]
      exact h.running hval
    · simp only [Option.some.injEq, Prod.mk.injEq] at hv
      obtain ⟨rfl, rfl⟩ := hv
      refine ⟨hi.busy, fun he => ?_, fun _ => ?_, fun _ hp => absurd rfl hp, fun hp => absurd hp (by simp)⟩
      · rcases hwr with hwr | hne
        · rw [hh, hwr, hi.same herr]
        · exact absurd he hne
      · show u'.written <+: (w.setSpare (u'.written ++ behind)).spare
        rw [spare_setSpare]
        exact List.prefix_append _ _

/-- A step that leaves slots and accepted images alone keeps the invariant, given what
it does to the upload. -/
theorem WebInv.of_upload {w w' : Web} (h : WebInv valid w) (hs : w'.slots = w.slots) (hr : w'.running = w.running)
    (hv : ∀ b ∈ w.verified, b ∈ w'.verified) (hidle : w'.upload = none → SlotVerified valid w' (!w'.running))
    (hup : ∀ u ph, w'.upload = some (u, ph) → UploadInv valid w' u ph) : WebInv valid w' where
  running hval := by
    rw [hs, hr] at hval ⊢
    exact (h.running hval).mono hv
  idle := hidle
  upload := hup

theorem SlotVerified.of_eq {w w' : Web} {slot slot' : Bool} (h : SlotVerified valid w slot)
    (hs : w'.slots slot' = w.slots slot) (hv : ∀ b ∈ w.verified, b ∈ w'.verified) :
    SlotVerified valid w' slot' := by
  intro hval
  rw [hs] at hval ⊢
  exact (h hval).mono hv

theorem webInv_verify {w : Web} (h : WebInv valid w) {u : Upload} (hw : w.upload = some (u, .receiving))
    (hr : u.receiving = false) : WebInv valid (updateStep env w .verify) := by
  have hi := h.upload u .receiving hw
  have hlog : (checkSignature env u).hashed = u.hashed ∧ (checkSignature env u).written = u.written ∧
      ((checkSignature env u).err = none → u.err = none) := by
    unfold checkSignature
    split_ifs <;> simp
  obtain ⟨h1, h2, h3⟩ := hlog
  simp only [updateStep, hw, hr, Bool.false_eq_true, if_false]
  have hgrow : ∀ b ∈ w.verified,
      b ∈ (if (checkSignature env u).err = none then w.verified ++ [u.hashed] else w.verified) := fun b hb => by
    split_ifs
    · exact List.mem_append_left _ hb
    · exact hb
  refine h.of_upload valid rfl rfl hgrow (fun hn => absurd hn (by simp)) fun v ph hv => ?_
  simp only [Option.some.injEq, Prod.mk.injEq] at hv
  obtain ⟨rfl, rfl⟩ := hv
  refine ⟨hi.busy, fun he => ?_, fun he => ?_, fun he _ => ?_, fun hp => absurd hp (by simp)⟩
  · rw [h1, h2]
    exact hi.same (h3 he)
  · rw [h2]
    exact hi.flash (h3 he)
  · rw [if_pos he, h1]
    exact List.mem_append_right _ (List.mem_singleton_self _)

theorem webInv_check {w : Web} (h : WebInv valid w) {u u' : Upload} {ph ph' : Phase} (boot : Bool)
    (hw : w.upload = some (u, ph)) (hp : ph ≠ .receiving) (hp' : ph' ≠ .answer)
    (hlog : u'.hashed = u.hashed ∧ u'.written = u.written ∧ (u'.err = none → u.err = none)) :
    WebInv valid { w with upload := some (u', ph'), boot := boot } := by
  have hi := h.upload u ph hw
  obtain ⟨h1, h2, h3⟩ := hlog
  refine h.of_upload valid rfl rfl (fun b hb => hb) (fun hn => absurd hn (by simp)) fun v qh hv => ?_
  simp only [Option.some.injEq, Prod.mk.injEq] at hv
  obtain ⟨rfl, rfl⟩ := hv
  refine ⟨hi.busy, fun he => ?_, fun he => ?_, fun he _ => ?_, fun hp => absurd hp hp'⟩
  · rw [h1, h2]
    exact hi.same (h3 he)
  · rw [h2]
    exact hi.flash (h3 he)
  · rw [h1]
    exact hi.signed (h3 he) hp

theorem otaEnd_log (ok : Bool) (u : Upload) : (otaEnd ok u).hashed = u.hashed ∧
    (otaEnd ok u).written = u.written ∧ ((otaEnd ok u).err = none → u.err = none) := by
  unfold otaEnd
  split_ifs <;> simp

theorem selectBoot_log (ok : Bool) (u : Upload) : (selectBoot ok u).hashed = u.hashed ∧
    (selectBoot ok u).written = u.written ∧ ((selectBoot ok u).err = none → u.err = none) := by
  unfold selectBoot
  split_ifs <;> simp

theorem wiped_invalid (hm : StartsWithMagic valid) (w : Web) : valid (wiped w).spare = false := by
  cases hval : valid (wiped w).spare with
  | false => rfl
  | true =>
    have h0 := hm _ hval
    have hff : List.replicate PART_ERASE_SIZE (0xFF : UInt8) = 0xFF :: List.replicate 4095 0xFF := rfl
    rw [wiped, spare_setSpare, hff, List.cons_append, List.getD_cons_zero] at h0
    exact absurd h0 (by decide)

theorem webInv_wipe (hm : StartsWithMagic valid) {w : Web} (h : WebInv valid w) {u : Upload}
    (hw : w.upload = some (u, .wipe)) (ok : Bool) (hs : Survives valid w (.update (.wipe ok))) :
    WebInv valid (updateStep env w (.wipe ok)) := by
  have hi := h.upload u .wipe hw
  simp only [updateStep, hw]
  split_ifs with hc
  · -- refused and wiped
    refine ⟨?_, fun hn => absurd hn (by simp), fun v ph hv => ?_⟩
    · exact SlotVerified.of_eq valid h.running (running_setSpare w _) fun b hb => hb
    · simp only [Option.some.injEq, Prod.mk.injEq] at hv
      obtain ⟨rfl, rfl⟩ := hv
      refine ⟨hi.busy, fun he => absurd he hc.1, fun he => absurd he hc.1, fun he => absurd he hc.1, fun _ hval => ?_⟩
      have hinv := wiped_invalid valid hm w
      have hval' : valid (wiped w).spare = true := hval
      rw [hinv] at hval'
      cases hval'
  · refine h.of_upload valid rfl rfl (fun b hb => hb) (fun hn => absurd hn (by simp)) fun v ph hv => ?_
    simp only [Option.some.injEq, Prod.mk.injEq] at hv
    obtain ⟨rfl, rfl⟩ := hv
    refine ⟨hi.busy, hi.same, hi.flash, fun he _ => hi.signed he (by simp), fun _ => ?_⟩
    by_cases he : u.err = none
    · -- accepted: the slot holds what was hashed
      intro _
      refine ⟨u.hashed, hi.signed he (by simp), ?_⟩
      rw [hi.same he]
      exact hi.flash he
    · -- refused and the erase failed
      have hok : ok = false := by
        cases ok with
        | false => rfl
        | true => exact absurd ⟨he, rfl⟩ hc
      subst hok
      refine hs ?_
      rw [Web.refused, hw]
      exact Option.isSome_iff_ne_none.mpr he

theorem webInv_answer {w : Web} (h : WebInv valid w) {u : Upload} (hw : w.upload = some (u, .answer)) :
    WebInv valid (updateStep env w .answer) := by
  have hi := h.upload u .answer hw
  simp only [updateStep, hw]
  split_ifs
  · exact h.of_upload valid rfl rfl (fun b hb => hb) (fun _ => hi.answer rfl) fun v ph hv => absurd hv (by simp)
  · exact h.of_upload valid rfl rfl (fun b hb => hb) (fun _ => hi.answer rfl) fun v ph hv => absurd hv (by simp)

theorem webInv_update (hm : StartsWithMagic valid) {w : Web} (h : WebInv valid w) (e : UpdateStep)
    (hs : Survives valid w (.update e)) : WebInv valid (updateStep env w e) := by
  cases hw : w.upload with
  | none =>
    have hsame : updateStep env w e = w := by simp only [updateStep, hw]
    rw [hsame]
    exact h
  | some x =>
    obtain ⟨u, ph⟩ := x
    cases ph <;> cases e
    case receiving.recv r ok behind =>
      cases hr : u.receiving with
      | true => exact webInv_recv env valid h hw hr r ok behind
      | false =>
        simp only [updateStep, hw, hr, Bool.false_eq_true, if_false]
        exact h
    case receiving.verify =>
      cases hr : u.receiving with
      | true =>
        simp only [updateStep, hw, hr, if_true]
        exact h
      | false => exact webInv_verify env valid h hw hr
    case imageCheck.imageCheck ok =>
      simp only [updateStep, hw]
      exact webInv_check valid h w.boot hw (by simp) (by simp) (otaEnd_log ok u)
    case select.select ok =>
      simp only [updateStep, hw]
      exact webInv_check valid h _ hw (by simp) (by simp) (selectBoot_log ok u)
    case wipe.wipe ok => exact webInv_wipe env valid hm h hw ok hs
    case answer.answer => exact webInv_answer env valid h hw
    all_goals
      simp only [updateStep, hw]
      exact h

theorem webInv_post {w : Web} (h : WebInv valid w) (q : PostEnv) (total : ℕ) :
    WebInv valid (updateBegin env q total w).1 := by
  unfold updateBegin
  by_cases hu : w.updating = true
  · rw [if_pos hu]
    exact h
  · rw [if_neg hu]
    cases q.part with
    | none => exact h
    | some size =>
      dsimp only
      by_cases hz : total < 4096 + FW_TRAILER ∨ total - FW_TRAILER > size
      · rw [if_pos hz]
        exact h
      · rw [if_neg hz]
        by_cases hmem : q.memory = false
        · rw [if_pos hmem]
          exact h
        · rw [if_neg hmem]
          refine h.of_upload valid rfl rfl (fun b hb => hb) (fun hn => absurd hn (by simp)) fun v ph hv => ?_
          simp only [Option.some.injEq, Prod.mk.injEq] at hv
          obtain ⟨rfl, rfl⟩ := hv
          exact ⟨rfl, fun _ => rfl, fun _ => List.nil_prefix, fun _ hp => absurd rfl hp,
            fun hp => absurd hp (by simp)⟩

theorem webInv_previous {w : Web} (h : WebInv valid w) (hasPart described : Bool) :
    WebInv valid (previousPost env hasPart described valid w).1 := by
  unfold previousPost
  split_ifs
  · exact h
  · exact h
  · exact h
  · refine h.of_upload valid rfl rfl (fun b hb => hb) h.idle fun v ph hv => ?_
    obtain ⟨-, h1, h2, h3, h4⟩ := h.upload v ph hv
    exact ⟨rfl, h1, h2, h3, h4⟩

theorem webInv_reset {w : Web} (h : WebInv valid w) (slot : Bool) (hs : Survives valid w (.reset slot)) :
    WebInv valid (webStep env valid w (.reset slot)) := by
  have hspare : SlotVerified valid w (!w.running) := by
    cases hw : w.upload with
    | none => exact h.idle hw
    | some x => exact hs (by rw [hw]; rfl)
  have hboth : ∀ s, SlotVerified valid w s := fun s => by
    by_cases hsr : s = w.running
    · rw [hsr]
      exact h.running
    · rw [show s = !w.running by revert hsr; cases s <;> cases w.running <;> simp]
      exact hspare
  exact ⟨hboth slot, fun _ => hboth (!slot), fun u ph hv => absurd hv (by simp [webStep])⟩

theorem webInv_step (hm : StartsWithMagic valid) {w : Web} (h : WebInv valid w) {e : WebEvent}
    (hs : Survives valid w e) : WebInv valid (webStep env valid w e) := by
  cases e with
  | post q total => exact webInv_post env valid h q total
  | update e => exact webInv_update env valid hm h e hs
  | previous hasPart described => exact webInv_previous env valid h hasPart described
  | reset slot => exact webInv_reset env valid h slot hs

/-- A board as it leaves the factory: no update under way, and no image but the
factory's in either slot. -/
structure FromFactory (w : Web) : Prop where
  idle : w.upload = none
  slots : ∀ s, SlotVerified valid w s

def Web.at (w : Web) (l : List WebEvent) (k : ℕ) : Web := before (webStep env valid) w l k

/-- In every run in which no reset and no failed erase leaves an unaccepted image in
the spare slot, going back boots accepted firmware only. -/
theorem go_back_verified (hm : StartsWithMagic valid) {w : Web} (h0 : FromFactory valid w) (l : List WebEvent)
    (h : ∀ k (hk : k < l.length), Survives valid (w.at env valid l k) l[k]) :
    ∀ k ≤ l.length, GoBackVerified env valid (w.at env valid l k) := by
  intro k hk
  have hstart : WebInv valid w :=
    ⟨h0.slots _, fun _ => h0.slots _, fun u ph hu => absurd hu (by simp [h0.idle])⟩
  have hinv := guarded_run (webStep env valid) (P := fun _ w => WebInv valid w)
    (G := fun _ w e => Survives valid w e) hstart (fun _ _ _ hi hs => webInv_step env valid hm hi hs) h hk
  exact hinv.go_back env valid

def magicOnly : List UInt8 → Bool := fun l => l.getD 0 0 == ESP_IMAGE_HEADER_MAGIC

theorem startsWithMagic_magicOnly : StartsWithMagic magicOnly := fun _ h => by simpa [magicOnly] using h

/-- A board that runs its factory image and has an empty spare slot. -/
def newBoard : Web where
  jb := (contiguous 4 256).jb
  updating := false
  upload := none
  slots := fun s => if s then [] else [ESP_IMAGE_HEADER_MAGIC, 1]
  running := false
  boot := false
  verified := [[ESP_IMAGE_HEADER_MAGIC, 1]]

theorem fromFactory_newBoard : FromFactory magicOnly newBoard := ⟨rfl, by decide⟩

def uploadOf (pieces : List (List UInt8)) : List WebEvent :=
  .post ⟨some 4096, true, fun _ => 0, fun _ => 0, true⟩ (4096 + FW_TRAILER) ::
    pieces.map fun b => .update (.recv (.data b) true [])

def goodUpdate : List WebEvent :=
  uploadOf [smallImage, smallTrailer] ++
    [.update .verify, .update (.imageCheck true), .update (.select true), .update (.wipe true), .update .answer,
      .reset true]

theorem go_back_verified_good_update :
    (newBoard.at openEnv magicOnly goodUpdate 9).running = true ∧
      GoBackVerified openEnv magicOnly (newBoard.at openEnv magicOnly goodUpdate 9) :=
  ⟨by decide +kernel, go_back_verified openEnv magicOnly startsWithMagic_magicOnly fromFactory_newBoard goodUpdate
    (by decide +kernel) 9 (by decide)⟩

/-- Power fails when the last byte of an unsigned image has been written. -/
def powerCut : List WebEvent := uploadOf [smallImage] ++ [.reset false]

/-- Going back then boots an image no signature was checked of. -/
theorem power_cut_leaves_unverified :
    ¬ GoBackVerified openEnv magicOnly (newBoard.at openEnv magicOnly powerCut 3) := by
  intro h
  exact absurd (h true true (by decide +kernel)) (by decide +kernel)

end Inferno
