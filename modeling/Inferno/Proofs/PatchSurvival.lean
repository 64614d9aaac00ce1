import Inferno.Spec.SavedPatch

/-! The subscriptions survive. Whatever NVS held, whatever writes failed and whenever power
went, the channels are those of the last save that reached flash and of the calls since. -/

namespace Inferno

open Lib

theorem savedCh_length (a : ChannelArrays) : (savedCh a).length = SAVED_CH_LEN := by
  rw [savedCh, List.length_append, List.length_append, a.names.txChannel.size, a.names.txDevice.size, a.friendly.size]
  rfl

theorem saveBlob_length (t : Fin AP_NCH → ChannelArrays) : (saveBlob t).length = AP_NCH * SAVED_CH_LEN := by
  simp [saveBlob, List.length_flatMap, savedCh_length]

theorem drop_flatMap {α β : Type} {f : α → List β} {n : ℕ} (hf : ∀ a, (f a).length = n) (l : List α) {i : ℕ} {a : α}
    (h : l[i]? = some a) : ∃ rest, (l.flatMap f).drop (n * i) = f a ++ rest := by
  induction l generalizing i with
  | nil => exact absurd h (by simp)
  | cons b l ih =>
    rw [List.flatMap_cons]
    cases i with
    | zero =>
      obtain rfl : b = a := by simpa using h
      exact ⟨l.flatMap f, rfl⟩
    | succ i =>
      obtain ⟨rest, hrest⟩ := ih (i := i) (by simpa using h)
      refine ⟨rest, ?_⟩
      rw [Nat.mul_succ, Nat.add_comm, ← List.drop_drop, List.drop_left' (hf b), hrest]

theorem fieldAt_str {blob rest : List UInt8} {i : ℕ} {a : CharArray 31} (h : blob.drop i = a.bytes ++ rest) :
    (fieldAt blob i).str = a.str := by
  have hlen : 31 ≤ a.bytes.length := by rw [a.size]; decide
  have hfull : 31 - (a.bytes ++ rest).length = 0 := by rw [List.length_append]; omega
  have hbytes : (fieldAt blob i).bytes = a.bytes := by
    change padded 31 (blob.drop i) ++ [0] = a.bytes
    rw [h, padded, hfull, List.replicate_zero, List.append_nil, List.take_append_of_le_length hlen]
    conv_rhs => rw [← List.take_append_drop 31 a.bytes, a.drop_eq]
  rw [CharArray.str, hbytes, CharArray.str]

theorem readBlob_saveBlob (t : Fin AP_NCH → ChannelArrays) : readBlob (saveBlob t) = some fun c => (t c).row := by
  rw [readBlob, if_neg (not_not.mpr (saveBlob_length t))]
  congr 1
  funext c
  have hc : (List.finRange AP_NCH)[(c : ℕ)]? = some c := by simp
  obtain ⟨rest, hrest⟩ := drop_flatMap (fun c => savedCh_length (t c)) _ hc
  have hchannel : (saveBlob t).drop (SAVED_CH_LEN * c) =
      (t c).names.txChannel.bytes ++ ((t c).names.txDevice.bytes ++ ((t c).friendly.bytes ++ rest)) := by
    rw [saveBlob, hrest, savedCh]
    simp only [List.append_assoc]
  have hdevice : (saveBlob t).drop (SAVED_CH_LEN * c + 32) =
      (t c).names.txDevice.bytes ++ ((t c).friendly.bytes ++ rest) := by
    rw [← List.drop_drop, hchannel, List.drop_left' (t c).names.txChannel.size]
  have hname : (saveBlob t).drop (SAVED_CH_LEN * c + 64) = (t c).friendly.bytes ++ rest := by
    rw [show SAVED_CH_LEN * (c : ℕ) + 64 = SAVED_CH_LEN * c + 32 + 32 from rfl, ← List.drop_drop, hdevice,
      List.drop_left' (t c).names.txDevice.size]
  simp only [ChannelArrays.row, fieldAt_str hchannel, fieldAt_str hdevice, fieldAt_str hname]

theorem nul_notMem_argStr (p : List UInt8) : 0 ∉ argStr p := fun h => by
  have hall : ∀ c ∈ argStr p, decide (c ≠ 0) = true := List.all_eq_true.mp List.all_takeWhile
  exact of_decide_eq_true (hall 0 h) rfl

/-- The arrays hold the patch in force, and flash the one that survives. -/
structure InBook (s : PatchSys) (x : PatchBook) : Prop where
  now : ∀ c, (s.ch c).row = x.now c
  kept : s.flash.bind readBlob = x.kept

theorem InBook.save {s : PatchSys} {now : Fin AP_NCH → PatchRow} {kept : Option (Fin AP_NCH → PatchRow)} (t : SaveTry)
    (hnow : ∀ c, (s.ch c).row = now c) (hkept : s.flash.bind readBlob = kept) :
    InBook (s.save t) ⟨now, if t.opens ∧ t.lands then some now else kept⟩ where
  now := hnow
  kept := by
    rw [PatchSys.save]
    dsimp only
    split_ifs
    · rw [Option.bind_some, readBlob_saveBlob]
      exact congrArg some (funext hnow)
    · exact hkept

theorem InBook.write {s : PatchSys} {x : PatchBook} (h : InBook s x) {c : ℕ} (hc : c < AP_NCH) {a : ChannelArrays}
    {f : PatchRow → PatchRow} (ha : a.row = f (s.ch ⟨c, hc⟩).row) (t : SaveTry) :
    InBook ({ s with ch := Function.update s.ch ⟨c, hc⟩ a }.save t) (x.write c f t) := by
  rw [PatchBook.write, dif_pos hc]
  refine InBook.save t (fun c' => ?_) h.kept
  by_cases he : c' = ⟨c, hc⟩
  · subst he
    simp only [Function.update_self, ha, h.now]
  · simp only [Function.update_of_ne he, h.now]

theorem row_store (a : ChannelArrays) (status : ArcSub) (nm host : List UInt8) :
    ({ a with names := a.names.store (argStr nm) (argStr host), status := status } : ChannelArrays).row =
      if argStr nm = [] then { a.row with channel := [], device := [] }
      else { a.row with channel := strncpy31 (argStr nm), device := strncpy31 (argStr host) } := by
  simp only [ChannelArrays.row, ChannelNames.store]
  split_ifs
  · simp only [CharArray.clear_str]
  · simp only [CharArray.strncpy_str _ (nul_notMem_argStr _), strncpy31]

theorem row_rename (a : ChannelArrays) (friendly : List UInt8) :
    ({ a with friendly := a.friendly.strncpy (argStr friendly) } : ChannelArrays).row =
      { a.row with name := strncpy31 (argStr friendly) } := by
  simp only [ChannelArrays.row, CharArray.strncpy_str _ (nul_notMem_argStr _), strncpy31]

theorem inBook_reset {s : PatchSys} {kept : Option (Fin AP_NCH → PatchRow)} (now : Fin AP_NCH → PatchRow)
    (hkept : s.flash.bind readBlob = kept) (readable : Bool) :
    InBook (s.reset readable) (PatchBook.reset ⟨now, kept⟩ readable) where
  now c := by
    cases readable with
    | false => rfl
    | true =>
      obtain ⟨ch, flash⟩ := s
      subst hkept
      simp only [PatchSys.reset, PatchBook.reset, if_true]
      cases flash with
      | none => rfl
      | some blob =>
        simp only [Option.bind_some, Option.map_some, Option.getD_some, loadBlob, readBlob]
        by_cases hlen : blob.length ≠ AP_NCH * SAVED_CH_LEN
        · rw [if_pos hlen, if_pos hlen]
          rfl
        · rw [if_neg hlen, if_neg hlen]
          simp only [Option.map_some, Option.getD_some, PatchRow.named, ChannelArrays.row, unpatched]
          by_cases hname : (fieldAt blob (SAVED_CH_LEN * c + 64)).str = []
          · rw [if_neg (not_not.mpr hname), if_pos hname]
          · rw [if_pos hname, if_neg hname]
  kept := hkept

theorem inBook_step {s : PatchSys} {x : PatchBook} (h : InBook s x) (e : PatchEvent) :
    InBook (patchStep s e) (bookStep x e) := by
  cases e with
  | set c nm host t =>
    simp only [patchStep, bookStep]
    by_cases hc : c < AP_NCH
    · rw [dif_pos hc]
      exact h.write hc (row_store _ _ _ _) t
    · rw [dif_neg hc, PatchBook.write, dif_neg hc]
      exact h
  | rename c friendly t =>
    simp only [patchStep, bookStep]
    by_cases hc : c < AP_NCH
    · rw [dif_pos hc]
      exact h.write hc (row_rename _ _) t
    · rw [dif_neg hc, PatchBook.write, dif_neg hc]
      exact h
  | task status => exact ⟨h.now, h.kept⟩
  | reset readable => exact inBook_reset x.now h.kept readable

theorem inBook_run (flash : Option (List UInt8)) (readable : Bool) (l : List PatchEvent) :
    InBook (patchRun flash readable l) (bookRun flash readable l) := by
  induction l using List.reverseRecOn with
  | nil => exact inBook_reset unpatched rfl readable
  | append_singleton l e ih =>
    rw [patchRun, bookRun, List.foldl_append, List.foldl_append]
    exact inBook_step ih e

theorem loadBlob_status (blob : List UInt8) (c : Fin AP_NCH) :
    (loadBlob blob bootChannels c).status = if (loadBlob blob bootChannels c).row.channel = [] then .none else .pending := by
  rw [loadBlob]
  split_ifs with hlen hrow hrow
  · rfl
  · exact absurd rfl hrow
  · exact if_neg (not_not.mpr hrow)
  · exact if_pos hrow

/-- In every run from any NVS content, the channels show the calls since the last reset over
what that reset found, flash holds the patch of the last save that reached it, and a reset
brings that patch up, every subscription pending. -/
theorem patch_survives (flash : Option (List UInt8)) (readable : Bool) (l : List PatchEvent) :
    let s := patchRun flash readable l
    let x := bookRun flash readable l
    (∀ c, (s.ch c).row = x.now c) ∧ s.flash.bind readBlob = x.kept ∧
      ∀ r c, ((s.reset r).ch c).row = (x.reset r).now c ∧
        ((s.reset r).ch c).status = if ((x.reset r).now c).channel = [] then .none else .pending := by
  intro s x
  have h : InBook s x := inBook_run flash readable l
  refine ⟨h.now, h.kept, fun r c => ?_⟩
  have hr := (inBook_reset x.now h.kept r).now c
  refine ⟨hr, ?_⟩
  rw [← hr]
  cases r with
  | false => rfl
  | true =>
    simp only [PatchSys.reset, if_true]
    cases s.flash with
    | none => rfl
    | some blob => exact loadBlob_status blob c

end Inferno
