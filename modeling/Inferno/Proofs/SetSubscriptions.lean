import Inferno.Proofs.ArcReplies
import Inferno.Spec.ChannelNames
import Mathlib.Data.List.TakeWhile

/-! What a SET_SUBSCRIPTIONS request does to the subscription table: the fold of its whole
entries, whatever its counts and offsets say, and what the arrays hold of it. -/

namespace Inferno

open Lib

/-- An entry of the list: a channel and the offsets of its two names. -/
structure SubEntry where
  channel : ℕ
  nameOff : ℕ
  hostOff : ℕ

variable (req : List UInt8)

def subEntryAt (i : ℕ) : SubEntry where
  channel := dwRd16 (memOf req) (AOIP_HDR_LEN + (2 + i * 6))
  nameOff := dwRd16 (memOf req) (AOIP_HDR_LEN + (2 + i * 6 + 2))
  hostOff := dwRd16 (memOf req) (AOIP_HDR_LEN + (2 + i * 6 + 4))

/-- `content[1]`; a content of less than two bytes states none. -/
def statedEntries : ℕ := if AOIP_HDR_LEN + 2 ≤ req.length then (memOf req (AOIP_HDR_LEN + 1)).toNat else 0

/-- The stated entries from `i` on, `n` of them, that lie in the content. -/
def wholeEntriesFrom (n i : ℕ) : List SubEntry :=
  ((List.range' i n).filter fun i => decide (AOIP_HDR_LEN + (2 + i * 6 + 6) ≤ req.length)).map (subEntryAt req)

def SubEntry.Named (e : SubEntry) : Prop := 1 ≤ e.channel ∧ e.channel ≤ AP_NCH

instance decidableSubEntryNamed (e : SubEntry) : Decidable e.Named := inferInstanceAs (Decidable (_ ∧ _))

/-- The stated entries that lie in the content and name a channel. -/
def namedEntries : List SubEntry := (wholeEntriesFrom req (statedEntries req) 0).filter fun e => decide e.Named

/-- The string at an offset of the request: none in the header or past the end, and at most
31 bytes of it. -/
def nameAt (off : ℕ) : CStr := if off < DRR_HDR_LEN ∨ req.length ≤ off then [] else (cstrAt req off).take 31

/-- What an entry makes of its channel, and of no other. -/
def SubEntry.apply (t : Fin AP_NCH → RxChannel) (e : SubEntry) : Fin AP_NCH → RxChannel := fun c =>
  if c.val + 1 = e.channel then
    if nameAt req e.nameOff = [] then { t c with txChannel := [], txDevice := [], status := .none }
    else { t c with txChannel := nameAt req e.nameOff, txDevice := nameAt req e.hostOff, status := .pending }
  else t c

/-- The same on the arrays the names are kept in. -/
def SubEntry.store (t : Fin AP_NCH → ChannelNames) (e : SubEntry) : Fin AP_NCH → ChannelNames :=
  storeNamesAt (e.channel - 1) (nameAt req e.nameOff) (nameAt req e.hostOff) t

theorem cstrAt_cons {i : ℕ} (h : i < req.length) (h0 : memOf req i ≠ 0) :
    cstrAt req i = memOf req i :: cstrAt req (i + 1) := by
  have hget : memOf req i = req[i] := by simp [memOf, h]
  rw [cstrAt, cstrAt, List.drop_eq_getElem_cons h, ← hget]
  exact List.takeWhile_cons_of_pos (decide_eq_true h0)

theorem cstrAt_nil {i : ℕ} (h : req.length ≤ i ∨ memOf req i = 0) : cstrAt req i = [] := by
  rcases Nat.lt_or_ge i req.length with hlt | hge
  · have h0 : memOf req i = 0 := h.resolve_left (by omega)
    have hget : memOf req i = req[i] := by simp [memOf, hlt]
    rw [cstrAt, List.drop_eq_getElem_cons hlt, ← hget, h0]
    rfl
  · rw [cstrAt, List.drop_eq_nil_of_le hge]
    rfl

/-- The loop of `req_str` copies the string there, as far as there is room. -/
theorem reqStrFrom_eq (room i : ℕ) : reqStrFrom req room i = .ok ((cstrAt req i).take room) := by
  induction room generalizing i with
  | zero => rw [reqStrFrom, List.take_zero]
  | succ room ih =>
    rw [reqStrFrom]
    by_cases hi : i < req.length
    · rw [if_pos hi, reqByte_ok hi, ok_bind]
      by_cases h0 : memOf req i = 0
      · rw [if_pos h0, cstrAt_nil req (.inr h0), List.take_nil]
      · rw [if_neg h0, ih, ok_bind, cstrAt_cons req hi h0, List.take_succ_cons]
    · rw [if_neg hi, cstrAt_nil req (.inl (not_lt.mp hi)), List.take_nil]

theorem reqStr_eq (off : ℕ) : reqStr req 32 off = .ok (nameAt req off) := by
  unfold reqStr nameAt
  by_cases hout : off < DRR_HDR_LEN ∨ req.length ≤ off
  · rw [if_pos hout, if_pos hout]
  · rw [if_neg hout, if_neg hout]
    exact reqStrFrom_eq req 31 off

theorem nameAt_noNul (off : ℕ) : 0 ∉ nameAt req off := by
  unfold nameAt
  split_ifs
  · exact List.not_mem_nil
  · intro h
    have := List.mem_takeWhile_imp (List.mem_of_mem_take h)
    exact absurd rfl (of_decide_eq_true this)

theorem strncpy31_nameAt (off : ℕ) : strncpy31 (nameAt req off) = nameAt req off := by
  apply List.take_of_length_le
  unfold nameAt
  split_ifs
  · exact Nat.zero_le 31
  · exact List.length_take_le 31 _

def SubEntry.set (s : Sub) (e : SubEntry) : Sub :=
  subscriberSetAt (u8 (e.channel - 1)) (nameAt req e.nameOff) (nameAt req e.hostOff) s

theorem wholeEntriesFrom_end {i : ℕ} (h : req.length < AOIP_HDR_LEN + (2 + i * 6 + 6)) (n : ℕ) : wholeEntriesFrom req n i = [] := by
  rw [wholeEntriesFrom, List.map_eq_nil_iff, List.filter_eq_nil_iff]
  intro k hk hin
  obtain ⟨hik, -⟩ := List.mem_range'_1.mp hk
  have hle := of_decide_eq_true hin
  omega

theorem wholeEntriesFrom_succ {i : ℕ} (h : AOIP_HDR_LEN + (2 + i * 6 + 6) ≤ req.length) (n : ℕ) :
    wholeEntriesFrom req (n + 1) i = subEntryAt req i :: wholeEntriesFrom req n (i + 1) := by
  rw [wholeEntriesFrom, List.range'_succ, List.filter_cons, if_pos (decide_eq_true h), List.map_cons]
  rfl

/-- From entry `i` on, the loop folds the whole entries that name a channel. -/
theorem subscribeFrom_eq (n i : ℕ) (s : Sub) : subscribeFrom req n i s =
    .ok (((wholeEntriesFrom req n i).filter fun e => decide e.Named).foldl (SubEntry.set req) s) := by
  induction n generalizing i s with
  | zero => rfl
  | succ n ih =>
    rw [subscribeFrom]
    by_cases hend : 2 + i * 6 + 6 > req.length - AOIP_HDR_LEN
    · rw [if_pos hend, wholeEntriesFrom_end req (by omega)]
      rfl
    · have hin : AOIP_HDR_LEN + (2 + i * 6 + 6) ≤ req.length := by omega
      rw [if_neg hend, aoipReqU16_ok (by omega), ok_bind, aoipReqU16_ok (by omega), ok_bind, reqStr_eq, ok_bind,
        aoipReqU16_ok (by omega), ok_bind, reqStr_eq, ok_bind, wholeEntriesFrom_succ req hin]
      by_cases hch : (subEntryAt req i).Named
      · rw [List.filter_cons, if_pos (decide_eq_true hch), List.foldl_cons]
        exact (if_pos hch).trans (ih (i + 1) _)
      · rw [List.filter_cons, if_neg fun h => hch (of_decide_eq_true h)]
        exact (if_neg hch).trans (ih (i + 1) _)

theorem setSubscriptions_eq (s : Sub) : setSubscriptions req s = .ok ((namedEntries req).foldl (SubEntry.set req) s) := by
  have hcount : entryCount req = .ok (statedEntries req) := by
    unfold entryCount statedEntries
    by_cases h2 : AOIP_HDR_LEN + 2 ≤ req.length
    · rw [if_pos (by omega), if_pos h2, reqByte_ok (by omega)]
      rfl
    · rw [if_neg (by omega), if_neg h2]
  rw [setSubscriptions, hcount, ok_bind, subscribeFrom_eq]
  rfl

section
variable {req}

theorem SubEntry.set_ch {e : SubEntry} (he : e.Named) (s : Sub) : (e.set req s).ch = e.apply req s.ch := by
  obtain ⟨h1, h8⟩ := he
  have hc : u8 (e.channel - 1) < AP_NCH := by
    simp only [u8, AP_NCH] at h8 ⊢
    omega
  have hval : u8 (e.channel - 1) + 1 = e.channel := by
    simp only [u8, AP_NCH] at h8 ⊢
    omega
  funext c
  rw [SubEntry.set, subscriberSetAt, dif_pos hc, subscriberSet, SubEntry.apply]
  by_cases hcc : c.val + 1 = e.channel
  · have hfin : c = ⟨u8 (e.channel - 1), hc⟩ := Fin.ext (by simp only; omega)
    subst hfin
    rw [if_pos hcc, strncpy31_nameAt, strncpy31_nameAt]
    exact Function.update_self ..
  · have hfin : c ≠ ⟨u8 (e.channel - 1), hc⟩ := fun h => hcc (by rw [h]; exact hval)
    rw [if_neg hcc]
    exact Function.update_of_ne hfin ..

theorem foldl_set_ch {l : List SubEntry} (hl : ∀ e ∈ l, e.Named) (s : Sub) :
    (l.foldl (SubEntry.set req) s).ch = l.foldl (SubEntry.apply req) s.ch := by
  induction l generalizing s with
  | nil => rfl
  | cons e l ih =>
    rw [List.foldl_cons, List.foldl_cons, ih (fun e' h => hl e' (List.mem_cons_of_mem _ h)),
      SubEntry.set_ch (hl e List.mem_cons_self)]

theorem foldl_apply_of_unnamed {l : List SubEntry} {c : Fin AP_NCH} (h : ∀ e ∈ l, c.val + 1 ≠ e.channel)
    (t : Fin AP_NCH → RxChannel) : l.foldl (SubEntry.apply req) t c = t c := by
  induction l generalizing t with
  | nil => rfl
  | cons e l ih =>
    rw [List.foldl_cons, ih fun e' h' => h e' (List.mem_cons_of_mem _ h')]
    exact if_neg (h e List.mem_cons_self)

theorem foldl_store_show {l : List SubEntry} (hl : ∀ e ∈ l, e.Named) {a : Fin AP_NCH → ChannelNames} {s : Sub}
    (h : ∀ c, (a c).Show (s.ch c)) (c : Fin AP_NCH) :
    (l.foldl (SubEntry.store req) a c).Show ((l.foldl (SubEntry.set req) s).ch c) := by
  induction l generalizing a s with
  | nil => exact h c
  | cons e l ih =>
    have hch : u8 (e.channel - 1) = e.channel - 1 := by
      have := (hl e List.mem_cons_self).2
      simp only [u8, AP_NCH] at this ⊢
      omega
    refine ih (fun e' h' => hl e' (List.mem_cons_of_mem _ h')) fun c' => ?_
    rw [SubEntry.store, SubEntry.set, hch]
    exact storeNamesAt_show h _ (nameAt_noNul req _) (nameAt_noNul req _) c'

end

theorem namedEntries_named (e : SubEntry) (h : e ∈ namedEntries req) : e.Named :=
  of_decide_eq_true (List.mem_filter.mp h).2

/-- A SET_SUBSCRIPTIONS request of any bytes is answered without reading past its end, and
leaves the table its whole entries make of it in their order: channels it does not name keep
their names, and the arrays behind the table read as the new names and nothing of the old. -/
theorem set_subscriptions_exact (prof : RateProfile) (env : ArcEnv) (hlen : AOIP_HDR_LEN ≤ req.length)
    (hop : dwRd16 (memOf req) 6 = ARC_OP_SET_SUBSCRIPTIONS) (st : ArcState) :
    ∃ r st', handle prof env req st = .ok (r, AOIP_CODE_OK, st') ∧
      st'.sub.ch = (namedEntries req).foldl (SubEntry.apply req) st.sub.ch ∧
      (∀ c, (∀ e ∈ namedEntries req, c.val + 1 ≠ e.channel) → st'.sub.ch c = st.sub.ch c) ∧
      ∀ a, (∀ c, ChannelNames.Show (a c) (st.sub.ch c)) →
        ∀ c, ((namedEntries req).foldl (SubEntry.store req) a c).Show (st'.sub.ch c) := by
  have hnamed := namedEntries_named req
  set sub' := (namedEntries req).foldl (SubEntry.set req) st.sub with hsub
  have hswitch (m0 : List UInt8) (_ : m0.length = AOIP_HDR_LEN) :
      Ends (arcSwitch prof env req st (dwRd16 (memOf req) 6)) m0 fun p m =>
        Sits m0 m 0 ∧ p = (AOIP_CODE_OK, { st with sub := sub' }) := by
    have hcase : arcSwitch prof env req st (dwRd16 (memOf req) 6) =
        (do let sub ← StateT.lift (setSubscriptions req st.sub); pure (AOIP_CODE_OK, { st with sub := sub })) := by
      rw [hop]
      rfl
    rw [hcase]
    refine (ends_lift (Q := fun sub m => sub = sub' ∧ m = m0) (setSubscriptions_eq req st.sub) ⟨rfl, rfl⟩).bind ?_
    rintro _ _ ⟨rfl, rfl⟩
    exact ends_pure ⟨sits_whole _, rfl⟩
  obtain ⟨r, code, st', m, hrun, hst, -⟩ := handle_of_switch (Q := fun p _ => p = (AOIP_CODE_OK, { st with sub := sub' })) hlen
    hswitch
  obtain ⟨rfl, rfl⟩ := Prod.ext_iff.mp hst
  have hch : sub'.ch = (namedEntries req).foldl (SubEntry.apply req) st.sub.ch := foldl_set_ch hnamed st.sub
  refine ⟨r, _, hrun, hch, fun c hc => ?_, fun a ha c => foldl_store_show hnamed ha c⟩
  exact (congrFun hch c).trans (foldl_apply_of_unnamed hc st.sub.ch)

/-- Three entries stated and two whole: output 1 from "9" at "BC", the host's name the last
bytes of the packet, and nothing for output 5; the third ends behind the packet. -/
def subscribeRequest : List UInt8 :=
  [0x27, 0xFF, 0x00, 0x1D, 0x00, 0x01, 0x30, 0x10, 0x00, 0x00, 0x03, 0x03, 0x00, 0x01, 0x00, 0x18, 0x00, 0x1B,
    0x00, 0x05, 0x00, 0x00, 0x00, 0x00, 0x39, 0x00, 0x00, 0x42, 0x43]

/-- A device that listens takes the two, and its output 2 stays as it was. -/
theorem set_subscriptions_exact_two :
    ∃ r st', handle rate48k firstQuery.env subscribeRequest ⟨listening, firstQuery.clk, arc1100Body⟩ =
        .ok (r, AOIP_CODE_OK, st') ∧
      st'.sub.ch 0 = ⟨[0x39], [0x42, 0x43], [0x4C], .pending⟩ ∧ st'.sub.ch 4 = ⟨[], [], [], .none⟩ ∧
      st'.sub.ch 1 = ⟨[0x30, 0x32], [0x41], [0x52], .active⟩ := by
  obtain ⟨r, st', hrun, hch, hsame, -⟩ := set_subscriptions_exact subscribeRequest rate48k firstQuery.env (by decide) (by decide)
    ⟨listening, firstQuery.clk, arc1100Body⟩
  refine ⟨r, st', hrun, ?_, ?_, ?_⟩
  · rw [hch]
    decide +kernel
  · rw [hch]
    decide +kernel
  · rw [hsame 1 (by decide +kernel)]
    rfl

end Inferno
