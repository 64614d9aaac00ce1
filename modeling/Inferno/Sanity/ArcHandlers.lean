import Inferno.Sanity.ArcFlows
import Inferno.Sanity.ArcTable

/-! The device names, and the requests that change the subscriptions. -/

namespace Inferno

open Lib

/-- Where the name fields start: behind the header, the head and its padding. -/
def NAMES_AT : ℕ := 60

def nameField (name : CStr) : List UInt8 := name ++ List.replicate (32 - name.length) 0

/-- Every offset of the head leads to its block, field or string. -/
structure NamesAt (name : CStr) (r : List UInt8) : Prop where
  nameBlock : PointsTo 20 (dwWr16 0x0500) r 10
  nameBlock' : PointsTo 20 (dwWr16 0x0500) r 12
  versionBlock : PointsTo 20 (dwWr16 0x0a0a) r 14
  board : PointsTo NAMES_AT (boardName ++ [0]) r 16
  revision : PointsTo NAMES_AT (boardRevision ++ [0]) r 18
  friendly : PointsTo NAMES_AT (nameField name) r 30
  factory : PointsTo NAMES_AT (nameField name) r 32
  friendly' : PointsTo NAMES_AT (nameField name) r 34

section
variable {m r r' : List UInt8} {name : CStr} {a b head lo : ℕ}

theorem NamesAt.frame (h : NamesAt name r) (ho : Only a b r r') (hb : b ≤ AOIP_HDR_LEN) : NamesAt name r' := by
  rw [AOIP_HDR_LEN] at hb
  have hlow : b ≤ NAMES_AT := by rw [NAMES_AT]; omega
  exact
    { nameBlock := h.nameBlock.frame ho (by omega) (by omega)
      nameBlock' := h.nameBlock'.frame ho (by omega) (by omega)
      versionBlock := h.versionBlock.frame ho (by omega) (by omega)
      board := h.board.frame ho (by omega) hlow
      revision := h.revision.frame ho (by omega) hlow
      friendly := h.friendly.frame ho (by omega) hlow
      factory := h.factory.frame ho (by omega) hlow
      friendly' := h.friendly'.frame ho (by omega) hlow }

theorem ends_patchAll {l : List (ℕ × ℕ)} {n : ℕ} (hin : head + n ≤ m.length) (hl : ∀ p ∈ l, lo ≤ p.1 ∧ p.1 + 2 ≤ n)
    (hrise : l.Pairwise fun p q => p.1 + 2 ≤ q.1) :
    Ends (patchAll head l) m fun _ m' =>
      Only (head + lo) (head + n) m m' ∧ m'.length = m.length ∧ ∀ p ∈ l, Sits (dwWr16 p.2) m' (head + p.1) := by
  induction l generalizing m lo with
  | nil => exact ends_pure ⟨Only.refl _ _ _, rfl, by simp⟩
  | cons p l ih =>
    obtain ⟨hlow, hhigh⟩ := hl p List.mem_cons_self
    obtain ⟨hfirst, hrest⟩ := List.pairwise_cons.mp hrise
    have hfit : head + p.1 + (dwWr16 p.2).length ≤ m.length := by
      rw [dwWr16_length]
      omega
    refine (ends_put hfit).bind ?_
    rintro _ m1 ⟨ho, hat, hlen⟩
    rw [dwWr16_length] at ho
    have hl' : ∀ q ∈ l, p.1 + 2 ≤ q.1 ∧ q.1 + 2 ≤ n := fun q hq => ⟨hfirst q hq, (hl q (List.mem_cons_of_mem p hq)).2⟩
    refine (ih (hlen ▸ hin) hl' hrest).mono ?_
    rintro _ m2 ⟨ho2, hlen2, hall⟩
    refine ⟨(ho.mono (by omega) (by omega)).trans (ho2.mono (by omega) le_rfl), hlen2.trans hlen, ?_⟩
    intro q hq
    rcases List.mem_cons.mp hq with rfl | hq
    · exact hat.frame ho2 (Or.inl (by rw [dwWr16_length]; omega))
    · exact hall q hq

theorem ends_deviceNames (hname : name.length ≤ 31) (hm : m.length = AOIP_HDR_LEN) :
    Ends (deviceNames name) m fun _ m' => Sits m m' 0 ∧ m'.length ≤ 143 ∧ NamesAt name m' := by
  rw [AOIP_HDR_LEN] at hm
  apply ends_len_then
  simp only [aoipMsgZeros, aoipMsgBytes_then]
  have hnl : min name.length 31 = name.length := min_eq_left hname
  have hfield : (nameField name).length = 32 := by
    rw [nameField, List.length_append, List.length_replicate]
    omega
  simp only [hnl, List.take_length]
  apply ends_append_then (by simp [hm])
  rintro m1 ⟨hpre1, -, hm1⟩
  replace hm1 : m1.length = 60 := by simp [hm1, hm]
  apply ends_len_then
  apply ends_append_then (x := nameField name) (by omega)
  rintro m2 ⟨hpre2, hfriendly, hm2⟩
  rw [hm1, hfield] at hm2
  apply ends_len_then
  apply ends_append_then (x := nameField name) (by omega)
  rintro m3 ⟨hpre3, hfactory, hm3⟩
  rw [hm2, hfield] at hm3
  refine (ends_str (by rw [hm3]; decide)).bind ?_
  rintro board m4 ⟨rfl, hpre4, hboard, hm4⟩
  replace hm4 : m4.length = 138 := hm4.trans (by rw [hm3]; rfl)
  refine (ends_str (by rw [hm4]; decide)).bind ?_
  rintro revision m5 ⟨rfl, hpre5, hrevision, hm5⟩
  replace hm5 : m5.length = 143 := hm5.trans (by rw [hm4]; rfl)
  rw [hm, hm1, hm2, hm3, hm4]
  rw [hm1] at hfriendly
  rw [hm2] at hfactory
  rw [hm3] at hboard
  rw [hm4] at hrevision
  have hrange : ∀ p ∈ namesHead 60 92 124 138, 0 ≤ p.1 ∧ p.1 + 2 ≤ 48 := by decide
  refine (ends_patchAll (by omega) hrange (by decide)).mono ?_
  rintro _ m6 ⟨ho, hlen, hall⟩
  have hat {o v : ℕ} (hp : (o, v) ∈ namesHead 60 92 124 138) : Sits (dwWr16 v) m6 (10 + o) := hall (o, v) hp
  have hkeep {x b : List UInt8} {i : ℕ} (hx : Sits x b i) (hb : b <+: m5) (hi : 58 ≤ i) : Sits x m6 i :=
    (hx.grow hb).frame ho (Or.inr hi)
  refine ⟨?_, by omega, ?_⟩
  · have h1 : Sits m m5 0 := sits_of_start (hpre1.trans (hpre2.trans (hpre3.trans (hpre4.trans hpre5))))
    exact h1.frame ho (Or.inl (by omega))
  · have hfr := hkeep hfriendly (hpre3.trans (hpre4.trans hpre5)) (by omega)
    exact
      { nameBlock := ⟨28, by omega, hat (o := 0) (by decide), hat (o := 18) (by decide)⟩
        nameBlock' := ⟨28, by omega, hat (o := 2) (by decide), hat (o := 18) (by decide)⟩
        versionBlock := ⟨40, by omega, hat (o := 4) (by decide), hat (o := 30) (by decide)⟩
        board := ⟨124, by decide, hat (o := 6) (by decide), hkeep hboard hpre5 (by omega)⟩
        revision := ⟨138, by decide, hat (o := 8) (by decide), hkeep hrevision (List.prefix_refl m5) (by omega)⟩
        friendly := ⟨60, by decide, hat (o := 20) (by decide), hfr⟩
        factory := ⟨92, by decide, hat (o := 22) (by decide), hkeep hfactory (hpre4.trans hpre5) (by omega)⟩
        friendly' := ⟨60, by decide, hat (o := 24) (by decide), hfr⟩ }

end

/-- What the replies need of the subscriber: strings that fit their fields and slot counts
that fit their arrays. -/
structure SubFits (s : Sub) : Prop where
  short : ∀ c, (s.ch c).Short
  slots : ∀ i, (s.flow i).state = .active → (s.flow i).req.nslots ≤ AP_MAX_CH_PER_FLOW

theorem subFits_boot : SubFits Sub.boot where
  short _ := ⟨Nat.zero_le 31, Nat.zero_le 31, Nat.zero_le 31⟩
  slots _ _ := Nat.zero_le AP_MAX_CH_PER_FLOW

section
variable {s : Sub} {req : List UInt8}

theorem strncpy31_length (t : CStr) : (strncpy31 t).length ≤ 31 := List.length_take_le 31 t

theorem SubFits.update (h : SubFits s) (c : Fin AP_NCH) {ch : RxChannel} (hch : ch.Short) {dirty : Bool} :
    SubFits { s with ch := Function.update s.ch c ch, dirty := dirty } := by
  refine ⟨fun c' => ?_, h.slots⟩
  by_cases hc : c' = c
  · subst hc
    simpa using hch
  · simpa [Function.update_of_ne hc] using h.short c'

theorem SubFits.rename (h : SubFits s) (c : ℕ) (nm : CStr) : SubFits (subscriberRename c nm s) := by
  unfold subscriberRename
  by_cases hc : c < AP_NCH
  · rw [dif_pos hc]
    refine h.update ⟨c, hc⟩ ?_
    exact ⟨(h.short ⟨c, hc⟩).tx, (h.short ⟨c, hc⟩).device, strncpy31_length nm⟩
  · rwa [dif_neg hc]

theorem SubFits.set (h : SubFits s) (c : ℕ) (nm host : CStr) : SubFits (subscriberSetAt c nm host s) := by
  unfold subscriberSetAt
  by_cases hc : c < AP_NCH
  · rw [dif_pos hc]
    refine h.update ⟨c, hc⟩ ?_
    by_cases hnm : nm = []
    · rw [if_pos hnm]
      exact ⟨Nat.zero_le _, Nat.zero_le _, (h.short ⟨c, hc⟩).friendly⟩
    · rw [if_neg hnm]
      exact ⟨strncpy31_length nm, strncpy31_length host, (h.short ⟨c, hc⟩).friendly⟩
  · rwa [dif_neg hc]

theorem aoipReqU16_ok {i : ℕ} (h : i + 2 ≤ req.length) : aoipReqU16 req i = .ok (dwRd16 (memOf req) i) := fetch_ok h _

theorem reqByte_ok {i : ℕ} (h : i < req.length) : reqByte req i = .ok (memOf req i) := fetch_ok h _

theorem reqStrFrom_ok (req : List UInt8) (room i : ℕ) : ∃ t, reqStrFrom req room i = .ok t := by
  induction room generalizing i with
  | zero => exact ⟨[], rfl⟩
  | succ room ih =>
    rw [reqStrFrom]
    by_cases hi : i < req.length
    · rw [if_pos hi, reqByte_ok hi, ok_bind]
      by_cases h0 : memOf req i = 0
      · exact ⟨[], if_pos h0⟩
      · obtain ⟨t, ht⟩ := ih (i + 1)
        exact ⟨memOf req i :: t, by rw [if_neg h0, ht, ok_bind]⟩
    · exact ⟨[], if_neg hi⟩

theorem reqStr_ok (req : List UInt8) (cap off : ℕ) : ∃ t, reqStr req cap off = .ok t := by
  unfold reqStr
  by_cases hout : off < DRR_HDR_LEN ∨ off ≥ req.length
  · exact ⟨[], if_pos hout⟩
  · rw [if_neg hout]
    exact reqStrFrom_ok req (cap - 1) off

theorem entryCount_ok (req : List UInt8) : ∃ n, entryCount req = .ok n := by
  unfold entryCount
  by_cases h2 : req.length - AOIP_HDR_LEN ≥ 2
  · rw [if_pos h2, reqByte_ok (by omega)]
    exact ⟨_, rfl⟩
  · exact ⟨0, if_neg h2⟩

theorem renameFrom_ok (req : List UInt8) (h : SubFits s) (n i : ℕ) (any : Bool) :
    ∃ s' any', renameFrom req n i s any = .ok (s', any') ∧ SubFits s' := by
  induction n generalizing i s any with
  | zero => exact ⟨s, any, rfl, h⟩
  | succ n ih =>
    rw [renameFrom]
    by_cases hend : 2 + i * 4 + 4 > req.length - AOIP_HDR_LEN
    · exact ⟨s, any, if_pos hend, h⟩
    · obtain ⟨nm, hnm⟩ := reqStr_ok req 32 (dwRd16 (memOf req) (AOIP_HDR_LEN + (2 + i * 4 + 2)))
      rw [if_neg hend, aoipReqU16_ok (by omega), ok_bind, aoipReqU16_ok (by omega), ok_bind, hnm, ok_bind]
      split_ifs
      · exact ih (h.rename _ nm) (i + 1) true
      · exact ih h (i + 1) any

theorem renameRxChannels_ok (req : List UInt8) (h : SubFits s) :
    ∃ s' code, renameRxChannels req s = .ok (s', code) ∧ SubFits s' ∧ code < 2 ^ 16 := by
  obtain ⟨n, hn⟩ := entryCount_ok req
  obtain ⟨s', any, hrun, hs'⟩ := renameFrom_ok req h n 0 false
  refine ⟨s', if any then AOIP_CODE_OK else CODE_UNSUPPORTED, ?_, hs', by split_ifs <;> decide⟩
  rw [renameRxChannels, hn, ok_bind, hrun, ok_bind]

theorem subscribeFrom_ok (h : SubFits s) (n i : ℕ) : ∃ s', subscribeFrom req n i s = .ok s' ∧ SubFits s' := by
  induction n generalizing i s with
  | zero => exact ⟨s, rfl, h⟩
  | succ n ih =>
    rw [subscribeFrom]
    by_cases hend : 2 + i * 6 + 6 > req.length - AOIP_HDR_LEN
    · exact ⟨s, if_pos hend, h⟩
    · obtain ⟨nm, hnm⟩ := reqStr_ok req 32 (dwRd16 (memOf req) (AOIP_HDR_LEN + (2 + i * 6 + 2)))
      obtain ⟨host, hhost⟩ := reqStr_ok req 32 (dwRd16 (memOf req) (AOIP_HDR_LEN + (2 + i * 6 + 4)))
      rw [if_neg hend, aoipReqU16_ok (by omega), ok_bind, aoipReqU16_ok (by omega), ok_bind, hnm, ok_bind,
        aoipReqU16_ok (by omega), ok_bind, hhost, ok_bind]
      split_ifs
      · exact ih (h.set _ nm host) (i + 1)
      · exact ih h (i + 1)

theorem setSubscriptions_ok (req : List UInt8) (h : SubFits s) : ∃ s', setSubscriptions req s = .ok s' ∧ SubFits s' := by
  obtain ⟨n, hn⟩ := entryCount_ok req
  rw [setSubscriptions, hn, ok_bind]
  exact subscribeFrom_ok h n 0

theorem unsubscribe_ok (req : List UInt8) (h : SubFits s) : ∃ s', unsubscribe req s = .ok s' ∧ SubFits s' := by
  unfold unsubscribe
  by_cases h6 : req.length - AOIP_HDR_LEN ≥ 6
  · rw [if_pos h6, aoipReqU16_ok (by omega), ok_bind]
    refine ⟨_, rfl, ?_⟩
    split_ifs
    · exact h.set _ [] []
    · exact h
  · exact ⟨s, if_neg h6, h⟩

end

theorem ends_setLatency {prof : RateProfile} {env : ArcEnv} {req m : List UInt8} {c : MediaClock}
    (hm : m.length = AOIP_HDR_LEN) (hlen : req.length ≤ ARC_TX_LEN) :
    Ends (setLatency prof env req c) m fun p m' => p.1 < 2 ^ 16 ∧ Sits m m' 0 ∧ m'.length ≤ ARC_TX_LEN := by
  rw [AOIP_HDR_LEN] at hm
  rw [ARC_TX_LEN] at hlen ⊢
  have hcode : CODE_UNSUPPORTED < 2 ^ 16 ∧ AOIP_CODE_OK < 2 ^ 16 := by decide
  have hkeep : CODE_UNSUPPORTED < 2 ^ 16 ∧ Sits m m 0 ∧ m.length ≤ 1024 := ⟨hcode.1, sits_whole m, by omega⟩
  unfold setLatency
  by_cases hshort : req.length - AOIP_HDR_LEN < 30
  · rw [if_pos hshort]
    exact ends_pure hkeep
  · rw [if_neg hshort]
    have h1 : aoipReqU32 req (AOIP_HDR_LEN + 22) = .ok (dwRd32 (memOf req) (AOIP_HDR_LEN + 22)) := fetch_ok (by omega) _
    have h2 : aoipReqU32 req (AOIP_HDR_LEN + 26) = .ok (dwRd32 (memOf req) (AOIP_HDR_LEN + 26)) := fetch_ok (by omega) _
    refine (ends_lift (Q := fun _ m' => m' = m) h1 rfl).bind ?_
    rintro v1 _ rfl
    refine (ends_lift (Q := fun _ m' => m' = _) h2 rfl).bind ?_
    rintro v2 _ rfl
    split_ifs
    · exact ends_pure hkeep
    · have hdrop : (req.drop AOIP_HDR_LEN).length = req.length - 10 := List.length_drop
      apply ends_bytes_then (by omega)
      exact ends_pure ⟨hcode.2, (sits_whole _).append _, by rw [List.length_append]; omega⟩

end Inferno
