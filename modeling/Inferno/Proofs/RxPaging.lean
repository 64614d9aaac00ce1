import Inferno.Proofs.ArcReplies

/-! A controller pages through the receive channels: it asks from channel 1, and again
behind what it got as long as the reply says that more remain. -/

namespace Inferno

open Lib

/-- A receive channel as a controller lists it. -/
structure RxEntry where
  index : ℕ
  name : CStr
  tx : Option CStr
  device : Option CStr
  status : ℕ
  deriving DecidableEq

/-- The string a u16 offset leads to; the offset 0 is no string. -/
def strAt (r : List UInt8) (i : ℕ) : Option CStr :=
  if dwRd16 (memOf r) i = 0 then none else some (cstrAt r (dwRd16 (memOf r) i))

def RxEntry.read (r : List UInt8) (i : ℕ) : RxEntry where
  index := dwRd16 (memOf r) i
  name := cstrAt r (dwRd16 (memOf r) (i + 10))
  tx := strAt r (i + 6)
  device := strAt r (i + 8)
  status := dwRd32 (memOf r) (i + 12)

def pageActual (r : List UInt8) : ℕ := (memOf r 11).toNat

def readPage (r : List UInt8) : List RxEntry := (List.range (pageActual r)).map fun j => RxEntry.read r (12 + 20 * j)

/-- A request for the receive channels from `start` on. -/
structure IsRxQuery (req : List UInt8) (start : ℕ) : Prop where
  low : 14 ≤ req.length
  opcode : dwRd16 (memOf req) 6 = ARC_OP_GET_RX_CHANNELS
  start : dwRd16 (memOf req) 12 = start

/-- The pages a controller collects in at most `n` requests from `start` on; `none` while
the last of them still says that more remain. -/
def rxWalk (prof : RateProfile) (env : ArcEnv) (ask : ℕ → List UInt8) :
    ℕ → ℕ → ArcState → Except MsgFault (Option (List (List UInt8)))
  | 0, _, _ => .ok none
  | n + 1, start, st => do
    let (r, _, st) ← handle prof env (ask start) st
    if dwRd16 (memOf r) 8 = AOIP_CODE_MORE then do
      let rest ← rxWalk prof env ask n (start + pageActual r) st
      .ok (rest.map (r :: ·))
    else .ok (some [r])

/-- Every string of the channel is one its 32-byte field can hold. -/
structure RxChannel.Fits (ch : RxChannel) : Prop where
  tx : Fits31 ch.txChannel
  device : Fits31 ch.txDevice
  friendly : Fits31 ch.friendly

def Sub.entry (s : Sub) (c : Fin AP_NCH) : RxEntry where
  index := c + 1
  name := (s.ch c).friendly
  tx := (s.ch c).shownTx
  device := (s.ch c).shownHost
  status := (s.ch c).status.word

section
variable {prof : RateProfile} {env : ArcEnv} {st : ArcState} {s : Sub} {r : List UInt8} {start n code i : ℕ}

theorem PointsToStr.read {o : Option CStr} (h : PointsToStr RX_STRINGS_AT o r i) (hr : r.length ≤ 1024)
    (ho : ∀ t, o = some t → 0 ∉ t) : strAt r i = o := by
  cases o with
  | none =>
    have h0 : dwRd16 (memOf r) i = 0 := dwRd16_of_sits h
    rw [strAt, if_pos h0]
  | some t =>
    obtain ⟨hlow, hat⟩ := PointsTo.read h hr
    have hne : dwRd16 (memOf r) i ≠ 0 := by
      rw [RX_STRINGS_AT] at hlow
      omega
    rw [strAt, if_neg hne, cstrAt_of_sits hat (ho t rfl)]

theorem shown_noNul {p : Prop} [Decidable p] {t u : CStr} (ht : Fits31 t) (h : (if p then some t else none) = some u) :
    0 ∉ u := by
  split_ifs at h
  cases h
  exact ht.noNul

theorem RxItemAt.read {c : Fin AP_NCH} (h : RxItemAt prof (s.ch c) (c + 1) r i) (hr : r.length ≤ 1024)
    (hfits : (s.ch c).Fits) : RxEntry.read r i = s.entry c := by
  have hc : c.val < 8 := c.isLt
  have hname := h.name.read hr
  have hstatus : u32 (s.ch c).status.word = (s.ch c).status.word := by
    cases (s.ch c).status <;> rfl
  rw [RxEntry.read, dwRd16_of_sits h.index, u16_of_lt (by omega), cstrAt_of_sits hname.2 hfits.friendly.noNul,
    h.tx.read hr (fun _ => shown_noNul hfits.tx), h.host.read hr (fun _ => shown_noNul hfits.device),
    dwRd32_of_sits h.status, hstatus, Sub.entry]

theorem RxListed.read (h : RxListed prof s start n code r) (hr : r.length ≤ 1024) (hfits : ∀ c, (s.ch c).Fits) :
    pageActual r = n ∧ readPage r = (((List.finRange AP_NCH).drop (start - 1)).take n).map s.entry := by
  have hn : n ≤ 8 := h.le
  have hcount : r.getD (AOIP_HDR_LEN + 1) 0 = UInt8.ofNat n := h.count.getD 0 (by simp)
  have hactual : pageActual r = n := by
    change (r.getD (AOIP_HDR_LEN + 1) 0).toNat = n
    rw [hcount, UInt8.toNat_ofNat', Nat.mod_eq_of_lt (by omega)]
  refine ⟨hactual, ?_⟩
  rw [readPage, hactual]
  have hinside : ∀ j < n, start + j ≤ AP_NCH ∧ 1 ≤ start + j := by
    intro j hj
    obtain ⟨c, hc, -⟩ := h.page j hj
    have hlt : c.val < AP_NCH := c.isLt
    omega
  have hlen : n ≤ AP_NCH - (start - 1) ∨ n = 0 := by
    rcases Nat.eq_zero_or_pos n with h0 | hpos
    · exact Or.inr h0
    · obtain ⟨hle, -⟩ := hinside (n - 1) (by omega)
      obtain ⟨-, hfirst⟩ := hinside 0 hpos
      omega
  apply List.ext_getElem
  · rw [List.length_map, List.length_range, List.length_map, List.length_take, List.length_drop, List.length_finRange]
    omega
  · intro j hj hj'
    rw [List.length_map, List.length_range] at hj
    obtain ⟨c, hc, hitem⟩ := h.page j hj
    rw [← hc] at hitem
    have hget : start - 1 + j = c.val := by
      have := hinside 0 (by omega)
      omega
    rw [List.getElem_map, List.getElem_range, hitem.read hr (hfits c), List.getElem_map, List.getElem_take,
      List.getElem_drop, List.getElem_finRange]
    congr 1
    exact Fin.ext hget.symm

theorem handle_rxQuery (prof : RateProfile) (env : ArcEnv) {req : List UInt8} (hq : IsRxQuery req start) (hstart : 1 ≤ start)
    (hfits : ∀ c, (st.sub.ch c).Fits) :
    ∃ r code n, handle prof env req st = .ok (r, code, st) ∧ RxListed prof st.sub start n code r ∧ r.length ≤ 1024 ∧
      dwRd16 (memOf r) 8 = code := by
  have hlow := hq.low
  have hfrom : rxStart req = start := by
    have h4 : req.length - AOIP_HDR_LEN ≥ 4 := by
      rw [AOIP_HDR_LEN]
      omega
    have hrd : dwRd16 (memOf req) (AOIP_HDR_LEN + 2) = start := hq.start
    simp only [rxStart, if_pos h4, hrd]
    exact if_neg (by omega)
  have hshort : ∀ c, (st.sub.ch c).Short := fun c => ⟨(hfits c).tx.len, (hfits c).device.len, (hfits c).friendly.len⟩
  have hswitch (m0 : List UInt8) (hm0 : m0.length = AOIP_HDR_LEN) :
      Ends (arcSwitch prof env req st (dwRd16 (memOf req) 6)) m0 fun p m =>
        Sits m0 m 0 ∧ p.2 = st ∧ m.length ≤ 911 ∧ ∃ n, RxListed prof st.sub start n p.1 m := by
    have hcase : arcSwitch prof env req st (dwRd16 (memOf req) 6) =
        (do let code ← getRxChannels prof req st.sub; pure (code, st)) := by
      rw [hq.opcode]
      rfl
    rw [hcase]
    refine (ends_getRxChannels hshort hm0).bind ?_
    intro code m h
    exact ends_pure ⟨h.1, rfl, h.2.1, hfrom ▸ h.2.2⟩
  obtain ⟨r, code, st', m, hrun, ⟨hst, hlen, n, hlisted⟩, hdone⟩ := handle_of_switch (hlow.trans' (by decide)) hswitch
  obtain ⟨m1, ho1, ho2⟩ := hdone.only
  have hreply := (hlisted.frame ho1 (by decide)).frame ho2 (by decide)
  have hcode : code < 2 ^ 16 := by
    rw [show code = _ from hlisted.code]
    split_ifs <;> decide
  rw [show st' = st from hst] at hrun
  refine ⟨r, code, n, hrun, hreply, ?_, ?_⟩
  · rw [hdone.same]
    omega
  · rw [dwRd16_of_sits hdone.opcode2, u16_of_lt hcode]

theorem rxWalk_from (hfits : ∀ c, (st.sub.ch c).Fits) {ask : ℕ → List UInt8}
    (hask : ∀ start, 1 ≤ start → start ≤ AP_NCH → IsRxQuery (ask start) start) {k : ℕ} (hpos : 1 ≤ start)
    (hle : start ≤ AP_NCH) (hk : AP_NCH - start < k) :
    ∃ pages, rxWalk prof env ask k start st = .ok (some pages) ∧ (∀ r ∈ pages, 1 ≤ pageActual r) ∧
      pages.flatMap readPage = ((List.finRange AP_NCH).drop (start - 1)).map st.sub.entry := by
  induction k generalizing start with
  | zero => exact absurd hk (Nat.not_lt_zero _)
  | succ k ih =>
    obtain ⟨r, code, n, hrun, hlisted, hlen, hcode⟩ :=
      handle_rxQuery prof env (hask start hpos hle) hpos hfits
    obtain ⟨hactual, hread⟩ := hlisted.read hlen hfits
    have hn := hlisted.progress hle
    rw [rxWalk, hrun, ok_bind]
    by_cases hmore : start + n ≤ AP_NCH
    · have hc : code = AOIP_CODE_MORE := by rw [hlisted.code, if_pos hmore]
      have hnext : 1 ≤ start + n := by omega
      obtain ⟨pages, hrest, hall, hpages⟩ := ih hnext hmore (by omega)
      refine ⟨r :: pages, ?_, ?_, ?_⟩
      · simp only [hcode, hc, if_true, hactual, hrest, ok_bind, Option.map_some]
      · intro p hp
        rcases List.mem_cons.mp hp with rfl | hp
        · rwa [hactual]
        · exact hall p hp
      · rw [List.flatMap_cons, hread, hpages, ← List.map_append, show start + n - 1 = start - 1 + n by omega,
          ← List.drop_drop, List.take_append_drop]
    · have hc : code ≠ AOIP_CODE_MORE := by
        rw [hlisted.code, if_neg hmore]
        decide
      refine ⟨[r], ?_, ?_, ?_⟩
      · simp only [hcode, if_neg hc]
      · intro p hp
        rw [List.mem_singleton.mp hp, hactual]
        exact hn
      · rw [List.flatMap_cons, List.flatMap_nil, List.append_nil, hread, List.take_of_length_le]
        rw [List.length_drop, List.length_finRange]
        omega

end

/-- A controller that starts at channel 1 and asks again behind each page is done after at
most eight requests; every page brings it a channel, and together they are the eight
channels in order, each with its strings and its status. -/
theorem rx_paging_complete (prof : RateProfile) (env : ArcEnv) {st : ArcState} (hfits : ∀ c, (st.sub.ch c).Fits)
    {ask : ℕ → List UInt8} (hask : ∀ start, 1 ≤ start → start ≤ AP_NCH → IsRxQuery (ask start) start) :
    ∃ pages, rxWalk prof env ask AP_NCH 1 st = .ok (some pages) ∧ (∀ r ∈ pages, 1 ≤ pageActual r) ∧
      pages.flatMap readPage = (List.finRange AP_NCH).map st.sub.entry :=
  rxWalk_from hfits hask le_rfl (by decide) (by decide)

/-- A request for the receive channels from `start` on, with nothing else in it. -/
def queryFrom (start : ℕ) : List UInt8 :=
  [0x27, 0xFF, 0x00, 0x0E, 0x00, 0x01, 0x30, 0x00, 0x00, 0x00, 0x00, 0x00] ++ dwWr16 start

theorem queryFrom_isRxQuery {start : ℕ} (h : start ≤ AP_NCH) : IsRxQuery (queryFrom start) start where
  low := by simp [queryFrom]
  opcode := by
    change (0x30 : UInt8).toNat * 2 ^ 8 + (0x00 : UInt8).toNat = ARC_OP_GET_RX_CHANNELS
    decide
  start := by
    have hat : Sits (dwWr16 start) (queryFrom start) 12 := sits_end _ _
    rw [dwRd16_of_sits hat, u16_of_lt (h.trans_lt (by decide))]

def fullName (b : UInt8) : CStr := List.replicate 31 b

theorem fullName_fits {b : UInt8} (h : b ≠ 0) : Fits31 (fullName b) where
  len := by simp [fullName]
  noNul := by simp [fullName, h.symm]

/-- Eight outputs, each with a full name and a full subscription of its own. -/
def allSubscribed : ArcState where
  sub := { Sub.boot with ch := fun c =>
    ⟨fullName (0x71 + UInt8.ofNat c), fullName (0x61 + UInt8.ofNat c), fullName (0x41 + UInt8.ofNat c), .active⟩ }
  clk := firstQuery.clk
  table := arc1100Body

theorem allSubscribed_fits (c : Fin AP_NCH) : (allSubscribed.sub.ch c).Fits where
  tx := fullName_fits (by revert c; decide)
  device := fullName_fits (by revert c; decide)
  friendly := fullName_fits (by revert c; decide)

/-- Seven of them fill a page, and the eighth comes with the second. -/
theorem rx_paging_complete_all_subscribed :
    ∃ pages, rxWalk rate48k firstQuery.env queryFrom AP_NCH 1 allSubscribed = .ok (some pages) ∧
      pages.map pageActual = [7, 1] ∧ pages.flatMap readPage = (List.finRange AP_NCH).map allSubscribed.sub.entry := by
  obtain ⟨pages, hwalk, -, hread⟩ := rx_paging_complete rate48k firstQuery.env allSubscribed_fits fun _ _ hle =>
    queryFrom_isRxQuery hle
  refine ⟨pages, hwalk, ?_, hread⟩
  have hpages : (rxWalk rate48k firstQuery.env queryFrom AP_NCH 1 allSubscribed).toOption.map
      (·.map (·.map pageActual)) = some (some [7, 1]) := by
    decide +kernel
  rw [hwalk] at hpages
  exact Option.some.inj (Option.some.inj hpages)

end Inferno
