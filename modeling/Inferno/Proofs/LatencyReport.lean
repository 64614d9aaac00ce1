import Inferno.Proofs.ArcReplies

/-! A latency that a controller sets and reads back: what the property table shows once the
request was acknowledged, through whatever requests come between. -/

namespace Inferno

open Lib

/-- The value under the first of the `n` entries from `i` on that has the key. -/
def propertyFrom (r : List UInt8) (key : ℕ) : ℕ → ℕ → Option ℕ
  | 0, _ => none
  | n + 1, i =>
    if dwRd16 (memOf r) (12 + i * 4) = key then some (dwRd32 (memOf r) (dwRd16 (memOf r) (12 + i * 4 + 2)))
    else propertyFrom r key n (i + 1)

/-- The value a reply to 0x1100 carries under a key. -/
def property (r : List UInt8) (key : ℕ) : Option ℕ := propertyFrom r key (memOf r 11).toNat 0

/-- What the device makes of a latency in nanoseconds: whole microseconds, up to its maximum. -/
def takenNs (ns : ℕ) : ℕ := 1000 * min (ns / 1000) AP_LATENCY_US_MAX

def askedNs (req : List UInt8) : ℕ × ℕ := (dwRd32 (memOf req) (AOIP_HDR_LEN + 22), dwRd32 (memOf req) (AOIP_HDR_LEN + 26))

section
variable {prof : RateProfile} {env : ArcEnv} {req r t : List UInt8} {st : ArcState} {key v off : ℕ}

theorem cfgUs_applyLatency (i : ClockIn) (c : MediaClock) : (applyLatency prof i c).cfgUs = c.cfgUs := by
  unfold applyLatency
  dsimp only
  split_ifs
  · rfl
  · unfold mclkAnchor
    split_ifs
    · rfl
    · cases mclkNowSamples prof i <;> rfl

theorem cfgUs_mclkSetLatencyUs (i : ClockIn) (us : ℕ) (c : MediaClock) :
    (mclkSetLatencyUs prof i us c).cfgUs = min us AP_LATENCY_US_MAX := by
  have hclamp : (if us > AP_LATENCY_US_MAX then AP_LATENCY_US_MAX else us) = min us AP_LATENCY_US_MAX := by
    split_ifs <;> omega
  rw [mclkSetLatencyUs, cfgUs_applyLatency, hclamp]
  split_ifs with hne
  · rfl
  · exact (not_not.mp hne).symm

/-- A latency request that was acknowledged: its words agree, the clock took them, and the
reply echoes them. -/
structure Acknowledged (prof : RateProfile) (env : ArcEnv) (req : List UInt8) (st : ArcState) (r : List UInt8) (st' : ArcState) :
    Prop where
  agree : (askedNs req).1 = (askedNs req).2
  taken : st'.clk = mclkSetLatencyUs prof env.clockIn ((askedNs req).1 / 1000) st.clk
  echo : Sits (req.drop AOIP_HDR_LEN) r AOIP_HDR_LEN
  long : AOIP_HDR_LEN + 30 ≤ req.length

theorem ends_setLatency_ok {m : List UInt8} {c : MediaClock} (hm : m.length = AOIP_HDR_LEN) (hhigh : req.length ≤ ARC_TX_LEN) :
    Ends (setLatency prof env req c) m fun p m' => Sits m m' 0 ∧ (p.1 = AOIP_CODE_OK →
      (askedNs req).1 = (askedNs req).2 ∧ p.2 = mclkSetLatencyUs prof env.clockIn ((askedNs req).1 / 1000) c ∧
        Sits (req.drop AOIP_HDR_LEN) m' AOIP_HDR_LEN ∧ AOIP_HDR_LEN + 30 ≤ req.length) := by
  have hbad : CODE_UNSUPPORTED ≠ AOIP_CODE_OK := by decide
  have hm10 : m.length = 10 := hm
  rw [ARC_TX_LEN] at hhigh
  unfold setLatency
  by_cases hshort : req.length - AOIP_HDR_LEN < 30
  · rw [if_pos hshort]
    exact ends_pure ⟨sits_whole m, fun h => absurd h hbad⟩
  · rw [if_neg hshort]
    have h1 : aoipReqU32 req (AOIP_HDR_LEN + 22) = .ok (askedNs req).1 := fetch_ok (by omega) _
    have h2 : aoipReqU32 req (AOIP_HDR_LEN + 26) = .ok (askedNs req).2 := fetch_ok (by omega) _
    refine (ends_lift (Q := fun v m' => v = (askedNs req).1 ∧ m' = m) h1 ⟨rfl, rfl⟩).bind ?_
    rintro v1 _ ⟨rfl, rfl⟩
    refine (ends_lift (Q := fun v m' => v = (askedNs req).2 ∧ m' = _) h2 ⟨rfl, rfl⟩).bind ?_
    rintro v2 _ ⟨rfl, rfl⟩
    split_ifs with hrange
    · exact ends_pure ⟨sits_whole _, fun h => absurd h hbad⟩
    · have hagree : (askedNs req).1 = (askedNs req).2 := not_not.mp (not_or.mp hrange).1
      have hdrop : (req.drop AOIP_HDR_LEN).length = req.length - 10 := List.length_drop
      apply ends_bytes_then (by omega)
      exact ends_pure ⟨(sits_whole _).append _, fun _ => ⟨hagree, rfl, (sits_end _ _).at hm, by omega⟩⟩

theorem handle_setLatency (prof : RateProfile) (env : ArcEnv) (hlow : AOIP_HDR_LEN ≤ req.length) (hhigh : req.length ≤ ARC_TX_LEN)
    (hop : dwRd16 (memOf req) 6 = ARC_OP_SET_LATENCY) (st : ArcState) :
    ∃ r code st', handle prof env req st = .ok (r, code, st') ∧ (code = AOIP_CODE_OK → Acknowledged prof env req st r st') := by
  have hswitch (m0 : List UInt8) (hm0 : m0.length = AOIP_HDR_LEN) :
      Ends (arcSwitch prof env req st (dwRd16 (memOf req) 6)) m0 fun p m => Sits m0 m 0 ∧ (p.1 = AOIP_CODE_OK →
        (askedNs req).1 = (askedNs req).2 ∧ p.2.clk = mclkSetLatencyUs prof env.clockIn ((askedNs req).1 / 1000) st.clk ∧
          Sits (req.drop AOIP_HDR_LEN) m AOIP_HDR_LEN ∧ AOIP_HDR_LEN + 30 ≤ req.length) := by
    have hcase : arcSwitch prof env req st (dwRd16 (memOf req) 6) =
        (do let p ← setLatency prof env req st.clk; pure (p.1, { st with clk := p.2 })) := by
      rw [hop]
      rfl
    rw [hcase]
    refine (ends_setLatency_ok hm0 hhigh).bind ?_
    intro p m h
    exact ends_pure h
  obtain ⟨r, code, st', m, hrun, hack, hdone⟩ := handle_of_switch hlow hswitch
  obtain ⟨m1, ho1, ho2⟩ := hdone.only
  refine ⟨r, code, st', hrun, fun hcode => ?_⟩
  obtain ⟨hagree, htaken, hecho, hlong⟩ := hack hcode
  exact ⟨hagree, htaken, (hecho.frame ho1 (.inr (by decide))).frame ho2 (.inr le_rfl), hlong⟩

theorem Acknowledged.echoed {st' : ArcState} (h : Acknowledged prof env req st r st') : askedNs r = askedNs req := by
  have hlong := h.long
  have hbyte : ∀ k, k < req.length - AOIP_HDR_LEN → memOf r (AOIP_HDR_LEN + k) = memOf req (AOIP_HDR_LEN + k) := by
    intro k hk
    have hget := h.echo.getD 0 (k := k) (by rw [List.length_drop]; exact hk)
    rw [memOf, hget, memOf, List.getD_eq_getElem?_getD, List.getD_eq_getElem?_getD, List.getElem?_drop]
  have hword : ∀ k, k + 4 ≤ req.length - AOIP_HDR_LEN →
      dwRd32 (memOf r) (AOIP_HDR_LEN + k) = dwRd32 (memOf req) (AOIP_HDR_LEN + k) := by
    intro k hk
    have h1 := hbyte (k + 1) (by omega)
    have h2 := hbyte (k + 2) (by omega)
    have h3 := hbyte (k + 3) (by omega)
    rw [← Nat.add_assoc] at h1 h2 h3
    rw [dwRd32, dwRd32, hbyte k (by omega), h1, h2, h3]
  rw [askedNs, askedNs, hword 22 (by omega), hword 26 (by omega)]

/-- A reply that holds the table from its tenth byte on. -/
def HoldsTable (r t : List UInt8) : Prop := ∀ k < 202, memOf r (10 + k) = memOf t k

theorem HoldsTable.word (h : HoldsTable r t) (ht : TableKept t) {i : ℕ} (hi : i + 2 ≤ 126) :
    dwRd16 (memOf r) (10 + i) = dwRd16 (memOf arc1100Body) i := by
  have h1 := h (i + 1) (by omega)
  rw [← Nat.add_assoc] at h1
  rw [← ht.rd16 hi, dwRd16, dwRd16, h i (by omega), h1]

theorem propertyFrom_eq (h : HoldsTable r t) (ht : TableKept t) {n i : ℕ} (hn : i + n ≤ 31)
    (hoff : entryFrom key n i = some off) : propertyFrom r key n i = some (dwRd32 (memOf r) off) := by
  induction n generalizing i with
  | zero => exact absurd hoff (by simp [entryFrom])
  | succ n ih =>
    have hkey : dwRd16 (memOf r) (12 + i * 4) = dwRd16 (memOf arc1100Body) (2 + i * 4) := by
      rw [← h.word ht (by omega), ← Nat.add_assoc]
    have hval : dwRd16 (memOf r) (12 + i * 4 + 2) = dwRd16 (memOf arc1100Body) (2 + i * 4 + 2) := by
      rw [← h.word ht (by omega), ← Nat.add_assoc, ← Nat.add_assoc]
    rw [entryFrom] at hoff
    rw [propertyFrom, hkey, hval]
    by_cases hk : dwRd16 (memOf arc1100Body) (2 + i * 4) = key
    · rw [if_pos hk, Option.some.injEq] at hoff
      rw [if_pos hk, hoff]
    · rw [if_neg hk] at hoff
      rw [if_neg hk]
      exact ih (by omega) hoff

theorem property_eq (h : HoldsTable r t) (ht : TableKept t) (hoff : entryFrom key 31 0 = some (off + DRR_HDR_LEN))
    (hw : Sits (dwWr32 v) t off) : property r key = some (u32 v) := by
  have hin := hw.inside
  rw [dwWr32_length, ht.len] at hin
  have hcount : (memOf r 11).toNat = 31 := by
    rw [show 11 = 10 + 1 from rfl, h 1 (by decide), ht.mem (by decide)]
    rfl
  have h0 := h off (by omega)
  have h1 := h (off + 1) (by omega)
  have h2 := h (off + 2) (by omega)
  have h3 := h (off + 3) (by omega)
  have hword : dwRd32 (memOf r) (off + DRR_HDR_LEN) = dwRd32 (memOf t) off := by
    rw [← Nat.add_assoc] at h1 h2 h3
    rw [DRR_HDR_LEN, Nat.add_comm off 10, dwRd32, dwRd32, h0, h1, h2, h3]
  rw [property, hcount, propertyFrom_eq h ht le_rfl hoff, hword, dwRd32_of_sits hw]

theorem handle_properties (prof : RateProfile) (env : ArcEnv) (hlow : AOIP_HDR_LEN ≤ req.length)
    (hop : dwRd16 (memOf req) 6 = 0x1100) (st : ArcState) (ht : TableKept st.table) :
    ∃ r st', handle prof env req st = .ok (r, AOIP_CODE_OK, st') ∧ property r 0x8205 = some (u32 (st.clk.cfgUs * 1000)) ∧
      property r 0x8301 = some (u32 (st.clk.cfgUs * 1000)) := by
  obtain ⟨t, hpatch, hkept, hcur, hcur', -, -⟩ := patchTable_eq prof ht
  have hswitch (m0 : List UInt8) (hm0 : m0.length = AOIP_HDR_LEN) :
      Ends (arcSwitch prof env req st (dwRd16 (memOf req) 6)) m0 fun p m =>
        Sits m0 m 0 ∧ p.1 = AOIP_CODE_OK ∧ Sits t m AOIP_HDR_LEN := by
    have hcase : arcSwitch prof env req st (dwRd16 (memOf req) 6) =
        (do let table ← StateT.lift (patchTable prof st); aoipMsgBytes table; pure (AOIP_CODE_OK, { st with table := table })) := by
      rw [hop]
      rfl
    rw [hcase]
    refine (ends_lift (Q := fun p m => p = t ∧ m = m0) hpatch ⟨rfl, rfl⟩).bind ?_
    rintro _ _ ⟨rfl, rfl⟩
    apply ends_bytes_then (by rw [hm0, hkept.len]; decide)
    exact ends_pure ⟨(sits_whole _).append _, rfl, (sits_end _ _).at hm0⟩
  obtain ⟨r, code, st', m, hrun, ⟨hcode, htable⟩, hdone⟩ := handle_of_switch hlow hswitch
  obtain rfl : code = AOIP_CODE_OK := hcode
  obtain ⟨m1, ho1, ho2⟩ := hdone.only
  have hat := (htable.frame ho1 (.inr (by decide))).frame ho2 (.inr le_rfl)
  have hholds : HoldsTable r t := by
    intro k hk
    have hget := hat.getD 0 (hkept.len.symm ▸ hk)
    exact hget
  have hk1 : entryFrom 0x8205 31 0 = some (174 + DRR_HDR_LEN) := by decide +kernel
  have hk2 : entryFrom 0x8301 31 0 = some (178 + DRR_HDR_LEN) := by decide +kernel
  have hmod : u32 (u32 (st.clk.cfgUs * 1000)) = u32 (st.clk.cfgUs * 1000) := Nat.mod_mod _ _
  refine ⟨r, st', hrun, ?_, ?_⟩
  · rw [property_eq hholds hkept hk1 hcur, hmod]
  · rw [property_eq hholds hkept hk2 hcur', hmod]

end

/-- Whatever came before and whatever comes between, the latency of an acknowledged request
is what a following reply to 0x1100 reports under both keys, in whole microseconds and up to
the device's maximum, as long as the setting stays what that request made it. -/
theorem acknowledged_latency_reported (prof : RateProfile) {before between : List ArcTurn} {t u : ArcTurn}
    (hbefore : ∀ w ∈ before, w.Valid) (hbetween : ∀ w ∈ between, w.Valid) (ht : t.Valid) (hu : u.Valid)
    (hset : dwRd16 (memOf t.req) 6 = ARC_OP_SET_LATENCY) (hask : dwRd16 (memOf u.req) 6 = 0x1100)
    {table r : List UInt8} {st : ArcState}
    (hok : handle prof t.env t.req (t.state table) = .ok (r, AOIP_CODE_OK, st)) (hcfg : u.clk.cfgUs = st.clk.cfgUs) :
    ∃ ns table' r' st', askedNs r = (ns, ns) ∧ arcTable prof (before ++ t :: between) = .ok table' ∧
      handle prof u.env u.req (u.state table') = .ok (r', AOIP_CODE_OK, st') ∧
      property r' 0x8205 = some (takenNs ns) ∧ property r' 0x8301 = some (takenNs ns) := by
  obtain ⟨r₁, code, st₁, hrun, hack⟩ := handle_setLatency prof t.env ht.low ht.high hset (t.state table)
  obtain ⟨rfl, rfl, rfl⟩ : r = r₁ ∧ AOIP_CODE_OK = code ∧ st = st₁ := by
    rw [hok] at hrun
    simpa only [Except.ok.injEq, Prod.mk.injEq] using hrun
  have h := hack rfl
  have hvalid : ∀ w ∈ before ++ t :: between, w.Valid := by
    intro w hw
    rcases List.mem_append.mp hw with hw | hw
    · exact hbefore w hw
    · rcases List.mem_cons.mp hw with rfl | hw
      · exact ht
      · exact hbetween w hw
  obtain ⟨table', htable', hkept⟩ := arcTable_kept prof hvalid
  obtain ⟨r', st', hreply, h1, h2⟩ := handle_properties prof u.env hu.low hask (u.state table') hkept
  have hval : u32 ((u.state table').clk.cfgUs * 1000) = takenNs (askedNs t.req).1 := by
    change u32 (u.clk.cfgUs * 1000) = _
    rw [hcfg, h.taken, cfgUs_mclkSetLatencyUs, takenNs, u32, AP_LATENCY_US_MAX]
    omega
  refine ⟨(askedNs t.req).1, table', r', st', ?_, htable', hreply, hval ▸ h1, hval ▸ h2⟩
  rw [h.echoed]
  exact Prod.ext rfl h.agree.symm

/-- A request for `ns` nanoseconds, and one for the properties. -/
def latencyRequest (ns : ℕ) : List UInt8 :=
  [0x27, 0xFF, 0x00, 0x28, 0x00, 0x01, 0x11, 0x01, 0x00, 0x00] ++ List.replicate 22 0 ++ dwWr32 ns ++ dwWr32 ns

def propertiesRequest : List UInt8 := [0x27, 0xFF, 0x00, 0x0A, 0x00, 0x02, 0x11, 0x00, 0x00, 0x00]

/-- The code and the words of the answer to a request for `ns`, and what is reported after it. -/
def reportedAfter (ns : ℕ) (st : ArcState) : Option (ℕ × (ℕ × ℕ) × Option ℕ × Option ℕ) :=
  match handle rate48k firstQuery.env (latencyRequest ns) st with
  | .error _ => none
  | .ok (r, code, st) =>
    match handle rate48k firstQuery.env propertiesRequest st with
    | .error _ => none
    | .ok (r', _, _) => some (code, askedNs r, property r' 0x8205, property r' 0x8301)

/-- Twenty milliseconds are acknowledged and echoed, and ten are reported. -/
theorem latency_beyond_maximum_reported :
    reportedAfter 20000000 (firstQuery.state arc1100Body) =
      some (AOIP_CODE_OK, (20000000, 20000000), some 10000000, some 10000000) := by
  decide +kernel

def latencyTurn (ns : ℕ) : ArcTurn := { firstQuery with req := latencyRequest ns }

/-- The properties asked for with the setting as the request before left it. -/
def propertiesTurn (clk : MediaClock) : ArcTurn := { firstQuery with req := propertiesRequest, clk := clk }

theorem propertiesTurn_valid (clk : MediaClock) : (propertiesTurn clk).Valid where
  low := (by decide : AOIP_HDR_LEN ≤ propertiesRequest.length)
  high := (by decide : propertiesRequest.length ≤ ARC_TX_LEN)
  hostname := (by decide : firstQuery.env.hostname.length ≤ 31)
  sub := subFits_boot

def replyCode : Except MsgFault (List UInt8 × ℕ × ArcState) → Option ℕ
  | .ok p => some p.2.1
  | .error _ => none

theorem acknowledged_latency_reported_five :
    ∃ r st table' r' st',
      handle rate48k firstQuery.env (latencyRequest 5000000) ((latencyTurn 5000000).state arc1100Body) = .ok (r, AOIP_CODE_OK, st) ∧
        arcTable rate48k [latencyTurn 5000000] = .ok table' ∧
        handle rate48k firstQuery.env propertiesRequest ((propertiesTurn st.clk).state table') = .ok (r', AOIP_CODE_OK, st') ∧
        property r' 0x8205 = some 5000000 ∧ property r' 0x8301 = some 5000000 := by
  obtain ⟨r, code, st, hrun, hack⟩ := handle_setLatency rate48k firstQuery.env
    (by decide : AOIP_HDR_LEN ≤ (latencyRequest 5000000).length) (by decide) (by decide) ((latencyTurn 5000000).state arc1100Body)
  have hcode : replyCode (handle rate48k firstQuery.env (latencyRequest 5000000) ((latencyTurn 5000000).state arc1100Body)) =
      some AOIP_CODE_OK := by decide +kernel
  rw [hrun] at hcode
  obtain rfl : code = AOIP_CODE_OK := Option.some.inj hcode
  obtain ⟨ns, table', r', st', hns, htable', hreply, h1, h2⟩ := acknowledged_latency_reported rate48k
    (List.forall_mem_nil _) (List.forall_mem_nil _) (t := latencyTurn 5000000) (u := propertiesTurn st.clk)
    ⟨by decide, by decide, by decide, subFits_boot⟩ (propertiesTurn_valid st.clk) (by decide)
    (by decide : dwRd16 (memOf propertiesRequest) 6 = 0x1100) hrun rfl
  have hfive : ns = 5000000 := by
    have hecho := (hack rfl).echoed
    rw [hns] at hecho
    exact (congrArg Prod.fst hecho).trans (by decide)
  subst hfive
  exact ⟨r, st, table', r', st', hrun, htable', hreply, h1, h2⟩

end Inferno
