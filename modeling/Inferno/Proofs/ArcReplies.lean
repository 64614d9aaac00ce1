import Inferno.Sanity.ArcHandlers
import Inferno.Spec.AudioRx

/-! Every request the ARC task can receive is answered inside its buffers: one step lemma
for the `switch`, one for the finished reply, and the run over the property table. -/

namespace Inferno

open Lib

/-- Every offset a reply carries leads to what it names, opcode by opcode. -/
structure ArcItems (prof : RateProfile) (env : ArcEnv) (req : List UInt8) (sub : Sub) (clk : MediaClock) (opcode code : ℕ)
    (r : List UInt8) : Prop where
  names : opcode = ARC_OP_GET_DEVICE_NAMES → NamesAt env.hostname r
  rxFlows : opcode = 0x3200 →
    RxFlowsListed prof (netifBytes env.netif) clk.latencyUs (subscriberGetFlows sub) r
  rxChannels : opcode = ARC_OP_GET_RX_CHANNELS → ∃ n, RxListed prof sub (rxStart req) n code r
  properties : opcode = 0x1100 → PropertiesAt prof clk.cfgUs r

/-- A reply that fits the buffer, counts itself, echoes its request and carries no offset
that leads elsewhere. -/
structure ArcReply (prof : RateProfile) (t : ArcTurn) (code : ℕ) (r : List UInt8) : Prop where
  fits : r.length ≤ ARC_TX_LEN
  totalLength : dwRd16 (memOf r) 2 = r.length
  startCode : r.take 2 = t.req.take 2
  seqnumOpcode : (r.drop 4).take 4 = (t.req.drop 4).take 4
  opcode2 : dwRd16 (memOf r) 8 = code
  items : ArcItems prof t.env t.req t.sub t.clk (dwRd16 (memOf t.req) 6) code r

/-- A datagram the ARC task can receive, in a state whose strings fit their fields. -/
structure ArcTurn.Valid (t : ArcTurn) : Prop where
  low : AOIP_HDR_LEN ≤ t.req.length
  high : t.req.length ≤ ARC_TX_LEN
  hostname : t.env.hostname.length ≤ 31
  sub : SubFits t.sub

section
variable {prof : RateProfile} {env : ArcEnv} {req m r r' : List UInt8} {st : ArcState} {sub : Sub} {clk : MediaClock}
  {opcode code a b : ℕ}

theorem ArcItems.frame (h : ArcItems prof env req sub clk opcode code r) (ho : Only a b r r') (hb : b ≤ AOIP_HDR_LEN) :
    ArcItems prof env req sub clk opcode code r' where
  names he := (h.names he).frame ho hb
  rxFlows he := (h.rxFlows he).frame ho hb
  rxChannels he := by
    obtain ⟨n, hn⟩ := h.rxChannels he
    exact ⟨n, hn.frame ho hb⟩
  properties he := (h.properties he).frame ho hb

/-- What the `switch` leaves behind the header `m`. -/
structure ArcBody (prof : RateProfile) (env : ArcEnv) (req : List UInt8) (st : ArcState) (opcode : ℕ) (m : List UInt8)
    (p : ℕ × ArcState) (m' : List UInt8) : Prop where
  header : Sits m m' 0
  fits : m'.length ≤ ARC_TX_LEN
  code : p.1 < 2 ^ 16
  sub : SubFits p.2.sub
  table : TableKept p.2.table
  items : ArcItems prof env req st.sub st.clk opcode p.1 m'

def offsetOpcodes : List ℕ := [ARC_OP_GET_DEVICE_NAMES, 0x3200, ARC_OP_GET_RX_CHANNELS, 0x1100]

theorem ArcItems.plain (h : opcode ∉ offsetOpcodes) : ArcItems prof env req sub clk opcode code r := by
  simp only [offsetOpcodes, List.mem_cons, List.not_mem_nil, or_false, not_or] at h
  exact ⟨fun he => absurd he h.1, fun he => absurd he h.2.1, fun he => absurd he h.2.2.1, fun he => absurd he h.2.2.2⟩

theorem aoipCodeOk_lt : AOIP_CODE_OK < 2 ^ 16 := by decide

theorem ends_plain {x : AoipMsg Unit} (hx : Ends x m fun _ m' => Sits m m' 0 ∧ m'.length ≤ ARC_TX_LEN)
    (hop : opcode ∉ offsetOpcodes) (hsub : SubFits st.sub) (htable : TableKept st.table) :
    Ends (do x; pure (AOIP_CODE_OK, st)) m (ArcBody prof env req st opcode m) := by
  refine hx.bind ?_
  intro _ m' h
  exact ends_pure ⟨h.1, h.2, aoipCodeOk_lt, hsub, htable, .plain hop⟩

theorem ends_change {α : Type} {x : Except MsgFault α} {f : α → ℕ × ArcState} {v : α} (hx : x = .ok v)
    (hm : m.length = AOIP_HDR_LEN) (hop : opcode ∉ offsetOpcodes) (hcode : (f v).1 < 2 ^ 16) (hsub : SubFits (f v).2.sub)
    (htable : TableKept (f v).2.table) :
    Ends (do let a ← StateT.lift x; pure (f a)) m (ArcBody prof env req st opcode m) := by
  refine (ends_lift (Q := fun a m' => a = v ∧ m' = m) hx ⟨rfl, rfl⟩).bind ?_
  rintro _ _ ⟨rfl, rfl⟩
  exact ends_pure ⟨sits_whole _, hm.trans_le (by decide), hcode, hsub, htable, .plain hop⟩

theorem ends_append {bs : List UInt8} (hm : m.length = AOIP_HDR_LEN) (hbs : bs.length ≤ 1014) :
    Ends (aoipMsgBytes bs) m fun _ m' => Sits m m' 0 ∧ m'.length ≤ ARC_TX_LEN := by
  rw [AOIP_HDR_LEN] at hm
  exact ends_bytes (by omega) ⟨(sits_whole m).append bs, by rw [List.length_append, ARC_TX_LEN]; omega⟩

theorem ends_channelCounts (hm : m.length = AOIP_HDR_LEN) :
    Ends channelCounts m fun _ m' => Sits m m' 0 ∧ m'.length ≤ ARC_TX_LEN := by
  simp only [channelCounts, aoipMsgU8, aoipMsgU16, aoipMsgZeros, aoipMsgBytes_append]
  exact ends_append hm (by decide)

theorem ends_emptyPage (hm : m.length = AOIP_HDR_LEN) :
    Ends emptyPage m fun _ m' => Sits m m' 0 ∧ m'.length ≤ ARC_TX_LEN := by
  refine (ends_pageBegin hm (by decide) (by decide)).bind ?_
  rintro pg m1 ⟨rfl, hlen, hpre, -⟩
  refine (ends_pageEnd rfl hlen.ge).mono ?_
  rintro _ m' ⟨ho, -, hlen'⟩
  refine ⟨hpre.frame ho (Or.inl ?_), ?_⟩
  · rw [hm, AOIP_HDR_LEN]
    omega
  · rw [hlen', hlen, ARC_TX_LEN]
    omega

theorem ends_deviceName (hhost : env.hostname.length ≤ 31) (hm : m.length = AOIP_HDR_LEN) :
    Ends (aoipMsgStr env.hostname) m fun _ m' => Sits m m' 0 ∧ m'.length ≤ ARC_TX_LEN := by
  rw [AOIP_HDR_LEN] at hm
  refine (ends_str (by omega)).mono ?_
  rintro _ m' ⟨-, hpre, -, hlen⟩
  refine ⟨sits_of_start hpre, ?_⟩
  rw [hlen, List.length_append, List.length_singleton, ARC_TX_LEN]
  omega

theorem ends_namesCase (hm : m.length = AOIP_HDR_LEN) (hhost : env.hostname.length ≤ 31) (hsub : SubFits st.sub)
    (htable : TableKept st.table) :
    Ends (do deviceNames env.hostname; pure (AOIP_CODE_OK, st)) m
      (ArcBody prof env req st ARC_OP_GET_DEVICE_NAMES m) := by
  refine (ends_deviceNames hhost hm).bind ?_
  rintro _ m' ⟨hpre, hfits, hnames⟩
  refine ends_pure ⟨hpre, hfits.trans (by decide), aoipCodeOk_lt, hsub, htable, ?_⟩
  exact ⟨fun _ => hnames, fun h => absurd h (by decide), fun h => absurd h (by decide), fun h => absurd h (by decide)⟩

theorem ends_rxFlowsCase (hm : m.length = AOIP_HDR_LEN) (hsub : SubFits st.sub) (htable : TableKept st.table) :
    Ends (do rxFlows prof env st; pure (AOIP_CODE_OK, st)) m (ArcBody prof env req st 0x3200 m) := by
  refine (ends_rxFlows hsub.slots hm).bind ?_
  rintro _ m' ⟨hpre, hfits, hflows⟩
  refine ends_pure ⟨hpre, hfits.trans (by decide), aoipCodeOk_lt, hsub, htable, ?_⟩
  exact ⟨fun h => absurd h (by decide), fun _ => hflows, fun h => absurd h (by decide), fun h => absurd h (by decide)⟩

theorem ends_rxChannelsCase (hm : m.length = AOIP_HDR_LEN) (hsub : SubFits st.sub) (htable : TableKept st.table) :
    Ends (do let code ← getRxChannels prof req st.sub; pure (code, st)) m
      (ArcBody prof env req st ARC_OP_GET_RX_CHANNELS m) := by
  refine (ends_getRxChannels hsub.short hm).bind ?_
  rintro code m' ⟨hpre, hfits, n, hlisted⟩
  have hcode : code < 2 ^ 16 := by
    rw [hlisted.code]
    split_ifs <;> decide
  refine ends_pure ⟨hpre, hfits.trans (by decide), hcode, hsub, htable, ?_⟩
  exact ⟨fun h => absurd h (by decide), fun h => absurd h (by decide), fun _ => ⟨n, hlisted⟩, fun h => absurd h (by decide)⟩

theorem ends_propertiesCase (hm : m.length = AOIP_HDR_LEN) (hsub : SubFits st.sub) (htable : TableKept st.table) :
    Ends (do
      let table ← StateT.lift (patchTable prof st)
      aoipMsgBytes table
      pure (AOIP_CODE_OK, { st with table := table })) m (ArcBody prof env req st 0x1100 m) := by
  obtain ⟨t, hrun, ht, hprops⟩ := propertiesAt_patchTable prof htable hm
  refine (ends_lift (Q := fun p m' => p = t ∧ m' = m) hrun ⟨rfl, rfl⟩).bind ?_
  rintro _ _ ⟨rfl, rfl⟩
  refine (ends_bytes (Q := fun _ m' => m' = _) (by rw [hm, ht.len]; decide) rfl).bind ?_
  rintro _ _ rfl
  refine ends_pure ⟨(sits_whole _).append _, ?_, aoipCodeOk_lt, hsub, ht, ?_⟩
  · rw [List.length_append, hm, ht.len]
    decide
  · exact ⟨fun h => absurd h (by decide), fun h => absurd h (by decide), fun h => absurd h (by decide), fun _ => hprops⟩

theorem ends_arcSwitch (hm : m.length = AOIP_HDR_LEN) (hlen : req.length ≤ ARC_TX_LEN) (hhost : env.hostname.length ≤ 31)
    (hsub : SubFits st.sub) (htable : TableKept st.table) :
    Ends (arcSwitch prof env req st opcode) m (ArcBody prof env req st opcode m) := by
  have hbad : CODE_UNSUPPORTED < 2 ^ 16 ∧ 0x30 < 2 ^ 16 := by decide
  have hshort : m.length ≤ ARC_TX_LEN := hm.trans_le (by decide)
  unfold arcSwitch
  by_cases h1 : opcode = ARC_OP_CHANNEL_COUNTS
  · rw [if_pos h1]
    exact ends_plain (ends_channelCounts hm) (h1 ▸ by decide) hsub htable
  rw [if_neg h1]
  by_cases h2 : opcode = ARC_OP_GET_DEVICE_NAME
  · rw [if_pos h2]
    refine (ends_deviceName hhost hm).bind ?_
    intro _ m' h
    exact ends_pure ⟨h.1, h.2, aoipCodeOk_lt, hsub, htable, .plain (h2 ▸ by decide)⟩
  rw [if_neg h2]
  by_cases h3 : opcode = ARC_OP_GET_DEVICE_NAMES
  · rw [if_pos h3]
    subst h3
    exact ends_namesCase hm hhost hsub htable
  rw [if_neg h3]
  by_cases h4 : opcode = ARC_OP_GET_TX_CHANNELS ∨ opcode = 0x2010 ∨ opcode = 0x2200 ∨ opcode = 0x2204
  · rw [if_pos h4]
    have hop : opcode ∉ offsetOpcodes := by
      rcases h4 with h | h | h | h <;> exact h ▸ by decide
    exact ends_plain (ends_emptyPage hm) hop hsub htable
  rw [if_neg h4]
  by_cases h5 : opcode = 0x3200
  · rw [if_pos h5]
    subst h5
    exact ends_rxFlowsCase hm hsub htable
  rw [if_neg h5]
  by_cases h6 : opcode = ARC_OP_GET_RX_CHANNELS
  · rw [if_pos h6]
    subst h6
    exact ends_rxChannelsCase hm hsub htable
  rw [if_neg h6]
  by_cases h7 : opcode = ARC_OP_RENAME_RX_CHANNELS
  · rw [if_pos h7]
    obtain ⟨sub', code, hrun, hsub', hcode⟩ := renameRxChannels_ok req hsub
    exact ends_change hrun hm (h7 ▸ by decide) hcode hsub' htable
  rw [if_neg h7]
  by_cases h8 : opcode = ARC_OP_SET_SUBSCRIPTIONS
  · rw [if_pos h8]
    obtain ⟨sub', hrun, hsub'⟩ := setSubscriptions_ok req hsub
    exact ends_change hrun hm (h8 ▸ by decide) aoipCodeOk_lt hsub' htable
  rw [if_neg h8]
  by_cases h9 : opcode = 0x3014
  · rw [if_pos h9]
    obtain ⟨sub', hrun, hsub'⟩ := unsubscribe_ok req hsub
    exact ends_change hrun hm (h9 ▸ by decide) aoipCodeOk_lt hsub' htable
  rw [if_neg h9]
  by_cases h10 : opcode = 0x3300
  · rw [if_pos h10]
    simp only [aoipMsgU16, aoipMsgBytes_then]
    exact ends_plain (ends_append hm (by decide)) (h10 ▸ by decide) hsub htable
  rw [if_neg h10]
  by_cases h11 : opcode = 0x1100
  · rw [if_pos h11]
    subst h11
    exact ends_propertiesCase hm hsub htable
  rw [if_neg h11]
  by_cases h12 : opcode = 0x1102
  · rw [if_pos h12]
    exact ends_plain (ends_append hm (by decide +kernel)) (h12 ▸ by decide) hsub htable
  rw [if_neg h12]
  by_cases h13 : opcode = ARC_OP_SET_LATENCY
  · rw [if_pos h13]
    refine (ends_setLatency hm hlen).bind ?_
    rintro ⟨code, clk⟩ m' ⟨hcode, hpre, hfits⟩
    exact ends_pure ⟨hpre, hfits, hcode, hsub, htable, .plain (h13 ▸ by decide)⟩
  rw [if_neg h13]
  have hop : opcode ∉ offsetOpcodes := by
    simp only [offsetOpcodes, List.mem_cons, List.not_mem_nil, or_false, not_or]
    exact ⟨h3, h5, h6, h11⟩
  by_cases h14 : opcode = 0x2320 ∨ opcode = 0x4100
  · rw [if_pos h14]
    exact ends_pure ⟨sits_whole m, hshort, hbad.2, hsub, htable, .plain hop⟩
  rw [if_neg h14]
  by_cases h15 : opcode = 0x2032
  · rw [if_pos h15]
    exact ends_plain (ends_append hm (by decide)) hop hsub htable
  rw [if_neg h15]
  exact ends_pure ⟨sits_whole m, hshort, hbad.1, hsub, htable, .plain hop⟩

end

section
variable {req m : List UInt8}

theorem sits_bytesAt {b : List UInt8} {i n : ℕ} (h : i + n ≤ b.length) : Sits (bytesAt (memOf b) i n) b i := by
  refine ⟨by rwa [bytesAt_length], fun k hk => ?_⟩
  rw [bytesAt_length] at hk
  rw [bytesAt, List.getElem?_map, List.getElem?_range hk, Option.map_some, memOf, List.getD_eq_getElem?_getD,
    List.getElem?_eq_getElem (by omega), Option.getD_some]

theorem aoipMsgBegin_ok (h : AOIP_HDR_LEN ≤ req.length) :
    ∃ m, aoipMsgBegin req = .ok m ∧ m.length = AOIP_HDR_LEN ∧ Sits (bytesAt (memOf req) 0 2) m 0 ∧
      Sits (bytesAt (memOf req) 4 4) m 4 := by
  rw [AOIP_HDR_LEN] at h
  refine ⟨[memOf req 0, memOf req 1, 0, 0, memOf req 4, memOf req 5, memOf req 6, memOf req 7, 0, 0], ?_, rfl, ?_, ?_⟩
  · rw [aoipMsgBegin, reqByte_ok (by omega), ok_bind, reqByte_ok (by omega), ok_bind, reqByte_ok (by omega), ok_bind,
      reqByte_ok (by omega), ok_bind, reqByte_ok (by omega), ok_bind, reqByte_ok (by omega), ok_bind]
  · exact sits_iff.mpr ⟨by simp, rfl⟩
  · exact sits_iff.mpr ⟨by simp, rfl⟩

theorem ends_aoipMsgFinish (code : ℕ) (hm : AOIP_HDR_LEN ≤ m.length) :
    Ends (aoipMsgFinish code) m fun len m' => len = m.length ∧ m'.length = m.length ∧
      Sits (dwWr16 m.length) m' 2 ∧ Sits (dwWr16 code) m' 8 ∧ ∃ m1, Only 2 4 m m1 ∧ Only 8 10 m1 m' := by
  rw [AOIP_HDR_LEN] at hm
  apply ends_len_then
  have hin : 2 + (dwWr16 m.length).length ≤ m.length := by
    rw [dwWr16_length]
    omega
  refine (ends_put hin).bind ?_
  rintro _ m1 ⟨ho1, hat1, hlen1⟩
  have hin' : 8 + (dwWr16 code).length ≤ m1.length := by
    rw [dwWr16_length]
    omega
  refine (ends_put hin').bind ?_
  rintro _ m2 ⟨ho2, hat2, hlen2⟩
  apply ends_len
  exact ⟨hlen2.trans hlen1, hlen2.trans hlen1, hat1.frame ho2 (by simp), hat2, m1, ho1, ho2⟩

/-- A handled request: what the `switch` left, and the header the reply got. -/
structure Handled (req : List UInt8) (code : ℕ) (m r : List UInt8) : Prop where
  same : r.length = m.length
  only : ∃ m1, Only 2 4 m m1 ∧ Only 8 10 m1 r
  totalLength : Sits (dwWr16 r.length) r 2
  opcode2 : Sits (dwWr16 code) r 8
  startCode : Sits (bytesAt (memOf req) 0 2) r 0
  seqnumOpcode : Sits (bytesAt (memOf req) 4 4) r 4

theorem respond_of_body {α : Type} {x : AoipMsg (ℕ × α)} {Q : ℕ × α → List UInt8 → Prop} (hlow : AOIP_HDR_LEN ≤ req.length)
    (hbody : ∀ m0, m0.length = AOIP_HDR_LEN → Ends x m0 fun p m => Sits m0 m 0 ∧ Q p m) :
    ∃ r code a m, respond req x = .ok (r, code, a) ∧ Q (code, a) m ∧ Handled req code m r := by
  have h10 : 10 ≤ req.length := hlow
  obtain ⟨m0, hbegin, hm0, hstart, hseq⟩ := aoipMsgBegin_ok hlow
  obtain ⟨⟨code, a⟩, m, hrun, hheader, hq⟩ := hbody m0 hm0
  have hm : AOIP_HDR_LEN ≤ m.length := by
    have := hheader.inside
    omega
  obtain ⟨len, r, hfinish, hlen, hlen', htotal, hcode, m', ho1, ho2⟩ := ends_aoipMsgFinish code hm
  have hkeep {x : List UInt8} {i : ℕ} (hx : Sits x m i) (hi : i + x.length ≤ 2 ∨ 4 ≤ i ∧ i + x.length ≤ 8) : Sits x r i :=
    (hx.frame ho1 (by omega)).frame ho2 (by omega)
  refine ⟨r, code, a, m, ?_, hq, ?_⟩
  · rw [respond, hbegin, ok_bind, hrun, ok_bind]
    change (aoipMsgFinish code m >>= fun p => .ok (p.2.take p.1, code, a)) = _
    rw [hfinish, ok_bind, hlen, ← hlen', List.take_length]
  · exact
      { same := hlen'
        only := ⟨m', ho1, ho2⟩
        totalLength := hlen'.symm ▸ htotal
        opcode2 := hcode
        startCode := hkeep (hheader.part hstart) (by simp)
        seqnumOpcode := hkeep (hheader.part hseq) (by simp) }

theorem handle_eq_respond (prof : RateProfile) (env : ArcEnv) (hlow : AOIP_HDR_LEN ≤ req.length) (st : ArcState) :
    handle prof env req st = respond req (arcSwitch prof env req st (dwRd16 (memOf req) 6)) := by
  have h10 : 10 ≤ req.length := hlow
  rw [handle, aoipReqU16_ok (by omega), ok_bind]
  rfl

theorem handle_of_switch {prof : RateProfile} {env : ArcEnv} {st : ArcState} {Q : ℕ × ArcState → List UInt8 → Prop}
    (hlow : AOIP_HDR_LEN ≤ req.length)
    (hswitch : ∀ m0, m0.length = AOIP_HDR_LEN →
      Ends (arcSwitch prof env req st (dwRd16 (memOf req) 6)) m0 fun p m => Sits m0 m 0 ∧ Q p m) :
    ∃ r code st' m, handle prof env req st = .ok (r, code, st') ∧ Q (code, st') m ∧ Handled req code m r := by
  rw [handle_eq_respond prof env hlow]
  exact respond_of_body hlow hswitch

theorem handle_ok (prof : RateProfile) {t : ArcTurn} (ht : t.Valid) {table : List UInt8} (htable : TableKept table) :
    ∃ r code st', handle prof t.env t.req (t.state table) = .ok (r, code, st') ∧ ArcReply prof t code r ∧
      SubFits st'.sub ∧ TableKept st'.table := by
  have hlow : 10 ≤ t.req.length := ht.low
  obtain ⟨r, code, st', m, hrun, ⟨m0, hbody⟩, hdone⟩ := handle_of_switch
    (Q := fun p m => ∃ m0, ArcBody prof t.env t.req (t.state table) (dwRd16 (memOf t.req) 6) m0 p m) ht.low
    fun m0 hm0 => (ends_arcSwitch hm0 ht.high ht.hostname ht.sub htable).mono fun _ _ h => ⟨h.header, m0, h⟩
  have hfits : m.length ≤ 1024 := hbody.fits
  have hsame := hdone.same
  obtain ⟨m1, ho1, ho2⟩ := hdone.only
  refine ⟨r, code, st', hrun, ?_, hbody.sub, hbody.table⟩
  exact
    { fits := hsame.trans_le hfits
      totalLength := by rw [dwRd16_of_sits hdone.totalLength, u16_of_lt (by omega)]
      startCode := by
        have h1 := hdone.startCode.take_drop
        have h2 := (sits_bytesAt (b := t.req) (i := 0) (n := 2) (by omega)).take_drop
        rw [bytesAt_length] at h1 h2
        exact h1.trans h2.symm
      seqnumOpcode := by
        have h1 := hdone.seqnumOpcode.take_drop
        have h2 := (sits_bytesAt (b := t.req) (i := 4) (n := 4) (by omega)).take_drop
        rw [bytesAt_length] at h1 h2
        exact h1.trans h2.symm
      opcode2 := by rw [dwRd16_of_sits hdone.opcode2, u16_of_lt hbody.code]
      items := (hbody.items.frame ho1 (by decide)).frame ho2 (by decide) }

end

theorem arcTable_kept (prof : RateProfile) {l : List ArcTurn} (hl : ∀ t ∈ l, t.Valid) :
    ∃ table, arcTable prof l = .ok table ∧ TableKept table := by
  refine foldlM_keeps (fun table htable u hu => ?_) tableKept_init
  obtain ⟨r, code, st', hrun, -, -, hkept⟩ := handle_ok prof (hl u hu) htable
  exact ⟨st'.table, by rw [arcServe, hrun, ok_bind], hkept⟩

/-- Whatever requests came before, the next one is answered without leaving the request or
the reply buffer: the reply fits, counts itself, echoes the request, and each offset in it
leads to its item; the strings of the subscriptions still fit their fields after it. -/
theorem arc_replies_sound (prof : RateProfile) {l : List ArcTurn} (hl : ∀ t ∈ l, t.Valid) {t : ArcTurn} (ht : t.Valid) :
    ∃ table, arcTable prof l = .ok table ∧ ∃ r code st', handle prof t.env t.req (t.state table) = .ok (r, code, st') ∧
      ArcReply prof t code r ∧ SubFits st'.sub := by
  obtain ⟨table, hrun, htable⟩ := arcTable_kept prof hl
  obtain ⟨r, code, st', hhandle, hreply, hsub, -⟩ := handle_ok prof ht htable
  exact ⟨table, hrun, r, code, st', hhandle, hreply, hsub⟩

/-- A controller asking a fresh device for its receive channels. -/
def firstQuery : ArcTurn where
  env := ⟨[0x72, 0x78], none, ⟨ptpv1State0, none, 0⟩⟩
  req := [0x27, 0xFF, 0x00, 0x0E, 0x00, 0x01, 0x30, 0x00, 0x00, 0x00, 0x00, 0x00, 0x00, 0x01]
  sub := Sub.boot
  clk := mclkInit rate48k none (jbStart (fun _ => 0) 0 0) ⟨0, 0, 0, 0, 0, 0, 0, 0, fun _ => 0⟩

/-- Outputs 1, 2 and 5 receive two channels of the device `A` and one of `B`, the first two
over one flow. -/
def listening : Sub :=
  { Sub.boot with
    ch := fun c =>
      if c = 0 then ⟨[0x30, 0x31], [0x41], [0x4C], .active⟩
      else if c = 1 then ⟨[0x30, 0x32], [0x41], [0x52], .active⟩
      else if c = 4 then ⟨[0x30, 0x31], [0x42], [], .active⟩
      else ⟨[], [], [], .none⟩
    flow := fun i =>
      if i = 0 then { FlowSlot.zero with
        state := .active, device := [0x41], req := ⟨0xA9FE0101, 14336, [1, 2], 16, 14336, ""⟩, slotToCh := [0, 1] }
      else if i = 2 then { FlowSlot.zero with
        state := .active, device := [0x42], req := ⟨0xA9FE0102, 14338, [1], 16, 14338, ""⟩, slotToCh := [4] }
      else FlowSlot.zero }

theorem subFits_listening : SubFits listening where
  short c := ⟨by revert c; decide, by revert c; decide, by revert c; decide⟩
  slots := by decide

/-- It is asked for its properties and its channels. -/
def earlierQueries : List ArcTurn :=
  [{ firstQuery with req := [0x27, 0xFF, 0x00, 0x0A, 0x00, 0x01, 0x11, 0x00, 0x00, 0x00], sub := listening },
    { firstQuery with sub := listening }]

def flowsQuery : ArcTurn :=
  { firstQuery with req := [0x27, 0xFF, 0x00, 0x0A, 0x00, 0x03, 0x32, 0x00, 0x00, 0x00], sub := listening }

theorem arc_replies_sound_listening :
    ∃ table, arcTable rate48k earlierQueries = .ok table ∧
      ∃ r code st', handle rate48k flowsQuery.env flowsQuery.req (flowsQuery.state table) = .ok (r, code, st') ∧
        ArcReply rate48k flowsQuery code r ∧ SubFits st'.sub := by
  refine arc_replies_sound rate48k ?_ ⟨by decide, by decide, by decide, subFits_listening⟩
  intro t ht
  simp only [earlierQueries, List.mem_cons, List.not_mem_nil, or_false] at ht
  rcases ht with rfl | rfl
  · exact ⟨by decide, by decide, by decide, subFits_listening⟩
  · exact ⟨by decide, by decide, by decide, subFits_listening⟩

end Inferno
