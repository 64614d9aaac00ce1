import Inferno.Spec.Arc

/-! Pages of an ARC reply: an item table that is filled while the strings and descriptors
its offsets point at grow behind it. -/

namespace Inferno

open Lib

/-- The u16 at `i` is the offset of `item`, which lies at `lo` or beyond. -/
def PointsTo (lo : ℕ) (item r : List UInt8) (i : ℕ) : Prop := ∃ off, lo ≤ off ∧ Sits (dwWr16 off) r i ∧ Sits item r off

/-- The u16 at `i` is 0 without a string and else the offset of it. -/
def PointsToStr (lo : ℕ) (s : Option CStr) (r : List UInt8) (i : ℕ) : Prop :=
  match s with
  | none => Sits (dwWr16 0) r i
  | some s => PointsTo lo (s ++ [0]) r i

section
variable {lo a b i : ℕ} {item r r' : List UInt8}

theorem PointsTo.frame (h : PointsTo lo item r i) (ho : Only a b r r') (hi : i + 2 ≤ a ∨ b ≤ i) (hlo : b ≤ lo) :
    PointsTo lo item r' i := by
  obtain ⟨off, hoff, hat, hitem⟩ := h
  exact ⟨off, hoff, hat.frame ho (by simpa using hi), hitem.frame ho (Or.inr (hlo.trans hoff))⟩

theorem PointsToStr.frame {s : Option CStr} (h : PointsToStr lo s r i) (ho : Only a b r r') (hi : i + 2 ≤ a ∨ b ≤ i)
    (hlo : b ≤ lo) : PointsToStr lo s r' i := by
  cases s with
  | none => exact Sits.frame h ho (by simpa using hi)
  | some s => exact PointsTo.frame h ho hi hlo

theorem PointsTo.read (h : PointsTo lo item r i) (hr : r.length ≤ 1024) :
    lo ≤ dwRd16 (memOf r) i ∧ Sits item r (dwRd16 (memOf r) i) := by
  obtain ⟨off, hoff, hat, hitem⟩ := h
  have hlt : off < 2 ^ 16 := by
    have := hitem.inside
    omega
  rw [dwRd16_of_sits hat, u16_of_lt hlt]
  exact ⟨hoff, hitem⟩

end

/-- `off` is what `aoip_msg_str` returned for the string, or 0 without one. -/
def StrPlaced (lo : ℕ) (s : Option CStr) (r : List UInt8) (off : ℕ) : Prop :=
  match s with
  | none => off = 0
  | some s => lo ≤ off ∧ Sits (s ++ [0]) r off

section
variable {lo off i : ℕ} {s : Option CStr} {r r' : List UInt8}

theorem StrPlaced.frame (h : StrPlaced lo s r off) {a b : ℕ} (ho : Only a b r r') (hlo : b ≤ lo) : StrPlaced lo s r' off := by
  cases s with
  | none => exact h
  | some s => exact ⟨h.1, h.2.frame ho (Or.inr (hlo.trans h.1))⟩

theorem StrPlaced.pointsTo (h : StrPlaced lo s r off) (hat : Sits (dwWr16 off) r i) : PointsToStr lo s r i := by
  cases s with
  | none =>
    rw [show off = 0 from h] at hat
    exact hat
  | some s => exact ⟨off, h.1, hat, h.2⟩

end

theorem aoipMsgBytes_then {α : Type} (bs cs : List UInt8) (k : AoipMsg α) :
    (do aoipMsgBytes bs; aoipMsgBytes cs; k) = (do aoipMsgBytes (bs ++ cs); k) := by
  rw [← aoipMsgBytes_append, bind_assoc]

section
variable {m : List UInt8} {prof : RateProfile}

theorem ends_bytes_then {α : Type} {x : List UInt8} {k : AoipMsg α} {Q : α → List UInt8 → Prop}
    (hfit : m.length + x.length ≤ 1024) (h : Ends k (m ++ x) Q) : Ends (do aoipMsgBytes x; k) m Q :=
  (ends_bytes (Q := fun _ m' => m' = m ++ x) hfit rfl).bind fun _ _ he => he ▸ h

theorem ends_append_then {α : Type} {x : List UInt8} {k : AoipMsg α} {Q : α → List UInt8 → Prop}
    (hfit : m.length + x.length ≤ 1024) (h : ∀ m', Appended x m m' → Ends k m' Q) : Ends (do aoipMsgBytes x; k) m Q :=
  ends_bytes_then hfit (h (m ++ x) (appended m x))

theorem ends_len_then {α : Type} {k : ℕ → AoipMsg α} {Q : α → List UInt8 → Prop} (h : Ends (k m.length) m Q) :
    Ends (aoipMsgLen >>= k) m Q :=
  (ends_len (Q := fun n m' => n = m.length ∧ m' = m) ⟨rfl, rfl⟩).bind fun _ _ he => he.1 ▸ he.2 ▸ h

def commonDescriptor (prof : RateProfile) : List UInt8 :=
  dwWr32 prof.hz ++ [1] ++ [1] ++ dwWr16 AP_BITS_PER_SAMPLE ++ dwWr16 0x400 ++ dwWr16 AP_BITS_PER_SAMPLE ++
    dwWr16 AP_BITS_PER_SAMPLE ++ dwWr16 0xE

theorem ends_putCommonDescriptor (hfit : m.length + 16 ≤ 1024) :
    Ends (putCommonDescriptor prof) m fun off m' => off = m.length ∧ Appended (commonDescriptor prof) m m' := by
  apply ends_len_then
  simp only [aoipMsgU32, aoipMsgU16, aoipMsgU8, aoipMsgBytes_then]
  apply ends_append_then (x := commonDescriptor prof) hfit
  intro m' happ
  exact ends_pure ⟨u16_of_lt (by omega), happ⟩

/-- A page behind the header: its table is empty and its counts stand in front of it. -/
theorem ends_pageBegin (hm : m.length = AOIP_HDR_LEN) {itemSize space : ℕ} (hspace : space ≤ 255)
    (hfit : 12 + itemSize * space ≤ 1024) :
    Ends (pageBegin itemSize space) m fun pg m' => pg = ⟨12, itemSize, space, 0⟩ ∧
      m'.length = 12 + itemSize * space ∧ Sits m m' 0 ∧ Sits [UInt8.ofNat space] m' AOIP_HDR_LEN := by
  rw [AOIP_HDR_LEN] at hm
  simp only [pageBegin, if_neg (Nat.not_lt.mpr hspace), aoipMsgU8, aoipMsgZeros, aoipMsgBytes_then]
  apply ends_bytes_then (by simp; omega)
  apply ends_len_then
  apply ends_bytes_then (by simp; omega)
  apply ends_pure
  have hlen : (m ++ ([UInt8.ofNat space] ++ [UInt8.ofNat 0])).length = 12 := by simp [hm]
  refine ⟨by rw [hlen], by rw [List.length_append, hlen, List.length_replicate], ((sits_whole m).append _).append _, ?_⟩
  have hcounts := ((sits_end m ([UInt8.ofNat space] ++ [UInt8.ofNat 0])).append
    (List.replicate (itemSize * space) 0)).at hm
  exact (sits_append_iff.mp hcounts).1

/-- The end of a page writes the number of its items in front of them. -/
theorem ends_pageEnd {pg : PageT} (hat : pg.itemsAt = 12) (hin : 12 ≤ m.length) :
    Ends (pageEnd pg) m fun _ m' => Only 11 12 m m' ∧ Sits [UInt8.ofNat pg.actual] m' 11 ∧ m'.length = m.length := by
  have hfit : pg.itemsAt - 1 + [UInt8.ofNat pg.actual].length ≤ m.length := by
    rw [hat]
    exact hin
  refine (ends_put hfit).mono ?_
  rintro _ m' ⟨ho, hput, hlen⟩
  rw [hat] at ho hput
  exact ⟨ho, hput, hlen⟩

end

def RxChannel.shownTx (ch : RxChannel) : Option CStr := if ch.txChannel ≠ [] then some ch.txChannel else none

def RxChannel.shownHost (ch : RxChannel) : Option CStr :=
  if ch.txChannel ≠ [] ∧ ch.txDevice ≠ [] then some ch.txDevice else none

/-- Every string of the channel fits its 32-byte field. -/
structure RxChannel.Short (ch : RxChannel) : Prop where
  tx : ch.txChannel.length ≤ 31
  device : ch.txDevice.length ≤ 31
  friendly : ch.friendly.length ≤ 31

/-- Where the strings of a page of receive channels start: behind the header, the two
counts and eight items of 20 bytes. -/
def RX_STRINGS_AT : ℕ := 172

/-- The item at `i` describes channel `ch` under the number `idx`. -/
structure RxItemAt (prof : RateProfile) (ch : RxChannel) (idx : ℕ) (r : List UInt8) (i : ℕ) : Prop where
  index : Sits (dwWr16 idx) r i
  common : PointsTo RX_STRINGS_AT (commonDescriptor prof) r (i + 4)
  tx : PointsToStr RX_STRINGS_AT ch.shownTx r (i + 6)
  host : PointsToStr RX_STRINGS_AT ch.shownHost r (i + 8)
  name : PointsTo RX_STRINGS_AT (ch.friendly ++ [0]) r (i + 10)
  status : Sits (dwWr32 ch.status.word) r (i + 12)

section
variable {prof : RateProfile} {ch : RxChannel} {idx i a b : ℕ} {r r' m : List UInt8}

theorem RxItemAt.frame (h : RxItemAt prof ch idx r i) (ho : Only a b r r') (hi : i + 20 ≤ a ∨ b ≤ i)
    (hlo : b ≤ RX_STRINGS_AT) : RxItemAt prof ch idx r' i where
  index := h.index.frame ho (by rw [dwWr16_length]; omega)
  common := h.common.frame ho (by omega) hlo
  tx := h.tx.frame ho (by omega) hlo
  host := h.host.frame ho (by omega) hlo
  name := h.name.frame ho (by omega) hlo
  status := h.status.frame ho (by rw [dwWr32_length]; omega)

theorem rxItem_at {common txOff hostOff nameOff status : ℕ}
    (h : Sits (rxItem idx common txOff hostOff nameOff status) r i) :
    Sits (dwWr16 idx) r i ∧ Sits (dwWr16 common) r (i + 4) ∧ Sits (dwWr16 txOff) r (i + 6) ∧
      Sits (dwWr16 hostOff) r (i + 8) ∧ Sits (dwWr16 nameOff) r (i + 10) ∧ Sits (dwWr32 status) r (i + 12) := by
  simp only [rxItem, sits_append_iff, List.length_append, dwWr16_length, dwWr32_length, Nat.reduceAdd] at h
  obtain ⟨⟨⟨⟨⟨⟨⟨hidx, -⟩, hcommon⟩, htx⟩, hhost⟩, hname⟩, hstatus⟩, -⟩ := h
  exact ⟨hidx, hcommon, htx, hhost, hname, hstatus⟩

theorem ends_optStr {p : Prop} [Decidable p] {s : CStr} {Q : ℕ → List UInt8 → Prop} {lo : ℕ}
    (hfit : m.length + s.length + 1 ≤ 1024) (hlo : lo ≤ m.length)
    (h : ∀ off m', StrPlaced lo (if p then some s else none) m' off → m <+: m' → m'.length ≤ m.length + s.length + 1 →
      Q off m') :
    Ends (if p then aoipMsgStr s else pure 0) m Q := by
  by_cases hp : p
  · simp only [if_pos hp] at h ⊢
    refine (ends_str hfit).mono ?_
    rintro _ m' ⟨rfl, happ⟩
    refine h m.length m' ⟨hlo, happ.sits⟩ happ.start ?_
    rw [happ.length, List.length_append, List.length_singleton, Nat.add_assoc]
  · simp only [if_neg hp] at h ⊢
    exact ends_pure (h _ _ rfl (List.prefix_refl _) (by omega))

theorem ends_common {common : ℕ} {Q : ℕ → List UInt8 → Prop} (hfit : m.length + 16 ≤ 1024)
    (hm : RX_STRINGS_AT ≤ m.length)
    (hc : common = 0 ∨ RX_STRINGS_AT ≤ common ∧ Sits (commonDescriptor prof) m common)
    (h : ∀ c m', RX_STRINGS_AT ≤ c → Sits (commonDescriptor prof) m' c → m <+: m' → m'.length ≤ m.length + 16 → Q c m') :
    Ends (if common = 0 then putCommonDescriptor prof else pure common) m Q := by
  by_cases h0 : common = 0
  · rw [if_pos h0]
    refine (ends_putCommonDescriptor hfit).mono ?_
    rintro _ m' ⟨rfl, happ⟩
    exact h m.length m' hm happ.sits happ.start happ.length.le
  · rw [if_neg h0]
    obtain ⟨hlow, hsits⟩ := hc.resolve_left h0
    exact ends_pure (h _ _ hlow hsits (List.prefix_refl _) (by omega))

/-- A channel's round of the loop: its item stands, and nothing else below the end moved. -/
theorem ends_putRxChannel {common : ℕ} {pg : PageT} {Q : ℕ → List UInt8 → Prop} (hch : ch.Short)
    (hfit : m.length + 112 ≤ 1024) (hm : RX_STRINGS_AT ≤ m.length) (hslot : pageSlot pg + 20 ≤ RX_STRINGS_AT)
    (hc : common = 0 ∨ RX_STRINGS_AT ≤ common ∧ Sits (commonDescriptor prof) m common)
    (h : ∀ c m', RX_STRINGS_AT ≤ c → Sits (commonDescriptor prof) m' c → Only (pageSlot pg) (pageSlot pg + 20) m m' →
      m'.length ≤ m.length + 112 → RxItemAt prof ch idx m' (pageSlot pg) → Q c m') :
    Ends (putRxChannel prof ch idx common pg) m Q := by
  have hlen1 := hch.friendly
  have hlen2 := hch.tx
  have hlen3 := hch.device
  -- the four appends, then the slot
  refine (ends_common (Q := fun c m' => RX_STRINGS_AT ≤ c ∧ Sits (commonDescriptor prof) m' c ∧ m <+: m' ∧
    m'.length ≤ m.length + 16) (by omega) hm hc fun c m' h1 h2 h3 h4 => ⟨h1, h2, h3, h4⟩).bind ?_
  rintro c m1 ⟨hlow, hcommon, hpre1, hle1⟩
  have hm1 := hm.trans hpre1.length_le
  refine (ends_str (by omega)).bind ?_
  rintro nameOff m2 ⟨rfl, hpre2, hname, hle2⟩
  rw [List.length_append, List.length_singleton] at hle2
  refine (ends_optStr (Q := fun off m' => StrPlaced RX_STRINGS_AT ch.shownTx m' off ∧ m2 <+: m' ∧
    m'.length ≤ m2.length + ch.txChannel.length + 1) (by omega) (by omega) fun _ _ h1 h2 h3 => ⟨h1, h2, h3⟩).bind ?_
  rintro txOff m3 ⟨htx, hpre3, hle3⟩
  have hm3 := hpre3.length_le
  refine (ends_optStr (Q := fun off m' => StrPlaced RX_STRINGS_AT ch.shownHost m' off ∧ m3 <+: m' ∧
    m'.length ≤ m3.length + ch.txDevice.length + 1) (by omega) (by omega) fun _ _ h1 h2 h3 => ⟨h1, h2, h3⟩).bind ?_
  rintro hostOff m4 ⟨hhost, hpre4, hle4⟩
  have hitem : (rxItem idx c txOff hostOff m1.length ch.status.word).length = 20 := rfl
  have hin : pageSlot pg + (rxItem idx c txOff hostOff m1.length ch.status.word).length ≤ m4.length := by
    have := hpre4.length_le
    omega
  refine (ends_put hin).bind ?_
  rintro _ m5 ⟨ho, hat, hlen5⟩
  apply ends_pure
  rw [hitem] at ho
  obtain ⟨hidx, hat4, hat6, hat8, hat10, hat12⟩ := rxItem_at hat
  have hpre : m <+: m4 := hpre1.trans (hpre2.trans (hpre3.trans hpre4))
  have hcommon' := (hcommon.grow (hpre2.trans (hpre3.trans hpre4))).frame ho (by omega)
  refine h c _ hlow hcommon' ((only_of_start _ _ hpre).trans ho) ?_ ?_
  · rw [hlen5]
    omega
  · exact
      { index := hidx
        common := ⟨c, hlow, hat4, hcommon'⟩
        tx := ((htx.frame (only_of_start 0 0 hpre4) (by omega)).frame ho hslot).pointsTo hat6
        host := (hhost.frame ho hslot).pointsTo hat8
        name := ⟨m1.length, hm1, hat10,
          (hname.grow (hpre3.trans hpre4)).frame ho (by omega)⟩
        status := hat12 }

end

/-- The first `n` items of the page describe the channels from `start` on. -/
def RxPage (prof : RateProfile) (s : Sub) (start n : ℕ) (r : List UInt8) : Prop :=
  ∀ j < n, ∃ c : Fin AP_NCH, c.val + 1 = start + j ∧ RxItemAt prof (s.ch c) (start + j) r (12 + 20 * j)

/-- Where the loop over the channels stands: `pg.actual` items from `start` on, and
nothing of the buffer `m0` it began with changed but the table. -/
structure RxWalked (prof : RateProfile) (s : Sub) (start : ℕ) (m0 : List UInt8) (idx : ℕ) (pg : PageT) (m : List UInt8) :
    Prop where
  idx : idx = start + pg.actual
  itemsAt : pg.itemsAt = 12
  itemSize : pg.itemSize = 20
  actual : pg.actual ≤ AP_NCH
  only : Only 12 RX_STRINGS_AT m0 m
  page : RxPage prof s start pg.actual m

section
variable {prof : RateProfile} {s : Sub} {start n idx : ℕ} {pg : PageT} {m0 m m' : List UInt8}

theorem RxPage.frame {a b : ℕ} (h : RxPage prof s start n m) (ho : Only a b m m') (hi : 12 + 20 * n ≤ a ∨ b ≤ 12)
    (hlo : b ≤ RX_STRINGS_AT) : RxPage prof s start n m' := by
  intro j hj
  obtain ⟨c, hc, hitem⟩ := h j hj
  exact ⟨c, hc, hitem.frame ho (by omega) hlo⟩

theorem RxWalked.next (h : RxWalked prof s start m0 idx pg m) (c : Fin AP_NCH) (hc : c.val + 1 = idx)
    (hroom : pg.actual < AP_NCH) (ho : Only (pageSlot pg) (pageSlot pg + 20) m m')
    (hitem : RxItemAt prof (s.ch c) idx m' (pageSlot pg)) :
    RxWalked prof s start m0 (idx + 1) { pg with actual := pg.actual + 1 } m' := by
  have hslot : pageSlot pg = 12 + 20 * pg.actual := by
    rw [pageSlot, h.itemsAt, h.itemSize]
    omega
  have hroom' : pg.actual < 8 := hroom
  rw [hslot] at ho hitem
  refine
    { idx := by rw [h.idx]; rfl
      itemsAt := h.itemsAt
      itemSize := h.itemSize
      actual := hroom
      only := h.only.trans (ho.mono (by omega) (by rw [RX_STRINGS_AT]; omega))
      page := ?_ }
  intro j hj
  rcases Nat.lt_succ_iff_lt_or_eq.mp hj with hlt | heq
  · exact h.page.frame ho (by omega) (by rw [RX_STRINGS_AT]; omega) j hlt
  · subst heq
    exact ⟨c, hc.trans h.idx, h.idx ▸ hitem⟩

/-- The loop ends with its items in place, and it took at least one channel where one was
left. -/
theorem ends_rxChannelItems (hs : ∀ c, (s.ch c).Short) (hstart : 1 ≤ start) {room common : ℕ}
    (h : RxWalked prof s start m0 idx pg m) (hroom : pg.actual + room = AP_NCH)
    (hc : common = 0 ∨ RX_STRINGS_AT ≤ common ∧ Sits (commonDescriptor prof) m common)
    (hm : RX_STRINGS_AT ≤ m.length) (hsoft : m.length < PACKET_SIZE_SOFT_LIMIT) :
    Ends (rxChannelItems prof s room idx common pg) m fun r m' =>
      RxWalked prof s start m0 r.1 r.2 m' ∧ m'.length ≤ 911 ∧ pg.actual ≤ r.2.actual ∧
        (idx ≤ AP_NCH → pg.actual < r.2.actual) := by
  have hsoft' : m.length < 800 := hsoft
  induction room generalizing idx common pg m with
  | zero =>
    apply ends_pure
    refine ⟨h, by omega, le_rfl, fun hidx => ?_⟩
    have := h.idx
    omega
  | succ room ih =>
    by_cases hidx : idx ≤ AP_NCH
    · have hidx' : idx ≤ 8 := hidx
      have hpos : 1 ≤ idx := by rw [h.idx]; omega
      have hlt : idx - 1 < AP_NCH := by rw [AP_NCH]; omega
      have hch : subscriberChannel s (u8 (idx - 1)) = some (s.ch ⟨idx - 1, hlt⟩) := by
        have hu : u8 (idx - 1) = idx - 1 := Nat.mod_eq_of_lt (by omega)
        rw [hu, subscriberChannel, dif_pos hlt]
      have hslot : pageSlot pg + 20 ≤ RX_STRINGS_AT := by
        rw [AP_NCH] at hroom
        rw [pageSlot, h.itemsAt, h.itemSize, RX_STRINGS_AT]
        omega
      simp only [rxChannelItems, if_pos hidx, hch]
      refine (ends_putRxChannel (Q := fun c m' => RX_STRINGS_AT ≤ c ∧ Sits (commonDescriptor prof) m' c ∧
        m.length ≤ m'.length ∧ m'.length ≤ m.length + 112 ∧
        RxWalked prof s start m0 (idx + 1) { pg with actual := pg.actual + 1 } m') (hs _) (by omega) hm hslot hc ?_).bind ?_
      · intro c m' hlow hcommon ho hle hitem
        exact ⟨hlow, hcommon, ho.longer, hle, h.next ⟨idx - 1, hlt⟩ (by simp only; omega) (by omega) ho hitem⟩
      rintro c m' ⟨hlow, hcommon, hge, hle, hnext⟩
      apply ends_len_then
      by_cases hfull : m'.length ≥ PACKET_SIZE_SOFT_LIMIT
      · rw [if_pos hfull]
        exact ends_pure ⟨hnext, by omega, Nat.le_succ _, fun _ => Nat.lt_succ_self _⟩
      · rw [if_neg hfull]
        have hshort : m'.length < 800 := Nat.lt_of_not_le hfull
        refine (ih hnext (by simp only; omega) (Or.inr ⟨hlow, hcommon⟩) (hm.trans hge) hshort hshort).mono ?_
        rintro r m'' ⟨hw, hlen, hmore, -⟩
        simp only at hmore
        exact ⟨hw, hlen, by omega, fun _ => by omega⟩
    · simp only [rxChannelItems, if_neg hidx]
      exact ends_pure ⟨h, by omega, le_rfl, fun hle => absurd hle hidx⟩

/-- The index a listing starts from: 1 without one in the request. -/
def rxStart (req : List UInt8) : ℕ :=
  let start := if req.length - AOIP_HDR_LEN ≥ 4 then dwRd16 (memOf req) (AOIP_HDR_LEN + 2) else 1
  if start = 0 then 1 else start

theorem one_le_rxStart (req : List UInt8) : 1 ≤ rxStart req := by
  simp only [rxStart]
  split_ifs with h1 h2 h2 <;> omega

/-- A listing of `n` receive channels from `start` on, and the code it is sent with. -/
structure RxListed (prof : RateProfile) (s : Sub) (start n code : ℕ) (r : List UInt8) : Prop where
  count : Sits [UInt8.ofNat AP_NCH, UInt8.ofNat n] r AOIP_HDR_LEN
  page : RxPage prof s start n r
  le : n ≤ AP_NCH
  code : code = if start + n ≤ AP_NCH then AOIP_CODE_MORE else AOIP_CODE_OK
  progress : start ≤ AP_NCH → 1 ≤ n

theorem RxListed.frame {code a b : ℕ} (h : RxListed prof s start n code m) (ho : Only a b m m') (hb : b ≤ AOIP_HDR_LEN) :
    RxListed prof s start n code m' := by
  rw [AOIP_HDR_LEN] at hb
  exact { h with
    count := h.count.frame ho (Or.inr hb)
    page := h.page.frame ho (by omega) (by rw [RX_STRINGS_AT]; omega) }

theorem ends_putRxPage (hs : ∀ c, (s.ch c).Short) (hstart : 1 ≤ start) (hm : m.length = 10) :
    Ends (putRxPage prof s start) m fun code m' =>
      Sits m m' 0 ∧ m'.length ≤ 911 ∧ ∃ n, RxListed prof s start n code m' := by
  refine (ends_pageBegin hm (by decide) (by decide)).bind ?_
  rintro pg m1 ⟨rfl, hlen1, hpre, hcount⟩
  have hlow : m1.length = 172 := hlen1
  have hw : RxWalked prof s start m1 start ⟨12, 20, AP_NCH, 0⟩ m1 :=
    { idx := rfl
      itemsAt := rfl
      itemSize := rfl
      actual := Nat.zero_le _
      only := Only.refl _ _ _
      page := fun j hj => absurd hj (Nat.not_lt_zero j) }
  refine (ends_rxChannelItems hs hstart hw (Nat.zero_add _) (Or.inl rfl) hlow.ge
    (by rw [hlow, PACKET_SIZE_SOFT_LIMIT]; omega)).bind ?_
  rintro ⟨idx, pg⟩ m2 ⟨hw2, hlen2, -, hmore⟩
  have hlong := hw2.only.longer
  have hat : pg.itemsAt = 12 := hw2.itemsAt
  refine (ends_pageEnd hat (by omega)).bind ?_
  rintro _ m3 ⟨ho, hput, hlen3⟩
  apply ends_pure
  have hspace : Sits [UInt8.ofNat AP_NCH] m3 AOIP_HDR_LEN :=
    (hcount.frame hw2.only (by simp [AOIP_HDR_LEN])).frame ho (by simp [AOIP_HDR_LEN])
  have hidx : idx = start + pg.actual := hw2.idx
  refine ⟨(hpre.frame hw2.only (by omega)).frame ho (by omega), hlen3.trans_le hlen2, pg.actual, ?_⟩
  exact
    { count := (sits_append_iff (x := [UInt8.ofNat AP_NCH])).mpr ⟨hspace, hput⟩
      page := hw2.page.frame ho (Or.inr le_rfl) (by simp [RX_STRINGS_AT])
      le := hw2.actual
      code := by rw [hidx]
      progress := hmore }

theorem ends_getRxChannels {req : List UInt8} (hs : ∀ c, (s.ch c).Short) (hm : m.length = 10) :
    Ends (getRxChannels prof req s) m fun code m' =>
      Sits m m' 0 ∧ m'.length ≤ 911 ∧ ∃ n, RxListed prof s (rxStart req) n code m' := by
  have hstart : (if req.length - AOIP_HDR_LEN ≥ 4 then aoipReqU16 req (AOIP_HDR_LEN + 2) else .ok 1 :
      Except MsgFault ℕ) = .ok (if req.length - AOIP_HDR_LEN ≥ 4 then dwRd16 (memOf req) (AOIP_HDR_LEN + 2) else 1) := by
    by_cases h4 : req.length - AOIP_HDR_LEN ≥ 4
    · have hfit : AOIP_HDR_LEN + 2 + 2 ≤ req.length := by omega
      rw [if_pos h4, if_pos h4, aoipReqU16, fetch_ok hfit]
    · rw [if_neg h4, if_neg h4]
  refine (ends_lift (Q := fun v m' => v = _ ∧ m' = m) hstart ⟨rfl, rfl⟩).bind ?_
  rintro v m' ⟨rfl, rfl⟩
  exact ends_putRxPage hs (one_le_rxStart req) hm

end

end Inferno
