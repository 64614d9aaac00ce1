import Inferno.Sanity.ArcPages

/-! The list of receive flows: each item leads to a descriptor, and the descriptor to a
socket, a bitmask for each slot and a latency descriptor. -/

namespace Inferno

open Lib

/-- Where the descriptors start: behind the header, the two counts and four offsets. -/
def RX_FLOWS_AT : ℕ := 20

def socketDesc (ip : List UInt8) (f : SubscriberFlow) : List UInt8 := dwWr16 0x8002 ++ dwWr16 f.rxPort ++ ip

def latencyDesc (latencyUs : ℕ) : List UInt8 :=
  dwWr16 9 ++ dwWr16 1 ++ dwWr16 0x800 ++ dwWr16 0 ++ dwWr32 (latencyUs * 1000) ++ dwWr32 0

def flowHead (prof : RateProfile) (f : SubscriberFlow) (sock : ℕ) : List UInt8 :=
  dwWr16 (f.slot + 1) ++ dwWr16 1 ++ dwWr32 prof.hz ++ dwWr16 0 ++ dwWr16 AP_BITS_PER_SAMPLE ++ dwWr16 1 ++
    dwWr16 f.nslots ++ dwWr16 1 ++ dwWr16 sock

/-- The offsets in `masks` are those of the bitmasks of the first slots. -/
def MasksAt (f : SubscriberFlow) (masks : List ℕ) (r : List UInt8) : Prop :=
  ∀ k < masks.length, ∃ off, masks[k]? = some off ∧ RX_FLOWS_AT ≤ off ∧ Sits (dwWr16 (slotMask f k)) r off

/-- The parts of a flow and the offsets that lead from one to the next. -/
structure FlowPlaced (prof : RateProfile) (ip : List UInt8) (latencyUs : ℕ) (f : SubscriberFlow) (desc sock lat : ℕ)
    (masks : List ℕ) (r : List UInt8) : Prop where
  low : RX_FLOWS_AT ≤ desc ∧ RX_FLOWS_AT ≤ sock ∧ RX_FLOWS_AT ≤ lat
  aligned : desc % 4 = 0 ∧ sock % 4 = 0
  desc : Sits (flowHead prof f sock ++ masks.flatMap dwWr16 ++ dwWr16 lat) r desc
  socket : Sits (socketDesc ip f) r sock
  latency : Sits (latencyDesc latencyUs) r lat
  count : masks.length = f.nslots
  masks : MasksAt f masks r

/-- The item at `i` is the offset of the flow's descriptor. -/
def RxFlowAt (prof : RateProfile) (ip : List UInt8) (latencyUs : ℕ) (f : SubscriberFlow) (r : List UInt8) (i : ℕ) : Prop :=
  ∃ desc sock lat masks, Sits (dwWr16 desc) r i ∧ FlowPlaced prof ip latencyUs f desc sock lat masks r

def RxFlowPage (prof : RateProfile) (ip : List UInt8) (latencyUs : ℕ) (fl : List SubscriberFlow) (r : List UInt8) : Prop :=
  ∀ j f, fl[j]? = some f → RxFlowAt prof ip latencyUs f r (12 + 2 * j)

section
variable {prof : RateProfile} {ip : List UInt8} {latencyUs desc sock lat a b i : ℕ} {f : SubscriberFlow}
  {fl : List SubscriberFlow} {masks : List ℕ} {m r r' : List UInt8}

theorem MasksAt.frame (h : MasksAt f masks r) (ho : Only a b r r') (hb : b ≤ RX_FLOWS_AT) : MasksAt f masks r' := by
  intro k hk
  obtain ⟨off, he, hlow, hat⟩ := h k hk
  exact ⟨off, he, hlow, hat.frame ho (Or.inr (hb.trans hlow))⟩

theorem FlowPlaced.frame (h : FlowPlaced prof ip latencyUs f desc sock lat masks r) (ho : Only a b r r')
    (hb : b ≤ RX_FLOWS_AT) : FlowPlaced prof ip latencyUs f desc sock lat masks r' :=
  { h with
    desc := h.desc.frame ho (Or.inr (hb.trans h.low.1))
    socket := h.socket.frame ho (Or.inr (hb.trans h.low.2.1))
    latency := h.latency.frame ho (Or.inr (hb.trans h.low.2.2))
    masks := h.masks.frame ho hb }

theorem RxFlowAt.frame (h : RxFlowAt prof ip latencyUs f r i) (ho : Only a b r r') (hi : i + 2 ≤ a ∨ b ≤ i)
    (hb : b ≤ RX_FLOWS_AT) : RxFlowAt prof ip latencyUs f r' i := by
  obtain ⟨desc, sock, lat, masks, hat, hplaced⟩ := h
  exact ⟨desc, sock, lat, masks, hat.frame ho (by simpa using hi), hplaced.frame ho hb⟩

theorem RxFlowPage.frame (h : RxFlowPage prof ip latencyUs fl r) (ho : Only a b r r') (hi : 12 + 2 * fl.length ≤ a ∨ b ≤ 12)
    (hb : b ≤ RX_FLOWS_AT) : RxFlowPage prof ip latencyUs fl r' := by
  intro j f hf
  have hj : j < fl.length := (List.getElem?_eq_some_iff.mp hf).1
  exact (h j f hf).frame ho (by omega) hb

theorem ends_alignRounds {n : ℕ} (hfit : m.length + n ≤ 1024) (hnear : (4 - m.length % 4) % 4 ≤ n) :
    Ends (alignRounds n) m fun _ m' => m <+: m' ∧ m'.length ≤ m.length + n ∧ m'.length % 4 = 0 := by
  induction n generalizing m with
  | zero => exact ends_pure ⟨List.prefix_refl m, le_rfl, by omega⟩
  | succ n ih =>
    apply ends_len_then
    by_cases h4 : m.length % 4 = 0
    · rw [if_pos h4]
      exact ends_pure ⟨List.prefix_refl m, by omega, h4⟩
    · rw [if_neg h4]
      have hlen : (m ++ [UInt8.ofNat 0]).length = m.length + 1 := by simp
      apply ends_bytes_then (by simp; omega)
      refine (ih (by omega) (by omega)).mono ?_
      rintro _ m' ⟨hpre, hle, hal⟩
      exact ⟨(List.prefix_append m _).trans hpre, by omega, hal⟩

theorem ends_putMasks {n k : ℕ} (hn : k + n ≤ AP_MAX_CH_PER_FLOW) (hfit : m.length + 2 * n ≤ 1024)
    (hm : RX_FLOWS_AT ≤ m.length) (hk : masks.length = k) (h : MasksAt f masks m) :
    Ends (putMasks f n k masks) m fun l m' =>
      m <+: m' ∧ m'.length = m.length + 2 * n ∧ l.length = k + n ∧ MasksAt f l m' := by
  induction n generalizing k masks m with
  | zero => exact ends_pure ⟨List.prefix_refl m, rfl, hk, h⟩
  | succ n ih =>
    have hslot : checked (MsgFault.slot k) (k < AP_MAX_CH_PER_FLOW) () = .ok () := checked_ok (by omega) ()
    refine (ends_lift (Q := fun _ m' => m' = m) hslot rfl).bind ?_
    rintro _ m' rfl
    apply ends_len_then
    apply ends_bytes_then (by simp; omega)
    have hlen : (m' ++ dwWr16 (slotMask f k)).length = m'.length + 2 := by simp
    have hnext : MasksAt f (masks ++ [u16 m'.length]) (m' ++ dwWr16 (slotMask f k)) := by
      intro j hj
      rw [List.length_append, List.length_singleton] at hj
      rcases Nat.lt_succ_iff_lt_or_eq.mp hj with hlt | heq
      · obtain ⟨off, he, hlow, hat⟩ := h j hlt
        exact ⟨off, (List.getElem?_append_left hlt).trans he, hlow, hat.append _⟩
      · subst heq
        refine ⟨m'.length, ?_, hm, ?_⟩
        · rw [List.getElem?_concat_length, u16_of_lt (by omega)]
        · rw [hk]
          exact sits_end _ _
    refine (ih (by omega) (by omega) (by omega) (by simp [hk]) hnext).mono ?_
    rintro l m'' ⟨hpre, hle, hl, hmasks⟩
    exact ⟨(List.prefix_append m' _).trans hpre, by omega, by omega, hmasks⟩

theorem ends_forM_u16 {l : List ℕ} (hfit : m.length + 2 * l.length ≤ 1024) :
    Ends (l.forM aoipMsgU16) m fun _ m' => m' = m ++ l.flatMap dwWr16 := by
  induction l generalizing m with
  | nil => exact ends_pure (by simp)
  | cons v l ih =>
    rw [List.length_cons] at hfit
    change Ends (do aoipMsgU16 v; l.forM aoipMsgU16) m _
    apply ends_bytes_then (by simp; omega)
    refine (ih (by simp; omega)).mono ?_
    rintro _ m' rfl
    rw [List.flatMap_cons, List.append_assoc]

theorem ends_putSocket (hip : ip.length = 4) (hfit : m.length + 8 ≤ 1024) :
    Ends (putSocket ip f) m fun off m' => off = m.length ∧ Appended (socketDesc ip f) m m' := by
  apply ends_len_then
  simp only [aoipMsgU16, aoipMsgBytes_then]
  apply ends_append_then (by simp [hip]; omega)
  intro m' happ
  exact ends_pure ⟨u16_of_lt (by omega), happ⟩

theorem ends_putLatency (hfit : m.length + 16 ≤ 1024) :
    Ends (putLatency latencyUs) m fun off m' => off = m.length ∧ Appended (latencyDesc latencyUs) m m' := by
  apply ends_len_then
  simp only [aoipMsgU16, aoipMsgU32, aoipMsgBytes_then]
  apply ends_append_then (by simp; omega)
  intro m' happ
  exact ends_pure ⟨u16_of_lt (by omega), happ⟩

theorem ends_putFlow (hfit : m.length + 22 + 2 * masks.length ≤ 1024) :
    Ends (putFlow prof f sock lat masks) m fun off m' =>
      off = m.length ∧ Appended (flowHead prof f sock ++ masks.flatMap dwWr16 ++ dwWr16 lat) m m' := by
  apply ends_len_then
  simp only [aoipMsgU32, aoipMsgU16, aoipMsgBytes_then]
  have hhead : (flowHead prof f sock).length = 20 := rfl
  have hmasks : (masks.flatMap dwWr16).length = 2 * masks.length := by
    rw [List.length_flatMap]
    simp [Nat.mul_comm]
  apply ends_bytes_then (x := flowHead prof f sock) (by omega)
  refine (ends_forM_u16 (by rw [List.length_append, hhead]; omega)).bind ?_
  rintro _ m' rfl
  apply ends_bytes_then (by simp only [List.length_append, hhead, hmasks, dwWr16_length]; omega)
  apply ends_pure
  have happ := appended m (flowHead prof f sock ++ masks.flatMap dwWr16 ++ dwWr16 lat)
  rw [← List.append_assoc, ← List.append_assoc] at happ
  exact ⟨u16_of_lt (by omega), happ⟩

/-- A flow's round of the loop: its item stands, and nothing else below the end moved. -/
theorem RxFlowPage.snoc (h : RxFlowPage prof ip latencyUs fl r) (hf : RxFlowAt prof ip latencyUs f r (12 + 2 * fl.length)) :
    RxFlowPage prof ip latencyUs (fl ++ [f]) r := by
  intro j g hg
  rcases Nat.lt_trichotomy j fl.length with hlt | heq | hgt
  · rw [List.getElem?_append_left hlt] at hg
    exact h j g hg
  · subst heq
    rw [List.getElem?_concat_length, Option.some.injEq] at hg
    exact hg ▸ hf
  · rw [List.getElem?_eq_none (by simp; omega)] at hg
    exact absurd hg (by simp)

theorem ends_rxFlowItems (hip : ip.length = 4) {done fl : List SubscriberFlow} {pg : PageT}
    (hslots : ∀ f ∈ fl, f.nslots ≤ AP_MAX_CH_PER_FLOW) (hat : pg.itemsAt = 12) (hsize : pg.itemSize = 2)
    (hactual : pg.actual = done.length) (hspace : done.length + fl.length ≤ AP_MAX_FLOWS)
    (hfit : m.length + 84 * fl.length ≤ 1024) (hm : RX_FLOWS_AT ≤ m.length) (h : RxFlowPage prof ip latencyUs done m) :
    Ends (rxFlowItems prof ip latencyUs fl pg) m fun pg' m' =>
      pg'.itemsAt = 12 ∧ pg'.actual = (done ++ fl).length ∧ Only 12 RX_FLOWS_AT m m' ∧
        m'.length ≤ m.length + 84 * fl.length ∧ RxFlowPage prof ip latencyUs (done ++ fl) m' := by
  induction fl generalizing done pg m with
  | nil =>
    rw [List.append_nil]
    exact ends_pure ⟨hat, hactual, Only.refl _ _ _, by simp, h⟩
  | cons f fl ih =>
    have hn : f.nslots ≤ 8 := hslots f List.mem_cons_self
    rw [List.length_cons, AP_MAX_FLOWS] at hspace
    rw [List.length_cons] at hfit
    refine (ends_alignRounds (n := 3) (by omega) (by omega)).bind ?_
    rintro _ m1 ⟨hpre1, hle1, hal1⟩
    have hm1 := hm.trans hpre1.length_le
    refine (ends_putSocket hip (by omega)).bind ?_
    rintro sock m2 ⟨rfl, hpre2, hsock, hlen2⟩
    have hsize2 : (socketDesc ip f).length = 8 := by simp [socketDesc, hip]
    refine (ends_putLatency (by omega)).bind ?_
    rintro lat m3 ⟨rfl, hpre3, hlat, hlen3⟩
    have hsize3 : (latencyDesc latencyUs).length = 16 := by simp [latencyDesc]
    refine (ends_putMasks (n := f.nslots) (k := 0) (by rw [AP_MAX_CH_PER_FLOW]; omega) (by omega) (by omega) rfl
      (show MasksAt f [] m3 from fun k hk => absurd hk (Nat.not_lt_zero k))).bind ?_
    rintro masks m4 ⟨hpre4, hlen4, hcount, hmasks⟩
    refine (ends_alignRounds (n := 3) (by omega) (by omega)).bind ?_
    rintro _ m5 ⟨hpre5, hle5, hal5⟩
    have hm5 := hpre5.length_le
    refine (ends_putFlow (by omega)).bind ?_
    rintro desc m6 ⟨rfl, hpre6, hdesc, hlen6⟩
    have hsize6 : (flowHead prof f m1.length ++ masks.flatMap dwWr16 ++ dwWr16 m2.length).length = 22 + 2 * f.nslots := by
      rw [List.length_append, List.length_append, List.length_flatMap]
      simp [hcount, flowHead, Nat.mul_comm]
      omega
    have hplaced : FlowPlaced prof ip latencyUs f m5.length m1.length m2.length masks m6 :=
      { low := ⟨by omega, by omega, by omega⟩
        aligned := ⟨hal5, hal1⟩
        desc := hdesc
        socket := hsock.grow (hpre3.trans (hpre4.trans (hpre5.trans hpre6)))
        latency := hlat.grow (hpre4.trans (hpre5.trans hpre6))
        count := by omega
        masks := hmasks.frame (only_of_start 0 0 (hpre5.trans hpre6)) (Nat.zero_le _) }
    have hpre : m <+: m6 := hpre1.trans (hpre2.trans (hpre3.trans (hpre4.trans (hpre5.trans hpre6))))
    have hslot : pageSlot pg = 12 + 2 * done.length := by
      rw [pageSlot, hat, hsize, hactual]
      omega
    have hlow : 12 + 2 * done.length + 2 ≤ RX_FLOWS_AT := by
      rw [RX_FLOWS_AT]
      omega
    have hin : pageSlot pg + (dwWr16 m5.length).length ≤ m6.length := by
      rw [hslot, dwWr16_length]
      omega
    refine (ends_put hin).bind ?_
    rintro _ m7 ⟨ho, hptr, hlen7⟩
    rw [hslot] at ho hptr
    rw [dwWr16_length] at ho
    have hdone : RxFlowPage prof ip latencyUs (done ++ [f]) m7 :=
      ((h.frame (only_of_start 0 0 hpre) (Or.inr (Nat.zero_le _)) (Nat.zero_le _)).frame ho (Or.inl le_rfl) hlow).snoc
        ⟨m5.length, m1.length, m2.length, masks, hptr, hplaced.frame ho hlow⟩
    have hnext : ({ pg with actual := pg.actual + 1 } : PageT).actual = (done ++ [f]).length := by
      rw [List.length_append, ← hactual]
      rfl
    have hat' : ({ pg with actual := pg.actual + 1 } : PageT).itemsAt = 12 := hat
    refine (ih (fun g hg => hslots g (List.mem_cons_of_mem f hg)) hat' hsize hnext
      (by simp [AP_MAX_FLOWS]; omega) (by omega) (by omega) hdone).mono ?_
    rintro pg' m' ⟨hat'', hactual', ho', hle', hpage⟩
    rw [List.append_assoc, List.singleton_append] at hactual' hpage
    refine ⟨hat'', hactual', ?_, by rw [List.length_cons]; omega, hpage⟩
    exact ((only_of_start _ _ hpre).trans (ho.mono (by omega) hlow)).trans ho'

/-- The flow list of a reply: as many items as there are flows, each leading to its parts. -/
structure RxFlowsListed (prof : RateProfile) (ip : List UInt8) (latencyUs : ℕ) (fl : List SubscriberFlow) (r : List UInt8) :
    Prop where
  count : Sits [UInt8.ofNat AP_MAX_FLOWS, UInt8.ofNat fl.length] r AOIP_HDR_LEN
  page : RxFlowPage prof ip latencyUs fl r

theorem RxFlowsListed.frame (h : RxFlowsListed prof ip latencyUs fl r) (ho : Only a b r r') (hb : b ≤ AOIP_HDR_LEN) :
    RxFlowsListed prof ip latencyUs fl r' := by
  rw [AOIP_HDR_LEN] at hb
  exact ⟨h.count.frame ho (Or.inr hb), h.page.frame ho (by omega) (by rw [RX_FLOWS_AT]; omega)⟩

theorem getFlows_length (view : Fin AP_MAX_FLOWS → FlowView) : (getFlows view).length ≤ AP_MAX_FLOWS :=
  (List.length_filterMap_le _ _).trans (List.length_finRange).le

theorem getFlows_mem {view : Fin AP_MAX_FLOWS → FlowView} (hf : f ∈ getFlows view) :
    ∃ i, (view i).active = true ∧ f = ⟨i, (view i).rxPort, (view i).nslots, (view i).slotToCh⟩ := by
  obtain ⟨i, -, he⟩ := List.mem_filterMap.mp hf
  by_cases ha : (view i).active = true
  · simp only [if_pos ha, Option.some.injEq] at he
    exact ⟨i, ha, he.symm⟩
  · simp only [if_neg ha] at he
    exact absurd he (by simp)

theorem subscriberGetFlows_nslots {s : Sub}
    (hs : ∀ i, (s.flow i).state = .active → (s.flow i).req.nslots ≤ AP_MAX_CH_PER_FLOW) (hf : f ∈ subscriberGetFlows s) :
    f.nslots ≤ AP_MAX_CH_PER_FLOW := by
  obtain ⟨i, ha, rfl⟩ := getFlows_mem hf
  exact hs i (of_decide_eq_true ha)

theorem netifBytes_length (netif : Option UInt32) : (netifBytes netif).length = 4 := by
  cases netif <;> rfl

theorem ends_rxFlowPage (hip : ip.length = 4) (hcount : fl.length ≤ AP_MAX_FLOWS)
    (hslots : ∀ f ∈ fl, f.nslots ≤ AP_MAX_CH_PER_FLOW) (hm : m.length = 10) :
    Ends (rxFlowPage prof ip latencyUs fl) m fun _ m' => Sits m m' 0 ∧ m'.length ≤ 356 ∧
      RxFlowsListed prof ip latencyUs fl m' := by
  rw [AP_MAX_FLOWS] at hcount
  refine (ends_pageBegin hm (by decide) (by decide)).bind ?_
  rintro pg m1 ⟨rfl, hlen1, hpre, hspace⟩
  have hlow : m1.length = 20 := hlen1
  refine (ends_rxFlowItems hip hslots rfl rfl (List.length_nil).symm
    (by rw [List.length_nil, Nat.zero_add, AP_MAX_FLOWS]; exact hcount) (by omega) hlow.ge
    (fun j f hf => absurd hf (by simp))).bind ?_
  rintro pg m2 ⟨hat, hactual, ho2, hle2, hpage⟩
  rw [List.nil_append] at hactual hpage
  have hlong := ho2.longer
  refine (ends_pageEnd hat (by omega)).mono ?_
  rintro _ m3 ⟨ho, hput, hlen3⟩
  rw [hactual] at hput
  refine ⟨(hpre.frame ho2 (by omega)).frame ho (by omega), by omega, ?_, hpage.frame ho (Or.inr le_rfl) (by simp [RX_FLOWS_AT])⟩
  exact (sits_append_iff (x := [UInt8.ofNat AP_MAX_FLOWS])).mpr ⟨(hspace.frame ho2 (by simp [AOIP_HDR_LEN])).frame ho
    (by simp [AOIP_HDR_LEN]), hput⟩

theorem ends_rxFlows {env : ArcEnv} {st : ArcState}
    (hs : ∀ i, (st.sub.flow i).state = .active → (st.sub.flow i).req.nslots ≤ AP_MAX_CH_PER_FLOW) (hm : m.length = 10) :
    Ends (rxFlows prof env st) m fun _ m' => Sits m m' 0 ∧ m'.length ≤ 356 ∧
      RxFlowsListed prof (netifBytes env.netif) st.clk.latencyUs (subscriberGetFlows st.sub) m' :=
  ends_rxFlowPage (netifBytes_length env.netif) (getFlows_length _) (fun _ hf => subscriberGetFlows_nslots hs hf) hm

end

end Inferno
