import Inferno.Sanity.InfoReading

/-! What the info datagrams say. The tasks build every message over the one before in the
same buffer; still each datagram is the message of its state and nothing else, numbered in
the order they go out, and a reader gets back what was meant. -/

namespace Inferno

open Lib

variable {mac : Mem}

/-- From `x` to `x'` the notes of `l` went out and nothing else. -/
structure Tells (mac : Mem) (l : List (ℕ → InfoNote)) (x x' : InfoTx) : Prop where
  sent : x'.sent = x.sent ++ (told x.seq l).map (InfoNote.dgram mac)
  seq : x'.seq = (fun k => u16 (k + 1))^[l.length] x.seq
  apt : ∀ n ∈ told x.seq l, n.Apt mac
  buf : x'.buf.length = INFO_BUF_LEN

/-- The call goes through and tells the notes of `l`. -/
def Sends (mac : Mem) (l : List (ℕ → InfoNote)) (x : InfoTx) (y : Except MsgFault InfoTx) : Prop :=
  ∃ x', y = .ok x' ∧ Tells mac l x x'

theorem told_append (seq : ℕ) (l m : List (ℕ → InfoNote)) :
    told seq (l ++ m) = told seq l ++ told ((fun k => u16 (k + 1))^[l.length] seq) m := by
  induction l generalizing seq with
  | nil => rfl
  | cons f l ih => rw [List.cons_append, told, told, ih, List.length_cons, Function.iterate_succ_apply, List.cons_append]

theorem Tells.trans {l m : List (ℕ → InfoNote)} {x x' x'' : InfoTx} (h : Tells mac l x x') (h' : Tells mac m x' x'') :
    Tells mac (l ++ m) x x'' where
  sent := by rw [h'.sent, h.sent, h.seq, told_append, List.map_append, List.append_assoc]
  seq := by rw [h'.seq, h.seq, List.length_append, Nat.add_comm, Function.iterate_add_apply]
  apt n hn := by
    rw [told_append, List.mem_append, ← h.seq] at hn
    exact hn.elim (h.apt n) (h'.apt n)
  buf := h'.buf

theorem Sends.bind {l m : List (ℕ → InfoNote)} {x : InfoTx} {y : Except MsgFault InfoTx} {f : InfoTx → Except MsgFault InfoTx}
    (h : Sends mac l x y) (hf : ∀ x', x'.buf.length = INFO_BUF_LEN → Sends mac m x' (f x')) :
    Sends mac (l ++ m) x (y >>= f) := by
  obtain ⟨x', rfl, hx'⟩ := h
  obtain ⟨x'', hrun, hx''⟩ := hf x' hx'.buf
  exact ⟨x'', hrun, hx'.trans hx''⟩

theorem tells_nothing (mac : Mem) {x : InfoTx} (hx : x.buf.length = INFO_BUF_LEN) : Tells mac [] x x where
  sent := by rw [told, List.map_nil, List.append_nil]
  seq := rfl
  apt := List.forall_mem_nil _
  buf := hx

theorem sends_nothing {x : InfoTx} (hx : x.buf.length = INFO_BUF_LEN) : Sends mac [] x (.ok x) :=
  ⟨x, rfl, tells_nothing mac hx⟩

theorem header_patched (n : InfoNote) (len : ℕ) (body : List UInt8) :
    overwrite (n.header mac 0 ++ body) 2 (dwWr16 len) = n.header mac len ++ body := by
  simp [overwrite, InfoNote.header, dwWr16]

theorem sends_note {f : ℕ → InfoNote} {x : InfoTx} {l : Puts} {k : ℕ} (hd : Draws mac l (f x.seq))
    (hk : (f x.seq).len mac = k)
    (hx : x.buf.length = INFO_BUF_LEN) : Sends mac [f] x (sendTo (f x.seq).ip (f x.seq).port l k x) := by
  have hlong : MCAST_HDR_LEN ≤ k := hk ▸ Nat.le_add_right _ _
  have hfits : k ≤ INFO_BUF_LEN := hk ▸ hd.apt.fits
  have hreach : reach 0 (l ++ [putU16 2 k]) = k := by
    rw [reach_append, hd.reach, hk]
    exact max_eq_left ((show 2 + 2 ≤ MCAST_HDR_LEN by decide).trans hlong)
  have hgap : Gapless 0 (l ++ [putU16 2 k]) := by
    rw [gapless_append, hd.reach, hk]
    exact ⟨hd.gapless, (show 2 ≤ MCAST_HDR_LEN by decide).trans hlong, trivial⟩
  have hpaint : painted [] (l ++ [putU16 2 k]) = (f x.seq).header mac k ++ (f x.seq).msg.body mac := by
    rw [painted_append, hd.drawn]
    exact header_patched _ _ _
  obtain ⟨b, hrun, hpre, hlen⟩ := storeIn_painted (e := MsgFault.patch) (p := []) (b := x.buf) List.nil_prefix hgap
    (by rw [hx]; exact hreach.trans_le hfits)
  have htake : b.take k = (f x.seq).header mac k ++ (f x.seq).msg.body mac := by
    have hkl : (painted [] (l ++ [putU16 2 k])).length = k := (length_painted (p := []) hgap).trans hreach
    rw [List.prefix_iff_eq_take.mp hpre, hkl] at hpaint
    exact hpaint
  refine ⟨⟨b, u16 (x.seq + 1), x.sent ++ [(f x.seq).dgram mac]⟩, ?_, rfl, rfl, ?_, hlen.trans hx⟩
  · rw [sendTo, hrun, ok_bind, fetch_ok (by rw [hlen, hx]; omega), ok_bind, htake, InfoNote.dgram, hk]
    rfl
  · exact List.forall_mem_singleton.mpr hd.apt

theorem sends_info {ip : List UInt8} {port : ℕ} {hi lo : UInt8} {l : Puts} {k : ℕ} {msg : InfoMsg} (h : Bodies mac l k msg)
    (hkind : msg.Kind lo) {x : InfoTx} (hx : x.buf.length = INFO_BUF_LEN) :
    Sends mac [sayInfo ip port hi lo msg] x (sendInfo mac ip port hi lo l k x) := by
  obtain ⟨hd, hlen⟩ := draws_info (n := sayInfo ip port hi lo msg x.seq) rfl h.start h.gapless h.drawn h.reach h.fits hkind
  exact sends_note (f := sayInfo ip port hi lo msg) hd hlen hx

theorem echoed_ok {req : List UInt8} (hreq : MCAST_HDR_LEN ≤ req.length) (lo : UInt8) :
    echoed req lo = .ok ((bytesAt (memOf req) 24 8).set 3 lo, dwRd16 (memOf req) 4) := by
  rw [echoed, fetch_ok hreq, ok_bind, aoipReqU16, fetch_ok (by unfold MCAST_HDR_LEN at hreq; omega), ok_bind]
  rfl

theorem sends_reply {req : List UInt8} {lo : UInt8} {l : Puts} {k : ℕ} {msg : InfoMsg} (h : Bodies mac l k msg)
    (hkind : msg.Kind lo) (hreq : MCAST_HDR_LEN ≤ req.length) {x : InfoTx} (hx : x.buf.length = INFO_BUF_LEN) :
    Sends mac [sayReply req lo msg] x (echoed req lo >>= fun e =>
      sendTo GRP_DEVINFO AOIP_PORT_INFO (putHdrSeq mac 0xFFFF e.1 e.2 ++ shifted MCAST_HDR_LEN l) (MCAST_HDR_LEN + k) x) := by
  obtain ⟨hd, hlen⟩ := draws_info (n := sayReply req lo msg x.seq) (by simp [sayReply]) h.start h.gapless h.drawn h.reach
    h.fits (by simpa [sayReply, List.getD_eq_getElem?_getD] using hkind)
  rw [echoed_ok hreq, ok_bind]
  exact sends_note (f := sayReply req lo msg) hd hlen hx

section
variable {b : RateBuild} {halfDb : ℕ → UInt8} {x : InfoTx} {s : InfoSys}

theorem sends_device (ip : List UInt8) (port : ℕ) (hx : x.buf.length = INFO_BUF_LEN) :
    Sends mac [sayDevice ip port] x (sendDeviceInfo mac ip port x) :=
  sends_info bodies_board (kind_plain (by decide)) hx

theorem sends_product (ip : List UInt8) (port : ℕ) (hx : x.buf.length = INFO_BUF_LEN) :
    Sends mac [sayProduct ip port] x (sendProductInfo mac ip port x) :=
  sends_info bodies_product (kind_plain (by decide)) hx

theorem sends_network (net : Option NetInfo) (ip : List UInt8) (port : ℕ) (hx : x.buf.length = INFO_BUF_LEN) :
    Sends mac (sayNetwork net ip port) x (sendNetworkInfo mac net ip port x) := by
  cases net with
  | none => exact sends_nothing hx
  | some ni => exact sends_info (bodies_network mac ni) rfl hx

theorem sends_clock (g : Ptpv1State) (hx : x.buf.length = INFO_BUF_LEN) {req : Option (List UInt8)}
    (hreq : ∀ r, req = some r → MCAST_HDR_LEN ≤ r.length) : Sends mac (sayClock g req) x (sendClockStats mac g req x) := by
  unfold sendClockStats sayClock
  split_ifs
  · exact sends_nothing hx
  · cases req with
    | none => exact sends_info (bodies_clock _ _ _ _) rfl hx
    | some r => exact sends_reply (bodies_clock _ _ _ _) rfl (hreq r rfl) hx

theorem sends_caps (hz : ℕ) (ip : List UInt8) (port : ℕ) (hx : x.buf.length = INFO_BUF_LEN) :
    Sends mac (sayCaps hz ip port) x (sendCaps mac hz ip port x) := by
  refine Sends.bind (l := [sayInfo ip port 0x00 0x80 (.rates hz)]) (sends_info (bodies_rates _ hz) rfl hx) fun x₁ hx₁ => ?_
  refine Sends.bind (l := [_]) (sends_info bodies_encoding (kind_plain (by decide)) hx₁) fun x₂ hx₂ => ?_
  refine Sends.bind (l := [_]) (sends_info (bodies_one _ (by decide)) (kind_plain (by decide)) hx₂) fun x₃ hx₃ => ?_
  exact sends_info (bodies_one _ (by decide)) (kind_plain (by decide)) hx₃

theorem sends_all (mac : Mem) (s : InfoSys) (hx : x.buf.length = INFO_BUF_LEN) :
    Sends mac (sayAll s) x (announce mac s x) := by
  refine Sends.bind (sends_device _ _ hx) fun x₁ hx₁ => ?_
  refine Sends.bind (sends_product _ _ hx₁) fun x₂ hx₂ => ?_
  refine Sends.bind (sends_network _ _ _ hx₂) fun x₃ hx₃ => ?_
  refine Sends.bind (sends_clock _ hx₃ (by simp)) fun x₄ hx₄ => ?_
  exact sends_caps _ _ _ hx₄

/-! The two notes that follow an agreed rate. -/

theorem sends_resets (mac : Mem) (hx : x.buf.length = INFO_BUF_LEN) :
    Sends mac [sayInfo GRP_DEVINFO AOIP_PORT_INFO 0x01 0x00 (.plain (painted [] [(0, [1, 1, 0, 0, 0, 0, 0, 2])]))] x
      (sendInfo mac GRP_DEVINFO AOIP_PORT_INFO 0x01 0x00 [(0, [1, 1, 0, 0, 0, 0, 0, 2])] 8 x) :=
  sends_info (bodies_one _ (by decide)) (kind_plain (by decide)) hx

theorem sends_empty (mac : Mem) (hx : x.buf.length = INFO_BUF_LEN) :
    Sends mac [sayInfo GRP_DEVINFO AOIP_PORT_INFO 0x01 0x06 (.plain (painted [] []))] x
      (sendInfo mac GRP_DEVINFO AOIP_PORT_INFO 0x01 0x06 [] 0 x) :=
  sends_info (bodies_plain (l := []) _ trivial rfl (by decide)) (kind_plain (by decide)) hx

theorem heartbeatOf_shaped (halfDb : ℕ → UInt8) (seq hz : ℕ) (g : Ptpv1State) (rx : AoipRx) :
    (heartbeatOf halfDb seq hz g rx).1.Shaped where
  peaks := by simp [heartbeatOf]
  latency := rfl
  missed := by simp [heartbeatOf]

theorem sends_heartbeat (mac : Mem) (halfDb : ℕ → UInt8) (s : InfoSys) (hx : s.tx.buf.length = INFO_BUF_LEN) :
    ∃ s', sendHeartbeat mac halfDb s = .ok s' ∧
      Tells mac [fun seq => heartbeatNote (heartbeatOf halfDb seq s.prof.hz s.g s.rx).1] s.tx s'.tx := by
  obtain ⟨hd, hlen⟩ := draws_heartbeat mac (heartbeatOf_shaped halfDb s.tx.seq s.prof.hz s.g s.rx)
  obtain ⟨x', hrun, hx'⟩ :=
    sends_note (f := fun seq => heartbeatNote (heartbeatOf halfDb seq s.prof.hz s.g s.rx).1) hd hlen hx
  refine ⟨{ s with tx := x', rx := (heartbeatOf halfDb s.tx.seq s.prof.hz s.g s.rx).2 }, ?_, hx'⟩
  dsimp only [heartbeatNote] at hrun
  rw [sendHeartbeat, hrun, ok_bind]
  rfl

theorem sends_turn (mac : Mem) (b : RateBuild) (halfDb : ℕ → UInt8) (now : ℤ) (hx : s.tx.buf.length = INFO_BUF_LEN) :
    ∃ s', announceTurn mac halfDb now s = .ok s' ∧ Tells mac (s.notes b halfDb (.turn now)) s.tx s'.tx := by
  simp only [announceTurn, InfoSys.notes]
  by_cases hip : s.ourIp.isNone = true
  · rw [if_pos hip, if_pos hip]
    exact ⟨s, rfl, tells_nothing mac hx⟩
  rw [if_neg hip, if_neg hip]
  by_cases hdue : now ≥ s.nextAnnounce
  · rw [if_pos hdue, if_pos hdue]
    obtain ⟨x, hrun, hall⟩ := sends_all mac s hx
    obtain ⟨s', hrun', hbeat⟩ := sends_heartbeat mac halfDb
      { s with tx := x, nextAnnounce := now + INFO_ANNOUNCE_MS } hall.buf
    exact ⟨s', by rw [hrun, ok_bind, hrun'], hall.trans hbeat⟩
  · rw [if_neg hdue, if_neg hdue]
    exact sends_heartbeat mac halfDb s hx

theorem setTx_ok {l : List (ℕ → InfoNote)} {y : Except MsgFault InfoTx} (h : Sends mac l s.tx y) :
    ∃ s', s.setTx y = .ok s' ∧ Tells mac l s.tx s'.tx := by
  obtain ⟨x', rfl, hx'⟩ := h
  exact ⟨{ s with tx := x' }, rfl, hx'⟩

theorem sends_rateSet {req : List UInt8} (hreq : MCAST_HDR_LEN + 8 ≤ req.length) (t : NvsTry)
    (hx : s.tx.buf.length = INFO_BUF_LEN) :
    ∃ s', handleRateSet mac b req t s = .ok s' ∧ Tells mac (sayRateSet b req t s) s.tx s'.tx := by
  have hlong : MCAST_HDR_LEN ≤ req.length := (Nat.le_add_right _ _).trans hreq
  have hreply : ∀ hz x, x.buf.length = INFO_BUF_LEN →
      Sends mac [sayReply req 0x80 (.rates hz)] x (sendRateTable mac GRP_DEVINFO AOIP_PORT_INFO (some req) hz x) :=
    fun hz x hx => sends_reply (bodies_rates _ hz) rfl hlong hx
  rw [handleRateSet, aoipReqU32, fetch_ok (by unfold MCAST_HDR_LEN at hreq; omega), ok_bind, sayRateSet]
  dsimp only
  split_ifs with hsame hbad
  · exact setTx_ok (hreply _ _ hx)
  · exact setTx_ok (s := { s with stored := (rateRequest b (dwRd32 (memOf req) 36) t s.stored).2 }) (hreply _ _ hx)
  · obtain ⟨x₁, h₁, hx₁⟩ := hreply (dwRd32 (memOf req) 36) _ hx
    obtain ⟨x₂, h₂, hx₂⟩ := sends_resets mac hx₁.buf
    obtain ⟨x₃, h₃, hx₃⟩ := sends_empty mac hx₂.buf
    refine ⟨{ s with tx := x₃, stored := (rateRequest b (dwRd32 (memOf req) 36) t s.stored).2, restart := true }, ?_,
      hx₁.trans (hx₂.trans hx₃)⟩
    rw [h₁, ok_bind, h₂, ok_bind, h₃, ok_bind]
    rfl

theorem isRateSet_ok (req : List UInt8) :
    isRateSet req = .ok (decide (MCAST_HDR_LEN + 8 ≤ req.length ∧ bytesAt (memOf req) 32 4 = [0, 0, 0, 1])) := by
  unfold isRateSet
  split_ifs with hlen
  · rw [fetch_ok (by unfold MCAST_HDR_LEN at hlen; omega), ok_bind]
    simp [hlen]
  · simp [hlen]

theorem sends_answer (mac : Mem) (b : RateBuild) (src : List UInt8) (sport : ℕ) (req : List UInt8) (t : NvsTry)
    (hx : s.tx.buf.length = INFO_BUF_LEN) :
    ∃ s', infoRx mac b src sport req t s = .ok s' ∧ Tells mac (sayAnswer b src sport req t s) s.tx s'.tx := by
  unfold infoRx sayAnswer
  by_cases hshort : req.length < MCAST_HDR_LEN
  · rw [if_pos hshort, if_pos hshort]
    exact setTx_ok (sends_nothing hx)
  rw [if_neg hshort, if_neg hshort, reqByte, fetch_ok (by unfold MCAST_HDR_LEN at hshort; omega), ok_bind]
  dsimp only
  split_ifs with h60 hc0 h13 h21 h81 hset h83
  · exact setTx_ok (sends_device _ _ hx)
  · exact setTx_ok (sends_product _ _ hx)
  · exact setTx_ok (sends_network _ _ _ hx)
  · exact setTx_ok (sends_clock _ hx fun r hr => by rw [← Option.some_injective _ hr]; exact not_lt.mp hshort)
  · rw [isRateSet_ok, decide_eq_true hset, ok_bind]
    exact sends_rateSet hset.1 t hx
  · rw [isRateSet_ok, decide_eq_false hset, ok_bind]
    exact setTx_ok (sends_caps _ _ _ hx)
  · exact setTx_ok (sends_caps _ _ _ hx)
  · exact setTx_ok (sends_nothing hx)

theorem infoBoot_tx (pin : Option Bool) (readable : Bool) (s : InfoSys) :
    (infoBoot b pin readable s).tx = { buf := List.replicate INFO_BUF_LEN 0, seq := 0, sent := s.tx.sent } := by
  rw [infoBoot, rateSelect_eq]

theorem notes_next (mac : Mem) (b : RateBuild) (halfDb : ℕ → UInt8) (hx : s.tx.buf.length = INFO_BUF_LEN) (e : InfoEvent) :
    ∃ s', infoNext mac b halfDb s e = .ok s' ∧ s'.tx.buf.length = INFO_BUF_LEN ∧
      s'.tx.sent = s.tx.sent ++ (told s.tx.seq (s.notes b halfDb e)).map (InfoNote.dgram mac) ∧
        s'.tx.seq = (if s.resets e then 0 else (fun k => u16 (k + 1))^[(s.notes b halfDb e).length] s.tx.seq) ∧
          ∀ n ∈ told s.tx.seq (s.notes b halfDb e), n.Apt mac := by
  obtain ⟨hquiet, -, hnone, -⟩ := tells_nothing mac hx
  have hboot : ∀ pin readable, (infoBoot b pin readable s).tx.buf.length = INFO_BUF_LEN := fun pin readable => by
    rw [infoBoot_tx]
    exact List.length_replicate
  have hkeeps : ∀ pin readable, (infoBoot b pin readable s).tx.sent = s.tx.sent := fun pin readable => by
    rw [infoBoot_tx]
  have hzero : ∀ pin readable, (infoBoot b pin readable s).tx.seq = 0 := fun pin readable => by
    rw [infoBoot_tx]
  cases e with
  | turn now =>
    obtain ⟨s', hrun, ht⟩ := sends_turn mac b halfDb now hx
    exact ⟨s', hrun, ht.buf, ht.sent, ht.seq, ht.apt⟩
  | request src sport req t =>
    obtain ⟨s', hrun, ht⟩ := sends_answer mac b src sport req t hx
    exact ⟨s', hrun, ht.buf, ht.sent, ht.seq, ht.apt⟩
  | notify mask =>
    obtain ⟨s', hrun, ht⟩ : ∃ s', notifyRxChange mac mask s = .ok s' ∧
        Tells mac (s.notes b halfDb (.notify mask)) s.tx s'.tx := by
      simp only [notifyRxChange, InfoSys.notes]
      split_ifs
      · exact setTx_ok (sends_nothing hx)
      · exact setTx_ok (sends_info (bodies_changed _ mask) rfl hx)
    exact ⟨s', hrun, ht.buf, ht.sent, ht.seq, ht.apt⟩
  | world net g rx => exact ⟨_, rfl, hx, hquiet, rfl, hnone⟩
  | restart pin readable =>
    by_cases harmed : s.restart = true
    · exact ⟨infoBoot b pin readable s, by rw [infoNext, if_pos harmed], hboot _ _, (hkeeps _ _).trans hquiet,
        (hzero _ _).trans (if_pos harmed).symm, hnone⟩
    · exact ⟨s, by rw [infoNext, if_neg harmed], hx, hquiet, (if_neg harmed).symm, hnone⟩
  | boot pin readable => exact ⟨_, rfl, hboot _ _, (hkeeps _ _).trans hquiet, hzero _ _, hnone⟩

end

theorem infoRun_ok (mac : Mem) (b : RateBuild) (halfDb : ℕ → UInt8) (s : InfoSys) (hs : s.tx.buf.length = INFO_BUF_LEN)
    (l : List InfoEvent) : ∃ s', infoRun mac b halfDb s l = .ok s' ∧ s'.tx.buf.length = INFO_BUF_LEN := by
  induction l generalizing s with
  | nil => exact ⟨s, rfl, hs⟩
  | cons e l ih =>
    obtain ⟨s₁, hstep, hs₁, -⟩ := notes_next mac b halfDb hs e
    obtain ⟨s', hrun, hs'⟩ := ih s₁ hs₁
    refine ⟨s', ?_, hs'⟩
    rw [infoRun, List.foldlM_cons, hstep, ok_bind]
    exact hrun

/-- After any run from any flash content, an event sends the datagrams of what it has the
device say and nothing else, numbered on from the ones since the last reset; no store or
fetch leaves its bounds, and a reader gets each note back. -/
theorem info_notes (mac : Mem) (b : RateBuild) (halfDb : ℕ → UInt8) (pin : Option Bool) (readable : Bool) (stored : Option ℕ)
    (l : List InfoEvent) (e : InfoEvent) :
    ∃ s s', infoRun mac b halfDb (infoStart b pin readable stored) l = .ok s ∧ infoNext mac b halfDb s e = .ok s' ∧
      s'.tx.sent = s.tx.sent ++ (told s.tx.seq (s.notes b halfDb e)).map (InfoNote.dgram mac) ∧
        s'.tx.seq = (if s.resets e then 0 else (fun k => u16 (k + 1))^[(s.notes b halfDb e).length] s.tx.seq) ∧
          ∀ n ∈ told s.tx.seq (s.notes b halfDb e), readNote mac (n.dgram mac) = some n.wire := by
  obtain ⟨s, hrun, hs⟩ := infoRun_ok mac b halfDb (infoStart b pin readable stored)
    List.length_replicate l
  obtain ⟨s', hstep, -, hsent, hseq, hapt⟩ := notes_next mac b halfDb hs e
  exact ⟨s, s', hrun, hstep, hsent, hseq, fun n hn => read_note (hapt n hn)⟩

end Inferno
