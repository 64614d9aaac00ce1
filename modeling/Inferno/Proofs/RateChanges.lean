import Inferno.Proofs.InfoDatagrams

/-! A sample rate that a controller asks for. The board answers, stores the rate, and
restarts half a second later; more requests, failing flash and power cuts come in between.
What it agreed to is what it comes up with, and every rate table it sends names the rate
it runs at or the one it agreed to. -/

namespace Inferno

open Lib

section
variable (mac : Mem) (b : RateBuild) (halfDb : ℕ → UInt8)

/-- The rate agreed to once the request is answered; a write that fails and lands all the
same leaves it open. -/
def agreedSet (req : List UInt8) (t : NvsTry) (s : InfoSys) (a : Option ℕ) : Option ℕ :=
  let hz := dwRd32 (memOf req) 36
  let r := rateRequest b hz t s.stored
  if hz = s.prof.hz then a
  else if r.1 = .ok then some hz
  else if r.2 = s.stored then a
  else none

def RateSets (req : List UInt8) : Prop :=
  MCAST_HDR_LEN + 8 ≤ req.length ∧ memOf req 27 = 0x81 ∧ bytesAt (memOf req) 32 4 = [0, 0, 0, 1]

instance (req : List UInt8) : Decidable (RateSets req) :=
  inferInstanceAs (Decidable (_ ≤ req.length ∧ memOf req 27 = 0x81 ∧ bytesAt (memOf req) 32 4 = [0, 0, 0, 1]))

def agreedNext (s : InfoSys) (a : Option ℕ) : InfoEvent → Option ℕ
  | .request _ _ req t => if RateSets req then agreedSet b req t s a else a
  | .restart _ _ => if s.restart then none else a
  | .boot _ _ => none
  | _ => a

def agreed : InfoSys → Option ℕ → List InfoEvent → Option ℕ
  | _, a, [] => a
  | s, a, e :: l =>
    match infoNext mac b halfDb s e with
    | .ok s' => agreed s' (agreedNext b s a e) l
    | .error _ => a

end

def InfoEvent.readable : InfoEvent → Bool
  | .restart _ readable => readable
  | .boot _ readable => readable
  | _ => true

/-- The board runs at a rate it has a profile for, and a rate it agreed to lies in flash
with the restart on its way. -/
structure Pledged (b : RateBuild) (s : InfoSys) (a : Option ℕ) : Prop where
  prof : s.prof = rateProfile s.prof.hz
  runs : rateSupported s.prof.hz = true
  pinned : b.pinned = true → s.prof.hz = b.default
  flash : ∀ hz, a = some hz → s.stored = some hz
  coming : ∀ hz, a = some hz → s.restart = true
  free : ∀ hz, a = some hz → b.pinned = false ∧ rateSupported hz = true

/-- What the board owes the controllers over an event, `a` agreed before it: the rate moves
in a reset only, a reset that can read flash comes up at the agreed rate, the timer runs
for an agreement only, and a rate table names the running rate or the agreed one. -/
structure Honours (b : RateBuild) (halfDb : ℕ → UInt8) (s s' : InfoSys) (a : Option ℕ) (e : InfoEvent) : Prop where
  runs : s'.prof = rateProfile s'.prof.hz ∧ rateSupported s'.prof.hz = true
  pinned : b.pinned = true → s'.prof.hz = b.default
  steady : s.resets e = false → s'.prof = s.prof
  comesUp : ∀ hz, a = some hz → s.resets e = true → e.readable = true → s'.prof = rateProfile hz
  stored : ∀ hz, agreedNext b s a e = some hz → s'.stored = some hz ∧ s'.restart = true
  asked : s'.restart = true → s.restart = true ∨ ∃ hz, agreedNext b s a e = some hz
  named : ∀ n ∈ told s.tx.seq (s.notes b halfDb e), ∀ r, n.msg = .rates r → r = s.prof.hz ∨ agreedNext b s a e = some r

variable {mac : Mem} {b : RateBuild} {halfDb : ℕ → UInt8} {s s' : InfoSys} {a : Option ℕ} {e : InfoEvent}

theorem rateRequest_ok {hz : ℕ} {t : NvsTry} {stored : Option ℕ} (h : (rateRequest b hz t stored).1 = .ok) :
    (b.pinned = false ∧ rateSupported hz = true) ∧ (rateRequest b hz t stored).2 = some hz := by
  unfold rateRequest at h ⊢
  by_cases hp : b.pinned = true
  · rw [if_pos hp] at h
    cases h
  by_cases hs : (!rateSupported hz) = true
  · rw [if_neg hp, if_pos hs] at h
    cases h
  by_cases ho : t.opens ≠ .ok
  · rw [if_neg hp, if_neg hs, if_pos ho] at h
    exact absurd h ho
  rw [if_neg hp, if_neg hs, if_neg ho] at h ⊢
  exact ⟨⟨Bool.eq_false_of_not_eq_true hp, by simpa using hs⟩, if_pos (Or.inl h)⟩

theorem rateWanted_stored {hz : ℕ} (hp : b.pinned = false) (hhz : rateSupported hz = true) (pin : Option Bool) :
    rateWanted b pin true (some hz) = hz := by
  have hne : hz ≠ 0 := by
    rintro rfl
    exact absurd hhz (by decide)
  simp [rateWanted, nvsRate, hp, hhz, hne]

theorem rateWanted_pinned (hp : b.pinned = true) (pin : Option Bool) (readable : Bool) (stored : Option ℕ) :
    rateWanted b pin readable stored = b.default := by
  cases pin <;> simp [rateWanted, pinRate, hp]

theorem infoBoot_rate (pin : Option Bool) (readable : Bool) (s : InfoSys) :
    (infoBoot b pin readable s).prof = rateProfile (rateWanted b pin readable s.stored) ∧
      (infoBoot b pin readable s).restart = false := by
  rw [infoBoot, rateSelect_eq]
  exact ⟨rfl, rfl⟩

/-- The rate, what flash holds of it and the timer are as before. -/
def RateSame (s s' : InfoSys) : Prop := s'.prof = s.prof ∧ s'.stored = s.stored ∧ s'.restart = s.restart

theorem rateSame_setTx {y : Except MsgFault InfoTx} (h : s.setTx y = .ok s') : RateSame s s' := by
  cases y with
  | error err => exact absurd h (by simp [InfoSys.setTx, Except.map])
  | ok x =>
    obtain rfl : { s with tx := x } = s' := by simpa [InfoSys.setTx, Except.map] using h
    exact ⟨rfl, rfl, rfl⟩

theorem rateSame_ok (h : Except.ok s = (Except.ok s' : Except MsgFault InfoSys)) : RateSame s s' := by
  obtain rfl := Except.ok.inj h
  exact ⟨rfl, rfl, rfl⟩

theorem rateSame_heartbeat (h : sendHeartbeat mac halfDb s = .ok s') : RateSame s s' := by
  obtain ⟨x, -, hx⟩ := of_bind_ok h
  obtain rfl := Except.ok.inj hx
  exact ⟨rfl, rfl, rfl⟩

theorem rateSame_turn {now : ℤ} (h : announceTurn mac halfDb now s = .ok s') : RateSame s s' := by
  unfold announceTurn at h
  split_ifs at h
  · exact rateSame_ok h
  · obtain ⟨x, -, hx⟩ := of_bind_ok h
    exact rateSame_heartbeat (s := { s with tx := x, nextAnnounce := now + INFO_ANNOUNCE_MS }) hx
  · exact rateSame_heartbeat h

theorem rateSame_notify {mask : ℕ} (h : notifyRxChange mac mask s = .ok s') : RateSame s s' := by
  unfold notifyRxChange at h
  split_ifs at h
  · exact rateSame_ok h
  · exact rateSame_setTx h

section
variable {src : List UInt8} {sport : ℕ} {req : List UInt8} {t : NvsTry}

theorem infoRx_sets (hreq : RateSets req) : infoRx mac b src sport req t s = handleRateSet mac b req t s := by
  obtain ⟨hlong, hq, hset⟩ := hreq
  have hhdr : ¬req.length < MCAST_HDR_LEN := by omega
  have hq' : memOf req (24 + 3) = 0x81 := hq
  rw [infoRx, if_neg hhdr, reqByte, fetch_ok (by unfold MCAST_HDR_LEN at hhdr; omega), ok_bind, hq', if_neg (by decide),
    if_neg (by decide), if_neg (by decide), if_neg (by decide), if_pos rfl, isRateSet_ok,
    decide_eq_true ⟨hlong, hset⟩, ok_bind]
  rfl

theorem rateSame_infoRx (hreq : ¬RateSets req) (h : infoRx mac b src sport req t s = .ok s') : RateSame s s' := by
  unfold infoRx at h
  by_cases hshort : req.length < MCAST_HDR_LEN
  · rw [if_pos hshort] at h
    exact rateSame_ok h
  rw [if_neg hshort, reqByte, fetch_ok (by unfold MCAST_HDR_LEN at hshort; omega), ok_bind] at h
  split_ifs at h with h60 hc0 h13 h21 h81 h83
  · exact rateSame_setTx h
  · exact rateSame_setTx h
  · exact rateSame_setTx h
  · exact rateSame_setTx h
  · have hno : ¬(MCAST_HDR_LEN + 8 ≤ req.length ∧ bytesAt (memOf req) 32 4 = [0, 0, 0, 1]) := fun hset =>
      hreq ⟨hset.1, h81, hset.2⟩
    rw [isRateSet_ok, decide_eq_false hno, ok_bind] at h
    exact rateSame_setTx h
  · exact rateSame_setTx h
  · exact rateSame_ok h

/-- A rate set leaves the running rate, stores what `rate_request` does, and sets the timer
when that is fine. -/
theorem rate_handleRateSet (h : handleRateSet mac b req t s = .ok s') :
    let hz := dwRd32 (memOf req) 36
    let r := rateRequest b hz t s.stored
    s'.prof = s.prof ∧ s'.stored = (if hz = s.prof.hz then s.stored else r.2) ∧
      s'.restart = (if hz ≠ s.prof.hz ∧ r.1 = .ok then true else s.restart) := by
  intro hz r
  obtain ⟨v, hv, h⟩ := of_bind_ok h
  obtain rfl : hz = v := by
    unfold aoipReqU32 fetch checked at hv
    split_ifs at hv
    exact Except.ok.inj hv
  by_cases hsame : hz = s.prof.hz
  · rw [if_pos hsame] at h
    rw [if_pos hsame, if_neg fun hn => hn.1 hsame]
    exact rateSame_setTx h
  rw [if_neg hsame] at h
  dsimp only at h
  rw [if_neg hsame]
  by_cases hok : r.1 = .ok
  · rw [if_neg (not_not.mpr hok)] at h
    obtain ⟨x₁, -, h⟩ := of_bind_ok h
    obtain ⟨x₂, -, h⟩ := of_bind_ok h
    obtain ⟨x₃, -, h⟩ := of_bind_ok h
    obtain rfl := Except.ok.inj h
    rw [if_pos ⟨hsame, hok⟩]
    exact ⟨rfl, rfl, rfl⟩
  · rw [if_pos hok] at h
    rw [if_neg fun hn => hok hn.2]
    exact rateSame_setTx h

end

/-- What an event does to the rate: nothing, what a rate set does, or what a boot does. -/
theorem rate_next (a : Option ℕ) (hn : infoNext mac b halfDb s e = .ok s') :
    (RateSame s s' ∧ s.resets e = false ∧ agreedNext b s a e = a) ∨
      (∃ req t, handleRateSet mac b req t s = .ok s' ∧ s.resets e = false ∧ agreedNext b s a e = agreedSet b req t s a) ∨
      (∃ pin, s' = infoBoot b pin e.readable s ∧ s.resets e = true ∧ agreedNext b s a e = none) := by
  cases e with
  | turn now => exact Or.inl ⟨rateSame_turn hn, rfl, rfl⟩
  | request src sport req t =>
    rw [infoNext] at hn
    by_cases hreq : RateSets req
    · rw [infoRx_sets hreq] at hn
      exact Or.inr (Or.inl ⟨req, t, hn, rfl, if_pos hreq⟩)
    · exact Or.inl ⟨rateSame_infoRx hreq hn, rfl, if_neg hreq⟩
  | notify mask => exact Or.inl ⟨rateSame_notify hn, rfl, rfl⟩
  | world net g rx =>
    obtain rfl := Except.ok.inj hn
    exact Or.inl ⟨⟨rfl, rfl, rfl⟩, rfl, rfl⟩
  | restart pin readable =>
    obtain rfl := Except.ok.inj hn
    by_cases harmed : s.restart = true
    · exact Or.inr (Or.inr ⟨pin, if_pos harmed, harmed, if_pos harmed⟩)
    · rw [if_neg harmed]
      exact Or.inl ⟨⟨rfl, rfl, rfl⟩, Bool.eq_false_of_not_eq_true harmed, if_neg harmed⟩
  | boot pin readable => exact Or.inr (Or.inr ⟨pin, (Except.ok.inj hn).symm, rfl, rfl⟩)

theorem mem_told {n : InfoNote} {seq : ℕ} {l : List (ℕ → InfoNote)} (h : n ∈ told seq l) : ∃ f ∈ l, ∃ k, n = f k := by
  induction l generalizing seq with
  | nil => exact absurd h List.not_mem_nil
  | cons f l ih =>
    rcases List.mem_cons.mp h with rfl | h
    · exact ⟨f, List.mem_cons_self, seq, rfl⟩
    · obtain ⟨g, hg, k, hk⟩ := ih h
      exact ⟨g, List.mem_cons_of_mem _ hg, k, hk⟩

/-- The rate tables among the notes name rates of `P`. -/
def Names (P : ℕ → Prop) (l : List (ℕ → InfoNote)) : Prop := ∀ f ∈ l, ∀ k r, (f k).msg = .rates r → P r

theorem Names.mono {P Q : ℕ → Prop} {l : List (ℕ → InfoNote)} (h : Names P l) (hPQ : ∀ r, P r → Q r) : Names Q l :=
  fun f hf k r hr => hPQ r (h f hf k r hr)

theorem names_nil {P : ℕ → Prop} : Names P [] := fun _ h => absurd h List.not_mem_nil

theorem names_append {P : ℕ → Prop} {l m : List (ℕ → InfoNote)} (hl : Names P l) (hm : Names P m) : Names P (l ++ m) :=
  fun f hf => (List.mem_append.mp hf).elim (hl f) (hm f)

theorem names_other {P : ℕ → Prop} {f : ℕ → InfoNote} (h : ∀ k r, (f k).msg ≠ .rates r) : Names P [f] :=
  List.forall_mem_singleton.mpr fun k r hr => absurd hr (h k r)

theorem names_network (net : Option NetInfo) (ip : List UInt8) (port : ℕ) {P : ℕ → Prop} :
    Names P (sayNetwork net ip port) := by
  cases net with
  | none => exact names_nil
  | some ni => exact names_other fun k r h => InfoMsg.noConfusion h

theorem names_clock (g : Ptpv1State) (req : Option (List UInt8)) {P : ℕ → Prop} : Names P (sayClock g req) := by
  unfold sayClock
  split_ifs
  · exact names_nil
  · cases req with
    | none => exact names_other fun k r h => InfoMsg.noConfusion h
    | some req => exact names_other fun k r h => InfoMsg.noConfusion h

theorem names_caps (hz : ℕ) (ip : List UInt8) (port : ℕ) : Names (· = hz) (sayCaps hz ip port) := by
  intro f hf k r hr
  simp only [sayCaps, List.mem_cons, List.not_mem_nil, or_false] at hf
  rcases hf with rfl | rfl | rfl | rfl
  · exact (InfoMsg.rates.inj hr).symm
  all_goals exact InfoMsg.noConfusion hr

theorem names_all (s : InfoSys) : Names (· = s.prof.hz) (sayAll s) :=
  names_append (names_other fun _ _ h => InfoMsg.noConfusion h)
    (names_append (names_other fun _ _ h => InfoMsg.noConfusion h)
      (names_append (names_network _ _ _) (names_append (names_clock _ _) (names_caps _ _ _))))

theorem names_rateSet (req : List UInt8) (t : NvsTry) (s : InfoSys) (a : Option ℕ) :
    Names (fun r => r = s.prof.hz ∨ agreedSet b req t s a = some r) (sayRateSet b req t s) := by
  intro f hf k r hr
  simp only [sayRateSet] at hf
  split_ifs at hf with hsame hbad
  · obtain rfl := List.mem_singleton.mp hf
    exact Or.inl ((InfoMsg.rates.inj hr).symm.trans hsame)
  · obtain rfl := List.mem_singleton.mp hf
    exact Or.inl (InfoMsg.rates.inj hr).symm
  · simp only [List.mem_cons, List.not_mem_nil, or_false] at hf
    rcases hf with rfl | rfl | rfl
    · refine Or.inr ?_
      rw [agreedSet, if_neg hsame, if_pos (not_not.mp hbad)]
      exact congrArg some (InfoMsg.rates.inj hr)
    · exact InfoMsg.noConfusion hr
    · exact InfoMsg.noConfusion hr

theorem names_answer (src : List UInt8) (sport : ℕ) (req : List UInt8) (t : NvsTry) (s : InfoSys) (a : Option ℕ) :
    Names (fun r => r = s.prof.hz ∨ agreedNext b s a (.request src sport req t) = some r)
      (sayAnswer b src sport req t s) := by
  unfold sayAnswer
  dsimp only
  split_ifs with hshort h60 hc0 h13 h21 h81 hset h83
  · exact names_nil
  · exact names_other fun _ _ h => InfoMsg.noConfusion h
  · exact names_other fun _ _ h => InfoMsg.noConfusion h
  · exact names_network _ _ _
  · exact names_clock _ _
  · rw [agreedNext, if_pos ⟨hset.1, h81, hset.2⟩]
    exact names_rateSet req t s a
  · exact (names_caps _ _ _).mono fun r => Or.inl
  · exact (names_caps _ _ _).mono fun r => Or.inl
  · exact names_nil

theorem names_notes (s : InfoSys) (a : Option ℕ) (e : InfoEvent) :
    Names (fun r => r = s.prof.hz ∨ agreedNext b s a e = some r) (s.notes b halfDb e) := by
  cases e with
  | turn now =>
    simp only [InfoSys.notes]
    split_ifs
    · exact names_nil
    · exact names_append ((names_all s).mono fun r => Or.inl) (names_other fun _ _ h => InfoMsg.noConfusion h)
    · exact names_append names_nil (names_other fun _ _ h => InfoMsg.noConfusion h)
  | request src sport req t => exact names_answer src sport req t s a
  | notify mask =>
    simp only [InfoSys.notes]
    split_ifs
    · exact names_nil
    · exact names_other fun _ _ h => InfoMsg.noConfusion h
  | world net g rx => exact names_nil
  | restart pin readable => exact names_nil
  | boot pin readable => exact names_nil

theorem Pledged.of_same (h : Pledged b s a) (hs : RateSame s s') : Pledged b s' a := by
  obtain ⟨hp, hst, hr⟩ := hs
  exact ⟨hp ▸ h.prof, hp ▸ h.runs, hp ▸ h.pinned, hst ▸ h.flash, hr ▸ h.coming, h.free⟩

theorem pledged_boot (pin : Option Bool) (readable : Bool) (s : InfoSys) : Pledged b (infoBoot b pin readable s) none := by
  obtain ⟨hp, -⟩ := infoBoot_rate (b := b) pin readable s
  have hz : (infoBoot b pin readable s).prof.hz = rateWanted b pin readable s.stored := congrArg RateProfile.hz hp
  exact ⟨by rw [hz, hp], by rw [hz]; exact rateWanted_supported _ _ _ _, fun hpin => hz.trans (rateWanted_pinned hpin _ _ _),
    nofun, nofun, nofun⟩

theorem Pledged.set {req : List UInt8} {t : NvsTry} (h : Pledged b s a) (hrun : handleRateSet mac b req t s = .ok s') :
    Pledged b s' (agreedSet b req t s a) := by
  obtain ⟨hp, hst, hr⟩ := rate_handleRateSet hrun
  by_cases hsame : dwRd32 (memOf req) 36 = s.prof.hz
  · rw [agreedSet, if_pos hsame]
    rw [if_pos hsame] at hst
    rw [if_neg fun hn => hn.1 hsame] at hr
    exact h.of_same ⟨hp, hst, hr⟩
  rw [if_neg hsame] at hst
  by_cases hok : (rateRequest b (dwRd32 (memOf req) 36) t s.stored).1 = .ok
  · obtain ⟨hfree, hlands⟩ := rateRequest_ok hok
    rw [if_pos ⟨hsame, hok⟩] at hr
    rw [agreedSet, if_neg hsame, if_pos hok]
    refine ⟨hp ▸ h.prof, hp ▸ h.runs, hp ▸ h.pinned, fun hz hhz => ?_, fun hz _ => hr, fun hz hhz => ?_⟩
    · rw [hst, hlands, hhz]
    · obtain rfl := Option.some.inj hhz
      exact hfree
  rw [if_neg fun hn => hok hn.2] at hr
  rw [agreedSet, if_neg hsame, if_neg hok]
  by_cases hkept : (rateRequest b (dwRd32 (memOf req) 36) t s.stored).2 = s.stored
  · rw [if_pos hkept]
    exact h.of_same ⟨hp, hst.trans hkept, hr⟩
  · rw [if_neg hkept]
    exact ⟨hp ▸ h.prof, hp ▸ h.runs, hp ▸ h.pinned, nofun, nofun, nofun⟩

theorem pledged_next (h : Pledged b s a) (hn : infoNext mac b halfDb s e = .ok s') : Pledged b s' (agreedNext b s a e) := by
  rcases rate_next a hn with ⟨hs, -, ha⟩ | ⟨req, t, hset, -, ha⟩ | ⟨pin, rfl, -, ha⟩
  · rw [ha]
    exact h.of_same hs
  · rw [ha]
    exact h.set hset
  · rw [ha]
    exact pledged_boot pin e.readable s

theorem prof_next (hn : infoNext mac b halfDb s e = .ok s') (hkeep : s.resets e = false) : s'.prof = s.prof := by
  rcases rate_next none hn with ⟨hs, -, -⟩ | ⟨req, t, hset, -, -⟩ | ⟨pin, -, hreset, -⟩
  · exact hs.1
  · exact (rate_handleRateSet hset).1
  · rw [hkeep] at hreset
    cases hreset

theorem restart_next (hn : infoNext mac b halfDb s e = .ok s') (hon : s'.restart = true) :
    s.restart = true ∨ ∃ hz, agreedNext b s a e = some hz := by
  rcases rate_next a hn with ⟨hs, -, -⟩ | ⟨req, t, hset, -, ha⟩ | ⟨pin, rfl, -, -⟩
  · exact Or.inl (hs.2.2 ▸ hon)
  · obtain ⟨-, -, hr⟩ := rate_handleRateSet hset
    by_cases hok : dwRd32 (memOf req) 36 ≠ s.prof.hz ∧ (rateRequest b (dwRd32 (memOf req) 36) t s.stored).1 = .ok
    · exact Or.inr ⟨_, by rw [ha, agreedSet, if_neg hok.1, if_pos hok.2]⟩
    · rw [if_neg hok] at hr
      exact Or.inl (hr ▸ hon)
  · rw [(infoBoot_rate pin e.readable s).2] at hon
    cases hon

theorem Pledged.comesUp (h : Pledged b s a) (hn : infoNext mac b halfDb s e = .ok s') {hz : ℕ} (ha : a = some hz)
    (hreset : s.resets e = true) (hread : e.readable = true) : s'.prof = rateProfile hz := by
  rcases rate_next a hn with ⟨-, hno, -⟩ | ⟨req, t, -, hno, -⟩ | ⟨pin, rfl, -, -⟩
  · rw [hreset] at hno
    cases hno
  · rw [hreset] at hno
    cases hno
  · obtain ⟨hp, hhz⟩ := h.free hz ha
    rw [(infoBoot_rate pin e.readable s).1, h.flash hz ha, hread, rateWanted_stored hp hhz]

theorem pledged_start (b : RateBuild) (pin : Option Bool) (readable : Bool) (stored : Option ℕ) :
    Pledged b (infoStart b pin readable stored) none :=
  ⟨rfl, rateWanted_supported _ _ _ _, fun hp => rateWanted_pinned hp _ _ _, nofun, nofun, nofun⟩

theorem pledged_run {l : List InfoEvent} (h : Pledged b s a) (hrun : infoRun mac b halfDb s l = .ok s') :
    Pledged b s' (agreed mac b halfDb s a l) := by
  induction l generalizing s a with
  | nil =>
    obtain rfl := Except.ok.inj hrun
    exact h
  | cons e l ih =>
    rw [infoRun, List.foldlM_cons] at hrun
    obtain ⟨s₁, hstep, hrest⟩ := of_bind_ok hrun
    rw [agreed, hstep]
    exact ih (pledged_next h hstep) hrest

/-- Over every run from any flash content the board honours the rates it agrees to. -/
theorem rate_agreed_honoured (mac : Mem) (b : RateBuild) (halfDb : ℕ → UInt8) (pin : Option Bool) (readable : Bool)
    (stored : Option ℕ) (l : List InfoEvent) (e : InfoEvent) :
    ∃ s s', infoRun mac b halfDb (infoStart b pin readable stored) l = .ok s ∧ infoNext mac b halfDb s e = .ok s' ∧
      Honours b halfDb s s' (agreed mac b halfDb (infoStart b pin readable stored) none l) e := by
  obtain ⟨s, hrun, hs⟩ := infoRun_ok mac b halfDb (infoStart b pin readable stored) List.length_replicate l
  obtain ⟨s', hstep, -⟩ := notes_next mac b halfDb hs e
  have h := pledged_run (pledged_start b pin readable stored) hrun
  have h' := pledged_next h hstep
  refine ⟨s, s', hrun, hstep, ⟨h'.prof, h'.runs⟩, h'.pinned, prof_next hstep, fun hz ha => h.comesUp hstep ha,
    fun hz ha => ⟨h'.flash hz ha, h'.coming hz ha⟩, restart_next hstep, fun n hn r hr => ?_⟩
  obtain ⟨f, hf, k, rfl⟩ := mem_told hn
  exact names_notes s _ e f hf k r hr

/-- A controller asks a free board on its pin's 48 kHz for 96 kHz. -/
example :
    agreedNext { default := AP_RATE_48K, pinned := false, hasPin := true, supported := rfl }
      (infoStart { default := AP_RATE_48K, pinned := false, hasPin := true, supported := rfl } (some true) true none) none
        (.request [10, 0, 0, 9] 8700
          (List.replicate 24 0 ++ [0x07, 0x2a, 0x00, 0x81, 0, 0, 0, 0] ++ [0, 0, 0, 1] ++ dwWr32 96000)
          ⟨.ok, .ok, .ok, true⟩) = some 96000 := by decide

end Inferno
