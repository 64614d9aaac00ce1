import Inferno.Proofs.PacketStore
import Inferno.Sanity.FlowTracking

/-! The missed-packet counter of a flow against the packets that were missed. Losses are
read off forward jumps of the timestamp, so a packet that comes after a later one has
been charged already and stays charged, and a timestamp the ring refuses as too far ahead
has moved the mark the jumps are measured from. -/

namespace Inferno

open Lib

/-- The number of the packet at index `idx`, in a stream of `n` frames a packet. -/
def packetNo (first : ℤ) (n : ℕ) (idx : ℤ) : ℕ := ((idx - first) / n).toNat

def reached (got : List (ℕ × Bool)) : ℕ := got.foldl (fun m d => max m (d.1 + 1)) 0

/-- The numbers up to the highest that were not delivered. -/
def undelivered (got : List (ℕ × Bool)) : ℕ := Nat.count (fun k => k ∉ got.map Prod.fst) (reached got)

def refusals (got : List (ℕ × Bool)) : ℕ := got.countP fun d => !d.2

theorem reached_concat (got : List (ℕ × Bool)) (d : ℕ × Bool) :
    reached (got ++ [d]) = max (reached got) (d.1 + 1) := by
  simp [reached]

theorem refusals_concat (got : List (ℕ × Bool)) (d : ℕ × Bool) :
    refusals (got ++ [d]) = refusals got + (!d.2).toNat := by
  rw [refusals, List.countP_append, List.countP_singleton, refusals]
  cases d.2 <;> rfl

theorem reached_le_iff {got : List (ℕ × Bool)} {k : ℕ} : reached got ≤ k ↔ ∀ d ∈ got, d.1 < k := by
  induction got using List.reverseRecOn with
  | nil => simp [reached]
  | append_singleton got d ih =>
    rw [reached_concat, max_le_iff, ih]
    simp only [List.mem_append, List.mem_singleton, or_imp, forall_and, forall_eq, Nat.succ_le_iff]

theorem count_not_add_count (P : ℕ → Prop) [DecidablePred P] (n : ℕ) :
    Nat.count (fun k => ¬ P k) n + Nat.count P n = n := by
  induction n with
  | zero => rfl
  | succ n ih =>
    rw [Nat.count_succ, Nat.count_succ]
    split_ifs <;> omega

theorem undelivered_add_length {got : List (ℕ × Bool)} (hn : (got.map Prod.fst).Nodup) :
    undelivered got + got.length = reached got := by
  have hlt : ∀ k ∈ got.map Prod.fst, k < reached got := by
    intro k hk
    obtain ⟨d, hd, rfl⟩ := List.mem_map.mp hk
    exact reached_le_iff.mp le_rfl d hd
  have hcount : Nat.count (fun k => k ∈ got.map Prod.fst) (reached got) = got.length := by
    rw [Nat.count_eq_card_filter_range, ← List.length_map (f := Prod.fst), ← List.toFinset_card_of_nodup hn]
    congr 1
    ext k
    simp only [Finset.mem_filter, Finset.mem_range, List.mem_toFinset]
    exact and_iff_right_of_imp (hlt k)
  rw [undelivered, ← hcount]
  exact count_not_add_count _ _

/-- A packet of the stream: on the grid, the first one first, none twice, and fewer than
1000 numbers passed over at a time. -/
structure Regular (first : ℤ) (n : ℕ) (got : List (ℕ × Bool)) (idx : ℤ) : Prop where
  grid : idx = first + packetNo first n idx * n
  start : got = [] → packetNo first n idx = 0
  fresh : packetNo first n idx ∉ got.map Prod.fst
  short : packetNo first n idx < reached got + 1000

/-- What the tracking says of the deliveries so far. -/
structure Tracked (first : ℤ) (n : ℕ) (got : List (ℕ × Bool)) (t : Tracking) : Prop where
  next : t.haveNext = true → t.nextIdx = first + reached got * n
  known : t.haveNext = true ↔ got ≠ []
  nodup : (got.map Prod.fst).Nodup
  small : t.missed < 2 ^ 32

theorem missedGap_grid {n r k : ℕ} (hn : 0 < n) (hk : k < r + 1000) (first : ℤ) :
    missedGap (first + k * n) (first + r * n) n = k - r := by
  have hsub : (first + (k : ℤ) * n - (first + r * n)).toNat = (k - r) * n := by
    rw [add_sub_add_left_eq_sub, ← sub_mul]
    rcases Nat.lt_or_ge k r with h | h
    · rw [Nat.sub_eq_zero_of_le h.le, Nat.zero_mul, Int.toNat_of_nonpos]
      exact mul_nonpos_of_nonpos_of_nonneg (by omega) (by omega)
    · rw [← Nat.cast_sub h, ← Nat.cast_mul, Int.toNat_natCast]
  simp only [missedGap, hsub, Nat.mul_div_cancel _ hn]
  rw [if_neg (by omega)]

theorem u32_lt (n : ℕ) : u32 n < 2 ^ 32 := Nat.mod_lt _ (Nat.two_pow_pos _)

theorem note_small {t : Tracking} (h : t.missed < 2 ^ 32) (n : ℕ) (idx : ℤ) (ok : Bool) :
    (t.note n idx ok).missed < 2 ^ 32 := by
  simp only [Tracking.note]
  split_ifs
  · exact u32_lt _
  · exact u32_lt _
  · exact u32_lt _
  · exact h

theorem note_missed (n : ℕ) (t : Tracking) (idx : ℤ) (ok : Bool) :
    (t.note n idx ok).missed ≡ t.missed + (t.gap n idx + (!ok).toNat) [MOD 2 ^ 32] := by
  have hu : ∀ m, u32 m ≡ m [MOD 2 ^ 32] := fun m => Nat.mod_modEq m _
  simp only [Tracking.note, Tracking.gap]
  cases ok with
  | false =>
    simp only [Bool.not_false, if_true, Bool.toNat_true]
    split_ifs with hg
    · exact (hu _).trans ((hu _).add_right 1)
    · rw [Nat.zero_add]
      exact hu _
  | true =>
    simp only [Bool.not_true, Bool.false_eq_true, if_false, Bool.toNat_false, Nat.add_zero]
    split_ifs with hg
    · exact hu _
    · rfl

theorem Tracked.note {first : ℤ} {n : ℕ} {got : List (ℕ × Bool)} {t : Tracking} (h : Tracked first n got t) (hn : 0 < n)
    {idx : ℤ} (hr : Regular first n got idx) (ok : Bool) :
    Tracked first n (got ++ [(packetNo first n idx, ok)]) (t.note n idx ok) ∧
      t.gap n idx = packetNo first n idx - reached got := by
  obtain ⟨hgrid, hstart, hfresh, hshort⟩ := hr
  generalize packetNo first n idx = k at hgrid hstart hfresh hshort ⊢
  subst hgrid
  have hnodup : ((got ++ [(k, ok)]).map Prod.fst).Nodup := by
    rw [List.map_append, List.map_singleton, ← List.concat_eq_append, List.nodup_concat]
    exact ⟨hfresh, h.nodup⟩
  cases hk : t.haveNext with
  | false =>
    -- nothing delivered yet: this is number 0
    have hgot : got = [] := by
      by_contra hg
      rw [h.known.mpr hg] at hk
      exact Bool.noConfusion hk
    obtain rfl := hstart hgot
    subst hgot
    refine ⟨⟨fun _ => ?_, ?_, hnodup, note_small h.small _ _ _⟩, ?_⟩
    · simp [Tracking.note, hk, reached]
    · simp [Tracking.note, hk]
    · simp [Tracking.gap, hk]
  | true =>
    have hgt : first + (k : ℤ) * n - t.nextIdx > 0 ↔ reached got < k := by
      rw [h.next hk, add_sub_add_left_eq_sub, ← sub_mul, gt_iff_lt, mul_pos_iff_of_pos_right (by omega)]
      omega
    have hge : first + (k : ℤ) * n - t.nextIdx ≥ 0 ↔ reached got ≤ k := by
      rw [h.next hk, add_sub_add_left_eq_sub, ← sub_mul, ge_iff_le, mul_nonneg_iff_of_pos_right (by omega)]
      omega
    refine ⟨⟨fun _ => ?_, ?_, hnodup, note_small h.small _ _ _⟩, ?_⟩
    · simp only [Tracking.note, hk, hge, Bool.not_true, Bool.false_eq_true, false_or, reached_concat]
      split_ifs with hle
      · rw [max_eq_right (by omega)]
        push_cast
        ring
      · rw [max_eq_left (by omega)]
        exact h.next hk
    · simp [Tracking.note, hk]
    · simp only [Tracking.gap, hk, hgt, true_and]
      split_ifs with hlt
      · rw [h.next hk, missedGap_grid hn hshort]
      · omega

/-- The receive path with the deliveries of one flow beside it. -/
structure FlowLog where
  sys : RxSys
  got : List (ℕ × Bool)

def delivery (hz : ℕ) (i : Fin AP_MAX_FLOWS) (first : ℤ) (n : ℕ) (s : RxSys) (e : FlowEvent) : Option (ℕ × Bool) :=
  (arrival hz i s e).map fun d => (packetNo first n d.1, d.2)

def FlowLog.step (hz : ℕ) (i : Fin AP_MAX_FLOWS) (first : ℤ) (n : ℕ) (g : FlowLog) (e : FlowEvent) : FlowLog where
  sys := flowStep hz g.sys e
  got := g.got ++ (delivery hz i first n g.sys e).toList

/-- Before the `k`-th event after flow `i` was bound in `s`. -/
def flowLogAt (hz : ℕ) (i : Fin AP_MAX_FLOWS) (first : ℤ) (n : ℕ) (s : RxSys) (l : List FlowEvent) (k : ℕ) : FlowLog :=
  before (FlowLog.step hz i first n) ⟨s, []⟩ l k

theorem arrival_fpp {hz : ℕ} {i : Fin AP_MAX_FLOWS} {s : RxSys} {e : FlowEvent} {d : ℤ × Bool}
    (h : arrival hz i s e = some d) : 0 < (s.rx.flows i).fpp := by
  have hwell : ∀ buf len a, wellFormed (s.rx.flows i) buf len = some a → 0 < (s.rx.flows i).fpp := by
    intro buf len a hw
    rw [wellFormed, Option.filter_eq_some_iff] at hw
    have h3 := sampleBytes_of_parse hw.1
    have hlen := (of_decide_eq_true hw.2).2
    rcases Nat.eq_zero_or_pos (s.rx.flows i).fpp with h0 | hpos
    · rw [hlen, h0] at h3
      omega
    · exact hpos
  unfold arrival at h
  split at h
  · split at h
    · exact absurd h (by simp)
    · split_ifs at h
      obtain ⟨a, ha, -⟩ := Option.map_eq_some_iff.mp h
      exact hwell _ _ a ha
  · split_ifs at h
    obtain ⟨a, ha, -⟩ := Option.map_eq_some_iff.mp h
    exact hwell _ _ a ha
  · exact absurd h (by simp)

/-- What the flow's fields say along a run. -/
structure LogInv (i : Fin AP_MAX_FLOWS) (first : ℤ) (n : ℕ) (g : FlowLog) : Prop where
  fpp : (g.sys.rx.flows i).fpp = n
  tracked : Tracked first n g.got (g.sys.rx.flows i).tracking

/-- An event that does not bind the flow again, and brings a packet of the stream if any. -/
structure InStream (hz : ℕ) (i : Fin AP_MAX_FLOWS) (first : ℤ) (n : ℕ) (g : FlowLog) (e : FlowEvent) : Prop where
  bound : ∀ nslots map fpp ok, e ≠ .sys (.bind i nslots map fpp ok)
  regular : ∀ d ∈ arrival hz i g.sys e, Regular first n g.got d.1

/-- What an event adds to the counter and the deliveries together. -/
def bookedBy (hz : ℕ) (i : Fin AP_MAX_FLOWS) (first : ℤ) (n : ℕ) (g : FlowLog) (e : FlowEvent) : ℕ :=
  match delivery hz i first n g.sys e with
  | none => 0
  | some d => d.1 - reached g.got + (!d.2).toNat + 1

/-- What it adds to the numbers reached and the refusals together. -/
def owedBy (hz : ℕ) (i : Fin AP_MAX_FLOWS) (first : ℤ) (n : ℕ) (g : FlowLog) (e : FlowEvent) : ℕ :=
  match delivery hz i first n g.sys e with
  | none => 0
  | some d => d.1 + 1 - reached g.got + (!d.2).toNat

section Run

variable {hz : ℕ} {i : Fin AP_MAX_FLOWS} {first : ℤ} {n : ℕ} {g : FlowLog} {e : FlowEvent}

theorem LogInv.step (h : LogInv i first n g) (he : InStream hz i first n g e) :
    LogInv i first n (g.step hz i first n e) ∧
      ((g.step hz i first n e).sys.rx.flows i).missed + (g.step hz i first n e).got.length ≡
        (g.sys.rx.flows i).missed + g.got.length + bookedBy hz i first n g e [MOD 2 ^ 32] ∧
      reached (g.step hz i first n e).got + refusals (g.step hz i first n e).got =
        reached g.got + refusals g.got + owedBy hz i first n g e := by
  obtain ⟨hfpp, htrack⟩ := flowStep_tracking hz i g.sys he.bound
  have hmissed : ((flowStep hz g.sys e).rx.flows i).missed = ((flowStep hz g.sys e).rx.flows i).tracking.missed := rfl
  simp only [FlowLog.step, bookedBy, owedBy, delivery, hmissed, htrack]
  cases ha : arrival hz i g.sys e with
  | none =>
    simp only [Option.map_none, Option.toList_none, List.append_nil, Tracking.after, Nat.add_zero, and_true]
    exact ⟨⟨hfpp.trans h.fpp, by rw [htrack, ha]; exact h.tracked⟩, rfl⟩
  | some d =>
    have hreg := he.regular d ha
    have hpos := arrival_fpp ha
    rw [h.fpp] at hpos
    obtain ⟨hnext, hgap⟩ := h.tracked.note hpos hreg d.2
    have hcharge := note_missed n (g.sys.rx.flows i).tracking d.1 d.2
    rw [hgap] at hcharge
    simp only [Option.map_some, Option.toList_some, Tracking.after, h.fpp, reached_concat, refusals_concat,
      List.length_append, List.length_singleton]
    refine ⟨⟨hfpp.trans h.fpp, by rw [htrack, ha, h.fpp]; exact hnext⟩, ?_, ?_⟩
    · have hsum := hcharge.add_right (g.got.length + 1)
      have hm : (g.sys.rx.flows i).tracking.missed = (g.sys.rx.flows i).missed := rfl
      rw [hm] at hsum
      convert hsum using 1
      omega
    · omega

theorem increments_lt (he : InStream hz i first n g e) :
    bookedBy hz i first n g e < 2 ^ 32 ∧ owedBy hz i first n g e < 2 ^ 32 := by
  simp only [bookedBy, owedBy, delivery]
  cases ha : arrival hz i g.sys e with
  | none => exact ⟨Nat.two_pow_pos _, Nat.two_pow_pos _⟩
  | some d =>
    have hshort := (he.regular d ha).short
    have hb : (!d.2).toNat ≤ 1 := Bool.toNat_le _
    simp only [Option.map_some]
    constructor <;> omega

theorem booked_eq_owed_iff :
    bookedBy hz i first n g e = owedBy hz i first n g e ↔
      ∀ d ∈ arrival hz i g.sys e, ∀ p ∈ g.got, p.1 < packetNo first n d.1 := by
  simp only [bookedBy, owedBy, delivery]
  cases ha : arrival hz i g.sys e with
  | none => simp
  | some d =>
    simp only [Option.map_some, Option.mem_def, Option.some_inj, forall_eq', ← reached_le_iff]
    omega

end Run

/-- The missed packets of the deliveries so far: those not delivered, and those refused. -/
def missedTruth (got : List (ℕ × Bool)) : ℕ := undelivered got + refusals got

theorem missed_iff {i : Fin AP_MAX_FLOWS} {first : ℤ} {n : ℕ} {g : FlowLog} (h : LogInv i first n g) :
    (g.sys.rx.flows i).missed = u32 (missedTruth g.got) ↔
      (g.sys.rx.flows i).missed + g.got.length ≡ reached g.got + refusals g.got [MOD 2 ^ 32] := by
  have hsum := undelivered_add_length h.tracked.nodup
  have hsplit : reached g.got + refusals g.got = missedTruth g.got + g.got.length := by
    rw [missedTruth]
    omega
  have hsmall : (g.sys.rx.flows i).missed < 2 ^ 32 := h.tracked.small
  rw [hsplit]
  constructor
  · intro he
    rw [he]
    exact (Nat.mod_modEq _ _).add_right _
  · intro he
    exact (Nat.mod_eq_of_lt hsmall).symm.trans (Nat.ModEq.add_right_cancel' _ he)

/-- A flow as `aoip_rx_bind_flow` leaves it: `n` frames a packet, nothing missed, no
timestamp yet. -/
structure JustBound (i : Fin AP_MAX_FLOWS) (n : ℕ) (s : RxSys) : Prop where
  fpp : (s.rx.flows i).fpp = n
  missed : (s.rx.flows i).missed = 0
  haveNext : (s.rx.flows i).haveNext = false

theorem justBound_bind (hz : ℕ) (i : Fin AP_MAX_FLOWS) (s : RxSys) {nslots : ℕ} (h0 : nslots ≠ 0)
    (h8 : nslots ≤ AP_MAX_CH_PER_FLOW) (map : ℕ → ℤ) (n : ℕ) :
    JustBound i n (rxStep hz s (.bind i nslots map n true)) := by
  have hn : ¬ (nslots = 0 ∨ nslots > AP_MAX_CH_PER_FLOW) := by omega
  constructor <;> simp only [rxStep, setFlow_self, aoipRxBindFlow, if_neg hn, Bool.not_true, Bool.false_eq_true, if_false]

theorem JustBound.log {i : Fin AP_MAX_FLOWS} {n : ℕ} {s : RxSys} (h : JustBound i n s) (first : ℤ) :
    LogInv i first n ⟨s, []⟩ where
  fpp := h.fpp
  tracked :=
    { next := fun hk => absurd (h.haveNext.symm.trans hk) Bool.false_ne_true
      known := ⟨fun hk => absurd (h.haveNext.symm.trans hk) Bool.false_ne_true, fun hg => absurd rfl hg⟩
      nodup := List.nodup_nil
      small := h.missed.trans_lt (Nat.two_pow_pos _) }

/-- Once a flow is bound with `n` frames a packet, over every run that brings it packets
of one stream, whatever else happens: the counter is right throughout just when every
packet comes after all the packets before it. -/
theorem missed_counted_iff (hz : ℕ) {i : Fin AP_MAX_FLOWS} {n : ℕ} {s : RxSys} (hs : JustBound i n s) (first : ℤ)
    (l : List FlowEvent) (hl : ∀ k (hk : k < l.length), InStream hz i first n (flowLogAt hz i first n s l k) l[k]) :
    (∀ k ≤ l.length,
      ((flowLogAt hz i first n s l k).sys.rx.flows i).missed =
        u32 (missedTruth (flowLogAt hz i first n s l k).got)) ↔
      ∀ k (hk : k < l.length), ∀ d ∈ arrival hz i (flowLogAt hz i first n s l k).sys l[k],
        ∀ p ∈ (flowLogAt hz i first n s l k).got, p.1 < packetNo first n d.1 := by
  have hinv : ∀ k ≤ l.length, LogInv i first n (flowLogAt hz i first n s l k) := fun k hk =>
    guarded_run (FlowLog.step hz i first n) (P := fun _ => LogInv i first n) (G := fun _ => InStream hz i first n)
      (hs.log first) (fun _ _ _ h he => (h.step he).1) hl hk
  have hstart : (s.rx.flows i).missed + ([] : List (ℕ × Bool)).length ≡ reached [] + refusals [] [MOD 2 ^ 32] := by
    rw [hs.missed]
    rfl
  have hiff := totals_agree_iff (FlowLog.step hz i first n)
    (c := fun g => (g.sys.rx.flows i).missed + g.got.length) (t := fun g => reached g.got + refusals g.got)
    (x := bookedBy hz i first n) (y := owedBy hz i first n) (s := ⟨s, []⟩) (l := l) (M := 2 ^ 32) hstart
    (fun k hk => ((hinv k hk.le).step (hl k hk)).2.1)
    (fun k hk => congrArg (· % 2 ^ 32) ((hinv k hk.le).step (hl k hk)).2.2)
    (fun k hk => (increments_lt (hl k hk)).1) (fun k hk => (increments_lt (hl k hk)).2)
  rw [forall₂_congr fun k hk => missed_iff (hinv k hk)]
  exact hiff.trans (forall₂_congr fun k hk => booked_eq_owed_iff)

def framePacket (t : UInt8) : Mem := fun i => [2, 0, 0, 0, 0, 0, 0, 0, t].getD i 0

def framePacketIn (t : UInt8) : FlowEvent := .socket 0 [] 0 (framePacket t) 12 none 0

/-- Flow 0 bound for one slot and one frame a packet, beside a ring that takes indices
from 24 on. -/
def oneSlotFlow : RxSys := rxStep 96000 ⟨aoipRxStart, writableRing⟩ (.bind 0 1 (fun _ => 0) 1 true)

theorem justBound_oneSlotFlow : JustBound 0 1 oneSlotFlow :=
  justBound_bind 96000 0 ⟨aoipRxStart, writableRing⟩ (by decide) (by decide) (fun _ => 0) 1

theorem arrival_framePacketIn :
    arrival 96000 0 (flowLogAt 96000 0 30 1 oneSlotFlow [framePacketIn 30, framePacketIn 32] 0).sys (framePacketIn 30) =
        some (30, true) ∧
      arrival 96000 0 (flowLogAt 96000 0 30 1 oneSlotFlow [framePacketIn 30, framePacketIn 32] 1).sys (framePacketIn 32) =
        some (32, true) := by
  constructor <;> decide +kernel

/-- Numbers 0 and 2 arrive, and 1 counts as missed. -/
theorem missed_counted_iff_in_order :
    ((flowLogAt 96000 0 30 1 oneSlotFlow [framePacketIn 30, framePacketIn 32] 2).sys.rx.flows 0).missed =
      u32 (missedTruth (flowLogAt 96000 0 30 1 oneSlotFlow [framePacketIn 30, framePacketIn 32] 2).got) := by
  refine (missed_counted_iff 96000 justBound_oneSlotFlow 30 [framePacketIn 30, framePacketIn 32] ?_).mpr ?_ 2 le_rfl
  · intro k hk
    refine ⟨fun _ _ _ _ h => ?_, fun d hd => ?_⟩
    · rcases k with _ | _ | k
      · exact FlowEvent.noConfusion h
      · exact FlowEvent.noConfusion h
      · exact absurd hk (by simp)
    · rcases k with _ | _ | k
      · obtain rfl := Option.some_inj.mp (arrival_framePacketIn.1.symm.trans hd)
        constructor <;> decide +kernel
      · obtain rfl := Option.some_inj.mp (arrival_framePacketIn.2.symm.trans hd)
        constructor <;> decide +kernel
      · exact absurd hk (by simp)
  · intro k hk d hd
    rcases k with _ | _ | k
    · exact fun p hp => absurd hp List.not_mem_nil
    · obtain rfl := Option.some_inj.mp (arrival_framePacketIn.2.symm.trans hd)
      decide +kernel
    · exact absurd hk (by simp)

/-- Number 1 comes after number 2: all three are delivered and accepted, and one counts as
missed. -/
theorem late_packet_stays_missed :
    (flowLogAt 96000 0 30 1 oneSlotFlow [framePacketIn 30, framePacketIn 32, framePacketIn 31] 3).got =
        [(0, true), (2, true), (1, true)] ∧
      missedTruth (flowLogAt 96000 0 30 1 oneSlotFlow [framePacketIn 30, framePacketIn 32, framePacketIn 31] 3).got = 0 ∧
      ((flowLogAt 96000 0 30 1 oneSlotFlow
        [framePacketIn 30, framePacketIn 32, framePacketIn 31] 3).sys.rx.flows 0).missed = 1 := by
  refine ⟨?_, ?_, ?_⟩ <;> decide +kernel

end Inferno
