import Inferno.Sanity.ArcPages

/-! The property table of opcode 0x1100: its keys never change, and a patch lands in the
word its key's offset names. -/

namespace Inferno

open Lib

/-- The length and the entries of `arc_1100_body` are those it was compiled with. -/
structure TableKept (body : List UInt8) : Prop where
  len : body.length = 202
  keys : Sits (arc1100Body.take 126) body 0

theorem arc1100Keys_length : (arc1100Body.take 126).length = 126 := by decide +kernel

theorem tableKept_init : TableKept arc1100Body := ⟨rfl, sits_of_start (List.take_prefix 126 arc1100Body)⟩

/-- The value of the first of the `n` entries from `i` on with the key. -/
def entryFrom (key : ℕ) : ℕ → ℕ → Option ℕ
  | 0, _ => none
  | n + 1, i =>
    if dwRd16 (memOf arc1100Body) (2 + i * 4) = key then some (dwRd16 (memOf arc1100Body) (2 + i * 4 + 2))
    else entryFrom key n (i + 1)

section
variable {body : List UInt8} {key v off : ℕ}

theorem TableKept.mem (h : TableKept body) {k : ℕ} (hk : k < 126) : memOf body k = memOf arc1100Body k := by
  have hb := h.keys.getD 0 (arc1100Keys_length.symm ▸ hk)
  rw [Nat.zero_add] at hb
  rw [memOf, hb, memOf, List.getD_eq_getElem?_getD, List.getD_eq_getElem?_getD, List.getElem?_take_of_lt hk]

theorem TableKept.rd16 (h : TableKept body) {i : ℕ} (hi : i + 2 ≤ 126) :
    dwRd16 (memOf body) i = dwRd16 (memOf arc1100Body) i := by
  rw [dwRd16, dwRd16, h.mem (by omega), h.mem (by omega)]

theorem TableKept.overwrite (h : TableKept body) {i : ℕ} (hi : 126 ≤ i) (hend : i + 4 ≤ 202) :
    TableKept (overwrite body i (dwWr32 v)) := by
  have hin : i + (dwWr32 v).length ≤ body.length := h.len ▸ hend
  exact ⟨(overwrite_length hin).trans h.len, h.keys.frame (only_overwrite hin) (Or.inl (by rw [arc1100Keys_length]; omega))⟩

theorem arc1100PatchFrom_eq (h : TableKept body) {n i : ℕ} (hn : i + n ≤ 31) (hoff : entryFrom key n i = some off)
    (hlow : DRR_HDR_LEN ≤ off) (hend : off ≤ 208) :
    arc1100PatchFrom key v body n i = .ok (overwrite body (off - DRR_HDR_LEN) (dwWr32 v)) := by
  rw [DRR_HDR_LEN] at hlow
  induction n generalizing i with
  | zero => exact absurd hoff (by simp [entryFrom])
  | succ n ih =>
    have hlen := h.len
    have hkey : tableU16 body (2 + i * 4) = .ok (dwRd16 (memOf arc1100Body) (2 + i * 4)) := by
      rw [tableU16, fetch_ok (by omega), h.rd16 (by omega)]
    have hval : tableU16 body (2 + i * 4 + 2) = .ok (dwRd16 (memOf arc1100Body) (2 + i * 4 + 2)) := by
      rw [tableU16, fetch_ok (by omega), h.rd16 (by omega)]
    rw [entryFrom] at hoff
    rw [arc1100PatchFrom, hkey, ok_bind]
    by_cases hk : dwRd16 (memOf arc1100Body) (2 + i * 4) = key
    · rw [if_pos hk, Option.some.injEq] at hoff
      rw [if_neg (not_not.mpr hk), hval, ok_bind, hoff, if_neg (by rw [DRR_HDR_LEN]; omega),
        if_neg (by rw [DRR_HDR_LEN]; omega)]
    · rw [if_neg hk] at hoff
      rw [if_pos hk]
      exact ih (by omega) hoff

/-- One patch: the word lands where the key's offset says, and nothing else moves. -/
theorem arc1100PatchU32_spec (h : TableKept body) (v : ℕ) (hoff : entryFrom key 31 0 = some (off + DRR_HDR_LEN))
    (hlow : 126 ≤ off) (hend : off ≤ 198) :
    ∃ t, arc1100PatchU32 key v body = .ok t ∧ TableKept t ∧ Sits (dwWr32 v) t off ∧ Only off (off + 4) body t := by
  have hcount : fetch (MsgFault.table 1) body.length 1 1 (memOf body 1).toNat = .ok 31 := by
    rw [fetch_ok (by rw [h.len]; omega), h.mem (by omega)]
    rfl
  have hin : off + (dwWr32 v).length ≤ body.length := by
    rw [dwWr32_length, h.len]
    omega
  refine ⟨overwrite body off (dwWr32 v), ?_, h.overwrite hlow (by omega), sits_overwrite hin, only_overwrite hin⟩
  rw [arc1100PatchU32, hcount, ok_bind,
    arc1100PatchFrom_eq h le_rfl hoff (Nat.le_add_left _ _) (by rw [DRR_HDR_LEN]; omega), Nat.add_sub_cancel]

end

/-- An entry of the table in the reply has the key, and its value is the offset of the word. -/
def PropertyAt (key v : ℕ) (r : List UInt8) : Prop :=
  ∃ i < 31, Sits (dwWr16 key) r (12 + 4 * i) ∧ PointsTo 136 (dwWr32 v) r (12 + 4 * i + 2)

/-- The table as it was patched: the two latencies, the floor, the rate, and no offset that
leaves the reply. -/
structure PropertiesAt (prof : RateProfile) (cfgUs : ℕ) (r : List UInt8) : Prop where
  latency : PropertyAt 0x8205 (u32 (cfgUs * 1000)) r
  latency' : PropertyAt 0x8301 (u32 (cfgUs * 1000)) r
  floor : PropertyAt 0x8306 (u32 (prof.latencyMinUs * 1000)) r
  rate : PropertyAt 0x8020 prof.hz r
  inside : ∀ i < 31, ∃ key < 2 ^ 16, ∃ val < 2 ^ 16, Sits (dwWr16 key) r (12 + 4 * i) ∧
    Sits (dwWr16 val) r (12 + 4 * i + 2) ∧ (0x8000 ≤ key → val + 4 ≤ r.length)

section
variable {prof : RateProfile} {m r r' t : List UInt8} {key v off a b : ℕ}

theorem PropertyAt.frame (h : PropertyAt key v r) (ho : Only a b r r') (hb : b ≤ AOIP_HDR_LEN) : PropertyAt key v r' := by
  rw [AOIP_HDR_LEN] at hb
  obtain ⟨i, hi, hkey, hval⟩ := h
  exact ⟨i, hi, hkey.frame ho (by omega), hval.frame ho (by omega) (by omega)⟩

theorem PropertiesAt.frame {cfgUs : ℕ} (h : PropertiesAt prof cfgUs r) (ho : Only a b r r') (hb : b ≤ AOIP_HDR_LEN) :
    PropertiesAt prof cfgUs r' where
  latency := h.latency.frame ho hb
  latency' := h.latency'.frame ho hb
  floor := h.floor.frame ho hb
  rate := h.rate.frame ho hb
  inside := by
    rw [AOIP_HDR_LEN] at hb
    intro i hi
    obtain ⟨key, hkey, val, hval, hat, hat', hin⟩ := h.inside i hi
    exact ⟨key, hkey, val, hval, hat.frame ho (by omega), hat'.frame ho (by omega),
      fun hbit => (hin hbit).trans ho.longer⟩

theorem propertyAt_of (ht : TableKept t) (hm : m.length = AOIP_HDR_LEN) {i : ℕ} (hi : i < 31)
    (hkey : Sits (dwWr16 key) (arc1100Body.take 126) (2 + 4 * i))
    (hval : Sits (dwWr16 (off + AOIP_HDR_LEN)) (arc1100Body.take 126) (2 + 4 * i + 2)) (hoff : 126 ≤ off)
    (hw : Sits (dwWr32 v) t off) : PropertyAt key v (m ++ t) := by
  rw [AOIP_HDR_LEN] at hm hval
  have hat {x : List UInt8} {j : ℕ} (hx : Sits x t j) : Sits x (m ++ t) (10 + j) := (hx.shift m).at (by rw [hm])
  refine ⟨i, hi, (hat (ht.keys.part hkey)).at (by omega), off + 10, by omega, (hat (ht.keys.part hval)).at (by omega), ?_⟩
  exact (hat hw).at (by omega)

theorem patchTable_eq (prof : RateProfile) {st : ArcState} (h : TableKept st.table) :
    ∃ t, patchTable prof st = .ok t ∧ TableKept t ∧ Sits (dwWr32 (u32 (st.clk.cfgUs * 1000))) t 174 ∧
      Sits (dwWr32 (u32 (st.clk.cfgUs * 1000))) t 178 ∧ Sits (dwWr32 (u32 (prof.latencyMinUs * 1000))) t 182 ∧
      Sits (dwWr32 prof.hz) t 146 := by
  have hk1 : entryFrom 0x8205 31 0 = some (174 + DRR_HDR_LEN) := by decide +kernel
  have hk2 : entryFrom 0x8301 31 0 = some (178 + DRR_HDR_LEN) := by decide +kernel
  have hk3 : entryFrom 0x8306 31 0 = some (182 + DRR_HDR_LEN) := by decide +kernel
  have hk4 : entryFrom 0x8020 31 0 = some (146 + DRR_HDR_LEN) := by decide +kernel
  obtain ⟨t1, hrun1, h1, hat1, -⟩ := arc1100PatchU32_spec h (u32 (st.clk.cfgUs * 1000)) hk1 (by omega) (by omega)
  obtain ⟨t2, hrun2, h2, hat2, ho2⟩ := arc1100PatchU32_spec h1 (u32 (st.clk.cfgUs * 1000)) hk2 (by omega) (by omega)
  obtain ⟨t3, hrun3, h3, hat3, ho3⟩ := arc1100PatchU32_spec h2 (u32 (prof.latencyMinUs * 1000)) hk3 (by omega) (by omega)
  obtain ⟨t4, hrun4, h4, hat4, ho4⟩ := arc1100PatchU32_spec h3 prof.hz hk4 (by omega) (by omega)
  refine ⟨t4, ?_, h4, ?_, ?_, ?_, hat4⟩
  · rw [patchTable, hrun1, ok_bind, hrun2, ok_bind, hrun3, ok_bind, hrun4]
  · exact ((hat1.frame ho2 (by simp)).frame ho3 (by simp)).frame ho4 (by simp)
  · exact (hat2.frame ho3 (by simp)).frame ho4 (by simp)
  · exact hat3.frame ho4 (by simp)

theorem arc1100Body_inside :
    ∀ i < 31, dwRd16 (memOf arc1100Body) (2 + 4 * i) < 2 ^ 16 ∧ dwRd16 (memOf arc1100Body) (2 + 4 * i + 2) < 2 ^ 16 ∧
      Sits (dwWr16 (dwRd16 (memOf arc1100Body) (2 + 4 * i))) (arc1100Body.take 126) (2 + 4 * i) ∧
      Sits (dwWr16 (dwRd16 (memOf arc1100Body) (2 + 4 * i + 2))) (arc1100Body.take 126) (2 + 4 * i + 2) ∧
      (0x8000 ≤ dwRd16 (memOf arc1100Body) (2 + 4 * i) →
        dwRd16 (memOf arc1100Body) (2 + 4 * i + 2) + 4 ≤ AOIP_HDR_LEN + 202) := by
  decide +kernel

theorem propertiesAt_patchTable (prof : RateProfile) {st : ArcState} (h : TableKept st.table) (hm : m.length = AOIP_HDR_LEN) :
    ∃ t, patchTable prof st = .ok t ∧ TableKept t ∧ PropertiesAt prof st.clk.cfgUs (m ++ t) := by
  obtain ⟨t, hrun, ht, hcur, hcur', hmin, hrate⟩ := patchTable_eq prof h
  refine ⟨t, hrun, ht, ?_⟩
  exact
    { latency := propertyAt_of ht hm (i := 10) (by omega) (by decide +kernel) (by decide +kernel) (by omega) hcur
      latency' := propertyAt_of ht hm (i := 19) (by omega) (by decide +kernel) (by decide +kernel) (by omega) hcur'
      floor := propertyAt_of ht hm (i := 20) (by omega) (by decide +kernel) (by decide +kernel) (by omega) hmin
      rate := propertyAt_of ht hm (i := 0) (by omega) (by decide +kernel) (by decide +kernel) (by omega) hrate
      inside := by
        intro i hi
        obtain ⟨hkey, hval, hat, hat', hin⟩ := arc1100Body_inside i hi
        have hshift {x : List UInt8} {j : ℕ} (hx : Sits x (arc1100Body.take 126) j) : Sits x (m ++ t) (10 + j) :=
          ((ht.keys.part hx).shift m).at (by rw [hm, AOIP_HDR_LEN, Nat.zero_add])
        exact ⟨_, hkey, _, hval, (hshift hat).at (by omega), (hshift hat').at (by omega),
          fun hbit => (hin hbit).trans (by rw [List.length_append, hm, ht.len])⟩ }

end

end Inferno
