import Mathlib.Tactic

/-! The body of a JSON string as bytes: its grammar, what it stands for, and an escape
that takes any bytes there and back. Bytes above the control range stand for
themselves, so nothing is asked of their UTF-8. -/

namespace Inferno.Lib

def jsonQuote : UInt8 := 0x22
def jsonBackslash : UInt8 := 0x5C
def jsonU : UInt8 := 0x75

def shortEscape (e : UInt8) : Option UInt8 :=
  if e = jsonQuote ∨ e = jsonBackslash ∨ e = 0x2F then some e
  else if e = 0x62 then some 0x08
  else if e = 0x66 then some 0x0C
  else if e = 0x6E then some 0x0A
  else if e = 0x72 then some 0x0D
  else if e = 0x74 then some 0x09
  else none

def hexValue (c : UInt8) : Option ℕ :=
  if 0x30 ≤ c ∧ c ≤ 0x39 then some (c.toNat - 0x30)
  else if 0x61 ≤ c ∧ c ≤ 0x66 then some (c.toNat - 0x61 + 10)
  else if 0x41 ≤ c ∧ c ≤ 0x46 then some (c.toNat - 0x41 + 10)
  else none

def hex4Value (a b c d : UInt8) : Option ℕ :=
  match hexValue a, hexValue b, hexValue c, hexValue d with
  | some a, some b, some c, some d => some (((a * 16 + b) * 16 + c) * 16 + d)
  | _, _, _, _ => none

/-- Plain bytes and whole escapes, one after the other. -/
inductive JsonBody : List UInt8 → Prop where
  | nil : JsonBody []
  | plain {c : UInt8} {l : List UInt8} (hc : 0x20 ≤ c) (hq : c ≠ jsonQuote) (hb : c ≠ jsonBackslash) (h : JsonBody l) :
      JsonBody (c :: l)
  | short {e v : UInt8} {l : List UInt8} (he : shortEscape e = some v) (h : JsonBody l) :
      JsonBody (jsonBackslash :: e :: l)
  | unicode {a b c d : UInt8} {v : ℕ} {l : List UInt8} (hv : hex4Value a b c d = some v) (h : JsonBody l) :
      JsonBody (jsonBackslash :: jsonU :: a :: b :: c :: d :: l)

/-- A byte of the text, or a UTF-16 unit it names. -/
inductive JsonUnit where
  | byte (c : UInt8)
  | utf16 (v : ℕ)
  deriving DecidableEq, Repr

def jsonUnits : List UInt8 → Option (List JsonUnit)
  | [] => some []
  | c :: l =>
    if c < 0x20 ∨ c = jsonQuote then none
    else if c ≠ jsonBackslash then (jsonUnits l).map (.byte c :: ·)
    else
      match l with
      | [] => none
      | e :: l =>
        if e = jsonU then
          match l with
          | a :: b :: c :: d :: l => (hex4Value a b c d).bind fun v => (jsonUnits l).map (.utf16 v :: ·)
          | _ => none
        else (shortEscape e).bind fun v => (jsonUnits l).map (.byte v :: ·)

def utf8 (v : ℕ) : List UInt8 :=
  if v < 0x80 then [UInt8.ofNat v]
  else if v < 0x800 then [UInt8.ofNat (0xC0 + v / 0x40), UInt8.ofNat (0x80 + v % 0x40)]
  else if v < 0x10000 then
    [UInt8.ofNat (0xE0 + v / 0x1000), UInt8.ofNat (0x80 + v / 0x40 % 0x40), UInt8.ofNat (0x80 + v % 0x40)]
  else
    [UInt8.ofNat (0xF0 + v / 0x40000), UInt8.ofNat (0x80 + v / 0x1000 % 0x40), UInt8.ofNat (0x80 + v / 0x40 % 0x40),
      UInt8.ofNat (0x80 + v % 0x40)]

/-- The bytes of units; a surrogate stands for something only in a pair. -/
def jsonBytes : List JsonUnit → Option (List UInt8)
  | [] => some []
  | .byte c :: l => (jsonBytes l).map (c :: ·)
  | .utf16 v :: l =>
    if v < 0xD800 ∨ 0xE000 ≤ v then (jsonBytes l).map (utf8 v ++ ·)
    else
      match l with
      | .utf16 w :: l =>
        if v < 0xDC00 ∧ 0xDC00 ≤ w ∧ w < 0xE000 then
          (jsonBytes l).map (utf8 (0x10000 + (v - 0xD800) * 0x400 + (w - 0xDC00)) ++ ·)
        else none
      | _ => none

def jsonUnescape (l : List UInt8) : Option (List UInt8) := (jsonUnits l).bind jsonBytes

theorem jsonBody_of_units {l : List UInt8} {us : List JsonUnit} (h : jsonUnits l = some us) : JsonBody l := by
  fun_induction jsonUnits l generalizing us with
  | case1 => exact .nil
  | case2 => cases h
  | case3 c l hc hb ih =>
    obtain ⟨us', hus, -⟩ := Option.map_eq_some_iff.mp h
    rw [not_or] at hc
    exact .plain (UInt8.not_lt.mp hc.1) hc.2 hb (ih hus)
  | case4 => cases h
  | case5 c hc hb a b c' d l ih =>
    obtain ⟨v, hv, hrest⟩ := Option.bind_eq_some_iff.mp h
    obtain ⟨us', hus, -⟩ := Option.map_eq_some_iff.mp hrest
    rw [not_not.mp hb]
    exact .unicode hv (ih hus)
  | case6 => cases h
  | case7 c hc hb e l he ih =>
    obtain ⟨v, hv, hrest⟩ := Option.bind_eq_some_iff.mp h
    obtain ⟨us', hus, -⟩ := Option.map_eq_some_iff.mp hrest
    rw [not_not.mp hb]
    exact .short hv (ih hus)

def hexDigit (v : ℕ) : UInt8 := UInt8.ofNat (if v < 10 then 0x30 + v else 0x61 + (v - 10))

def hex4 (v : ℕ) : List UInt8 :=
  [hexDigit (v / 16 ^ 3 % 16), hexDigit (v / 16 ^ 2 % 16), hexDigit (v / 16 % 16), hexDigit (v % 16)]

/-- Quotes and backslashes behind a backslash, control bytes by number. -/
def escapeByte (c : UInt8) : List UInt8 :=
  if c = jsonQuote ∨ c = jsonBackslash then [jsonBackslash, c]
  else if c < 0x20 then [jsonBackslash, jsonU] ++ hex4 c.toNat
  else [c]

def jsonEscape (s : List UInt8) : List UInt8 := s.flatMap escapeByte

def escapeUnit (c : UInt8) : JsonUnit := if c < 0x20 then .utf16 c.toNat else .byte c

theorem hexValue_hexDigit : ∀ v < 16, hexValue (hexDigit v) = some v := by decide

theorem hex4Value_hex4 {v : ℕ} (h : v < 16 ^ 4) :
    hex4Value (hexDigit (v / 16 ^ 3 % 16)) (hexDigit (v / 16 ^ 2 % 16)) (hexDigit (v / 16 % 16)) (hexDigit (v % 16)) =
      some v := by
  have hdigit (w : ℕ) : hexValue (hexDigit (w % 16)) = some (w % 16) :=
    hexValue_hexDigit _ (Nat.mod_lt w (by decide))
  simp only [hex4Value, hdigit, Option.some.injEq]
  omega

theorem jsonUnits_plain {c : UInt8} {l : List UInt8} (hc : ¬ c < 0x20) (hq : c ≠ jsonQuote) (hb : c ≠ jsonBackslash) :
    jsonUnits (c :: l) = (jsonUnits l).map (.byte c :: ·) := by
  rw [jsonUnits.eq_def]
  simp only [hc, hq, hb, or_self, if_false, ne_eq, not_false_eq_true, if_true]

theorem jsonUnits_short {e : UInt8} {l : List UInt8} (he : e ≠ jsonU) :
    jsonUnits (jsonBackslash :: e :: l) = (shortEscape e).bind fun v => (jsonUnits l).map (.byte v :: ·) := by
  have hback : ¬ (jsonBackslash < 0x20 ∨ jsonBackslash = jsonQuote) := by decide
  rw [jsonUnits.eq_def]
  simp only [hback, he, if_false, ne_eq, not_true_eq_false]

theorem jsonUnits_unicode {a b c d : UInt8} {l : List UInt8} :
    jsonUnits (jsonBackslash :: jsonU :: a :: b :: c :: d :: l) =
      (hex4Value a b c d).bind fun v => (jsonUnits l).map (.utf16 v :: ·) := by
  have hback : ¬ (jsonBackslash < 0x20 ∨ jsonBackslash = jsonQuote) := by decide
  rw [jsonUnits.eq_def]
  simp only [hback, if_false, if_true, ne_eq, not_true_eq_false]

theorem jsonUnits_escapeByte (c : UInt8) (l : List UInt8) :
    jsonUnits (escapeByte c ++ l) = (jsonUnits l).map (escapeUnit c :: ·) := by
  by_cases hq : c = jsonQuote ∨ c = jsonBackslash
  · have hc : ¬ c < 0x20 := by rcases hq with rfl | rfl <;> decide
    have hu : c ≠ jsonU := by rcases hq with rfl | rfl <;> decide
    have hshort : shortEscape c = some c := by rcases hq with rfl | rfl <;> rfl
    rw [escapeByte, if_pos hq, escapeUnit, if_neg hc, List.cons_append, List.cons_append, List.nil_append,
      jsonUnits_short hu, hshort, Option.bind_some]
  · by_cases hc : c < 0x20
    · have hlt : c.toNat < 16 ^ 4 := lt_trans (UInt8.lt_iff_toNat_lt.mp hc) (by decide)
      have hfour := hex4Value_hex4 hlt
      rw [escapeByte, if_neg hq, if_pos hc, escapeUnit, if_pos hc, hex4]
      simp only [List.cons_append, List.nil_append]
      rw [jsonUnits_unicode, hfour, Option.bind_some]
    · rw [not_or] at hq
      rw [escapeByte, if_neg (not_or.mpr hq), if_neg hc, escapeUnit, if_neg hc, List.cons_append, List.nil_append,
        jsonUnits_plain hc hq.1 hq.2]

theorem jsonUnits_escape (s : List UInt8) : jsonUnits (jsonEscape s) = some (s.map escapeUnit) := by
  induction s with
  | nil => rfl
  | cons c s ih =>
    rw [jsonEscape, List.flatMap_cons, jsonUnits_escapeByte, ← jsonEscape, ih]
    rfl

theorem jsonBytes_escapeUnit (c : UInt8) (l : List JsonUnit) :
    jsonBytes (escapeUnit c :: l) = (jsonBytes l).map (c :: ·) := by
  unfold escapeUnit
  split_ifs with hc
  · have hlt : c.toNat < 0x20 := UInt8.lt_iff_toNat_lt.mp hc
    have hutf : utf8 c.toNat = [c] := by rw [utf8, if_pos (by omega), UInt8.ofNat_toNat]
    rw [jsonBytes.eq_def]
    simp only [hutf, List.cons_append, List.nil_append]
    rw [if_pos (Or.inl (by omega))]
  · rw [jsonBytes]

theorem jsonBody_escape (s : List UInt8) : JsonBody (jsonEscape s) := jsonBody_of_units (jsonUnits_escape s)

theorem jsonUnescape_escape (s : List UInt8) : jsonUnescape (jsonEscape s) = some s := by
  rw [jsonUnescape, jsonUnits_escape, Option.bind_some]
  induction s with
  | nil => rfl
  | cons c s ih => rw [List.map_cons, jsonBytes_escapeUnit, ih, Option.map_some]

theorem jsonEscape_append (s t : List UInt8) : jsonEscape (s ++ t) = jsonEscape s ++ jsonEscape t :=
  List.flatMap_append

theorem escapeByte_length (c : UInt8) : 0 < (escapeByte c).length ∧ (escapeByte c).length ≤ 6 := by
  unfold escapeByte
  split_ifs
  · exact ⟨Nat.zero_lt_two, by simp⟩
  · exact ⟨by simp, by simp [hex4]⟩
  · exact ⟨Nat.one_pos, by simp⟩

theorem escapeByte_length_printable {c : UInt8} (h : 0x20 ≤ c) : (escapeByte c).length ≤ 2 := by
  unfold escapeByte
  split_ifs with hq hc
  · exact le_rfl
  · exact absurd h (UInt8.not_le.mpr hc)
  · exact Nat.le_succ 1

theorem jsonEscape_length_printable {s : List UInt8} (h : ∀ c ∈ s, 0x20 ≤ c) : (jsonEscape s).length ≤ 2 * s.length := by
  induction s with
  | nil => exact le_rfl
  | cons c s ih =>
    obtain ⟨hc, hs⟩ := List.forall_mem_cons.mp h
    have hbyte := escapeByte_length_printable hc
    have hrest := ih hs
    rw [jsonEscape] at hrest ⊢
    rw [List.flatMap_cons, List.length_append, List.length_cons]
    omega

theorem jsonEscape_length_pos {s : List UInt8} (h : s ≠ []) : 0 < (jsonEscape s).length := by
  obtain ⟨c, l, rfl⟩ := List.exists_cons_of_ne_nil h
  rw [jsonEscape, List.flatMap_cons, List.length_append]
  exact Nat.add_pos_left (escapeByte_length c).1 _

theorem shortEscape_printable {e v : UInt8} (h : shortEscape e = some v) : 0x20 ≤ e := by
  unfold shortEscape at h
  split_ifs at h with hself hb hf hn hr ht
  · rcases hself with rfl | rfl | rfl <;> decide
  · rw [hb]; decide
  · rw [hf]; decide
  · rw [hn]; decide
  · rw [hr]; decide
  · rw [ht]; decide

theorem hexValue_printable {c : UInt8} {v : ℕ} (h : hexValue c = some v) : 0x20 ≤ c := by
  unfold hexValue at h
  split_ifs at h with hdigit hlower hupper
  · exact UInt8.le_trans (show (0x20 : UInt8) ≤ 0x30 by decide) hdigit.1
  · exact UInt8.le_trans (show (0x20 : UInt8) ≤ 0x61 by decide) hlower.1
  · exact UInt8.le_trans (show (0x20 : UInt8) ≤ 0x41 by decide) hupper.1

theorem hex4Value_digits {a b c d : UInt8} {v : ℕ} (h : hex4Value a b c d = some v) :
    ∀ e ∈ [a, b, c, d], ∃ w, hexValue e = some w := by
  unfold hex4Value at h
  split at h
  · rename_i ha hb hc hd
    simp only [List.forall_mem_cons]
    exact ⟨⟨_, ha⟩, ⟨_, hb⟩, ⟨_, hc⟩, ⟨_, hd⟩, fun e he => absurd he List.not_mem_nil⟩
  · cases h

theorem JsonBody.printable {l : List UInt8} (h : JsonBody l) : ∀ c ∈ l, 0x20 ≤ c := by
  have hback : 0x20 ≤ jsonBackslash := by decide
  induction h with
  | nil => exact fun c hc => absurd hc List.not_mem_nil
  | plain hc _ _ _ ih => exact List.forall_mem_cons.mpr ⟨hc, ih⟩
  | short he _ ih =>
    exact List.forall_mem_cons.mpr ⟨hback, List.forall_mem_cons.mpr ⟨shortEscape_printable he, ih⟩⟩
  | @unicode a b c d _ _ hv _ ih =>
    have hfour : ∀ e ∈ [a, b, c, d], 0x20 ≤ e := fun e he =>
      (hex4Value_digits hv e he).elim fun _ hw => hexValue_printable hw
    simp only [List.forall_mem_cons] at hfour ⊢
    exact ⟨hback, by decide, hfour.1, hfour.2.1, hfour.2.2.1, hfour.2.2.2.1, ih⟩

/-- A body up to its closing quote, and what follows that. -/
def scanBody : List UInt8 → Option (List UInt8 × List UInt8)
  | [] => none
  | c :: l =>
    if c = jsonQuote then some ([], l)
    else if c = jsonBackslash then
      match l with
      | [] => none
      | e :: l => (scanBody l).map (Prod.map ([c, e] ++ ·) id)
    else (scanBody l).map (Prod.map (c :: ·) id)

/-- `key`, then a string's body, and what that stands for. -/
def readString (key l : List UInt8) : Option (List UInt8 × List UInt8) :=
  if key <+: l then (scanBody (l.drop key.length)).bind fun p => (jsonUnescape p.1).map (·, p.2) else none

def readStrings : List (List UInt8) → List UInt8 → Option (List (List UInt8) × List UInt8)
  | [], l => some ([], l)
  | key :: keys, l => (readString key l).bind fun p => (readStrings keys p.2).map (Prod.map (p.1 :: ·) id)

theorem scanBody_plain {c : UInt8} (hq : c ≠ jsonQuote) (hb : c ≠ jsonBackslash) (l : List UInt8) :
    scanBody (c :: l) = (scanBody l).map (Prod.map (c :: ·) id) := by
  rw [scanBody.eq_def]
  simp only [hq, hb, if_false]

theorem scanBody_escape (e : UInt8) (l : List UInt8) :
    scanBody (jsonBackslash :: e :: l) = (scanBody l).map (Prod.map ([jsonBackslash, e] ++ ·) id) := by
  have hq : jsonBackslash ≠ jsonQuote := by decide
  rw [scanBody.eq_def]
  simp only [hq, if_false, if_true]

theorem hexValue_plain {c : UInt8} {v : ℕ} (h : hexValue c = some v) : c ≠ jsonQuote ∧ c ≠ jsonBackslash := by
  constructor <;> rintro rfl <;> cases h

/-- The quote that closes a body is the first one a scan takes for it. -/
theorem JsonBody.scan {b : List UInt8} (h : JsonBody b) (rest : List UInt8) :
    scanBody (b ++ jsonQuote :: rest) = some (b, rest) := by
  induction h with
  | nil =>
    rw [List.nil_append, scanBody.eq_def]
    rfl
  | plain _ hq hb _ ih =>
    rw [List.cons_append, scanBody_plain hq hb, ih]
    rfl
  | short _ _ ih =>
    rw [List.cons_append, List.cons_append, scanBody_escape, ih]
    rfl
  | @unicode a b c d _ _ hv _ ih =>
    have hfour : ∀ e ∈ [a, b, c, d], e ≠ jsonQuote ∧ e ≠ jsonBackslash := fun e he =>
      (hex4Value_digits hv e he).elim fun _ hw => hexValue_plain hw
    simp only [List.forall_mem_cons] at hfour
    obtain ⟨ha, hb, hc, hd, -⟩ := hfour
    simp only [List.cons_append]
    rw [scanBody_escape, scanBody_plain ha.1 ha.2, scanBody_plain hb.1 hb.2, scanBody_plain hc.1 hc.2,
      scanBody_plain hd.1 hd.2, ih]
    rfl

theorem readString_printed {b s : List UInt8} (h : jsonUnescape b = some s) (key rest : List UInt8) :
    readString key (key ++ b ++ jsonQuote :: rest) = some (s, rest) := by
  obtain ⟨us, hus, -⟩ := Option.bind_eq_some_iff.mp h
  rw [readString, List.append_assoc, if_pos (List.prefix_append key _), List.drop_left, (jsonBody_of_units hus).scan,
    Option.bind_some, h, Option.map_some]

theorem readStrings_printed {b s : List UInt8} (h : jsonUnescape b = some s) (key rest : List UInt8) (keys : List (List UInt8)) :
    readStrings (key :: keys) (key ++ b ++ jsonQuote :: rest) = (readStrings keys rest).map (Prod.map (s :: ·) id) := by
  rw [readStrings, readString_printed h, Option.bind_some]

end Inferno.Lib
