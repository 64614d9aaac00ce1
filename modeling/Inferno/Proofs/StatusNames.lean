import Inferno.Spec.WebStatus

/-! The names on the status page: what `jstr` leaves in its buffer is the escape of as
much of the string as fits, whole, and nothing behind the buffer is touched. Before each
character seven bytes are free: six for the longest escape, one for the NUL. -/

namespace Inferno

open Lib

/-- `body` is written at the start of a buffer of `n` bytes, and no byte behind them. -/
structure Filled (n : ℕ) (body out₀ out : List UInt8) : Prop where
  room : n ≤ out.length
  only : Only 0 n out₀ out
  length : out.length = out₀.length
  sits : Sits body out 0

variable {n : ℕ} {body out₀ out : List UInt8}

theorem filled_nil (h : n ≤ out.length) : Filled n [] out out :=
  ⟨h, Only.refl 0 n out, rfl, ⟨Nat.zero_le _, fun k hk => absurd hk (Nat.not_lt_zero k)⟩⟩

theorem Filled.store (h : Filled n body out₀ out) (bs : List UInt8) (hin : body.length + bs.length ≤ n) :
    ∃ out', storeAt body.length bs out = .ok out' ∧ Filled n (body ++ bs) out₀ out' := by
  have hroom : body.length + bs.length ≤ out.length := hin.trans h.room
  obtain ⟨honly, hsits, hlen⟩ := overwritten hroom
  refine ⟨overwrite out body.length bs, checked_ok hroom _, ⟨?_, ?_, hlen.trans h.length, ?_⟩⟩
  · rw [hlen]
    exact h.room
  · exact h.only.trans (honly.mono (Nat.zero_le _) hin)
  · exact sits_append_iff.mpr ⟨h.sits.frame honly (Or.inl (by omega)), hsits.at (Nat.zero_add _).symm⟩

theorem Filled.cut {bs : List UInt8} (h : Filled n (body ++ bs) out₀ out) : Filled n body out₀ out :=
  ⟨h.room, h.only, h.length, (sits_append_iff.mp h.sits).1⟩

theorem snprintf_whole {size : ℕ} {text : List UInt8} (h : text.length < size) : snprintf size text = text ++ [0] := by
  rw [snprintf, if_neg (by omega), List.take_of_length_le (by omega)]

theorem jstrByte_filled (h : Filled n body out₀ out) (hroom : body.length + 7 < n) (c : UInt8) :
    ∃ out', jstrByte n c body.length out = .ok ((body ++ escapeByte c).length, out') ∧
      Filled n (body ++ escapeByte c) out₀ out' := by
  unfold jstrByte escapeByte
  by_cases hq : c = jsonQuote ∨ c = jsonBackslash
  · obtain ⟨out1, hrun1, h1⟩ := h.store [jsonBackslash] (by rw [List.length_singleton]; omega)
    obtain ⟨out2, hrun2, h2⟩ := h1.store [c] (by simp only [List.length_append, List.length_singleton]; omega)
    rw [List.length_append, List.length_singleton] at hrun2
    rw [List.append_assoc] at h2
    refine ⟨out2, ?_, ?_⟩
    · rw [if_pos hq, if_pos hq, hrun1, ok_bind, hrun2, ok_bind, List.length_append]
      rfl
    · rw [if_pos hq]
      exact h2
  · by_cases hc : c < 0x20
    · have hlen : (u04x c).length = 6 := rfl
      have htext : snprintf (n - body.length) (u04x c) = u04x c ++ [0] := snprintf_whole (by omega)
      obtain ⟨out1, hrun1, h1⟩ := h.store (u04x c ++ [0]) (by rw [List.length_append, List.length_singleton]; omega)
      rw [← List.append_assoc] at h1
      refine ⟨out1, ?_, ?_⟩
      · rw [if_neg hq, if_pos hc, if_neg hq, if_pos hc, htext, hrun1, ok_bind, List.length_append]
        rfl
      · rw [if_neg hq, if_pos hc]
        exact h1.cut
    · obtain ⟨out1, hrun1, h1⟩ := h.store [c] (by rw [List.length_singleton]; omega)
      refine ⟨out1, ?_, ?_⟩
      · rw [if_neg hq, if_neg hc, if_neg hq, if_neg hc, hrun1, ok_bind, List.length_append, List.length_singleton]
      · rw [if_neg hq, if_neg hc]
        exact h1

/-- What the loop has written when it stops: the escape of a prefix, and the prefix is
all of the string unless the buffer is full. -/
structure Stopped (n : ℕ) (t s out₀ out : List UInt8) (u : List UInt8) : Prop where
  filled : Filled n (jsonEscape (t ++ u)) out₀ out
  room : (jsonEscape (t ++ u)).length + 2 ≤ n
  start : u <+: cstr s
  full : u = cstr s ∨ n ≤ (jsonEscape (t ++ u)).length + 7

theorem jstrLoop_stopped {t s : List UInt8} (hs : 0 ∈ s) (h : Filled n (jsonEscape t) out₀ out)
    (hroom : (jsonEscape t).length + 2 ≤ n) :
    ∃ u out', jstrLoop n s (jsonEscape t).length out = .ok ((jsonEscape (t ++ u)).length, out') ∧
      Stopped n t s out₀ out' u := by
  induction s generalizing t out with
  | nil => exact absurd hs List.not_mem_nil
  | cons c s ih =>
    by_cases hgo : c ≠ 0 ∧ (jsonEscape t).length + 7 < n
    · obtain ⟨out1, hrun1, h1⟩ := jstrByte_filled h hgo.2 c
      have hstep : jsonEscape t ++ escapeByte c = jsonEscape (t ++ [c]) := by
        rw [jsonEscape_append, jsonEscape, jsonEscape, List.flatMap_singleton]
      have hlen : (jsonEscape (t ++ [c])).length ≤ (jsonEscape t).length + 6 := by
        rw [← hstep, List.length_append]
        exact Nat.add_le_add_left (escapeByte_length c).2 _
      rw [hstep] at hrun1 h1
      have hs' : 0 ∈ s := (List.mem_cons.mp hs).resolve_left hgo.1.symm
      obtain ⟨u, out2, hrun2, h2⟩ := ih hs' h1 (by omega)
      have hcons : t ++ [c] ++ u = t ++ (c :: u) := by rw [List.append_assoc, List.singleton_append]
      have hstr : cstr (c :: s) = c :: cstr s := List.takeWhile_cons_of_pos (by simpa using hgo.1)
      rw [hcons] at hrun2
      refine ⟨c :: u, out2, ?_, ?_⟩
      · rw [jstrLoop, if_pos hgo, hrun1, ok_bind]
        exact hrun2
      · obtain ⟨hfilled, hroom', hstart, hfull⟩ := h2
        rw [hcons] at hfilled hroom' hfull
        refine ⟨hfilled, hroom', ?_, ?_⟩
        · rw [hstr]
          exact (List.prefix_cons_inj c).mpr hstart
        · rw [hstr]
          exact hfull.imp_left (congrArg (c :: ·))
    · refine ⟨[], out, ?_, ?_⟩
      · rw [jstrLoop, if_neg hgo, List.append_nil]
      · have hstop : c = 0 ∨ n ≤ (jsonEscape t).length + 7 := by
          rw [not_and_or, not_not] at hgo
          exact hgo.imp_right Nat.le_of_not_lt
        refine ⟨by rwa [List.append_nil], by rwa [List.append_nil], List.nil_prefix, ?_⟩
        rw [List.append_nil]
        exact hstop.imp_left fun h0 => (List.takeWhile_cons_of_neg (by simpa using h0)).symm

/-- What `jstr` leaves of the string `s` in a buffer of `n` bytes: the escape of `u`. -/
structure Shown (n : ℕ) (s out₀ out u : List UInt8) : Prop where
  only : Only 0 n out₀ out
  length : out.length = out₀.length
  str : cstr out = jsonEscape u
  short : (jsonEscape u).length < n
  start : u <+: s
  whole : (jsonEscape s).length ≤ n - 7 → u = s

theorem whole_of_full {u s : List UInt8} (hstart : u <+: s) (hfull : u = s ∨ n ≤ (jsonEscape u).length + 7)
    (hfit : (jsonEscape s).length ≤ n - 7) : u = s := by
  obtain ⟨r, rfl⟩ := hstart
  by_contra hne
  have hr : r ≠ [] := fun h => hne (by rw [h, List.append_nil])
  have hpos := jsonEscape_length_pos hr
  have hlong := hfull.resolve_left hne
  rw [jsonEscape_append, List.length_append] at hfit
  omega

theorem shown_of_filled {u s : List UInt8} (h : Filled n (jsonEscape u ++ [0]) out₀ out)
    (hroom : (jsonEscape u).length + 2 ≤ n) (hstart : u <+: s) (hfull : u = s ∨ n ≤ (jsonEscape u).length + 7) :
    Shown n s out₀ out u where
  only := h.only
  length := h.length
  str := h.sits.takeWhile fun h0 => absurd ((jsonBody_escape u).printable 0 h0) (by decide)
  short := by omega
  start := hstart
  whole := whole_of_full hstart hfull

theorem jstr_shown (hn : 8 ≤ n) (hout : n ≤ out.length) {s : Option (List UInt8)} (hs : ∀ l ∈ s, 0 ∈ l) :
    ∃ u out', jstr out n s = .ok out' ∧ Shown n (pointed s) out out' u := by
  cases s with
  | none =>
    obtain ⟨out1, hrun1, h1⟩ := (filled_nil hout).store [0] (by rw [List.length_nil, List.length_singleton]; omega)
    refine ⟨[], out1, ?_, shown_of_filled h1 (by change 0 + 2 ≤ n; omega) List.nil_prefix (Or.inl rfl)⟩
    exact hrun1
  | some l =>
    obtain ⟨u, out1, hrun1, h1⟩ := jstrLoop_stopped (t := []) (hs l rfl) (filled_nil hout) (by change 0 + 2 ≤ n; omega)
    obtain ⟨hfilled, hroom, hstart, hfull⟩ := h1
    rw [List.nil_append] at hrun1 hfilled hroom hfull
    obtain ⟨out2, hrun2, h2⟩ := hfilled.store [0] (by rw [List.length_singleton]; omega)
    refine ⟨u, out2, ?_, shown_of_filled h2 hroom hstart hfull⟩
    rw [jstr]
    change (jstrLoop n l 0 out >>= fun p => storeAt p.1 [0] p.2) = _
    rw [show (0 : ℕ) = (jsonEscape []).length from rfl, hrun1, ok_bind, hrun2]

/-- Whatever a name is made of, `jstr` stays in its buffer and leaves a JSON string body
there: whole escapes and plain bytes, which stand for a prefix of the name, and for all of
it where its escape fits. -/
theorem status_name_escaped (hn : 8 ≤ n) (hout : n ≤ out.length) {s : Option (List UInt8)} (hs : ∀ l ∈ s, 0 ∈ l) :
    ∃ out', jstr out n s = .ok out' ∧ Only 0 n out out' ∧ out'.length = out.length ∧ (cstr out').length < n ∧
      JsonBody (cstr out') ∧
      ∃ u, jsonUnescape (cstr out') = some u ∧ u <+: pointed s ∧ ((jsonEscape (pointed s)).length ≤ n - 7 → u = pointed s) := by
  obtain ⟨u, out', hrun, h⟩ := jstr_shown hn hout hs
  refine ⟨out', hrun, h.only, h.length, ?_⟩
  rw [h.str]
  exact ⟨h.short, jsonBody_escape u, u, jsonUnescape_escape u, h.start, h.whole⟩

/-- A name of a quote, a backslash, a line feed and a letter. -/
theorem status_name_escaped_quoted :
    8 ≤ STATUS_NAME_LEN ∧ (∀ l ∈ some ([0x22, 0x5C, 0x0A, 0x41, 0, 0x42] : List UInt8), 0 ∈ l) ∧
      ∃ out', jstr (List.replicate 96 0xA5) STATUS_NAME_LEN (some [0x22, 0x5C, 0x0A, 0x41, 0, 0x42]) = .ok out' ∧
        Only 0 STATUS_NAME_LEN (List.replicate 96 0xA5) out' ∧ out'.length = (List.replicate 96 (0xA5 : UInt8)).length ∧
        (cstr out').length < STATUS_NAME_LEN ∧ JsonBody (cstr out') ∧
        ∃ u, jsonUnescape (cstr out') = some u ∧ u <+: pointed (some [0x22, 0x5C, 0x0A, 0x41, 0, 0x42]) ∧
          ((jsonEscape (pointed (some [0x22, 0x5C, 0x0A, 0x41, 0, 0x42]))).length ≤ STATUS_NAME_LEN - 7 →
            u = pointed (some [0x22, 0x5C, 0x0A, 0x41, 0, 0x42])) :=
  ⟨by decide, by simp, status_name_escaped (by decide) (by decide) (by simp)⟩

/-- In nine bytes a quote is escaped and the line feed behind it no longer begun. -/
example : jstr [1, 1, 1, 1, 1, 1, 1, 1, 1] 9 (some [0x22, 0x0A, 0]) = .ok [0x5C, 0x22, 0, 1, 1, 1, 1, 1, 1] := by decide

structure NameBufs.Roomy (m : NameBufs) : Prop where
  name : STATUS_NAME_LEN ≤ m.name.length
  a : STATUS_NAME_LEN ≤ m.a.length
  b : STATUS_NAME_LEN ≤ m.b.length

/-- The text before each name of a channel object, its opening quote included. -/
def channelKeys (first : Bool) : List (List UInt8) :=
  [(if first then [] else ascii ",") ++ ascii "\x7b\"name\":\"", ascii ",\"tx_channel\":\"", ascii ",\"tx_device\":\""]

/-- A name as the page reads it: cut off at most at its end, and only if it has control
bytes. -/
structure ReadAs (u s : CStr) : Prop where
  start : u <+: s
  whole : (∀ c ∈ s, 0x20 ≤ c) → u = s

theorem readAs_of_shown {a : CharArray 31} {u : List UInt8} (h : Shown STATUS_NAME_LEN a.str out₀ out u) :
    ReadAs u a.str := by
  refine ⟨h.start, fun hprint => h.whole ?_⟩
  have hlen := jsonEscape_length_printable hprint
  have hfield := a.str_length
  have hroom : STATUS_NAME_LEN - 7 = 73 := rfl
  omega

theorem jstr_field (a : CharArray 31) (hout : STATUS_NAME_LEN ≤ out.length) :
    ∃ u out', jstr out STATUS_NAME_LEN (some a.bytes) = .ok out' ∧ jsonUnescape (cstr out') = some u ∧ ReadAs u a.str ∧
      STATUS_NAME_LEN ≤ out'.length := by
  have hnul : ∀ l ∈ some a.bytes, 0 ∈ l := fun l hl => Option.some.inj hl ▸ a.nul_mem
  obtain ⟨u, out', hrun, h⟩ := jstr_shown (by decide) hout hnul
  refine ⟨u, out', hrun, ?_, readAs_of_shown h, hout.trans h.length.ge⟩
  rw [h.str]
  exact jsonUnescape_escape u

theorem escapeNames_read {m : NameBufs} (hm : m.Roomy) (friendly txChannel txDevice : CharArray 31) :
    ∃ m' u v w, escapeNames friendly.bytes txChannel.bytes txDevice.bytes m = .ok m' ∧ m'.Roomy ∧
      (∀ first, readStrings (channelKeys first) (channelText first m') = some ([u, v, w], ascii "\x7d")) ∧
      ReadAs u friendly.str ∧ ReadAs v txChannel.str ∧ ReadAs w txDevice.str := by
  obtain ⟨u, name, hname, hu, hru, hlu⟩ := jstr_field friendly hm.name
  obtain ⟨v, a, ha, hv, hrv, hlv⟩ := jstr_field txChannel hm.a
  obtain ⟨w, b, hb, hw, hrw, hlw⟩ := jstr_field txDevice hm.b
  refine ⟨⟨name, a, b⟩, u, v, w, ?_, ⟨hlu, hlv, hlw⟩, fun first => ?_, hru, hrv, hrw⟩
  · rw [escapeNames, hname, ok_bind, ha, ok_bind, hb, ok_bind]
  · have htext : channelText first ⟨name, a, b⟩ =
        ((if first then [] else ascii ",") ++ ascii "\x7b\"name\":\"") ++ cstr name ++ jsonQuote ::
          (ascii ",\"tx_channel\":\"" ++ cstr a ++ jsonQuote ::
            (ascii ",\"tx_device\":\"" ++ cstr b ++ jsonQuote :: ascii "\x7d")) := by
      have hchannel : ascii "\",\"tx_channel\":\"" = jsonQuote :: ascii ",\"tx_channel\":\"" := by decide
      have hdevice : ascii "\",\"tx_device\":\"" = jsonQuote :: ascii ",\"tx_device\":\"" := by decide
      have hclose : ascii "\"\x7d" = jsonQuote :: ascii "\x7d" := by decide
      simp only [channelText, hchannel, hdevice, hclose, List.append_assoc, List.cons_append]
    rw [htext, channelKeys, readStrings_printed hu, readStrings_printed hv, readStrings_printed hw]
    rfl

end Inferno
