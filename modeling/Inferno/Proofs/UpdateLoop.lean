import Inferno.Spec.Web

/-! The receive loop of the update. Whatever pieces a body arrives in, the state after
some of them is a function of the bytes received: the image is hashed and written in
order, the header and the trailer are the body's own, and the verdict is the body's. -/

namespace Inferno

variable (env : WebEnv)

/-- A connection that delivers `body` in non-empty pieces, with fewer than three
timeouts in a row (`k` so far), to a flash that takes every write. -/
inductive Splits : ℕ → List UInt8 → List (Recv × Bool) → Prop where
  | done {k} : Splits k [] []
  | timeout {k rest s ok} (hk : k + 1 < 3) (h : Splits (k + 1) rest s) : Splits k rest ((.timeout, ok) :: s)
  | data {k b rest s} (hb : b ≠ []) (hl : b.length ≤ 4096) (h : Splits 0 rest s) :
      Splits k (b ++ rest) ((.data b, true) :: s)

def image (body : List UInt8) : List UInt8 := body.take (body.length - FW_TRAILER)
def trailerOf (body : List UInt8) : List UInt8 := body.drop (body.length - FW_TRAILER)

/-- The verdict on a body: header, signature over the image, image check. -/
def accepts (body : List UInt8) : Bool :=
  (headErr env (body.take DESC_END)).isNone && signatureOk env (env.sha256 (image body)) (trailerOf body) &&
    env.imageOk (image body)

/-- What the locals hold once the first `got` bytes of `body` have been received. -/
structure Received (body : List UInt8) (u : Upload) : Prop where
  total : u.total = body.length
  got : u.got ≤ body.length
  hashed : u.hashed = body.take (min u.got (body.length - FW_TRAILER))
  written : u.written = body.take (min u.got (body.length - FW_TRAILER))
  head : Holds u.head body (min u.got DESC_END)
  trailer : Holds u.trailer (trailerOf body) (u.got - (body.length - FW_TRAILER))
  passed : u.err = none → DESC_END ≤ u.got → headErr env (body.take DESC_END) = none
  failed : u.err ≠ none → headErr env (body.take DESC_END) ≠ none

theorem received_start (body : List UInt8) (head trailer : Mem) :
    Received env body (Upload.start body.length head trailer true) where
  total := rfl
  got := Nat.zero_le _
  hashed := by simp [Upload.start]
  written := by simp [Upload.start]
  head k hk := by simp [Upload.start] at hk
  trailer k hk := by simp [Upload.start] at hk
  passed _ h := absurd h (Nat.not_le.mpr (by decide : 0 < DESC_END))
  failed h := absurd rfl h

theorem take_piece_image (body : List UInt8) (got n len : ℕ) :
    body.take (min got len) ++ ((body.drop got).take n).take (if got < len then min (len - got) n else 0) =
      body.take (min (got + n) len) := by
  split_ifs with h
  · rw [List.take_take, show min (min (len - got) n) n = min (len - got) n by omega, Nat.min_eq_left h.le,
      ← List.take_add]
    congr 1
    omega
  · rw [List.take_zero, List.append_nil]
    congr 1
    omega

theorem memcpy_head {head : Mem} {body : List UInt8} {got n : ℕ} (h : Holds head body (min got DESC_END))
    (hg : got < DESC_END) (hn : got + n ≤ body.length) :
    Holds (memcpy head got (((body.drop got).take n).take (min (DESC_END - got) n))) body
      (min (got + n) DESC_END) := by
  rw [Nat.min_eq_left hg.le] at h
  have hcopy := Holds.memcpy (m := min (DESC_END - got) n) h
  rw [List.take_take, show min (min (DESC_END - got) n) n = min (DESC_END - got) n by omega]
  refine hcopy.mono ?_
  rw [List.length_take, List.length_drop]
  omega

theorem memcpy_trailer {trailer : Mem} {body : List UInt8} {got n len imgN : ℕ}
    (h : Holds trailer (body.drop len) (got - len)) (himg : imgN = if got < len then min (len - got) n else 0)
    (hlt : imgN < n) (hn : got + n ≤ body.length) :
    Holds (memcpy trailer (got + imgN - len) (((body.drop got).take n).drop imgN)) (body.drop len)
      (got + n - len) := by
  have hoff : got + imgN - len = got - len := by
    split_ifs at himg <;> omega
  have hpiece : ((body.drop got).take n).drop imgN = ((body.drop len).drop (got - len)).take (n - imgN) := by
    rw [List.drop_take, List.drop_drop, List.drop_drop]
    congr 2
    split_ifs at himg <;> omega
  rw [hoff, hpiece]
  refine (Holds.memcpy (m := n - imgN) h).mono ?_
  rw [List.length_take, List.length_drop, List.length_drop]
  split_ifs at himg <;> omega

/-- A piece that flash takes: the image part is hashed and written, and each of the
two buffers gets what is its own. -/
theorem takePiece_eq (b : List UInt8) (u : Upload) :
    takePiece env b true u = checkHead env b.length
      { u with
        head := if u.got < DESC_END then memcpy u.head u.got (b.take (min (DESC_END - u.got) b.length)) else u.head
        hashed := u.hashed ++ b.take (u.imgN b.length)
        written := u.written ++ b.take (u.imgN b.length)
        trailer := if b.length > u.imgN b.length
          then memcpy u.trailer (u.got + u.imgN b.length - u.imgLen) (b.drop (u.imgN b.length)) else u.trailer
        got := u.got + b.length } := by
  unfold takePiece
  by_cases hi : u.imgN b.length = 0
  · simp only [hi, ne_eq, not_true_eq_false, if_false, false_and, List.take_zero, List.append_nil]
    by_cases hd : u.got < DESC_END <;> by_cases ht : b.length > 0 <;> simp [hd, ht, Upload.imgLen]
  · by_cases hd : u.got < DESC_END <;> by_cases ht : b.length > u.imgN b.length <;>
      simp [hi, hd, ht, Upload.imgLen]

theorem descEnd_le : DESC_END ≤ 4096 + FW_TRAILER := by decide

theorem received_piece {body rest b : List UInt8} {u : Upload} (h : Received env body u)
    (hrest : body.drop u.got = b ++ rest) (hb : b ≠ []) (herr : u.err = none)
    (hlen : 4096 + FW_TRAILER ≤ body.length) :
    Received env body (takePiece env b true u) ∧ (takePiece env b true u).got = u.got + b.length := by
  have hbuf : b = (body.drop u.got).take b.length := by
    rw [hrest]
    exact List.take_left.symm
  have hn : u.got + b.length ≤ body.length := by
    have hl := congrArg List.length hrest
    rw [List.length_drop, List.length_append] at hl
    have := List.length_pos_of_ne_nil hb
    omega
  have hil : u.imgLen = body.length - FW_TRAILER := by rw [Upload.imgLen, h.total]
  have himg : u.imgN b.length = if u.got < body.length - FW_TRAILER
      then min (body.length - FW_TRAILER - u.got) b.length else 0 := by rw [Upload.imgN, hil]
  have hcat : body.take (min u.got (body.length - FW_TRAILER)) ++ b.take (u.imgN b.length) =
      body.take (min (u.got + b.length) (body.length - FW_TRAILER)) := by
    rw [← take_piece_image, ← hbuf, himg]
  set v : Upload := { u with
    head := if u.got < DESC_END then memcpy u.head u.got (b.take (min (DESC_END - u.got) b.length)) else u.head
    hashed := u.hashed ++ b.take (u.imgN b.length)
    written := u.written ++ b.take (u.imgN b.length)
    trailer := if b.length > u.imgN b.length
      then memcpy u.trailer (u.got + u.imgN b.length - u.imgLen) (b.drop (u.imgN b.length)) else u.trailer
    got := u.got + b.length } with hv
  have hhead : Holds v.head body (min v.got DESC_END) := by
    show Holds (if u.got < DESC_END then _ else _) body (min (u.got + b.length) DESC_END)
    split_ifs with hd
    · have hc := memcpy_head h.head hd hn
      rwa [← hbuf] at hc
    · exact h.head.mono (by omega)
  have htrailer : Holds v.trailer (trailerOf body) (v.got - (body.length - FW_TRAILER)) := by
    show Holds (if b.length > u.imgN b.length then _ else _) _ (u.got + b.length - (body.length - FW_TRAILER))
    split_ifs with ht
    · have hc := memcpy_trailer h.trailer himg ht hn
      rw [← hbuf] at hc
      rw [hil]
      exact hc
    · refine h.trailer.mono ?_
      have := List.length_pos_of_ne_nil hb
      split_ifs at himg <;> omega
  have hdesc : DESC_END ≤ body.length := descEnd_le.trans hlen
  rw [takePiece_eq, ← hv]
  have hgot : (checkHead env b.length v).got = u.got + b.length := by
    unfold checkHead
    split_ifs <;> rfl
  refine ⟨?_, hgot⟩
  unfold checkHead
  split_ifs with hd
  · -- the piece that completes the header: the check sees the body's own
    have hsee : bytesAt v.head 0 DESC_END = body.take DESC_END :=
      (hhead.mono (by omega)).bytesAt hdesc
    exact ⟨h.total, hn, by rw [← hcat, ← h.hashed], by rw [← hcat, ← h.written], hhead, htrailer,
      fun he _ => by rw [← hsee]; exact he, fun he => by rw [← hsee]; exact he⟩
  · refine ⟨h.total, hn, by rw [← hcat, ← h.hashed], by rw [← hcat, ← h.written], hhead, htrailer,
      fun _ hle => h.passed herr ?_, fun he => absurd herr he⟩
    by_contra hlt
    refine hd ⟨hle, ?_⟩
    show u.got + b.length - b.length < DESC_END
    omega

/-- A body that does not start with the image magic fails the header check too. -/
theorem headErr_of_magic {body : List UInt8} (h : body.getD 0 0 ≠ ESP_IMAGE_HEADER_MAGIC) :
    headErr env (body.take DESC_END) ≠ none := by
  have hd : (body.take DESC_END).getD 0 0 = body.getD 0 0 := by
    simp only [List.getD_eq_getElem?_getD, List.getElem?_take]
    rfl
  rw [headErr, if_pos (Or.inl (by rw [hd]; exact h))]
  exact Option.some_ne_none _

theorem receive_done (s : List (Recv × Bool)) {u : Upload} (h : u.receiving = false) : receive env s u = u := by
  cases s with
  | nil => simp [receive, h]
  | cons x s => simp [receive, h]

/-- The loop over any split of the body ends with everything received, or stopped by
the header check. -/
theorem receive_splits {body : List UInt8} (hlen : 4096 + FW_TRAILER ≤ body.length) {k : ℕ}
    {rest : List UInt8} {s : List (Recv × Bool)} (hs : Splits k rest s) {u : Upload}
    (h : Received env body u) (hk : u.timeouts = k) (hrest : body.drop u.got = rest) :
    Received env body (receive env s u) ∧ ((receive env s u).err = none → (receive env s u).got = body.length) := by
  have hstop : ∀ {u : Upload}, Received env body u → u.receiving = false →
      (u.err = none → u.got = body.length) := by
    intro u h hr he
    have hg := h.got
    simp only [Upload.receiving, he, Option.isNone_none, Bool.true_and, decide_eq_false_iff_not, h.total] at hr
    omega
  induction hs generalizing u with
  | done =>
    have hall : u.receiving = false := by
      have := List.drop_eq_nil_iff.mp hrest
      simp only [Upload.receiving, h.total, Bool.and_eq_false_iff, decide_eq_false_iff_not]
      exact Or.inr (by omega)
    rw [receive_done env [] hall]
    exact ⟨h, hstop h hall⟩
  | @timeout k rest s ok hk' _ ih =>
    cases hr : u.receiving with
    | false =>
      rw [receive_done env _ hr]
      exact ⟨h, hstop h hr⟩
    | true =>
      simp only [receive, hr, if_true, recvStep, hk, if_pos hk']
      refine ih ?_ rfl hrest
      exact { h with }
  | @data k b rest s hb hl _ ih =>
    cases hr : u.receiving with
    | false =>
      rw [receive_done env _ hr]
      exact ⟨h, hstop h hr⟩
    | true =>
      have herr : u.err = none := by
        simp only [Upload.receiving, Bool.and_eq_true, Option.isNone_iff_eq_none] at hr
        exact hr.1
      have hlb : b.length ≤ u.total - u.got := by
        have := congrArg List.length hrest
        rw [List.length_drop, List.length_append] at this
        rw [h.total]
        omega
      have hbuf : b.take (min 4096 (u.total - u.got)) = b := List.take_of_length_le (by omega)
      have h' : Received env body { u with timeouts := 0 } := { h with }
      simp only [receive, hr, if_true, recvStep, hbuf, if_neg hb]
      by_cases hm : u.got = 0 ∧ b.getD 0 0 ≠ ESP_IMAGE_HEADER_MAGIC
      · -- refused at its first byte
        rw [if_pos hm, receive_done env s (by simp [Upload.receiving])]
        have hbody : body.getD 0 0 = b.getD 0 0 := by
          rw [hm.1, List.drop_zero] at hrest
          obtain ⟨x, xs, rfl⟩ := List.exists_cons_of_ne_nil hb
          rw [hrest]
          rfl
        have hbad := headErr_of_magic env (by rw [hbody]; exact hm.2)
        exact ⟨{ h with passed := fun he => absurd he (by simp), failed := fun _ => hbad }, fun he => absurd he (by simp)⟩
      · rw [if_neg hm]
        obtain ⟨hp, hg⟩ := received_piece env h' hrest hb herr hlen
        refine ih hp ?_ ?_
        · rw [takePiece_eq]
          unfold checkHead
          split_ifs <;> rfl
        · rw [hg]
          show body.drop (u.got + b.length) = rest
          rw [← List.drop_drop, hrest, List.drop_left]

theorem setsBoot_eq {body : List UInt8} (hlen : 4096 + FW_TRAILER ≤ body.length) {u : Upload}
    (h : Received env body u) (hdone : u.err = none → u.got = body.length) :
    setsBoot env u = accepts env body ∧
      (u.err = none → u.written = image body ∧ u.hashed = image body ∧
        bytesAt u.trailer 0 FW_TRAILER = trailerOf body ∧ bytesAt u.head 0 DESC_END = body.take DESC_END) := by
  have hdesc : DESC_END ≤ body.length := descEnd_le.trans hlen
  cases he : u.err with
  | some e =>
    have hbad := h.failed (by simp [he])
    refine ⟨?_, fun hn => by cases hn⟩
    have hset : setsBoot env u = false := by simp [setsBoot, checkSignature, otaEnd, he]
    rw [hset, accepts, Option.isNone_eq_false_iff.mpr (Option.isSome_iff_ne_none.mpr hbad)]
    rfl
  | none =>
    have hgot := hdone he
    have hmin : min u.got (body.length - FW_TRAILER) = body.length - FW_TRAILER := by omega
    have hw : u.written = image body := by rw [h.written, hmin, image]
    have hh : u.hashed = image body := by rw [h.hashed, hmin, image]
    have htl : (trailerOf body).length = FW_TRAILER := by
      rw [trailerOf, List.length_drop]
      omega
    have ht : bytesAt u.trailer 0 FW_TRAILER = trailerOf body := by
      have hb := (h.trailer.mono (m := FW_TRAILER) (by rw [hgot]; omega)).bytesAt (by rw [htl])
      rw [hb, ← htl, List.take_length]
    have hd : bytesAt u.head 0 DESC_END = body.take DESC_END :=
      (h.head.mono (m := DESC_END) (by rw [hgot]; omega)).bytesAt hdesc
    refine ⟨?_, fun _ => ⟨hw, hh, ht, hd⟩⟩
    have hpass := h.passed he (by rw [hgot]; exact hdesc)
    rw [setsBoot, checkSignature, hh, ht, hw, accepts, hpass]
    cases hsig : signatureOk env (env.sha256 (image body)) (trailerOf body) <;>
      cases him : env.imageOk (image body) <;> simp [otaEnd, he]

/-- However the body is split, the loop hands image, header and trailer to the right
consumers, and the verdict is the body's own. -/
theorem update_verdict_of_split {body : List UInt8} (hlen : 4096 + FW_TRAILER ≤ body.length) (head trailer : Mem)
    {s : List (Recv × Bool)} (hs : Splits 0 body s) :
    ((receive env s (Upload.start body.length head trailer true)).err = none →
      (receive env s (Upload.start body.length head trailer true)).written = image body ∧
      (receive env s (Upload.start body.length head trailer true)).hashed = image body ∧
      bytesAt (receive env s (Upload.start body.length head trailer true)).trailer 0 FW_TRAILER = trailerOf body ∧
      bytesAt (receive env s (Upload.start body.length head trailer true)).head 0 DESC_END = body.take DESC_END) ∧
    setsBoot env (receive env s (Upload.start body.length head trailer true)) = accepts env body ∧
    (accepts env body = true → signatureOk env (env.sha256 (image body)) (trailerOf body) = true ∧
      headErr env (body.take DESC_END) = none) := by
  obtain ⟨h, hdone⟩ := receive_splits env hlen hs (received_start env body head trailer) rfl rfl
  obtain ⟨hset, hall⟩ := setsBoot_eq env hlen h hdone
  refine ⟨hall, hset, fun ha => ?_⟩
  simp only [accepts, Bool.and_eq_true, Option.isNone_iff_eq_none] at ha
  exact ⟨ha.1.2, ha.1.1⟩

/-- A signer every signature satisfies, on a board without a project name. -/
def openEnv : WebEnv where
  sha256 := fun _ => []
  pkVerify := fun _ _ => true
  imageOk := fun _ => true
  projectName := []
  chipRevision := 0
  level := fun _ => 65536

/-- 4096 bytes with an image header and an app description. -/
def smallImage : List UInt8 :=
  ESP_IMAGE_HEADER_MAGIC :: (List.replicate 31 0 ++ [0x32, 0x54, 0xCD, 0xAB] ++ List.replicate 4060 0)

def smallTrailer : List UInt8 := FW_MAGIC ++ [1, 0] ++ List.replicate 118 0

theorem smallImage_length : smallImage.length = 4096 := by
  simp only [smallImage, List.length_cons, List.length_append, List.length_replicate, List.length_nil]

theorem smallTrailer_length : smallTrailer.length = FW_TRAILER := by
  simp only [smallTrailer, FW_MAGIC, FW_TRAILER, List.length_cons, List.length_append, List.length_replicate,
    List.length_nil]

theorem splits_small : Splits 0 (smallImage ++ smallTrailer)
    [(.data smallImage, true), (.timeout, true), (.data smallTrailer, true)] := by
  rw [← List.append_nil smallTrailer]
  refine .data ?_ ?_ (.timeout (by decide) (.data ?_ ?_ .done))
  · exact List.ne_nil_of_length_pos (by rw [smallImage_length]; decide)
  · rw [smallImage_length]
  · exact List.ne_nil_of_length_pos (by rw [smallTrailer_length]; decide)
  · rw [smallTrailer_length]
    decide

theorem update_verdict_of_split_small :
    setsBoot openEnv (receive openEnv [(.data smallImage, true), (.timeout, true), (.data smallTrailer, true)]
      (Upload.start (smallImage ++ smallTrailer).length (fun _ => 0) (fun _ => 0) true)) = true :=
  (update_verdict_of_split openEnv (by rw [List.length_append, smallImage_length, smallTrailer_length])
    (fun _ => 0) (fun _ => 0) splits_small).2.1.trans (by decide +kernel)

end Inferno
