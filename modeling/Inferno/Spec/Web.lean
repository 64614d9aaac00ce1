import Inferno.Spec.JitterBuf

/-! The firmware update of `web.c`: the upload request as the steps a reset can fall
between (each received piece, the verdict, the wipe), and the request to go back. The
hash, the signature check and the flash driver are outside the source; they are
parameters of `WebEnv` and outcomes of the events. -/

namespace Inferno

def FW_TRAILER : ℕ := 128
/-- `NSFWSIG1`. -/
def FW_MAGIC : List UInt8 := [0x4E, 0x53, 0x46, 0x57, 0x53, 0x49, 0x47, 0x31]
def ESP_IMAGE_HEADER_MAGIC : UInt8 := 0xE9
def ESP_APP_DESC_MAGIC_WORD : ℕ := 0xABCD5432
/-- Image header, segment header and app description. -/
def DESC_START : ℕ := 24 + 8
def DESC_END : ℕ := DESC_START + 256
/-- `part->erase_size`: one flash sector. -/
def PART_ERASE_SIZE : ℕ := 4096

/-- What the update asks of code outside the source: SHA-256, the ECDSA check with the
embedded key, what `esp_ota_end` makes of the image, and this board's identity. -/
structure WebEnv where
  sha256 : List UInt8 → List UInt8
  pkVerify : List UInt8 → List UInt8 → Bool
  imageOk : List UInt8 → Bool
  projectName : List UInt8
  chipRevision : ℕ
  level : ℤ → ℕ

/-- The status line and text of a refusal. -/
structure HttpErr where
  status : String
  msg : String
  deriving DecidableEq, Repr

def err400 (msg : String) : HttpErr := ⟨"400 Bad Request", msg⟩
def err500 (msg : String) : HttpErr := ⟨"500 Internal Server Error", msg⟩

def rdLe16 (l : List UInt8) (i : ℕ) : ℕ := (l.getD i 0).toNat + (l.getD (i + 1) 0).toNat * 2 ^ 8

def rdLe32 (l : List UInt8) (i : ℕ) : ℕ := rdLe16 l i + rdLe16 l (i + 2) * 2 ^ 16

def cstr (l : List UInt8) : List UInt8 := l.takeWhile (· ≠ 0)

/-- The header check, on the first `DESC_END` bytes of the upload. -/
def headErr (env : WebEnv) (head : List UInt8) : Option HttpErr :=
  if head.getD 0 0 ≠ ESP_IMAGE_HEADER_MAGIC ∨ rdLe32 head DESC_START ≠ ESP_APP_DESC_MAGIC_WORD ∨
      cstr ((head.drop (DESC_START + 48)).take 32) ≠ cstr (env.projectName.take 32) then
    some (err400 "not a DAC8 firmware file")
  else if env.chipRevision < rdLe16 head 15 ∨ env.chipRevision > rdLe16 head 17 then
    some (err400 "firmware is for another chip revision")
  else none

def signatureOk (env : WebEnv) (hash trailer : List UInt8) : Bool :=
  if trailer.take 8 ≠ FW_MAGIC then false
  else
    let n := rdLe16 trailer 8
    if n = 0 ∨ n > FW_TRAILER - 10 then false
    else env.pkVerify hash ((trailer.drop 10).take n)

/-- What `httpd_req_recv` returns: bytes, a timeout, or an error. -/
inductive Recv where
  | data (bytes : List UInt8)
  | timeout
  | fail

structure Upload where
  total : ℕ
  got : ℕ
  timeouts : ℕ
  head : Mem
  trailer : Mem
  hashed : List UInt8
  written : List UInt8
  err : Option HttpErr

def Upload.imgLen (u : Upload) : ℕ := u.total - FW_TRAILER

def Upload.start (total : ℕ) (head trailer : Mem) (beginOk : Bool) : Upload where
  total := total
  got := 0
  timeouts := 0
  head := head
  trailer := trailer
  hashed := []
  written := []
  err := if beginOk then none else some (err500 "could not open the spare app slot")

def Upload.receiving (u : Upload) : Bool := u.err.isNone && decide (u.got < u.total)

def Upload.imgN (u : Upload) (n : ℕ) : ℕ := if u.got < u.imgLen then min (u.imgLen - u.got) n else 0

/-- The header check, made by the piece that completes the header. -/
def checkHead (env : WebEnv) (n : ℕ) (u : Upload) : Upload :=
  if u.got ≥ DESC_END ∧ u.got - n < DESC_END then { u with err := headErr env (bytesAt u.head 0 DESC_END) }
  else u

def takePiece (env : WebEnv) (buf : List UInt8) (writeOk : Bool) (u : Upload) : Upload :=
  let n := buf.length
  let imgN := u.imgN n
  let u := if u.got < DESC_END then
      { u with head := memcpy u.head u.got (buf.take (min (DESC_END - u.got) n)) }
    else u
  let u := if imgN ≠ 0 then { u with hashed := u.hashed ++ buf.take imgN } else u
  if imgN ≠ 0 ∧ writeOk = false then { u with err := some (err500 "flash write failed") }
  else
    let u := if imgN ≠ 0 then { u with written := u.written ++ buf.take imgN } else u
    let u := if n > imgN then
        { u with trailer := memcpy u.trailer (u.got + imgN - u.imgLen) (buf.drop imgN) }
      else u
    checkHead env n { u with got := u.got + n }

def recvStep (env : WebEnv) (r : Recv) (writeOk : Bool) (u : Upload) : Upload :=
  match r with
  | .timeout =>
    if u.timeouts + 1 < 3 then { u with timeouts := u.timeouts + 1 }
    else { u with timeouts := u.timeouts + 1, err := some (err400 "upload interrupted") }
  | .fail => { u with err := some (err400 "upload interrupted") }
  | .data bytes =>
    let buf := bytes.take (min 4096 (u.total - u.got))
    if buf = [] then { u with err := some (err400 "upload interrupted") }
    else if u.got = 0 ∧ buf.getD 0 0 ≠ ESP_IMAGE_HEADER_MAGIC then
      { u with timeouts := 0, err := some (err400 "not a DAC8 firmware file") }
    else takePiece env buf writeOk { u with timeouts := 0 }

/-- The whole loop on what the connection delivers; afterwards it reads as closed. -/
def receive (env : WebEnv) : List (Recv × Bool) → Upload → Upload
  | [], u => if u.receiving then { u with err := some (err400 "upload interrupted") } else u
  | (r, writeOk) :: s, u => if u.receiving then receive env s (recvStep env r writeOk u) else u

def checkSignature (env : WebEnv) (u : Upload) : Upload :=
  if u.err = none ∧ signatureOk env (env.sha256 u.hashed) (bytesAt u.trailer 0 FW_TRAILER) = false then
    { u with err := some ⟨"403 Forbidden", "signature does not match"⟩ }
  else u

def otaEnd (ok : Bool) (u : Upload) : Upload :=
  if u.err = none ∧ ok = false then { u with err := some (err400 "image check failed") } else u

def selectBoot (ok : Bool) (u : Upload) : Upload :=
  if u.err = none ∧ ok = false then { u with err := some (err500 "could not select the new image") } else u

def setsBoot (env : WebEnv) (u : Upload) : Bool :=
  (otaEnd (env.imageOk u.written) (checkSignature env u)).err.isNone

inductive Phase where
  | receiving
  | imageCheck
  | select
  | wipe
  | answer
  deriving DecidableEq, Repr

/-- The web server's state, the app slots as flash holds them, which one runs and which
is selected, and every image `signature_ok` has accepted or the factory flashed. -/
structure Web where
  jb : JitterBuf
  updating : Bool
  upload : Option (Upload × Phase)
  slots : Bool → List UInt8
  running : Bool
  boot : Bool
  verified : List (List UInt8)

def Web.spare (w : Web) : List UInt8 := w.slots (!w.running)

def Web.setSpare (w : Web) (l : List UInt8) : Web := { w with slots := Function.update w.slots (!w.running) l }

def volumePost (env : WebEnv) (db : Option ℤ) (mute : Option Bool) (w : Web) : Web :=
  let w := match db with
    | some v => { w with jb := jbSetGainDb env.level v w.jb }
    | none => w
  match mute with
  | some on => { w with jb := jbSetMute env.level on w.jb }
  | none => w

/-- The size of the spare app slot, if there is one, and the heap, as a request finds
them. -/
structure PostEnv where
  part : Option ℕ
  memory : Bool
  head : Mem
  trailer : Mem
  beginOk : Bool

/-- `update_post` up to its loop: the refusals, then the update under way. -/
def updateBegin (env : WebEnv) (q : PostEnv) (total : ℕ) (w : Web) : Web × Option HttpErr :=
  if w.updating then (w, some ⟨"409 Conflict", "an update is already running"⟩)
  else
    match q.part with
    | none => (w, some (err500 "no spare app slot"))
    | some size =>
      if total < 4096 + FW_TRAILER ∨ total - FW_TRAILER > size then
        (w, some (err400 "not a DAC8 firmware file (size)"))
      else if q.memory = false then (w, some (err500 "no memory"))
      else
        ({ w with
            updating := true
            jb := jbSetMute env.level true w.jb
            upload := some (Upload.start total q.head q.trailer q.beginOk, .receiving) }, none)

/-- One step of an update under way, with what the world answers to it. -/
inductive UpdateStep where
  | recv (r : Recv) (writeOk : Bool) (behind : List UInt8)
  | verify
  | imageCheck (ok : Bool)
  | select (ok : Bool)
  | wipe (ok : Bool)
  | answer

/-- The spare slot after a round of the loop: what was written lies at its start, and
`behind` is how it reads from there on. -/
def flashed (u u' : Upload) (behind : List UInt8) (w : Web) : Web :=
  if u'.hashed ≠ u.hashed then w.setSpare (u'.written ++ behind) else w

def wiped (w : Web) : Web :=
  w.setSpare (List.replicate PART_ERASE_SIZE 0xFF ++ w.spare.drop PART_ERASE_SIZE)

def updateStep (env : WebEnv) (w : Web) (e : UpdateStep) : Web :=
  match w.upload, e with
  | some (u, .receiving), .recv r writeOk behind =>
    if u.receiving then
      let u' := recvStep env r writeOk u
      { flashed u u' behind w with upload := some (u', .receiving) }
    else w
  | some (u, .receiving), .verify =>
    if u.receiving then w
    else
      let u' := checkSignature env u
      { w with
        upload := some (u', .imageCheck)
        verified := if u'.err = none then w.verified ++ [u.hashed] else w.verified }
  | some (u, .imageCheck), .imageCheck ok => { w with upload := some (otaEnd ok u, .select) }
  | some (u, .select), .select ok =>
    { w with
      upload := some (selectBoot ok u, .wipe)
      boot := if u.err = none ∧ ok = true then !w.running else w.boot }
  | some (u, .wipe), .wipe ok =>
    if u.err ≠ none ∧ ok = true then { wiped w with upload := some (u, .answer) }
    else { w with upload := some (u, .answer) }
  | some (u, .answer), .answer =>
    if u.err ≠ none then { w with jb := jbSetMute env.level false w.jb, updating := false, upload := none }
    else { w with upload := none }
  | _, _ => w

/-- `previous_post`: `valid` is what the flash driver says of the spare slot's image,
`described` whether its description can be read. -/
def previousPost (env : WebEnv) (hasPart described : Bool) (valid : List UInt8 → Bool) (w : Web) :
    Web × Option HttpErr :=
  if w.updating then (w, some ⟨"409 Conflict", "an update is running"⟩)
  else if !hasPart || !described then (w, some ⟨"404 Not Found", "no previous firmware"⟩)
  else if valid w.spare = false then (w, some (err500 "the previous firmware is not valid"))
  else ({ w with boot := !w.running, updating := true, jb := jbSetMute env.level true w.jb }, none)

/-- What moves the board: requests, the steps of an update, and a reset, after which
the bootloader starts an app from one of the slots (by selection, trial or rollback). -/
inductive WebEvent where
  | post (q : PostEnv) (total : ℕ)
  | update (e : UpdateStep)
  | previous (hasPart described : Bool)
  | reset (slot : Bool)

def webStep (env : WebEnv) (valid : List UInt8 → Bool) (w : Web) : WebEvent → Web
  | .post q total => (updateBegin env q total w).1
  | .update e => updateStep env w e
  | .previous hasPart described => (previousPost env hasPart described valid w).1
  | .reset slot =>
    { w with
      jb := { w.jb with mute := false }
      updating := false
      upload := none
      running := slot
      boot := slot }

end Inferno
