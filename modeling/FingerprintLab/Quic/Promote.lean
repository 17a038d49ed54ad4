import FingerprintLab.Base.Digest
import FingerprintLab.Quic.Files
import Mathlib.Logic.Function.Basic

/-!
# Promotion of a finished QUIC gather

`finishPeer` writes a directory under `captures/`, named by the time in seconds and the id, and
`promoteProfile` then writes `profiles/<id>`.  Both write over what is there.  A failed write of a
datagram, of the capture's `meta.json` or of `profile.json` is an error; the other files are written
without a look at the error.

* `Gathered`            what the functions use of the third-party gather;
* `peerID`              the id: from the SNI, from the hint, or from the peer's address;
* `emitOf`              the switch over the ids that the lab knows;
* `promoteProfile`, `finishPeer`
* `initials_ok`         the datagrams after the loop that writes them.
-/

set_option linter.unusedVariables false

namespace Quic
open Go Py Writes

/-! ## the gather -/

structure ClientHello where
  serverName : Bytes
  raw : Bytes

structure TransportParameters where
  qtpIDs : List UInt64
  json : Bytes

/-- `packets` are the headers of the gathered packets, as their encoding is read; `fingerprint` is
the `HexID` of `GenerateQUICFingerprint`, if that succeeds -/
structure Gathered where
  clientHello : Option ClientHello := none
  packets : List (Option HeaderDoc) := []
  transportParameters : Option TransportParameters := none
  completed : Bool := false
  fingerprint : Option Bytes := none
  hexID : Bytes := []
  json : Bytes := []

/-- `gather.Packets[0].Header` -/
def Gathered.header (g : Gathered) : Option HeaderDoc := g.packets.head?.join

/-- the reassembled ClientHello, when there is one with bytes -/
def Gathered.rawHello (g : Gathered) : Option Bytes :=
  match g.clientHello with
  | some ch => if ch.raw.length > 0 then some ch.raw else none
  | none => none

/-! ## the id -/

def keptRune (r : Nat) : Bool :=
  0x61 ≤ r && r ≤ 0x7a || 0x41 ≤ r && r ≤ 0x5a || 0x30 ≤ r && r ≤ 0x39 || r == 0x2d || r == 0x5f

def sanitize (s : Bytes) : Bytes :=
  trim 0x2d ((runes (trimSpace s)).map fun r => if keptRune r then UInt8.ofNat r else 0x2d)

def targetFromSNI (sni : Bytes) : Bytes :=
  let sni := toLower (trimSpace sni)
  let i := sni.findIdx (· == 0x2e)
  sanitize (if 0 < i ∧ i < sni.length then sni.take i else sni)

def peerID (peer hint : Bytes) (g : Gathered) : Bytes :=
  let id := sanitize hint
  let id :=
    match g.clientHello with
    | some ch =>
      if ch.serverName ≠ [] then
        let fromSNI := targetFromSNI ch.serverName
        if fromSNI ≠ [] then fromSNI else id
      else id
    | none => id
  if id = [] ∨ id = str "unknown" then
    str "peer-" ++ sanitize (peer.map fun b => if b = 0x3a then 0x2d else b)
  else id

/-! ## the profile -/

/-- the third-party constant for a GREASE parameter -/
def QTP_GREASE : UInt64 := 27

def tpToken (idn : UInt64) : Bytes :=
  if idn = QTP_GREASE then str "GREASE" else str "0x" ++ hexNat idn.toNat

def hasTP (ids : List Bytes) (want : Bytes) : Bool := ids.any fun id => id == want

def emitKind (kind : String) : Emit := { emitKind := .val (str kind) }

def matchOnly (notes : Bytes) : Emit :=
  { emitKind := .val (str "match_only"), notes := .val notes }

def plainNotes (notes : Bytes) : Emit :=
  { emitKind := .val (str "sagernet_plain"), notes := .val notes }

def uquicPreset (preset : String) : Emit :=
  { emitKind := .val (str "uquic_preset"), uquicPreset := .val (str preset) }

/-- `≡` and `—` in UTF-8 -/
def identicalTo : Bytes := [0xe2, 0x89, 0xa1]
def emDash : Bytes := [0xe2, 0x80, 0x94]

/-- the switch over the id; `none` is its missing default -/
def emitOf (id : Bytes) : Option (Emit × Bytes) :=
  let has := fun s => contains id (str s)
  let starts := fun s => (str s).isPrefixOf id
  if id = str "chromeparrot" || has "hy2parrot" || starts "chromeparrot" then
    some (emitKind "sagernet_chrome_parrot", str "chrome")
  else if has "tuicparrot" then some (emitKind "sagernet_chrome_parrot", str "chrome")
  else if has "quicgodg" || has "quicgo-datagram" then
    some (plainNotes (str "EnableDatagrams; expect " ++ identicalTo ++ str " hy2plain"), str "quic-go")
  else if has "hy2plain" || has "tuicplain" then
    some (plainNotes (str "product plain + datagrams (0x20); see F-HY2PLAIN_DATAGRAM_0x20"),
      str "quic-go")
  else if id = str "quicgo" || starts "quicgo" then some (emitKind "sagernet_plain", str "quic-go")
  else if has "uquic146" then some (uquicPreset "chrome-146", str "chrome")
  else if has "uquic115" then some (uquicPreset "chrome-115", str "chrome")
  else if has "uquicffa" then some (uquicPreset "firefox-116a", str "firefox")
  else if has "uquicffb" then some (uquicPreset "firefox-116b", str "firefox")
  else if has "uquicffc" then some (uquicPreset "firefox-116c", str "firefox")
  else if has "uquicff" then some (uquicPreset "firefox-116", str "firefox")
  else if has "aioquic" then some (matchOnly (str "python aioquic"), str "aioquic")
  else if has "curlquiche" || has "curl" then some (matchOnly (str "curl+quiche"), str "quiche")
  else if has "chromiumfresh" || has "chromefresh" then
    some (matchOnly (str "chromedp/headless-shell live H3; freshness vs zenika chromium + chromeparrot"),
      str "chrome")
  else if id = str "winchrome" || starts "winchrome" then
    some (matchOnly (str "Windows host Google Chrome H3"), str "chrome")
  else if id = str "winedge" || starts "winedge" then
    some (matchOnly (str "Windows host Microsoft Edge H3"), str "chrome")
  else if id = str "winyandex" || starts "winyandex" then
    some (matchOnly (str "Windows host Yandex Browser H3"), str "chrome")
  else if has "yandex" then
    some (matchOnly (str "live Yandex Browser H3 (Docker); compare vs chromeparrot/chromiumfresh"),
      str "chrome")
  else if has "chromium" then
    some (matchOnly (str "live zenika/alpine-chrome H3; TP has 0x4752/0xff73db, no 0x11/0x3128 "
      ++ emDash ++ str " not chromeparrot"), str "chrome")
  else if id = str "firefox" || starts "firefox" then some (matchOnly (str "live Firefox H3"), str "firefox")
  else none

/-- `dcidLen` and `scidLen` are declared in the source and never set, so they are `null`. -/
def profileOf (id : Bytes) (g : Gathered) : RawProfile :=
  let tpIDs :=
    match g.transportParameters with
    | some tp => tp.qtpIDs.map tpToken
    | none => []
  let family :=
    if hasTP tpIDs (str "0x11") && hasTP tpIDs (str "0x3128") then str "chrome" else str "unknown"
  let hexID :=
    if g.completed then
      let fp := g.fingerprint.getD []
      if fp = [] then g.hexID else fp
    else []
  let (emit, family) := (emitOf id).getD (emitKind "match_only", family)
  { format := str "quic-raw-initial-v1"
    id := .val id
    family := .val family
    version := 0
    track := str "pinned"
    expected := .val
      { ja4 := .val []
        clienthellodID := .val hexID
        tpIDSet := .val (tpIDs.map .str)
        dcidLen := .null
        scidLen := .null
        header := g.header }
    emit := .val emit
    notes := str "auto-promoted from capture; review family/expected/emit (docs/REPLAY_AND_EMIT.md)" }

/-! ## the writes -/

inductive WriteError where
  | mkdir (path : Bytes)
  | write (path : Bytes)
  deriving DecidableEq, Repr

/-- `fmt.Sprintf("%03d.bin", i)` -/
def initialName (i : Nat) : Bytes := dec03 i ++ str ".bin"

/-- the loop over the datagrams from number `i` on -/
def writeInitials (locked : Bytes → Bool) : Files → Nat → List Bytes →
    Except (WriteError × Files) Files
  | m, _, [] => .ok m
  | m, i, d :: ds =>
    let path := str "initials/" ++ initialName i
    if locked path then .error (.write path, m)
    else writeInitials locked (m.insert (initialName i) d) (i + 1) ds

/-- `_ = os.WriteFile(..)` of a part that is there -/
def writePart {α : Type} (locked : Bool) (part old : Option α) : Option α :=
  match part with
  | some x => if locked then old else some x
  | none => old

def promoteProfile (dir : ProfileDir) (id : Bytes) (datagrams : List Bytes) (g : Gathered)
    (summary : Summary) : Except (WriteError × ProfileDir) ProfileDir :=
  if dir.locked (str "initials") then .error (.mkdir (str "initials"), dir)
  else
    match writeInitials dir.locked dir.initials 0 datagrams with
    | .error (e, m) => .error (e, { dir with initials := m })
    | .ok m =>
      let dir := { dir with
        initials := m
        metaDoc := writePart (dir.locked (str "meta.json")) (some summary) dir.metaDoc
        header := writePart (dir.locked (str "header.json")) g.header dir.header
        tp := writePart (dir.locked (str "tp.json")) (g.transportParameters.map (·.json)) dir.tp
        clienthello :=
          writePart (dir.locked (str "clienthello.bin")) g.rawHello dir.clienthello }
      if dir.locked (str "profile.json") then .error (.write (str "profile.json"), dir)
      else .ok { dir with profile := some (profileOf id g) }

/-- the two readings of the clock, as the source formats them -/
structure Clock where
  /-- `20060102T150405Z` -/
  ts : Bytes
  /-- RFC 3339 -/
  capturedAt : Bytes

def summaryOf (peer id : Bytes) (clock : Clock) (datagrams : List Bytes) (g : Gathered) : Summary where
  peer := peer
  targetID := id
  capturedAt := clock.capturedAt
  datagrams := datagrams.length
  completed := g.completed
  gathered := g.json
  fingerprint := if g.completed then g.fingerprint else none
  firstSHA256 := datagrams.head?.map fun d => hexEncode (sha256 d)

def captureID (clock : Clock) (id : Bytes) : Bytes := clock.ts ++ str "-" ++ id

def writeCapture (dir : CaptureDir) (datagrams : List Bytes) (summary : Summary) :
    Except (WriteError × CaptureDir) CaptureDir :=
  if dir.locked (str "initials") then .error (.mkdir (str "initials"), dir)
  else
    match writeInitials dir.locked dir.initials 0 datagrams with
    | .error (e, m) => .error (e, { dir with initials := m })
    | .ok m =>
      let dir := { dir with initials := m }
      if dir.locked (str "meta.json") then .error (.write (str "meta.json"), dir)
      else .ok { dir with metaDoc := some summary }

def finishPeer (lab : QuicLab) (peer hint : Bytes) (promote : Bool) (datagrams : List Bytes)
    (g : Gathered) (clock : Clock) : Except (WriteError × QuicLab) QuicLab :=
  let id := peerID peer hint g
  let capID := captureID clock id
  let summary := summaryOf peer id clock datagrams g
  match writeCapture (lab.captures capID) datagrams summary with
  | .error (e, dir) => .error (e, { lab with captures := Function.update lab.captures capID dir })
  | .ok dir =>
    let lab := { lab with captures := Function.update lab.captures capID dir }
    if !promote then .ok lab
    else
      match promoteProfile (lab.profiles id) id datagrams g summary with
      | .error (e, dir) => .error (e, { lab with profiles := Function.update lab.profiles id dir })
      | .ok dir => .ok { lab with profiles := Function.update lab.profiles id dir }

end Quic
