import FingerprintLab.Base.Slice
import FingerprintLab.Capture.Helpers

/-!
# `analyze`: from a TLS record to `Meta`

`parse` is the part of `analyze` that walks the record with its index `i`; it returns the values
of the local variables that the rest of `analyze` renders.  Every slice and index expression of the
source is a `slice`, `index` or `uint16At` here, so an access out of range is the fault `panic`.

* `helloBody`    the record header and the handshake header;
* `fixedPart`    version, session id, cipher suites and compression methods;
* `extLoop`      the extension loop, with `extCase` its `switch`;
* `buildJA3`, `buildJA4`, `analyze`.
-/

set_option linter.unusedVariables false

namespace Capture
open Go

/-- what the extension loop of `analyze` fills -/
structure Exts where
  extIDs : List UInt16 := []
  groups : List UInt16 := []
  sigs : List UInt16 := []
  versions : List UInt16 := []
  sni : Bytes := []
  alpn : List Bytes := []
  deriving DecidableEq, Repr

/-- the local variables of `analyze` after the walk -/
structure Parsed where
  recVer : UInt16
  helloVer : UInt16
  ciphers : List UInt16
  exts : Exts
  deriving DecidableEq, Repr

/-! ## the fixed part -/

/-- the version of the record and the body of the handshake message -/
def helloBody (record : Bytes) : Res (UInt16 × Bytes) :=
  if record.length < 5 then fail "short record" else do
  let recVer ← uint16At record 1
  let hs ← slice record 5 record.length
  if hs.length < 4 then fail "not ClientHello handshake" else do
  if (← index hs 0) ≠ 0x01 then fail "not ClientHello handshake" else do
  let b1 ← index hs 1
  let b2 ← index hs 2
  let b3 ← index hs 3
  let bodyLen := b1.toNat * 65536 + b2.toNat * 256 + b3.toNat
  let body ← slice hs 4 hs.length
  if body.length < bodyLen then fail "truncated hello body" else do
  let body ← slice body 0 bodyLen
  if body.length < 34 then fail "hello too short" else
  return (recVer, body)

/-- the version, the cipher suites and the index behind the compression methods -/
def fixedPart (body : Bytes) : Res (UInt16 × List UInt16 × Nat) := do
  let helloVer ← uint16At body 0
  -- skip random 32
  let i := 34
  if i ≥ body.length then fail "no session id" else do
  let sidLen ← index body i
  let i := i + 1
  let i := i + sidLen.toNat
  if i + 2 > body.length then fail "no ciphers" else do
  let csLen ← uint16At body i
  let i := i + 2
  if i + csLen.toNat > body.length then fail "bad cipher len" else do
  let ciphers ← uint16s body i csLen.toNat (csLen.toNat + 1) 0
  let i := i + csLen.toNat
  if i ≥ body.length then fail "no compression" else do
  let compLen ← index body i
  let i := i + 1
  let i := i + compLen.toNat
  return (helloVer, ciphers, i)

/-! ## the extensions -/

/-- `supported_groups` and `signature_algorithms`: a two-byte length, then words -/
def uint16List (data : Bytes) : Res (List UInt16) :=
  if data.length ≥ 2 then do
    let ll ← uint16At data 0
    uint16s data 0 (min (2 + ll.toNat) data.length) (data.length + 1) 2
  else return []

/-- `supported_versions`: a one-byte length, then words -/
def versionList (data : Bytes) : Res (List UInt16) :=
  if data.length ≥ 1 then do
    let ll ← index data 0
    uint16s data 0 (min (1 + ll.toNat) data.length) (data.length + 1) 1
  else return []

/-- the name loop of the ALPN extension from index `j` on; `lim` is `2+ll` -/
def alpnLoop (data : Bytes) (lim : Nat) : Nat → Nat → Res (List Bytes)
  | 0, _ => .error .loop
  | fuel+1, j =>
    if j < lim ∧ j < data.length then do
      let n ← index data j
      let j := j + 1
      if j + n.toNat > data.length then return [] else do
      let name ← slice data j (j + n.toNat)
      let names ← alpnLoop data lim fuel (j + n.toNat)
      return name :: names
    else return []

def alpnList (data : Bytes) : Res (List Bytes) :=
  if data.length ≥ 2 then do
    let ll ← uint16At data 0
    alpnLoop data (2 + ll.toNat) (data.length + 1) 2
  else return []

/-- the host name of a `server_name` extension, if the data is long enough for one -/
def serverName (data : Bytes) (sni : Bytes) : Res Bytes :=
  if data.length ≥ 5 then do
    let n ← uint16At data 3
    if 5 + n.toNat ≤ data.length then slice data 5 (5 + n.toNat) else return sni
  else return sni

/-- the `switch` on the extension id -/
def extCase (eid : UInt16) (data : Bytes) (x : Exts) : Res Exts :=
  if eid = 0x0000 then do
    return { x with sni := ← serverName data x.sni }
  else if eid = 0x000a then do
    return { x with groups := x.groups ++ (← uint16List data) }
  else if eid = 0x000d then do
    return { x with sigs := x.sigs ++ (← uint16List data) }
  else if eid = 0x0010 then do
    return { x with alpn := x.alpn ++ (← alpnList data) }
  else if eid = 0x002b then do
    return { x with versions := x.versions ++ (← versionList data) }
  else return x

/-- the extension loop; `stop` is the source's `end` -/
def extLoop (body : Bytes) (stop : Nat) : Nat → Nat → Exts → Res Exts
  | 0, _, _ => .error .loop
  | fuel+1, i, x =>
    if i + 4 ≤ stop then do
      let eid ← uint16At body i
      let el ← uint16At body (i + 2)
      let i := i + 4
      if i + el.toNat > stop then return x else do
      let data ← slice body i (i + el.toNat)
      let x ← extCase eid data { x with extIDs := x.extIDs ++ [eid] }
      extLoop body stop fuel (i + el.toNat) x
    else return x

/-- the extension block, clamped to the body; no block at all leaves every list empty -/
def extensions (body : Bytes) (i : Nat) : Res Exts :=
  if i + 2 ≤ body.length then do
    let extLen ← uint16At body i
    let i := i + 2
    extLoop body (min (i + extLen.toNat) body.length) (body.length + 1) i {}
  else return {}

def parse (record : Bytes) : Res Parsed := do
  let (recVer, body) ← helloBody record
  let (helloVer, ciphers, i) ← fixedPart body
  let exts ← extensions body i
  return { recVer, helloVer, ciphers, exts }

/-! ## the fingerprints -/

/-- the JA3 string and its MD5 -/
def buildJA3 (version : UInt16) (ciphers extensions groups : List UInt16) (points : List Byte) :
    Bytes × Bytes :=
  let s := join [decimal version.toNat, joinUint16 ciphers true, joinUint16 extensions true,
    joinUint16 groups true, joinUint8 points] (str ",")
  (s, md5String s)

/-- the maximum of the hello version and the versions that are no GREASE -/
def ja4Version (supportedVersions : List UInt16) (helloVer : UInt16) : UInt16 :=
  supportedVersions.foldl (fun ver v => if !isGREASE16 v && ver < v then v else ver) helloVer

def verStr (ver : UInt16) : Bytes :=
  if ver = 0x0304 then str "13"
  else if ver = 0x0303 then str "12"
  else if ver = 0x0302 then str "11"
  else if ver = 0x0301 then str "10"
  else str "00"

/-- the code of the first ALPN name; `string(a[0])` of a byte is the rune of that value -/
def alpnFirst (alpn : List Bytes) : Bytes :=
  match alpn with
  | [] => str "00"
  | a :: _ =>
    match a with
    | [] => str "00"
    | [c] => sanitizeALPN (encodeRune c.toNat ++ str "0")
    | c :: d :: a => sanitizeALPN (encodeRune c.toNat ++ encodeRune ((d :: a).getLastD d).toNat)

/-- the extensions that the JA4 lists: no GREASE, no SNI, no ALPN -/
def eClean (exts : List UInt16) : List UInt16 :=
  exts.filter fun e => !isGREASE16 e && e != 0x0000 && e != 0x0010

/-- `hex.EncodeToString(sum[:])[:12]` of the SHA-256 of a string -/
def sha12 (s : Bytes) : Bytes := (hexEncode (sha256 s)).take 12

def ja4A (supportedVersions : List UInt16) (helloVer : UInt16) (hasSNI : Bool)
    (ciphers exts : List UInt16) (alpn : List Bytes) : Bytes :=
  str "t" ++ verStr (ja4Version supportedVersions helloVer)
    ++ (if hasSNI then str "d" else str "i")
    ++ dec02 (min (clean ciphers).length 99) ++ dec02 (min (eClean exts).length 99)
    ++ alpnFirst alpn

/-- the string whose digest is the second part -/
def bSrc (ciphers : List UInt16) : Bytes := joinUint16HexLower (clean ciphers) false

/-- the string whose digest is the third part; the length test is on the unfiltered `sigs` -/
def cSrc (exts sigs : List UInt16) : Bytes :=
  joinUint16HexLower (sortUint16 (eClean exts)) false
    ++ (if sigs.length > 0 then str "_" ++ joinUint16HexLower (clean sigs) false else [])

def buildJA4 (supportedVersions : List UInt16) (helloVer : UInt16) (hasSNI : Bool)
    (ciphers exts sigs : List UInt16) (alpn : List Bytes) : Bytes :=
  ja4A supportedVersions helloVer hasSNI ciphers exts alpn ++ str "_" ++ sha12 (bSrc ciphers)
    ++ str "_" ++ sha12 (cSrc exts sigs)

/-- `Meta`; the time stamp is the instant that its RFC 3339 text stands for -/
structure Meta where
  targetID : Bytes := []
  capturedAt : Int := 0
  peer : Bytes := []
  sni : Bytes := []
  alpn : List Bytes := []
  tlsVersionRecord : Bytes := []
  tlsVersionHello : Bytes := []
  ja3 : Bytes := []
  ja3Hash : Bytes := []
  ja4 : Bytes := []
  cipherSuites : List Bytes := []
  extensions : List Bytes := []
  supportedGroups : List Bytes := []
  signatureAlgorithms : List Bytes := []
  clientHelloSHA256 : Bytes := []
  clientHelloPath : Bytes := []
  utlsFingerprinterOK : Bool := false
  notes : Bytes := []
  deriving DecidableEq, Repr

/-- the `Meta` that `analyze` renders from its local variables -/
def Parsed.meta (p : Parsed) : Meta :=
  let ja3 := buildJA3 p.helloVer p.ciphers p.exts.extIDs p.exts.groups []
  { sni := p.exts.sni
    alpn := p.exts.alpn
    tlsVersionRecord := str "0x" ++ hex04 p.recVer
    tlsVersionHello := str "0x" ++ hex04 p.helloVer
    ja3 := ja3.1
    ja3Hash := ja3.2
    ja4 := buildJA4 p.exts.versions p.helloVer (p.exts.sni != []) p.ciphers p.exts.extIDs
      p.exts.sigs p.exts.alpn
    cipherSuites := hexList16 p.ciphers
    extensions := hexList16 p.exts.extIDs
    supportedGroups := hexList16 p.exts.groups
    signatureAlgorithms := hexList16 p.exts.sigs }

def analyze (record : Bytes) : Res Meta := do
  let p ← parse record
  return p.meta

theorem analyze_of_parse {record : Bytes} {p : Parsed} (h : parse record = .ok p) :
    analyze record = .ok p.meta := by
  unfold analyze
  rw [h]
  rfl

theorem parse_of_analyze {record : Bytes} {m : Meta} (h : analyze record = .ok m) :
    ∃ p, parse record = .ok p ∧ m = p.meta := by
  unfold analyze at h
  cases hp : parse record with
  | error e => rw [hp] at h; cases h
  | ok p =>
    rw [hp] at h
    exact ⟨p, rfl, (Except.ok.inj h).symm⟩

end Capture
