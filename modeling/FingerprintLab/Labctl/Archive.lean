import FingerprintLab.Labctl.Target
import FingerprintLab.Lab.Files

/-!
# `labctl capture` and the archive

One iteration of the capture loop on a target: the profile directory is snapshot, the capture
overwrites it, and when a latest target's JA4 has changed the snapshot is copied to a directory of
its own and registered.

* `sanitizeID`, `parseMajor`          the helpers for the archive id;
* `readSlot`                          `slot.json`, completed from `profile.json` and `meta.json`;
* `archiveDst`                        the directory of an archive, and whether it is to be copied;
* `maybeArchiveAfterCapture`, `updateSlotAfterCapture`
* `captureTarget`                     the iteration; the hello and the probe's answer are inputs.
-/

set_option linter.unusedVariables false

namespace Labctl
open Go Lab

/-! ## ids and versions -/

/-- `strings.ReplaceAll(s, "--", "-")` -/
def replaceDashes : Bytes → Bytes
  | [] => []
  | [b] => [b]
  | b :: c :: s =>
    if b = 0x2d ∧ c = 0x2d then 0x2d :: replaceDashes s else b :: replaceDashes (c :: s)

/-- `strings.Contains(s, "--")` -/
def hasDashes : Bytes → Bool
  | b :: c :: s => (b == 0x2d && c == 0x2d) || hasDashes (c :: s)
  | _ => false

/-- the loop of `sanitizeID`; a turn removes at least one byte, so the length is fuel enough -/
def collapseDashes : Nat → Bytes → Bytes
  | 0, s => s
  | n + 1, s => if hasDashes s then collapseDashes n (replaceDashes s) else s

/-- `strings.Trim(s, "-")` -/
def trimDashes (s : Bytes) : Bytes :=
  ((s.dropWhile (· == 0x2d)).reverse.dropWhile (· == 0x2d)).reverse

def sanitizeID (s : Bytes) : Bytes :=
  let out := idText s
  trimDashes (collapseDashes out.length out)

def isDigit (b : Byte) : Bool := 0x30 ≤ b && b ≤ 0x39

/-- The first run of digits; `strconv.Atoi` returns the largest `int` when it is too long, and its
error is ignored. -/
def parseMajor (ver : Bytes) : Int :=
  let digits := ((trimSpace ver).dropWhile fun b => !isDigit b).takeWhile isDigit
  min (digits.foldl (fun n b => n * 10 + (b.toNat - 48)) 0 : Nat) (2 ^ 63 - 1)

/-! ## the slot -/

def readSlot (d : Dir) : Slot :=
  let s := d.slot.getD {}
  let s := if s.ja4 = [] then { s with ja4 := d.profileJA4 } else s
  if s.softwareMajor = 0 then
    match Doc.read? d.metaDoc with
    | some m =>
      let s := { s with softwareMajor := m.softwareMajor }
      let s :=
        if s.softwareVersion = [] then
          { s with softwareVersion :=
              if m.softwareVersion = [] then m.resolvedVersion else m.softwareVersion }
        else s
      if s.softwareMajor = 0 then { s with softwareMajor := parseMajor s.softwareVersion } else s
    | none => s
  else s

def writeSlot (d : Dir) (s : Slot) : Dir := { d with slot := some s }

/-! ## the lab -/

/-- `profiles/`, and the rows of `targets.yaml` and of `targets.archive.yaml` -/
structure LabRoot where
  profiles : Tree
  targets : List Target
  archive : List Target

def LabRoot.setDir (lab : LabRoot) (id : Bytes) (d : Dir) : LabRoot :=
  { lab with profiles := Function.update lab.profiles id d }

/-- the five files in a temporary directory; nothing without a hello -/
def snapshotProfile (d : Dir) : Option Dir := if d.hello = none then none else some d

def archivePrefix (t : Target) (old : Slot) : Bytes :=
  let major := if old.softwareMajor = 0 then parseMajor old.softwareVersion else old.softwareMajor
  if major = 0 ∨ major ≥ versionLatest then
    t.family ++ str "-prev-" ++ sanitizeID (old.ja4.take 12)
  else t.family ++ str "-" ++ decInt major

/-- The id of the archive, and whether the snapshot is copied there.  The directory with the suffix
is taken as it is. -/
def archiveDst (profiles : Tree) (archID : Bytes) (old : Slot) : Bytes × Bool :=
  let archID := sanitizeID archID
  if (profiles archID).hello ≠ none then
    if (profiles archID).profileJA4 = old.ja4 then (archID, false)
    else (archID ++ str "-" ++ sanitizeID (old.ja4.take 12), true)
  else (archID, true)

/-- the rewritten `id` of a `profile.json` -/
def setID (archID : Bytes) : Doc ProfileDoc → Doc ProfileDoc
  | .good p => .good { p with id := archID }
  | .bad raw => .bad raw

/-- the copy of a snapshot over what the directory holds -/
def copySnapshot (dst before : Dir) (archID : Bytes) (old : Slot) : Dir where
  hello := before.hello <|> dst.hello
  profile := (before.profile <|> dst.profile).map (setID archID)
  metaDoc := before.metaDoc <|> dst.metaDoc
  readme := before.readme <|> dst.readme
  slot := some
    { ja4 := old.ja4
      softwareVersion := old.softwareVersion
      softwareMajor := old.softwareMajor
      track := trackPinned }

/-- a plain YAML scalar decoded into a string -/
def yamlWord (s : Bytes) : Bytes :=
  if s ∈ [str "~", str "null", str "Null", str "NULL"] then [] else s

/-- the appended row; `loadLab` reads both files, a row with the id stops it -/
def ensureArchiveTarget (lab : LabRoot) (latest : Target) (archID : Bytes) (old : Slot) : LabRoot :=
  if (loadLab lab.targets lab.archive).any fun t => t.id = archID then lab
  else
    let major := if old.softwareMajor = 0 then parseMajor old.softwareVersion else old.softwareMajor
    let major := if major = 0 then 1 else major
    let row : Target :=
      { id := yamlWord archID
        group := str "browsers"
        kind := str "wishlist"
        status := str "active"
        utlsReady := true
        family := yamlWord latest.family
        version := major
        track := trackPinned
        pin := decInt major
        imagePolicy := imageCache
        notes := str "auto-archived from " ++ latest.id ++ str " when JA4 changed" }
    { lab with archive := lab.archive ++ [row] }

def archiveSnapshot (lab : LabRoot) (latest : Target) (before : Dir) (old : Slot)
    (archID : Bytes) : LabRoot :=
  let dst := archiveDst lab.profiles archID old
  let lab :=
    if dst.2 then lab.setDir dst.1 (copySnapshot (lab.profiles dst.1) before dst.1 old) else lab
  let lab := ensureArchiveTarget lab latest dst.1 old
  let d := lab.profiles latest.id
  lab.setDir latest.id (writeSlot d { readSlot d with ja4 := d.profileJA4, track := trackLatest })

/-- the slot of the snapshot, with the JA4 that it stands for -/
def oldSlot (before : Dir) : Slot :=
  let old := readSlot before
  if old.ja4 = [] then { old with ja4 := before.profileJA4 } else old

def maybeArchiveAfterCapture (lab : LabRoot) (t : Target) (before : Option Dir) : LabRoot :=
  match before with
  | none => lab
  | some before =>
    if t.track ≠ trackLatest then lab
    else
      let d := lab.profiles t.id
      let old := oldSlot before
      let newJA4 := d.profileJA4
      if old.ja4 = [] ∨ newJA4 = [] ∨ old.ja4 = newJA4 then
        let slot : Slot := { readSlot d with ja4 := newJA4, track := trackLatest }
        let slot :=
          if slot.softwareMajor = 0 then
            { slot with softwareMajor := old.softwareMajor, softwareVersion := old.softwareVersion }
          else slot
        lab.setDir t.id (writeSlot d slot)
      else archiveSnapshot lab t before old (archivePrefix t old)

/-- `probe` is the answer of `probeSoftwareVersion` -/
def updateSlotAfterCapture (lab : LabRoot) (t : Target) (probe : Bytes × Int) : LabRoot :=
  let d := lab.profiles t.id
  if d.hello = none then lab
  else
    let slot : Slot := { readSlot d with ja4 := d.profileJA4, track := t.track }
    let slot :=
      if t.track = trackLatest then
        if probe.2 > 0 then { slot with softwareVersion := probe.1, softwareMajor := probe.2 } else slot
      else if t.pin ≠ [] then
        { slot with softwareVersion := t.pin, softwareMajor := parseMajor t.pin }
      else if 0 < t.version ∧ t.version < versionLatest then { slot with softwareMajor := t.version }
      else slot
    lab.setDir t.id (writeSlot d slot)

/-! ## one iteration -/

/-- what a successful capture writes -/
structure Capture where
  hello : Bytes
  profile : ProfileDoc
  metaDoc : MetaDoc
  readme : Bytes := []

def Capture.over (c : Capture) (d : Dir) : Dir :=
  { d with
    hello := some c.hello
    profile := some (.good c.profile)
    metaDoc := some (.good c.metaDoc)
    readme := some c.readme }

def captureTarget (lab : LabRoot) (t : Target) (c : Capture) (probe : Bytes × Int) : LabRoot :=
  let before := snapshotProfile (lab.profiles t.id)
  let lab := lab.setDir t.id (c.over (lab.profiles t.id))
  let lab := maybeArchiveAfterCapture lab t before
  updateSlotAfterCapture lab t probe

end Labctl
