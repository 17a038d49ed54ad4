import FingerprintLab.Base.Digest
import FingerprintLab.Base.Paths
import FingerprintLab.Base.Ranking
import FingerprintLab.Base.Writes
import FingerprintLab.Labctl.Target
import FingerprintLab.Lab.Files
import Mathlib.Data.Finset.Sort

/-!
# `labctl export`

`runExport` collects the eligible targets with their profiles, ranks them within each family,
merges those of one JA4 under the short name of the best one, and writes the export tree with its
catalog.

* `RankedMember`, `member`      a target with what its profile directory says about it;
* `betterMember`                the ranking comparison;
* `nameClasses`, `nameFamily`   the loops over the JA4 classes of one family and over the families;
* `dedupCheck`, `copyProfiles`  the check and the copies, with their errors;
* `Leads`                       when two short names are paths of one directory of the export;
* `CopyFault`, `Faults`         files that are there and cannot be read or copied;
* `catalogStamp`                the content hash of the catalog.

A Go map is a `Finmap`; the orders in which Go iterates over maps are `MapOrders`.
-/

set_option linter.unusedVariables false

namespace Labctl
open Go Lab Ranking Writes

/-- `time.Time{}` -/
def zeroTime : Int := -62135596800000000000

structure RankedMember where
  t : Target
  capturedAt : Int := zeroTime
  ja4 : Bytes := []
  format : Bytes := []
  hasProfile : Bool := false
  deriving DecidableEq, Repr

structure ExportProfile where
  shortName : Bytes
  labID : Bytes
  family : Bytes
  rank : Nat
  version : Int
  track : Bytes
  builtin : Bool
  ja4 : Bytes
  format : Bytes
  deriving DecidableEq, Repr

/-- `familyRequired` is `target %s: family required for export`, `dedup` is `dedup check failed: %s
and %s share family=%s ja4=%s`, and `copy` wraps the error of copying a file of that lab id. -/
inductive ExportError where
  | familyRequired (id : Bytes)
  | dedup (prev short family ja4 : Bytes)
  | copy (labID name : Bytes)
  deriving DecidableEq, Repr

/-! ## the members -/

def kindBuiltin : Bytes := str "emit-builtin"

/-- what `meta.json`, `profile.json` and `clienthello.bin` of the target's directory say -/
def member (profiles : Tree) (t : Target) : RankedMember :=
  let d := profiles t.id
  let m : RankedMember := { t, hasProfile := d.hello.isSome }
  let m := match Doc.read? d.metaDoc with
    | some md => { m with capturedAt := md.capturedAt.getD zeroTime, ja4 := md.ja4 }
    | none => m
  match Doc.read? d.profile with
  | some p => { m with format := p.format, ja4 := if m.ja4 = [] then p.ja4 else m.ja4 }
  | none => m

/-- the targets that the export looks at -/
def candidate (t : Target) : Bool := t.status = str "active" && t.utlsReady

/-- the loop over `cfg.Targets`; a target without a hello or a JA4 is skipped with a warning -/
def collect (profiles : Tree) : List Target → Except ExportError (List RankedMember)
  | [] => .ok []
  | t :: ts =>
    if !candidate t then collect profiles ts
    else if t.family = [] then .error (.familyRequired t.id)
    else
      let m := member profiles t
      if !m.hasProfile then collect profiles ts
      else if m.ja4 = [] then collect profiles ts
      else do
        let ms ← collect profiles ts
        return m :: ms

/-! ## ranking -/

/-- whether `a` ranks before `b` -/
def betterMember (a b : RankedMember) : Bool :=
  let la : Bool := a.t.track = trackLatest
  let lb : Bool := b.t.track = trackLatest
  if la != lb then la
  else
    let bi : Bool := a.t.kind = kindBuiltin
    let bj : Bool := b.t.kind = kindBuiltin
    if bi != bj then !bi && bj
    else if a.t.version ≠ b.t.version then a.t.version > b.t.version
    else if a.capturedAt ≠ b.capturedAt then a.capturedAt > b.capturedAt
    else a.t.id < b.t.id

/-- `sort.SliceStable` with `betterMember` -/
def sortMembers (l : List RankedMember) : List RankedMember :=
  l.insertionSort fun a b => !betterMember b a

def shortName (family : Bytes) (rank : Nat) : Bytes :=
  if rank > 0 then family ++ str "-" ++ decimal rank else family

def entry (family : Bytes) (rank : Nat) (m : RankedMember) : ExportProfile where
  shortName := shortName family rank
  labID := m.t.id
  family := family
  rank := rank
  version := m.t.version
  track := m.t.track
  builtin := m.t.kind = kindBuiltin
  ja4 := m.ja4
  format := m.format

/-- `defaultAliases` -/
def defaultAliasPairs : List (Bytes × Bytes) :=
  [([], str "chrome"), (str "chrome_psk", str "chrome"), (str "chrome_psk_shuffle", str "chrome"),
    (str "chrome_padding_psk_shuffle", str "chrome"), (str "chrome_pq", str "chrome"),
    (str "chrome_pq_psk", str "chrome")]

abbrev Aliases := Finmap fun _ : Bytes => Bytes
abbrev Families := Finmap fun _ : Bytes => List Bytes

def defaultAliases : Aliases := writeAll ∅ defaultAliasPairs

/-- the maps and lists that the loop over the families fills -/
structure Naming where
  profiles : List ExportProfile := []
  aliases : Aliases := defaultAliases
  families : Families := ∅

/-- the loop over the JA4 classes of a family, from rank `rank` on; the shorts come with it -/
def nameClasses (family : Bytes) : Nat → List (Cluster RankedMember) → Naming × List Bytes →
    Naming × List Bytes
  | _, [], acc => acc
  | rank, u :: us, (n, shorts) =>
    let short := shortName family rank
    nameClasses family (rank + 1) us
      ({ n with
          profiles := n.profiles ++ [entry family rank u.head]
          aliases := writeAll n.aliases (u.rest.map fun d => (d.t.id, short)) },
        shorts ++ [short])

/-- the JA4 classes of a family's members, best class first -/
def classes (list : List RankedMember) : List (Cluster RankedMember) :=
  groups RankedMember.ja4 (sortMembers list)

def nameFamily (n : Naming) (g : Cluster RankedMember) : Naming :=
  let family := g.head.t.family
  let (n, shorts) := nameClasses family 0 (classes (g.head :: g.rest)) (n, [])
  { n with families := n.families.insert family shorts }

/-- the orders in which Go iterates over `byFamily` and over the keys of `aliases` -/
structure MapOrders where
  byFamily : List (Cluster RankedMember) → List (Cluster RankedMember)
  byFamily_perm : ∀ l, (byFamily l).Perm l
  keys : Finset Bytes → List Bytes
  keys_nodup : ∀ s, (keys s).Nodup
  mem_keys : ∀ s k, k ∈ keys s ↔ k ∈ s

/-- map iteration in the order of insertion and of the keys -/
def MapOrders.sorted : MapOrders where
  byFamily l := l
  byFamily_perm l := List.Perm.refl l
  keys s := s.sort (· ≤ ·)
  keys_nodup s := s.sort_nodup _
  mem_keys s k := s.mem_sort _

def byFamily (members : List RankedMember) : List (Cluster RankedMember) :=
  groups (fun m => m.t.family) members

/-- the last `sort.Slice` -/
def sortProfiles (l : List ExportProfile) : List ExportProfile :=
  l.insertionSort fun a b => if a.family ≠ b.family then a.family < b.family else a.rank ≤ b.rank

def nameMembers (ord : MapOrders) (members : List RankedMember) : Naming :=
  let n := (ord.byFamily (byFamily members)).foldl nameFamily {}
  { n with profiles := sortProfiles n.profiles }

/-! ## the check, and what is written -/

def dedupKey (p : ExportProfile) : Bytes := p.family ++ str "|" ++ p.ja4

/-- the loop of `checkDedup`; `seen` maps a key to its short name -/
def dedupCheck : Finmap (fun _ : Bytes => Bytes) → List ExportProfile → Except ExportError Unit
  | _, [] => .ok ()
  | seen, p :: ps =>
    match seen.lookup (dedupKey p) with
    | some prev => .error (.dedup prev p.shortName p.family p.ja4)
    | none => dedupCheck (seen.insert (dedupKey p) p.shortName) ps

/-- `short.json` -/
structure Side where
  shortName : Bytes
  labID : Bytes
  family : Bytes
  rank : Nat
  track : Bytes
  ja4 : Bytes
  deriving DecidableEq, Repr

structure Catalog where
  version : Nat := 1
  generatedAt : Bytes
  profiles : List ExportProfile
  aliases : Aliases
  families : Families

/-! ## places -/

/-- where `filepath.Join(profOut, short)` leads, from the root of the lab -/
def dstPath (short : Bytes) : Paths.Location :=
  Paths.join [str "dist", str "export", str "profiles", short]

/-- it is in `dist/export` -/
def Inside (short : Bytes) : Prop := [str "dist", str "export"] <+: (dstPath short).elems

instance : DecidablePred Inside := fun short => inferInstanceAs (Decidable (_ <+: _))

/-- the directory of `short` is in `dist/export`, and `s` leads there too -/
def Leads (short s : Bytes) : Prop := Inside short ∧ dstPath s = dstPath short

instance (short s : Bytes) : Decidable (Leads short s) := inferInstanceAs (Decidable (_ ∧ _))

example : Leads (str "a") (str "./b/../a") := by decide +kernel

/-- A write to what `short` leads to.  One that leaves `dist/export` is not followed: what it does to
the rest of the lab is not part of the model. -/
def writeAt {α : Type} (f : Bytes → α) (short : Bytes) (v : α) : Bytes → α := fun s =>
  if Leads short s then v else f s

/-- `dist/export`: the profile directories with their `short.json`, by any path from `profiles/` that
leads there, `catalog.json`, `NAMES.md` -/
structure Dist where
  profiles : Tree := fun _ => {}
  sides : Bytes → Option Side := fun _ => none
  catalog : Option Catalog := none
  names : Option Bytes := none

/-! ## copies -/

/-- A file that is there and cannot be copied: what the destination holds afterwards, if that is
anything new, and whether a plain read of the file succeeds. -/
structure CopyFault (α : Type) where
  left : Option α := none
  readable : Bool := false

structure DirFaults where
  hello : Option (CopyFault Bytes) := none
  profile : Option (CopyFault (Doc ProfileDoc)) := none
  metaDoc : Option (CopyFault (Doc MetaDoc)) := none
  slot : Option (CopyFault Slot) := none

/-- the faults of the files of a profile, by its lab id -/
abbrev Faults := Bytes → DirFaults

def noFaults : Faults := fun _ => {}

/-- `os.ReadFile` -/
def readFile {α : Type} (fault : Option (CopyFault α)) (src : Option α) : Option α :=
  if fault.all CopyFault.readable then src else none

/-- the directories as the loop over the targets reads them; of the hello it asks `os.Stat` only -/
def readTree (faults : Faults) (profiles : Tree) : Tree := fun id =>
  { profiles id with
    profile := readFile (faults id).profile (profiles id).profile
    metaDoc := readFile (faults id).metaDoc (profiles id).metaDoc }

/-- the destination after `copyFile`, and whether there was no error -/
def copyFile {α : Type} (fault : Option (CopyFault α)) (src dst : Option α) : Option α × Bool :=
  match src, fault with
  | none, _ => (dst, false)
  | some content, none => (some content, true)
  | some _, some f => (f.left.or dst, false)

/-- The four copies of one entry, and the name of the file that ends them; `meta.json` and `slot.json`
are skipped when they cannot be copied. -/
def copyDir (fault : DirFaults) (src dst : Dir) : Dir × Option Bytes :=
  let hello := copyFile fault.hello src.hello dst.hello
  let dst := { dst with hello := hello.1 }
  if hello.2 = false then (dst, some (str "clienthello.bin"))
  else
    let profile := copyFile fault.profile src.profile dst.profile
    let dst := { dst with profile := profile.1 }
    if profile.2 = false then (dst, some (str "profile.json"))
    else
      ({ dst with
          metaDoc := (copyFile fault.metaDoc src.metaDoc dst.metaDoc).1
          slot := (copyFile fault.slot src.slot dst.slot).1 }, none)

/-- one entry: the copies, and `short.json` -/
def copyProfile (profiles : Tree) (dist : Dist) (p : ExportProfile) (faults : Faults := noFaults) :
    Except (ExportError × Dist) Dist :=
  let copied := copyDir (faults p.labID) (profiles p.labID) (dist.profiles p.shortName)
  let dist := { dist with profiles := writeAt dist.profiles p.shortName copied.1 }
  match copied.2 with
  | some name => .error (.copy p.labID name, dist)
  | none =>
    let side : Side :=
      { shortName := p.shortName, labID := p.labID, family := p.family, rank := p.rank
        track := p.track, ja4 := p.ja4 }
    .ok { dist with sides := writeAt dist.sides p.shortName (some side) }

def copyProfiles (profiles : Tree) (dist : Dist) (ps : List ExportProfile)
    (faults : Faults := noFaults) : Except (ExportError × Dist) Dist :=
  match ps with
  | [] => .ok dist
  | p :: ps => do
    let dist ← copyProfile profiles dist p faults
    copyProfiles profiles dist ps faults

/-! ## the catalog -/

def showBool (b : Bool) : Bytes := if b then str "true" else str "false"

/-- the lines that the digest of the catalog is computed from -/
def stampLines (ord : MapOrders) (profiles : List ExportProfile) (aliases : Aliases) : Bytes :=
  (profiles.flatMap fun p =>
    str "p\t" ++ join [p.shortName, p.labID, p.family, decimal p.rank, showBool p.builtin, p.ja4]
      (str "\t") ++ str "\n") ++
  (((ord.keys aliases.keys).insertionSort (· ≤ ·)).flatMap fun k =>
    str "a\t" ++ join [k, (aliases.lookup k).getD []] (str "\t") ++ str "\n")

def catalogStamp (ord : MapOrders) (profiles : List ExportProfile) (aliases : Aliases) : Bytes :=
  str "sha256:" ++ (hexEncode (sha256 (stampLines ord profiles aliases))).take 16

/-- `NAMES.md` -/
def namesText (profiles : List ExportProfile) : Bytes :=
  str "# Short fingerprint names\n\n"
    ++ str "Within each family, identical JA4 values are collapsed to one short name;\n"
    ++ str "duplicate lab IDs appear under `aliases` in `catalog.json`.\n\n"
    ++ str "| Short | Lab ID | Family | Rank | Track | Builtin | JA4 |\n"
    ++ str "|-------|--------|--------|------|-------|---------|-----|\n"
    ++ profiles.flatMap fun p =>
      str "| `" ++ p.shortName ++ str "` | `" ++ p.labID ++ str "` | " ++ p.family ++ str " | "
        ++ decimal p.rank ++ str " | " ++ p.track ++ str " | " ++ showBool p.builtin ++ str " | `"
        ++ p.ja4 ++ str "` |\n"

def catalogOf (ord : MapOrders) (n : Naming) : Catalog where
  generatedAt := catalogStamp ord n.profiles n.aliases
  profiles := n.profiles
  aliases := n.aliases
  families := n.families

/-- The part that writes: the old export is removed first, an error comes with what is there then.
The operations on directories and the writes of `short.json`, `catalog.json` and `NAMES.md`
succeed. -/
def writeExport (ord : MapOrders) (profiles : Tree) (n : Naming) (faults : Faults := noFaults) :
    Except (ExportError × Dist) Dist := do
  let dist ← copyProfiles profiles {} n.profiles faults
  return { dist with catalog := some (catalogOf ord n), names := some (namesText n.profiles) }

/-- the export onto a tree that holds `dist` -/
def runExport (ord : MapOrders) (profiles : Tree) (targets : List Target) (checkDedup : Bool)
    (dist : Dist) (faults : Faults := noFaults) : Except (ExportError × Dist) Dist :=
  match collect (readTree faults profiles) targets with
  | .error e => .error (e, dist)
  | .ok members =>
    let n := nameMembers ord members
    match if checkDedup then dedupCheck ∅ n.profiles else .ok () with
    | .error e => .error (e, dist)
    | .ok () => writeExport ord profiles n faults

end Labctl
