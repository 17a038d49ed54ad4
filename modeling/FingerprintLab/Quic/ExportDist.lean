import FingerprintLab.Base.Buckets
import FingerprintLab.Base.Digest
import FingerprintLab.Base.Json
import FingerprintLab.Quic.Templates

/-!
# The export of the QUIC catalog

`export_dist.py` writes the curated documents to `dist/export/`: a directory for each short name, and a
catalog with the aliases and families that a product may dial by.

* `ExportDoc`                  a curated document with its family and aliases;
* `family_of`, `exportEntry`   the family of a document and its entry in the catalog;
* `write_export`               the exported tree; `mkdir` says which directories can be made;
* `Unambiguous`                what the names of an export are to be;
* `AliasesFree`                no alias is empty, a short name, or an alias of another document;
* `export_unambiguous_iff`     the export is unambiguous exactly if the aliases are free.
-/

set_option linter.unusedVariables false

namespace Quic
open Go Py Writes Buckets

/-! ## documents -/

structure ExportDoc extends CatalogDoc where
  family : Member Bytes := .missing
  aliases : Member (List Bytes) := .missing

/-- the schema on all the members -/
structure ExportValid (d : ExportDoc) : Prop extends SchemaValid d.toCatalogDoc where
  family : d.family ≠ .null
  aliases : d.aliases ≠ .null

def ExportDoc.aliasNames (d : ExportDoc) : List Bytes := d.aliases.get.getD []

/-- the family that a short name stands for -/
def shortFamily (short : Bytes) : Bytes :=
  if (str "quic-go").isPrefixOf short then str "quic-go"
  else if (str "uquic-chrome").isPrefixOf short then str "uquic-chrome"
  else if (str "uquic-firefox").isPrefixOf short then str "uquic-firefox"
  else if short = str "chromium-stale" then str "chromium"
  else short

def family_of (d : ExportDoc) : Bytes := orElse d.family.get (shortFamily d.short)

/-! ## the catalog -/

def CATALOG_FORMAT : Bytes := str "quic-utls-catalog-v1"

/-- `short.json` -/
structure ShortEntry where
  shortName : Bytes
  labID : Bytes
  family : Bytes
  rank : Nat
  status : Bytes
  dial : Bool
  emitKind : Option Bytes
  authCapable : Bool
  format : Bytes
  track : Bytes
  deriving DecidableEq, Repr

/-- an element of `profiles` -/
structure ExportEntry extends ShortEntry where
  builtin : Bool
  deriving DecidableEq, Repr

def exportEntry (rank : Nat) (d : ExportDoc) : ExportEntry :=
  let emit := d.emit.get.getD {}
  let auth := d.auth.get.getD {}
  let refs := d.observationRefs.get.getD []
  { shortName := d.short
    labID := refs.headD d.short
    family := family_of d
    rank := rank
    status := d.status
    dial := is_dialable d.toCuratedDoc
    emitKind := emit.emitKind.get
    authCapable := auth.capable.get.getD false
    format := PROFILE_FORMAT
    track := str "pinned"
    builtin := false }

/-- the assignments to `aliases`, in their order -/
def aliasWrites (docs : List ExportDoc) : List (Bytes × Bytes) :=
  docs.flatMap fun d =>
    (d.aliasNames.filter fun a => !(a = []) && !(a = d.short)).map fun a => (a, d.short)

structure ExportCatalog where
  version : Nat
  format : Bytes
  generatedAt : Bytes
  profiles : List ExportEntry
  aliases : Finmap fun _ : Bytes => Bytes
  families : Finmap fun _ : Bytes => List Bytes
  notes : Bytes

def sha16_bytes (b : Bytes) : Bytes := str "sha256:" ++ (hexEncode (sha256 b)).take 16

def ExportEntry.json (e : ExportEntry) : Json :=
  .obj
    [(str "short_name", .str e.shortName), (str "lab_id", .str e.labID),
      (str "family", .str e.family), (str "rank", .int e.rank), (str "status", .str e.status),
      (str "dial", .bool e.dial), (str "emit_kind", .ofOption e.emitKind),
      (str "auth_capable", .bool e.authCapable), (str "format", .str e.format),
      (str "track", .str e.track), (str "builtin", .bool e.builtin)]

def exportCatalog (sorted : List ExportDoc) : ExportCatalog :=
  let profiles := sorted.mapIdx exportEntry
  let aliases := writeAll ∅ (aliasWrites sorted)
  let families := buckets family_of (fun d => d.short) sorted
  { version := 1
    format := CATALOG_FORMAT
    generatedAt := sha16_bytes (dumps (.obj
      [(str "profiles", .arr (profiles.map ExportEntry.json)),
        (str "aliases", .ofMap .str aliases),
        (str "families", .ofMap (fun shorts => .arr (shorts.map .str)) families)]))
    profiles := profiles
    aliases := aliases
    families := families
    notes := str "Lab export of QUIC fingerprint catalog (not TCP lxutls). "
      ++ str "Future product sync may copy this tree; dial only when dial=true." }

/-! ## the tree -/

def yesNo (b : Bool) : Bytes := if b then str "yes" else str "no"

/-- a row of `NAMES.md` -/
def namesRow (p : ExportEntry) : Bytes :=
  str "| `" ++ p.shortName ++ str "` | " ++ p.family ++ str " | " ++ p.status ++ str " | "
    ++ yesNo p.dial ++ str " | `" ++ p.emitKind.getD (str "None") ++ str "` | "
    ++ yesNo p.authCapable ++ str " | `" ++ p.labID ++ str "` |"

/-- `NAMES.md`; the dash in its last line is U+2014 -/
def namesText (profiles : List ExportEntry) : Bytes :=
  join
    ([str "# QUIC fingerprint short names (`quic-utls-profile-v1`)", [],
        str "| short | family | status | dial | emit_kind | auth | lab_id |",
        str "|-------|--------|--------|------|-----------|------|--------|"]
      ++ profiles.map namesRow
      ++ [[], str "Lab artifact: `quic/dist/export/`.",
        str "Future (out of lab scope): product embed sync " ++ encodeRune 0x2014
          ++ str " do **not** mix with TCP `lxutls`.", []])
    (str "\n")

/-- `profiles/<short>` -/
structure ExportFiles where
  profile : ExportDoc
  short : ShortEntry

/-- What `write_export` returns, and the tree that it writes: `dist/export`.  The objects of
`catalog.json` are filled in the order of the short names. -/
structure Exported where
  catalog : ExportCatalog
  profiles : Finmap fun _ : Bytes => ExportFiles
  names : Bytes

/-- every directory can be made after those of the earlier shorts -/
def makeDirs (mkdir : List Bytes → Bytes → Bool) : List Bytes → List Bytes → Bool
  | _, [] => true
  | made, s :: rest => mkdir made s && makeDirs mkdir (made ++ [s]) rest

/-- The old tree is removed first.  `mkdir` is the file system: whether the directory of a short can be
made and filled when those before it are there; an error ends the export.  At the end the templates are
written to a file outside of the tree, by `write_emit_templates` on `docs` as they come. -/
def write_export (mkdir : List Bytes → Bytes → Bool) (docs : List ExportDoc) : Option Exported :=
  let sorted := sortByKey (fun d => d.short) docs
  if makeDirs mkdir [] (sorted.map fun d => d.short) then
    let catalog := exportCatalog sorted
    some
      { catalog := catalog
        profiles := writeAll ∅ (sorted.mapIdx fun rank d =>
          (d.short, ⟨d, (exportEntry rank d).toShortEntry⟩))
        names := namesText catalog.profiles }
  else none

/-! ## names -/

/-- the short names of the exported profiles -/
def Exported.shorts (out : Exported) : List Bytes := out.catalog.profiles.map (·.shortName)

structure Unambiguous (mkdir : List Bytes → Bytes → Bool) (docs : List ExportDoc) (out : Exported) :
    Prop where
  listed : ∀ d ∈ docs, ∀ a ∈ d.aliasNames, a ≠ d.short →
    out.catalog.aliases.lookup a = some d.short
  keys : ∀ a ∈ out.catalog.aliases.keys, a ∉ out.shorts
  values : ∀ a s, out.catalog.aliases.lookup a = some s → s ∈ out.shorts
  families : Partitions out.catalog.families out.shorts
  order : ∀ docs' : List ExportDoc, docs'.Perm docs → write_export mkdir docs' = some out

/-- every alias of a document, other than its own short name, is a name of its own -/
def AliasesFree (docs : List ExportDoc) : Prop :=
  ∀ d ∈ docs, ∀ a ∈ d.aliasNames, a ≠ d.short →
    a ≠ [] ∧ a ∉ docs.map (fun d => d.short) ∧ ∀ d' ∈ docs, a ∈ d'.aliasNames → d' = d

theorem mem_aliasWrites {docs : List ExportDoc} {a s : Bytes} : (a, s) ∈ aliasWrites docs ↔
    ∃ d ∈ docs, a ∈ d.aliasNames ∧ a ≠ [] ∧ a ≠ d.short ∧ d.short = s := by
  unfold aliasWrites
  rw [List.mem_flatMap]
  refine exists_congr fun d => and_congr_right fun _ => ?_
  simp only [List.mem_map, List.mem_filter, Bool.and_eq_true, Bool.not_eq_true', decide_eq_false_iff_not,
    Prod.mk.injEq]
  constructor
  · rintro ⟨a', ⟨ha, hne, hs⟩, rfl, rfl⟩
    exact ⟨ha, hne, hs, rfl⟩
  · rintro ⟨ha, hne, hs, rfl⟩
    exact ⟨a, ⟨ha, hne, hs⟩, rfl, rfl⟩

theorem exportCatalog_shorts (sorted : List ExportDoc) :
    (exportCatalog sorted).profiles.map (·.shortName) = sorted.map fun d => d.short := by
  show (sorted.mapIdx exportEntry).map (·.shortName) = _
  refine List.ext_getElem? fun i => ?_
  rw [List.getElem?_map, List.getElem?_mapIdx, List.getElem?_map, Option.map_map]
  rfl

section
variable {mkdir : List Bytes → Bytes → Bool} {docs : List ExportDoc} {out : Exported}
  (h : write_export mkdir docs = some out)
include h

theorem write_export_some : out.catalog = exportCatalog (sortByKey (fun d => d.short) docs) := by
  unfold write_export at h
  dsimp only at h
  split at h
  · rw [← Option.some.inj h]
  · cases h

theorem exported_shorts : out.shorts = (sortByKey (fun d => d.short) docs).map fun d => d.short := by
  unfold Exported.shorts
  rw [write_export_some h, exportCatalog_shorts]

theorem mem_shorts {s : Bytes} : s ∈ out.shorts ↔ s ∈ docs.map fun d => d.short := by
  rw [exported_shorts h]
  exact ((sortByKey_perm_self _ docs).map _).mem_iff

/-- an alias is one that a document lists, and it has the document's short name -/
theorem alias_source {a s : Bytes} (ha : out.catalog.aliases.lookup a = some s) :
    ∃ d ∈ docs, a ∈ d.aliasNames ∧ a ≠ [] ∧ a ≠ d.short ∧ d.short = s := by
  rw [write_export_some h] at ha
  obtain hw | hempty := lookup_writeAll_cases _ _ _ _ ha
  · obtain ⟨d, hd, hrest⟩ := mem_aliasWrites.mp hw
    exact ⟨d, (sortByKey_perm_self _ docs).mem_iff.mp hd, hrest⟩
  · cases hempty

theorem alias_values {a s : Bytes} (ha : out.catalog.aliases.lookup a = some s) : s ∈ out.shorts := by
  obtain ⟨d, hd, -, -, -, rfl⟩ := alias_source h ha
  exact (mem_shorts h).mpr (List.mem_map_of_mem hd)

/-- free aliases are written with one value each -/
theorem alias_listed (hfree : AliasesFree docs) {d : ExportDoc} (hd : d ∈ docs) {a : Bytes}
    (ha : a ∈ d.aliasNames) (hne : a ≠ d.short) : out.catalog.aliases.lookup a = some d.short := by
  have hsorted : ∀ d, d ∈ sortByKey (fun d : ExportDoc => d.short) docs ↔ d ∈ docs :=
    fun d => (sortByKey_perm_self _ docs).mem_iff
  rw [write_export_some h]
  refine lookup_writeAll_of_mem ∅ _ a d.short ?_ ?_
  · intro k v v' hv hv'
    obtain ⟨e, he, hke, -, hes, rfl⟩ := mem_aliasWrites.mp hv
    obtain ⟨e', he', hke', -, -, rfl⟩ := mem_aliasWrites.mp hv'
    rw [(hfree e ((hsorted e).mp he) k hke hes).2.2 e' ((hsorted e').mp he') hke']
  · exact mem_aliasWrites.mpr ⟨d, (hsorted d).mpr hd, ha, (hfree d hd a ha hne).1, hne, rfl⟩

variable (hnd : (docs.map fun d => d.short).Nodup)
include hnd

theorem families_partition : Partitions out.catalog.families out.shorts := by
  rw [exported_shorts h, write_export_some h]
  refine buckets_partition family_of (fun d => d.short) ?_
  exact ((sortByKey_perm_self _ docs).map _).nodup_iff.mpr hnd

/-- the documents are sorted by their short names -/
theorem write_export_perm {docs' : List ExportDoc} (hp : docs'.Perm docs) :
    write_export mkdir docs' = some out := by
  have hsame : sortByKey (fun d : ExportDoc => d.short) docs' = sortByKey (fun d => d.short) docs :=
    sortByKey_perm _ hp ((hp.map _).nodup_iff.mpr hnd)
  rw [← h]
  unfold write_export
  rw [hsame]

/-- **The names of an export are unambiguous** exactly if the aliases are free. -/
theorem export_unambiguous_iff : Unambiguous mkdir docs out ↔ AliasesFree docs := by
  constructor
  · intro hu d hd a ha hne
    have hlookup := hu.listed d hd a ha hne
    refine ⟨?_, fun hs => ?_, fun d' hd' ha' => ?_⟩
    · obtain ⟨-, -, -, hnil, -⟩ := alias_source h hlookup
      exact hnil
    · exact hu.keys a (Finmap.mem_keys.mpr (Finmap.mem_of_lookup_eq_some hlookup))
        ((mem_shorts h).mpr hs)
    · have hother : a ≠ d'.short := by
        rintro rfl
        exact hu.keys _ (Finmap.mem_keys.mpr (Finmap.mem_of_lookup_eq_some hlookup))
          ((mem_shorts h).mpr (List.mem_map_of_mem hd'))
      have hlookup' := hu.listed d' hd' a ha' hother
      rw [hlookup] at hlookup'
      exact List.inj_on_of_nodup_map hnd hd' hd (Option.some.inj hlookup').symm
  · intro hfree
    refine ⟨fun d hd a ha hne => alias_listed h hfree hd ha hne, fun a ha => ?_,
      fun a s => alias_values h, families_partition h hnd, fun docs' => write_export_perm h hnd⟩
    obtain ⟨s, hs⟩ := Finmap.mem_iff.mp (Finmap.mem_keys.mp ha)
    obtain ⟨d, hd, had, -, hne, -⟩ := alias_source h hs
    rw [mem_shorts h]
    exact (hfree d hd a had hne).2.1

end

/-! ## two documents with one alias -/

def aliasDoc (short : Bytes) (aliases : List Bytes) : ExportDoc where
  toCatalogDoc := { orderedDoc with short := short }
  aliases := .val aliases

theorem aliasDoc_valid {short : Bytes} (h : short ≠ []) (aliases : List Bytes) :
    ExportValid (aliasDoc short aliases) where
  toSchemaValid := { orderedDoc_valid with short := h }
  family := Member.missing_ne_null
  aliases := Member.val_ne_null aliases

/-- the second document lists an alias of the first one, and its short name -/
def clashingDocs : List ExportDoc :=
  [aliasDoc (str "chrome") [str "browser"], aliasDoc (str "yandex") [str "browser", str "chrome"]]

def everywhere : List Bytes → Bytes → Bool := fun _ _ => true

/-- the condition is met by an alias of one document -/
theorem export_unambiguous_single : ∃ out,
    write_export everywhere [aliasDoc (str "chrome") [str "browser"]] = some out ∧
    Unambiguous everywhere [aliasDoc (str "chrome") [str "browser"]] out := by
  obtain ⟨out, hout⟩ : ∃ out,
      write_export everywhere [aliasDoc (str "chrome") [str "browser"]] = some out := ⟨_, rfl⟩
  refine ⟨out, hout, (export_unambiguous_iff hout (List.nodup_singleton _)).mpr ?_⟩
  intro d hd a ha hne
  obtain rfl := List.mem_singleton.mp hd
  obtain rfl := List.mem_singleton.mp ha
  have hfree : str "browser" ≠ [] ∧ str "browser" ∉ [str "chrome"] := by decide
  exact ⟨hfree.1, hfree.2, fun d' hd' _ => List.mem_singleton.mp hd'⟩

/-- Both names lead to `yandex`, also `chrome`, which is exported itself. -/
theorem export_redirected : (∀ d ∈ clashingDocs, ExportValid d) ∧
    (clashingDocs.map fun d => d.short).Nodup ∧
    ∃ out, write_export everywhere clashingDocs = some out ∧
      out.catalog.aliases.lookup (str "browser") = some (str "yandex") ∧
      out.catalog.aliases.lookup (str "chrome") = some (str "yandex") ∧ str "chrome" ∈ out.shorts ∧
      ¬ Unambiguous everywhere clashingDocs out := by
  obtain ⟨out, hout⟩ : ∃ out, write_export everywhere clashingDocs = some out := ⟨_, rfl⟩
  have hbrowser : out.catalog.aliases.lookup (str "browser") = some (str "yandex") := by
    rw [write_export_some hout]
    decide +kernel
  have hchrome : out.catalog.aliases.lookup (str "chrome") = some (str "yandex") := by
    rw [write_export_some hout]
    decide +kernel
  have hshort : str "chrome" ∈ out.shorts := (mem_shorts hout).mpr List.mem_cons_self
  refine ⟨?_, by decide, out, hout, hbrowser, hchrome, hshort, fun hu => ?_⟩
  · intro d hd
    rw [clashingDocs, List.mem_cons, List.mem_singleton] at hd
    obtain rfl | rfl := hd
    · exact aliasDoc_valid (by decide) _
    · exact aliasDoc_valid (by decide) _
  · exact hu.keys _ (Finmap.mem_keys.mpr (Finmap.mem_of_lookup_eq_some hchrome)) hshort

end Quic
