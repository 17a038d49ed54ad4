import FingerprintLab.Quic.Draft
import FingerprintLab.Quic.ExportDist

/-!
# The curated catalog on disk

`sync_utls_catalog.py` keeps the documents as a list and writes a file for each, with an index; the
other tools read them back from the directory.

* `FullDoc`, `RandomSlot`   a document with its random slots;
* `check_only`         the assertions of `--check-only`;
* `CatalogDir`, `write_catalog`   the directory, and the files that are written there;
* `read_curated`       the documents as the tools get them, in the order of their files;
* `written_lookup`     what is left of the old directory: nothing that ends in `.json`;
* `sync_round_trip`    what is written is read back, whatever there was before.
-/

set_option linter.unusedVariables false

namespace Quic
open Go Py Writes Buckets

/-! ## documents -/

/-- an element of `random.slots` -/
structure RandomSlot where
  id : Bytes
  stableForIdentity : Member Bool := .missing
  authOverlay : Member Bool := .missing
  deriving DecidableEq, Repr

/-- `random` is an object with a list `slots` -/
structure FullDoc extends ExportDoc where
  random : Member (Member (List RandomSlot)) := .missing

/-- `(doc.get("random") or {}).get("slots") or []` -/
def FullDoc.slots (d : FullDoc) : List RandomSlot := (d.random.get.getD .missing).get.getD []

/-- an alternative of `--check-only` that fails ends the script -/
def checkDoc (d : FullDoc) : Bool :=
  d.format.get = some PROFILE_FORMAT && !(d.family.get.getD [] = []) && d.random.has && d.auth.has &&
    match d.auth with
    | .val a =>
      !(a.capable.get.getD false) ||
        ((match d.identity.tpIDSet with
          | .val ids => decide (TPElem.str (str "GREASE") ∈ ids)
          | _ => false) && a.requiresDemuxFingerprint = .val false)
    | _ => false

def check_only (docs : List FullDoc) : Bool := docs.all checkDoc

/-! ## the directory -/

/-- an element of `shorts` in `index.json` -/
structure IndexRow where
  short : Bytes
  family : Option Bytes
  status : Bytes
  file : Bytes
  authCapable : Bool
  deriving DecidableEq, Repr

inductive CatalogFile where
  | doc (d : FullDoc)
  | index (rows : List IndexRow)

/-- `catalog/utls` -/
abbrev CatalogDir := Finmap fun _ : Bytes => CatalogFile

def INDEX_FORMAT : Bytes := str "quic-utls-catalog-index-v1"

def fileOf (short : Bytes) : Bytes := short ++ str ".json"

def indexRow (d : FullDoc) : IndexRow where
  short := d.short
  family := d.family.get
  status := d.status
  file := fileOf d.short
  authCapable := (d.auth.get.getD {}).capable.get.getD false

/-- `glob("*.json")`, sorted -/
def globJson (dir : CatalogDir) : List Bytes := (dir.keys.filter fun name => isJson name).sort (· ≤ ·)

def unlinkJson (dir : CatalogDir) : CatalogDir := (globJson dir).foldl (fun m name => m.erase name) dir

def docWrites (docs : List FullDoc) : List (Bytes × CatalogFile) :=
  docs.map fun d => (fileOf d.short, .doc d)

/-- nothing when a file cannot be opened -/
def write_catalog (docs : List FullDoc) (dir : CatalogDir) : Option CatalogDir :=
  if docs.all fun d => isFileName (fileOf d.short) then
    some ((writeAll (unlinkJson dir) (docWrites docs)).insert (str "index.json")
      (.index (docs.map indexRow)))
  else none

/-! ## reading -/

/-- the files that `iter_curated_profiles` does not skip -/
def curatedName (name : Bytes) : Bool := !((str "_").isPrefixOf name) && !(name = str "index.json")

def checkFile (name : Bytes) : CatalogFile → Except LoadError (Bytes × FullDoc)
  | .doc d =>
    if d.format.get = some PROFILE_FORMAT then .ok (name, d) else .error ⟨name, d.format.get⟩
  | .index _ => .error ⟨name, some INDEX_FORMAT⟩

/-- `iter_curated_profiles` on the directory -/
def read_curated (dir : CatalogDir) : Except LoadError (List (Bytes × FullDoc)) :=
  let files := (globJson dir).filterMap fun name => (dir.lookup name).map fun f => (name, f)
  (files.filter fun f => curatedName f.1).mapM fun f => checkFile f.1 f.2

/-- what the matcher sees of a file -/
def curatedFile (f : Bytes × FullDoc) : Bytes × CuratedDoc := (f.1, f.2.toCuratedDoc)

/-! ## what is written -/

theorem lookup_eraseAll (names : List Bytes) (m : CatalogDir) (name : Bytes) :
    (names.foldl (fun m n => m.erase n) m).lookup name =
      if name ∈ names then none else m.lookup name := by
  induction names generalizing m with
  | nil => rfl
  | cons n ns ih =>
    rw [List.foldl_cons, ih]
    by_cases hn : name = n
    · rw [hn, Finmap.lookup_erase, if_pos List.mem_cons_self, ite_self]
    · rw [Finmap.lookup_erase_ne hn]
      simp only [List.mem_cons, hn, false_or]

theorem mem_globJson {dir : CatalogDir} {name : Bytes} :
    name ∈ globJson dir ↔ name ∈ dir ∧ isJson name = true := by
  unfold globJson
  rw [Finset.mem_sort, Finset.mem_filter, Finmap.mem_keys]

/-- the old documents are gone -/
theorem lookup_unlinkJson (dir : CatalogDir) {name : Bytes} (h : isJson name = true) :
    (unlinkJson dir).lookup name = none := by
  unfold unlinkJson
  rw [lookup_eraseAll]
  split
  · rfl
  · rename_i hn
    refine Finmap.lookup_eq_none.mpr fun hm => hn ?_
    exact mem_globJson.mpr ⟨hm, h⟩

theorem isJson_fileOf (short : Bytes) : isJson (fileOf short) = true := isJson_append short

theorem fileOf_inj {a b : Bytes} (h : fileOf a = fileOf b) : a = b := List.append_left_inj _ |>.mp h

theorem curatedName_iff {name : Bytes} :
    CuratedName name ↔ globbed name = true ∧ curatedName name = true := by
  unfold curatedName CuratedName
  simp

section
variable {docs : List FullDoc} {dir dir' : CatalogDir} (h : write_catalog docs dir = some dir')
include h

theorem written_eq : dir' = (writeAll (unlinkJson dir) (docWrites docs)).insert (str "index.json")
    (.index (docs.map indexRow)) := by
  unfold write_catalog at h
  split at h
  · exact (Option.some.inj h).symm
  · cases h

/-- the curated files of the new directory are those of the documents -/
theorem written_lookup (hnd : (docs.map fun d => d.short).Nodup) {name : Bytes} {f : CatalogFile}
    (hjson : isJson name = true) (hname : curatedName name = true) :
    dir'.lookup name = some f ↔ ∃ d ∈ docs, fileOf d.short = name ∧ f = .doc d := by
  have hne : name ≠ str "index.json" := by
    unfold curatedName at hname
    simp only [Bool.and_eq_true, Bool.not_eq_true', decide_eq_false_iff_not] at hname
    exact hname.2
  have hfun : Functional (docWrites docs) := by
    intro k v v' hv hv'
    obtain ⟨d, hd, hdk⟩ := List.mem_map.mp hv
    obtain ⟨e, he, hek⟩ := List.mem_map.mp hv'
    obtain ⟨rfl, rfl⟩ := Prod.mk.inj hdk
    obtain ⟨hfile, rfl⟩ := Prod.mk.inj hek
    rw [List.inj_on_of_nodup_map hnd he hd (fileOf_inj hfile)]
  rw [written_eq h, Finmap.lookup_insert_of_ne _ hne]
  constructor
  · intro hl
    obtain hw | hold := lookup_writeAll_cases _ _ _ _ hl
    · obtain ⟨d, hd, hdk⟩ := List.mem_map.mp hw
      obtain ⟨hfile, rfl⟩ := Prod.mk.inj hdk
      exact ⟨d, hd, hfile, rfl⟩
    · rw [lookup_unlinkJson dir hjson] at hold
      cases hold
  · rintro ⟨d, hd, rfl, rfl⟩
    exact lookup_writeAll_of_mem _ _ _ _ hfun (List.mem_map.mpr ⟨d, hd, rfl⟩)

end

/-! ## the round trip -/

/-- the documents with their files -/
def withFiles (docs : List FullDoc) : List (Bytes × FullDoc) := docs.map fun d => (fileOf d.short, d)

theorem withFiles_names (docs : List FullDoc) :
    (withFiles docs).map Prod.fst = (docs.map fun d => d.short).map fileOf := by
  unfold withFiles
  rw [List.map_map, List.map_map]
  rfl

theorem nodup_files {docs : List FullDoc} (hnd : (docs.map fun d => d.short).Nodup) :
    ((withFiles docs).map Prod.fst).Nodup := by
  rw [withFiles_names]
  exact hnd.map fun a b => fileOf_inj

/-- a directory is read as its curated files, in order -/
theorem read_written {docs : List FullDoc} {dir dir' : CatalogDir}
    (h : write_catalog docs dir = some dir') (hnd : (docs.map fun d => d.short).Nodup)
    (hformat : ∀ d ∈ docs, d.format.get = some PROFILE_FORMAT)
    (hnames : ∀ d ∈ docs, CuratedName (fileOf d.short)) :
    read_curated dir' = .ok (sortByKey Prod.fst (withFiles docs)) := by
  -- the files in question, sorted by their names and without repetition
  let files := ((globJson dir').filterMap fun name => (dir'.lookup name).map fun f => (name, f)).filter
    fun f => curatedName f.1
  have hmem : ∀ f, f ∈ files ↔ ∃ d ∈ docs, f = (fileOf d.short, .doc d) := by
    intro f
    rw [List.mem_filter, List.mem_filterMap]
    constructor
    · rintro ⟨⟨name, hname, hf⟩, hcur⟩
      obtain ⟨c, hc, rfl⟩ := Option.map_eq_some_iff.mp hf
      obtain ⟨d, hd, rfl, rfl⟩ := (written_lookup h hnd (mem_globJson.mp hname).2 hcur).mp hc
      exact ⟨d, hd, rfl⟩
    · rintro ⟨d, hd, rfl⟩
      have hcur : curatedName (fileOf d.short) = true := (curatedName_iff.mp (hnames d hd)).2
      have hl := (written_lookup h hnd (isJson_fileOf d.short) hcur).mpr ⟨d, hd, rfl, rfl⟩
      refine ⟨⟨fileOf d.short, mem_globJson.mpr ⟨?_, isJson_fileOf d.short⟩, ?_⟩, hcur⟩
      · exact Finmap.mem_of_lookup_eq_some hl
      · rw [hl]
        rfl
  have hfiles : files.Pairwise fun a b => a.1 < b.1 := by
    have hglob : (globJson dir').Pairwise (· < ·) := (Finset.sortedLT_sort _).pairwise
    refine List.Pairwise.filter _ (List.pairwise_filterMap.mpr (hglob.imp fun hlt a ha b hb => ?_))
    obtain ⟨c, -, rfl⟩ := Option.map_eq_some_iff.mp ha
    obtain ⟨c', -, rfl⟩ := Option.map_eq_some_iff.mp hb
    exact hlt
  have hsame : files = (sortByKey Prod.fst (withFiles docs)).map fun f => (f.1, .doc f.2) := by
    refine List.Pairwise.eq_of_mem_iff hfiles ?_ fun f => ?_
    · exact List.pairwise_map.mpr (sortByKey_strict Prod.fst (nodup_files hnd))
    · rw [hmem, List.mem_map]
      simp only [(sortByKey_perm_self _ _).mem_iff]
      unfold withFiles
      constructor
      · rintro ⟨d, hd, rfl⟩
        exact ⟨_, List.mem_map_of_mem hd, rfl⟩
      · rintro ⟨g, hg, rfl⟩
        obtain ⟨d, hd, rfl⟩ := List.mem_map.mp hg
        exact ⟨d, hd, rfl⟩
  show files.mapM (fun f => checkFile f.1 f.2) = _
  rw [hsame, List.mapM_map, mapM_ok (g := id), List.map_id]
  intro f hf
  obtain ⟨d, hd, rfl⟩ := List.mem_map.mp ((sortByKey_perm_self _ _).mem_iff.mp hf)
  exact if_pos (hformat d hd)

/-- the matcher loads what is read, one entry for each file -/
theorem load_read (u : Unicode) {docs : List FullDoc} (hnd : (docs.map fun d => d.short).Nodup)
    (hformat : ∀ d ∈ docs, d.format.get = some PROFILE_FORMAT)
    (hnames : ∀ d ∈ docs, CuratedName (fileOf d.short)) :
    load_catalog_for_match u ((sortByKey Prod.fst (withFiles docs)).map curatedFile) =
      .ok (((sortByKey Prod.fst (withFiles docs)).map curatedFile).map (loadEntry u)) := by
  have hdoc : ∀ f ∈ (sortByKey Prod.fst (withFiles docs)).map curatedFile,
      ∃ d ∈ docs, f = (fileOf d.short, d.toCuratedDoc) := by
    intro f hf
    obtain ⟨g, hg, rfl⟩ := List.mem_map.mp hf
    obtain ⟨d, hd, rfl⟩ := List.mem_map.mp ((sortByKey_perm_self _ _).mem_iff.mp hg)
    exact ⟨d, hd, rfl⟩
  have hsorted : ((sortByKey Prod.fst (withFiles docs)).map curatedFile).Pairwise
      fun a b => a.1 ≤ b.1 := List.pairwise_map.mpr (sortByKey_sorted Prod.fst (withFiles docs))
  unfold load_catalog_for_match iter_curated_profiles
  dsimp only
  rw [hsorted.insertionSort_eq, List.filter_eq_self.mpr, mapM_ok (g := id), List.map_id]
  · rfl
  · intro f hf
    obtain ⟨d, hd, rfl⟩ := hdoc f hf
    exact if_pos (hformat d hd)
  · intro f hf
    obtain ⟨d, hd, rfl⟩ := hdoc f hf
    exact (curatedName_iff.mp (hnames d hd)).2

theorem write_export_files (mkdir : List Bytes → Bytes → Bool) {docs : List FullDoc}
    (hnd : (docs.map fun d => d.short).Nodup) {files : List (Bytes × FullDoc)}
    (hp : files.Perm (withFiles docs)) :
    write_export mkdir (files.map fun f => f.2.toExportDoc) =
      write_export mkdir (docs.map fun d => d.toExportDoc) := by
  have hdocs : (files.map fun f => f.2.toExportDoc).Perm (docs.map fun d => d.toExportDoc) := by
    have hmap := hp.map fun f => f.2.toExportDoc
    unfold withFiles at hmap
    rw [List.map_map] at hmap
    exact hmap
  have hnd' : ((docs.map fun d => d.toExportDoc).map fun d => d.short).Nodup := by
    rw [List.map_map]
    exact hnd
  cases he : write_export mkdir (docs.map fun d => d.toExportDoc) with
  | some out => exact write_export_perm he hnd' hdocs
  | none =>
    cases hf : write_export mkdir (files.map fun f => f.2.toExportDoc) with
    | none => rfl
    | some out =>
      rw [write_export_perm hf ((hdocs.map _).nodup_iff.mpr hnd') hdocs.symm] at he
      cases he

theorem templates_files {docs : List FullDoc} (hnd : (docs.map fun d => d.short).Nodup)
    {files : List (Bytes × FullDoc)} (hp : files.Perm (withFiles docs)) (k : Bytes) :
    (write_emit_templates (files.map fun f => f.2.toCuratedDoc)).lookup k =
      (write_emit_templates (docs.map fun d => d.toCuratedDoc)).lookup k := by
  have hdocs := hp.map fun f => f.2.toCuratedDoc
  unfold withFiles at hdocs
  rw [List.map_map] at hdocs
  refine templates_perm ?_ hdocs k
  rw [List.map_map]
  exact hnd

/-- **What is written is read back**: documents that pass `--check-only`, with names of their own, are
read from the new directory in one order, whatever order they were written in and whatever the
directory held before; and the export of what is read is the export of the list, with the same
templates. -/
theorem sync_round_trip {docs : List FullDoc} (hcheck : check_only docs = true)
    (hnd : (docs.map fun d => d.short).Nodup)
    (hnames : ∀ d ∈ docs, isFileName (fileOf d.short) = true ∧ CuratedName (fileOf d.short)) :
    ∃ files, files.Perm (withFiles docs) ∧
      ∀ docs' dir, docs'.Perm docs → ∃ dir', write_catalog docs' dir = some dir' ∧
        read_curated dir' = .ok files ∧
        (∀ u, load_catalog_for_match u (files.map curatedFile) =
          .ok ((files.map curatedFile).map (loadEntry u))) ∧
        (∀ mkdir, write_export mkdir (files.map fun f => f.2.toExportDoc) =
          write_export mkdir (docs'.map fun d => d.toExportDoc)) ∧
        ∀ k, (write_emit_templates (files.map fun f => f.2.toCuratedDoc)).lookup k =
          (write_emit_templates (docs'.map fun d => d.toCuratedDoc)).lookup k := by
  have hformat : ∀ d ∈ docs, d.format.get = some PROFILE_FORMAT := by
    intro d hd
    have hd := List.all_eq_true.mp hcheck d hd
    unfold checkDoc at hd
    simp only [Bool.and_eq_true, decide_eq_true_eq] at hd
    exact hd.1.1.1.1
  refine ⟨sortByKey Prod.fst (withFiles docs), sortByKey_perm_self _ _, fun docs' dir hp => ?_⟩
  have hnd' : (docs'.map fun d => d.short).Nodup := (hp.map _).nodup_iff.mpr hnd
  have hwrite : ∃ dir', write_catalog docs' dir = some dir' := by
    unfold write_catalog
    rw [if_pos (List.all_eq_true.mpr fun d hd => (hnames d (hp.mem_iff.mp hd)).1)]
    exact ⟨_, rfl⟩
  obtain ⟨dir', hwrite⟩ := hwrite
  have hsame : sortByKey Prod.fst (withFiles docs') = sortByKey Prod.fst (withFiles docs) :=
    sortByKey_perm Prod.fst (hp.map _) (nodup_files hnd')
  have hfiles : (sortByKey Prod.fst (withFiles docs)).Perm (withFiles docs') := by
    rw [← hsame]
    exact sortByKey_perm_self _ _
  refine ⟨dir', hwrite, ?_, fun u => ?_, fun mkdir => ?_, templates_files hnd' hfiles⟩
  · rw [← hsame]
    exact read_written hwrite hnd' (fun d hd => hformat d (hp.mem_iff.mp hd))
      fun d hd => (hnames d (hp.mem_iff.mp hd)).2
  · exact load_read u hnd hformat fun d hd => (hnames d hd).2
  · exact write_export_files mkdir hnd' hfiles

/-! ## two documents -/

def slottedDoc (short : Bytes) : FullDoc where
  toExportDoc := { aliasDoc short [] with family := .val short }
  random := .val (.val [⟨str "tp_grease_value", .val false, .val false⟩])

def twoShorts : List FullDoc := [slottedDoc (str "quic-go"), slottedDoc (str "quic-go-datagram")]

theorem twoShorts_checked : check_only twoShorts = true := by decide +kernel

theorem sync_round_trip_two : ∃ files dir', files.Perm (withFiles twoShorts) ∧
    write_catalog twoShorts.reverse ∅ = some dir' ∧ read_curated dir' = .ok files := by
  have hnames : ∀ d ∈ twoShorts, isFileName (fileOf d.short) = true ∧
      globbed (fileOf d.short) = true ∧ curatedName (fileOf d.short) = true := by decide +kernel
  obtain ⟨files, hp, hsync⟩ := sync_round_trip twoShorts_checked (by decide +kernel) fun d hd =>
    ⟨(hnames d hd).1, curatedName_iff.mpr (hnames d hd).2⟩
  obtain ⟨dir', hwrite, hread, -⟩ := hsync _ ∅ (List.reverse_perm twoShorts)
  exact ⟨files, dir', hp, hwrite, hread⟩

end Quic
