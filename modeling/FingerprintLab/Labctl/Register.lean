import FingerprintLab.Base.Runs
import FingerprintLab.Labctl.Catalog
import FingerprintLab.Labctl.Drift
import FingerprintLab.Labctl.Words

/-!
# The registry of the archives

`ensureArchiveTarget` appends a row for an archive directory, unless some target has its id already;
that target may be hand-written, of another family, or not exported at all.  The directory itself is
taken from whatever had it, and the export reads it.

* `yamlWord_archiveDst`      the id of an archive is no YAML word for nothing;
* `ArchiveCall`, `register`  a call of `archiveSnapshot`, whatever has become of `profiles/`;
* `Fits`, `RegisteredIn`     the row of an archive, and that the export gives its family and JA4;
* `Registrable`              the id is free and its row reads back, or it has a row that fits;
* `Stored`, `Storable`       a directory with a JA4, and a call that gives its archive one and takes none;
* `run_fits`, `run_stored`   the rows and the directories after a run;
* `archives_registered`      then every archive of a run is registered, once, and exported;
* `archive_unregistered`     a hand-written target with the id of an archive keeps it out.
-/

set_option linter.unusedVariables false

namespace Labctl
open Go Lab Runs

/-! ## the ids of archives -/

/-- a digit, or the `p` of `prev` -/
def keyByte (b : Byte) : Bool := 0x30 ≤ b && b ≤ 0x39 || b == 0x70

theorem keyByte_decInt (i : Int) : ∃ b ∈ decInt i, keyByte b = true := by
  have hdec : ∀ n, ∃ b ∈ decimal n, keyByte b = true := by
    intro n
    obtain ⟨b, hb⟩ := List.exists_mem_of_ne_nil _ (decimal_ne_nil n)
    have hd := decimal_digit n b hb
    refine ⟨b, hb, ?_⟩
    unfold keyByte
    rw [Bool.or_eq_true, Bool.and_eq_true, decide_eq_true_eq, decide_eq_true_eq,
      UInt8.le_iff_toNat_le, UInt8.le_iff_toNat_le]
    exact .inl hd
  cases i with
  | ofNat n => exact hdec n
  | negSucc n =>
    obtain ⟨b, hb, hk⟩ := hdec (n + 1)
    exact ⟨b, List.mem_append_right _ hb, hk⟩

theorem archivePrefix_cases (t : Target) (old : Slot) :
    archivePrefix t old = t.family ++ str "-prev-" ++ sanitizeID (old.ja4.take 12) ∨
      ∃ major, archivePrefix t old = t.family ++ str "-" ++ decInt major := by
  unfold archivePrefix
  dsimp only
  generalize (if old.softwareMajor = 0 then parseMajor old.softwareVersion
    else old.softwareMajor) = major
  split
  · exact .inl rfl
  · exact .inr ⟨major, rfl⟩

theorem keyByte_ne_dash {b : Byte} (h : keyByte b = true) : b ≠ 0x2d := by
  rintro rfl
  exact absurd h (by decide)

theorem keyByte_idRune {b : Byte} (h : keyByte b = true) : idRune b.toNat = true := by
  unfold keyByte at h
  rw [Bool.or_eq_true, Bool.and_eq_true, decide_eq_true_eq, decide_eq_true_eq, beq_iff_eq,
    UInt8.le_iff_toNat_le, UInt8.le_iff_toNat_le] at h
  obtain ⟨h0, h9⟩ | rfl := h
  · have h0' : 0x30 ≤ b.toNat := h0
    have h9' : b.toNat ≤ 0x39 := h9
    unfold idRune
    simp only [Bool.or_eq_true, Bool.and_eq_true, decide_eq_true_eq, beq_iff_eq]
    omega
  · decide

section
variable (t : Target) (old : Slot)

theorem keyByte_archivePrefix : ∃ b ∈ archivePrefix t old, keyByte b = true := by
  obtain h | ⟨major, h⟩ := archivePrefix_cases t old
  · have hp : 0x70 ∈ str "-prev-" := by decide
    rw [h]
    exact ⟨0x70, List.mem_append_left _ (List.mem_append_right _ hp), rfl⟩
  · obtain ⟨b, hb, hk⟩ := keyByte_decInt major
    rw [h]
    exact ⟨b, List.mem_append_right _ hb, hk⟩

/-- `sanitizeID` keeps it, whatever the family is -/
theorem keyByte_archiveBase : ∃ b ∈ archiveBase t old, keyByte b = true := by
  obtain ⟨b, hb, hk⟩ := keyByte_archivePrefix t old
  have htext : b ∈ idText (archivePrefix t old) := mem_idText (keyByte_idRune hk) hb
  exact ⟨b, (mem_sanitizeID_idText (keyByte_ne_dash hk) _).mpr htext, hk⟩

/-- the id of an archive reads back from YAML -/
theorem yamlWord_archiveDst (profiles : Tree) :
    yamlWord (archiveDst profiles (archivePrefix t old) old).1
      = (archiveDst profiles (archivePrefix t old) old).1 := by
  obtain ⟨b, hb, hk⟩ := keyByte_archiveBase t old
  obtain ⟨tail, he, -⟩ := archiveDst_id profiles t old
  have hnull : ∀ w ∈ [str "~", str "null", str "Null", str "NULL"], ∀ b ∈ w, keyByte b = false := by
    decide +kernel
  rw [he]
  unfold yamlWord
  rw [if_neg]
  intro h
  rw [hnull _ h b (List.mem_append_left _ hb)] at hk
  cases hk

end

/-! ## calls -/

def registry (lab : LabRoot) : List Target := loadLab lab.targets lab.archive

/-- the targets of an id in the merged registry -/
def rowsOf (lab : LabRoot) (id : Bytes) : List Target := (registry lab).filter fun t => t.id = id

/-- A call of `archiveSnapshot` by `maybeArchiveAfterCapture`, with `profiles/` as it then is. -/
structure ArchiveCall where
  profiles : Tree
  latest : Target
  before : Dir
  old : Slot

/-- the name of the archive directory -/
def ArchiveCall.id (c : ArchiveCall) : Bytes :=
  (archiveDst c.profiles (archivePrefix c.latest c.old) c.old).1

theorem mem_rowsOf {lab : LabRoot} {t : Target} {id : Bytes} :
    t ∈ rowsOf lab id ↔ t ∈ registry lab ∧ t.id = id := by
  unfold rowsOf
  rw [List.mem_filter, decide_eq_true_eq]

def register (lab : LabRoot) (c : ArchiveCall) : Option LabRoot :=
  some (archiveSnapshot { lab with profiles := c.profiles } c.latest c.before c.old
    (archivePrefix c.latest c.old))

/-- the row that `ensureArchiveTarget` appends -/
def ArchiveCall.row (c : ArchiveCall) : Target :=
  let major :=
    if c.old.softwareMajor = 0 then parseMajor c.old.softwareVersion else c.old.softwareMajor
  let major := if major = 0 then 1 else major
  { id := yamlWord c.id
    group := str "browsers"
    kind := str "wishlist"
    status := str "active"
    utlsReady := true
    family := yamlWord c.latest.family
    version := major
    track := trackPinned
    pin := decInt major
    imagePolicy := imageCache
    notes := str "auto-archived from " ++ c.latest.id ++ str " when JA4 changed" }

/-- what a call does to the registry -/
theorem register_registry {lab lab' : LabRoot} {c : ArchiveCall} (h : register lab c = some lab') :
    lab'.targets = lab.targets ∧
    (rowsOf lab c.id ≠ [] ∧ lab'.archive = lab.archive ∨
      rowsOf lab c.id = [] ∧ lab'.archive = lab.archive ++ [c.row]) := by
  have hany : ((loadLab lab.targets lab.archive).any fun t => t.id = c.id) = true ↔
      rowsOf lab c.id ≠ [] := by
    unfold rowsOf registry
    rw [Ne, List.filter_eq_nil_iff, List.any_eq_true]
    push Not
    rfl
  rw [← Option.some.inj h]
  unfold archiveSnapshot
  dsimp only [LabRoot.setDir]
  have hens : ∀ lab₁ : LabRoot, lab₁.targets = lab.targets → lab₁.archive = lab.archive →
      (ensureArchiveTarget lab₁ c.latest c.id c.old).targets = lab.targets ∧
      (rowsOf lab c.id ≠ [] ∧
          (ensureArchiveTarget lab₁ c.latest c.id c.old).archive = lab.archive ∨
        rowsOf lab c.id = [] ∧
          (ensureArchiveTarget lab₁ c.latest c.id c.old).archive = lab.archive ++ [c.row]) := by
    intro lab₁ ht ha
    unfold ensureArchiveTarget
    rw [ht, ha]
    by_cases hr : rowsOf lab c.id = []
    · rw [if_neg fun hp => hany.mp hp hr]
      exact ⟨rfl, .inr ⟨hr, rfl⟩⟩
    · rw [if_pos (hany.mpr hr)]
      exact ⟨ht, .inl ⟨hr, ha⟩⟩
  split
  · exact hens _ rfl rfl
  · exact hens _ rfl rfl

/-- what the export needs of the row of an archive -/
structure Fits (latest t : Target) : Prop where
  status : t.status = str "active"
  utlsReady : t.utlsReady = true
  track : t.track = trackPinned
  family : t.family = latest.family

/-- Exactly one target has the archive's id, it fits, and every export of the lab has an entry for the
family and the archived JA4. -/
def RegisteredIn (lab : LabRoot) (c : ArchiveCall) : Prop :=
  ∃ t, rowsOf lab c.id = [t] ∧ Fits c.latest t ∧
    ∀ ord chk dist out, runExport ord lab.profiles (registry lab) chk dist = .ok out →
      ∃ cat, out.catalog = some cat ∧
        ∃ p ∈ cat.profiles, p.family = c.latest.family ∧ p.ja4 = c.old.ja4

/-- the family, and the id in the notes, read back as they are from the appended text -/
def ReadsBack (latest : Target) : Prop :=
  latest.family ≠ str "null" ∧ latest.family ≠ str "-" ∧
    ∀ b ∈ latest.id, 0x20 ≤ b ∧ b < 0x7f ∧ b ≠ 0x22 ∧ b ≠ 0x5c

/-- The id of the archive is free and its row reads back, or its one target fits. -/
def Registrable (lab : LabRoot) (c : ArchiveCall) : Prop :=
  rowsOf lab c.id = [] ∧ ReadsBack c.latest ∨ ∃ t, rowsOf lab c.id = [t] ∧ Fits c.latest t

/-- a directory with a hello, and with one JA4 in both documents -/
structure Stored (d : Dir) (ja4 : Bytes) : Prop where
  hello : d.hello ≠ none
  profile : d.profileJA4 = ja4
  metaDoc : (Doc.read? d.metaDoc).map (·.ja4) = some ja4
  ne_nil : ja4 ≠ []

/-- The snapshot has the JA4 of its slot; the directory that it is copied to has room, or it has that
JA4 already; and no pinned target's directory has been given another one since the last call. -/
structure Storable (lab : LabRoot) (c : ArchiveCall) : Prop where
  snapshot : Stored c.before c.old.ja4
  room : (c.profiles c.id).hello = none ∨ Stored (c.profiles c.id) c.old.ja4
  spared : ∀ t ∈ registry lab, t.track = trackPinned → ∀ ja4,
    Stored (lab.profiles t.id) ja4 → Stored (c.profiles t.id) ja4

/-- what a call needs for its archive -/
def Archivable (lab : LabRoot) (c : ArchiveCall) : Prop := Registrable lab c ∧ Storable lab c

/-! ## the row of a call -/

section
variable {lab lab' : LabRoot} {c : ArchiveCall}

theorem row_id (c : ArchiveCall) : c.row.id = c.id :=
  yamlWord_archiveDst c.latest c.old c.profiles

theorem row_fits (hw : Word c.latest.family) (hr : ReadsBack c.latest) : Fits c.latest c.row := by
  refine ⟨rfl, rfl, rfl, ?_⟩
  have hwords : ∀ w ∈ [str "~", str "null", str "Null", str "NULL"], Word w → w = str "null" := by
    decide
  show yamlWord c.latest.family = _
  unfold yamlWord
  rw [if_neg fun h => hr.1 (hwords _ h hw)]

theorem normalize_row (c : ArchiveCall) : normalizeTarget c.row = c.row := by
  have hne : ¬ c.row.track = [] := by
    show ¬ trackPinned = []
    decide
  have hpinned : ¬ c.row.track = trackLatest := by
    show ¬ trackPinned = trackLatest
    decide
  have himage : ¬ c.row.imagePolicy = [] := by
    show ¬ imageCache = []
    decide
  unfold normalizeTarget
  dsimp only
  rw [if_neg hne, if_neg hpinned, if_neg himage]

theorem rowsOf_append (ht : lab'.targets = lab.targets) (ha : lab'.archive = lab.archive ++ [c.row])
    (id : Bytes) : rowsOf lab' id = rowsOf lab id ++ [c.row].filter fun t => t.id = id := by
  unfold rowsOf registry loadLab
  rw [ht, ha, ← List.append_assoc, List.map_append, List.filter_append, List.map_cons,
    normalize_row]
  rfl

theorem rowsOf_kept (ht : lab'.targets = lab.targets) (ha : lab'.archive = lab.archive)
    (id : Bytes) : rowsOf lab' id = rowsOf lab id := by
  unfold rowsOf registry
  rw [ht, ha]

variable (h : register lab c = some lab')
include h

/-- a call registers its own archive -/
theorem register_self (hw : Word c.latest.family) (hr : Registrable lab c) :
    ∃ t, rowsOf lab' c.id = [t] ∧ Fits c.latest t := by
  obtain ⟨ht, ⟨hne, ha⟩ | ⟨hnil, ha⟩⟩ := register_registry h
  · obtain ⟨hnil, -⟩ | hrow := hr
    · exact absurd hnil hne
    · rw [rowsOf_kept ht ha]
      exact hrow
  · obtain ⟨-, hback⟩ | ⟨t, hrow, -⟩ := hr
    · refine ⟨c.row, ?_, row_fits hw hback⟩
      rw [rowsOf_append ht ha, hnil, List.nil_append, List.filter_cons_of_pos]
      · rfl
      · exact decide_eq_true (row_id c)
    · rw [hnil] at hrow
      cases hrow

/-- a call leaves the ids that are taken alone -/
theorem register_kept {id : Bytes} (hne : rowsOf lab id ≠ []) : rowsOf lab' id = rowsOf lab id := by
  obtain ⟨ht, ⟨-, ha⟩ | ⟨hnil, ha⟩⟩ := register_registry h
  · exact rowsOf_kept ht ha id
  · have hid : c.row.id ≠ id := by
      rw [row_id c]
      rintro rfl
      exact hne hnil
    rw [rowsOf_append ht ha, List.filter_cons_of_neg (by simpa using hid), List.filter_nil,
      List.append_nil]

end

/-! ## the directory of a call -/

theorem Stored.of_slot {d : Dir} {s : Option Slot} {ja4 : Bytes} (h : Stored d ja4) :
    Stored { d with slot := s } ja4 := ⟨h.hello, h.profile, h.metaDoc, h.ne_nil⟩

theorem Stored.unique {d : Dir} {a b : Bytes} (ha : Stored d a) (hb : Stored d b) : a = b :=
  ha.profile.symm.trans hb.profile

/-- the snapshot's own files decide, whatever they are copied over -/
theorem Stored.copied {dst before : Dir} {archID : Bytes} {old : Slot} {ja4 : Bytes}
    (h : Stored before ja4) : Stored (copySnapshot dst before archID old) ja4 := by
  have hmeta : ∃ m, before.metaDoc = some m := by
    cases hm : before.metaDoc with
    | none =>
      have hread := h.metaDoc
      rw [hm] at hread
      cases hread
    | some m => exact ⟨m, rfl⟩
  obtain ⟨m, hm⟩ := hmeta
  refine ⟨?_, ?_, ?_, h.ne_nil⟩
  · rw [copySnapshot_hello _ _ _ _ h.hello]
    exact h.hello
  · rw [copySnapshot_ja4 _ _ _ _ (h.profile.symm ▸ h.ne_nil)]
    exact h.profile
  · have hsame : (copySnapshot dst before archID old).metaDoc = before.metaDoc := by
      show (before.metaDoc <|> dst.metaDoc) = _
      rw [hm]
      rfl
    rw [hsame]
    exact h.metaDoc

/-- the export reads `meta.json` first -/
theorem Stored.ja4Of {profiles : Tree} {t : Target} {ja4 : Bytes} (h : Stored (profiles t.id) ja4) :
    ja4Of profiles t = ja4 := by
  obtain ⟨md, hmd, rfl⟩ := Option.map_eq_some_iff.mp h.metaDoc
  unfold Labctl.ja4Of member
  dsimp only
  rw [hmd]
  cases Doc.read? (profiles t.id).profile with
  | none => rfl
  | some p => exact if_neg h.ne_nil

/-- a copy is only skipped for a directory with a hello -/
theorem archiveDst_skip {profiles : Tree} {t : Target} {old : Slot}
    (h : ¬ (archiveDst profiles (archivePrefix t old) old).2 = true) :
    (profiles (archiveDst profiles (archivePrefix t old) old).1).hello ≠ none := by
  obtain ⟨he, hh, -⟩ | ⟨he, -⟩ | ⟨he, -⟩ := archiveDst_cases profiles t old
  · rw [he]
    exact hh
  · exact absurd (congrArg Prod.snd he) h
  · exact absurd (congrArg Prod.snd he) h

/-- The directories after a call, up to a slot: the archive's is overwritten unless it has a hello, and
the others stay. -/
theorem register_dir {lab lab' : LabRoot} {c : ArchiveCall} (h : register lab c = some lab')
    (id : Bytes) : ∃ s,
      (id = c.id → (c.profiles id).hello ≠ none) ∧ lab'.profiles id = { c.profiles id with slot := s } ∨
      id = c.id ∧ lab'.profiles id =
        { copySnapshot (c.profiles c.id) c.before c.id c.old with slot := s } := by
  -- `archiveSnapshot` writes the slot of the latest target in the end
  have hslot : ∀ (tree : Tree) (s : Slot), ∃ s', Function.update tree c.latest.id
      (writeSlot (tree c.latest.id) s) id = { tree id with slot := s' } := by
    intro tree s
    by_cases hid : id = c.latest.id
    · rw [hid, Function.update_self]
      exact ⟨some s, rfl⟩
    · rw [Function.update_of_ne hid]
      exact ⟨(tree id).slot, rfl⟩
  rw [← Option.some.inj h]
  by_cases hcopy : (archiveDst c.profiles (archivePrefix c.latest c.old) c.old).2 = true
  · obtain ⟨s, tree, htree, hs⟩ := archiveSnapshot_copied { lab with profiles := c.profiles }
      c.latest c.before c.old _ hcopy
    obtain ⟨s', hs'⟩ := hslot tree s
    rw [hs, hs']
    by_cases hid : id = c.id
    · have hdir : tree id = copySnapshot (c.profiles c.id) c.before c.id c.old := by
        rw [htree, hid]
        exact Function.update_self ..
      rw [hdir]
      exact ⟨s', .inr ⟨hid, rfl⟩⟩
    · have hdir : tree id = c.profiles id := by
        rw [htree]
        exact Function.update_of_ne hid ..
      rw [hdir]
      exact ⟨s', .inl ⟨fun he => absurd he hid, rfl⟩⟩
  · obtain ⟨s, hs⟩ := archiveSnapshot_skipped { lab with profiles := c.profiles }
      c.latest c.before c.old _ hcopy
    obtain ⟨s', hs'⟩ := hslot c.profiles s
    exact ⟨s', .inl ⟨fun he => he ▸ archiveDst_skip hcopy, hs.symm ▸ hs'⟩⟩

section
variable {lab lab' : LabRoot} {c : ArchiveCall} (h : register lab c = some lab')
  (hs : Storable lab c)
include h hs

/-- a call stores its own archive, -/
theorem register_stored : Stored (lab'.profiles c.id) c.old.ja4 := by
  obtain ⟨s, ⟨hskip, he⟩ | ⟨-, he⟩⟩ := register_dir h c.id
  · rw [he]
    exact (hs.room.resolve_left (hskip rfl)).of_slot
  · rw [he]
    exact hs.snapshot.copied.of_slot

/-- and leaves what was stored. -/
theorem stored_kept {t : Target} (ht : t ∈ registry lab) (htrack : t.track = trackPinned) {ja4 : Bytes}
    (hstored : Stored (lab.profiles t.id) ja4) : Stored (lab'.profiles t.id) ja4 := by
  have hnow := hs.spared t ht htrack ja4 hstored
  obtain ⟨s, ⟨-, he⟩ | ⟨hid, he⟩⟩ := register_dir h t.id
  · rw [he]
    exact hnow.of_slot
  · rw [hid] at hnow
    rw [he, hnow.unique (hs.room.resolve_left hnow.hello)]
    exact hs.snapshot.copied.of_slot

end

/-! ## the entry of a row -/

/-- a fitting row of a directory with the JA4 gives an entry -/
theorem entry_of_row {targets : List Target} {t latest : Target} (ht : t ∈ targets)
    (hfit : Fits latest t) {ord : MapOrders} {profiles : Tree} {chk : Bool} {dist out : Dist}
    (h : runExport ord profiles targets chk dist = .ok out) (hh : (profiles t.id).hello ≠ none)
    (hne : ja4Of profiles t ≠ []) :
    ∃ cat, out.catalog = some cat ∧
      ∃ p ∈ cat.profiles, p.family = latest.family ∧ p.ja4 = ja4Of profiles t := by
  have hmem : member profiles t ∈ membersOf profiles targets :=
    mem_membersOf.mpr ⟨t, ht, ⟨hfit.status, hfit.utlsReady, hh, hne⟩, rfl⟩
  have hco := membersOf_coherent profiles targets
  obtain ⟨c, hcan, hf, hj⟩ := exists_canonical hco hmem
  obtain ⟨u, -, huj, hentry⟩ := hcan.exists_entry ord hco
  refine ⟨_, runExport_catalog h, _, hentry, ?_, huj.trans hj⟩
  show c.t.family = latest.family
  rw [hf, member_t, hfit.family]

/-! ## runs -/

section
variable {lab lab' : LabRoot} {cs : List ArchiveCall} (h : exec register lab cs = some lab')
include h

/-- the ids that are taken stay as they are -/
theorem run_kept {id : Bytes} (hne : rowsOf lab id ≠ []) : rowsOf lab' id = rowsOf lab id := by
  refine exec_always register (fun l => rowsOf l id = rowsOf lab id) (fun l c l' hl hI => ?_) h rfl
  rw [register_kept hl (by rw [hI]; exact hne), hI]

/-- the rows that a run appends have ids of their own -/
theorem run_rows : ∃ rows, lab'.archive = lab.archive ++ rows ∧ (rows.map Target.id).Nodup ∧
    ∀ r ∈ rows, rowsOf lab r.id = [] := by
  induction cs generalizing lab with
  | nil =>
    rw [Option.some.inj h]
    exact ⟨[], (List.append_nil _).symm, List.nodup_nil, fun r hr => absurd hr List.not_mem_nil⟩
  | cons c cs ih =>
    obtain ⟨lab₁, h₁, hrest⟩ := (exec_cons_eq_some register).mp h
    obtain ⟨rows, hrows, hnd, hfree⟩ := ih hrest
    have hearlier : ∀ r ∈ rows, rowsOf lab r.id = [] := by
      intro r hr
      by_contra hne
      have hkept := register_kept h₁ hne
      rw [hfree r hr] at hkept
      exact hne hkept.symm
    obtain ⟨ht, ⟨-, ha⟩ | ⟨hnil, ha⟩⟩ := register_registry h₁
    · exact ⟨rows, by rw [hrows, ha], hnd, hearlier⟩
    · refine ⟨c.row :: rows, ?_, ?_, ?_⟩
      · rw [hrows, ha, List.append_assoc]
        rfl
      · rw [List.map_cons, List.nodup_cons]
        refine ⟨fun hmem => ?_, hnd⟩
        obtain ⟨r, hr, he⟩ := List.mem_map.mp hmem
        -- the row of this call is there when the later ones are appended
        have hself : ([c.row].filter fun t => t.id = c.row.id) = [c.row] := by simp
        have hrow := rowsOf_append ht ha c.row.id
        rw [hself, ← he, hfree r hr] at hrow
        exact absurd hrow.symm (List.append_ne_nil_of_right_ne_nil _ (List.cons_ne_nil _ _))
      · intro r hr
        rcases List.mem_cons.mp hr with rfl | hr
        · rw [row_id c]
          exact hnil
        · exact hearlier r hr

variable (hr : Along register Archivable lab cs)
include hr

/-- the archives have their rows in the end -/
theorem run_fits (hw : ∀ c ∈ cs, Word c.latest.family) :
    ∀ c ∈ cs, ∃ t, rowsOf lab' c.id = [t] ∧ Fits c.latest t := by
  intro c hc
  obtain ⟨lab₁, lab₂, rest, ⟨hrc, -⟩, h₁, hrest, -⟩ := exec_at register Archivable h hr hc
  obtain ⟨t, hrow, hfit⟩ := register_self h₁ (hw c hc) hrc
  have hkept := run_kept hrest (by rw [hrow]; exact List.cons_ne_nil t [])
  exact ⟨t, hkept.trans hrow, hfit⟩

/-- what a pinned target stores is stored to the end -/
theorem run_kept_stored {t : Target} (hrow : rowsOf lab t.id = [t]) (htrack : t.track = trackPinned)
    {ja4 : Bytes} (hstored : Stored (lab.profiles t.id) ja4) : Stored (lab'.profiles t.id) ja4 := by
  refine (exec_inv register Archivable
    (fun l => rowsOf l t.id = [t] ∧ Stored (l.profiles t.id) ja4) ?_ hr h ⟨hrow, hstored⟩).2
  rintro l c l' ⟨-, hs⟩ hl ⟨hI, hstored⟩
  have hmem : t ∈ registry l := (mem_rowsOf.mp (hI ▸ List.mem_singleton_self t)).1
  refine ⟨?_, stored_kept hl hs hmem htrack hstored⟩
  rw [register_kept hl (by rw [hI]; exact List.cons_ne_nil t []), hI]

/-- so the archives have their JA4s in the end -/
theorem run_stored (hw : ∀ c ∈ cs, Word c.latest.family) :
    ∀ c ∈ cs, Stored (lab'.profiles c.id) c.old.ja4 := by
  intro c hc
  obtain ⟨lab₁, lab₂, rest, ⟨hrc, hs⟩, h₁, hrest, hrs⟩ := exec_at register Archivable h hr hc
  obtain ⟨t, hrow, hfit⟩ := register_self h₁ (hw c hc) hrc
  have hid : t.id = c.id := (mem_rowsOf.mp (hrow ▸ List.mem_singleton_self t)).2
  have hstored := register_stored h₁ hs
  rw [← hid] at hrow hstored ⊢
  exact run_kept_stored hrest hrs hrow hfit.track hstored

end

/-- **Every archive is registered** once and exported under its family, after a run of calls that have
what they need; and no call appends a row for an id that is there. -/
theorem archives_registered {lab lab' : LabRoot} {cs : List ArchiveCall}
    (h : exec register lab cs = some lab') (hw : ∀ c ∈ cs, Word c.latest.family)
    (hr : Along register Archivable lab cs) :
    (∀ c ∈ cs, RegisteredIn lab' c) ∧
    ∃ rows, lab'.archive = lab.archive ++ rows ∧ (rows.map Target.id).Nodup ∧
      ∀ r ∈ rows, rowsOf lab r.id = [] := by
  refine ⟨fun c hc => ?_, run_rows h⟩
  obtain ⟨t, hrow, hfit⟩ := run_fits h hr hw c hc
  obtain ⟨ht, hid⟩ := mem_rowsOf.mp (hrow ▸ List.mem_singleton_self t)
  have hstored := run_stored h hr hw c hc
  rw [← hid] at hstored
  refine ⟨t, hrow, hfit, fun ord chk dist out hout => ?_⟩
  rw [← hstored.ja4Of]
  exact entry_of_row ht hfit hout hstored.hello (hstored.ja4Of ▸ hstored.ne_nil)

/-! ## a hand-written target -/

/-- the archive of Chrome 120 -/
def chrome120Call : ArchiveCall where
  profiles := emptyLab.profiles
  latest := chromeLinux
  before := (chromeCapture 1 lostJA4).capture.over {}
  old := { ja4 := lostJA4, softwareVersion := str "120.0.6099.109", softwareMajor := 120 }

def chromeLab : LabRoot := { emptyLab with targets := [chromeLinux] }

/-- a row of the archive's id that is not captured yet -/
def chrome120Wish : Target :=
  { id := str "chrome-120", group := str "wishlist", kind := str "wishlist", status := str "wishlist"
    utlsReady := true, family := str "chrome" }

def wishLab : LabRoot := { emptyLab with targets := [chromeLinux, chrome120Wish] }

/-- **Kept out**: the id of the archive is a wish already, and the wish stays one. -/
theorem archive_unregistered : (wishLab.targets.map Target.id).Nodup ∧
    ∃ lab, exec register wishLab [chrome120Call] = some lab ∧ ¬ RegisteredIn lab chrome120Call := by
  have hwish : rowsOf wishLab chrome120Call.id = [normalizeTarget chrome120Wish] := by decide +kernel
  obtain ⟨lab, hlab⟩ : ∃ lab, exec register wishLab [chrome120Call] = some lab := ⟨_, rfl⟩
  refine ⟨by decide, lab, hlab, fun h => ?_⟩
  obtain ⟨t, hrow, hfit, -⟩ := h
  have hkept := run_kept hlab (by rw [hwish]; exact List.cons_ne_nil _ _)
  rw [hrow, hwish] at hkept
  rw [List.singleton_inj.mp hkept] at hfit
  exact absurd hfit.status (by decide)

/-- the archive once more, when it is there -/
def chrome120Again : ArchiveCall where
  profiles := (archiveSnapshot { chromeLab with profiles := chrome120Call.profiles } chromeLinux
    chrome120Call.before chrome120Call.old (archivePrefix chromeLinux chrome120Call.old)).profiles
  latest := chromeLinux
  before := chrome120Call.before
  old := chrome120Call.old

theorem chrome120Call_archivable : Archivable chromeLab chrome120Call := by
  refine ⟨.inl ⟨by decide +kernel, ?_⟩, ?_, .inl (by decide +kernel), fun t _ _ ja4 h => h⟩
  · unfold ReadsBack
    decide +kernel
  · exact ⟨by decide, by decide +kernel, by decide +kernel, by decide⟩

/-- the archive twice -/
theorem archives_registered_once : ∃ lab,
    exec register chromeLab [chrome120Call, chrome120Again] = some lab ∧
    RegisteredIn lab chrome120Call := by
  have hwords : ∀ c ∈ [chrome120Call, chrome120Again], Word c.latest.family := by decide +kernel
  obtain ⟨lab₁, h₁⟩ : ∃ lab₁, register chromeLab chrome120Call = some lab₁ := ⟨_, rfl⟩
  obtain ⟨lab₂, h₂⟩ : ∃ lab₂, register lab₁ chrome120Again = some lab₂ := ⟨_, rfl⟩
  have hrun : exec register chromeLab [chrome120Call, chrome120Again] = some lab₂ := by
    rw [exec_cons register h₁, exec_cons register h₂]
    rfl
  have hfirst := chrome120Call_archivable
  have hid : chrome120Again.id = chrome120Call.id := by decide +kernel
  have htree : chrome120Again.profiles = lab₁.profiles := congrArg LabRoot.profiles (Option.some.inj h₁)
  have hself := register_self h₁ (hwords _ List.mem_cons_self) hfirst.1
  have hstored := register_stored h₁ hfirst.2
  have hagain : Archivable lab₁ chrome120Again := by
    refine ⟨.inr (hid.symm ▸ hself), hfirst.2.snapshot, .inr ?_, fun t _ _ ja4 h => htree.symm ▸ h⟩
    rw [htree, hid]
    exact hstored
  have hboth : Along register Archivable chromeLab [chrome120Call, chrome120Again] :=
    (along_cons register Archivable h₁ _).mpr ⟨hfirst, (along_cons register Archivable h₂ _).mpr
      ⟨hagain, trivial⟩⟩
  exact ⟨lab₂, hrun, (archives_registered hrun hwords hboth).1 _ List.mem_cons_self⟩

end Labctl
