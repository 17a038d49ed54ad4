import FingerprintLab.Quic.Experiment

/-!
# The match gate

`match_utls_catalog.py` classifies the directories under `profiles/` and answers with its exit code.
Where the stable/random experiment has passed, the gate has little left to find.

* `gateRows`, `MatchReport`   the directories that are classified, and the report;
* `gateExit`, `gateExit_iff`   the exit code, and when it is 0;
* `authSafe_of_slots`    no classification of a checked catalog ties its auth to a fingerprint;
* `gate_after_experiment`   the code after an experiment without failures.
-/

set_option linter.unusedSectionVars false
set_option linter.unusedVariables false

namespace Quic
open Go Py Checks

/-! ## the script -/

/-- the directories with a `profile.json`; without ids those of live runs and of peers are left out -/
def gateSelects (ids : List Bytes) (name : Bytes) (d : ProfileDir) : Bool :=
  d.profile.isSome &&
    if ids = [] then !((str "exp-").isPrefixOf name || (str "peer-").isPrefixOf name)
    else decide (name ∈ ids)

/-- the rows of the sorted listing `names` -/
def gateRows (u : Unicode) (catalog : List Entry) (dirs : Bytes → Option ProfileDir)
    (names ids : List Bytes) : List Classification :=
  names.filterMap fun name => do
    let d ← dirs name
    if gateSelects ids name d then
      let obs ← load_observation u name d
      return classify obs catalog
    else none

/-- the row has a short name that is not empty -/
def Classification.matched (r : Classification) : Bool :=
  match r.matchedShort with
  | some s => s ≠ []
  | none => false

structure MatchReport where
  catalogShorts : List Bytes
  profilesTotal : Nat
  matched : Nat
  unmatched : Nat
  unmatchedIDs : List Bytes
  emitReadyMatches : Nat
  authCapableMatches : Nat
  rows : List Classification

def matchReport (catalog : List Entry) (rows : List Classification) : MatchReport where
  catalogShorts := catalog.map fun cat => cat.short
  profilesTotal := rows.length
  matched := rows.countP Classification.matched
  unmatched := rows.length - rows.countP Classification.matched
  unmatchedIDs := (rows.filter fun r => !r.matched).map fun r => r.labID
  emitReadyMatches := rows.countP fun r => r.status = some (str "emit_ready")
  authCapableMatches := rows.countP fun r => r.authCapable
  rows := rows

def requiredShorts : List Bytes := [str "chrome", str "quic-go", str "quic-go-datagram"]

/-- the auth channel of the row wants the fingerprint as well -/
def Classification.badAuth (r : Classification) : Bool :=
  r.authCapable && r.requiresDemuxFingerprint.getD false

def gateExit (catalog : List Entry) (rows : List Classification) (strictAll : Bool) : Nat :=
  let rep := matchReport catalog rows
  if catalog.isEmpty then 2
  else if requiredShorts.any fun s => !(rep.rows.any fun r => r.matched && r.matchedShort = some s)
    then 1
  else if strictAll && !rep.unmatchedIDs.isEmpty then 1
  else if rep.rows.any Classification.badAuth then 1
  else 0

/-! ## rows -/

section
variable {u : Unicode} {catalog : List Entry} {dirs : Bytes → Option ProfileDir} {names ids : List Bytes}

theorem mem_gateRows {r : Classification} : r ∈ gateRows u catalog dirs names ids ↔
    ∃ name ∈ names, ∃ d, dirs name = some d ∧ gateSelects ids name d = true ∧
      ∃ obs, load_observation u name d = some obs ∧ r = classify obs catalog := by
  unfold gateRows
  rw [List.mem_filterMap]
  refine exists_congr fun name => and_congr_right fun _ => ?_
  cases hd : dirs name with
  | none =>
    refine iff_of_false (fun h => nomatch h) ?_
    rintro ⟨d, h, -⟩
    cases h
  | some d =>
    by_cases hs : gateSelects ids name d = true
    · constructor
      · intro h
        obtain ⟨d', hd', h⟩ := Option.bind_eq_some_iff.mp h
        obtain rfl : d = d' := Option.some.inj hd'
        rw [if_pos hs] at h
        obtain ⟨obs, hobs, h⟩ := Option.bind_eq_some_iff.mp h
        exact ⟨d, rfl, hs, obs, hobs, (Option.some.inj h).symm⟩
      · rintro ⟨d', hd', -, obs, hobs, rfl⟩
        obtain rfl : d = d' := Option.some.inj hd'
        refine Option.bind_eq_some_iff.mpr ⟨d, rfl, ?_⟩
        rw [if_pos hs]
        exact Option.bind_eq_some_iff.mpr ⟨obs, hobs, rfl⟩
    · refine iff_of_false (fun h => ?_) ?_
      · obtain ⟨d', hd', h⟩ := Option.bind_eq_some_iff.mp h
        obtain rfl : d = d' := Option.some.inj hd'
        rw [if_neg hs] at h
        cases h
      · rintro ⟨d', hd', hs', -⟩
        obtain rfl : d = d' := Option.some.inj hd'
        exact hs hs'

/-- a directory that is looked at loads -/
theorem load_of_selects (u : Unicode) {ids : List Bytes} (name : Bytes) {d : ProfileDir}
    (h : gateSelects ids name d = true) : ∃ obs, load_observation u name d = some obs := by
  unfold gateSelects at h
  rw [Bool.and_eq_true] at h
  obtain ⟨prof, hprof⟩ := Option.isSome_iff_exists.mp h.1
  unfold load_observation
  rw [hprof]
  exact ⟨_, rfl⟩

theorem matched_iff {r : Classification} :
    r.matched = true ↔ ∃ s, r.matchedShort = some s ∧ s ≠ [] := by
  unfold Classification.matched
  cases r.matchedShort with
  | none => exact iff_of_false Bool.false_ne_true fun ⟨s, hs, _⟩ => nomatch hs
  | some s => simp

end

/-- where the required names are matched and no auth channel is wrong, `--strict-all` decides -/
theorem gateExit_iff {catalog : List Entry} {rows : List Classification} (hne : catalog ≠ [])
    (hreq : ∀ s ∈ requiredShorts, ∃ r ∈ rows, r.matched = true ∧ r.matchedShort = some s)
    (hauth : ∀ r ∈ rows, r.badAuth = false) (strict : Bool) :
    gateExit catalog rows strict = 0 ↔ (strict = true → ∀ r ∈ rows, r.matched = true) := by
  have hentries : catalog.isEmpty = false := List.isEmpty_eq_false_iff.mpr hne
  have hrequired : (requiredShorts.any fun s => !(rows.any fun r =>
      r.matched && r.matchedShort = some s)) = false := by
    rw [List.any_eq_false]
    intro s hs
    obtain ⟨r, hr, hm, hshort⟩ := hreq s hs
    have hany : (rows.any fun r => r.matched && r.matchedShort = some s) = true :=
      List.any_eq_true.mpr ⟨r, hr, by rw [hm, hshort]; simp⟩
    simp [hany]
  have hbad : rows.any Classification.badAuth = false := by
    rw [List.any_eq_false]
    intro r hr
    simp [hauth r hr]
  have hunmatched : (matchReport catalog rows).unmatchedIDs.isEmpty = true ↔
      ∀ r ∈ rows, r.matched = true := by
    show ((rows.filter fun r => !r.matched).map _).isEmpty = true ↔ _
    simp
  unfold gateExit
  dsimp only
  rw [if_neg (by rw [hentries]; decide)]
  show (if (requiredShorts.any fun s => !(rows.any fun r =>
    r.matched && r.matchedShort = some s)) = true then 1 else _) = 0 ↔ _
  rw [hrequired, if_neg Bool.false_ne_true]
  show (if _ then 1 else if rows.any Classification.badAuth = true then 1 else 0) = 0 ↔ _
  rw [hbad, if_neg Bool.false_ne_true, ← hunmatched]
  cases strict <;> cases (matchReport catalog rows).unmatchedIDs.isEmpty <;> simp

/-! ## after the experiment -/

section
variable {catalog : List ExperimentEntry}

/-- an entry whose slots pass has an auth channel that needs no fingerprint -/
theorem auth_of_slots {cat : ExperimentEntry} (h : randomSlots cat = [])
    (hcap : cat.auth.capable.get.getD false = true) :
    cat.auth.requiresDemuxFingerprint = .val false := by
  unfold randomSlots at h
  dsimp only at h
  rw [if_pos hcap] at h
  simp only [List.append_eq_nil_iff, assertTrue_nil, decide_eq_true_eq] at h
  exact h.2.2

theorem authSafe_of_slots (hnd : Separated catalog) (hslots : exp_catalog_random_slots catalog = [])
    (obs : Observation) : (classify obs (entriesOf catalog)).badAuth = false := by
  rw [classify_filter]
  obtain hnil | ⟨c, hc⟩ := fitting_cases obs hnd
  · rw [hnil]
    rfl
  · have hfit : c ∈ fitting obs (entriesOf catalog) := by
      rw [hc]
      exact List.mem_singleton_self c
    obtain ⟨hmem, hacc⟩ := (mem_fitting obs).mp hfit
    obtain ⟨cat, hcat, rfl⟩ := List.mem_map.mp hmem
    rw [hc, classify_single obs ((score_match_nonneg obs cat.toEntry).mpr hacc)]
    show (cat.auth.capable.get.getD false && cat.auth.requiresDemuxFingerprint.get.getD false) = false
    cases hcap : cat.auth.capable.get.getD false with
    | false => rfl
    | true =>
      rw [auth_of_slots (List.flatMap_eq_nil_iff.mp hslots cat hcat) hcap]
      rfl

end

/-- **The gate after an experiment without failures**: it answers 0 when each required short name has a
directory that the catalog names and the gate looks at; with `--strict-all` exactly when moreover each
directory that it looks at fits an entry. -/
theorem gate_after_experiment {J : Type} [DecidableEq J] {truthy : J → Bool} {u : Unicode}
    {root : Bytes → Option (LabDir J)} {names extra : List Bytes} {files : List (Bytes × FullDoc)}
    (hrun : experiment truthy u root names (files.map (experimentEntry u)) extra = some [])
    (hshorts : (files.map fun f => f.2.short).Nodup) (hne : ∀ f ∈ files, f.2.short ≠ [])
    (hreq : ∀ s ∈ requiredShorts, ∃ f ∈ files, f.2.short = s ∧
      ∃ r ∈ (experimentEntry u f).observationRefs, r ∈ names ∧
        ∃ d, root r = some d ∧ gateSelects [] r d.dir = true) :
    let catalog := entriesOf (files.map (experimentEntry u))
    let dirs := fun name => (root name).map fun d => d.dir
    gateExit catalog (gateRows u catalog dirs names []) false = 0 ∧
    (gateExit catalog (gateRows u catalog dirs names []) true = 0 ↔
      ∀ name ∈ names, ∀ d, root name = some d → gateSelects [] name d.dir = true →
        ∃ obs cat, load_observation u name d.dir = some obs ∧ cat ∈ catalog ∧
          Accepts cat obs.tpSet obs.markers obs.scidLen) := by
  intro catalog dirs
  obtain ⟨hslots, hnd, -⟩ := experiment_separates hrun
  have hentries : catalog ≠ [] := by
    obtain ⟨f, hf, -⟩ := hreq _ List.mem_cons_self
    exact List.ne_nil_of_mem (List.mem_map_of_mem (List.mem_map_of_mem hf))
  have hrequired : ∀ s ∈ requiredShorts, ∃ r ∈ gateRows u catalog dirs names [],
      r.matched = true ∧ r.matchedShort = some s := by
    intro s hs
    obtain ⟨f, hf, rfl, r, hr, hname, d, hd, hsel⟩ := hreq s hs
    obtain ⟨obs, hobs, hmatched⟩ := experiment_refs hrun hshorts hf hr hd
    exact ⟨classify obs catalog, mem_gateRows.mpr
      ⟨r, hname, d.dir, congrArg (Option.map _) hd, hsel, obs, hobs, rfl⟩,
      matched_iff.mpr ⟨_, hmatched, hne f hf⟩, hmatched⟩
  have hauth : ∀ row ∈ gateRows u catalog dirs names [], row.badAuth = false := by
    intro row hrow
    obtain ⟨-, -, -, -, -, obs, -, rfl⟩ := mem_gateRows.mp hrow
    exact authSafe_of_slots hnd hslots obs
  have hexit := gateExit_iff hentries hrequired hauth
  refine ⟨(hexit false).mpr fun h => absurd h Bool.false_ne_true, (hexit true).trans ?_⟩
  rw [forall_prop_of_true rfl]
  constructor
  · intro hall name hname d hd hsel
    obtain ⟨obs, hobs⟩ := load_of_selects u name hsel
    have hrow := hall _ (mem_gateRows.mpr
      ⟨name, hname, d.dir, congrArg (Option.map _) hd, hsel, obs, hobs, rfl⟩)
    obtain ⟨s, hs, -⟩ := matched_iff.mp hrow
    obtain ⟨cat, hcat, hacc, -⟩ := (matchedShort_iff hnd obs s).mp hs
    exact ⟨obs, cat.toEntry, hobs, List.mem_map_of_mem hcat, hacc⟩
  · intro hall row hrow
    obtain ⟨name, hname, d, hd, hsel, obs, hobs, rfl⟩ := mem_gateRows.mp hrow
    obtain ⟨l, hl, rfl⟩ := Option.map_eq_some_iff.mp hd
    obtain ⟨obs', c, hobs', hc, hacc⟩ := hall name hname l hl hsel
    obtain rfl : obs = obs' := Option.some.inj (hobs.symm.trans hobs')
    obtain ⟨cat, hcat, rfl⟩ := List.mem_map.mp hc
    obtain ⟨f, hf, rfl⟩ := List.mem_map.mp hcat
    have hmatched := (matchedShort_iff hnd obs _).mpr ⟨_, hcat, hacc, rfl⟩
    exact matched_iff.mpr ⟨_, hmatched, hne f hf⟩

/-! ## the required short names -/

def gateFiles : List (Bytes × FullDoc) :=
  [(str "chrome.json", stackDoc (str "chrome") parrotIDs [str "chromeparrot", str "chromeparrot-b"]),
    (str "quic-go-datagram.json",
      stackDoc (str "quic-go-datagram") [.int 1, .int 0x20] [str "quicgodg"]),
    (str "quic-go.json", stackDoc (str "quic-go") [.int 1] [str "quicgo"])]

def gateRoot (name : Bytes) : Option (LabDir Nat) :=
  if name = str "quicgodg" then some (labDir [.int 1, .int 0x20] 1)
  else if name = str "quicgo" then some (labDir [.int 1] 1)
  else stackRoot name

def gateNames : List Bytes := [str "chromeparrot", str "chromeparrot-b", str "quicgo", str "quicgodg"]

theorem gate_after_experiment_required :
    gateExit (entriesOf (gateFiles.map (experimentEntry .ascii)))
      (gateRows .ascii (entriesOf (gateFiles.map (experimentEntry .ascii)))
        (fun name => (gateRoot name).map fun d => d.dir) gateNames []) false = 0 := by
  have hrun : experiment (fun n : Nat => n != 0) .ascii gateRoot gateNames
      (gateFiles.map (experimentEntry .ascii)) [] = some [] := by decide +kernel
  have hne : ∀ f ∈ gateFiles, f.2.short ≠ [] := by decide +kernel
  have hreq : ∀ s ∈ requiredShorts, ∃ f ∈ gateFiles, f.2.short = s ∧
      ∃ r ∈ (experimentEntry .ascii f).observationRefs, r ∈ gateNames ∧
        ((gateRoot r).any fun d => gateSelects [] r d.dir) = true := by decide +kernel
  refine (gate_after_experiment hrun (by decide +kernel) hne fun s hs => ?_).1
  obtain ⟨f, hf, hshort, r, hr, hname, hany⟩ := hreq s hs
  obtain ⟨d, hd, hsel⟩ := (Option.any_eq_true _ _).mp hany
  exact ⟨f, hf, hshort, r, hr, hname, d, hd, hsel⟩

end Quic
