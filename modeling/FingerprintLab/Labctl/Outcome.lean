import FingerprintLab.Labctl.Naming

/-!
# When an export succeeds

* `collect_ok_iff`       the members are the eligible targets, unless a candidate has no family;
* `dedupCheck_ok_iff`    the check passes when no two entries have one key;
* `copyProfiles_ok_iff`  the copies succeed when every entry has a hello and a `profile.json` that can
                         be copied;
* `PathsApart`           the short names lead to different directories: each holds its own entry's hello;
* `runExport_ok`         what a successful export has gone through, and its catalog.
-/

set_option linter.unusedVariables false

namespace Labctl
open Go Lab Ranking Writes

/-! ## the members -/

/-- the JA4 that the export gives a target -/
def ja4Of (profiles : Tree) (t : Target) : Bytes := (member profiles t).ja4

def Eligible (profiles : Tree) (t : Target) : Prop :=
  t.status = str "active" ∧ t.utlsReady = true ∧ (profiles t.id).hello ≠ none ∧
    ja4Of profiles t ≠ []

instance (profiles : Tree) (t : Target) : Decidable (Eligible profiles t) :=
  inferInstanceAs (Decidable (_ ∧ _ ∧ _ ∧ _))

def membersOf (profiles : Tree) (targets : List Target) : List RankedMember :=
  (targets.filter fun t => Eligible profiles t).map (member profiles)

@[simp] theorem member_t (profiles : Tree) (t : Target) : (member profiles t).t = t := by
  unfold member
  dsimp only
  split <;> split <;> rfl

@[simp] theorem member_hasProfile (profiles : Tree) (t : Target) :
    (member profiles t).hasProfile = (profiles t.id).hello.isSome := by
  unfold member
  dsimp only
  split <;> split <;> rfl

theorem eligible_iff (profiles : Tree) (t : Target) : Eligible profiles t ↔
    candidate t = true ∧ (member profiles t).hasProfile = true ∧ (member profiles t).ja4 ≠ [] := by
  unfold Eligible candidate ja4Of
  rw [member_hasProfile, Option.isSome_iff_ne_none, Bool.and_eq_true, decide_eq_true_eq, and_assoc]

/-- a candidate has a family -/
def FamiliesGiven (targets : List Target) : Prop :=
  ∀ t ∈ targets, candidate t = true → t.family ≠ []

theorem collect_cons_eligible (profiles : Tree) (t : Target) (ts : List Target)
    (hf : t.family ≠ []) (he : Eligible profiles t) : collect profiles (t :: ts) =
      (collect profiles ts).map fun ms => member profiles t :: ms := by
  obtain ⟨hc, hp, hj⟩ := (eligible_iff profiles t).mp he
  rw [collect, hc, if_neg (by decide), if_neg hf]
  dsimp only
  rw [hp, if_neg (by decide), if_neg hj]
  cases collect profiles ts <;> rfl

theorem collect_cons_skip (profiles : Tree) (t : Target) (ts : List Target)
    (hf : candidate t = true → t.family ≠ []) (he : ¬ Eligible profiles t) :
    collect profiles (t :: ts) = collect profiles ts := by
  rw [eligible_iff] at he
  rw [collect]
  by_cases hc : candidate t = true
  · rw [hc, if_neg (by decide), if_neg (hf hc)]
    dsimp only
    by_cases hp : (member profiles t).hasProfile = true
    · have hj : (member profiles t).ja4 = [] := by
        by_contra hj
        exact he ⟨hc, hp, hj⟩
      rw [hp, if_neg (by decide), if_pos hj]
    · rw [if_pos (by simpa using hp)]
  · rw [if_pos (by simpa using hc)]

theorem collect_ok_iff (profiles : Tree) (targets : List Target) (ms : List RankedMember) :
    collect profiles targets = .ok ms ↔
      FamiliesGiven targets ∧ ms = membersOf profiles targets := by
  induction targets generalizing ms with
  | nil =>
    constructor
    · intro h
      exact ⟨fun t ht => absurd ht List.not_mem_nil, (Except.ok.inj h).symm⟩
    · rintro ⟨-, rfl⟩
      rfl
  | cons t ts ih =>
    by_cases hf : candidate t = true → t.family ≠ []
    · have hgiven : FamiliesGiven (t :: ts) ↔ FamiliesGiven ts := by
        unfold FamiliesGiven
        rw [List.forall_mem_cons]
        exact and_iff_right hf
      by_cases he : Eligible profiles t
      · have hm : membersOf profiles (t :: ts) = member profiles t :: membersOf profiles ts := by
          unfold membersOf
          rw [List.filter_cons_of_pos (by simpa using he)]
          rfl
        rw [collect_cons_eligible _ _ _ (hf ((eligible_iff _ _).mp he).1) he, hgiven, hm]
        cases hc : collect profiles ts with
        | error e =>
          constructor
          · intro h; cases h
          · rintro ⟨h, -⟩
            rw [(ih _).mpr ⟨h, rfl⟩] at hc
            cases hc
        | ok ms' =>
          obtain ⟨hg, rfl⟩ := (ih ms').mp hc
          constructor
          · intro h
            exact ⟨hg, (Except.ok.inj h).symm⟩
          · rintro ⟨-, rfl⟩
            rfl
      · have hm : membersOf profiles (t :: ts) = membersOf profiles ts := by
          unfold membersOf
          rw [List.filter_cons_of_neg (by simpa using he)]
        rw [collect_cons_skip _ _ _ hf he, hgiven, hm]
        exact ih ms
    · push Not at hf
      constructor
      · intro h
        rw [collect, hf.1, if_neg (by decide), if_pos hf.2] at h
        cases h
      · rintro ⟨h, -⟩
        exact absurd hf.2 (h t List.mem_cons_self hf.1)

/-- a failed collection names a target without a family -/
theorem collect_error {profiles : Tree} {targets : List Target} {e : ExportError}
    (h : collect profiles targets = .error e) : ∃ id, e = .familyRequired id := by
  induction targets with
  | nil => cases h
  | cons t ts ih =>
    by_cases hf : candidate t = true → t.family ≠ []
    · by_cases he : Eligible profiles t
      · rw [collect_cons_eligible _ _ _ (hf ((eligible_iff _ _).mp he).1) he] at h
        cases hc : collect profiles ts with
        | error e' =>
          rw [hc] at h
          exact ih (by rw [hc]; exact congrArg Except.error (Except.error.inj h))
        | ok ms => rw [hc] at h; cases h
      · rw [collect_cons_skip _ _ _ hf he] at h
        exact ih h
    · push Not at hf
      rw [collect, hf.1, if_neg (by decide), if_pos hf.2] at h
      exact ⟨t.id, (Except.error.inj h).symm⟩

/-! ## the check and the copies -/

theorem dedupCheck_ok_iff (seen : Finmap fun _ : Bytes => Bytes) (ps : List ExportProfile) :
    dedupCheck seen ps = .ok () ↔ (ps.map dedupKey).Nodup ∧ ∀ p ∈ ps, dedupKey p ∉ seen := by
  induction ps generalizing seen with
  | nil => simp [dedupCheck]
  | cons p ps ih =>
    rw [dedupCheck]
    split
    · rename_i prev hprev
      constructor
      · intro h; cases h
      · rintro ⟨-, h⟩
        exact absurd (Finmap.mem_of_lookup_eq_some hprev) (h p List.mem_cons_self)
    · rename_i hnone
      rw [Finmap.lookup_eq_none] at hnone
      rw [ih, List.map_cons, List.nodup_cons, List.forall_mem_cons]
      constructor
      · rintro ⟨hnd, hseen⟩
        refine ⟨⟨fun hp => ?_, hnd⟩, hnone, fun q hq hqs => ?_⟩
        · obtain ⟨q, hq, he⟩ := List.mem_map.mp hp
          exact hseen q hq (Finmap.mem_insert.mpr (Or.inl he))
        · exact hseen q hq (Finmap.mem_insert.mpr (Or.inr hqs))
      · rintro ⟨⟨hp, hnd⟩, -, hseen⟩
        refine ⟨hnd, fun q hq hqi => ?_⟩
        rcases Finmap.mem_insert.mp hqi with he | hqs
        · exact hp (he ▸ List.mem_map_of_mem hq)
        · exact hseen q hq hqs

/-- the check as the export makes it, when it is asked for -/
theorem dedupCheck_passes {chk : Bool} {ps : List ExportProfile}
    (h : chk = true → (ps.map dedupKey).Nodup) :
    (if chk = true then dedupCheck ∅ ps else .ok ()) = .ok () := by
  split
  · rename_i hchk
    exact (dedupCheck_ok_iff _ _).mpr ⟨h hchk, fun p _ => Finmap.notMem_empty⟩
  · rfl

theorem writeAt_leads {α : Type} (f : Bytes → α) {short s : Bytes} (v : α) (h : Leads short s) :
    writeAt f short v s = v := if_pos h

theorem writeAt_of_not {α : Type} (f : Bytes → α) {short s : Bytes} (v : α) (h : ¬ Leads short s) :
    writeAt f short v s = f s := if_neg h

theorem leads_self {short : Bytes} (h : Inside short) : Leads short short := ⟨h, rfl⟩

theorem leads_congr {short s s' : Bytes} (h : dstPath s = dstPath s') :
    Leads short s ↔ Leads short s' := by
  unfold Leads
  rw [h]

/-- a short name that is a path element leads to a directory of its own -/
theorem dstPath_name {short : Bytes} (h : Paths.IsName short) :
    dstPath short = (Paths.join [str "dist", str "export", str "profiles"]).child short :=
  Paths.join_child [str "dist", str "export", str "profiles"] h

theorem inside_name {short : Bytes} (h : Paths.IsName short) : Inside short := by
  have hroot : (Paths.join [str "dist", str "export", str "profiles"]).elems =
      [str "dist", str "export", str "profiles"] := by decide +kernel
  unfold Inside
  rw [dstPath_name h]
  show _ <+: (Paths.join _).elems ++ [short]
  rw [hroot]
  exact ⟨[str "profiles", short], rfl⟩

section
variable {α : Type} {fault : Option (CopyFault α)} {src : Option α}

theorem copyFile_ok_iff (dst : Option α) :
    (copyFile fault src dst).2 = true ↔ src ≠ none ∧ fault = none := by
  unfold copyFile
  cases src <;> cases fault <;> simp

theorem copyFile_ok {dst : Option α} (h : (copyFile fault src dst).2 = true) :
    (copyFile fault src dst).1 = src := by
  unfold copyFile at h ⊢
  cases src <;> cases fault <;> simp at h ⊢

@[simp] theorem copyFile_none (dst : Option α) : (copyFile none src dst).1 = src.or dst := by
  cases src <;> rfl

end

@[simp] theorem readTree_noFaults (profiles : Tree) : readTree noFaults profiles = profiles := rfl

/-- paths of one place hold the same -/
def Dist.Resolved (d : Dist) : Prop := ∀ s s', dstPath s = dstPath s' → d.profiles s = d.profiles s'

theorem Dist.resolved_empty : ({} : Dist).Resolved := fun _ _ _ => rfl

/-- the files that an entry cannot do without are there, and can be copied -/
structure Copyable (profiles : Tree) (p : ExportProfile) (faults : Faults := noFaults) : Prop where
  hello : (profiles p.labID).hello ≠ none
  profile : (profiles p.labID).profile ≠ none
  helloCopied : (faults p.labID).hello = none
  profileCopied : (faults p.labID).profile = none

theorem copyable_noFaults {profiles : Tree} {p : ExportProfile} :
    Copyable profiles p ↔ (profiles p.labID).hello ≠ none ∧ (profiles p.labID).profile ≠ none :=
  ⟨fun h => ⟨h.hello, h.profile⟩, fun h => ⟨h.1, h.2, rfl, rfl⟩⟩

section
variable {profiles : Tree} {faults : Faults} {dist out : Dist} {p : ExportProfile}

theorem copyDir_ok_iff (dst : Dir) :
    (copyDir (faults p.labID) (profiles p.labID) dst).2 = none ↔ Copyable profiles p faults := by
  unfold copyDir
  dsimp only
  split_ifs with hh hd
  · refine iff_of_false not_false fun hc => ?_
    rw [(copyFile_ok_iff _).mpr ⟨hc.hello, hc.helloCopied⟩] at hh
    cases hh
  · refine iff_of_false not_false fun hc => ?_
    rw [(copyFile_ok_iff _).mpr ⟨hc.profile, hc.profileCopied⟩] at hd
    cases hd
  · obtain ⟨hello, hcopied⟩ := (copyFile_ok_iff _).mp (Bool.not_eq_false _ ▸ hh)
    obtain ⟨profile, pcopied⟩ := (copyFile_ok_iff _).mp (Bool.not_eq_false _ ▸ hd)
    exact iff_of_true rfl ⟨hello, profile, hcopied, pcopied⟩

theorem copyDir_hello (dst : Dir) (h : Copyable profiles p faults) :
    (copyDir (faults p.labID) (profiles p.labID) dst).1.hello = (profiles p.labID).hello := by
  have hh : (copyFile (faults p.labID).hello (profiles p.labID).hello dst.hello).2 = true :=
    (copyFile_ok_iff _).mpr ⟨h.hello, h.helloCopied⟩
  unfold copyDir
  dsimp only
  rw [if_neg (by rw [hh]; decide)]
  split_ifs
  · exact copyFile_ok hh
  · exact copyFile_ok hh

theorem copyProfile_of_copyable (dist : Dist) (h : Copyable profiles p faults) :
    ∃ side, copyProfile profiles dist p faults = .ok { dist with
      profiles := writeAt dist.profiles p.shortName
        (copyDir (faults p.labID) (profiles p.labID) (dist.profiles p.shortName)).1
      sides := writeAt dist.sides p.shortName (some side) } := by
  unfold copyProfile
  dsimp only
  rw [(copyDir_ok_iff _).mpr h]
  exact ⟨_, rfl⟩

theorem copyProfile_ok (h : copyProfile profiles dist p faults = .ok out) :
    Copyable profiles p faults ∧
      (∀ s, Leads p.shortName s → (out.profiles s).hello = (profiles p.labID).hello) ∧
      ∀ s, ¬ Leads p.shortName s → out.profiles s = dist.profiles s := by
  have hc : Copyable profiles p faults := by
    refine (copyDir_ok_iff (dist.profiles p.shortName)).mp ?_
    unfold copyProfile at h
    dsimp only at h
    split at h
    · cases h
    · assumption
  obtain ⟨side, he⟩ := copyProfile_of_copyable dist hc
  rw [he] at h
  rw [← Except.ok.inj h]
  refine ⟨hc, fun s hs => ?_, fun s hs => writeAt_of_not _ _ hs⟩
  show (writeAt dist.profiles p.shortName _ s).hello = _
  rw [writeAt_leads _ _ hs]
  exact copyDir_hello _ hc

theorem copyProfiles_cons_ok {ps : List ExportProfile} :
    copyProfiles profiles dist (p :: ps) faults = .ok out ↔
      ∃ d, copyProfile profiles dist p faults = .ok d ∧ copyProfiles profiles d ps faults = .ok out := by
  rw [copyProfiles]
  cases copyProfile profiles dist p faults with
  | error e => exact ⟨fun h => (nomatch h), fun ⟨_, h, _⟩ => (nomatch h)⟩
  | ok d => exact ⟨fun h => ⟨d, rfl, h⟩, fun ⟨d', h, hrest⟩ => Except.ok.inj h ▸ hrest⟩

theorem copyProfiles_ok_iff (profiles : Tree) (dist : Dist) (ps : List ExportProfile) :
    (∃ out, copyProfiles profiles dist ps faults = .ok out) ↔
      ∀ p ∈ ps, Copyable profiles p faults := by
  induction ps generalizing dist with
  | nil => exact ⟨fun _ p hp => absurd hp List.not_mem_nil, fun _ => ⟨dist, rfl⟩⟩
  | cons p ps ih =>
    rw [List.forall_mem_cons]
    constructor
    · rintro ⟨out, h⟩
      obtain ⟨d, hc, hrest⟩ := copyProfiles_cons_ok.mp h
      exact ⟨(copyProfile_ok hc).1, (ih d).mp ⟨out, hrest⟩⟩
    · rintro ⟨hp, hps⟩
      obtain ⟨side, hd⟩ := copyProfile_of_copyable dist hp
      obtain ⟨out, hout⟩ := (ih _).mpr hps
      exact ⟨out, copyProfiles_cons_ok.mpr ⟨_, hd, hout⟩⟩

/-- a failed copy names the file -/
theorem copyProfiles_error {ps : List ExportProfile} {e : ExportError × Dist}
    (h : copyProfiles profiles dist ps faults = .error e) : ∃ labID name, e.1 = .copy labID name := by
  induction ps generalizing dist with
  | nil => cases h
  | cons p ps ih =>
    rw [copyProfiles] at h
    cases hc : copyProfile profiles dist p faults with
    | error e' =>
      rw [hc] at h
      rw [← Except.error.inj h]
      unfold copyProfile at hc
      dsimp only at hc
      split at hc
      · rw [← Except.error.inj hc]
        exact ⟨_, _, rfl⟩
      · cases hc
    | ok d =>
      rw [hc] at h
      exact ih h

/-- a path holds what it held, or what the last entry that leads there has copied to it -/
theorem copyProfiles_path {ps : List ExportProfile}
    (h : copyProfiles profiles dist ps faults = .ok out) (s : Bytes) :
    (∃ q ∈ ps, Leads q.shortName s ∧ (out.profiles s).hello = (profiles q.labID).hello) ∨
      (∀ q ∈ ps, ¬ Leads q.shortName s) ∧ out.profiles s = dist.profiles s := by
  induction ps generalizing dist with
  | nil =>
    rw [← Except.ok.inj h]
    exact .inr ⟨fun q hq => absurd hq List.not_mem_nil, rfl⟩
  | cons p ps ih =>
    obtain ⟨d, hc, h⟩ := copyProfiles_cons_ok.mp h
    obtain ⟨-, hself, hrest⟩ := copyProfile_ok hc
    obtain ⟨q, hq, hl, hhello⟩ | ⟨hnone, hsame⟩ := ih h
    · exact .inl ⟨q, List.mem_cons_of_mem p hq, hl, hhello⟩
    by_cases hp : Leads p.shortName s
    · exact .inl ⟨p, List.mem_cons_self, hp, by rw [hsame]; exact hself s hp⟩
    · exact .inr ⟨List.forall_mem_cons.mpr ⟨hp, hnone⟩, hsame.trans (hrest s hp)⟩

theorem copyProfiles_last {ps : List ExportProfile} {p : ExportProfile} {s : Bytes}
    (h : copyProfiles profiles dist ps faults = .ok out) (hp : p ∈ ps) (hl : Leads p.shortName s) :
    ∃ q ∈ ps, Leads q.shortName s ∧ (out.profiles s).hello = (profiles q.labID).hello :=
  (copyProfiles_path h s).resolve_right fun hn => hn.1 p hp hl

end

/-- The directories of the entries are different ones in `dist/export`. -/
structure PathsApart (ps : List ExportProfile) : Prop where
  inside : ∀ p ∈ ps, Inside p.shortName
  paths : (ps.map fun p => dstPath p.shortName).Nodup

theorem PathsApart.eq_of_leads {ps : List ExportProfile} (h : PathsApart ps) {p q : ExportProfile}
    (hp : p ∈ ps) (hq : q ∈ ps) (hl : Leads q.shortName p.shortName) : q = p :=
  List.inj_on_of_nodup_map h.paths hq hp hl.2.symm

/-- then every directory holds the bytes of its own entry -/
theorem copyProfiles_hello {profiles : Tree} {dist out : Dist} {ps : List ExportProfile}
    (h : copyProfiles profiles dist ps = .ok out) (hps : PathsApart ps) (p : ExportProfile)
    (hp : p ∈ ps) : (out.profiles p.shortName).hello = (profiles p.labID).hello := by
  obtain ⟨q, hq, hl, hhello⟩ := copyProfiles_last h hp (leads_self (hps.inside p hp))
  rw [hhello, hps.eq_of_leads hp hq hl]

/-! ## the export -/

theorem writeExport_ok {ord : MapOrders} {profiles : Tree} {n : Naming} {out : Dist}
    (h : writeExport ord profiles n = .ok out) : out.catalog = some (catalogOf ord n) ∧
      ∃ copied, copyProfiles profiles {} n.profiles = .ok copied ∧
        out.profiles = copied.profiles := by
  unfold writeExport at h
  cases hc : copyProfiles profiles {} n.profiles with
  | error e => rw [hc] at h; cases h
  | ok copied =>
    rw [hc] at h
    rw [← Except.ok.inj h]
    exact ⟨rfl, copied, rfl, rfl⟩

/-- the names that an export of the registry gives -/
def naming (ord : MapOrders) (profiles : Tree) (targets : List Target) : Naming :=
  nameMembers ord (membersOf profiles targets)

/-- what a successful export has gone through -/
theorem runExport_ok {ord : MapOrders} {profiles : Tree} {targets : List Target} {chk : Bool}
    {dist out : Dist} (h : runExport ord profiles targets chk dist = .ok out) :
    FamiliesGiven targets ∧
    (chk = true → ((naming ord profiles targets).profiles.map dedupKey).Nodup) ∧
    writeExport ord profiles (naming ord profiles targets) = .ok out := by
  unfold runExport at h
  rw [readTree_noFaults] at h
  cases hc : collect profiles targets with
  | error e => rw [hc] at h; cases h
  | ok ms =>
    obtain ⟨hg, rfl⟩ := (collect_ok_iff _ _ _).mp hc
    rw [hc] at h
    dsimp only at h
    refine ⟨hg, ?_, ?_⟩
    · intro hchk
      rw [if_pos hchk] at h
      cases hd : dedupCheck ∅ (naming ord profiles targets).profiles with
      | error e => unfold naming at hd; rw [hd] at h; cases h
      | ok u => exact ((dedupCheck_ok_iff _ _).mp hd).1
    · split at h
      · cases h
      · exact h

/-- the dedup error comes from two entries with one key -/
theorem runExport_dedup {ord : MapOrders} {profiles : Tree} {targets : List Target} {chk : Bool}
    {dist : Dist} {prev short f j : Bytes} {d : Dist}
    (h : runExport ord profiles targets chk dist = .error (.dedup prev short f j, d)) :
    ¬ ((naming ord profiles targets).profiles.map dedupKey).Nodup := by
  intro hnd
  have hcheck : (if chk = true then dedupCheck ∅ (naming ord profiles targets).profiles
      else .ok ()) = .ok () := by
    split
    · exact (dedupCheck_ok_iff _ _).mpr ⟨hnd, fun p _ => Finmap.notMem_empty⟩
    · rfl
  unfold runExport at h
  rw [readTree_noFaults] at h
  cases hc : collect profiles targets with
  | error e =>
    rw [hc] at h
    obtain ⟨id, rfl⟩ := collect_error hc
    cases h
  | ok ms =>
    obtain ⟨-, rfl⟩ := (collect_ok_iff _ _ _).mp hc
    rw [hc] at h
    unfold naming at hcheck
    dsimp only at h
    rw [hcheck] at h
    dsimp only [writeExport] at h
    cases hcp : copyProfiles profiles {} (nameMembers ord (membersOf profiles targets)).profiles with
    | error e =>
      rw [hcp] at h
      obtain ⟨labID, name, he⟩ := copyProfiles_error hcp
      rw [Except.error.inj h] at he
      cases he
    | ok copied => rw [hcp] at h; cases h

/-- success as a value that can be evaluated -/
theorem exists_export {ord : MapOrders} {profiles : Tree} {targets : List Target} {chk : Bool}
    {dist : Dist} (h : (runExport ord profiles targets chk dist).isOk = true) :
    ∃ out, runExport ord profiles targets chk dist = .ok out := by
  cases hr : runExport ord profiles targets chk dist with
  | ok out => exact ⟨out, rfl⟩
  | error e =>
    rw [hr] at h
    cases h

theorem runExport_catalog {ord : MapOrders} {profiles : Tree} {targets : List Target} {chk : Bool}
    {dist out : Dist} (h : runExport ord profiles targets chk dist = .ok out) :
    out.catalog = some (catalogOf ord (naming ord profiles targets)) :=
  (writeExport_ok (runExport_ok h).2.2).1

theorem runExport_succeeds_iff (ord : MapOrders) (profiles : Tree) (targets : List Target)
    (chk : Bool) (dist : Dist) : (∃ out, runExport ord profiles targets chk dist = .ok out) ↔
      FamiliesGiven targets ∧
      (chk = true → ((naming ord profiles targets).profiles.map dedupKey).Nodup) ∧
      ∀ p ∈ (naming ord profiles targets).profiles, Copyable profiles p := by
  constructor
  · rintro ⟨out, h⟩
    obtain ⟨hg, hd, hw⟩ := runExport_ok h
    obtain ⟨-, copied, hc, -⟩ := writeExport_ok hw
    exact ⟨hg, hd, (copyProfiles_ok_iff _ _ _).mp ⟨copied, hc⟩⟩
  · rintro ⟨hg, hd, hcopy⟩
    obtain ⟨copied, hc⟩ := (copyProfiles_ok_iff _ {} _).mpr hcopy
    unfold runExport
    rw [readTree_noFaults, (collect_ok_iff _ _ _).mpr ⟨hg, rfl⟩]
    have hcheck := dedupCheck_passes hd
    unfold naming at hcheck hc
    dsimp only
    rw [hcheck]
    dsimp only [writeExport]
    rw [hc]
    exact ⟨_, rfl⟩

/-! ## the members of a registry -/

theorem mem_membersOf {profiles : Tree} {targets : List Target} {m : RankedMember} :
    m ∈ membersOf profiles targets ↔
      ∃ t ∈ targets, Eligible profiles t ∧ member profiles t = m := by
  unfold membersOf
  simp only [List.mem_map, List.mem_filter, decide_eq_true_eq, and_assoc]

theorem membersOf_ids (profiles : Tree) (targets : List Target) :
    (membersOf profiles targets).map (fun m => m.t.id)
      = (targets.filter fun t => Eligible profiles t).map Target.id := by
  unfold membersOf
  rw [List.map_map]
  refine List.map_congr_left fun t _ => ?_
  show (member profiles t).t.id = t.id
  rw [member_t]

theorem membersOf_distinct (profiles : Tree) {targets : List Target}
    (h : (targets.map Target.id).Nodup) : DistinctIDs (membersOf profiles targets) := by
  unfold DistinctIDs
  rw [membersOf_ids]
  exact h.sublist (List.filter_sublist.map _)

theorem ja4Of_congr {profiles : Tree} {t t' : Target} (h : t.id = t'.id) :
    ja4Of profiles t = ja4Of profiles t' := by
  unfold ja4Of member
  dsimp only
  rw [h]
  split <;> split <;> rfl

/-- members of one tree with one id have one JA4, also when ids are not distinct -/
theorem membersOf_coherent (profiles : Tree) (targets : List Target) :
    Coherent (membersOf profiles targets) := by
  intro a ha b hb he
  obtain ⟨t, -, -, rfl⟩ := mem_membersOf.mp ha
  obtain ⟨t', -, -, rfl⟩ := mem_membersOf.mp hb
  rw [member_t, member_t] at he
  exact ja4Of_congr he

end Labctl
