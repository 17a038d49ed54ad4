import FingerprintLab.Labctl.Drift

/-!
# The version of an archived hello

The slot keeps the last version that a probe has returned; the JA4 in it changes with every capture.
A probe that fails leaves the version as it is, also at the capture that brings a new JA4.

* `Carries`              the directory's version, which its slot has and `meta.json` has not;
* `captureTarget_carries`   what one capture does to the version;
* `Versioned`            what an archive writes of a version: its slot, its id and its row;
* `Tracked`, `turn`      a run with the answers of its probes, and those since the JA4 is held;
* `archived_versions_iff`   the version is the archived JA4's own exactly when it was probed;
* `version_outlived`     a probe that fails at the capture that changes the JA4.
-/

set_option linter.unusedVariables false

namespace Labctl
open Go Lab Runs

/-! ## versions of slots -/

def slotVersion (s : Slot) : Bytes × Int := (s.softwareVersion, s.softwareMajor)

/-- `meta.json` as the capture server writes it -/
def NoVersion (m : MetaDoc) : Prop :=
  m.softwareMajor = 0 ∧ m.softwareVersion = [] ∧ m.resolvedVersion = []

/-- The slot has the version `v`, with both its parts or neither. -/
structure Carries (d : Dir) (v : Bytes × Int) : Prop where
  noVersion : ∀ m, Doc.read? d.metaDoc = some m → NoVersion m
  version : slotVersion (d.slot.getD {}) = v
  both : v.2 = 0 → v.1 = []

instance decidableNoVersion (m : MetaDoc) : Decidable (NoVersion m) :=
  inferInstanceAs (Decidable (_ ∧ _ ∧ _))

theorem parseMajor_nil : parseMajor [] = 0 := by decide

theorem ite_ja4_version (s : Slot) (ja4 : Bytes) (p : Prop) [Decidable p] :
    slotVersion (if p then { s with ja4 := ja4 } else s) = slotVersion s := by
  split_ifs <;> rfl

theorem oldSlot_version (d : Dir) : slotVersion (oldSlot d) = slotVersion (readSlot d) :=
  ite_ja4_version (readSlot d) d.profileJA4 _

section
variable {d : Dir} {v : Bytes × Int}

/-- the fallbacks of `readSlot` find nothing -/
theorem Carries.readSlot (h : Carries d v) : slotVersion (readSlot d) = v := by
  have hv := h.version
  have hja4 := ite_ja4_version (d.slot.getD {}) d.profileJA4 ((d.slot.getD {}).ja4 = [])
  unfold Labctl.readSlot
  dsimp only
  generalize (if (d.slot.getD {}).ja4 = [] then
    { d.slot.getD {} with ja4 := d.profileJA4 } else d.slot.getD {}) = s at hja4 ⊢
  rw [← hja4] at hv
  by_cases h0 : s.softwareMajor = 0
  · have hs : s.softwareVersion = [] := (congrArg Prod.fst hv).trans (h.both (hv ▸ h0))
    rw [if_pos h0]
    cases hm : Doc.read? d.metaDoc with
    | none => exact hv
    | some m =>
      obtain ⟨hmajor, hsv, hrv⟩ := h.noVersion m hm
      simp only [hmajor, hsv, hrv, hs, if_true, parseMajor_nil]
      rw [← hv]
      exact Prod.ext hs.symm h0.symm
  · rw [if_neg h0]
    exact hv

theorem Carries.oldSlot (h : Carries d v) : slotVersion (oldSlot d) = v :=
  (oldSlot_version d).trans h.readSlot

theorem Carries.writeSlot (h : Carries d v) {s : Slot} {v' : Bytes × Int} (hs : slotVersion s = v')
    (hb : v'.2 = 0 → v'.1 = []) : Carries (writeSlot d s) v' := ⟨h.noVersion, hs, hb⟩

/-- the slot written back with another JA4 -/
theorem Carries.rewrite (h : Carries d v) (ja4 track : Bytes) :
    Carries (Labctl.writeSlot d { Labctl.readSlot d with ja4, track }) v :=
  h.writeSlot h.readSlot h.both

theorem Carries.over (h : Carries d v) {c : Capture} (hc : NoVersion c.metaDoc) :
    Carries (c.over d) v where
  noVersion m hm := by
    rw [← Option.some.inj hm]
    exact hc
  version := h.version
  both := h.both

theorem Carries.copySnapshot (h : Carries d v) {dst : Dir} {v' : Bytes × Int} (hd : Carries dst v')
    (archID : Bytes) : Carries (copySnapshot dst d archID (Labctl.oldSlot d)) v where
  noVersion m hm := by
    have hm : Doc.read? (d.metaDoc <|> dst.metaDoc) = some m := hm
    cases hmeta : d.metaDoc with
    | none =>
      rw [hmeta] at hm
      exact hd.noVersion m hm
    | some x =>
      rw [hmeta] at hm
      exact h.noVersion m (by rw [hmeta]; exact hm)
  version := h.oldSlot
  both := h.both

end

/-! ## one capture -/

section
variable {lab : LabRoot} {t : Target} {before : Dir} {v : Bytes × Int}

theorem archiveSnapshot_carries (hb : Carries before v) (hd : Carries (lab.profiles t.id) v)
    (archID : Bytes) :
    Carries ((archiveSnapshot lab t before (oldSlot before) archID).profiles t.id) v := by
  unfold archiveSnapshot
  dsimp only
  rw [setDir_profiles, Function.update_self, ensureArchiveTarget_profiles]
  refine Carries.rewrite ?_ _ _
  split
  · rw [setDir_profiles]
    by_cases he : t.id = (archiveDst lab.profiles archID (oldSlot before)).1
    · rw [← he, Function.update_self]
      exact hb.copySnapshot hd t.id
    · rw [Function.update_of_ne he]
      exact hd
  · exact hd

/-- the archive hands the version of the snapshot on -/
theorem maybeArchive_carries (ht : t.track = trackLatest) (hd : Carries (lab.profiles t.id) v)
    {before : Option Dir} (hb : ∀ b ∈ before, Carries b v) :
    Carries ((maybeArchiveAfterCapture lab t before).profiles t.id) v := by
  cases before with
  | none => exact hd
  | some b =>
    have hb := hb b rfl
    unfold maybeArchiveAfterCapture
    dsimp only
    rw [if_neg (not_not.mpr ht)]
    split
    · rw [setDir_profiles, Function.update_self]
      refine hd.writeSlot ?_ hd.both
      split
      · exact hb.oldSlot
      · exact hd.readSlot
    · exact archiveSnapshot_carries hb hd _

/-- The step lemma: a probe that succeeds sets the version, one that fails leaves it. -/
theorem captureTarget_carries (ht : t.track = trackLatest) (hd : Carries (lab.profiles t.id) v)
    {c : Capture} (hc : NoVersion c.metaDoc) (probe : Bytes × Int) :
    Carries ((captureTarget lab t c probe).profiles t.id) (if 0 < probe.2 then probe else v) := by
  have hself : (lab.setDir t.id (c.over (lab.profiles t.id))).profiles t.id
      = c.over (lab.profiles t.id) := Function.update_self ..
  have hover : Carries ((lab.setDir t.id (c.over (lab.profiles t.id))).profiles t.id) v := by
    rw [hself]
    exact hd.over hc
  have hsnap : ∀ b ∈ snapshotProfile (lab.profiles t.id), Carries b v := by
    intro b hb
    unfold snapshotProfile at hb
    split at hb
    · cases hb
    · rw [← Option.some.inj hb]
      exact hd
  have hkept := maybeArchive_carries ht hover hsnap
  have hhello : ((maybeArchiveAfterCapture (lab.setDir t.id (c.over (lab.profiles t.id))) t
      (snapshotProfile (lab.profiles t.id))).profiles t.id).hello ≠ none := by
    refine maybeArchive_hello ?_
    rw [hself]
    exact Option.some_ne_none c.hello
  unfold captureTarget
  dsimp only
  generalize maybeArchiveAfterCapture _ t _ = lab₂ at hkept hhello ⊢
  unfold updateSlotAfterCapture
  dsimp only
  rw [if_neg hhello, if_pos ht, setDir_profiles, Function.update_self]
  by_cases hp : 0 < probe.2
  · rw [if_pos hp, if_pos hp]
    exact hkept.writeSlot rfl fun h0 => absurd h0 (Int.ne_of_gt hp)
  · rw [if_neg hp, if_neg hp]
    exact hkept.writeSlot hkept.readSlot hkept.both

end

/-! ## what an archive writes -/

/-- the id of an archive of that version, before it is sanitized -/
def versionedID (t : Target) (v : Bytes × Int) (ja4 : Bytes) : Bytes :=
  if v.2 = 0 ∨ v.2 ≥ versionLatest then t.family ++ str "-prev-" ++ sanitizeID (ja4.take 12)
  else t.family ++ str "-" ++ decInt v.2

/-- The version `v` is in the archive's slot, in its id when there is one, and in its row, where 1
stands for none. -/
structure Versioned (lab : LabRoot) (t : Target) (before : Dir) (v : Bytes × Int) : Prop where
  slot : ∀ dst,
    archiveDst lab.profiles (archivePrefix t (oldSlot before)) (oldSlot before) = (dst, true) →
    slotVersion (((maybeArchiveAfterCapture lab t (some before)).profiles dst).slot.getD {}) = v
  id : archiveBase t (oldSlot before) = sanitizeID (versionedID t v (oldSlot before).ja4)
  row : ∀ r ∈ (maybeArchiveAfterCapture lab t (some before)).archive, r ∈ lab.archive ∨
    r.version = (if v.2 = 0 then 1 else v.2) ∧ r.pin = decInt (if v.2 = 0 then 1 else v.2)

theorem major_of_version {s : Slot} {v : Bytes × Int} (hs : slotVersion s = v)
    (hb : v.2 = 0 → v.1 = []) :
    (if s.softwareMajor = 0 then parseMajor s.softwareVersion else s.softwareMajor) = v.2 := by
  rw [← hs] at hb ⊢
  split_ifs with h
  · have hv : s.softwareVersion = [] := hb h
    rw [hv, parseMajor_nil]
    exact h.symm
  · rfl

theorem ensureArchiveTarget_row (lab : LabRoot) (latest : Target) (archID : Bytes) (old : Slot)
    {v : Bytes × Int} (hs : slotVersion old = v) (hb : v.2 = 0 → v.1 = []) :
    ∀ r ∈ (ensureArchiveTarget lab latest archID old).archive, r ∈ lab.archive ∨
      r.version = (if v.2 = 0 then 1 else v.2) ∧ r.pin = decInt (if v.2 = 0 then 1 else v.2) := by
  intro r hr
  unfold ensureArchiveTarget at hr
  split at hr
  · exact .inl hr
  · dsimp only at hr
    rw [major_of_version hs hb] at hr
    rcases List.mem_append.mp hr with hr | hr
    · exact .inl hr
    · rw [List.mem_singleton.mp hr]
      exact .inr ⟨rfl, rfl⟩

theorem versioned {lab : LabRoot} {t : Target} {before : Dir} {v : Bytes × Int}
    (ht : t.track = trackLatest) (hb : Carries before v) (hd : Carries (lab.profiles t.id) v)
    (ha : Archives before (lab.profiles t.id).profileJA4) : Versioned lab t before v := by
  constructor
  · intro dst hdst
    rw [maybeArchive_archives lab t before ht ha]
    by_cases he : dst = t.id
    · rw [he]
      exact (archiveSnapshot_carries hb hd _).version
    · have hcopy : (archiveDst lab.profiles (archivePrefix t (oldSlot before))
          (oldSlot before)).2 = true := by rw [hdst]
      obtain ⟨s, tree, htree, hs⟩ := archiveSnapshot_copied lab t before _ _ hcopy
      rw [hs, Function.update_of_ne he, htree, hdst, Function.update_self]
      exact hb.oldSlot
  · unfold archiveBase archivePrefix versionedID
    dsimp only
    rw [major_of_version hb.oldSlot hb.both]
  · rw [maybeArchive_archives lab t before ht ha]
    intro r hr
    unfold archiveSnapshot at hr
    dsimp only [LabRoot.setDir] at hr
    have hrow := ensureArchiveTarget_row _ t _ (oldSlot before) hb.oldSlot hb.both r hr
    split at hrow
    · exact hrow
    · exact hrow

/-! ## runs -/

/-- The lab with the answers of the probe so far, and those since the slot holds its JA4. -/
structure Tracked where
  lab : LabRoot
  answers : List (Bytes × Int) := []
  period : List (Bytes × Int) := []

def turn (t : Target) (s : Tracked) (i : Capture × (Bytes × Int)) : Option Tracked :=
  let lab := captureTarget s.lab t i.1 i.2
  some
    { lab
      answers := s.answers ++ [i.2]
      period :=
        if (readSlot (lab.profiles t.id)).ja4 = (readSlot (s.lab.profiles t.id)).ja4 then
          s.period ++ [i.2]
        else [i.2] }

/-- a version that a probe of the period has returned, or none when no probe has succeeded -/
def FromPeriod (v : Bytes × Int) (period : List (Bytes × Int)) : Prop :=
  v ∈ period ∧ 0 < v.2 ∨ v = ([], 0) ∧ ∀ p ∈ period, ¬ 0 < p.2

/-- What the turn archives has a version of its own period. -/
def VersionFits (t : Target) (s : Tracked) (i : Capture × (Bytes × Int)) : Prop :=
  ∀ before, snapshotProfile (s.lab.profiles t.id) = some before → Archives before i.1.profile.ja4 →
    FromPeriod (slotVersion (oldSlot before)) s.period ∧
    Versioned (s.lab.setDir t.id (i.1.over (s.lab.profiles t.id))) t before
      (slotVersion (oldSlot before))

/-- When the turn archives, a probe has succeeded since the slot holds the JA4, or none ever has. -/
def Probed (t : Target) (s : Tracked) (i : Capture × (Bytes × Int)) : Prop :=
  (s.lab.profiles t.id).hello ≠ none → Archives (s.lab.profiles t.id) i.1.profile.ja4 →
    (∃ p ∈ s.period, 0 < p.2) ∨ ∀ p ∈ s.answers, ¬ 0 < p.2

/-- the version after these answers -/
def lastVersion (v : Bytes × Int) (answers : List (Bytes × Int)) : Bytes × Int :=
  answers.foldl (fun v p => if 0 < p.2 then p else v) v

theorem lastVersion_append (v : Bytes × Int) (as bs : List (Bytes × Int)) :
    lastVersion v (as ++ bs) = lastVersion (lastVersion v as) bs := List.foldl_append

theorem lastVersion_cases (v : Bytes × Int) (as : List (Bytes × Int)) :
    lastVersion v as ∈ as ∧ 0 < (lastVersion v as).2 ∨
      lastVersion v as = v ∧ ∀ p ∈ as, ¬ 0 < p.2 := by
  induction as generalizing v with
  | nil => exact .inr ⟨rfl, fun p h => absurd h List.not_mem_nil⟩
  | cons a as ih =>
    have hcons : lastVersion v (a :: as) = lastVersion (if 0 < a.2 then a else v) as := rfl
    rw [hcons]
    rcases ih (if 0 < a.2 then a else v) with ⟨hmem, hpos⟩ | ⟨he, hnone⟩
    · exact .inl ⟨List.mem_cons_of_mem a hmem, hpos⟩
    · rw [he]
      by_cases ha : 0 < a.2
      · rw [if_pos ha]
        exact .inl ⟨List.mem_cons_self, ha⟩
      · rw [if_neg ha]
        refine .inr ⟨rfl, fun p hp => ?_⟩
        rcases List.mem_cons.mp hp with rfl | hp
        · exact ha
        · exact hnone p hp

/-- The version of the last probe that succeeded is one of the period, unless the period has none and
an earlier one has. -/
theorem fromPeriod_iff (earlier period : List (Bytes × Int)) :
    FromPeriod (lastVersion ([], 0) (earlier ++ period)) period ↔
      (∃ p ∈ period, 0 < p.2) ∨ ∀ p ∈ earlier ++ period, ¬ 0 < p.2 := by
  rw [lastVersion_append]
  rcases lastVersion_cases (lastVersion ([], 0) earlier) period with ⟨hmem, hpos⟩ | ⟨he, hnone⟩
  · exact iff_of_true (.inl ⟨hmem, hpos⟩) (.inl ⟨_, hmem, hpos⟩)
  rw [he]
  constructor
  · rintro (⟨hmem, hpos⟩ | ⟨hv, -⟩)
    · exact absurd hpos (hnone _ hmem)
    · refine .inr fun p hp => ?_
      rcases List.mem_append.mp hp with hp | hp
      · rcases lastVersion_cases ([], 0) earlier with ⟨-, hpos⟩ | ⟨-, h⟩
        · rw [hv] at hpos
          exact absurd hpos (by decide)
        · exact h p hp
      · exact hnone p hp
  · rintro (⟨p, hp, hpos⟩ | hall)
    · exact absurd hpos (hnone p hp)
    · refine .inr ⟨?_, hnone⟩
      rcases lastVersion_cases ([], 0) earlier with ⟨hmem, hpos⟩ | ⟨h, -⟩
      · exact absurd hpos (hall _ (List.mem_append_left period hmem))
      · exact h

/-- The invariant: the slot has the version of the last probe that succeeded. -/
structure Current (t : Target) (s : Tracked) : Prop where
  carries : Carries (s.lab.profiles t.id) (lastVersion ([], 0) s.answers)
  period : s.period <:+ s.answers

section
variable {t : Target} {s : Tracked} {i : Capture × (Bytes × Int)} (ht : t.track = trackLatest)
  (hs : Current t s) (hi : NoVersion i.1.metaDoc)
include ht hs hi

theorem current_turn {s' : Tracked} (h : turn t s i = some s') : Current t s' := by
  rw [← Option.some.inj h]
  constructor
  · show Carries ((captureTarget s.lab t i.1 i.2).profiles t.id) (lastVersion _ (s.answers ++ [i.2]))
    rw [lastVersion_append]
    exact captureTarget_carries ht hs.carries hi i.2
  · show (if _ then s.period ++ [i.2] else [i.2]) <:+ s.answers ++ [i.2]
    split
    · obtain ⟨earlier, he⟩ := hs.period
      refine ⟨earlier, ?_⟩
      rw [← List.append_assoc, he]
    · exact List.suffix_append s.answers [i.2]

theorem versionFits_iff : VersionFits t s i ↔ Probed t s i := by
  obtain ⟨earlier, he⟩ := hs.period
  have hfrom := fromPeriod_iff earlier s.period
  rw [he, ← hs.carries.oldSlot] at hfrom
  have hself : (s.lab.setDir t.id (i.1.over (s.lab.profiles t.id))).profiles t.id
      = i.1.over (s.lab.profiles t.id) := Function.update_self ..
  unfold VersionFits Probed
  constructor
  · intro h hh ha
    have hsnap : snapshotProfile (s.lab.profiles t.id) = some (s.lab.profiles t.id) := if_neg hh
    exact hfrom.mp (h _ hsnap ha).1
  · intro h before hsnap ha
    obtain ⟨rfl, hh⟩ := snapshotProfile_some hsnap
    refine ⟨hfrom.mpr (h hh ha), ?_⟩
    rw [hs.carries.oldSlot]
    refine versioned ht hs.carries ?_ ?_
    · rw [hself]
      exact hs.carries.over hi
    · rw [hself]
      exact ha

end

/-- **The archived version** is, over a whole run, one that a probe returned while the slot held the
archived JA4, exactly when every JA4 that is archived was probed. -/
theorem archived_versions_iff {t : Target} (ht : t.track = trackLatest) {lab : LabRoot}
    (hslot : (lab.profiles t.id).slot = none)
    (hmeta : ∀ m, Doc.read? (lab.profiles t.id).metaDoc = some m → NoVersion m)
    {turns : List (Capture × (Bytes × Int))} (hturns : ∀ i ∈ turns, NoVersion i.1.metaDoc) :
    Along (turn t) (VersionFits t) { lab } turns ↔ Along (turn t) (Probed t) { lab } turns := by
  have hstart : Current t { lab } := by
    refine ⟨⟨hmeta, ?_, fun _ => rfl⟩, List.nil_suffix⟩
    show slotVersion ((lab.profiles t.id).slot.getD {}) = ([], 0)
    rw [hslot]
    rfl
  generalize ({ lab } : Tracked) = s at hstart
  induction turns generalizing s with
  | nil => exact Iff.rfl
  | cons i turns ih =>
    have hi := hturns i List.mem_cons_self
    have hnext : ∃ s', turn t s i = some s' := ⟨_, rfl⟩
    obtain ⟨s', hs'⟩ := hnext
    rw [along_cons _ _ hs', along_cons _ _ hs', versionFits_iff ht hstart hi]
    exact and_congr_right fun _ => ih (fun j hj => hturns j (List.mem_cons_of_mem i hj)) s'
      (current_turn ht hstart hi hs')

/-! ## a probe that fails once -/

def chrome120 : Bytes × Int := (str "120.0.6099.109", 120)

/-- Chrome 120 is probed, the next two captures are not. -/
def outlivedRun : List (Capture × (Bytes × Int)) :=
  [((chromeCapture 1 (str "t13d1515h2_8daaf6152771_de4a06bb82e3")).capture, chrome120),
    ((chromeCapture 2 (str "t13d1516h2_8daaf6152771_02713d6af862")).capture, ([], 0)),
    ((chromeCapture 3 (str "t13d1517h2_8daaf6152771_b0da82dd1658")).capture, ([], 0))]

/-- **Outlived**: the second JA4 is archived with the version of the first. -/
theorem version_outlived : ¬ Along (turn chromeLinux) (VersionFits chromeLinux)
    { lab := emptyLab } outlivedRun := by
  intro h
  have hthird := h.2.2.1
  have hfrom := (hthird _ rfl (by decide +kernel)).1
  revert hfrom
  unfold FromPeriod
  decide +kernel

/-- with a probe that fails only while the JA4 stays -/
theorem archived_versions_probed : Along (turn chromeLinux) (VersionFits chromeLinux)
    { lab := emptyLab }
    [((chromeCapture 1 (str "t13d1515h2_8daaf6152771_de4a06bb82e3")).capture, chrome120),
      ((chromeCapture 1 (str "t13d1515h2_8daaf6152771_de4a06bb82e3")).capture, ([], 0)),
      ((chromeCapture 2 (str "t13d1516h2_8daaf6152771_02713d6af862")).capture, ([], 0))] := by
  have hmeta : ∀ m, Doc.read? (emptyLab.profiles chromeLinux.id).metaDoc = some m → NoVersion m :=
    fun m hm => absurd hm.symm (Option.some_ne_none m)
  refine (archived_versions_iff rfl rfl hmeta (by decide +kernel)).mpr ?_
  refine ⟨fun h => absurd rfl h, fun _ ha => absurd ha (by decide +kernel), fun _ _ => .inl ?_, trivial⟩
  decide +kernel

end Labctl
