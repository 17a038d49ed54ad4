import FingerprintLab.Labctl.Register
import FingerprintLab.Labctl.Truthful

/-!
# What an export offers over a run

Latest targets are captured again and again, and the hellos that they replace are archived under rows
of their own.  With the conditions that archiving needs, an export after the run offers what one before
it offered and what was captured since, and nothing else.

* `Renews`           a successful capture of a latest target of the registry, and its conditions;
* `Offered`          a family and a JA4 that an export has an entry for;
* `renew_offered`    the step lemma: what a renewal adds;
* `exports_grow`     the catalog after a run of renewals;
* `refreshed`        the short name of the family is the hello captured last.
-/

set_option linter.unusedVariables false

namespace Labctl
open Go Lab Runs

/-! ## renewals -/

def Iteration.before (i : Iteration) (lab : LabRoot) : Dir := lab.profiles i.target.id

/-- the snapshot is one that the archive is to keep -/
def Replaces (lab : LabRoot) (i : Iteration) : Prop :=
  (i.before lab).hello ≠ none ∧ Changed (i.before lab) i.capture

/-- the call of `archiveSnapshot` for it -/
def Iteration.call (i : Iteration) (lab : LabRoot) : ArchiveCall where
  profiles := captured lab.profiles i.target i.capture
  latest := i.target
  before := i.before lab
  old := oldSlot (i.before lab)

/-- A client of the target reaches the directory of the target with a hello that `analyze` accepts. -/
def Reaches (fl : Capture.Flags) (i : Iteration) : Prop :=
  ∃ c p m, Capture.handle fl c = some p ∧ p.id = i.target.id ∧ Capture.analyze c.rawHello = .ok m ∧
    i.capture = ⟨p.hello, p.profile, p.metaDoc, p.readme⟩

/-- The target is a latest one of the registry that is exported; an archive of it, when there is one,
finds a directory and a row. -/
structure Renews (fl : Capture.Flags) (lab : LabRoot) (i : Iteration) : Prop where
  listed : i.target ∈ registry lab
  latest : i.target.track = trackLatest
  ready : candidate i.target = true
  family : Word i.target.family
  reaches : Reaches fl i
  room : SuffixFree lab.profiles i.target i.capture
  row : Replaces lab i → Registrable lab (i.call lab)

def renew (lab : LabRoot) (i : Iteration) : Option LabRoot := some (i.apply lab)

/-- the invariant of such runs -/
structure Kept (lab : LabRoot) : Prop where
  truthful : LabTruthful (fun _ => True) lab
  agrees : ∀ id, Agrees (lab.profiles id)
  ids : ((registry lab).map Target.id).Nodup

/-! ## the registry and the directories after one renewal -/

section
variable {fl : Capture.Flags} {lab : LabRoot} {i : Iteration}

theorem Reaches.ja4 (h : Reaches fl i) : i.capture.profile.ja4 ≠ [] := by
  obtain ⟨c, p, m, hp, -, hm, hcap⟩ := h
  have hja4 := (Capture.handle_described hp).ja4
  rw [(Capture.handle_faithful hp).1, Capture.recordedJA4_ok hm] at hja4
  rw [hcap, hja4]
  exact Capture.ja4_ne_nil hm

theorem updateSlot_rows (lab : LabRoot) (t : Target) (probe : Bytes × Int) :
    (updateSlotAfterCapture lab t probe).targets = lab.targets ∧
      (updateSlotAfterCapture lab t probe).archive = lab.archive := by
  by_cases hh : (lab.profiles t.id).hello = none
  · unfold updateSlotAfterCapture
    rw [if_pos hh]
    exact ⟨rfl, rfl⟩
  · obtain ⟨s, -, he⟩ := updateSlot_spec lab t probe hh
    rw [he]
    exact ⟨rfl, rfl⟩

theorem apply_rows (lab : LabRoot) (i : Iteration) :
    (i.apply lab).targets = (maybeArchiveAfterCapture (lab.setDir i.target.id
      (i.capture.over (i.before lab))) i.target (snapshotProfile (i.before lab))).targets ∧
    (i.apply lab).archive = (maybeArchiveAfterCapture (lab.setDir i.target.id
      (i.capture.over (i.before lab))) i.target (snapshotProfile (i.before lab))).archive :=
  updateSlot_rows _ i.target i.probe

theorem captured_archives : Archives (i.before lab) ((lab.setDir i.target.id
    (i.capture.over (i.before lab))).profiles i.target.id).profileJA4 ↔
      Changed (i.before lab) i.capture := by
  rw [setDir_profiles, Function.update_self]
  exact Iff.rfl

/-- the rows after a renewal that archives are those after the call, -/
theorem rows_replaced (ht : i.target.track = trackLatest) (h : Replaces lab i) :
    ∃ lab₁, register lab (i.call lab) = some lab₁ ∧ (i.apply lab).targets = lab₁.targets ∧
      (i.apply lab).archive = lab₁.archive := by
  have hrows := apply_rows lab i
  have hsnap : snapshotProfile (i.before lab) = some (i.before lab) := if_neg h.1
  rw [hsnap, maybeArchive_archives _ _ _ ht (captured_archives.mpr h.2)] at hrows
  exact ⟨_, rfl, hrows⟩

/-- and a renewal that archives nothing leaves them. -/
theorem rows_kept (ht : i.target.track = trackLatest) (h : ¬ Replaces lab i) :
    (i.apply lab).targets = lab.targets ∧ (i.apply lab).archive = lab.archive := by
  have hrows := apply_rows lab i
  by_cases hh : (i.before lab).hello = none
  · have hsnap : snapshotProfile (i.before lab) = none := if_pos hh
    rw [hsnap] at hrows
    exact hrows
  · have hsnap : snapshotProfile (i.before lab) = some (i.before lab) := if_neg hh
    obtain ⟨s, hs⟩ := maybeArchive_kept (lab.setDir i.target.id (i.capture.over (i.before lab)))
      i.target (i.before lab) ht fun harch => h ⟨hh, captured_archives.mp harch⟩
    rw [hsnap, hs] at hrows
    exact hrows

/-- a directory that is neither the target's nor the archive's -/
theorem apply_of_ne (ht : i.target.track = trackLatest) {id : Bytes} (hid : id ≠ i.target.id)
    (harch : Replaces lab i → id ≠ (i.call lab).id) :
    (i.apply lab).profiles id = lab.profiles id := by
  obtain ⟨s, -, he⟩ := captureTarget_profiles lab i.target i.capture i.probe ht
  unfold Iteration.apply
  rw [he, Function.update_of_ne hid]
  unfold archived
  split
  · rename_i hcopy
    have hne : id ≠ (archiveOf lab.profiles i.target i.capture).1 := harch ⟨hcopy.1, hcopy.2.1⟩
    rw [Function.update_of_ne hne, captured_of_ne hid]
  · exact captured_of_ne hid

section
variable (ht : i.target.track = trackLatest) (hag : Agrees (i.before lab))
  (hfree : SuffixFree lab.profiles i.target i.capture)
include ht hag hfree

/-- the archive's directory holds a hello with the JA4 that is replaced -/
theorem apply_archive (h : Replaces lab i) :
    (i.call lab).id ≠ i.target.id ∧ ∃ hello, Holds ((i.apply lab).profiles (i.call lab).id) hello
      (i.before lab).profileJA4 := by
  have hold := hag.oldSlot_ja4
  have hne : (i.before lab).profileJA4 ≠ [] := fun he => h.2 (.inl (hold.trans he))
  by_cases hcopy : Copies lab.profiles i.target i.capture
  · obtain ⟨hh, hj, -⟩ := apply_archiveOf lab i ht hag hfree hcopy
    obtain ⟨hello, hhello⟩ := Option.ne_none_iff_exists'.mp h.1
    exact ⟨(hcopy.room hfree).1, hello, hh.trans hhello, hj, hne⟩
  · -- the copy is skipped: the directory is there, with that JA4
    have hskip : ¬ (archiveOf lab.profiles i.target i.capture).2 = true :=
      fun h2 => hcopy ⟨h.1, h.2, h2⟩
    have hid : (i.call lab).id = (archiveOf lab.profiles i.target i.capture).1 := rfl
    unfold archiveOf at hskip hid
    obtain ⟨he, hh, hj⟩ | ⟨he, -⟩ | ⟨he, -⟩ := archiveDst_cases
      (captured lab.profiles i.target i.capture) i.target (oldSlot (lab.profiles i.target.id))
    · rw [he] at hid
      replace hid : (i.call lab).id = archiveBase i.target (oldSlot (i.before lab)) := hid
      rw [show oldSlot (lab.profiles i.target.id) = oldSlot (i.before lab) from rfl, ← hid] at hh hj
      have hne' : (i.call lab).id ≠ i.target.id := by
        intro hself
        rw [hself, captured_self] at hj
        exact Changed.ja4_ne h.2 hj
      rw [captured_of_ne hne'] at hh hj
      obtain ⟨hello, hhello⟩ := Option.ne_none_iff_exists'.mp hh
      refine ⟨hne', hello, ?_⟩
      obtain ⟨s, -, hspec⟩ := captureTarget_profiles lab i.target i.capture i.probe ht
      unfold Iteration.apply
      rw [hspec, Function.update_of_ne hne']
      unfold archived
      rw [if_neg hcopy, captured_of_ne hne']
      exact ⟨hhello, hj.trans hold, hne⟩
    · rw [he] at hskip
      exact absurd rfl hskip
    · rw [he] at hskip
      exact absurd rfl hskip

end

end

/-! ## the invariant -/

section
variable {fl : Capture.Flags} {lab : LabRoot} {i : Iteration}

/-- a renewal is a turn of the capture loop -/
theorem renewal_step (lab : LabRoot) (h : Reaches fl i) : ∃ ws, Quietly fl (fun _ => True) lab ws ∧
    step lab (.attempt i.target ws (some i.probe)) = some (i.apply lab) := by
  obtain ⟨c, p, m, hp, hid, -, hcap⟩ := h
  refine ⟨p.writes, quietly_writes lab hp trivial, congrArg some ?_⟩
  rw [captureAttempt_promotion lab i.target p i.probe hid, ← hcap]
  rfl

theorem rowsOf_of_mem {t : Target} (ht : t ∈ registry lab) : rowsOf lab t.id ≠ [] :=
  List.ne_nil_of_mem (List.mem_filter.mpr ⟨ht, decide_eq_true rfl⟩)

/-- the registry after a renewal is the one before, or has the row of the archive as well -/
theorem registry_apply (ht : i.target.track = trackLatest) :
    registry (i.apply lab) = registry lab ∨
      Replaces lab i ∧ rowsOf lab (i.call lab).id = [] ∧
        registry (i.apply lab) = registry lab ++ [(i.call lab).row] := by
  unfold registry loadLab
  by_cases hr : Replaces lab i
  · obtain ⟨lab₁, h₁, htargets, harchive⟩ := rows_replaced ht hr
    obtain ⟨ht₁, ⟨-, ha₁⟩ | ⟨hnil, ha₁⟩⟩ := register_registry h₁
    · rw [htargets, harchive, ht₁, ha₁]
      exact .inl rfl
    · refine .inr ⟨hr, hnil, ?_⟩
      rw [htargets, harchive, ht₁, ha₁, ← List.append_assoc, List.map_append, List.map_singleton,
        normalize_row]
  · obtain ⟨htargets, harchive⟩ := rows_kept ht hr
    rw [htargets, harchive]
    exact .inl rfl

/-- a target stays in the registry, -/
theorem registry_grows (ht : i.target.track = trackLatest) {t : Target} (h : t ∈ registry lab) :
    t ∈ registry (i.apply lab) := by
  obtain he | ⟨-, -, he⟩ := registry_apply ht
  · rw [he]
    exact h
  · rw [he]
    exact List.mem_append_left _ h

/-- and only the row of the archive is new. -/
theorem registry_before (ht : i.target.track = trackLatest) {t : Target}
    (h : t ∈ registry (i.apply lab))
    (hold : Replaces lab i → rowsOf lab (i.call lab).id = [] → t.id ≠ (i.call lab).id) :
    t ∈ registry lab := by
  obtain he | ⟨hrep, hnil, he⟩ := registry_apply ht
  · exact he ▸ h
  · rw [he] at h
    obtain h | h := List.mem_append.mp h
    · exact h
    · refine absurd ?_ (hold hrep hnil)
      rw [List.mem_singleton.mp h, row_id]

/-- a row for an id that has none -/
theorem ids_append (h : ((registry lab).map Target.id).Nodup) {row : Target}
    (hnil : rowsOf lab row.id = []) : ((registry lab ++ [row]).map Target.id).Nodup := by
  rw [List.map_append, List.nodup_append]
  refine ⟨h, List.nodup_singleton _, fun a ha b hb => ?_⟩
  obtain ⟨t, ht, rfl⟩ := List.mem_map.mp ha
  rw [List.map_singleton, List.mem_singleton] at hb
  rintro rfl
  rw [← hb] at hnil
  exact rowsOf_of_mem ht hnil

/-- The step lemma for the invariant. -/
theorem kept_renew (hr : Renews fl lab i) (h : Kept lab) : Kept (i.apply lab) where
  truthful := by
    obtain ⟨ws, hq, hstep⟩ := renewal_step lab hr.reaches
    exact truthful_step lab (.attempt i.target ws (some i.probe)) _ hq hstep h.truthful
  agrees id := by
    cases after_apply lab i hr.latest (h.agrees _) hr.room id with
    | captured _ _ _ hag => exact hag
    | untouched _ he =>
      rw [he]
      exact h.agrees id
    | archived _ _ _ _ hag _ => exact hag
  ids := by
    obtain he | ⟨-, hnil, he⟩ := registry_apply hr.latest
    · rw [he]
      exact h.ids
    · rw [he]
      exact ids_append h.ids ((row_id (i.call lab)).symm ▸ hnil)

/-- the row of the archive is there afterwards -/
theorem row_after (hr : Renews fl lab i) (h : Replaces lab i) :
    ∃ t, rowsOf (i.apply lab) (i.call lab).id = [t] ∧ Fits i.target t := by
  obtain ⟨lab₁, h₁, htargets, harchive⟩ := rows_replaced hr.latest h
  rw [rowsOf_kept htargets harchive]
  exact register_self h₁ hr.family (hr.row h)

end

/-! ## what is offered -/

/-- a target of the family that is exported has a hello with the JA4 -/
def Offered (lab : LabRoot) (family ja4 : Bytes) : Prop :=
  ∃ t ∈ registry lab, candidate t = true ∧ t.family = family ∧
    ∃ hello, Holds (lab.profiles t.id) hello ja4

/-- on a truthful lab both documents have the JA4 -/
theorem ja4Of_truthful {sent : Bytes → Prop} {lab : LabRoot} (h : LabTruthful sent lab) (t : Target) :
    ja4Of lab.profiles t = (lab.profiles t.id).profileJA4 := by
  unfold ja4Of Dir.profileJA4
  cases h t.id with
  | empty hh hm hp =>
    unfold member
    dsimp only
    rw [hm, hp]
    rfl
  | whole hello m p _ hw =>
    rw [(member_whole hw).1, hw.profile]
    exact hw.described.ja4.symm

theorem eligible_holds {sent : Bytes → Prop} {lab : LabRoot} (h : LabTruthful sent lab) (t : Target)
    (j : Bytes) : (Eligible lab.profiles t ∧ ja4Of lab.profiles t = j) ↔
      candidate t = true ∧ ∃ hello, Holds (lab.profiles t.id) hello j := by
  rw [eligible_iff, member_hasProfile, Option.isSome_iff_exists]
  have hj := ja4Of_truthful h t
  unfold ja4Of at hj ⊢
  rw [hj]
  constructor
  · rintro ⟨⟨hc, ⟨hello, hh⟩, hne⟩, rfl⟩
    exact ⟨hc, hello, hh, rfl, hne⟩
  · rintro ⟨hc, hello, hh, rfl, hne⟩
    exact ⟨⟨hc, ⟨hello, hh⟩, hne⟩, rfl⟩

/-- the entries of an export are what the lab offers -/
theorem offered_iff {sent : Bytes → Prop} {lab : LabRoot} (h : LabTruthful sent lab) {cat : Catalog}
    (hl : Lossless lab.profiles (registry lab) cat) (f j : Bytes) :
    Offered lab f j ↔ ∃ e ∈ cat.profiles, e.family = f ∧ e.ja4 = j := by
  constructor
  · rintro ⟨t, ht, hc, rfl, hello, hh⟩
    obtain ⟨hel, hja4⟩ := (eligible_holds h t j).mpr ⟨hc, hello, hh⟩
    obtain ⟨e, ⟨he, hf, hj⟩, -⟩ := hl.complete t ht hel
    exact ⟨e, he, hf, hj.trans hja4⟩
  · rintro ⟨e, he, rfl, rfl⟩
    obtain ⟨t, ht, hel, hf, hj⟩ := hl.sound e he
    obtain ⟨hc, hold⟩ := (eligible_holds h t e.ja4).mp ⟨hel, hj⟩
    exact ⟨t, ht, hc, hf, hold⟩

section
variable {fl : Capture.Flags} {lab : LabRoot} {i : Iteration} (hr : Renews fl lab i) (h : Kept lab)
include hr h

theorem target_of_id {t : Target} (ht : t ∈ registry lab) (hid : t.id = i.target.id) :
    t = i.target :=
  List.inj_on_of_nodup_map h.ids ht hr.listed hid

/-- the target's directory holds the capture -/
theorem renewed_self : ((i.apply lab).profiles i.target.id).hello = some i.capture.hello ∧
    ((i.apply lab).profiles i.target.id).profileJA4 = i.capture.profile.ja4 := by
  cases after_apply lab i hr.latest (h.agrees _) hr.room i.target.id with
  | captured _ hh hj _ => exact ⟨hh, hj⟩
  | untouched hne => exact absurd rfl hne
  | archived hne => exact absurd rfl hne

/-- the capture is offered -/
theorem offered_capture : Offered (i.apply lab) i.target.family i.capture.profile.ja4 := by
  obtain ⟨hh, hj⟩ := renewed_self hr h
  exact ⟨i.target, registry_grows hr.latest hr.listed, hr.ready, rfl, i.capture.hello, hh, hj,
    hr.reaches.ja4⟩

/-- so is what the archive keeps, -/
theorem offered_archive (hrep : Replaces lab i) :
    Offered (i.apply lab) i.target.family (i.before lab).profileJA4 := by
  obtain ⟨-, hold⟩ := apply_archive hr.latest (h.agrees _) hr.room hrep
  obtain ⟨t, hrow, hfit⟩ := row_after hr hrep
  obtain ⟨ht, hid⟩ := mem_rowsOf.mp (hrow ▸ List.mem_singleton_self t)
  refine ⟨t, ht, ?_, hfit.family, hid ▸ hold⟩
  unfold candidate
  rw [hfit.status, hfit.utlsReady]
  rfl

/-- and what was offered before. -/
theorem offered_kept {f j : Bytes} (ho : Offered lab f j) : Offered (i.apply lab) f j := by
  obtain ⟨t, ht, hc, rfl, hello, hh⟩ := ho
  by_cases hid : t.id = i.target.id
  · obtain rfl := target_of_id hr h ht hid
    by_cases hch : Changed (i.before lab) i.capture
    · have hrep : Replaces lab i := ⟨by rw [Iteration.before, hh.1]; exact Option.some_ne_none _, hch⟩
      rw [← hh.2.1]
      exact offered_archive hr h hrep
    · -- the capture has the JA4 again
      have hold := (h.agrees i.target.id).oldSlot_ja4
      have hsame := not_not.mp hch
      rw [Iteration.before, hold, hh.2.1] at hsame
      rw [(hsame.resolve_left hh.2.2).resolve_left hr.reaches.ja4]
      exact offered_capture hr h
  · refine ⟨t, registry_grows hr.latest ht, hc, rfl, ?_⟩
    cases after_apply lab i hr.latest (h.agrees _) hr.room t.id with
    | captured heq => exact absurd heq hid
    | untouched _ he =>
      rw [he]
      exact ⟨hello, hh⟩
    | archived _ hcopy hhello hja4 _ hroom =>
      -- the directory had a hello, so it has room only for its own JA4
      obtain ⟨b, hb⟩ := Option.ne_none_iff_exists'.mp hcopy.1
      have hsame := hroom.resolve_left fun hn => Option.some_ne_none hello (hh.1.symm.trans hn)
      exact ⟨b, hhello.trans hb, hja4.trans (hsame.symm.trans hh.2.1), hh.2.2⟩

/-- Nothing else is offered. -/
theorem offered_only {f j : Bytes} (ho : Offered (i.apply lab) f j) :
    Offered lab f j ∨ f = i.target.family ∧ j = i.capture.profile.ja4 := by
  obtain ⟨t, ht, hc, rfl, hello, hh⟩ := ho
  by_cases hid : t.id = i.target.id
  · right
    have hrow : t ∈ registry lab := by
      refine registry_before hr.latest ht fun _ hnil hcall => ?_
      rw [← hcall, hid] at hnil
      exact rowsOf_of_mem hr.listed hnil
    obtain rfl := target_of_id hr h hrow hid
    exact ⟨rfl, hh.2.1.symm.trans (renewed_self hr h).2⟩
  · left
    by_cases harch : Replaces lab i ∧ t.id = (i.call lab).id
    · -- the archive holds what the target's directory held
      obtain ⟨hrep, hcall⟩ := harch
      obtain ⟨-, hello', hh'⟩ := apply_archive hr.latest (h.agrees _) hr.room hrep
      rw [← hcall] at hh'
      obtain ⟨u, hu, hfit⟩ := row_after hr hrep
      have htu : t = u := by
        have hmem := mem_rowsOf.mpr ⟨ht, hcall⟩
        rw [hu] at hmem
        exact List.mem_singleton.mp hmem
      obtain ⟨b, hb⟩ := Option.ne_none_iff_exists'.mp hrep.1
      have hj : (i.before lab).profileJA4 = j := hh'.2.1.symm.trans hh.2.1
      exact ⟨i.target, hr.listed, hr.ready, by rw [htu, hfit.family], b, hb, hj, hh.2.2⟩
    · have hdir := apply_of_ne hr.latest hid fun hrep hcall => harch ⟨hrep, hcall⟩
      rw [hdir] at hh
      have hrow := registry_before hr.latest ht fun hrep _ hcall => harch ⟨hrep, hcall⟩
      exact ⟨t, hrow, hc, rfl, hello, hh⟩

/-- The step lemma: a renewal adds the capture to what is offered. -/
theorem renew_offered (f j : Bytes) : Offered (i.apply lab) f j ↔
    Offered lab f j ∨ f = i.target.family ∧ j = i.capture.profile.ja4 := by
  constructor
  · exact offered_only hr h
  · rintro (ho | ⟨rfl, rfl⟩)
    · exact offered_kept hr h ho
    · exact offered_capture hr h

end

/-! ## runs -/

theorem kept_run {fl : Capture.Flags} {lab lab' : LabRoot} {is : List Iteration}
    (hrun : exec renew lab is = some lab') (hr : Along renew (Renews fl) lab is) (h : Kept lab) :
    Kept lab' := by
  refine exec_inv renew (Renews fl) Kept (fun s i s' hr he hs => ?_) hr hrun h
  rw [← Option.some.inj he]
  exact kept_renew hr hs

/-- what is offered after a run -/
theorem offered_run {fl : Capture.Flags} {lab lab' : LabRoot} {is : List Iteration}
    (hrun : exec renew lab is = some lab') (hr : Along renew (Renews fl) lab is) (h : Kept lab)
    (f j : Bytes) : Offered lab' f j ↔
      Offered lab f j ∨ ∃ i ∈ is, f = i.target.family ∧ j = i.capture.profile.ja4 := by
  induction is generalizing lab with
  | nil =>
    rw [Option.some.inj hrun]
    simp
  | cons i is ih =>
    obtain ⟨lab₁, h₁, hrest⟩ := (exec_cons_eq_some renew).mp hrun
    obtain ⟨hri, hrs⟩ := (along_cons renew (Renews fl) h₁ is).mp hr
    rw [← Option.some.inj h₁] at hrest hrs
    rw [ih hrest hrs (kept_renew hri h), renew_offered hri h, or_assoc]
    refine or_congr_right ?_
    simp only [List.mem_cons, exists_eq_or_imp]

/-- **An export after a run of renewals** has an entry for exactly the families and JA4s that one
before the run had, and those that were captured: no fingerprint is lost, and none is made up. -/
theorem exports_grow {fl : Capture.Flags} {lab lab' : LabRoot} {is : List Iteration}
    (hrun : exec renew lab is = some lab') (hr : Along renew (Renews fl) lab is) (h : Kept lab)
    (ord ord' : MapOrders) {chk chk' : Bool} {dist dist' out out' : Dist}
    (hx : runExport ord lab.profiles (registry lab) chk dist = .ok out)
    (hx' : runExport ord' lab'.profiles (registry lab') chk' dist' = .ok out') :
    ∃ cat cat', out.catalog = some cat ∧ out'.catalog = some cat' ∧ ∀ f j,
      (∃ e ∈ cat'.profiles, e.family = f ∧ e.ja4 = j) ↔
        (∃ e ∈ cat.profiles, e.family = f ∧ e.ja4 = j) ∨
          ∃ i ∈ is, f = i.target.family ∧ j = i.capture.profile.ja4 := by
  have h' := kept_run hrun hr h
  have hl : Lossless lab.profiles (registry lab) _ := naming_lossless ord h.ids
  have hl' : Lossless lab'.profiles (registry lab') _ := naming_lossless ord' h'.ids
  refine ⟨_, _, runExport_catalog hx, runExport_catalog hx', fun f j => ?_⟩
  rw [← offered_iff h.truthful hl, ← offered_iff h'.truthful hl', offered_run hrun hr h]

/-! ## the name of the family -/

/-- the one latest target of a family is its first entry -/
theorem latest_first (ord : MapOrders) {profiles : Tree} {targets : List Target}
    (hids : (targets.map Target.id).Nodup) {t : Target} (ht : t ∈ targets)
    (hel : Eligible profiles t) (hlatest : t.track = trackLatest)
    (hsole : ∀ u ∈ targets, u.family = t.family → u.track = trackLatest → u = t) :
    entry t.family 0 (member profiles t) ∈ (naming ord profiles targets).profiles := by
  have hbetter : ∀ u ∈ targets, u.family = t.family → u ≠ t →
      score (member profiles t) < score (member profiles u) := by
    intro u hu hf hne
    rw [← betterMember_iff]
    unfold betterMember
    rw [member_t, member_t]
    have hut : u.track ≠ trackLatest := fun h => hne (hsole u hu hf h)
    simp [hlatest, hut]
  have hle : ∀ m ∈ ofFamily (membersOf profiles targets) t.family,
      score (member profiles t) ≤ score m := by
    intro m hm
    obtain ⟨hm, hf⟩ := mem_ofFamily.mp hm
    obtain ⟨u, hu, -, rfl⟩ := mem_membersOf.mp hm
    rw [member_t] at hf
    by_cases hut : u = t
    · rw [hut]
    · exact le_of_lt (hbetter u hu hf hut)
  have hmem : member profiles t ∈ ofFamily (membersOf profiles targets) t.family :=
    mem_ofFamily.mpr ⟨mem_membersOf.mpr ⟨t, ht, hel, rfl⟩, by rw [member_t]⟩
  have hcan : Canonical (membersOf profiles targets) (member profiles t) := by
    unfold Canonical
    rw [member_t]
    exact ⟨hmem, fun m hm _ => hle m hm⟩
  have hrank : familyRank (membersOf profiles targets) (member profiles t) = 0 := by
    unfold familyRank rankOf Ranking.rank
    rw [member_t]
    refine Finset.card_eq_zero.mpr (Finset.eq_empty_of_forall_notMem fun j hj => ?_)
    obtain ⟨m, hm, hlt, -⟩ := (Ranking.mem_above _ _ _ _ _).mp hj
    exact absurd hlt (not_lt.mpr (hle m hm))
  rw [← hrank]
  exact target_entry ord hids hcan

/-- **The name of the family** leads to what was captured last: after a run that ends with a renewal of
the only latest target of its family, the exported directory with the family's name holds that hello;
and the JA4 that it replaced, if any, is exported under a name with a number. -/
theorem refreshed {fl : Capture.Flags} {lab lab₁ lab' : LabRoot} {is : List Iteration} {i : Iteration}
    (hrun : exec renew lab is = some lab₁) (hlast : renew lab₁ i = some lab')
    (hr : Along renew (Renews fl) lab is) (hri : Renews fl lab₁ i) (h : Kept lab)
    (hsole : ∀ u ∈ registry lab', u.family = i.target.family → u.track = trackLatest → u = i.target)
    (ord : MapOrders) (hfam : FamiliesApart lab'.profiles (registry lab'))
    {chk : Bool} {dist out : Dist}
    (hx : runExport ord lab'.profiles (registry lab') chk dist = .ok out) :
    ∃ cat, out.catalog = some cat ∧
      (∃ e ∈ cat.profiles, e.shortName = i.target.family ∧ e.labID = i.target.id ∧
        e.ja4 = i.capture.profile.ja4 ∧
        (out.profiles i.target.family).hello = some i.capture.hello) ∧
      (Replaces lab₁ i → ∃ e ∈ cat.profiles, ∃ n, 0 < n ∧
        e.shortName = i.target.family ++ str "-" ++ decimal n ∧
        e.ja4 = (i.before lab₁).profileJA4) := by
  have h₁ := kept_run hrun hr h
  have h' : Kept lab' := Option.some.inj hlast ▸ kept_renew hri h₁
  have hdir := renewed_self hri h₁
  have hmem := registry_grows hri.latest hri.listed
  rw [Option.some.inj hlast] at hdir hmem
  obtain ⟨hel, hja4⟩ := (eligible_holds h'.truthful i.target i.capture.profile.ja4).mpr
    ⟨hri.ready, _, hdir.1, hdir.2, hri.reaches.ja4⟩
  have hfirst := latest_first ord h'.ids hmem hel hri.latest hsole
  obtain ⟨-, copied, hcopied, hout⟩ := writeExport_ok (runExport_ok hx).2.2
  have hl : Lossless lab'.profiles (registry lab') _ := naming_lossless ord h'.ids
  have hid : (entry i.target.family 0 (member lab'.profiles i.target)).labID = i.target.id := by
    show (member lab'.profiles i.target).t.id = _
    rw [member_t]
  refine ⟨_, runExport_catalog hx, ⟨_, hfirst, rfl, hid, hja4, ?_⟩, fun hrep => ?_⟩
  · have hbytes := copyProfiles_hello hcopied (hfam.apart ord) _ hfirst
    rw [← hout, hid, hdir.1] at hbytes
    exact hbytes
  · have hoff : Offered lab' i.target.family (i.before lab₁).profileJA4 := by
      rw [← Option.some.inj hlast]
      exact offered_archive hri h₁ hrep
    obtain ⟨e, he, hf, hej⟩ := (offered_iff h'.truthful hl _ _).mp hoff
    have hshort := hl.short e he
    rw [hf] at hshort
    have hpos : 0 < e.rank := by
      refine Nat.pos_of_ne_zero fun hzero => ?_
      -- otherwise it is the first entry, whose JA4 is the new one
      have hsame := profiles_ext ord _ he hfirst hf hzero
      rw [hsame] at hej
      have hold := (h₁.agrees i.target.id).oldSlot_ja4
      exact hrep.2 (.inr (.inr (hold.trans (hej.symm.trans hja4))))
    exact ⟨e, he, e.rank, hpos, hshort.trans (shortName_pos _ hpos), hej⟩

/-! ## two captures of a listed target -/

def listedLab : LabRoot := { emptyLab with targets := [brave] }

def captureOf (c : Capture.Conn) : Capture :=
  match Capture.handle Capture.defaultFlags c with
  | none => ⟨[], {}, {}, []⟩
  | some p => ⟨p.hello, p.profile, p.metaDoc, p.readme⟩

def firstRenewal : Iteration := ⟨brave, captureOf firstBrave, (str "1.60", 120)⟩
def secondRenewal : Iteration := ⟨brave, captureOf secondBrave, (str "1.61", 121)⟩

def onceLab : LabRoot := firstRenewal.apply listedLab
def twiceLab : LabRoot := secondRenewal.apply onceLab

theorem reaches_brave {c : Capture.Conn} {probe : Bytes × Int}
    (hid : (Capture.handle Capture.defaultFlags c).map Capture.Promotion.id = some brave.id)
    (ha : ∃ m, Capture.analyze c.rawHello = .ok m) :
    Reaches Capture.defaultFlags ⟨brave, captureOf c, probe⟩ := by
  obtain ⟨p, hp, hpid⟩ := Option.map_eq_some_iff.mp hid
  obtain ⟨m, hm⟩ := ha
  refine ⟨c, p, m, hp, hpid, hm, ?_⟩
  unfold captureOf
  rw [hp]

theorem first_renews : Renews Capture.defaultFlags listedLab firstRenewal where
  listed := by decide +kernel
  latest := rfl
  ready := by decide
  family := by decide
  reaches := reaches_brave (by decide +kernel) ⟨_, rfl⟩
  room := fun h => absurd rfl h
  row := fun h => absurd rfl h.1

theorem second_renews : Renews Capture.defaultFlags onceLab secondRenewal where
  listed := by decide +kernel
  latest := rfl
  ready := by decide
  family := by decide
  reaches := reaches_brave (by decide +kernel) ⟨_, rfl⟩
  room := by
    unfold SuffixFree
    decide +kernel
  row := fun _ => by
    refine .inl ⟨by decide +kernel, ?_⟩
    unfold ReadsBack
    decide +kernel

theorem listedLab_kept : Kept listedLab where
  truthful id := .empty rfl rfl rfl
  agrees id s hs := by cases hs
  ids := by decide +kernel

theorem twice_run : exec renew listedLab [firstRenewal, secondRenewal] = some twiceLab := rfl

theorem twice_renews : Along renew (Renews Capture.defaultFlags) listedLab
    [firstRenewal, secondRenewal] := ⟨first_renews, second_renews, trivial⟩

/-- both hellos are in the export -/
theorem exports_grow_brave : ∃ out cat,
    runExport .sorted twiceLab.profiles (registry twiceLab) true {} = .ok out ∧
    out.catalog = some cat ∧ ∀ i ∈ [firstRenewal, secondRenewal],
      ∃ e ∈ cat.profiles, e.family = str "brave" ∧ e.ja4 = i.capture.profile.ja4 := by
  obtain ⟨out, hx⟩ : ∃ out, runExport .sorted listedLab.profiles (registry listedLab) true {} =
      .ok out := exists_export (by decide +kernel)
  obtain ⟨out', hx'⟩ : ∃ out, runExport .sorted twiceLab.profiles (registry twiceLab) true {} =
      .ok out := exists_export (by decide +kernel)
  obtain ⟨_, cat, _, hcat, hgrow⟩ := exports_grow twice_run twice_renews listedLab_kept .sorted .sorted
    hx hx'
  refine ⟨out', cat, hx', hcat, fun i hi => (hgrow _ _).mpr (.inr ⟨i, hi, ?_, rfl⟩)⟩
  revert i
  decide

/-- `brave` is the second hello, and the first has a number -/
theorem refreshed_brave : ∃ out cat,
    runExport .sorted twiceLab.profiles (registry twiceLab) true {} = .ok out ∧
    out.catalog = some cat ∧
    (out.profiles (str "brave")).hello = some secondRenewal.capture.hello ∧
    ∃ e ∈ cat.profiles, ∃ n, 0 < n ∧ e.shortName = str "brave" ++ str "-" ++ decimal n ∧
      e.ja4 = firstRenewal.capture.profile.ja4 := by
  obtain ⟨out, hx⟩ : ∃ out, runExport .sorted twiceLab.profiles (registry twiceLab) true {} =
      .ok out := exists_export (by decide +kernel)
  have hsole : ∀ u ∈ registry twiceLab, u.family = brave.family → u.track = trackLatest →
      u = brave := by decide +kernel
  have hbrave : ∀ t ∈ registry twiceLab, t.family = str "brave" := by decide +kernel
  have hrun : exec renew listedLab [firstRenewal] = some onceLab := rfl
  have hlast : renew onceLab secondRenewal = some twiceLab := rfl
  obtain ⟨cat, hcat, ⟨_, _, _, _, _, hhello⟩, hold⟩ := refreshed hrun hlast ⟨first_renews, trivial⟩
    second_renews listedLab_kept hsole .sorted (.of_one brave_isName hbrave) hx
  have hreplaced : Replaces onceLab secondRenewal := by
    unfold Replaces
    decide +kernel
  exact ⟨out, cat, hx, hcat, hhello, hold hreplaced⟩

end Labctl
