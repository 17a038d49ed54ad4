import FingerprintLab.Labctl.Archive

/-!
# What the archive keeps over a run

* `captureTarget_profiles`   one iteration in closed form: the archived tree, and a new slot;
* `SuffixFree`               the directory with the suffix has room when it is needed;
* `After`, `after_apply`     what an iteration then does to any directory;
* `ja4_kept`, `run_keeps`    a JA4 that was held stays in some directory;
* `archive_keeps`            over a whole run of captures of latest targets;
* `archive_overwrites`       two JA4s of one major version with one prefix: the first one is lost.
-/

set_option linter.unusedVariables false

namespace Labctl
open Go Lab

/-! ## one iteration -/

@[simp] theorem setDir_profiles (lab : LabRoot) (id : Bytes) (d : Dir) :
    (lab.setDir id d).profiles = Function.update lab.profiles id d := rfl

@[simp] theorem ensureArchiveTarget_profiles (lab : LabRoot) (t : Target) (id : Bytes) (old : Slot) :
    (ensureArchiveTarget lab t id old).profiles = lab.profiles := by
  unfold ensureArchiveTarget
  split <;> rfl

@[simp] theorem over_profileJA4 (c : Capture) (d : Dir) :
    (c.over d).profileJA4 = c.profile.ja4 := rfl

/-- the tree right after the capture -/
def captured (profiles : Tree) (t : Target) (c : Capture) : Tree :=
  Function.update profiles t.id (c.over (profiles t.id))

/-- the JA4 of the snapshot and that of the capture differ -/
def Changed (before : Dir) (c : Capture) : Prop :=
  ¬ ((oldSlot before).ja4 = [] ∨ c.profile.ja4 = [] ∨ (oldSlot before).ja4 = c.profile.ja4)

instance (before : Dir) (c : Capture) : Decidable (Changed before c) :=
  inferInstanceAs (Decidable (¬ _))

/-- where the snapshot goes, and whether it is copied there -/
def archiveOf (profiles : Tree) (t : Target) (c : Capture) : Bytes × Bool :=
  archiveDst (captured profiles t c) (archivePrefix t (oldSlot (profiles t.id)))
    (oldSlot (profiles t.id))

/-- the iteration copies the snapshot -/
def Copies (profiles : Tree) (t : Target) (c : Capture) : Prop :=
  (profiles t.id).hello ≠ none ∧ Changed (profiles t.id) c ∧ (archiveOf profiles t c).2 = true

instance (profiles : Tree) (t : Target) (c : Capture) : Decidable (Copies profiles t c) :=
  inferInstanceAs (Decidable (_ ∧ _ ∧ _))

/-- the tree before the last slot is written -/
def archived (profiles : Tree) (t : Target) (c : Capture) : Tree :=
  if Copies profiles t c then
    Function.update (captured profiles t c) (archiveOf profiles t c).1
      (copySnapshot (captured profiles t c (archiveOf profiles t c).1) (profiles t.id)
        (archiveOf profiles t c).1 (oldSlot (profiles t.id)))
  else captured profiles t c

/-- the slot that `updateSlotAfterCapture` writes has the JA4 of the directory -/
theorem updateSlot_spec (lab : LabRoot) (t : Target) (probe : Bytes × Int)
    (h : (lab.profiles t.id).hello ≠ none) :
    ∃ s : Slot, s.ja4 = (lab.profiles t.id).profileJA4 ∧
      updateSlotAfterCapture lab t probe
        = lab.setDir t.id (writeSlot (lab.profiles t.id) s) := by
  unfold updateSlotAfterCapture
  dsimp only
  rw [if_neg h]
  split_ifs <;> exact ⟨_, rfl, rfl⟩

theorem archiveSnapshot_copied (lab : LabRoot) (t : Target) (before : Dir) (old : Slot)
    (archID : Bytes) (h : (archiveDst lab.profiles archID old).2 = true) :
    ∃ s tree, tree = Function.update lab.profiles (archiveDst lab.profiles archID old).1
        (copySnapshot (lab.profiles (archiveDst lab.profiles archID old).1) before
          (archiveDst lab.profiles archID old).1 old) ∧
      (archiveSnapshot lab t before old archID).profiles
        = Function.update tree t.id (writeSlot (tree t.id) s) := by
  unfold archiveSnapshot
  simp only [if_pos h, setDir_profiles, ensureArchiveTarget_profiles]
  exact ⟨_, _, rfl, rfl⟩

theorem archiveSnapshot_skipped (lab : LabRoot) (t : Target) (before : Dir) (old : Slot)
    (archID : Bytes) (h : ¬ (archiveDst lab.profiles archID old).2 = true) :
    ∃ s, (archiveSnapshot lab t before old archID).profiles
      = Function.update lab.profiles t.id (writeSlot (lab.profiles t.id) s) := by
  unfold archiveSnapshot
  simp only [if_neg h, setDir_profiles, ensureArchiveTarget_profiles]
  exact ⟨_, rfl⟩

/-- Up to the slot of the target, `maybeArchiveAfterCapture` leaves the archived tree. -/
theorem maybeArchive_spec (lab : LabRoot) (t : Target) (c : Capture) (ht : t.track = trackLatest) :
    ∃ s, (maybeArchiveAfterCapture (lab.setDir t.id (c.over (lab.profiles t.id))) t
        (snapshotProfile (lab.profiles t.id))).profiles
        = Function.update (archived lab.profiles t c) t.id
          { archived lab.profiles t c t.id with slot := s } := by
  have hcap : (lab.setDir t.id (c.over (lab.profiles t.id))).profiles
      = captured lab.profiles t c := rfl
  have hja4 : (captured lab.profiles t c t.id).profileJA4 = c.profile.ja4 := by
    unfold captured
    rw [Function.update_self, over_profileJA4]
  generalize lab.setDir t.id (c.over (lab.profiles t.id)) = lab' at hcap
  by_cases hh : (lab.profiles t.id).hello = none
  · have hnot : ¬ Copies lab.profiles t c := fun h => h.1 hh
    unfold snapshotProfile archived
    rw [if_pos hh, if_neg hnot]
    exact ⟨_, hcap.trans (Function.update_eq_self t.id _).symm⟩
  unfold snapshotProfile
  rw [if_neg hh]
  unfold maybeArchiveAfterCapture
  dsimp only
  rw [if_neg (not_not.mpr ht), hcap, hja4]
  by_cases hch : Changed (lab.profiles t.id) c
  · rw [if_neg hch]
    by_cases hd : (archiveOf lab.profiles t c).2 = true
    · have hd' : (archiveDst lab'.profiles (archivePrefix t (oldSlot (lab.profiles t.id)))
          (oldSlot (lab.profiles t.id))).2 = true := by rw [hcap]; exact hd
      obtain ⟨s, tree, htree, hs⟩ := archiveSnapshot_copied lab' t (lab.profiles t.id) _ _ hd'
      have harch : archived lab.profiles t c = tree := by
        unfold archived
        rw [if_pos ⟨hh, hch, hd⟩, htree, hcap]
        rfl
      rw [harch]
      exact ⟨some s, hs⟩
    · have hd' : ¬ (archiveDst lab'.profiles (archivePrefix t (oldSlot (lab.profiles t.id)))
          (oldSlot (lab.profiles t.id))).2 = true := by rw [hcap]; exact hd
      obtain ⟨s, hs⟩ := archiveSnapshot_skipped lab' t (lab.profiles t.id) _ _ hd'
      have harch : archived lab.profiles t c = lab'.profiles := by
        unfold archived
        rw [if_neg fun h => hd h.2.2, hcap]
      rw [harch]
      exact ⟨some s, hs⟩
  · have harch : archived lab.profiles t c = lab'.profiles := by
      unfold archived
      rw [if_neg fun h => hch h.2.1, hcap]
    rw [if_pos (not_not.mp hch), setDir_profiles, harch, ← hcap]
    exact ⟨some _, rfl⟩

theorem archived_hello (profiles : Tree) (t : Target) (c : Capture) :
    (archived profiles t c t.id).hello ≠ none := by
  have hcap : (captured profiles t c t.id).hello ≠ none := by
    unfold captured
    rw [Function.update_self]
    exact Option.some_ne_none _
  unfold archived
  split
  · rename_i hc
    by_cases he : t.id = (archiveOf profiles t c).1
    · rw [← he, Function.update_self]
      obtain ⟨b, hb⟩ := Option.ne_none_iff_exists'.mp hc.1
      show ((profiles t.id).hello <|> _) ≠ none
      rw [hb]
      exact Option.some_ne_none b
    · rw [Function.update_of_ne he]
      exact hcap
  · exact hcap

/-- **One iteration** in closed form. -/
theorem captureTarget_profiles (lab : LabRoot) (t : Target) (c : Capture) (probe : Bytes × Int)
    (ht : t.track = trackLatest) :
    ∃ s : Slot, s.ja4 = (archived lab.profiles t c t.id).profileJA4 ∧
      (captureTarget lab t c probe).profiles = Function.update (archived lab.profiles t c) t.id
        (writeSlot (archived lab.profiles t c t.id) s) := by
  obtain ⟨s0, hd⟩ := maybeArchive_spec lab t c ht
  unfold captureTarget
  dsimp only
  generalize maybeArchiveAfterCapture _ t _ = lab' at hd ⊢
  have hself : lab'.profiles t.id = { archived lab.profiles t c t.id with slot := s0 } := by
    rw [hd, Function.update_self]
  obtain ⟨s, hs, he⟩ := updateSlot_spec lab' t probe (by rw [hself]; exact archived_hello _ t c)
  rw [hself] at hs he
  refine ⟨s, hs, ?_⟩
  rw [he, setDir_profiles, hd, Function.update_idem]
  rfl

/-! ## the destination -/

/-- the directory of the archive, as named by family and version, and the one with the suffix -/
def archiveBase (t : Target) (old : Slot) : Bytes := sanitizeID (archivePrefix t old)

def archiveSuffixed (t : Target) (old : Slot) : Bytes :=
  archiveBase t old ++ str "-" ++ sanitizeID (old.ja4.take 12)

/-- no hello, or the JA4 already: nothing is lost when a snapshot with that JA4 is copied there -/
def Room (d : Dir) (ja4 : Bytes) : Prop := d.hello = none ∨ d.profileJA4 = ja4

instance (d : Dir) (ja4 : Bytes) : Decidable (Room d ja4) := inferInstanceAs (Decidable (_ ∨ _))

/-- When the JA4 has changed and the directory of the archive is taken by another one, the directory
with the suffix has room. -/
def SuffixFree (profiles : Tree) (t : Target) (c : Capture) : Prop :=
  (profiles t.id).hello ≠ none → Changed (profiles t.id) c →
    ¬ (archiveBase t (oldSlot (profiles t.id)) ≠ t.id ∧
      Room (profiles (archiveBase t (oldSlot (profiles t.id)))) (oldSlot (profiles t.id)).ja4) →
    archiveSuffixed t (oldSlot (profiles t.id)) ≠ t.id ∧
      Room (profiles (archiveSuffixed t (oldSlot (profiles t.id)))) (oldSlot (profiles t.id)).ja4

instance (profiles : Tree) (t : Target) (c : Capture) : Decidable (SuffixFree profiles t c) :=
  inferInstanceAs (Decidable (_ → _ → _ → _))

theorem archiveDst_cases (profiles : Tree) (t : Target) (old : Slot) :
    (archiveDst profiles (archivePrefix t old) old = (archiveBase t old, false) ∧
      (profiles (archiveBase t old)).hello ≠ none ∧
      (profiles (archiveBase t old)).profileJA4 = old.ja4) ∨
    (archiveDst profiles (archivePrefix t old) old = (archiveBase t old, true) ∧
      (profiles (archiveBase t old)).hello = none) ∨
    (archiveDst profiles (archivePrefix t old) old = (archiveSuffixed t old, true) ∧
      (profiles (archiveBase t old)).hello ≠ none ∧
      (profiles (archiveBase t old)).profileJA4 ≠ old.ja4) := by
  unfold archiveDst
  dsimp only
  by_cases hh : (profiles (archiveBase t old)).hello = none
  · have hn : ¬ (profiles (sanitizeID (archivePrefix t old))).hello ≠ none := not_not.mpr hh
    rw [if_neg hn]
    exact .inr (.inl ⟨rfl, hh⟩)
  · have hn : (profiles (sanitizeID (archivePrefix t old))).hello ≠ none := hh
    rw [if_pos hn]
    by_cases hj : (profiles (archiveBase t old)).profileJA4 = old.ja4
    · have hj' : (profiles (sanitizeID (archivePrefix t old))).profileJA4 = old.ja4 := hj
      rw [if_pos hj']
      exact .inl ⟨rfl, hh, hj⟩
    · have hj' : ¬ (profiles (sanitizeID (archivePrefix t old))).profileJA4 = old.ja4 := hj
      rw [if_neg hj']
      exact .inr (.inr ⟨rfl, hh, hj⟩)

/-- the id is the base, with a suffix or without -/
theorem archiveDst_id (profiles : Tree) (t : Target) (old : Slot) :
    ∃ tail, (archiveDst profiles (archivePrefix t old) old).1 = archiveBase t old ++ tail ∧
      (tail = [] ∨ tail = str "-" ++ sanitizeID (old.ja4.take 12)) := by
  obtain ⟨he, -⟩ | ⟨he, -⟩ | ⟨he, -⟩ := archiveDst_cases profiles t old
  · exact ⟨[], by rw [he, List.append_nil], .inl rfl⟩
  · exact ⟨[], by rw [he, List.append_nil], .inl rfl⟩
  · refine ⟨_, ?_, .inr rfl⟩
    rw [he, ← List.append_assoc]
    rfl

section
variable {profiles : Tree} {t : Target} {c : Capture}

theorem captured_self : captured profiles t c t.id = c.over (profiles t.id) := by
  unfold captured
  rw [Function.update_self]

theorem captured_of_ne {id : Bytes} (h : id ≠ t.id) : captured profiles t c id = profiles id := by
  unfold captured
  rw [Function.update_of_ne h]

theorem Changed.ja4_ne (h : Changed (profiles t.id) c) :
    c.profile.ja4 ≠ (oldSlot (profiles t.id)).ja4 := fun he => h (.inr (.inr he.symm))

/-- what is copied over has room, and it is not the target's own directory -/
theorem Copies.room (hc : Copies profiles t c) (hfree : SuffixFree profiles t c) :
    (archiveOf profiles t c).1 ≠ t.id ∧
      Room (profiles (archiveOf profiles t c).1) (oldSlot (profiles t.id)).ja4 := by
  obtain ⟨hh, hch, hcopy⟩ := hc
  have hfree := hfree hh hch
  have hcases := archiveDst_cases (captured profiles t c) t (oldSlot (profiles t.id))
  unfold archiveOf at hcopy ⊢
  by_cases hbase : archiveBase t (oldSlot (profiles t.id)) = t.id
  · rw [hbase, captured_self] at hcases
    have hsuffix := hfree fun h => h.1 hbase
    obtain ⟨he, -, hj⟩ | ⟨he, hn⟩ | ⟨he, -, -⟩ := hcases
    · exact absurd hj hch.ja4_ne
    · exact absurd hn (Option.some_ne_none c.hello)
    · rw [he]
      dsimp only
      exact hsuffix
  · rw [captured_of_ne hbase] at hcases
    obtain ⟨he, -, -⟩ | ⟨he, hn⟩ | ⟨he, hh', hj⟩ := hcases
    · rw [he] at hcopy
      exact absurd hcopy Bool.false_ne_true
    · rw [he]
      dsimp only
      exact ⟨hbase, .inl hn⟩
    · rw [he]
      dsimp only
      exact hfree fun h => h.2.elim hh' hj

/-- what is not copied is there already -/
theorem exists_of_not_copies (hh : (profiles t.id).hello ≠ none) (hch : Changed (profiles t.id) c)
    (hc : ¬ Copies profiles t c) :
    ∃ id, id ≠ t.id ∧ (profiles id).hello ≠ none ∧
      (profiles id).profileJA4 = (oldSlot (profiles t.id)).ja4 := by
  have hskip : ¬ (archiveOf profiles t c).2 = true := fun h => hc ⟨hh, hch, h⟩
  unfold archiveOf at hskip
  obtain ⟨-, hh', hj⟩ | ⟨he, -⟩ | ⟨he, -, -⟩ :=
    archiveDst_cases (captured profiles t c) t (oldSlot (profiles t.id))
  · by_cases hbase : archiveBase t (oldSlot (profiles t.id)) = t.id
    · rw [hbase, captured_self] at hj
      exact absurd hj hch.ja4_ne
    · rw [captured_of_ne hbase] at hh' hj
      exact ⟨_, hbase, hh', hj⟩
  · rw [he] at hskip
    exact absurd rfl hskip
  · rw [he] at hskip
    exact absurd rfl hskip

end

/-! ## what a directory holds -/

def Holds (d : Dir) (hello ja4 : Bytes) : Prop :=
  d.hello = some hello ∧ d.profileJA4 = ja4 ∧ ja4 ≠ []

instance (d : Dir) (hello ja4 : Bytes) : Decidable (Holds d hello ja4) :=
  inferInstanceAs (Decidable (_ ∧ _ ∧ _))

/-- `slot.json` says nothing else than `profile.json` -/
def Agrees (d : Dir) : Prop := ∀ s ∈ d.slot, s.ja4 = [] ∨ s.ja4 = d.profileJA4

instance (d : Dir) : Decidable (Agrees d) :=
  inferInstanceAs (Decidable (∀ s ∈ d.slot, _))

theorem readSlot_ja4 (d : Dir) :
    (readSlot d).ja4 = if (d.slot.getD {}).ja4 = [] then d.profileJA4 else (d.slot.getD {}).ja4 := by
  unfold readSlot
  dsimp only
  split_ifs <;> (try split) <;> (try split_ifs) <;> rfl

theorem Agrees.oldSlot_ja4 {d : Dir} (h : Agrees d) : (oldSlot d).ja4 = d.profileJA4 := by
  have hread : (readSlot d).ja4 = d.profileJA4 := by
    rw [readSlot_ja4]
    split_ifs with he
    · rfl
    · cases hs : d.slot with
      | none =>
        rw [hs] at he
        exact absurd rfl he
      | some s =>
        rw [hs] at he
        exact (h s hs).resolve_left he
  unfold oldSlot
  dsimp only
  split_ifs
  · rfl
  · exact hread

theorem agrees_writeSlot {d : Dir} {s : Slot} (h : s.ja4 = d.profileJA4) :
    Agrees (writeSlot d s) := by
  intro s' hs'
  cases hs'
  exact .inr h

theorem setID_ja4 (archID : Bytes) (p : Option (Doc ProfileDoc)) :
    (Doc.read? (p.map (setID archID))).map (·.ja4) = (Doc.read? p).map (·.ja4) := by
  rcases p with _ | raw | p <;> rfl

theorem profileJA4_eq (d : Dir) : d.profileJA4 = ((Doc.read? d.profile).map (·.ja4)).getD [] := by
  unfold Dir.profileJA4
  cases Doc.read? d.profile <;> rfl

theorem profile_ne_none {d : Dir} (h : d.profileJA4 ≠ []) : ∃ p, d.profile = some p := by
  cases hp : d.profile with
  | none =>
    unfold Dir.profileJA4 at h
    rw [hp] at h
    exact absurd rfl h
  | some p => exact ⟨p, rfl⟩

theorem copySnapshot_ja4 (dst before : Dir) (archID : Bytes) (old : Slot)
    (h : before.profileJA4 ≠ []) :
    (copySnapshot dst before archID old).profileJA4 = before.profileJA4 := by
  obtain ⟨p, hp⟩ := profile_ne_none h
  have hprofile : (copySnapshot dst before archID old).profile = before.profile.map (setID archID) := by
    show (before.profile <|> dst.profile).map (setID archID) = _
    rw [hp]
    rfl
  rw [profileJA4_eq, hprofile, setID_ja4, ← profileJA4_eq]

theorem copySnapshot_hello (dst before : Dir) (archID : Bytes) (old : Slot)
    (h : before.hello ≠ none) : (copySnapshot dst before archID old).hello = before.hello := by
  obtain ⟨b, hb⟩ := Option.ne_none_iff_exists'.mp h
  show (before.hello <|> dst.hello) = _
  rw [hb]
  rfl

/-! ## one iteration keeps what was held -/

/-- one turn of the capture loop with what it meets: the hello and the answer of the probe -/
structure Iteration where
  target : Target
  capture : Capture
  probe : Bytes × Int := ([], 0)

def Iteration.apply (lab : LabRoot) (i : Iteration) : LabRoot :=
  captureTarget lab i.target i.capture i.probe

/-- a directory after an iteration: it is the target's, it is untouched, or it takes the snapshot -/
inductive After (profiles : Tree) (i : Iteration) (id : Bytes) (d : Dir) : Prop where
  | captured (heq : id = i.target.id) (hhello : d.hello = some i.capture.hello)
      (hja4 : d.profileJA4 = i.capture.profile.ja4) (hagree : Agrees d)
  | untouched (hne : id ≠ i.target.id) (heq : d = profiles id)
  | archived (hne : id ≠ i.target.id) (hcopy : Copies profiles i.target i.capture)
      (hhello : d.hello = (profiles i.target.id).hello)
      (hja4 : d.profileJA4 = (profiles i.target.id).profileJA4) (hagree : Agrees d)
      (hroom : Room (profiles id) (profiles i.target.id).profileJA4)

section
variable (lab : LabRoot) (i : Iteration) (ht : i.target.track = trackLatest)
  (hagree : Agrees (lab.profiles i.target.id))
  (hfree : SuffixFree lab.profiles i.target i.capture)
include ht hagree hfree

/-- the destination of a copy holds the snapshot -/
theorem apply_archiveOf (hcopy : Copies lab.profiles i.target i.capture) :
    ((i.apply lab).profiles (archiveOf lab.profiles i.target i.capture).1).hello
      = (lab.profiles i.target.id).hello ∧
    ((i.apply lab).profiles (archiveOf lab.profiles i.target i.capture).1).profileJA4
      = (lab.profiles i.target.id).profileJA4 ∧
    Agrees ((i.apply lab).profiles (archiveOf lab.profiles i.target i.capture).1) := by
  obtain ⟨s, -, he⟩ := captureTarget_profiles lab i.target i.capture i.probe ht
  have hne := (hcopy.room hfree).1
  have hold := hagree.oldSlot_ja4
  have hsome : (lab.profiles i.target.id).profileJA4 ≠ [] := fun h => hcopy.2.1 (.inl (hold.trans h))
  have hd : (i.apply lab).profiles (archiveOf lab.profiles i.target i.capture).1
      = copySnapshot (captured lab.profiles i.target i.capture
          (archiveOf lab.profiles i.target i.capture).1) (lab.profiles i.target.id)
        (archiveOf lab.profiles i.target i.capture).1 (oldSlot (lab.profiles i.target.id)) := by
    unfold Iteration.apply
    rw [he, Function.update_of_ne hne]
    unfold archived
    rw [if_pos hcopy, Function.update_self]
  rw [hd]
  have hja4 := copySnapshot_ja4 (captured lab.profiles i.target i.capture
    (archiveOf lab.profiles i.target i.capture).1) (lab.profiles i.target.id)
    (archiveOf lab.profiles i.target i.capture).1 (oldSlot (lab.profiles i.target.id)) hsome
  refine ⟨copySnapshot_hello _ _ _ _ hcopy.1, hja4, ?_⟩
  intro s' hs'
  cases hs'
  exact .inr (hold.trans hja4.symm)

/-- The step lemma: what an iteration does to any directory. -/
theorem after_apply (id : Bytes) : After lab.profiles i id ((i.apply lab).profiles id) := by
  obtain ⟨s, hs, he⟩ := captureTarget_profiles lab i.target i.capture i.probe ht
  have harch : archived lab.profiles i.target i.capture i.target.id
      = i.capture.over (lab.profiles i.target.id) := by
    unfold archived
    split
    · rename_i hcopy
      rw [Function.update_of_ne (hcopy.room hfree).1.symm, captured_self]
    · exact captured_self
  rw [harch] at hs he
  by_cases hid : id = i.target.id
  · have hd : (i.apply lab).profiles id = writeSlot (i.capture.over (lab.profiles i.target.id)) s := by
      unfold Iteration.apply
      rw [he, hid, Function.update_self]
    rw [hd]
    exact .captured hid rfl rfl (agrees_writeSlot hs)
  by_cases hdst : Copies lab.profiles i.target i.capture ∧
      id = (archiveOf lab.profiles i.target i.capture).1
  · obtain ⟨hcopy, hid'⟩ := hdst
    obtain ⟨hhello, hja4, hag⟩ := apply_archiveOf lab i ht hagree hfree hcopy
    have hroom := (hcopy.room hfree).2
    rw [← hid'] at hhello hja4 hag hroom
    rw [hagree.oldSlot_ja4] at hroom
    exact .archived hid hcopy hhello hja4 hag hroom
  refine .untouched hid ?_
  unfold Iteration.apply
  rw [he, Function.update_of_ne hid]
  unfold archived
  split
  · rename_i hcopy
    rw [Function.update_of_ne fun h => hdst ⟨hcopy, h⟩, captured_of_ne hid]
  · exact captured_of_ne hid

/-- **Nothing is lost** by one iteration: a JA4 that a directory holds is held afterwards. -/
theorem ja4_kept (hsafe : i.capture.profile.ja4 ≠ []) (id : Bytes) (hello ja4 : Bytes)
    (h : Holds (lab.profiles id) hello ja4) :
    ∃ id' hello', Holds ((i.apply lab).profiles id') hello' ja4 := by
  obtain ⟨hhello, hja4, hne⟩ := h
  have hold := hagree.oldSlot_ja4
  cases after_apply lab i ht hagree hfree id with
  | untouched _ he => exact ⟨id, hello, by rw [he]; exact ⟨hhello, hja4, hne⟩⟩
  | archived _ hcopy hh hj _ hroom =>
    -- the directory had a hello, so it has room only because it holds the same JA4
    obtain ⟨b, hb⟩ := Option.ne_none_iff_exists'.mp hcopy.1
    have hsame : (lab.profiles id).profileJA4 = (lab.profiles i.target.id).profileJA4 :=
      hroom.resolve_left fun hn => Option.some_ne_none hello (hhello.symm.trans hn)
    exact ⟨id, b, hh.trans hb, hj.trans (hsame.symm.trans hja4), hne⟩
  | captured heq hh hj _ =>
    subst heq
    by_cases hch : Changed (lab.profiles i.target.id) i.capture
    · have hsome : (lab.profiles i.target.id).hello ≠ none := by
        rw [hhello]
        exact Option.some_ne_none hello
      by_cases hcopy : Copies lab.profiles i.target i.capture
      · obtain ⟨hh', hj', -⟩ := apply_archiveOf lab i ht hagree hfree hcopy
        exact ⟨_, hello, hh'.trans hhello, hj'.trans hja4, hne⟩
      · -- the copy is skipped: a directory with that JA4 is there, and it stays
        obtain ⟨id', hne', hh', hj'⟩ := exists_of_not_copies hsome hch hcopy
        obtain ⟨b, hb⟩ := Option.ne_none_iff_exists'.mp hh'
        cases after_apply lab i ht hagree hfree id' with
        | captured heq => exact absurd heq hne'
        | archived _ hcopy' => exact absurd hcopy' hcopy
        | untouched _ he =>
          refine ⟨id', b, ?_⟩
          rw [he]
          exact ⟨hb, hj'.trans (hold.trans hja4), hne⟩
    · have hsame : i.capture.profile.ja4 = ja4 := by
        have := not_not.mp hch
        rw [hold, hja4] at this
        exact ((this.resolve_left hne).resolve_left hsafe).symm
      exact ⟨_, _, hh, hj.trans hsame, hne⟩

end

/-! ## a whole run -/

def captureRun (lab : LabRoot) (is : List Iteration) : LabRoot := is.foldl Iteration.apply lab

/-- the hello was in a directory with that JA4 at the start, or it was captured with it -/
def Seen (lab : LabRoot) (is : List Iteration) (hello ja4 : Bytes) : Prop :=
  (∃ id, Holds (lab.profiles id) hello ja4) ∨
    ∃ i ∈ is, i.capture.hello = hello ∧ i.capture.profile.ja4 = ja4

/-- The runs that are meant: slots and profiles agree at the start, and latest targets are captured
with a JA4. -/
structure CaptureRun (lab : LabRoot) (is : List Iteration) : Prop where
  agrees : ∀ id, Agrees (lab.profiles id)
  latest : ∀ i ∈ is, i.target.track = trackLatest
  ja4 : ∀ i ∈ is, i.capture.profile.ja4 ≠ []

/-- A captured fingerprint is held after its iteration, none is lost at any later point of the run, and
no directory of another JA4 is overwritten by an archive. -/
structure KeepsFingerprints (lab : LabRoot) (is : List Iteration) : Prop where
  fresh : ∀ earlier i, earlier ++ [i] <+: is →
    Holds ((captureRun lab (earlier ++ [i])).profiles i.target.id) i.capture.hello i.capture.profile.ja4
  kept : ∀ earlier later, earlier <+: later → later <+: is → ∀ id hello ja4,
    Holds ((captureRun lab earlier).profiles id) hello ja4 →
    ∃ id' hello', Holds ((captureRun lab later).profiles id') hello' ja4 ∧ Seen lab later hello' ja4
  spared : ∀ earlier i, earlier ++ [i] <+: is → ∀ id, id ≠ i.target.id →
    ((captureRun lab earlier).profiles id).hello ≠ none →
    ((captureRun lab (earlier ++ [i])).profiles id).profileJA4
      = ((captureRun lab earlier).profiles id).profileJA4

/-- `SuffixFree` before every iteration -/
def SuffixesFree (lab : LabRoot) (is : List Iteration) : Prop :=
  ∀ earlier i, earlier ++ [i] <+: is →
    SuffixFree (captureRun lab earlier).profiles i.target i.capture

theorem captureRun_append (lab : LabRoot) (xs ys : List Iteration) :
    captureRun lab (xs ++ ys) = captureRun (captureRun lab xs) ys := List.foldl_append

theorem suffixesFree_nil (lab : LabRoot) : SuffixesFree lab [] := by
  intro earlier i hp
  exact absurd (List.prefix_nil.mp hp) (List.append_ne_nil_of_right_ne_nil _ (List.cons_ne_nil i []))

theorem suffixesFree_cons (lab : LabRoot) (i : Iteration) (is : List Iteration) :
    SuffixesFree lab (i :: is) ↔
      SuffixFree lab.profiles i.target i.capture ∧ SuffixesFree (i.apply lab) is := by
  constructor
  · intro h
    refine ⟨h [] i ⟨is, rfl⟩, fun earlier j hp => ?_⟩
    exact h (i :: earlier) j ((List.prefix_cons_inj i).mpr hp)
  · rintro ⟨hhead, htail⟩ earlier j hp
    cases earlier with
    | nil =>
      obtain rfl : j = i := (List.cons_prefix_cons.mp hp).1
      exact hhead
    | cons k earlier =>
      obtain ⟨rfl, hrest⟩ := List.cons_prefix_cons.mp hp
      exact htail earlier j hrest

/-- what every point of a run satisfies: slots agree, and what is held was seen -/
def Sound (profiles : Tree) (seen : Bytes → Bytes → Prop) : Prop :=
  ∀ id, Agrees (profiles id) ∧ ∀ hello ja4, Holds (profiles id) hello ja4 → seen hello ja4

theorem sound_apply (lab : LabRoot) (i : Iteration) (seen : Bytes → Bytes → Prop)
    (hsound : Sound lab.profiles seen) (ht : i.target.track = trackLatest)
    (hfree : SuffixFree lab.profiles i.target i.capture)
    (hseen : seen i.capture.hello i.capture.profile.ja4) : Sound (i.apply lab).profiles seen := by
  intro id
  cases after_apply lab i ht (hsound _).1 hfree id with
  | captured _ hh hj hag =>
    refine ⟨hag, fun hello ja4 h => ?_⟩
    have hhello : i.capture.hello = hello := Option.some.inj (hh.symm.trans h.1)
    have hja4 : i.capture.profile.ja4 = ja4 := hj.symm.trans h.2.1
    rw [← hhello, ← hja4]
    exact hseen
  | untouched _ he =>
    rw [he]
    exact hsound id
  | archived _ _ hh hj hag _ =>
    refine ⟨hag, fun hello ja4 h => (hsound i.target.id).2 hello ja4 ?_⟩
    exact ⟨hh.symm.trans h.1, hj.symm.trans h.2.1, h.2.2⟩

/-- The run lemma, by induction on the iterations. -/
theorem run_keeps (seen : Bytes → Bytes → Prop) (is : List Iteration) (lab : LabRoot)
    (hsound : Sound lab.profiles seen) (ht : ∀ i ∈ is, i.target.track = trackLatest)
    (hja4 : ∀ i ∈ is, i.capture.profile.ja4 ≠ [])
    (hseen : ∀ i ∈ is, seen i.capture.hello i.capture.profile.ja4)
    (hfree : SuffixesFree lab is) :
    Sound (captureRun lab is).profiles seen ∧ ∀ ja4, (∃ id hello, Holds (lab.profiles id) hello ja4) →
      ∃ id hello, Holds ((captureRun lab is).profiles id) hello ja4 := by
  induction is generalizing lab with
  | nil => exact ⟨hsound, fun _ h => h⟩
  | cons i is ih =>
    obtain ⟨hhead, htail⟩ := (suffixesFree_cons lab i is).mp hfree
    have hi : i ∈ i :: is := List.mem_cons_self
    have hsound' := sound_apply lab i seen hsound (ht i hi) hhead (hseen i hi)
    obtain ⟨hend, hkept⟩ := ih (i.apply lab) hsound' (fun j hj => ht j (List.mem_cons_of_mem i hj))
      (fun j hj => hja4 j (List.mem_cons_of_mem i hj))
      (fun j hj => hseen j (List.mem_cons_of_mem i hj)) htail
    refine ⟨hend, fun ja4 h => hkept ja4 ?_⟩
    obtain ⟨id, hello, hh⟩ := h
    exact ja4_kept lab i (ht i hi) (hsound _).1 hhead (hja4 i hi) id hello ja4 hh

theorem CaptureRun.of_prefix {lab : LabRoot} {xs is : List Iteration} (h : CaptureRun lab is)
    (hp : xs <+: is) : CaptureRun lab xs where
  agrees := h.agrees
  latest i hi := h.latest i (hp.subset hi)
  ja4 i hi := h.ja4 i (hp.subset hi)

theorem sound_run {lab : LabRoot} {is : List Iteration} (h : CaptureRun lab is)
    (hfree : SuffixesFree lab is) : Sound (captureRun lab is).profiles (Seen lab is) := by
  refine (run_keeps (Seen lab is) is lab ?_ h.latest h.ja4 ?_ hfree).1
  · exact fun id => ⟨h.agrees id, fun hello ja4 hh => .inl ⟨id, hh⟩⟩
  · exact fun i hi => .inr ⟨i, hi, rfl, rfl⟩

theorem SuffixesFree.of_append {lab : LabRoot} {xs ys : List Iteration}
    (h : SuffixesFree lab (xs ++ ys)) :
    SuffixesFree lab xs ∧ SuffixesFree (captureRun lab xs) ys := by
  refine ⟨fun earlier i hp => h earlier i (hp.trans (List.prefix_append xs ys)), ?_⟩
  intro earlier i hp
  rw [← captureRun_append]
  refine h (xs ++ earlier) i ?_
  rw [List.append_assoc]
  exact (List.prefix_append_right_inj xs).mpr hp

/-- **The archive keeps every fingerprint** of a run in which the directory with the suffix, whenever
it is needed, has room. -/
theorem archive_keeps (lab : LabRoot) (is : List Iteration) (hrun : CaptureRun lab is)
    (hfree : SuffixesFree lab is) : KeepsFingerprints lab is := by
  constructor
  · rintro earlier i ⟨rest, rfl⟩
    have hlater := hrun.of_prefix (List.prefix_append (earlier ++ [i]) rest)
    obtain ⟨hfreeL, -⟩ := hfree.of_append
    have hi : i ∈ earlier ++ [i] := List.mem_append_right earlier List.mem_cons_self
    have hsound := sound_run (hlater.of_prefix (List.prefix_append earlier [i])) hfreeL.of_append.1
    rw [captureRun_append]
    cases after_apply (captureRun lab earlier) i (hlater.latest i hi) (hsound _).1
        (hfreeL earlier i (List.prefix_refl _)) i.target.id with
    | captured _ hh hj _ => exact ⟨hh, hj, hlater.ja4 i hi⟩
    | untouched hne => exact absurd rfl hne
    | archived hne => exact absurd rfl hne
  · rintro earlier later ⟨mid, rfl⟩ ⟨rest, rfl⟩ id hello ja4 hh
    have hlater := hrun.of_prefix (List.prefix_append (earlier ++ mid) rest)
    obtain ⟨hfreeL, -⟩ := hfree.of_append
    obtain ⟨hfreeE, hfreeM⟩ := hfreeL.of_append
    have hsound := sound_run (hlater.of_prefix (List.prefix_append earlier mid)) hfreeE
    have hmid : ∀ i ∈ mid, i ∈ earlier ++ mid := fun i hi => List.mem_append_right earlier hi
    obtain ⟨-, hkept⟩ := run_keeps (fun _ _ => True) mid (captureRun lab earlier)
      (fun id => ⟨(hsound id).1, fun _ _ _ => trivial⟩) (fun i hi => hlater.latest i (hmid i hi))
      (fun i hi => hlater.ja4 i (hmid i hi)) (fun _ _ => trivial) hfreeM
    obtain ⟨id', hello', hh'⟩ := hkept ja4 ⟨id, hello, hh⟩
    rw [← captureRun_append] at hh'
    exact ⟨id', hello', hh', (sound_run hlater hfreeL id').2 hello' ja4 hh'⟩
  · rintro earlier i ⟨rest, rfl⟩ id hne hhello
    have hlater := hrun.of_prefix (List.prefix_append (earlier ++ [i]) rest)
    obtain ⟨hfreeL, -⟩ := hfree.of_append
    have hi : i ∈ earlier ++ [i] := List.mem_append_right earlier List.mem_cons_self
    have hsound := sound_run (hlater.of_prefix (List.prefix_append earlier [i])) hfreeL.of_append.1
    rw [captureRun_append]
    cases after_apply (captureRun lab earlier) i (hlater.latest i hi) (hsound _).1
        (hfreeL earlier i (List.prefix_refl _)) id with
    | captured heq => exact absurd heq hne
    | untouched _ he => exact congrArg Dir.profileJA4 he
    | archived _ _ _ hj _ hroom => exact hj.trans (hroom.resolve_left hhello).symm

/-! ## four captures of one version -/

/-- `profiles/` before the first capture -/
def emptyLab : LabRoot := { profiles := fun _ => {}, targets := [], archive := [] }

def chromeLinux : Target :=
  { id := str "chrome-linux", family := str "chrome", kind := str "compose",
    status := str "active", track := trackLatest }

/-- Chrome 120 with that JA4 -/
def chromeCapture (hello : Byte) (ja4 : Bytes) : Iteration where
  target := chromeLinux
  capture :=
    { hello := [hello], profile := { id := str "chrome-linux", ja4 := ja4 }, metaDoc := { ja4 := ja4 } }
  probe := (str "120.0.6099.109", 120)

def lostJA4 : Bytes := str "t13d1516h2_8daaf6152771_02713d6af862"

/-- the second and the third JA4 have their first 12 characters in common -/
def fourCaptures : List Iteration :=
  [chromeCapture 1 (str "t13d1515h2_8daaf6152771_de4a06bb82e3"), chromeCapture 2 lostJA4,
    chromeCapture 3 (str "t13d1516h2_8daaf6152771_d8a2da3f94cd"),
    chromeCapture 4 (str "t13d1517h2_8daaf6152771_b0da82dd1658")]

/-- the directories that a run writes -/
def touched (lab : LabRoot) : List Iteration → List Bytes
  | [] => []
  | i :: is =>
    i.target.id :: (archiveOf lab.profiles i.target i.capture).1 :: touched (i.apply lab) is

theorem run_untouched (is : List Iteration) (lab : LabRoot)
    (ht : ∀ i ∈ is, i.target.track = trackLatest) (id : Bytes) (h : id ∉ touched lab is) :
    (captureRun lab is).profiles id = lab.profiles id := by
  induction is generalizing lab with
  | nil => rfl
  | cons i is ih =>
    obtain ⟨hself, hdst, h⟩ : id ≠ i.target.id ∧ id ≠ (archiveOf lab.profiles i.target i.capture).1 ∧
        id ∉ touched (i.apply lab) is := by
      unfold touched at h
      simpa only [List.mem_cons, not_or] using h
    show (captureRun (i.apply lab) is).profiles id = _
    rw [ih (i.apply lab) (fun j hj => ht j (List.mem_cons_of_mem i hj)) h]
    obtain ⟨s, -, he⟩ :=
      captureTarget_profiles lab i.target i.capture i.probe (ht i List.mem_cons_self)
    unfold Iteration.apply
    rw [he, Function.update_of_ne hself]
    unfold archived
    split
    · rw [Function.update_of_ne hdst, captured_of_ne hself]
    · exact captured_of_ne hself

theorem fourCaptures_run : CaptureRun emptyLab fourCaptures where
  agrees _ _ hs := absurd hs (Option.not_mem_none _)
  latest := by decide +kernel
  ja4 := by decide +kernel

/-- after the fourth capture no directory holds the JA4 of the second one -/
theorem lostJA4_lost (id hello : Bytes) :
    ¬ Holds ((captureRun emptyLab fourCaptures).profiles id) hello lostJA4 := by
  intro h
  by_cases hid : id ∈ touched emptyLab fourCaptures
  · have hall : ∀ id ∈ touched emptyLab fourCaptures,
        ((captureRun emptyLab fourCaptures).profiles id).profileJA4 ≠ lostJA4 := by decide +kernel
    exact hall id hid h.2.1
  · rw [run_untouched fourCaptures emptyLab fourCaptures_run.latest id hid] at h
    exact Option.some_ne_none hello h.1.symm

/-- **Lost**: the archive of the third JA4 overwrites that of the second. -/
theorem archive_overwrites :
    ∃ lab is, CaptureRun lab is ∧ ¬ KeepsFingerprints lab is := by
  refine ⟨emptyLab, fourCaptures, fourCaptures_run, fun h => ?_⟩
  have hheld : Holds ((captureRun emptyLab (fourCaptures.take 2)).profiles (str "chrome-linux"))
      [2] lostJA4 := by decide +kernel
  obtain ⟨id, hello, hh, -⟩ := h.kept (fourCaptures.take 2) fourCaptures
    (List.take_prefix 2 fourCaptures) (List.prefix_refl _) _ _ _ hheld
  exact lostJA4_lost id hello hh

/-- the first three captures, where the directory with the suffix is new -/
theorem archive_keeps_three : KeepsFingerprints emptyLab (fourCaptures.take 3) := by
  refine archive_keeps emptyLab _ (fourCaptures_run.of_prefix (List.take_prefix 3 fourCaptures)) ?_
  refine (suffixesFree_cons ..).mpr ⟨by decide +kernel, ?_⟩
  refine (suffixesFree_cons ..).mpr ⟨by decide +kernel, ?_⟩
  exact (suffixesFree_cons ..).mpr ⟨by decide +kernel, suffixesFree_nil _⟩

end Labctl
