import FingerprintLab.Base.Runs
import FingerprintLab.Labctl.Attempt

/-!
# Slots and profiles drift apart

`slot.json` is written by `labctl` only, `profile.json` by the capture server.  The archive takes the
JA4 of the hello to be replaced from the slot first.

* `Action`, `step`        turns of the capture loop, and connections that no turn waits for;
* `Archives`              `maybeArchiveAfterCapture` calls `archiveSnapshot`;
* `Judged`, `Tagged`      the archive is decided by the hello replaced, and names it;
* `judged_of_agrees`      so it is when the slot of the snapshot agrees with its profile;
* `judged_always_iff`     else some capture is misjudged;
* `archive_judged`        both for the turns of a run;
* `slotCurrent_of_noticed`   slots agree as long as `labctl` notices what the server changes;
* `archive_misjudged`     a connection of its own accord hides a JA4 from the archive.
-/

set_option linter.unusedVariables false

namespace Labctl
open Go Lab Runs

/-! ## actions -/

inductive Action where
  | attempt (t : Target) (ws : List Write) (res : Option (Bytes × Int))
  | direct (ws : List Write)

def step (lab : LabRoot) : Action → Option LabRoot
  | .attempt t ws res => some (captureAttempt lab t ws res)
  | .direct ws => some (served lab ws)

/-! ## the decision -/

/-- `maybeArchiveAfterCapture` calls `archiveSnapshot` for a latest target -/
def Archives (before : Dir) (newJA4 : Bytes) : Prop :=
  ¬ ((oldSlot before).ja4 = [] ∨ newJA4 = [] ∨ (oldSlot before).ja4 = newJA4)

instance decidableArchives (before : Dir) (newJA4 : Bytes) : Decidable (Archives before newJA4) :=
  inferInstanceAs (Decidable (¬ _))

section
variable (lab : LabRoot) (t : Target) (before : Dir) (ht : t.track = trackLatest)
include ht

theorem maybeArchive_archives (h : Archives before (lab.profiles t.id).profileJA4) :
    maybeArchiveAfterCapture lab t (some before)
      = archiveSnapshot lab t before (oldSlot before) (archivePrefix t (oldSlot before)) := by
  unfold maybeArchiveAfterCapture
  dsimp only
  rw [if_neg (not_not.mpr ht), if_neg h]

theorem maybeArchive_kept (h : ¬ Archives before (lab.profiles t.id).profileJA4) :
    ∃ s, maybeArchiveAfterCapture lab t (some before)
      = lab.setDir t.id (writeSlot (lab.profiles t.id) s) := by
  unfold maybeArchiveAfterCapture
  dsimp only
  rw [if_neg (not_not.mpr ht), if_pos (not_not.mp h)]
  exact ⟨_, rfl⟩

end

theorem archives_iff (before : Dir) (newJA4 : Bytes) :
    Archives before newJA4 ↔
      (oldSlot before).ja4 ≠ [] ∧ newJA4 ≠ [] ∧ (oldSlot before).ja4 ≠ newJA4 := by
  unfold Archives
  rw [not_or, not_or]

/-- the directory has a slot and a profile with one JA4, and the profile has the directory's id -/
def Tagged (d : Dir) (id : Bytes) : Prop :=
  ∃ s p, d.slot = some s ∧ d.profile = some (.good p) ∧ s.ja4 = p.ja4 ∧ p.id = id

/-- What the archive is to do with the snapshot `before` once the capture is in the lab. -/
structure Judged (lab : LabRoot) (t : Target) (before : Dir) : Prop where
  archives : Archives before (lab.profiles t.id).profileJA4 ↔
    before.profileJA4 ≠ [] ∧ (lab.profiles t.id).profileJA4 ≠ [] ∧
      before.profileJA4 ≠ (lab.profiles t.id).profileJA4
  tagged : Archives before (lab.profiles t.id).profileJA4 → ∀ dst,
    archiveDst lab.profiles (archivePrefix t (oldSlot before)) (oldSlot before) = (dst, true) →
    Tagged ((maybeArchiveAfterCapture lab t (some before)).profiles dst) dst

theorem Tagged.agrees {d : Dir} {id : Bytes} (h : Tagged d id) : Agrees d := by
  obtain ⟨s, p, hs, hp, hja4, -⟩ := h
  intro s' hs'
  rw [Option.mem_def, hs] at hs'
  rw [← Option.some.inj hs', hja4]
  unfold Dir.profileJA4
  rw [hp]
  exact .inr rfl

/-- what is copied is tagged when the snapshot has the JA4 of the slot -/
theorem archiveSnapshot_tagged (lab : LabRoot) (t : Target) (before : Dir) (old : Slot)
    (archID dst : Bytes) {p : ProfileDoc} (hp : before.profile = some (.good p))
    (hja4 : old.ja4 = p.ja4) (h : archiveDst lab.profiles archID old = (dst, true)) :
    Tagged ((archiveSnapshot lab t before old archID).profiles dst) dst := by
  have hcopy : (copySnapshot (lab.profiles dst) before dst old).profile
      = some (.good { p with id := dst }) := by
    show ((before.profile <|> _).map _ : Option _) = _
    rw [hp]
    rfl
  unfold archiveSnapshot
  simp only [h, if_true, setDir_profiles, ensureArchiveTarget_profiles]
  by_cases hid : dst = t.id
  · rw [← hid, Function.update_self, Function.update_self]
    refine ⟨_, _, rfl, hcopy, ?_, rfl⟩
    show (copySnapshot (lab.profiles dst) before dst old).profileJA4 = p.ja4
    unfold Dir.profileJA4
    rw [hcopy]
    rfl
  · rw [Function.update_of_ne hid, Function.update_self]
    exact ⟨_, _, rfl, hcopy, hja4, rfl⟩

/-- a JA4 that is read is that of a document -/
theorem good_of_profileJA4 {d : Dir} (h : d.profileJA4 ≠ []) :
    ∃ p, d.profile = some (.good p) ∧ d.profileJA4 = p.ja4 := by
  unfold Dir.profileJA4 at h ⊢
  rcases hp : d.profile with _ | raw | p
  · rw [hp] at h
    exact absurd rfl h
  · rw [hp] at h
    exact absurd rfl h
  · exact ⟨p, rfl, rfl⟩

/-- The step lemma: a snapshot whose slot agrees with its profile is judged right. -/
theorem judged_of_agrees (lab : LabRoot) (t : Target) (before : Dir) (ht : t.track = trackLatest)
    (hag : Agrees before) : Judged lab t before := by
  have hold := hag.oldSlot_ja4
  constructor
  · rw [archives_iff, hold]
  · intro ha dst hdst
    rw [maybeArchive_archives lab t before ht ha]
    have hne := ((archives_iff _ _).mp ha).1
    rw [hold] at hne
    obtain ⟨p, hp, hja4⟩ := good_of_profileJA4 hne
    exact archiveSnapshot_tagged lab t before _ _ dst hp (hold.trans hja4) hdst

/-! ## turns -/

/-- the decision of a turn: one that fails, or has no snapshot, decides nothing -/
def JudgedTurn (lab : LabRoot) : Action → Prop
  | .attempt t ws (some _) => t.track = trackLatest →
      ∀ before, snapshotProfile (lab.profiles t.id) = some before → Judged (served lab ws) t before
  | _ => True

/-- the slot of the snapshot of a latest target, if it names a JA4, names that of the profile -/
def SlotCurrent (lab : LabRoot) : Action → Prop
  | .attempt t ws (some _) => t.track = trackLatest →
      (lab.profiles t.id).hello = none ∨ Agrees (lab.profiles t.id)
  | _ => True

theorem snapshotProfile_some {d before : Dir} (h : snapshotProfile d = some before) :
    before = d ∧ d.hello ≠ none := by
  unfold snapshotProfile at h
  split at h
  · cases h
  · rename_i hh
    exact ⟨(Option.some.inj h).symm, hh⟩

theorem judgedTurn_of_slotCurrent (lab : LabRoot) (a : Action) (h : SlotCurrent lab a) :
    JudgedTurn lab a := by
  rcases a with ⟨t, ws, _ | probe⟩ | ws
  · exact trivial
  · intro ht before hbefore
    obtain ⟨rfl, hh⟩ := snapshotProfile_some hbefore
    exact judged_of_agrees _ t _ ht ((h ht).resolve_left hh)
  · exact trivial

/-- a promotion with that JA4 -/
def promotionOf (id ja4 : Bytes) : Capture.Promotion where
  id
  hello := []
  metaDoc := {}
  profile := { id, ja4 }
  readme := []

theorem served_promotionOf (lab : LabRoot) (id ja4 : Bytes) :
    ((served lab (promotionOf id ja4).writes).profiles id).profileJA4 = ja4 := by
  unfold served promotionOf Capture.Promotion.writes
  simp only [List.foldl_cons, List.foldl_nil, Tree.apply, Function.update_self]
  rfl

/-- **Exactly then**: a latest target whose slot has drifted off is misjudged by some capture. -/
theorem judged_always_iff (lab : LabRoot) (t : Target) (ht : t.track = trackLatest) :
    (∀ ws probe, JudgedTurn lab (.attempt t ws (some probe))) ↔
      (lab.profiles t.id).hello = none ∨ Agrees (lab.profiles t.id) := by
  constructor
  · intro h
    by_cases hh : (lab.profiles t.id).hello = none
    · exact .inl hh
    refine .inr ((agrees_iff _).mpr ?_)
    by_contra hne
    have hsnap : snapshotProfile (lab.profiles t.id) = some (lab.profiles t.id) := if_neg hh
    have hiff : ∀ ja4, Archives (lab.profiles t.id) ja4 ↔
        (lab.profiles t.id).profileJA4 ≠ [] ∧ ja4 ≠ [] ∧ (lab.profiles t.id).profileJA4 ≠ ja4 := by
      intro ja4
      have hj := (h (promotionOf t.id ja4).writes ([], 0) ht _ hsnap).archives
      rw [served_promotionOf] at hj
      exact hj
    have hslot : (oldSlot (lab.profiles t.id)).ja4 ≠ [] := by
      intro he
      rw [oldSlot_ja4] at he hne
      split_ifs at he hne with hn
      · exact hne rfl
      · exact hn he
    by_cases hp : (lab.profiles t.id).profileJA4 = []
    · -- nothing is to be archived, and a new JA4 archives what the slot names
      have hnew : (oldSlot (lab.profiles t.id)).ja4 ≠ 0 :: (oldSlot (lab.profiles t.id)).ja4 :=
        fun he => absurd (congrArg List.length he) (Nat.ne_of_lt (Nat.lt_succ_self _))
      have ha := (hiff _).mp ((archives_iff _ _).mpr ⟨hslot, List.cons_ne_nil _ _, hnew⟩)
      exact ha.1 hp
    · -- the JA4 that the slot names comes back, and the profile's is not archived
      have ha := (hiff (oldSlot (lab.profiles t.id)).ja4).mpr ⟨hp, hslot, fun he => hne he.symm⟩
      exact ((archives_iff _ _).mp ha).2.2 rfl
  · intro h ws probe
    exact judgedTurn_of_slotCurrent lab _ fun _ => h

/-! ## runs -/

/-- **The archive judges what is replaced** in every run whose snapshots have current slots; and in
any state reached, every next capture of a target is judged right exactly when its slot is. -/
theorem archive_judged {lab lab' : LabRoot} {as : List Action} (h : exec step lab as = some lab') :
    (Along step SlotCurrent lab as → Along step JudgedTurn lab as) ∧
    ∀ t, t.track = trackLatest →
      ((∀ ws probe, JudgedTurn lab' (.attempt t ws (some probe))) ↔
        (lab'.profiles t.id).hello = none ∨ Agrees (lab'.profiles t.id)) := by
  refine ⟨fun hcur => ?_, fun t ht => judged_always_iff lab' t ht⟩
  exact along_of_inv step SlotCurrent JudgedTurn (fun _ => True) (fun _ _ _ _ _ _ => trivial)
    (fun lab a ha _ => judgedTurn_of_slotCurrent lab a ha) hcur trivial

/-! ## when slots stay current -/

def Action.writes : Action → List Write
  | .attempt _ ws _ => ws
  | .direct ws => ws

/-- `labctl` writes the slot of the directory at the end of the turn -/
def Records (lab : LabRoot) (id : Bytes) : Action → Prop
  | .attempt t ws (some _) => t.id = id ∧ ((served lab ws).profiles id).hello ≠ none
  | _ => False

/-- Where the server changes a JA4 that a slot names, `labctl` writes the slot. -/
def Noticed (lab : LabRoot) (a : Action) : Prop :=
  ∀ id, Records lab id a ∨ (∀ s ∈ (lab.profiles id).slot, s.ja4 = []) ∨
    ((served lab a.writes).profiles id).profileJA4 = (lab.profiles id).profileJA4

theorem agrees_served {lab : LabRoot} {ws : List Write} {id : Bytes}
    (h : (∀ s ∈ (lab.profiles id).slot, s.ja4 = []) ∨
      ((served lab ws).profiles id).profileJA4 = (lab.profiles id).profileJA4)
    (hag : Agrees (lab.profiles id)) : Agrees ((served lab ws).profiles id) := by
  intro s hs
  rw [served_slot] at hs
  rcases h with h | h
  · exact .inl (h s hs)
  · rw [h]
    exact hag s hs

/-- the tree with a snapshot copied to `dst` -/
def withCopy (profiles : Tree) (dst : Bytes) (before : Dir) : Tree :=
  Function.update profiles dst (copySnapshot (profiles dst) before dst (oldSlot before))

/-- What `maybeArchiveAfterCapture` does to the tree. -/
inductive MaybeArchived (lab : LabRoot) (t : Target) (before : Option Dir) (profiles : Tree) : Prop where
  | unchanged (h : profiles = lab.profiles)
  | slotOnly (s : Slot)
      (h : profiles = Function.update lab.profiles t.id (writeSlot (lab.profiles t.id) s))
  | copied (b : Dir) (dst : Bytes) (s : Slot) (hb : before = some b) (ht : t.track = trackLatest)
      (ha : Archives b (lab.profiles t.id).profileJA4)
      (hdst : archiveDst lab.profiles (archivePrefix t (oldSlot b)) (oldSlot b) = (dst, true))
      (h : profiles = Function.update (withCopy lab.profiles dst b) t.id
        (writeSlot (withCopy lab.profiles dst b t.id) s))

theorem maybeArchived (lab : LabRoot) (t : Target) (before : Option Dir) :
    MaybeArchived lab t before (maybeArchiveAfterCapture lab t before).profiles := by
  cases before with
  | none => exact .unchanged rfl
  | some b =>
    by_cases ht : t.track = trackLatest
    · by_cases ha : Archives b (lab.profiles t.id).profileJA4
      · rw [maybeArchive_archives lab t b ht ha]
        by_cases hcopy : (archiveDst lab.profiles (archivePrefix t (oldSlot b)) (oldSlot b)).2 = true
        · obtain ⟨s, tree, htree, he⟩ := archiveSnapshot_copied lab t b _ _ hcopy
          rw [htree] at he
          exact .copied b _ s rfl ht ha (Prod.ext rfl hcopy) he
        · obtain ⟨s, he⟩ := archiveSnapshot_skipped lab t b _ _ hcopy
          exact .slotOnly s he
      · obtain ⟨s, he⟩ := maybeArchive_kept lab t b ht ha
        exact .slotOnly s (congrArg LabRoot.profiles he)
    · refine .unchanged (congrArg LabRoot.profiles ?_)
      unfold maybeArchiveAfterCapture
      dsimp only
      rw [if_pos ht]

/-- the archive writes no slot that disagrees -/
theorem maybeArchive_agrees {lab : LabRoot} {t : Target} {before : Option Dir} {id : Bytes}
    (hb : ∀ b ∈ before, Agrees b) (hid : id ≠ t.id) (hag : Agrees (lab.profiles id)) :
    Agrees ((maybeArchiveAfterCapture lab t before).profiles id) := by
  cases maybeArchived lab t before with
  | unchanged h =>
    rw [h]
    exact hag
  | slotOnly s h =>
    rw [h, Function.update_of_ne hid]
    exact hag
  | copied b dst s hbefore ht ha hdst h =>
    by_cases he : id = dst
    · have hj := (judged_of_agrees lab t b ht (hb b hbefore)).tagged ha dst hdst
      rw [he, hbefore]
      exact hj.agrees
    · rw [h, Function.update_of_ne hid, withCopy, Function.update_of_ne he]
      exact hag

/-- the archive leaves a hello in the target's directory -/
theorem maybeArchive_hello {lab : LabRoot} {t : Target} {before : Option Dir}
    (hh : (lab.profiles t.id).hello ≠ none) :
    ((maybeArchiveAfterCapture lab t before).profiles t.id).hello ≠ none := by
  cases maybeArchived lab t before with
  | unchanged h =>
    rw [h]
    exact hh
  | slotOnly s h =>
    rw [h, Function.update_self]
    exact hh
  | copied b dst s hbefore ht ha hdst h =>
    rw [h, Function.update_self]
    show (withCopy lab.profiles dst b t.id).hello ≠ none
    unfold withCopy
    by_cases he : t.id = dst
    · rw [← he, Function.update_self]
      show (b.hello <|> (lab.profiles t.id).hello) ≠ none
      cases b.hello with
      | none => exact hh
      | some x => exact Option.some_ne_none x
    · rw [Function.update_of_ne he]
      exact hh

/-- a turn that meets no hello, and brings none -/
theorem captureAttempt_without {lab : LabRoot} {t : Target} {ws : List Write}
    (hh : ((served lab ws).profiles t.id).hello = none) (probe : Bytes × Int) :
    captureAttempt lab t ws (some probe) = served lab ws := by
  have hnone : (lab.profiles t.id).hello = none := by
    rw [served_hello, Option.or_eq_none_iff] at hh
    exact hh.2
  unfold captureAttempt snapshotProfile
  rw [if_pos hnone]
  show updateSlotAfterCapture (served lab ws) t probe = _
  unfold updateSlotAfterCapture
  rw [if_pos hh]

/-- The step lemma for agreement. -/
theorem agrees_step (lab : LabRoot) (a : Action) (lab' : LabRoot) (hn : Noticed lab a)
    (h : step lab a = some lab') (hag : ∀ id, Agrees (lab.profiles id)) (id : Bytes) :
    Agrees (lab'.profiles id) := by
  rcases a with ⟨t, ws, _ | probe⟩ | ws
  · rw [← Option.some.inj h]
    exact agrees_served ((hn id).resolve_left (fun hf => hf)) (hag id)
  · rw [← Option.some.inj h]
    have hserved : ¬ Records lab id (.attempt t ws (some probe)) →
        Agrees ((served lab ws).profiles id) :=
      fun hr => agrees_served ((hn id).resolve_left hr) (hag id)
    have hsnap : ∀ b ∈ snapshotProfile (lab.profiles t.id), Agrees b := by
      intro b hb
      rw [(snapshotProfile_some hb).1]
      exact hag t.id
    by_cases hid : id = t.id
    · by_cases hh : ((served lab ws).profiles t.id).hello = none
      · rw [captureAttempt_without hh]
        exact hserved fun hr => hr.2 (by rw [hid]; exact hh)
      · obtain ⟨s, hs, he⟩ := updateSlot_spec (maybeArchiveAfterCapture (served lab ws) t
          (snapshotProfile (lab.profiles t.id))) t probe (maybeArchive_hello hh)
        show Agrees ((updateSlotAfterCapture _ t probe).profiles id)
        rw [he, hid, setDir_profiles, Function.update_self]
        exact agrees_writeSlot hs
    · show Agrees ((updateSlotAfterCapture _ t probe).profiles id)
      rw [updateSlot_of_ne _ t probe hid]
      exact maybeArchive_agrees hsnap hid (hserved fun hr => hid hr.1.symm)
  · rw [← Option.some.inj h]
    exact agrees_served ((hn id).resolve_left (fun hf => hf)) (hag id)

/-- Slots stay current in a run in which `labctl` notices every change. -/
theorem slotCurrent_of_noticed {lab : LabRoot} {as : List Action} (hn : Along step Noticed lab as)
    (hag : ∀ id, Agrees (lab.profiles id)) : Along step SlotCurrent lab as := by
  refine along_of_inv step Noticed SlotCurrent (fun lab => ∀ id, Agrees (lab.profiles id)) ?_ ?_ hn hag
  · exact fun lab a lab' hn h hag => agrees_step lab a lab' hn h hag
  · intro lab a _ hag
    rcases a with ⟨t, ws, _ | probe⟩ | ws
    · exact trivial
    · exact fun _ => .inr (hag t.id)
    · exact trivial

/-! ## a client of its own accord -/

/-- After the capture that `braveLab` is, another hello of the target comes without `labctl`. -/
def driftedRun : List Action :=
  [.attempt brave (promoted firstBrave) (some (str "1.60", 120)), .direct (promoted secondBrave)]

def againFirst : Action := .attempt brave (promoted firstBrave) (some (str "1.60", 120))

/-- **Misjudged**: the next capture has the JA4 that the slot still names, so the other one is gone. -/
theorem archive_misjudged : ∃ lab, exec step emptyLab driftedRun = some lab ∧
    ¬ JudgedTurn lab againFirst := by
  refine ⟨_, rfl, fun h => ?_⟩
  have hj := (h rfl _ rfl).archives
  revert hj
  decide +kernel

/-- with the client's own turns only, the second JA4 replaces the first one -/
def noticedRun : List Action :=
  [.attempt brave (promoted firstBrave) (some (str "1.60", 120)),
    .attempt brave (promoted secondBrave) (some (str "1.61", 121))]

theorem noticedRun_judged : Along step JudgedTurn emptyLab noticedRun := by
  refine (@archive_judged emptyLab _ noticedRun rfl).1 ⟨fun _ => .inl rfl, ?_⟩
  refine ⟨fun _ => .inr ?_, trivial⟩
  decide +kernel

end Labctl
