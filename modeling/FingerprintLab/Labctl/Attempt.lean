import FingerprintLab.Labctl.ArchiveRun
import FingerprintLab.Capture.Promote

/-!
# Captures that fail

The capture server and `labctl` write the same directories.  The server promotes a hello as soon as
it is read, whether or not the client then succeeds; `labctl` keeps a snapshot of the directory only
while its own capture runs, and drops it when the capture fails.

* `served`             the tree after writes of the server, file by file by `lastWrite`;
* `captureAttempt`     a turn of the capture loop, whether it fails or not;
* `LosesNothing`       the hello that was there is there, and the next turn replaces it;
* `Spared`             what the server may have done meanwhile;
* `failed_capture_loses_nothing_iff`   the one holds exactly with the other;
* `failed_capture_loses`               a container that fails after its hello was read.
-/

set_option linter.unusedVariables false

namespace Labctl
open Go Lab

/-! ## what the server writes -/

def served (lab : LabRoot) (ws : List Write) : LabRoot :=
  { lab with profiles := ws.foldl Tree.apply lab.profiles }

/-- the last value that the writes give to one file of a directory -/
def lastWrite {α : Type} (file : FileWrite → Option α) (id : Bytes) : List Write → Option α
  | [] => none
  | w :: ws => (lastWrite file id ws).or (if w.id = id then file w.file else none)

def helloFile : FileWrite → Option Bytes
  | .hello b => some b
  | _ => none

def profileFile : FileWrite → Option (Doc ProfileDoc)
  | .profile p => some (.good p)
  | _ => none

theorem foldl_lastWrite {α : Type} (file : FileWrite → Option α) (get : Dir → Option α)
    (hget : ∀ d w, get (d.write w) = (file w).or (get d)) (id : Bytes) (ws : List Write) (t : Tree) :
    get (ws.foldl Tree.apply t id) = (lastWrite file id ws).or (get (t id)) := by
  induction ws generalizing t with
  | nil => rfl
  | cons w ws ih =>
    rw [List.foldl_cons, ih, lastWrite, Option.or_assoc]
    congr 1
    by_cases hid : w.id = id
    · rw [if_pos hid, ← hid, Tree.apply_self, hget]
    · rw [if_neg hid, Tree.apply_of_ne _ _ _ fun h => hid h.symm, Option.none_or]

theorem served_hello (lab : LabRoot) (ws : List Write) (id : Bytes) :
    ((served lab ws).profiles id).hello
      = (lastWrite helloFile id ws).or (lab.profiles id).hello := by
  refine foldl_lastWrite helloFile Dir.hello ?_ id ws lab.profiles
  intro d w
  cases w <;> rfl

theorem served_profile (lab : LabRoot) (ws : List Write) (id : Bytes) :
    ((served lab ws).profiles id).profile
      = (lastWrite profileFile id ws).or (lab.profiles id).profile := by
  refine foldl_lastWrite profileFile Dir.profile ?_ id ws lab.profiles
  intro d w
  cases w <;> rfl

theorem lastWrite_none {α : Type} (id : Bytes) (ws : List Write) :
    lastWrite (fun _ => (none : Option α)) id ws = none := by
  induction ws with
  | nil => rfl
  | cons w ws ih =>
    rw [lastWrite, ih, ite_self]
    rfl

/-- the server never writes a slot -/
@[simp] theorem served_slot (lab : LabRoot) (ws : List Write) (id : Bytes) :
    ((served lab ws).profiles id).slot = (lab.profiles id).slot := by
  have h := foldl_lastWrite (fun _ => none) Dir.slot (fun d w => by cases w <;> rfl) id ws lab.profiles
  rw [lastWrite_none, Option.none_or] at h
  exact h

/-- The tree that the handlers of the server leave is that of the writes they have made. -/
theorem serve_served (fl : Capture.Flags) (conns : List Capture.Conn) (lab : LabRoot)
    (sched : List Nat) :
    ∃ ws, (Capture.serve fl conns lab.profiles sched).store = (served lab ws).profiles ∧
      ∀ w ∈ ws, ∃ p ∈ conns.filterMap (Capture.handle fl), w ∈ p.writes := by
  obtain ⟨ws, hws, hmem⟩ :=
    Interleave.run_store Tree.apply (Capture.Server.start fl conns lab.profiles) sched
  refine ⟨ws, hws, fun w hw => ?_⟩
  obtain ⟨th, hth, hwth⟩ := hmem w hw
  obtain ⟨p, hp, rfl⟩ := List.mem_map.mp hth
  exact ⟨p, hp, hwth⟩

/-! ## a turn of the loop -/

/-- One turn: `ws` is what the server writes before the client's container ends, `res` nothing when
the container fails and the answer of `probeSoftwareVersion` when it does not. -/
def captureAttempt (lab : LabRoot) (t : Target) (ws : List Write) (res : Option (Bytes × Int)) :
    LabRoot :=
  let before := snapshotProfile (lab.profiles t.id)
  let lab := served lab ws
  match res with
  -- `os.RemoveAll(before)`, and the next target
  | none => lab
  | some probe =>
    let lab := maybeArchiveAfterCapture lab t before
    updateSlotAfterCapture lab t probe

/-- a capture that succeeds with one promotion -/
theorem captureAttempt_promotion (lab : LabRoot) (t : Target) (p : Capture.Promotion)
    (probe : Bytes × Int) (hid : p.id = t.id) :
    captureAttempt lab t p.writes (some probe)
      = captureTarget lab t ⟨p.hello, p.profile, p.metaDoc, p.readme⟩ probe := by
  unfold captureAttempt captureTarget
  have hserved : served lab p.writes
      = lab.setDir t.id (Capture.over ⟨p.hello, p.profile, p.metaDoc, p.readme⟩ (lab.profiles t.id)) := by
    unfold served LabRoot.setDir Capture.Promotion.writes
    congr 1
    funext id
    by_cases h : id = t.id
    · rw [h, Function.update_self, ← hid]
      simp only [List.foldl_cons, List.foldl_nil, Tree.apply, Function.update_self]
      rfl
    · rw [Function.update_of_ne h]
      simp only [List.foldl_cons, List.foldl_nil]
      rw [Tree.apply_of_ne, Tree.apply_of_ne, Tree.apply_of_ne, Tree.apply_of_ne] <;>
        exact fun he => h (he.trans hid)
  rw [hserved]

/-! ## a turn that fails -/

/-- The hello with its JA4 is in some directory, and the next turn takes a snapshot of it and judges
it by that JA4. -/
structure LosesNothing (lab : LabRoot) (t : Target) (hello ja4 : Bytes) : Prop where
  present : ∃ id, (lab.profiles id).hello = some hello ∧ (lab.profiles id).profileJA4 = ja4
  previous : ∃ before, snapshotProfile (lab.profiles t.id) = some before ∧
    before.hello = some hello ∧ before.profileJA4 = ja4 ∧ (ja4 ≠ [] → (oldSlot before).ja4 = ja4)

/-- The slot says nothing else than the profile, and the writes leave the hello and the expected JA4
of the directory as they are. -/
structure Spared (d : Dir) (id : Bytes) (ws : List Write) : Prop where
  agrees : d.profileJA4 ≠ [] → Agrees d
  hello : ∀ b ∈ lastWrite helloFile id ws, d.hello = some b
  ja4 : ∀ p ∈ lastWrite profileFile id ws, ({ profile := some p } : Dir).profileJA4 = d.profileJA4

theorem profileJA4_congr {d d' : Dir} (h : d.profile = d'.profile) : d.profileJA4 = d'.profileJA4 := by
  unfold Dir.profileJA4
  rw [h]

theorem served_profileJA4_iff (lab : LabRoot) (ws : List Write) (id : Bytes) :
    ((served lab ws).profiles id).profileJA4 = (lab.profiles id).profileJA4 ↔
      ∀ p ∈ lastWrite profileFile id ws,
        ({ profile := some p } : Dir).profileJA4 = (lab.profiles id).profileJA4 := by
  have hp := served_profile lab ws id
  cases hl : lastWrite profileFile id ws with
  | none =>
    rw [hl, Option.none_or] at hp
    exact iff_of_true (profileJA4_congr hp) fun p h => absurd h (Option.not_mem_none p)
  | some p =>
    rw [hl, Option.some_or] at hp
    rw [profileJA4_congr (show _ = ({ profile := some p } : Dir).profile from hp)]
    constructor
    · intro h q hq
      rw [← Option.some.inj hq]
      exact h
    · exact fun h => h p rfl

theorem oldSlot_ja4 (d : Dir) :
    (oldSlot d).ja4 = if (d.slot.getD {}).ja4 = [] then d.profileJA4 else (d.slot.getD {}).ja4 := by
  have hread := readSlot_ja4 d
  unfold oldSlot
  dsimp only
  by_cases h : (d.slot.getD {}).ja4 = []
  · rw [if_pos h] at hread ⊢
    split_ifs
    · rfl
    · exact hread
  · rw [if_neg h] at hread ⊢
    rw [if_neg (by rw [hread]; exact h)]
    exact hread

theorem agrees_iff (d : Dir) : Agrees d ↔ (oldSlot d).ja4 = d.profileJA4 := by
  refine ⟨fun h => h.oldSlot_ja4, fun h s hs => ?_⟩
  rw [oldSlot_ja4, Option.mem_def.mp hs, Option.getD_some] at h
  by_cases hn : s.ja4 = []
  · exact .inl hn
  · rw [if_neg hn] at h
    exact .inr h

/-- what is found again was spared, -/
theorem spared_of_losesNothing {lab : LabRoot} {t : Target} {ws : List Write} {hello : Bytes}
    (hh : (lab.profiles t.id).hello = some hello)
    (h : LosesNothing (served lab ws) t hello (lab.profiles t.id).profileJA4) :
    Spared (lab.profiles t.id) t.id ws := by
  obtain ⟨-, before, hsnap, hhello, hja4, hold⟩ := h
  unfold snapshotProfile at hsnap
  split at hsnap
  · cases hsnap
  rw [← Option.some.inj hsnap] at hhello hja4 hold
  refine ⟨fun hne => ?_, fun b hb => ?_, (served_profileJA4_iff lab ws t.id).mp hja4⟩
  · have hold := hold hne
    rw [oldSlot_ja4, served_slot, hja4] at hold
    rw [agrees_iff, oldSlot_ja4]
    exact hold
  · rw [served_hello, Option.mem_def.mp hb, Option.some_or] at hhello
    rw [hh]
    exact hhello.symm

/-- and what was spared is found again. -/
theorem losesNothing_of_spared {lab : LabRoot} {t : Target} {ws : List Write} {hello : Bytes}
    (hh : (lab.profiles t.id).hello = some hello) (hs : Spared (lab.profiles t.id) t.id ws) :
    LosesNothing (served lab ws) t hello (lab.profiles t.id).profileJA4 := by
  have hja4 := (served_profileJA4_iff lab ws t.id).mpr hs.ja4
  have hkept : ((served lab ws).profiles t.id).hello = some hello := by
    rw [served_hello, hh]
    cases hl : lastWrite helloFile t.id ws with
    | none => rfl
    | some b =>
      rw [Option.some_or, ← hs.hello b hl, hh]
  refine ⟨⟨t.id, hkept, hja4⟩, _, ?_, hkept, hja4, fun hne => ?_⟩
  · unfold snapshotProfile
    rw [hkept, if_neg (Option.some_ne_none hello)]
  · rw [oldSlot_ja4, served_slot, hja4, ← oldSlot_ja4]
    exact (hs.agrees hne).oldSlot_ja4

/-- **A failed capture** loses nothing exactly when there was nothing, or the server has spared the
directory. -/
theorem failed_capture_loses_nothing_iff (lab : LabRoot) (t : Target) (ws : List Write) :
    (∀ hello, (lab.profiles t.id).hello = some hello →
      LosesNothing (captureAttempt lab t ws none) t hello (lab.profiles t.id).profileJA4) ↔
      (lab.profiles t.id).hello = none ∨ Spared (lab.profiles t.id) t.id ws := by
  have hend : captureAttempt lab t ws none = served lab ws := rfl
  rw [hend]
  cases hh : (lab.profiles t.id).hello with
  | none => exact iff_of_true (fun hello h => nomatch h) (.inl rfl)
  | some old =>
    constructor
    · intro h
      exact .inr (spared_of_losesNothing hh (h old rfl))
    · intro h hello hhello
      rw [← Option.some.inj hhello]
      exact losesNothing_of_spared hh (h.resolve_left (Option.some_ne_none old))

/-! ### a container that fails after its hello is read -/

def brave : Target :=
  { id := str "brave", family := str "brave", kind := str "compose", status := str "active"
    utlsReady := true, version := versionLatest, track := trackLatest, imagePolicy := imagePull }

/-- what the server writes for a connection -/
def promoted (c : Capture.Conn) : List Write :=
  ((Capture.handle Capture.defaultFlags c).map Capture.Promotion.writes).getD []

def firstBrave : Capture.Conn := { rawHello := (Capture.namedHello [0x1301]).record 0x0301 [] }
def secondBrave : Capture.Conn :=
  { rawHello := (Capture.namedHello [0x1301, 0x1302]).record 0x0301 [], seq := 2 }

/-- the lab after a capture of `brave` that succeeds -/
def braveLab : LabRoot := captureAttempt emptyLab brave (promoted firstBrave) (some (str "1.60", 120))

theorem served_of_ne {ws : List Write} {id : Bytes} (h : ∀ w ∈ ws, w.id ≠ id) (lab : LabRoot) :
    (served lab ws).profiles id = lab.profiles id := Tree.foldl_apply_of_ne h lab.profiles

theorem updateSlot_of_ne (lab : LabRoot) (t : Target) (probe : Bytes × Int) {id : Bytes}
    (h : id ≠ t.id) : (updateSlotAfterCapture lab t probe).profiles id = lab.profiles id := by
  by_cases hh : (lab.profiles t.id).hello = none
  · unfold updateSlotAfterCapture
    rw [if_pos hh]
  · obtain ⟨s, -, he⟩ := updateSlot_spec lab t probe hh
    rw [he, setDir_profiles, Function.update_of_ne h]

/-- without a snapshot the turn changes no other directory -/
theorem first_capture_of_ne {lab : LabRoot} {t : Target} {ws : List Write} {id : Bytes}
    (hnone : (lab.profiles t.id).hello = none) (hws : ∀ w ∈ ws, w.id = t.id) (h : id ≠ t.id)
    (probe : Bytes × Int) :
    (captureAttempt lab t ws (some probe)).profiles id = lab.profiles id := by
  unfold captureAttempt snapshotProfile
  rw [if_pos hnone]
  show (updateSlotAfterCapture (served lab ws) t probe).profiles id = _
  rw [updateSlot_of_ne _ t probe h, served_of_ne fun w hw he => h (he.symm.trans (hws w hw))]

/-- **Lost**: the hello of the successful capture is nowhere after the one that fails. -/
theorem failed_capture_loses :
    (braveLab.profiles brave.id).hello = some firstBrave.rawHello ∧
    Agrees (braveLab.profiles brave.id) ∧
    (∀ id, ((captureAttempt braveLab brave (promoted secondBrave) none).profiles id).hello
      ≠ some firstBrave.rawHello) ∧
    ¬ LosesNothing (captureAttempt braveLab brave (promoted secondBrave) none) brave
      firstBrave.rawHello (braveLab.profiles brave.id).profileJA4 := by
  have hlost : ∀ id, ((captureAttempt braveLab brave (promoted secondBrave) none).profiles id).hello
      ≠ some firstBrave.rawHello := by
    intro id
    by_cases hid : id = brave.id
    · rw [hid]
      decide +kernel
    · have hfirst : ∀ w ∈ promoted firstBrave, w.id = brave.id := by decide +kernel
      have hsecond : ∀ w ∈ promoted secondBrave, w.id = brave.id := by decide +kernel
      have hbefore : braveLab.profiles id = {} := first_capture_of_ne rfl hfirst hid _
      show ((served braveLab (promoted secondBrave)).profiles id).hello ≠ _
      rw [served_of_ne fun w hw he => hid (he.symm.trans (hsecond w hw)), hbefore]
      exact (Option.some_ne_none _).symm
  refine ⟨by decide +kernel, by decide +kernel, hlost, fun h => ?_⟩
  obtain ⟨id, hhello, -⟩ := h.present
  exact hlost id hhello

end Labctl
