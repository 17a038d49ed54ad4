import FingerprintLab.Base.Numeral
import FingerprintLab.Labctl.Register
import FingerprintLab.Labctl.Truthful
import FingerprintLab.Labctl.Versions
import Mathlib.Data.List.TakeWhile

/-!
# Slots and versions

`slot.json` records the version of the software behind a capture twice, as a text and as its major,
and the name of an archive is made of the major.  The text comes from the output of the client's
`--version`, from the pin of the target, or from the snapshot.

* `probeSoftwareVersion`   the output, read from its last line up;
* `Paired`                 the major is that of the text, where there is one;
* `Sourced`                a turn whose version has one source;
* `slots_step`             such a turn keeps every slot coherent, whatever becomes of it;
* `slots_coherent`         so does a run, and its archives are named after the version they record.
-/

set_option linter.unusedVariables false

namespace Labctl
open Go Lab Runs

/-! ## the probe -/

/-- `strings.Fields`, over the bytes of the runes; `cur` has been read of the field -/
def fieldsFrom (cur : Bytes) : List Bytes → List Bytes
  | [] => if cur = [] then [] else [cur]
  | c :: cs =>
    if isSpace (decodeRune c).1 then
      if cur = [] then fieldsFrom [] cs else cur :: fieldsFrom [] cs
    else fieldsFrom (cur ++ c) cs

def fields (s : Bytes) : List Bytes := fieldsFrom [] (runeBytesFuel s.length s)

/-- one line: the first field with a dot and a major, or else the line -/
def lineVersion (line : Bytes) : Option (Bytes × Int) :=
  let l := trimSpace line
  if l = [] then none
  else
    match (fields l).find? fun f => decide (0x2e ∈ f) && decide (0 < parseMajor f) with
    | some f => some (f, parseMajor f)
    | none => if 0 < parseMajor l then some (l, parseMajor l) else none

/-- the command that prints the version of a client; there is none for the others -/
def probeArgs (service : Bytes) (t : Target) : Option (List Bytes) :=
  let svc := if service = [] then t.id else service
  let run := fun entrypoint =>
    [str "run", str "--rm", str "--no-deps", str "--entrypoint", entrypoint, svc]
  if t.id = str "chrome-linux" then some (run (str "google-chrome") ++ [str "--version"])
  else if t.id = str "brave" then some (run (str "brave-browser") ++ [str "--version"])
  else if t.id = str "firefox-release" then
    some (run (str "bash") ++ [str "-lc", str "firefox-esr --version 2>/dev/null || true"])
  else none

/-- `compose` is the combined output of a command, or nothing when it fails -/
def probeSoftwareVersion (compose : List Bytes → Option Bytes) (service : Bytes) (t : Target) :
    Bytes × Int :=
  match (probeArgs service t).bind compose with
  | none => ([], 0)
  | some out => (((trimSpace out).splitOn 0x0a).reverse.findSome? lineVersion).getD ([], 0)

example : probeSoftwareVersion (fun _ => some (str "Pulling\n Google Chrome 151.0.7922.75 \nv0\n")) []
    { id := str "chrome-linux", group := [], kind := [], status := [], utlsReady := true, family := [] }
      = (str "151.0.7922.75", 151) := by
  decide +kernel

/-! ## majors -/

theorem parseMajor_range (v : Bytes) : 0 ≤ parseMajor v ∧ parseMajor v < 2 ^ 63 := by
  unfold parseMajor
  dsimp only
  omega

theorem isDigit_decimal (n : Nat) : ∀ b ∈ decimal n, isDigit b = true := by
  intro b hb
  obtain ⟨hlo, hhi⟩ := decimal_digit n b hb
  unfold isDigit
  rw [Bool.and_eq_true, decide_eq_true_eq, decide_eq_true_eq, UInt8.le_iff_toNat_le,
    UInt8.le_iff_toNat_le]
  exact ⟨hlo, hhi⟩

/-- a pin that is a number -/
theorem parseMajor_decInt {n : Int} (h0 : 0 ≤ n) (h : n < 2 ^ 63) : parseMajor (decInt n) = n := by
  obtain ⟨k, rfl⟩ := Int.eq_ofNat_of_zero_le h0
  have hdig := isDigit_decimal k
  have hspace : ∀ r, r < 58 → 48 ≤ r → isSpace r = false := by decide
  have htrim : trimSpace (decimal k) = decimal k := by
    refine trimRunes_ascii isSpace _ (fun b hb => ?_) fun b hb => ?_
    · have hd := decimal_digit k b hb
      omega
    · obtain ⟨hlo, hhi⟩ := decimal_digit k b hb
      exact hspace _ (by omega) hlo
  have hdrop : (decimal k).dropWhile (fun b => !isDigit b) = decimal k := by
    cases hk : decimal k with
    | nil => rfl
    | cons b bs =>
      rw [List.dropWhile_cons_of_neg]
      rw [hdig b (by rw [hk]; exact List.mem_cons_self)]
      simp
  have htake : (decimal k).takeWhile isDigit = decimal k := List.takeWhile_eq_self_iff.mpr hdig
  show parseMajor (decimal k) = _
  unfold parseMajor
  rw [htrim, hdrop, htake]
  have hval := decValue_decimal k
  unfold decValue at hval
  dsimp only
  rw [hval]
  have hk : (k : Int) < 2 ^ 63 := h
  show min (k : Int) (2 ^ 63 - 1) = k
  omega

/-- the major is that of the text, where there is one -/
def Paired (v : Bytes × Int) : Prop := v.1 = [] ∨ v.2 = parseMajor v.1

theorem lineVersion_major {line : Bytes} {v : Bytes × Int} (h : lineVersion line = some v) :
    v.2 = parseMajor v.1 := by
  unfold lineVersion at h
  dsimp only at h
  split at h
  · cases h
  split at h
  · rw [← Option.some.inj h]
  · split at h
    · rw [← Option.some.inj h]
    · cases h

/-- whatever the command prints -/
theorem probe_paired (compose : List Bytes → Option Bytes) (service : Bytes) (t : Target) :
    Paired (probeSoftwareVersion compose service t) := by
  unfold probeSoftwareVersion
  split
  · exact .inl rfl
  · rename_i out _
    cases hf : ((trimSpace out).splitOn 0x0a).reverse.findSome? lineVersion with
    | none => exact .inl rfl
    | some v =>
      obtain ⟨l, -, hl⟩ := List.exists_of_findSome?_eq_some hf
      exact .inr (lineVersion_major hl)

/-! ## directories -/

/-- The slot's version is paired, and `meta.json` has none to fall back on. -/
structure Slotted (d : Dir) : Prop where
  noVersion : ∀ m, Doc.read? d.metaDoc = some m → NoVersion m
  paired : Paired (slotVersion (d.slot.getD {}))

section
variable {d : Dir}

/-- `readSlot` completes the major, and does not change the text -/
theorem Slotted.readSlot (h : Slotted d) : Paired (slotVersion (readSlot d)) ∧
    (readSlot d).softwareVersion = (d.slot.getD {}).softwareVersion := by
  have hp := h.paired
  have hja4 := ite_ja4_version (d.slot.getD {}) d.profileJA4 ((d.slot.getD {}).ja4 = [])
  unfold Labctl.readSlot
  dsimp only
  generalize (if (d.slot.getD {}).ja4 = [] then
    { d.slot.getD {} with ja4 := d.profileJA4 } else d.slot.getD {}) = s at hja4 ⊢
  have htext : s.softwareVersion = (d.slot.getD {}).softwareVersion := congrArg Prod.fst hja4
  rw [← hja4] at hp
  by_cases h0 : s.softwareMajor = 0
  · rw [if_pos h0]
    cases hm : Doc.read? d.metaDoc with
    | none => exact ⟨hp, htext⟩
    | some m =>
      obtain ⟨hmajor, hsv, hrv⟩ := h.noVersion m hm
      by_cases hs : s.softwareVersion = []
      · simp only [hmajor, hsv, hrv, hs, if_true, parseMajor_nil]
        exact ⟨.inl rfl, by rw [← htext, hs]⟩
      · simp only [hmajor, hs, if_true, if_false]
        exact ⟨.inr rfl, htext⟩
  · rw [if_neg h0]
    exact ⟨hp, htext⟩

theorem Slotted.oldSlot (h : Slotted d) : Paired (slotVersion (oldSlot d)) := by
  rw [oldSlot_version]
  exact h.readSlot.1

theorem Slotted.writeSlot (h : Slotted d) {s : Slot} (hs : Paired (slotVersion s)) :
    Slotted (writeSlot d s) := ⟨h.noVersion, hs⟩

theorem Slotted.copySnapshot (h : Slotted d) {dst : Dir} (hd : Slotted dst) (archID : Bytes) :
    Slotted (copySnapshot dst d archID (Labctl.oldSlot d)) where
  noVersion m hm := by
    have hm : Doc.read? (d.metaDoc <|> dst.metaDoc) = some m := hm
    cases hmeta : d.metaDoc with
    | none =>
      rw [hmeta] at hm
      exact hd.noVersion m hm
    | some x =>
      rw [hmeta] at hm
      exact h.noVersion m (by rw [hmeta]; exact hm)
  paired := h.oldSlot

end

/-! ## a turn -/

/-- whatever part of its writes the server has made -/
def FromServer (fl : Capture.Flags) (ws : List Write) : Prop :=
  ∀ w ∈ ws, ∃ c p, Capture.handle fl c = some p ∧ w ∈ p.writes

/-- The answer is one of the probe.  A target that has a number only is captured where no other
version is recorded. -/
structure SourcedTurn (lab : LabRoot) (t : Target) (probe : Bytes × Int) : Prop where
  probed : ∃ compose service, probe = probeSoftwareVersion compose service t
  numbered : t.track ≠ trackLatest → t.pin = [] → 0 < t.version → t.version < versionLatest →
    Paired (((lab.profiles t.id).slot.getD {}).softwareVersion, t.version)

def Sourced (fl : Capture.Flags) (lab : LabRoot) : Action → Prop
  | .attempt t ws res => FromServer fl ws ∧ ∀ probe ∈ res, SourcedTurn lab t probe
  | .direct ws => FromServer fl ws

def LabSlotted (lab : LabRoot) : Prop := ∀ id, Slotted (lab.profiles id)

theorem importable_noVersion {targetID dir hello : Bytes} {m : Capture.Meta}
    {p : Capture.Promotion} (h : Capture.writeImportableProfile targetID dir hello m = some p) :
    NoVersion p.metaDoc := by
  unfold Capture.writeImportableProfile at h
  dsimp only at h
  split at h
  · cases h
  · rw [← Option.some.inj h]
    exact ⟨rfl, rfl, rfl⟩

theorem handle_noVersion {fl : Capture.Flags} {c : Capture.Conn} {p : Capture.Promotion}
    (h : Capture.handle fl c = some p) : NoVersion p.metaDoc := by
  unfold Capture.handle at h
  obtain ⟨m, -, h⟩ := Option.bind_eq_some_iff.mp h
  exact importable_noVersion h

section
variable {fl : Capture.Flags} {lab : LabRoot} {t : Target}

theorem slotted_served {ws : List Write} (hw : FromServer fl ws) (h : LabSlotted lab) :
    LabSlotted (served lab ws) := by
  refine Tree.forall_foldl_apply (P := fun _ d => Slotted d) h fun w hmem d hd => ?_
  obtain ⟨c, p, hp, hpart⟩ := hw w hmem
  simp only [Capture.Promotion.writes, List.mem_cons, List.not_mem_nil, or_false] at hpart
  obtain rfl | rfl | rfl | rfl := hpart
  · exact ⟨hd.noVersion, hd.paired⟩
  · refine ⟨fun m hm => ?_, hd.paired⟩
    rw [← Option.some.inj hm]
    exact handle_noVersion hp
  · exact ⟨hd.noVersion, hd.paired⟩
  · exact ⟨hd.noVersion, hd.paired⟩

theorem slotted_setDir {id : Bytes} {d : Dir} (h : LabSlotted lab) (hd : Slotted d) :
    LabSlotted (lab.setDir id d) := by
  unfold LabSlotted
  rw [setDir_profiles]
  exact Tree.forall_update (P := fun _ d => Slotted d) h hd

/-- the archive hands the version of the snapshot on -/
theorem slotted_archive {before : Option Dir} (hb : ∀ b ∈ before, Slotted b) (h : LabSlotted lab) :
    LabSlotted (maybeArchiveAfterCapture lab t before) := by
  cases before with
  | none => exact h
  | some b =>
    have hb := hb b rfl
    unfold maybeArchiveAfterCapture
    dsimp only
    by_cases ht : t.track = trackLatest
    · rw [if_neg (not_not.mpr ht)]
      split
      · refine slotted_setDir h ((h t.id).writeSlot ?_)
        split
        · exact hb.oldSlot
        · exact (h t.id).readSlot.1
      · unfold archiveSnapshot
        dsimp only
        have hcopied : LabSlotted
            (if (archiveDst lab.profiles (archivePrefix t (oldSlot b)) (oldSlot b)).2 = true then
              lab.setDir (archiveDst lab.profiles (archivePrefix t (oldSlot b)) (oldSlot b)).1
                (copySnapshot (lab.profiles
                    (archiveDst lab.profiles (archivePrefix t (oldSlot b)) (oldSlot b)).1) b
                  (archiveDst lab.profiles (archivePrefix t (oldSlot b)) (oldSlot b)).1 (oldSlot b))
            else lab) := by
          split
          · exact slotted_setDir h (hb.copySnapshot (h _) _)
          · exact h
        generalize (if (archiveDst lab.profiles (archivePrefix t (oldSlot b)) (oldSlot b)).2 = true
          then lab.setDir _ _ else lab) = lab₁ at hcopied ⊢
        have hreg : LabSlotted (ensureArchiveTarget lab₁ t
            (archiveDst lab.profiles (archivePrefix t (oldSlot b)) (oldSlot b)).1 (oldSlot b)) := by
          intro id
          rw [ensureArchiveTarget_profiles]
          exact hcopied id
        exact slotted_setDir hreg ((hreg t.id).writeSlot (hreg t.id).readSlot.1)
    · rw [if_pos ht]
      exact h

theorem slotted_updateSlot {probe : Bytes × Int} (hs : SourcedTurn lab t probe) (h : LabSlotted lab) :
    LabSlotted (updateSlotAfterCapture lab t probe) := by
  obtain ⟨hpaired, htext⟩ := (h t.id).readSlot
  obtain ⟨compose, service, hprobe⟩ := hs.probed
  unfold updateSlotAfterCapture
  dsimp only
  split
  · exact h
  refine slotted_setDir h ((h t.id).writeSlot ?_)
  split
  · split
    · have hp := probe_paired compose service t
      rw [← hprobe] at hp
      exact hp
    · exact hpaired
  · rename_i ht
    split
    · exact .inr rfl
    · rename_i hpin
      split
      · rename_i hv
        have hn := hs.numbered ht (not_not.mp hpin) hv.1 hv.2
        rw [← htext] at hn
        exact hn
      · exact hpaired

/-- The step lemma. -/
theorem slots_step (lab : LabRoot) (a : Action) (lab' : LabRoot) (hs : Sourced fl lab a)
    (hstep : step lab a = some lab') (h : LabSlotted lab) : LabSlotted lab' := by
  rcases a with ⟨t, ws, _ | probe⟩ | ws
  · rw [← Option.some.inj hstep]
    exact slotted_served hs.1 h
  · obtain ⟨hw, hturn⟩ := hs
    have hserved := slotted_served hw h
    have hturn := hturn probe rfl
    have hkept : SourcedTurn (maybeArchiveAfterCapture (served lab ws) t
        (snapshotProfile (lab.profiles t.id))) t probe := by
      refine ⟨hturn.probed, fun ht hpin h0 hv => ?_⟩
      -- a pinned target is not archived, and the server writes no slot
      have hpinned : maybeArchiveAfterCapture (served lab ws) t
          (snapshotProfile (lab.profiles t.id)) = served lab ws := by
        unfold maybeArchiveAfterCapture
        split
        · rfl
        · rw [if_pos ht]
      rw [hpinned, served_slot]
      exact hturn.numbered ht hpin h0 hv
    rw [← Option.some.inj hstep]
    refine slotted_updateSlot hkept (slotted_archive (fun b hb => ?_) hserved)
    obtain ⟨rfl, -⟩ := snapshotProfile_some hb
    exact h t.id
  · rw [← Option.some.inj hstep]
    exact slotted_served hs h

end

/-! ## archives -/

/-- The id of the archive and its row go by the major of the version text, and so does every later
capture of that row.  The loop skips a wishlist, so the row has been given another kind by then. -/
structure NamedByVersion (c : ArchiveCall) : Prop where
  name : archivePrefix c.latest c.old =
    versionedID c.latest (c.old.softwareVersion, parseMajor c.old.softwareVersion) c.old.ja4
  row : c.row.version = if parseMajor c.old.softwareVersion = 0 then 1
    else parseMajor c.old.softwareVersion
  recaptured : ∀ kind, kind ≠ str "wishlist" → kind ≠ str "skip" →
    ∀ lab ws probe, ((served lab ws).profiles c.id).hello ≠ none →
      slotVersion (((captureAttempt lab { c.row with kind := kind } ws (some probe)).profiles
        c.id).slot.getD {}) = (c.row.pin, c.row.version)

theorem named_of_paired {c : ArchiveCall} (hp : Paired (slotVersion c.old))
    (hne : c.old.softwareVersion ≠ []) : NamedByVersion c := by
  have hv : c.old.softwareMajor = parseMajor c.old.softwareVersion := hp.resolve_left hne
  have hmajor : (if c.old.softwareMajor = 0 then parseMajor c.old.softwareVersion
      else c.old.softwareMajor) = parseMajor c.old.softwareVersion := by
    rw [hv, ite_self]
  have hversion : c.row.version = if parseMajor c.old.softwareVersion = 0 then 1
      else parseMajor c.old.softwareVersion := by
    unfold ArchiveCall.row
    dsimp only
    rw [hmajor]
  have hpin : c.row.pin = decInt c.row.version := rfl
  refine ⟨?_, hversion, fun kind _ _ lab ws probe hh => ?_⟩
  · unfold archivePrefix versionedID
    dsimp only
    rw [hmajor]
  · obtain ⟨h0, hlt⟩ := parseMajor_range c.old.softwareVersion
    have hback : parseMajor c.row.pin = c.row.version := by
      rw [hpin]
      refine parseMajor_decInt ?_ ?_ <;> rw [hversion] <;> split <;> omega
    have hsome : c.row.pin ≠ [] := by
      obtain ⟨b, hb, -⟩ := keyByte_decInt c.row.version
      exact List.ne_nil_of_mem hb
    have htrack : c.row.track ≠ trackLatest := by
      show trackPinned ≠ trackLatest
      decide
    have hid : ({ c.row with kind := kind } : Target).id = c.id := row_id c
    have hkept : maybeArchiveAfterCapture (served lab ws) { c.row with kind := kind }
        (snapshotProfile (lab.profiles c.row.id)) = served lab ws := by
      unfold maybeArchiveAfterCapture
      split
      · rfl
      · rw [if_pos htrack]
    unfold captureAttempt
    dsimp only
    rw [hkept]
    unfold updateSlotAfterCapture
    dsimp only
    rw [hid, if_neg hh, if_neg htrack, if_pos hsome, setDir_profiles, Function.update_self,
      hback]
    rfl

/-- **Slots are coherent** after every run, of turns that fail or not and of direct clients, however
their writes interleave: the major in a slot is that of its version text, and an archive of any
directory is named after it, gets it in its row, and keeps it when that row is captured one day. -/
theorem slots_coherent {fl : Capture.Flags} {lab lab' : LabRoot} {as : List Action}
    (hrun : exec step lab as = some lab') (hs : Along step (Sourced fl) lab as)
    (h : LabSlotted lab) :
    LabSlotted lab' ∧
    ∀ (id : Bytes) (c : ArchiveCall), c.old = oldSlot (lab'.profiles id) →
      c.old.softwareVersion ≠ [] → NamedByVersion c := by
  have hslots := exec_inv step (Sourced fl) LabSlotted slots_step hs hrun h
  refine ⟨hslots, fun id c hc hne => named_of_paired ?_ hne⟩
  rw [hc]
  exact (hslots id).oldSlot

/-! ## two versions of one client -/

def brave151 : Bytes × Int := (str "151.1.93.132", 151)
def brave152 : Bytes × Int := (str "152.0.95.1", 152)

/-- The second capture has another JA4, and the first one is archived. -/
def upgradeRun : List Action :=
  [.attempt brave (promoted firstBrave) (some brave151),
    .attempt brave (promoted secondBrave) (some brave152)]

theorem promoted_fromServer (c : Capture.Conn) : FromServer Capture.defaultFlags (promoted c) := by
  intro w hw
  unfold promoted at hw
  cases h : Capture.handle Capture.defaultFlags c with
  | none =>
    rw [h] at hw
    exact absurd hw List.not_mem_nil
  | some p =>
    rw [h] at hw
    exact ⟨c, p, h, hw⟩

theorem sourced_brave (lab : LabRoot) {probe : Bytes × Int} (out : Bytes)
    (h : probe = probeSoftwareVersion (fun _ => some out) [] brave) : SourcedTurn lab brave probe :=
  ⟨⟨_, _, h⟩, fun ht => absurd rfl ht⟩

theorem upgradeRun_sourced : Along step (Sourced Capture.defaultFlags) emptyLab upgradeRun := by
  refine ⟨⟨promoted_fromServer firstBrave, fun probe hp => ?_⟩,
    ⟨promoted_fromServer secondBrave, fun probe hp => ?_⟩, trivial⟩
  · rw [← Option.some.inj hp]
    exact sourced_brave _ (str "Brave Browser 151.1.93.132 \n") (by decide +kernel)
  · rw [← Option.some.inj hp]
    exact sourced_brave _ (str "Brave Browser 152.0.95.1 \n") (by decide +kernel)

theorem emptyLab_slotted : LabSlotted emptyLab := fun id =>
  ⟨fun m hm => (by cases hm), .inl rfl⟩

/-- The next archive of the directory is named after version 152. -/
theorem slots_coherent_brave : ∃ lab, exec step emptyLab upgradeRun = some lab ∧
    ∀ c : ArchiveCall, c.old = oldSlot (lab.profiles brave.id) → NamedByVersion c := by
  obtain ⟨lab, hlab⟩ : ∃ lab, exec step emptyLab upgradeRun = some lab := ⟨_, rfl⟩
  refine ⟨lab, hlab, fun c hc => ?_⟩
  have hnamed := (slots_coherent hlab upgradeRun_sourced emptyLab_slotted).2
  refine hnamed brave.id c hc ?_
  rw [hc, ← Option.some.inj hlab]
  decide +kernel

end Labctl
