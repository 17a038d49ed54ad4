import FingerprintLab.Capture.Whole
import FingerprintLab.Labctl.Drift
import FingerprintLab.Labctl.Failure
import FingerprintLab.Labctl.Names

/-!
# A truthful lab

Every run of the lab: turns of the capture loop, failing or not, and clients that come on their own,
with archives in between.  What ends up under `profiles/` was sent by a client, and the documents next
to it say so.

* `Truthful`, `LabTruthful`      an empty directory, or a whole promotion of a hello that was sent;
* `Quiet`                  the server serves the connections of an action to the end, without overlaps;
* `truthful_step`             each action keeps the lab truthful;
* `profiles_truthful`         so does every run;
* `exported_as_captured`   the catalog names the JA4 of the bytes that are exported;
* `truthful_export`        an export of such a lab fails for a missing family only, and before it starts.
-/

set_option linter.unusedVariables false

open Capture (Whole Described rawFormat recordedJA4)

namespace Labctl
open Go Lab Runs

/-! ## truthful directories -/

/-- No hello and no documents, or a hello that was sent with documents that describe it. -/
inductive Truthful (sent : Bytes → Prop) (id : Bytes) (d : Dir) : Prop where
  | empty (hello : d.hello = none) (metaDoc : d.metaDoc = none) (profile : d.profile = none)
  | whole (hello : Bytes) (m : MetaDoc) (p : ProfileDoc) (hsent : sent hello)
      (h : Whole id hello d m p)

def LabTruthful (sent : Bytes → Prop) (lab : LabRoot) : Prop := ∀ id, Truthful sent id (lab.profiles id)

section
variable {sent : Bytes → Prop} {id : Bytes} {d d' : Dir}

/-- the slot and the README do not matter -/
theorem Truthful.congr (hhello : d'.hello = d.hello) (hmeta : d'.metaDoc = d.metaDoc)
    (hprofile : d'.profile = d.profile) (h : Truthful sent id d) : Truthful sent id d' := by
  cases h with
  | empty hh hm hp => exact .empty (hhello.trans hh) (hmeta.trans hm) (hprofile.trans hp)
  | whole hello m p hsent hw =>
    exact .whole hello m p hsent
      ⟨hhello.trans hw.bytes, hmeta.trans hw.metaDoc, hprofile.trans hw.profile, hw.described⟩

theorem Truthful.of_hello (h : Truthful sent id d) (hne : d.hello ≠ none) :
    ∃ hello m p, sent hello ∧ Whole id hello d m p := by
  cases h with
  | empty hh hm hp => exact absurd hh hne
  | whole hello m p hsent hw => exact ⟨hello, m, p, hsent, hw⟩

/-- a snapshot stays whole under the id of the archive -/
theorem Truthful.copySnapshot {before : Dir} (h : Truthful sent id before) (hne : before.hello ≠ none)
    (dst : Dir) (archID : Bytes) (old : Slot) :
    Truthful sent archID (copySnapshot dst before archID old) := by
  obtain ⟨hello, m, p, hsent, hw⟩ := h.of_hello hne
  refine .whole hello m { p with id := archID } hsent ⟨?_, ?_, ?_, ?_⟩
  · show (before.hello <|> dst.hello) = _
    rw [hw.bytes]
    rfl
  · show (before.metaDoc <|> dst.metaDoc) = _
    rw [hw.metaDoc]
    rfl
  · show (before.profile <|> dst.profile).map (setID archID) = _
    rw [hw.profile]
    rfl
  · exact { hw.described with id := rfl }

end

/-! ## actions -/

/-- The writes are those of a server that serves connections to the end, without overlaps; `sent`
admits what the clients send. -/
def Quietly (fl : Capture.Flags) (sent : Bytes → Prop) (lab : LabRoot) (ws : List Write) : Prop :=
  ∃ conns sched, (∀ c ∈ conns, sent c.rawHello) ∧
    Capture.NoOverlaps fl conns lab.profiles sched ∧
    (Capture.serve fl conns lab.profiles sched).Done ∧
    (served lab ws).profiles = (Capture.serve fl conns lab.profiles sched).store

def Quiet (fl : Capture.Flags) (sent : Bytes → Prop) (lab : LabRoot) (a : Action) : Prop :=
  Quietly fl sent lab a.writes

section
variable {fl : Capture.Flags} {sent : Bytes → Prop} {lab : LabRoot}

theorem truthful_served {ws : List Write} (hq : Quietly fl sent lab ws) (h : LabTruthful sent lab) :
    LabTruthful sent (served lab ws) := by
  obtain ⟨conns, sched, hsent, hN, hdone, hstore⟩ := hq
  intro id
  rw [hstore]
  by_cases hp : ∃ p ∈ conns.filterMap (Capture.handle fl), p.id = id
  · obtain ⟨c, hc, m, p, hw⟩ := Capture.serve_whole fl conns lab.profiles sched hN hdone hp
    exact .whole c.rawHello m p (hsent c hc) hw
  · have hrest := Capture.store_run fl conns lab.profiles sched id fun p hp' hid => hp ⟨p, hp', hid⟩
    rw [hrest]
    exact h id

theorem truthful_writeSlot {profiles : Tree} {id' : Bytes} (s : Slot)
    (h : ∀ id, Truthful sent id (profiles id)) (id : Bytes) :
    Truthful sent id (Function.update profiles id' (writeSlot (profiles id') s) id) := by
  have hslot : Truthful sent id' (writeSlot (profiles id') s) :=
    Truthful.congr (d := profiles id') rfl rfl rfl (h id')
  exact Tree.forall_update h hslot id

theorem truthful_archive {t : Target} {before : Option Dir}
    (hb : ∀ b ∈ before, Truthful sent t.id b ∧ b.hello ≠ none) (h : LabTruthful sent lab) :
    LabTruthful sent (maybeArchiveAfterCapture lab t before) := by
  intro id
  cases maybeArchived lab t before with
  | unchanged he =>
    rw [he]
    exact h id
  | slotOnly s he =>
    rw [he]
    exact truthful_writeSlot s h id
  | copied b dst s hbefore ht ha hdst he =>
    obtain ⟨hbs, hbh⟩ := hb b hbefore
    rw [he]
    exact truthful_writeSlot s (Tree.forall_update h (hbs.copySnapshot hbh _ dst _)) id

theorem truthful_updateSlot (t : Target) (probe : Bytes × Int) (h : LabTruthful sent lab) :
    LabTruthful sent (updateSlotAfterCapture lab t probe) := by
  by_cases hh : (lab.profiles t.id).hello = none
  · unfold updateSlotAfterCapture
    rw [if_pos hh]
    exact h
  · obtain ⟨s, -, he⟩ := updateSlot_spec lab t probe hh
    rw [he]
    exact truthful_writeSlot s h

/-- The step lemma. -/
theorem truthful_step (lab : LabRoot) (a : Action) (lab' : LabRoot) (hq : Quiet fl sent lab a)
    (hstep : step lab a = some lab') (h : LabTruthful sent lab) : LabTruthful sent lab' := by
  have hserved : LabTruthful sent (served lab a.writes) := truthful_served hq h
  rcases a with ⟨t, ws, _ | probe⟩ | ws
  · rw [← Option.some.inj hstep]
    exact hserved
  · rw [← Option.some.inj hstep]
    refine truthful_updateSlot t probe (truthful_archive (fun b hb => ?_) hserved)
    -- the snapshot is what the directory was before the client came
    obtain ⟨rfl, hh⟩ := snapshotProfile_some hb
    exact ⟨h t.id, hh⟩
  · rw [← Option.some.inj hstep]
    exact hserved

end

/-! ## runs -/

/-- **Every profile directory is truthful** after every run of quiet actions: an untouched directory is
empty, and any other holds a hello that a client sent, with its digest, its JA4 and the id of the
directory in the documents.  So it is in archives, too. -/
theorem profiles_truthful {fl : Capture.Flags} {sent : Bytes → Prop} {lab lab' : LabRoot}
    {as : List Action} (hrun : exec step lab as = some lab') (hq : Along step (Quiet fl sent) lab as)
    (h : LabTruthful sent lab) : LabTruthful sent lab' :=
  exec_inv step (Quiet fl sent) (LabTruthful sent) truthful_step hq hrun h

/-! ## exports -/

section
variable {sent : Bytes → Prop}

/-- what the export reads in a whole directory -/
theorem member_whole {profiles : Tree} {t : Target} {id hello : Bytes} {m : MetaDoc} {p : ProfileDoc}
    (h : Whole id hello (profiles t.id) m p) :
    (member profiles t).ja4 = recordedJA4 hello ∧ (member profiles t).format = rawFormat := by
  unfold member
  dsimp only
  rw [h.metaDoc, h.profile]
  refine ⟨?_, h.described.format⟩
  show (if m.ja4 = [] then p.ja4 else m.ja4) = _
  rw [h.described.metaJA4, h.described.ja4, ite_self]

theorem whole_overlay {src : Dir} {id hello : Bytes} {m : MetaDoc} {p : ProfileDoc}
    (h : Whole id hello src m p) (d : Dir) : Whole id hello (overlay src d) m p := by
  refine ⟨?_, ?_, ?_, h.described⟩
  · show src.hello.or d.hello = _
    rw [h.bytes, Option.some_or]
  · show src.metaDoc.or d.metaDoc = _
    rw [h.metaDoc, Option.some_or]
  · show src.profile.or d.profile = _
    rw [h.profile, Option.some_or]

/-- when directories are apart only the entry itself leads to its own, -/
theorem named_entry {ps : List ExportProfile} (hps : PathsApart ps) {e : ExportProfile} (he : e ∈ ps) :
    named ps e.shortName = [e] := by
  have hnd : (named ps e.shortName).Nodup := (List.Nodup.of_map _ hps.paths).filter _
  have hself : e ∈ named ps e.shortName :=
    List.mem_filter.mpr ⟨he, decide_eq_true (leads_self (hps.inside e he))⟩
  have hall : ∀ q ∈ named ps e.shortName, q = e := fun q hq =>
    hps.eq_of_leads he (List.mem_filter.mp hq).1 (of_decide_eq_true (List.mem_filter.mp hq).2)
  exact List.perm_singleton.mp <| (List.perm_ext_iff_of_nodup hnd (List.nodup_singleton e)).mpr
    fun q => ⟨fun hq => List.mem_singleton.mpr (hall q hq), fun hq => List.mem_singleton.mp hq ▸ hself⟩

/-- so its directory is laid out by the entry alone. -/
theorem laidOut_entry {profiles : Tree} {ps : List ExportProfile} (hps : PathsApart ps)
    {e : ExportProfile} (he : e ∈ ps) (hc : Copyable profiles e) :
    laidOut profiles ps e.shortName = overlay (profiles e.labID) {} := by
  unfold laidOut
  rw [named_entry hps he]
  exact copyDir_overlay hc.hello hc.profile {}

/-- the files of an entry's lab id -/
theorem entry_whole (ord : MapOrders) {profiles : Tree} {targets : List Target}
    (h : ∀ id, Truthful sent id (profiles id)) {e : ExportProfile}
    (he : e ∈ (naming ord profiles targets).profiles) :
    ∃ hello m p, sent hello ∧ Whole e.labID hello (profiles e.labID) m p ∧
      e.ja4 = recordedJA4 hello ∧ e.format = rawFormat := by
  obtain ⟨hello, m, p, hsent, hw⟩ := (h e.labID).of_hello (entry_hello ord he)
  obtain ⟨c, hcan, hce⟩ := entry_canonical ord (membersOf_coherent profiles targets) he
  obtain ⟨t, -, -, rfl⟩ := mem_membersOf.mp hcan.mem
  have hid : e.labID = t.id := by
    rw [hce]
    show (member profiles t).t.id = t.id
    rw [member_t]
  obtain ⟨hja4, hformat⟩ := member_whole (hid ▸ hw)
  refine ⟨hello, m, p, hsent, hw, ?_, ?_⟩
  · rw [hce]
    exact hja4
  · rw [hce]
    exact hformat

theorem entry_copyable (ord : MapOrders) {profiles : Tree} {targets : List Target}
    (h : ∀ id, Truthful sent id (profiles id)) :
    ∀ e ∈ (naming ord profiles targets).profiles, Copyable profiles e := by
  intro e he
  obtain ⟨hello, m, p, -, hw, -⟩ := entry_whole ord h he
  refine copyable_noFaults.mpr ⟨?_, ?_⟩
  · rw [hw.bytes]
    exact Option.some_ne_none hello
  · rw [hw.profile]
    exact Option.some_ne_none (Doc.good p)

/-- and those under its short name in an export that succeeds -/
theorem exported_whole (ord : MapOrders) {profiles : Tree} {targets : List Target}
    (h : ∀ id, Truthful sent id (profiles id))
    (hfam : FamiliesApart profiles targets) {chk : Bool} {dist out : Dist}
    (hx : runExport ord profiles targets chk dist = .ok out) :
    ∀ e ∈ (naming ord profiles targets).profiles, ∃ hello m p, sent hello ∧
      Whole e.labID hello (out.profiles e.shortName) m p ∧ e.ja4 = recordedJA4 hello ∧
      e.format = rawFormat := by
  intro e he
  obtain ⟨dist', hw, hnew⟩ := writeExport_complete ord (entry_copyable ord h)
  rw [(runExport_ok hx).2.2] at hw
  have hout : out = dist' := Except.ok.inj hw
  obtain ⟨hello, m, p, hsent, hwhole, hja4, hformat⟩ := entry_whole ord h he
  refine ⟨hello, m, p, hsent, ?_, hja4, hformat⟩
  rw [hout, hnew.dirs, laidOut_entry (hfam.apart ord) he (entry_copyable ord h e he)]
  exact whole_overlay hwhole {}

end

section
variable {fl : Capture.Flags} {sent : Bytes → Prop} {lab lab' : LabRoot} {as : List Action}

/-- **What is exported is what was captured**: after every run of quiet actions the exported directory
of an entry holds a hello that a client sent, its documents and the catalog name the JA4 of that hello;
and the name of every eligible target leads to a hello with the JA4 of its own. -/
theorem exported_as_captured (hrun : exec step lab as = some lab')
    (hq : Along step (Quiet fl sent) lab as) (h : LabTruthful sent lab) (ord : MapOrders)
    {targets : List Target} (hids : (targets.map Target.id).Nodup)
    (hfam : FamiliesApart lab'.profiles targets) {chk : Bool} {dist out : Dist}
    (hx : runExport ord lab'.profiles targets chk dist = .ok out) :
    ∃ cat, out.catalog = some cat ∧
      (∀ e ∈ cat.profiles, ∃ hello m p, sent hello ∧
        Whole e.labID hello (out.profiles e.shortName) m p ∧ e.ja4 = recordedJA4 hello ∧
        e.format = rawFormat) ∧
      ∀ t ∈ targets, Eligible lab'.profiles t → ∃ e ∈ cat.profiles, ∃ hello hello',
        (e.labID = t.id ∨ cat.aliases.lookup t.id = some e.shortName) ∧
        (lab'.profiles t.id).hello = some hello ∧
        (out.profiles e.shortName).hello = some hello' ∧ recordedJA4 hello' = recordedJA4 hello := by
  have htruth : LabTruthful sent lab' :=
    exec_inv step (Quiet fl sent) (LabTruthful sent) truthful_step hq hrun h
  have hentry := exported_whole ord htruth hfam hx
  refine ⟨_, runExport_catalog hx, hentry, fun t ht hel => ?_⟩
  have hl : Lossless lab'.profiles targets _ := naming_lossless ord hids
  obtain ⟨hello, m, p, -, hwhole⟩ := (htruth t.id).of_hello hel.2.2.1
  have hlead : ∃ e ∈ (naming ord lab'.profiles targets).profiles,
      (e.labID = t.id ∨ (naming ord lab'.profiles targets).aliases.lookup t.id = some e.shortName) ∧
      e.ja4 = ja4Of lab'.profiles t := by
    obtain ⟨e, ⟨he, hid⟩, -⟩ | ⟨e, he, halias, -, hja4⟩ := hl.resolved t ht hel
    · obtain ⟨u, hu, -, huid, -, huj, -⟩ := hl.best e he
      rw [target_inj hids hu ht (huid.trans hid)] at huj
      exact ⟨e, he, .inl hid, huj.symm⟩
    · exact ⟨e, he, .inr halias, hja4⟩
  obtain ⟨e, he, hname, hja4⟩ := hlead
  obtain ⟨hello', m', p', -, hwhole', hja4', -⟩ := hentry e he
  refine ⟨e, he, hello, hello', hname, hwhole.bytes, hwhole'.bytes, ?_⟩
  rw [← hja4', hja4]
  exact (member_whole hwhole).1

end

/-! ## a single connection -/

/-- one connection has nothing to overlap with -/
theorem noOverlaps_one {p : Capture.Promotion} (sched : List Nat) (s : Capture.Server)
    (hs : ∀ th ∈ s.threads, th.owner = p) :
    Interleave.Turns Tree.apply Capture.NoOverlap s sched := by
  induction sched generalizing s with
  | nil => exact trivial
  | cons i is ih =>
    refine ⟨fun q hq th hth _ _ => ?_, ih _ ?_⟩
    · rw [hs th hth, ← hs _ (List.mem_of_getElem? hq)]
    · rcases Interleave.next_cases Tree.apply s i with he | ⟨q, a, rest, hi, he⟩
      · rw [he]
        exact hs
      · rw [he]
        intro th hth
        rcases Interleave.mem_set_cases _ _ _ _ hth with rfl | hth
        · exact hs ⟨q, a :: rest⟩ (List.mem_of_getElem? hi)
        · exact hs th hth

/-- the writes of one promotion are quiet -/
theorem quietly_writes {fl : Capture.Flags} {sent : Bytes → Prop} (lab : LabRoot)
    {c : Capture.Conn} {p : Capture.Promotion} (hp : Capture.handle fl c = some p)
    (hsent : sent c.rawHello) : Quietly fl sent lab p.writes := by
  refine ⟨[c], [0, 0, 0, 0], fun c' hc' => ?_, ?_⟩
  · rw [List.mem_singleton.mp hc']
    exact hsent
  unfold Capture.NoOverlaps Capture.serve Capture.Server.start
  rw [List.filterMap_cons_some hp]
  refine ⟨noOverlaps_one _ _ (p := p) fun th hth => ?_, fun th hth => ?_, rfl⟩
  · rw [List.mem_singleton.mp hth]
  · rw [List.mem_singleton.mp hth]

/-- and so is a connection that is not promoted -/
theorem quietly_promoted {sent : Bytes → Prop} (lab : LabRoot) {c : Capture.Conn}
    (hsent : sent c.rawHello) : Quietly Capture.defaultFlags sent lab (promoted c) := by
  unfold promoted
  cases hc : Capture.handle Capture.defaultFlags c with
  | none => exact ⟨[], [], fun c' hc' => absurd hc' List.not_mem_nil, trivial,
      fun th hth => absurd hth List.not_mem_nil, rfl⟩
  | some p => exact quietly_writes lab hc hsent

/-! ## two captures of a target -/

/-- what the clients of `noticedRun` send -/
def braveSent (hello : Bytes) : Prop :=
  hello = firstBrave.rawHello ∨ hello = secondBrave.rawHello

theorem noticedRun_quiet : Along step (Quiet Capture.defaultFlags braveSent) emptyLab noticedRun :=
  ⟨quietly_promoted _ (.inl rfl), quietly_promoted _ (.inr rfl), trivial⟩

theorem emptyLab_truthful (sent : Bytes → Prop) : LabTruthful sent emptyLab :=
  fun id => .empty rfl rfl rfl

/-- the lab after `noticedRun` -/
def noticedLab : LabRoot := captureAttempt
  (captureAttempt emptyLab brave (promoted firstBrave) (some (str "1.60", 120))) brave
  (promoted secondBrave) (some (str "1.61", 121))

theorem noticedRun_exec : exec step emptyLab noticedRun = some noticedLab := rfl

/-- the target's directory and its archive, which holds the first hello -/
theorem profiles_truthful_brave : LabTruthful braveSent noticedLab ∧
    (noticedLab.profiles (str "brave-120")).hello = some firstBrave.rawHello := by
  refine ⟨profiles_truthful noticedRun_exec noticedRun_quiet (emptyLab_truthful braveSent), ?_⟩
  decide +kernel

/-- the registry of the target and its archive, as `loadLab` reads it -/
def noticedTargets : List Target := loadLab [brave] noticedLab.archive

theorem noticedTargets_family : ∀ t ∈ noticedTargets, t.family = str "brave" := by decide +kernel

theorem brave_isName : Paths.IsName (str "brave") := ⟨by decide, by decide, by decide, by decide⟩

/-- the second hello is exported as `brave`, the first as `brave-1` -/
theorem exported_as_captured_brave : ∃ out cat,
    runExport .sorted noticedLab.profiles noticedTargets true {} = .ok out ∧ out.catalog = some cat ∧
    cat.profiles ≠ [] ∧ ∀ e ∈ cat.profiles, ∃ hello m p, braveSent hello ∧
      Whole e.labID hello (out.profiles e.shortName) m p ∧ e.ja4 = recordedJA4 hello ∧
      e.format = rawFormat := by
  obtain ⟨out, hx⟩ : ∃ out, runExport .sorted noticedLab.profiles noticedTargets true {} = .ok out :=
    exists_export (by decide +kernel)
  obtain ⟨cat, hcat, hentries, hlead⟩ := exported_as_captured noticedRun_exec noticedRun_quiet
    (emptyLab_truthful braveSent) .sorted (by decide +kernel)
    (.of_one brave_isName noticedTargets_family) hx
  refine ⟨out, cat, hx, hcat, ?_, hentries⟩
  obtain ⟨e, he, -⟩ := hlead brave (by decide +kernel) (by decide +kernel)
  exact List.ne_nil_of_mem he

end Labctl
