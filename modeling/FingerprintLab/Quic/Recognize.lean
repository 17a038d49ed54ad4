import FingerprintLab.Base.Runs
import FingerprintLab.Quic.Confined
import FingerprintLab.Quic.Draft
import FingerprintLab.Quic.Recover
import FingerprintLab.Quic.Structural

/-!
# From the wire to the verdict

A run of the capture server promotes gathers, one after the other; a profile is then extracted from one
of the directories, put into the catalog, and the other directories are matched against it.

* `finish`                  a promotion as a step;
* `finish_step`             where nothing is locked it succeeds, and touches its own directory only;
* `run_last`                after a run a directory is the one of the last gather of its id;
* `Sends`                   the transport parameters and the source id of a stack;
* `sent_observation`        what the reader makes of a directory, whatever was in it before;
* `run_observed`            after a run it is that of the last gather;
* `captured_recognized`     a draft of one capture matches each capture of the same stack, and no other.
-/

set_option linter.unusedVariables false

namespace Quic
open Go Py Runs Writes

/-! ## the run -/

/-- a call that writes everything -/
def finish (lab : QuicLab) (f : Finish) : Option QuicLab :=
  match finishPeer lab f.peer f.hint true f.datagrams f.gathered f.clock with
  | .ok out => some out
  | .error _ => none

/-- the last gather of an id -/
def lastGather (id : Bytes) : List Finish → Option Gathered
  | [] => none
  | f :: fs => (lastGather id fs).or (if f.id = id then some f.gathered else none)

/-- nothing stands in the way of a write -/
structure Unlocked (lab : QuicLab) : Prop where
  captures : ∀ name, (lab.captures name).locked = fun _ => false
  profiles : ∀ name, (lab.profiles name).locked = fun _ => false

theorem writeCapture_unlocked {dir : CaptureDir} (h : dir.locked = fun _ => false)
    (ds : List Bytes) (summary : Summary) :
    ∃ out, writeCapture dir ds summary = .ok out ∧ out.locked = fun _ => false := by
  obtain ⟨m, hm⟩ := writeInitials_unlocked dir.initials 0 ds
  unfold writeCapture
  rw [h, if_neg (by decide), hm]
  exact ⟨_, rfl, rfl⟩

theorem promoteProfile_unlocked {dir : ProfileDir} (h : dir.locked = fun _ => false) (id : Bytes)
    (ds : List Bytes) (g : Gathered) (summary : Summary) :
    ∃ out, promoteProfile dir id ds g summary = .ok out ∧ out.locked = fun _ => false := by
  obtain ⟨m, hm⟩ := writeInitials_unlocked dir.initials 0 ds
  unfold promoteProfile
  rw [h, if_neg (by decide), hm]
  exact ⟨_, rfl, rfl⟩

/-- The step lemma. -/
theorem finish_step {lab : QuicLab} (hlab : Unlocked lab) (f : Finish) :
    ∃ lab', finish lab f = some lab' ∧ Unlocked lab' ∧
      Promoted (lab.profiles f.id) (lab'.profiles f.id) f.id f.datagrams f.gathered ∧
      ∀ name, name ≠ f.id → lab'.profiles name = lab.profiles name := by
  obtain ⟨cap, hcap, hcapLocked⟩ := writeCapture_unlocked (hlab.captures (captureID f.clock f.id))
    f.datagrams (summaryOf f.peer f.id f.clock f.datagrams f.gathered)
  obtain ⟨dir, hdir, hdirLocked⟩ := promoteProfile_unlocked (hlab.profiles f.id) f.id f.datagrams
    f.gathered (summaryOf f.peer f.id f.clock f.datagrams f.gathered)
  have hok : finishPeer lab f.peer f.hint true f.datagrams f.gathered f.clock =
      .ok { captures := Function.update lab.captures (captureID f.clock f.id) cap
            profiles := Function.update lab.profiles f.id dir } := by
    unfold Finish.id at hcap hdir ⊢
    unfold finishPeer
    dsimp only
    rw [hcap]
    dsimp only
    rw [hdir]
    rfl
  refine ⟨_, by unfold finish; rw [hok], ⟨?_, ?_⟩, ?_, fun name hne => ?_⟩
  · exact (Function.forall_update_iff lab.captures fun _ d => d.locked = fun _ => false).mpr
      ⟨hcapLocked, fun name _ => hlab.captures name⟩
  · exact (Function.forall_update_iff lab.profiles fun _ d => d.locked = fun _ => false).mpr
      ⟨hdirLocked, fun name _ => hlab.profiles name⟩
  · dsimp only
    rw [Function.update_self]
    exact promoteProfile_ok hdir
  · exact Function.update_of_ne hne ..

/-- what a directory holds after a run -/
theorem run_last {lab : QuicLab} (hlab : Unlocked lab) (fs : List Finish) :
    ∃ lab', exec finish lab fs = some lab' ∧
      (∀ id, lastGather id fs = none → lab'.profiles id = lab.profiles id) ∧
      ∀ id g, lastGather id fs = some g → ∃ dir ds, (dir.locked = fun _ => false) ∧
        Promoted dir (lab'.profiles id) id ds g := by
  induction fs generalizing lab with
  | nil => exact ⟨lab, rfl, fun id _ => rfl, fun id g h => by cases h⟩
  | cons f fs ih =>
    obtain ⟨lab₁, h₁, hlab₁, hself, hother⟩ := finish_step hlab f
    obtain ⟨lab', hrun, hnone, hsome⟩ := ih hlab₁
    refine ⟨lab', by rw [exec_cons finish h₁, hrun], fun id h => ?_, fun id g h => ?_⟩
    · rw [lastGather, Option.or_eq_none_iff] at h
      have hne : id ≠ f.id := by
        rintro rfl
        rw [if_pos rfl] at h
        exact absurd h.2 (Option.some_ne_none _)
      rw [hnone id h.1, hother id hne]
    · rw [lastGather] at h
      cases hlast : lastGather id fs with
      | some g' =>
        rw [hlast] at h
        rw [← Option.some.inj h]
        exact hsome id g' hlast
      | none =>
        -- this gather is the last one of its id
        rw [hlast, Option.none_or] at h
        split at h
        · rename_i hid
          rw [← Option.some.inj h, hnone id hlast, ← hid]
          exact ⟨_, _, hlab.profiles f.id, hself⟩
        · cases h

/-! ## the observation -/

/-- The first packet has a source id of length `s`, and the transport parameters are `ids`; all else
is free. -/
def Sends (g : Gathered) (s : Nat) (ids : List UInt64) : Prop :=
  ∃ g₀ d rest packets json, g = gatherOf g₀ d s rest packets ids json

/-- the length of the source id as it is inferred -/
def scidOf (s : Nat) (ids : List UInt64) : Option Int :=
  if s ≠ 0 then some s
  else if (0x3128 : UInt64) ∈ ids ∨ (0x11 : UInt64) ∈ ids then some 0
  else none

theorem infer_scidOf (d s : Nat) (rest : Bytes) {ids : List UInt64} {markers : Markers}
    (hm : ∀ m, markers m = decide (m.number ∈ ids)) :
    infer_scid_len (headerDoc d s rest) {} markers = scidOf s ids := by
  have h3128 : markers .x3128 = decide ((0x3128 : UInt64) ∈ ids) := hm .x3128
  have h11 : markers .x11 = decide ((0x11 : UInt64) ∈ ids) := hm .x11
  unfold infer_scid_len headerDoc scidOf
  dsimp only [Member.get_missing]
  by_cases hs : s = 0
  · rw [if_pos hs, Member.has_missing, if_neg Bool.false_ne_true, Member.has_val, Bool.not_true,
      if_neg Bool.false_ne_true, h3128, h11, if_neg (not_not.mpr hs)]
    by_cases ha : (0x3128 : UInt64) ∈ ids <;> by_cases hb : (0x11 : UInt64) ∈ ids <;> simp [ha, hb]
  · rw [if_neg hs, Member.has_val, if_pos rfl, if_pos hs]
    rfl

/-- the identity of a promoted stack, whatever the directory held before -/
structure Observed (obs : Observation) (s : Nat) (ids : List UInt64) : Prop where
  tp : obs.tp = ids.map tpToken
  tpSet : obs.tpSet = (ids.map tpToken).toFinset
  markers : obs.markers = fun m => decide (m.number ∈ ids)
  scidLen : obs.scidLen = scidOf s ids

theorem sent_observation (u : Unicode) (name : Bytes) {dir out : ProfileDir} {id : Bytes}
    {ds : List Bytes} {g : Gathered} {s : Nat} {ids : List UInt64}
    (hlocked : dir.locked = fun _ => false) (h : Promoted dir out id ds g) (hg : Sends g s ids) :
    ∃ obs, load_observation u name out = some obs ∧ Observed obs s ids := by
  obtain ⟨g₀, d, rest, packets, json, rfl⟩ := hg
  have hheader : out.header = some (headerDoc d s rest) := by
    rw [h.header, hlocked]
    rfl
  obtain ⟨exp, hexp, htp, hscid, -⟩ := profileOf_expected id g₀ d s rest packets ids json
  have hnorm : norm_tp u (exp.tpIDSet.get.getD []) = ids.map tpToken := by
    rw [htp]
    exact norm_promoted u ids
  have hload : ∃ obs, load_observation u name out = some obs := by
    unfold load_observation
    rw [h.profile]
    exact ⟨_, rfl⟩
  obtain ⟨obs, hobs⟩ := hload
  obtain ⟨-, htpSet, hmarkers⟩ := load_observation_tp hobs
  refine ⟨obs, hobs, ?_⟩
  have htpObs : obs.tp = ids.map tpToken := by
    unfold load_observation at hobs
    rw [h.profile] at hobs
    rw [← Option.some.inj hobs]
    dsimp only
    rw [hexp]
    exact hnorm
  rw [htpObs] at htpSet
  have hm : ∀ m, obs.markers m = decide (m.number ∈ ids) := by
    intro m
    rw [hmarkers, htpSet]
    exact markers_promoted ids m
  refine ⟨htpObs, htpSet, funext hm, ?_⟩
  rw [← infer_scidOf d s rest hm]
  unfold load_observation at hobs
  rw [h.profile] at hobs
  rw [← Option.some.inj hobs]
  dsimp only
  rw [hexp, hheader]
  unfold infer_scid_len
  dsimp only [Member.get_val, Option.getD_some]
  rw [hscid]
  rfl

/-- after a run a directory is read as the last gather of its id -/
theorem run_observed (u : Unicode) {lab : QuicLab} (hlab : Unlocked lab) (fs : List Finish) :
    ∃ lab', exec finish lab fs = some lab' ∧
      ∀ id g s ids, lastGather id fs = some g → Sends g s ids →
        ∃ obs, load_observation u id (lab'.profiles id) = some obs ∧ Observed obs s ids := by
  obtain ⟨lab', hrun, -, hlast⟩ := run_last hlab fs
  refine ⟨lab', hrun, fun id g s ids hl hs => ?_⟩
  obtain ⟨dir, ds, hopen, hdir⟩ := hlast id g hl
  exact sent_observation u id hopen hdir hs

/-! ## the verdict -/

/-- The same parameters, in any order and number, and the same length of the source id, or one that is
not written and not guessed. -/
def Alike (s₁ : Nat) (ids₁ : List UInt64) (s₂ : Nat) (ids₂ : List UInt64) : Prop :=
  (∀ n, n ∈ ids₁ ↔ n ∈ ids₂) ∧
    (s₁ = s₂ ∨ (s₁ = 0 ∨ s₂ = 0) ∧ (0x3128 : UInt64) ∉ ids₁ ∧ (0x11 : UInt64) ∉ ids₁)

theorem tokens_iff (ids₁ ids₂ : List UInt64) :
    (ids₁.map tpToken).toFinset = (ids₂.map tpToken).toFinset ↔ ∀ n, n ∈ ids₁ ↔ n ∈ ids₂ := by
  have hmem : ∀ (ids : List UInt64) n, tpToken n ∈ (ids.map tpToken).toFinset ↔ n ∈ ids := by
    intro ids n
    rw [List.mem_toFinset, List.mem_map]
    exact ⟨fun ⟨k, hk, he⟩ => tpToken_inj he ▸ hk, fun h => ⟨n, h, rfl⟩⟩
  constructor
  · intro h n
    rw [← hmem ids₁, h, hmem ids₂]
  · intro h
    refine Finset.ext fun t => ?_
    rw [List.mem_toFinset, List.mem_toFinset, List.mem_map, List.mem_map]
    exact exists_congr fun n => and_congr_left fun _ => h n

theorem scidOf_congr {ids₁ ids₂ : List UInt64} (h : ∀ n, n ∈ ids₁ ↔ n ∈ ids₂) (s : Nat) :
    scidOf s ids₂ = scidOf s ids₁ := by
  unfold scidOf
  exact if_congr Iff.rfl rfl (if_congr (or_congr (h _).symm (h _).symm) rfl rfl)

theorem scidFits_iff {s₁ s₂ : Nat} {ids : List UInt64} :
    ScidFits (scidOf s₂ ids) (scidOf s₁ ids) ↔
      s₁ = s₂ ∨ (s₁ = 0 ∨ s₂ = 0) ∧ (0x3128 : UInt64) ∉ ids ∧ (0x11 : UInt64) ∉ ids := by
  unfold ScidFits scidOf
  by_cases hg : (0x3128 : UInt64) ∈ ids ∨ (0x11 : UInt64) ∈ ids
  · have hnot : ¬ ((0x3128 : UInt64) ∉ ids ∧ (0x11 : UInt64) ∉ ids) := by tauto
    simp only [hg, hnot, and_false, or_false, if_true]
    by_cases h1 : s₁ = 0 <;> by_cases h2 : s₂ = 0 <;> simp [h1, h2] <;> omega
  · have hyes : (0x3128 : UInt64) ∉ ids ∧ (0x11 : UInt64) ∉ ids := by tauto
    simp only [hyes, not_false_eq_true, and_self, and_true]
    by_cases h1 : s₁ = 0 <;> by_cases h2 : s₂ = 0 <;> simp [h1, h2]
    omega

theorem tpToken_eq (n : UInt64) : tpToken n = token n.toNat := by
  unfold tpToken token
  refine if_congr ?_ rfl rfl
  rw [← UInt64.toNat_inj]
  rfl

theorem draft_accepts (u : Unicode) (path : Bytes) {o₁ o₂ : Observation} {s₁ s₂ : Nat}
    {ids₁ ids₂ : List UInt64} (h₁ : Observed o₁ s₁ ids₁) (h₂ : Observed o₂ s₂ ids₂) :
    Accepts ((build_draft o₁).entry u path) o₂.tpSet o₂.markers o₂.scidLen ↔
      Alike s₁ ids₁ s₂ ids₂ := by
  have hset : o₁.tpSet = o₁.tp.toFinset := by rw [h₁.tpSet, h₁.tp]
  have htok : ∀ t ∈ o₁.tp, ∃ n, t = token n := by
    intro t ht
    rw [h₁.tp] at ht
    obtain ⟨n, -, rfl⟩ := List.mem_map.mp ht
    exact ⟨n.toNat, tpToken_eq n⟩
  obtain ⟨hentry, hmarkers, hscid, -, -⟩ := draft_entry u path o₁ hset htok
  unfold Accepts Alike
  rw [hentry, hmarkers, hscid, h₁.tpSet, h₂.tpSet, h₁.scidLen, h₂.scidLen, h₁.markers, h₂.markers]
  constructor
  · rintro ⟨hs, -, hfit⟩
    have hids := (tokens_iff ids₁ ids₂).mp hs.symm
    rw [scidOf_congr hids] at hfit
    exact ⟨hids, scidFits_iff.mp hfit⟩
  · rintro ⟨hids, hfit⟩
    rw [scidOf_congr hids]
    refine ⟨((tokens_iff ids₁ ids₂).mpr hids).symm, fun m b hb => ?_, scidFits_iff.mpr hfit⟩
    rw [← Member.val.inj hb]
    exact decide_eq_decide.mpr (hids m.number)

/-- **A captured stack is recognized.**  After any run of the capture server a draft of one directory is
put into a catalog of distinct parameters and distinct names, and another directory is matched: the
verdict is the draft exactly if the two stacks are alike.  The GREASE value, the destination id, the
rest of the header, the number of datagrams, the peer and the time make no difference, and neither do
the earlier gathers of the two ids. -/
theorem captured_recognized (u : Unicode) {lab : QuicLab} (hlab : Unlocked lab) (fs : List Finish)
    {id₁ id₂ : Bytes} {g₁ g₂ : Gathered} (hl₁ : lastGather id₁ fs = some g₁)
    (hl₂ : lastGather id₂ fs = some g₂) {s₁ s₂ : Nat} {ids₁ ids₂ : List UInt64}
    (hs₁ : Sends g₁ s₁ ids₁) (hs₂ : Sends g₂ s₂ ids₂) :
    ∃ lab' o₁ o₂, exec finish lab fs = some lab' ∧
      load_observation u id₁ (lab'.profiles id₁) = some o₁ ∧
      load_observation u id₂ (lab'.profiles id₂) = some o₂ ∧
      ∀ path docs, CuratedName path → (∀ f ∈ docs, SchemaValid f.2) → ∃ catalog,
        load_catalog_for_match u
            (directory ((path, (build_draft o₁).toCatalogDoc) :: docs)) = .ok catalog ∧
        ((catalog.map (·.tpSet)).Nodup → (catalog.map (·.short)).Nodup →
          ((classify o₂ catalog).matchedShort = some (build_draft o₁).short ↔
            Alike s₁ ids₁ s₂ ids₂)) := by
  obtain ⟨lab', hrun, hobserved⟩ := run_observed u hlab fs
  obtain ⟨o₁, ho₁, hobs₁⟩ := hobserved id₁ g₁ s₁ ids₁ hl₁ hs₁
  obtain ⟨o₂, ho₂, hobs₂⟩ := hobserved id₂ g₂ s₂ ids₂ hl₂ hs₂
  refine ⟨lab', o₁, o₂, hrun, ho₁, ho₂, fun path docs hpath hdocs => ?_⟩
  have hformat : ∀ f ∈ (path, (build_draft o₁).toCatalogDoc) :: docs,
      f.2.format = .val PROFILE_FORMAT := by
    intro f hf
    obtain rfl | hf := List.mem_cons.mp hf
    · rfl
    · exact (hdocs f hf).format
  obtain ⟨catalog, hload, hmem⟩ := load_catalog_ok u _ hformat
  have hdraft : (build_draft o₁).entry u path ∈ catalog :=
    (hmem _).mpr ⟨_, List.mem_cons_self, hpath, rfl⟩
  refine ⟨catalog, hload, fun hnd hshort => ?_⟩
  rw [← draft_accepts u path hobs₁ hobs₂]
  constructor
  · intro h
    have hsome : ¬ ∀ c ∈ catalog, ¬ Accepts c o₂.tpSet o₂.markers o₂.scidLen := by
      rw [← matchedShort_none hnd o₂, h]
      exact Option.some_ne_none _
    push Not at hsome
    obtain ⟨c, hc, hacc⟩ := hsome
    -- the entry that is matched has the draft's name
    rw [matchedShort_some hnd o₂ hc hacc] at h
    rw [← List.inj_on_of_nodup_map hshort hc hdraft (Option.some.inj h)]
    exact hacc
  · intro hacc
    rw [matchedShort_some hnd o₂ hdraft hacc]
    rfl

/-! ## two captures of one browser -/

/-- the parrot's parameters in another order, with another destination id -/
def parrotAgain : Gathered := gatherOf {} 18 0 [7] [] [0x3128, 27, 0x1, 0x20, 0x11, 0x1] []

def parrotRun : List Finish :=
  [⟨chromePeer, str "second", [[9], [9]], {}, noon⟩, ⟨chromePeer, parrot, [[1]], parrotGather, noon⟩,
    ⟨chromePeer, str "second", [[2], [3]], parrotAgain, minuteLater⟩]

theorem parrotRun_ids : parrotRun.map Finish.id = [str "second", parrot, str "second"] := by
  decide +kernel

theorem parrotRun_first : lastGather parrot parrotRun = some parrotGather := by
  obtain ⟨h1, h2, h3⟩ := by simpa [parrotRun] using parrotRun_ids
  have hne : ¬ str "second" = parrot := by decide
  simp [parrotRun, lastGather, h1, h2, h3, hne]

theorem parrotRun_second : lastGather (str "second") parrotRun = some parrotAgain := by
  obtain ⟨h1, h2, h3⟩ := by simpa [parrotRun] using parrotRun_ids
  simp [parrotRun, lastGather, h3]

/-- The second capture is matched to the draft of the first one. -/
theorem captured_recognized_parrot : ∃ lab o₁ o₂, exec finish {} parrotRun = some lab ∧
    load_observation .ascii parrot (lab.profiles parrot) = some o₁ ∧
    load_observation .ascii (str "second") (lab.profiles (str "second")) = some o₂ ∧
    (classify o₂ [(build_draft o₁).entry .ascii (str "parrot.json")]).matchedShort =
      some (build_draft o₁).short := by
  have hunlocked : Unlocked {} := ⟨fun _ => rfl, fun _ => rfl⟩
  have hfirst : Sends parrotGather 0 [0x1, 0x11, 27, 0x20, 0x3128] := ⟨_, _, _, _, _, rfl⟩
  have hsecond : Sends parrotAgain 0 [0x3128, 27, 0x1, 0x20, 0x11, 0x1] := ⟨_, _, _, _, _, rfl⟩
  obtain ⟨lab, o₁, o₂, hrun, ho₁, ho₂, hcatalog⟩ :=
    captured_recognized .ascii hunlocked parrotRun parrotRun_first parrotRun_second hfirst hsecond
  obtain ⟨catalog, hload, hmatched⟩ := hcatalog (str "parrot.json") []
    ⟨by decide, rfl, by decide⟩ fun f hf => absurd hf List.not_mem_nil
  have hone : load_catalog_for_match .ascii
      (directory [(str "parrot.json", (build_draft o₁).toCatalogDoc)]) =
        .ok [(build_draft o₁).entry .ascii (str "parrot.json")] := rfl
  rw [hone] at hload
  rw [← Except.ok.inj hload] at hmatched
  refine ⟨lab, o₁, o₂, hrun, ho₁, ho₂, ?_⟩
  refine (hmatched (List.nodup_singleton _) (List.nodup_singleton _)).mpr ⟨fun n => ?_, .inl rfl⟩
  simp
  tauto

end Quic
