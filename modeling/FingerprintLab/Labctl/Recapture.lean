import FingerprintLab.Labctl.ArchiveRun
import FingerprintLab.Labctl.Extend

/-!
# Capturing an unchanged fingerprint again

A capture that finds the JA4 it had before rewrites the target's directory and nothing else.  The
export reads one value of what was rewritten, the time of the capture; it is the last but one
criterion of the ranking.

* `captureTarget_unchanged`   the iteration in closed form, for any track;
* `nameMembers_map`           the names are kept when members of different JA4s compare as before;
* `Steady`                    the new time moves the target past no tied one with another JA4;
* `recapture_keeps_names`     then an export after the capture gives the names of the one before;
* `recapture_renames`         two tied targets of one family change places.
-/

set_option linter.unusedVariables false

namespace Labctl
open Go Lab Ranking Writes

/-! ## the iteration -/

/-- The target has a hello; the JA4 in its files is that of the capture. -/
structure Recaptured (profiles : Tree) (t : Target) (c : Capture) : Prop where
  hello : (profiles t.id).hello ≠ none
  agrees : Agrees (profiles t.id)
  profile : (profiles t.id).profileJA4 = c.profile.ja4
  exported : ja4Of profiles t = c.profile.ja4
  metaDoc : c.metaDoc.ja4 = c.profile.ja4

theorem Recaptured.unchanged {profiles : Tree} {t : Target} {c : Capture}
    (h : Recaptured profiles t c) : ¬ Changed (profiles t.id) c := by
  intro hch
  exact hch (.inr (.inr (h.agrees.oldSlot_ja4.trans h.profile)))

theorem setDir_setDir (lab : LabRoot) (id : Bytes) (d d' : Dir) :
    (lab.setDir id d).setDir id d' = lab.setDir id d' := by
  unfold LabRoot.setDir
  rw [Function.update_idem]

theorem maybeArchive_unchanged (lab : LabRoot) (t : Target) (c : Capture)
    (h : ¬ Changed (lab.profiles t.id) c) :
    ∃ s, maybeArchiveAfterCapture (lab.setDir t.id (c.over (lab.profiles t.id))) t
        (snapshotProfile (lab.profiles t.id))
      = lab.setDir t.id { c.over (lab.profiles t.id) with slot := s } := by
  have hself : (lab.setDir t.id (c.over (lab.profiles t.id))).profiles t.id
      = c.over (lab.profiles t.id) := Function.update_self ..
  unfold snapshotProfile
  by_cases hh : (lab.profiles t.id).hello = none
  · rw [if_pos hh]
    exact ⟨(lab.profiles t.id).slot, rfl⟩
  rw [if_neg hh]
  unfold maybeArchiveAfterCapture
  dsimp only
  by_cases ht : t.track = trackLatest
  · rw [if_neg (not_not.mpr ht), hself, over_profileJA4, if_pos (not_not.mp h), setDir_setDir]
    exact ⟨some _, rfl⟩
  · rw [if_pos ht]
    exact ⟨(lab.profiles t.id).slot, rfl⟩

/-- **An unchanged fingerprint**: only the target's directory is rewritten. -/
theorem captureTarget_unchanged (lab : LabRoot) (t : Target) (c : Capture) (probe : Bytes × Int)
    (h : ¬ Changed (lab.profiles t.id) c) :
    ∃ s, captureTarget lab t c probe
      = lab.setDir t.id { c.over (lab.profiles t.id) with slot := s } := by
  obtain ⟨s, hs⟩ := maybeArchive_unchanged lab t c h
  unfold captureTarget
  dsimp only
  rw [hs]
  generalize hd : ({ c.over (lab.profiles t.id) with slot := s } : Dir) = d
  have hself : (lab.setDir t.id d).profiles t.id = d := Function.update_self ..
  have hhello : ((lab.setDir t.id d).profiles t.id).hello ≠ none := by
    rw [hself, ← hd]
    exact Option.some_ne_none c.hello
  obtain ⟨s', -, he⟩ := updateSlot_spec (lab.setDir t.id d) t probe hhello
  rw [he, setDir_setDir, hself, ← hd]
  exact ⟨some s', rfl⟩

/-! ## names of a family whose scores have changed -/

/-- the short name with what it stands for -/
def assigned (p : ExportProfile) : Bytes × Bytes × Nat × Bytes :=
  (p.shortName, p.family, p.rank, p.ja4)

/-- the same of a canonical member -/
def standingOf (members : List RankedMember) (c : RankedMember) : Bytes × Bytes × Nat × Bytes :=
  (shortName c.t.family (familyRank members c), c.t.family, familyRank members c, c.ja4)

theorem mem_assigned (ord : MapOrders) {members : List RankedMember} (hc : Coherent members)
    (a : Bytes × Bytes × Nat × Bytes) : a ∈ (nameMembers ord members).profiles.map assigned ↔
      ∃ c, Canonical members c ∧ a = standingOf members c := by
  rw [List.mem_map]
  constructor
  · rintro ⟨p, hp, rfl⟩
    obtain ⟨c, hcan, rfl⟩ := entry_canonical ord hc hp
    exact ⟨c, hcan, rfl⟩
  · rintro ⟨c, hcan, rfl⟩
    obtain ⟨u, -, hj, hp⟩ := hcan.exists_entry ord hc
    refine ⟨_, hp, ?_⟩
    show (shortName c.t.family (familyRank members c), _, _, u.ja4) = standingOf members c
    rw [hj]
    rfl

theorem assigned_sorted (ord : MapOrders) (members : List RankedMember) :
    ((nameMembers ord members).profiles.map assigned).Pairwise fun a b =>
      toLex (a.2.1, a.2.2.1) < toLex (b.2.1, b.2.2.1) := by
  rw [List.pairwise_map]
  exact profiles_sorted ord members

section
variable {ms : List RankedMember} {φ : RankedMember → RankedMember} (hc : Coherent ms)
  (ht : ∀ m ∈ ms, (φ m).t = m.t) (hj : ∀ m ∈ ms, (φ m).ja4 = m.ja4)
  (hsteady : ∀ a ∈ ms, ∀ b ∈ ms, a.t.family = b.t.family → a.ja4 ≠ b.ja4 →
    (score (φ a) < score (φ b) ↔ score a < score b))
include hc ht hj

theorem coherent_map : Coherent (ms.map φ) := by
  intro a' ha' b' hb' he
  obtain ⟨a, ha, rfl⟩ := List.mem_map.mp ha'
  obtain ⟨b, hb, rfl⟩ := List.mem_map.mp hb'
  rw [ht a ha, ht b hb] at he
  rw [hj a ha, hj b hb]
  exact hc a ha b hb he

omit hc hj in
theorem ofFamily_map (f : Bytes) : ofFamily (ms.map φ) f = (ofFamily ms f).map φ := by
  unfold ofFamily
  rw [List.filter_map]
  congr 1
  refine List.filter_congr fun m hm => ?_
  rw [Function.comp_apply, ht m hm]

include hsteady

omit hc in
/-- the canonical members of one class before and after have the same rank -/
theorem standingOf_map {c d : RankedMember} (hcan : Canonical ms c) (hd : d ∈ ms)
    (hcan' : Canonical (ms.map φ) (φ d)) (hf : d.t.family = c.t.family) (hk : d.ja4 = c.ja4) :
    standingOf (ms.map φ) (φ d) = standingOf ms c := by
  have hrank : familyRank (ms.map φ) (φ d) = familyRank ms c := by
    unfold Canonical at hcan'
    unfold familyRank rankOf
    rw [ht d hd, hf, ofFamily_map ht] at hcan' ⊢
    refine rank_map _ _ (ofFamily ms c.t.family) φ (fun m hm => hj m (mem_ofFamily.mp hm).1) ?_ hcan
      (mem_ofFamily.mpr ⟨hd, hf⟩) hk hcan'
    intro a ha b hb hne
    obtain ⟨ha, haf⟩ := mem_ofFamily.mp ha
    obtain ⟨hb, hbf⟩ := mem_ofFamily.mp hb
    exact hsteady a ha b hb (haf.trans hbf.symm) hne
  unfold standingOf
  rw [hrank, ht d hd, hf, hj d hd, hk]

/-- **The names are kept** when members of different JA4s compare as before. -/
theorem nameMembers_map (ord ord' : MapOrders) :
    (nameMembers ord' (ms.map φ)).profiles.map assigned
      = (nameMembers ord ms).profiles.map assigned := by
  have hc' := coherent_map hc ht hj
  have hirrefl : Std.Irrefl fun a b : Bytes × Bytes × Nat × Bytes =>
      toLex (a.2.1, a.2.2.1) < toLex (b.2.1, b.2.2.1) := ⟨fun a => lt_irrefl _⟩
  have hantisymm : Std.Antisymm fun a b : Bytes × Bytes × Nat × Bytes =>
      toLex (a.2.1, a.2.2.1) < toLex (b.2.1, b.2.2.1) :=
    ⟨fun a b h h' => absurd h (lt_asymm h')⟩
  refine List.Pairwise.eq_of_mem_iff (assigned_sorted ord' _) (assigned_sorted ord _) fun a => ?_
  rw [mem_assigned ord' hc', mem_assigned ord hc]
  constructor
  · rintro ⟨c', hcan', rfl⟩
    obtain ⟨d, hd, rfl⟩ := List.mem_map.mp hcan'.mem
    obtain ⟨c, hcan, hf, hk⟩ := exists_canonical hc hd
    exact ⟨c, hcan, standingOf_map ht hj hsteady hcan hd hcan' hf.symm hk.symm⟩
  · rintro ⟨c, hcan, rfl⟩
    obtain ⟨c', hcan', hf, hk⟩ := exists_canonical hc' (List.mem_map_of_mem hcan.mem)
    obtain ⟨d, hd, rfl⟩ := List.mem_map.mp hcan'.mem
    rw [ht d hd, ht c hcan.mem] at hf
    rw [hj d hd, hj c hcan.mem] at hk
    exact ⟨φ d, hcan', (standingOf_map ht hj hsteady hcan hd hcan' hf hk).symm⟩

end

/-! ## the two exports -/

/-- equal in all that ranks before the time of the capture -/
def Tied (x u : Target) : Prop :=
  (x.track = trackLatest ↔ u.track = trackLatest) ∧
  (x.kind = kindBuiltin ↔ u.kind = kindBuiltin) ∧ x.version = u.version

instance (x u : Target) : Decidable (Tied x u) := inferInstanceAs (Decidable (_ ∧ _ ∧ _))

/-- The targets with that id stay before, or behind, every tied eligible target of their family that
has another JA4. -/
def Steady (profiles profiles' : Tree) (targets : List Target) (id : Bytes) : Prop :=
  ∀ x ∈ targets, x.id = id → Eligible profiles x → ∀ u ∈ targets, Eligible profiles u →
    u.family = x.family → ja4Of profiles u ≠ ja4Of profiles x → Tied x u →
    betterMember (member profiles' x) (member profiles u)
      = betterMember (member profiles x) (member profiles u)

instance (profiles profiles' : Tree) (targets : List Target) (id : Bytes) :
    Decidable (Steady profiles profiles' targets id) :=
  inferInstanceAs (Decidable (∀ _ ∈ targets, _ → _ → ∀ _ ∈ targets, _))

/-- without a tie the time of the capture is not read -/
theorem betterMember_of_not_tied {a a' b : RankedMember} (ht : a'.t = a.t) (h : ¬ Tied a.t b.t) :
    betterMember a' b = betterMember a b := by
  unfold betterMember
  rw [ht]
  unfold Tied at h
  by_cases hl : decide (a.t.track = trackLatest) = decide (b.t.track = trackLatest)
  · by_cases hk : decide (a.t.kind = kindBuiltin) = decide (b.t.kind = kindBuiltin)
    · by_cases hv : a.t.version = b.t.version
      · exact absurd ⟨decide_eq_decide.mp hl, decide_eq_decide.mp hk, hv⟩ h
      · simp [hl, hk, hv]
    · simp [hl, hk]
  · simp [hl]

/-- the comparison from the other side -/
theorem betterMember_flip {a a' b : RankedMember} (hid : a.t.id ≠ b.t.id) (ht : a'.t = a.t)
    (h : betterMember a' b = betterMember a b) : score b < score a' ↔ score b < score a := by
  have hne : score b ≠ score a := fun he => hid (score_id he).symm
  have hne' : score b ≠ score a' := fun he => hid (by rw [score_id he, ht])
  have hlt : score a' < score b ↔ score a < score b := by
    rw [← betterMember_iff, ← betterMember_iff, h]
  rw [lt_iff_le_and_ne, lt_iff_le_and_ne, and_iff_left hne', and_iff_left hne, ← not_lt, ← not_lt, hlt]

section
variable {profiles : Tree} {t : Target} {c : Capture} (h : Recaptured profiles t c) (s : Option Slot)
include h

/-- the tree after the capture, with that slot -/
abbrev recapturedTree (profiles : Tree) (t : Target) (c : Capture) (s : Option Slot) : Tree :=
  Function.update profiles t.id { c.over (profiles t.id) with slot := s }

omit h in
theorem recapturedTree_of_ne (id : Bytes) (hid : id ≠ t.id) :
    recapturedTree profiles t c s id = profiles id := Function.update_of_ne hid ..

theorem ja4Of_recaptured (x : Target) : ja4Of (recapturedTree profiles t c s) x = ja4Of profiles x := by
  by_cases hid : x.id = t.id
  · rw [ja4Of_congr hid, ja4Of_congr hid, h.exported]
    have hself : recapturedTree profiles t c s t.id = { c.over (profiles t.id) with slot := s } :=
      Function.update_self ..
    unfold ja4Of member
    dsimp only
    rw [hself]
    show (if c.metaDoc.ja4 = [] then c.profile.ja4 else c.metaDoc.ja4) = _
    rw [h.metaDoc]
    split_ifs <;> rfl
  · unfold ja4Of
    rw [member_of_ne (recapturedTree_of_ne s) hid]

theorem eligible_recaptured (x : Target) :
    Eligible (recapturedTree profiles t c s) x ↔ Eligible profiles x := by
  by_cases hid : x.id = t.id
  · have hself : (recapturedTree profiles t c s x.id).hello = some c.hello := by
      rw [hid]
      show (Function.update profiles t.id _ t.id).hello = _
      rw [Function.update_self]
      rfl
    have hold : (profiles x.id).hello ≠ none := by
      rw [hid]
      exact h.hello
    unfold Eligible
    rw [ja4Of_recaptured h, hself]
    exact and_congr_right' (and_congr_right' (and_congr_left'
      (iff_of_true (Option.some_ne_none c.hello) hold)))
  · exact eligible_of_ne (recapturedTree_of_ne s) hid

theorem membersOf_recaptured (targets : List Target) :
    membersOf (recapturedTree profiles t c s) targets
      = (membersOf profiles targets).map fun m => member (recapturedTree profiles t c s) m.t := by
  unfold membersOf
  rw [List.map_map]
  have hfilter : (targets.filter fun x => Eligible (recapturedTree profiles t c s) x)
      = targets.filter fun x => Eligible profiles x :=
    List.filter_congr fun x _ => decide_eq_decide.mpr (eligible_recaptured h s x)
  rw [hfilter]
  refine List.map_congr_left fun x _ => ?_
  rw [Function.comp_apply, member_t]

omit h in
/-- members of one family with different JA4s compare as before -/
theorem score_recaptured {targets : List Target}
    (hsteady : Steady profiles (recapturedTree profiles t c s) targets t.id) (x u : Target)
    (hx : x ∈ targets) (hu : u ∈ targets) (hxe : Eligible profiles x) (hue : Eligible profiles u)
    (hf : u.family = x.family) (hj : ja4Of profiles u ≠ ja4Of profiles x) (hid : x.id = t.id) :
    u.id ≠ t.id ∧ betterMember (member (recapturedTree profiles t c s) x) (member profiles u)
      = betterMember (member profiles x) (member profiles u) := by
  refine ⟨fun he => hj (ja4Of_congr (he.trans hid.symm)), ?_⟩
  by_cases htied : Tied x u
  · exact hsteady x hx hid hxe u hu hue hf hj htied
  · refine betterMember_of_not_tied (by rw [member_t, member_t]) ?_
    rw [member_t, member_t]
    exact htied

/-- the names of the registry before and after the capture -/
theorem naming_recaptured (ord ord' : MapOrders) {targets : List Target}
    (hsteady : Steady profiles (recapturedTree profiles t c s) targets t.id) :
    (naming ord' (recapturedTree profiles t c s) targets).profiles.map assigned
      = (naming ord profiles targets).profiles.map assigned := by
  unfold naming
  rw [membersOf_recaptured h]
  refine nameMembers_map (membersOf_coherent profiles targets) (fun m _ => member_t _ m.t) ?_ ?_ ord ord'
  · intro m hm
    obtain ⟨x, -, -, rfl⟩ := mem_membersOf.mp hm
    rw [member_t]
    exact ja4Of_recaptured h s x
  · intro a ha b hb hf hj
    obtain ⟨x, hx, hxe, rfl⟩ := mem_membersOf.mp ha
    obtain ⟨u, hu, hue, rfl⟩ := mem_membersOf.mp hb
    rw [member_t, member_t] at hf ⊢
    by_cases hxt : x.id = t.id
    · obtain ⟨hut, hbetter⟩ := score_recaptured s hsteady x u hx hu hxe hue hf.symm hj.symm hxt
      rw [member_of_ne (recapturedTree_of_ne s) hut, ← betterMember_iff, ← betterMember_iff, hbetter]
    · rw [member_of_ne (recapturedTree_of_ne s) hxt]
      by_cases hut : u.id = t.id
      · obtain ⟨-, hbetter⟩ := score_recaptured s hsteady u x hu hx hue hxe hf hj hut
        refine betterMember_flip ?_ (by rw [member_t, member_t]) hbetter
        rw [member_t, member_t, hut]
        exact Ne.symm hxt
      · rw [member_of_ne (recapturedTree_of_ne s) hut]

omit h in
/-- a later time makes the target's members better -/
theorem score_later (hlater : (member profiles t).capturedAt
      ≤ (member (recapturedTree profiles t c s) t).capturedAt) (x : Target) :
    score (member (recapturedTree profiles t c s) x) ≤ score (member profiles x) := by
  by_cases hid : x.id = t.id
  · have htime : ∀ tree : Tree, (member tree x).capturedAt = (member tree t).capturedAt := by
      intro tree
      unfold member
      dsimp only
      rw [hid]
      split <;> split <;> rfl
    unfold score
    rw [htime, htime, member_t, member_t]
    simp only [Prod.Lex.toLex_le_toLex, lt_self_iff_false, true_and, false_or, le_refl, and_true]
    omega
  · rw [member_of_ne (recapturedTree_of_ne s) hid]

/-- another target that heads its class after the capture did so before -/
theorem canonical_before {targets : List Target}
    (hlater : (member profiles t).capturedAt
      ≤ (member (recapturedTree profiles t c s) t).capturedAt) {y : Target} (hyt : y.id ≠ t.id)
    (hcan : Canonical (membersOf (recapturedTree profiles t c s) targets) (member profiles y)) :
    Canonical (membersOf profiles targets) (member profiles y) := by
  obtain ⟨y', hy', hye', hyy⟩ := mem_membersOf.mp hcan.mem
  obtain rfl : y' = y := by rw [← member_t (recapturedTree profiles t c s) y', hyy, member_t]
  have hmem : member profiles y' ∈ membersOf profiles targets :=
    mem_membersOf.mpr ⟨y', hy', (eligible_recaptured h s y').mp hye', rfl⟩
  refine ⟨mem_ofFamily.mpr ⟨hmem, rfl⟩, fun m hm hmj => ?_⟩
  obtain ⟨hm, hmf⟩ := mem_ofFamily.mp hm
  obtain ⟨x, hx, hxe, rfl⟩ := mem_membersOf.mp hm
  -- the member of `x` is at least as good after the capture
  refine (hcan.2 (member (recapturedTree profiles t c s) x) ?_ ?_).trans (score_later s hlater x)
  · rw [member_t] at hmf
    refine mem_ofFamily.mpr ⟨mem_membersOf.mpr ⟨x, hx, (eligible_recaptured h s x).mpr hxe, rfl⟩, ?_⟩
    rw [member_t]
    exact hmf
  · exact (ja4Of_recaptured h s x).trans hmj

/-- every entry can be copied after the capture when it could before -/
theorem copyable_recaptured (ord ord' : MapOrders) {targets : List Target}
    (hlater : (member profiles t).capturedAt
      ≤ (member (recapturedTree profiles t c s) t).capturedAt)
    (hcopy : ∀ p ∈ (naming ord profiles targets).profiles, Copyable profiles p) :
    ∀ p ∈ (naming ord' (recapturedTree profiles t c s) targets).profiles,
      Copyable (recapturedTree profiles t c s) p := by
  intro p hp
  rw [copyable_noFaults]
  by_cases hid : p.labID = t.id
  · have hself : recapturedTree profiles t c s p.labID = { c.over (profiles t.id) with slot := s } := by
      rw [hid]
      exact Function.update_self ..
    rw [hself]
    exact ⟨Option.some_ne_none c.hello, Option.some_ne_none (Doc.good c.profile)⟩
  · -- another target heads the class, so an entry with its id was copied before
    obtain ⟨m, hcan, rfl⟩ := entry_canonical ord' (membersOf_coherent _ targets) hp
    obtain ⟨y, hy, hye, rfl⟩ := mem_membersOf.mp hcan.mem
    have hlab : (entry (member (recapturedTree profiles t c s) y).t.family
        (familyRank (membersOf (recapturedTree profiles t c s) targets)
          (member (recapturedTree profiles t c s) y))
        (member (recapturedTree profiles t c s) y)).labID = y.id := by
      show (member _ y).t.id = y.id
      rw [member_t]
    rw [hlab] at hid ⊢
    rw [member_of_ne (recapturedTree_of_ne s) hid] at hcan
    obtain ⟨u, huid, -, hq⟩ :=
      (canonical_before h s hlater hid hcan).exists_entry ord (membersOf_coherent profiles targets)
    have hcopied : Copyable profiles (entry _ _ u) := hcopy _ hq
    have hulab : u.t.id = y.id := by rw [huid, member_t]
    rw [copyable_noFaults] at hcopied
    rw [show (entry _ _ u).labID = y.id from hulab] at hcopied
    rw [recapturedTree_of_ne s y.id hid]
    exact hcopied

end

/-- every short name stands for the same family and JA4 in both catalogs -/
def SameNames (cat cat' : Catalog) : Prop := ∀ s f j,
  (∃ p ∈ cat'.profiles, p.shortName = s ∧ p.family = f ∧ p.ja4 = j) ↔
    ∃ p ∈ cat.profiles, p.shortName = s ∧ p.family = f ∧ p.ja4 = j

theorem sameNames_of_assigned {cat cat' : Catalog}
    (h : cat'.profiles.map assigned = cat.profiles.map assigned) : SameNames cat cat' := by
  have hone : ∀ cat : Catalog, ∀ s f j,
      (∃ p ∈ cat.profiles, p.shortName = s ∧ p.family = f ∧ p.ja4 = j) ↔
        ∃ a ∈ cat.profiles.map assigned, a.1 = s ∧ a.2.1 = f ∧ a.2.2.2 = j := by
    intro cat s f j
    constructor
    · rintro ⟨p, hp, hs⟩
      exact ⟨assigned p, List.mem_map_of_mem hp, hs⟩
    · rintro ⟨a, ha, hs⟩
      obtain ⟨p, hp, rfl⟩ := List.mem_map.mp ha
      exact ⟨p, hp, hs⟩
  intro s f j
  rw [hone, hone, h]

/-- the export before and an export after the capture -/
theorem export_recaptured {profiles : Tree} {t : Target} {c : Capture} (h : Recaptured profiles t c)
    (s : Option Slot) (ord ord' : MapOrders) (targets : List Target) (chk : Bool)
    (dist dist' out : Dist) (hout : runExport ord profiles targets chk dist = .ok out)
    (hsteady : Steady profiles (recapturedTree profiles t c s) targets t.id) :
    ((member profiles t).capturedAt ≤ (member (recapturedTree profiles t c s) t).capturedAt →
      ∃ out', runExport ord' (recapturedTree profiles t c s) targets chk dist' = .ok out') ∧
    ∀ chk' out', runExport ord' (recapturedTree profiles t c s) targets chk' dist' = .ok out' →
      ∃ cat cat', out.catalog = some cat ∧ out'.catalog = some cat' ∧ SameNames cat cat' := by
  have hnames := naming_recaptured h s ord ord' hsteady
  constructor
  · intro hlater
    obtain ⟨hg, hdedup, hcopy⟩ := (runExport_succeeds_iff ord profiles targets chk dist).mp ⟨out, hout⟩
    refine (runExport_succeeds_iff ord' _ targets chk dist').mpr
      ⟨hg, fun hchk => ?_, copyable_recaptured h s ord ord' hlater hcopy⟩
    -- the keys of the check are read off the assignments
    have hkey : (dedupKey : ExportProfile → Bytes)
        = (fun a : Bytes × Bytes × Nat × Bytes => a.2.1 ++ str "|" ++ a.2.2.2) ∘ assigned := rfl
    have hnd := hdedup hchk
    rw [hkey, ← List.map_map] at hnd ⊢
    rw [hnames]
    exact hnd
  · intro chk' out' hout'
    exact ⟨_, _, runExport_catalog hout, runExport_catalog hout', sameNames_of_assigned hnames⟩

/-- **Nothing is renamed** by a capture of an unchanged fingerprint, when the new time is steady.  The
export after the capture succeeds if the time did not go back. -/
theorem recapture_keeps_names (lab lab' : LabRoot) (t : Target) (c : Capture) (probe : Bytes × Int)
    (h : Recaptured lab.profiles t c) (hlab : captureTarget lab t c probe = lab') :
    lab'.archive = lab.archive ∧ lab'.targets = lab.targets ∧
    (∀ id, id ≠ t.id → lab'.profiles id = lab.profiles id) ∧
    ∀ ord ord' chk dist dist' out,
      runExport ord lab.profiles (loadLab lab.targets lab.archive) chk dist = .ok out →
      Steady lab.profiles lab'.profiles (loadLab lab.targets lab.archive) t.id →
      ((member lab.profiles t).capturedAt ≤ (member lab'.profiles t).capturedAt →
        ∃ out', runExport ord' lab'.profiles (loadLab lab'.targets lab'.archive) chk dist'
          = .ok out') ∧
      ∀ chk' out',
        runExport ord' lab'.profiles (loadLab lab'.targets lab'.archive) chk' dist' = .ok out' →
        ∃ cat cat', out.catalog = some cat ∧ out'.catalog = some cat' ∧ SameNames cat cat' := by
  obtain ⟨s, hs⟩ := captureTarget_unchanged lab t c probe h.unchanged
  rw [hs] at hlab
  subst hlab
  refine ⟨rfl, rfl, fun id hid => Function.update_of_ne hid .., ?_⟩
  intro ord ord' chk dist dist' out hout hsteady
  exact export_recaptured h s ord ord' (loadLab lab.targets lab.archive) chk dist dist' out hout hsteady

/-! ## a tie -/

/-- a directory as `sampleDir`, with its slot -/
def slottedDir (hello ja4 : Bytes) (time : Int) : Dir :=
  { sampleDir hello ja4 time with slot := some { ja4 := ja4, track := trackPinned } }

def wrapperTarget (id : Bytes) (version : Int) : Target :=
  { activeTarget id (str "chrome") version trackPinned with kind := str "curl-impersonate" }

def tiedJA4 : Bytes := str "t13d1516h2_8daaf6152771_02713d6af862"

/-- two pinned targets of one family and version with different JA4s -/
def tiedLab : LabRoot where
  profiles := fun id =>
    if id = str "chrome120" then slottedDir [1] tiedJA4 1
    else if id = str "brave120" then slottedDir [2] (str "t13d1516h2_8daaf6152771_e5627efa2ab1") 2
    else {}
  targets := [wrapperTarget (str "chrome120") 120, wrapperTarget (str "brave120") 120]
  archive := []

/-- the same JA4 again, at that time -/
def capturedAgain (time : Int) : Capture where
  hello := [3]
  profile := { id := str "chrome120", ja4 := tiedJA4 }
  metaDoc := { ja4 := tiedJA4, capturedAt := some time }

theorem tiedLab_recaptured (time : Int) :
    Recaptured tiedLab.profiles (wrapperTarget (str "chrome120") 120) (capturedAgain time) := by
  have hprofile : (tiedLab.profiles (str "chrome120")).profileJA4 = tiedJA4 := by decide +kernel
  have hexported : ja4Of tiedLab.profiles (wrapperTarget (str "chrome120") 120) = tiedJA4 := by
    decide +kernel
  exact ⟨by decide +kernel, by decide +kernel, hprofile, hexported, rfl⟩

theorem tiedLab_export : ∃ out, runExport .sorted tiedLab.profiles
    (loadLab tiedLab.targets tiedLab.archive) true {} = .ok out := exists_export (by decide +kernel)

/-- **Renamed**: the target that is captured again overtakes the other one, and the two names change
places. -/
theorem recapture_renames :
    ∃ lab t c, t ∈ loadLab lab.targets lab.archive ∧ t.status = str "active" ∧
      Recaptured lab.profiles t c ∧ ∃ out out' cat cat',
      runExport .sorted lab.profiles (loadLab lab.targets lab.archive) true {} = .ok out ∧
      runExport .sorted (captureTarget lab t c ([], 0)).profiles
        (loadLab lab.targets lab.archive) true {} = .ok out' ∧
      out.catalog = some cat ∧ out'.catalog = some cat' ∧ ¬ SameNames cat cat' := by
  refine ⟨tiedLab, wrapperTarget (str "chrome120") 120, capturedAgain 3, by decide +kernel,
    by decide +kernel, tiedLab_recaptured 3, ?_⟩
  obtain ⟨out, h⟩ := tiedLab_export
  obtain ⟨out', h'⟩ : ∃ out', runExport .sorted (captureTarget tiedLab
      (wrapperTarget (str "chrome120") 120) (capturedAgain 3) ([], 0)).profiles
      (loadLab tiedLab.targets tiedLab.archive) true {} = .ok out' := exists_export (by decide +kernel)
  refine ⟨out, out', _, _, h, h', runExport_catalog h, runExport_catalog h', fun hs => ?_⟩
  have hafter : ∃ p ∈ (naming .sorted (captureTarget tiedLab (wrapperTarget (str "chrome120") 120)
      (capturedAgain 3) ([], 0)).profiles (loadLab tiedLab.targets tiedLab.archive)).profiles,
      p.shortName = str "chrome" ∧ p.family = str "chrome" ∧ p.ja4 = tiedJA4 := by decide +kernel
  have hbefore : ∀ p ∈ (naming .sorted tiedLab.profiles
      (loadLab tiedLab.targets tiedLab.archive)).profiles,
      p.shortName = str "chrome" → p.ja4 ≠ tiedJA4 := by decide +kernel
  obtain ⟨p, hp, hshort, -, hj⟩ := (hs _ _ _).mp hafter
  exact hbefore p hp hshort hj

/-- a time that stays behind the other target keeps the names -/
theorem recapture_keeps_names_tied : ∃ out out' cat cat',
    runExport .sorted tiedLab.profiles (loadLab tiedLab.targets tiedLab.archive) true {} = .ok out ∧
    runExport .sorted (captureTarget tiedLab (wrapperTarget (str "chrome120") 120)
      (capturedAgain 1) ([], 0)).profiles (loadLab tiedLab.targets tiedLab.archive) true {} = .ok out' ∧
    out.catalog = some cat ∧ out'.catalog = some cat' ∧ SameNames cat cat' := by
  obtain ⟨out, h⟩ := tiedLab_export
  obtain ⟨harchive, htargets, -, hexport⟩ := recapture_keeps_names tiedLab _ _ (capturedAgain 1)
    ([], 0) (tiedLab_recaptured 1) rfl
  obtain ⟨hsucceeds, hsame⟩ := hexport .sorted .sorted true {} {} out h (by decide +kernel)
  obtain ⟨out', h'⟩ := hsucceeds (by decide +kernel)
  obtain ⟨cat, cat', hcat, hcat', hs⟩ := hsame true out' h'
  rw [harchive, htargets] at h'
  exact ⟨out, out', cat, cat', h, h', hcat, hcat', hs⟩

end Labctl
