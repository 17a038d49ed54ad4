import FingerprintLab.Labctl.Names

/-!
# Adding a target

One more eligible target `t` with a fresh id enters the registry (with its directory, as an archive
does).  It may open a class, join one as a duplicate, or become the canonical member of its class.

* `familyRank_grown`     the rank of a member of its family grows by at most one;
* `ShiftsMinimally`      what the new catalog keeps of the old one;
* `export_extended`      an export after the addition shifts the names minimally;
* `legacy_id_moves`      the id of a target that is not eligible is no alias of its own: when it is
                         a legacy key it follows the newest class of `chrome`.
-/

set_option linter.unusedVariables false

namespace Labctl
open Go Lab Ranking Writes

/-! ## one more member -/

section
variable {ms ms' : List RankedMember} {mt : RankedMember} (h : ∀ m, m ∈ ms' ↔ m = mt ∨ m ∈ ms)
include h

theorem mem_ofFamily_grown (m : RankedMember) :
    m ∈ ofFamily ms' mt.t.family ↔ m ∈ mt :: ofFamily ms mt.t.family := by
  rw [mem_ofFamily, List.mem_cons, mem_ofFamily, h]
  constructor
  · rintro ⟨rfl | hm, hf⟩
    · exact Or.inl rfl
    · exact Or.inr ⟨hm, hf⟩
  · rintro (rfl | ⟨hm, hf⟩)
    · exact ⟨Or.inl rfl, rfl⟩
    · exact ⟨Or.inr hm, hf⟩

theorem mem_ofFamily_other {f : Bytes} (hf : f ≠ mt.t.family) (m : RankedMember) :
    m ∈ ofFamily ms' f ↔ m ∈ ofFamily ms f := by
  rw [mem_ofFamily, mem_ofFamily, h]
  constructor
  · rintro ⟨rfl | hm, hmf⟩
    · exact absurd hmf.symm hf
    · exact ⟨hm, hmf⟩
  · rintro ⟨hm, hmf⟩
    exact ⟨Or.inr hm, hmf⟩

theorem familyRank_grown {c : RankedMember} (hf : c.t.family = mt.t.family) :
    familyRank ms' c = rank RankedMember.ja4 score (mt :: ofFamily ms mt.t.family) (score c) := by
  unfold familyRank rankOf rank
  rw [hf, above_congr _ _ (mem_ofFamily_grown h)]

theorem familyRank_keep {c : RankedMember} (hf : c.t.family = mt.t.family)
    (hs : score c ≤ score mt) : familyRank ms' c = familyRank ms c := by
  rw [familyRank_grown h hf, rank_cons_of_lt _ _ _ _ _ hs, ← hf]
  rfl

theorem familyRank_shift {c : RankedMember} (hf : c.t.family = mt.t.family) :
    familyRank ms' c = familyRank ms c ∨ familyRank ms' c = familyRank ms c + 1 := by
  rw [familyRank_grown h hf]
  have hr := rank_cons RankedMember.ja4 score mt (ofFamily ms mt.t.family) (score c)
  unfold familyRank
  rw [hf]
  exact hr

theorem familyRank_other {c : RankedMember} (hf : c.t.family ≠ mt.t.family) :
    familyRank ms' c = familyRank ms c := by
  unfold familyRank rankOf rank
  rw [above_congr _ _ (mem_ofFamily_other h hf)]

theorem canonical_other {c : RankedMember} (hf : c.t.family ≠ mt.t.family) :
    Canonical ms' c ↔ Canonical ms c :=
  ⟨IsBest.congr _ _ (mem_ofFamily_other h hf),
    IsBest.congr _ _ fun m => (mem_ofFamily_other h hf m).symm⟩

theorem filter_other (ord ord' : MapOrders) (hd : DistinctIDs ms) (hd' : DistinctIDs ms') {f : Bytes}
    (hf : f ≠ mt.t.family) : (nameMembers ord' ms').profiles.filter (fun p => p.family = f)
      = (nameMembers ord ms).profiles.filter (fun p => p.family = f) := by
  refine List.Pairwise.eq_of_mem_iff ((profiles_sorted ord' ms').filter _)
    ((profiles_sorted ord ms).filter _) fun p => ?_
  rw [List.mem_filter, List.mem_filter, mem_profiles_canonical ord hd,
    mem_profiles_canonical ord' hd', decide_eq_true_eq]
  refine and_congr_left fun hp => ?_
  have hne : ∀ c : RankedMember, c.t.family = p.family → c.t.family ≠ mt.t.family :=
    fun c hc he => hf (hp.symm.trans (hc.symm.trans he))
  constructor
  · rintro ⟨c, hcan, rfl⟩
    have hn := hne c rfl
    exact ⟨c, (canonical_other h hn).mp hcan, by rw [familyRank_other h hn]⟩
  · rintro ⟨c, hcan, rfl⟩
    have hn := hne c rfl
    exact ⟨c, (canonical_other h hn).mpr hcan, by rw [familyRank_other h hn]⟩

theorem families_other (ord ord' : MapOrders) {f : Bytes} (hf : f ≠ mt.t.family) :
    (nameMembers ord' ms').families.lookup f = (nameMembers ord ms).families.lookup f := by
  have hother := mem_ofFamily_other h hf
  have hlen : (classesOf ms' f).length = (classesOf ms f).length := by
    rw [classesOf_length, classesOf_length]
    congr 1
    ext k
    simp only [List.mem_toFinset, List.mem_map, hother]
  have hord : f ∈ familyOrder ord' ms' ↔ f ∈ familyOrder ord ms := by
    rw [mem_familyOrder_iff, mem_familyOrder_iff, ← List.length_pos_iff, ← List.length_pos_iff, hlen]
  rw [lookup_families, lookup_families, hlen]
  simp only [hord]

/-- a canonical member stays one unless the new one is a better one of its class -/
theorem canonical_keep {c : RankedMember} (hc : Canonical ms c) (hf : c.t.family = mt.t.family)
    (hs : mt.ja4 = c.ja4 → score c ≤ score mt) : Canonical ms' c := by
  refine ⟨mem_ofFamily.mpr ⟨(h c).mpr (Or.inr hc.mem), rfl⟩, fun m hm hj => ?_⟩
  rw [hf] at hm
  rcases List.mem_cons.mp ((mem_ofFamily_grown h m).mp hm) with rfl | hm
  · exact hs hj
  · exact hc.2 m (hf ▸ hm) hj

/-- the new member takes over a class from a worse canonical one -/
theorem canonical_new {c : RankedMember} (hc : Canonical ms c) (hf : c.t.family = mt.t.family)
    (hj : c.ja4 = mt.ja4) (hs : score mt ≤ score c) : Canonical ms' mt := by
  refine ⟨mem_ofFamily.mpr ⟨(h mt).mpr (Or.inl rfl), rfl⟩, fun m hm hmj => ?_⟩
  rcases List.mem_cons.mp ((mem_ofFamily_grown h m).mp hm) with rfl | hm
  · exact le_refl _
  · exact le_trans hs (hc.2 m (hf.symm ▸ hm) (hmj.trans hj.symm))

end

/-! ## what is kept -/

/-- a lab id stands for a family and JA4, as a lab id of the catalog or else as an alias -/
def Resolves (cat : Catalog) (x : Target) (f j : Bytes) : Prop :=
  (∃ p ∈ cat.profiles, p.labID = x.id ∧ p.family = f ∧ p.ja4 = j) ∨
  ((∀ p ∈ cat.profiles, p.labID ≠ x.id) ∧
    ∃ p ∈ cat.profiles, p.family = x.family ∧ cat.aliases.lookup x.id = some p.shortName ∧
      p.family = f ∧ p.ja4 = j)

/-- the new catalog `cat'` after `t` with the directories `profiles'` was added -/
structure ShiftsMinimally (profiles profiles' : Tree) (targets : List Target) (t : Target)
    (cat cat' : Catalog) : Prop where
  /-- the entries with a canonical target better than `t` stay -/
  kept : ∀ p ∈ cat.profiles, p.family = t.family →
    (∀ u ∈ targets, u.id = p.labID →
      betterMember (member profiles u) (member profiles' t) = true) → p ∈ cat'.profiles
  /-- the other classes move down by one at most -/
  shifted : ∀ p ∈ cat.profiles, p.family = t.family → p.ja4 ≠ ja4Of profiles' t →
    ∃ p' ∈ cat'.profiles, p'.family = p.family ∧ p'.ja4 = p.ja4 ∧ p'.labID = p.labID ∧
      (p'.rank = p.rank ∨ p'.rank = p.rank + 1)
  /-- the class of `t` does not move down -/
  own : ∀ p ∈ cat.profiles, p.family = t.family → p.ja4 = ja4Of profiles' t →
    ∃ p' ∈ cat'.profiles, p'.family = p.family ∧ p'.ja4 = p.ja4 ∧ p'.rank ≤ p.rank
  /-- the other families are as they were -/
  others : ∀ f, f ≠ t.family →
    (cat'.profiles.filter fun p => p.family = f) = (cat.profiles.filter fun p => p.family = f) ∧
    cat'.families.lookup f = cat.families.lookup f
  /-- a lab id stands for what it stood for -/
  resolved : ∀ x ∈ targets, (x.id ∈ defaultKeys → Eligible profiles x) → ∀ f j,
    Resolves cat x f j → Resolves cat' x f j
  /-- a pinned target is not the newest of a family with a latest one -/
  pinned : t.track ≠ trackLatest →
    (∃ u ∈ targets, Eligible profiles u ∧ u.family = t.family ∧ u.track = trackLatest) →
    ∀ p ∈ cat'.profiles, p.labID = t.id → p.family = t.family ∧ p.shortName ≠ t.family

section
variable {profiles profiles' : Tree} {targets targets' : List Target} {t : Target}
  (hids : (targets.map Target.id).Nodup) (hfresh : t.id ∉ targets.map Target.id)
  (hperm : targets'.Perm (t :: targets)) (htree : ∀ id, id ≠ t.id → profiles' id = profiles id)
  (helig : Eligible profiles' t)

theorem member_of_ne {x : Target} (htree : ∀ id, id ≠ t.id → profiles' id = profiles id)
    (hx : x.id ≠ t.id) : member profiles' x = member profiles x := by
  unfold member
  rw [htree x.id hx]

theorem eligible_of_ne {x : Target} (htree : ∀ id, id ≠ t.id → profiles' id = profiles id)
    (hx : x.id ≠ t.id) : Eligible profiles' x ↔ Eligible profiles x := by
  unfold Eligible ja4Of
  rw [member_of_ne htree hx, htree x.id hx]

include hfresh in
theorem id_ne {x : Target} (hx : x ∈ targets) : x.id ≠ t.id := fun he =>
  hfresh (he ▸ List.mem_map_of_mem hx)

include hfresh hperm htree helig in
theorem mem_membersOf_extended (m : RankedMember) :
    m ∈ membersOf profiles' targets' ↔ m = member profiles' t ∨ m ∈ membersOf profiles targets := by
  rw [mem_membersOf, mem_membersOf]
  constructor
  · rintro ⟨x, hx, he, rfl⟩
    rcases List.mem_cons.mp (hperm.mem_iff.mp hx) with rfl | hx
    · exact Or.inl rfl
    · have hne := id_ne hfresh hx
      exact Or.inr ⟨x, hx, (eligible_of_ne htree hne).mp he, (member_of_ne htree hne).symm⟩
  · rintro (rfl | ⟨x, hx, he, rfl⟩)
    · exact ⟨t, hperm.mem_iff.mpr List.mem_cons_self, helig, rfl⟩
    · have hne := id_ne hfresh hx
      exact ⟨x, hperm.mem_iff.mpr (List.mem_cons_of_mem _ hx), (eligible_of_ne htree hne).mpr he,
        member_of_ne htree hne⟩

include hids hfresh hperm in
theorem extended_ids : (targets'.map Target.id).Nodup := by
  rw [(hperm.map Target.id).nodup_iff, List.map_cons]
  exact List.nodup_cons.mpr ⟨hfresh, hids⟩

end

/-! ## lab ids -/

/-- within its family an alias names one entry -/
theorem shortName_same {f : Bytes} {i j : Nat} (h : shortName f i = shortName f j) : i = j := by
  have hne : ∀ k, f ≠ f ++ str "-" ++ decimal k := by
    intro k he
    have hl := congrArg List.length he
    rw [List.length_append, List.length_append] at hl
    have hd : (str "-").length = 1 := rfl
    omega
  rcases shortName_eq_cases h with ⟨-, h⟩ | ⟨-, -, h⟩ | ⟨-, -, h⟩
  · exact h
  · exact absurd h (hne i)
  · exact absurd h (hne j)

/-- **A lab id stands for its own family and JA4** when its target is eligible, and for nothing
otherwise. -/
theorem resolves_iff (ord : MapOrders) {profiles : Tree} {targets : List Target}
    (hids : (targets.map Target.id).Nodup) {x : Target} (hx : x ∈ targets)
    (hkey : x.id ∈ defaultKeys → Eligible profiles x) (f j : Bytes) :
    Resolves (catalogOf ord (naming ord profiles targets)) x f j ↔
      Eligible profiles x ∧ f = x.family ∧ j = ja4Of profiles x := by
  have hl : Lossless profiles targets _ := naming_lossless ord hids
  constructor
  · rintro (⟨p, hp, hid, rfl, rfl⟩ | ⟨hno, p, hp, hf, hlook, rfl, rfl⟩)
    · obtain ⟨t, ht, he, htid, htf, htj, -⟩ := hl.best p hp
      have htx : t = x := target_inj hids ht hx (htid.trans hid)
      subst htx
      exact ⟨he, htf.symm, htj.symm⟩
    · rcases (lookup_cases ord hids _ _).mp hlook with ⟨t, hd, htid, hs⟩ | ⟨hnd, hk, -⟩
      · have htx : t = x := target_inj hids hd.1 hx htid
        subst htx
        refine ⟨hd.2.1, hf, ?_⟩
        obtain ⟨c, hc, hce, hcan, hcf, hcj⟩ := canonical_target hd.1 hd.2.1
        have hq := target_entry ord hids hcan
        have hpq : p = _ := profiles_ext ord _ hp hq (hf.trans hcf.symm) (by
          rw [standing_eq hc hce hcan ⟨hcf, hcj⟩, hl.short p hp, hf] at hs
          exact shortName_same hs)
        rw [hpq]
        exact hcj
      · -- a legacy key that is eligible is a lab id of the catalog
        have he := hkey hk
        have hcan := (canonical_iff x hx he).mpr fun hd => hnd x hd rfl
        refine absurd ?_ (hno _ (target_entry ord hids hcan))
        show (member profiles x).t.id = x.id
        rw [member_t]
  · rintro ⟨he, rfl, rfl⟩
    by_cases hlab : ∃ p ∈ (naming ord profiles targets).profiles, p.labID = x.id
    · obtain ⟨p, hp, hid⟩ := hlab
      obtain ⟨t, ht, -, htid, htf, htj, -⟩ := hl.best p hp
      have htx : t = x := target_inj hids ht hx (htid.trans hid)
      subst htx
      exact Or.inl ⟨p, hp, hid, htf.symm, htj.symm⟩
    · rcases hl.resolved x hx he with ⟨p, ⟨hp, hid⟩, -⟩ | ⟨p, hp, hlook, hf, hj⟩
      · exact absurd ⟨p, hp, hid⟩ hlab
      · exact Or.inr ⟨fun q hq hid => hlab ⟨q, hq, hid⟩, p, hp, hf, hlook, hf, hj⟩

/-! ## the two catalogs -/

section
variable {profiles profiles' : Tree} {targets targets' : List Target} {t : Target}
  (hids : (targets.map Target.id).Nodup) (hfresh : t.id ∉ targets.map Target.id)
  (hperm : targets'.Perm (t :: targets)) (htree : ∀ id, id ≠ t.id → profiles' id = profiles id)
  (helig : Eligible profiles' t)
include hids hfresh hperm htree helig

omit helig in
/-- a latest target of the family is better than a pinned one, so its class stands in front -/
theorem pinned_not_newest (ord' : MapOrders) (htrack : t.track ≠ trackLatest)
    (hlatest : ∃ u ∈ targets, Eligible profiles u ∧ u.family = t.family ∧ u.track = trackLatest) :
    ∀ p ∈ (naming ord' profiles' targets').profiles, p.labID = t.id →
      p.family = t.family ∧ p.shortName ≠ t.family := by
  obtain ⟨u, hu, hue, huf, hut⟩ := hlatest
  intro p hp hid
  have hids' := extended_ids hids hfresh hperm
  have hmt : (member profiles' t).t.family = t.family := by rw [member_t]
  obtain ⟨x, hx, -, -, rfl⟩ := entry_target ord' hids' hp
  have hxt : x = t := by
    refine target_inj hids' hx (hperm.mem_iff.mpr List.mem_cons_self) ?_
    rw [← hid]
    show x.id = (member profiles' x).t.id
    rw [member_t]
  subst hxt
  refine ⟨rfl, ?_⟩
  have hne := id_ne hfresh hu
  have hum : member profiles' u ∈ membersOf profiles' targets' :=
    mem_membersOf.mpr ⟨u, hperm.mem_iff.mpr (List.mem_cons_of_mem _ hu),
      (eligible_of_ne htree hne).mpr hue, rfl⟩
  have hbetter : betterMember (member profiles' u) (member profiles' x) = true := by
    unfold betterMember
    rw [member_t, member_t]
    simp [hut, htrack]
  have hpos := familyRank_pos hum (by rw [member_t, hmt]; exact huf)
    ((betterMember_iff _ _).mp hbetter)
  show shortName x.family (familyRank _ _) ≠ x.family
  intro he
  have hz := shortName_same (he.trans (shortName_zero x.family).symm)
  omega

theorem naming_extended (ord ord' : MapOrders) : ShiftsMinimally profiles profiles' targets t
    (catalogOf ord (naming ord profiles targets))
    (catalogOf ord' (naming ord' profiles' targets')) := by
  have hids' := extended_ids hids hfresh hperm
  have hd := membersOf_distinct profiles hids
  have hd' := membersOf_distinct profiles' hids'
  have h := mem_membersOf_extended hfresh hperm htree helig
  have hmem := @mem_profiles_canonical ord _ hd
  have hmem' := @mem_profiles_canonical ord' _ hd'
  have hmt : (member profiles' t).t.family = t.family := by rw [member_t]
  refine ⟨?_, ?_, ?_, ?_, ?_, ?_⟩
  · intro p hp hf hbetter
    obtain ⟨u, hu, hue, hcan, rfl⟩ := entry_target ord hids hp
    have huid : u.id = (member profiles u).t.id := by rw [member_t]
    have hlt := (betterMember_iff _ _).mp (hbetter u hu huid)
    have huf : (member profiles u).t.family = (member profiles' t).t.family := by
      rw [member_t, member_t]
      exact hf
    refine (hmem' _).mpr ⟨_, canonical_keep h hcan huf fun _ => hlt.le, ?_⟩
    rw [familyRank_keep h huf hlt.le, member_t]
  · intro p hp hf hj
    obtain ⟨c, hcan, rfl⟩ := (hmem p).mp hp
    have hcf : c.t.family = (member profiles' t).t.family := hf.trans hmt.symm
    have hcan' := canonical_keep h hcan hcf fun he => absurd he.symm hj
    exact ⟨_, (hmem' _).mpr ⟨c, hcan', rfl⟩, rfl, rfl, rfl, familyRank_shift h hcf⟩
  · intro p hp hf hj
    obtain ⟨c, hcan, rfl⟩ := (hmem p).mp hp
    have hcf : c.t.family = (member profiles' t).t.family := hf.trans hmt.symm
    rcases le_total (score c) (score (member profiles' t)) with hs | hs
    · have hcan' := canonical_keep h hcan hcf fun _ => hs
      refine ⟨_, (hmem' _).mpr ⟨c, hcan', rfl⟩, rfl, rfl, ?_⟩
      show familyRank _ c ≤ familyRank _ c
      rw [familyRank_keep h hcf hs]
    · have hcan' := canonical_new h hcan hcf hj hs
      refine ⟨_, (hmem' _).mpr ⟨_, hcan', rfl⟩, hcf.symm, hj.symm, ?_⟩
      show familyRank _ (member profiles' t) ≤ familyRank _ c
      rw [familyRank_keep h rfl (le_refl _)]
      unfold familyRank
      rw [hcf]
      exact rank_mono _ _ _ _ _ hs
  · intro f hf
    rw [← hmt] at hf
    exact ⟨filter_other h ord ord' hd hd' hf, families_other h ord ord' hf⟩
  · intro x hx hkey f j hr
    have hne := id_ne hfresh hx
    have hel := eligible_of_ne htree hne
    rw [resolves_iff ord hids hx hkey] at hr
    rw [resolves_iff ord' hids' (hperm.mem_iff.mpr (List.mem_cons_of_mem _ hx))
      fun hk => hel.mpr (hkey hk)]
    refine ⟨hel.mpr hr.1, hr.2.1, hr.2.2.trans ?_⟩
    unfold ja4Of
    rw [member_of_ne htree hne]
  · exact pinned_not_newest hids hfresh hperm htree ord'

/-- **Adding a target shifts names minimally.** -/
theorem export_extended (ord ord' : MapOrders) (chk chk' : Bool) (dist dist' out out' : Dist)
    (h : runExport ord profiles targets chk dist = .ok out)
    (h' : runExport ord' profiles' targets' chk' dist' = .ok out') :
    ∃ cat cat', out.catalog = some cat ∧ out'.catalog = some cat' ∧
      ShiftsMinimally profiles profiles' targets t cat cat' :=
  ⟨_, _, runExport_catalog h, runExport_catalog h',
    naming_extended hids hfresh hperm htree helig ord ord'⟩

end

/-- a pinned target of a new class, with its directory -/
def pinnedTarget : Target := activeTarget (str "chrome-119") (str "chrome") 119 trackPinned

def extendedTree : Tree := Function.update sampleTree (str "chrome-119")
  (sampleDir [4] (str "t13d1517h2_8daaf6152771_b0da82dd1658") 1)

theorem export_extended_sample : ∃ out out' cat cat',
    runExport .sorted sampleTree sampleTargets true {} = .ok out ∧
    runExport .sorted extendedTree (sampleTargets ++ [pinnedTarget]) true {} = .ok out' ∧
    out.catalog = some cat ∧ out'.catalog = some cat' ∧
    ShiftsMinimally sampleTree extendedTree sampleTargets pinnedTarget cat cat' := by
  obtain ⟨out, h⟩ := sampleTargets_export
  obtain ⟨out', h'⟩ : ∃ out', runExport .sorted extendedTree (sampleTargets ++ [pinnedTarget]) true {}
      = .ok out' := exists_export (by decide +kernel)
  have hperm : (sampleTargets ++ [pinnedTarget]).Perm (pinnedTarget :: sampleTargets) :=
    List.perm_append_singleton _ _
  obtain ⟨cat, cat', hcat, hcat', hs⟩ := export_extended (by decide +kernel) (by decide +kernel)
    hperm (fun id hid => Function.update_of_ne hid ..) (by decide +kernel) .sorted .sorted true
    true {} {} out out' h h'
  exact ⟨out, out', cat, cat', h, h', hcat, hcat', hs⟩

/-! ## a legacy key as the id of a target that is not exported -/

/-- a target that is not active and has a legacy key as its id -/
def legacyTarget : Target :=
  normalizeTarget { id := str "chrome_pq", family := str "chrome", status := str "planned" }

def legacyTargets : List Target :=
  [legacyTarget, activeTarget (str "chrome-120") (str "chrome") 120 trackPinned]

def newestTarget : Target := activeTarget (str "chrome-linux") (str "chrome") 0 trackLatest

/-- Its id is a legacy alias of the newest class of `chrome`; when a newer class arrives, it moves
there. -/
theorem legacy_id_moves :
    ((newestTarget :: legacyTargets).map Target.id).Nodup ∧ Eligible sampleTree newestTarget ∧
    ∃ out out' cat cat', runExport .sorted sampleTree legacyTargets true {} = .ok out ∧
      runExport .sorted sampleTree (newestTarget :: legacyTargets) true {} = .ok out' ∧
      out.catalog = some cat ∧ out'.catalog = some cat' ∧ legacyTarget ∈ legacyTargets ∧
      Resolves cat legacyTarget (str "chrome") (str "t13d1516h2_8daaf6152771_e5627efa2ab1") ∧
      ¬ Resolves cat' legacyTarget (str "chrome") (str "t13d1516h2_8daaf6152771_e5627efa2ab1") := by
  refine ⟨by decide +kernel, by decide +kernel, ?_⟩
  obtain ⟨out, h⟩ : ∃ out, runExport .sorted sampleTree legacyTargets true {} = .ok out :=
    exists_export (by decide +kernel)
  obtain ⟨out', h'⟩ : ∃ out', runExport .sorted sampleTree (newestTarget :: legacyTargets) true {}
      = .ok out' := exists_export (by decide +kernel)
  refine ⟨out, out', _, _, h, h', runExport_catalog h, runExport_catalog h',
    List.mem_cons_self, Or.inr ⟨?_, ?_⟩, ?_⟩
  · show ∀ p ∈ (naming .sorted sampleTree legacyTargets).profiles, p.labID ≠ legacyTarget.id
    decide +kernel
  · show ∃ p ∈ (naming .sorted sampleTree legacyTargets).profiles, p.family = legacyTarget.family ∧
      (naming .sorted sampleTree legacyTargets).aliases.lookup legacyTarget.id
        = some p.shortName ∧ p.family = str "chrome" ∧ p.ja4 = _
    decide +kernel
  · have hlab : ∀ p ∈ (naming .sorted sampleTree (newestTarget :: legacyTargets)).profiles,
        p.labID ≠ legacyTarget.id := by decide +kernel
    have halias : ∀ p ∈ (naming .sorted sampleTree (newestTarget :: legacyTargets)).profiles,
        (naming .sorted sampleTree (newestTarget :: legacyTargets)).aliases.lookup
          legacyTarget.id = some p.shortName →
        p.ja4 ≠ str "t13d1516h2_8daaf6152771_e5627efa2ab1" := by decide +kernel
    rintro (⟨p, hp, hid, -⟩ | ⟨-, p, hp, -, hl, -, hj⟩)
    · exact hlab p hp hid
    · exact halias p hp hl hj

end Labctl
