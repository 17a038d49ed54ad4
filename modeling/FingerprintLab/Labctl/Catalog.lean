import FingerprintLab.Labctl.Outcome

/-!
# The catalog of a successful export

* `Lossless`                    every eligible target is in the catalog once, as an entry or as an
                                alias, the entries are ranked without gaps;
* `export_lossless`             a successful export is lossless, and the check never fails;
* `export_order_independent`    the catalog does not depend on the order of the registry or of Go's
                                map iterations.
-/

set_option linter.unusedVariables false

namespace Labctl
open Go Lab Ranking Writes

/-- what a catalog says about the eligible targets of a registry -/
structure Lossless (profiles : Tree) (targets : List Target) (cat : Catalog) : Prop where
  nodup : cat.profiles.Nodup
  /-- an entry stands for an eligible target of its family and JA4, -/
  sound : ∀ p ∈ cat.profiles, ∃ t ∈ targets, Eligible profiles t ∧ t.family = p.family ∧
    ja4Of profiles t = p.ja4
  /-- and every pair of an eligible target has one entry. -/
  complete : ∀ t ∈ targets, Eligible profiles t →
    ∃! p, p ∈ cat.profiles ∧ p.family = t.family ∧ p.ja4 = ja4Of profiles t
  /-- The lab id is that of the best target of the pair. -/
  best : ∀ p ∈ cat.profiles, ∃ t ∈ targets, Eligible profiles t ∧ t.id = p.labID ∧
    t.family = p.family ∧ ja4Of profiles t = p.ja4 ∧
    ∀ t' ∈ targets, Eligible profiles t' → t'.family = p.family → ja4Of profiles t' = p.ja4 →
      t' ≠ t → betterMember (member profiles t) (member profiles t') = true
  /-- The ranks of a family are 0, 1, ... in the order of the catalog -/
  ranks : ∀ f, (cat.profiles.filter fun p => p.family = f).map ExportProfile.rank
    = List.range (cat.profiles.filter fun p => p.family = f).length
  /-- and in the order of the canonical targets. -/
  order : ∀ p ∈ cat.profiles, ∀ q ∈ cat.profiles, p.family = q.family →
    ∀ t ∈ targets, ∀ u ∈ targets, t.id = p.labID → u.id = q.labID →
      (p.rank < q.rank ↔ betterMember (member profiles t) (member profiles u) = true)
  short : ∀ p ∈ cat.profiles, p.shortName = shortName p.family p.rank
  families : ∀ f, cat.families.lookup f =
    if (cat.profiles.filter fun p => p.family = f) = [] then none
    else some ((cat.profiles.filter fun p => p.family = f).map ExportProfile.shortName)
  /-- Every eligible target is the lab id of one entry or an alias of its own pair's entry. -/
  resolved : ∀ t ∈ targets, Eligible profiles t →
    (∃! p, p ∈ cat.profiles ∧ p.labID = t.id) ∨
    ∃ p ∈ cat.profiles, cat.aliases.lookup t.id = some p.shortName ∧ p.family = t.family ∧
      p.ja4 = ja4Of profiles t

/-- the canonical target of an eligible target's pair -/
theorem canonical_target {profiles : Tree} {targets : List Target} {t : Target} (ht : t ∈ targets) (he : Eligible profiles t) :
    ∃ c ∈ targets, Eligible profiles c ∧ Canonical (membersOf profiles targets) (member profiles c) ∧
      c.family = t.family ∧ ja4Of profiles c = ja4Of profiles t := by
  obtain ⟨c, hc, hf, hj⟩ := exists_canonical (membersOf_coherent profiles targets)
    (mem_membersOf.mpr ⟨t, ht, he, rfl⟩)
  obtain ⟨t', ht', he', rfl⟩ := mem_membersOf.mp hc.mem
  rw [member_t, member_t] at hf
  exact ⟨t', ht', he', hc, hf, hj⟩

section
variable {profiles : Tree} {targets : List Target} (ord : MapOrders)
  (hids : (targets.map Target.id).Nodup)
include hids

/-- an entry, its canonical target and its rank -/
theorem entry_target {p : ExportProfile} (hp : p ∈ (naming ord profiles targets).profiles) :
    ∃ t ∈ targets, Eligible profiles t ∧ Canonical (membersOf profiles targets) (member profiles t) ∧
      p = entry t.family (familyRank (membersOf profiles targets) (member profiles t))
        (member profiles t) := by
  obtain ⟨c, hc, rfl⟩ :=
    (mem_profiles_canonical ord (membersOf_distinct profiles hids) p).mp hp
  obtain ⟨t, ht, he, rfl⟩ := mem_membersOf.mp hc.mem
  exact ⟨t, ht, he, hc, by rw [member_t]⟩

theorem target_entry {t : Target}
    (hc : Canonical (membersOf profiles targets) (member profiles t)) :
    entry t.family (familyRank (membersOf profiles targets) (member profiles t)) (member profiles t)
      ∈ (naming ord profiles targets).profiles :=
  (mem_profiles_canonical ord (membersOf_distinct profiles hids) _).mpr
    ⟨member profiles t, hc, by rw [member_t]⟩

theorem target_inj {t u : Target} (ht : t ∈ targets) (hu : u ∈ targets) (h : t.id = u.id) : t = u :=
  List.inj_on_of_nodup_map hids ht hu h

theorem naming_lossless : Lossless profiles targets (catalogOf ord (naming ord profiles targets)) where
  nodup := profiles_nodup ord _
  sound := by
    intro p hp
    obtain ⟨t, ht, he, -, rfl⟩ := entry_target ord hids hp
    exact ⟨t, ht, he, rfl, rfl⟩
  complete := by
    intro t ht he
    obtain ⟨c, hc, hce, hcan, hf, hj⟩ := canonical_target ht he
    refine ⟨_, ⟨target_entry ord hids hcan, hf, hj⟩, ?_⟩
    rintro q ⟨hq, hqf, hqj⟩
    obtain ⟨u, hu, hue, hucan, rfl⟩ := entry_target ord hids hq
    have hm : member profiles u = member profiles c := by
      refine hucan.unique (membersOf_distinct profiles hids) hcan ?_ (hqj.trans hj.symm)
      rw [member_t, member_t]
      exact hqf.trans hf.symm
    have huc : u = c := by
      rw [← member_t profiles u, hm, member_t]
    rw [huc]
  best := by
    intro p hp
    obtain ⟨t, ht, he, hcan, rfl⟩ := entry_target ord hids hp
    refine ⟨t, ht, he, ?_, rfl, rfl, ?_⟩
    · show t.id = (member profiles t).t.id
      rw [member_t]
    · intro t' ht' he' hf' hj' hne
      have hm' : member profiles t' ∈ ofFamily (membersOf profiles targets)
          (member profiles t).t.family := by
        refine mem_ofFamily.mpr ⟨mem_membersOf.mpr ⟨t', ht', he', rfl⟩, ?_⟩
        rw [member_t, member_t]
        exact hf'
      rw [betterMember_iff]
      refine lt_of_le_of_ne (hcan.2 _ hm' hj') fun hs => hne ?_
      have hid := score_id hs
      rw [member_t, member_t] at hid
      exact target_inj hids ht' ht hid.symm
  ranks := by
    intro f
    show List.map _ (List.filter _ (nameMembers ord (membersOf profiles targets)).profiles)
      = List.range (List.filter _ (nameMembers ord (membersOf profiles targets)).profiles).length
    rw [filter_profiles, entriesFrom_ranks, entriesFrom_length]
  order := by
    intro p hp q hq hf t ht u hu htp huq
    obtain ⟨t', ht', he, hcan, rfl⟩ := entry_target ord hids hp
    obtain ⟨u', hu', hue, hucan, rfl⟩ := entry_target ord hids hq
    have htt : t = t' := target_inj hids ht ht' (by rw [htp]; show (member profiles t').t.id = _; rw [member_t])
    have huu : u = u' := target_inj hids hu hu' (by rw [huq]; show (member profiles u').t.id = _; rw [member_t])
    subst htt
    subst huu
    rw [betterMember_iff]
    refine familyRank_lt_iff (membersOf_distinct profiles hids) hcan hucan ?_
    rw [member_t, member_t]
    exact hf
  short := by
    intro p hp
    obtain ⟨t, -, -, -, rfl⟩ := entry_target ord hids hp
    rfl
  families := by
    intro f
    show (nameMembers ord (membersOf profiles targets)).families.lookup f
      = if List.filter _ (nameMembers ord (membersOf profiles targets)).profiles = [] then none
        else some (List.map _ (List.filter _ (nameMembers ord (membersOf profiles targets)).profiles))
    rw [filter_profiles, lookup_families, entriesFrom_shorts]
    have hnil : entriesFrom f 0 (classesOf (membersOf profiles targets) f) = [] ↔
        classesOf (membersOf profiles targets) f = [] := by
      rw [← List.length_eq_zero_iff, entriesFrom_length, List.length_eq_zero_iff]
    have hord := mem_familyOrder_iff ord (membersOf profiles targets) f
    by_cases hc : classesOf (membersOf profiles targets) f = []
    · rw [if_neg (fun h => hord.mp h hc), if_pos (hnil.mpr hc)]
    · rw [if_pos (hord.mpr hc), if_neg (fun h => hc (hnil.mp h))]
  resolved := by
    intro t ht he
    by_cases hcan : Canonical (membersOf profiles targets) (member profiles t)
    · refine Or.inl ⟨_, ⟨target_entry ord hids hcan, ?_⟩, ?_⟩
      · show (member profiles t).t.id = t.id
        rw [member_t]
      · rintro q ⟨hq, hqid⟩
        obtain ⟨u, hu, -, -, rfl⟩ := entry_target ord hids hq
        have hut : u = t := target_inj hids hu ht (by rw [← hqid]; show _ = (member profiles u).t.id; rw [member_t])
        rw [hut]
    · obtain ⟨c, hc, hce, hccan, hf, hj⟩ := canonical_target ht he
      refine Or.inr ⟨_, target_entry ord hids hccan, ?_, hf, hj⟩
      have hl := lookup_aliases_dup ord (membersOf_distinct profiles hids)
        (mem_membersOf.mpr ⟨t, ht, he, rfl⟩) hcan hccan (by rw [member_t, member_t]; exact hf) hj
      rw [member_t, member_t] at hl
      exact hl

end

/-! ## the dedup check -/

/-- a key splits at its last separator -/
theorem append_sep_inj {α : Type} {x : α} {a b c d : List α} (hb : x ∉ b) (hd : x ∉ d)
    (h : a ++ x :: b = c ++ x :: d) : a = c ∧ b = d := by
  rcases List.append_eq_append_iff.mp h with ⟨as, hc, hxb⟩ | ⟨as, ha, hxd⟩
  · cases as with
    | nil => exact ⟨by simpa using hc.symm, (List.cons.inj hxb).2⟩
    | cons y as =>
      refine absurd ?_ hb
      rw [(List.cons.inj hxb).2]
      simp
  · cases as with
    | nil => exact ⟨by simpa using ha, (List.cons.inj hxd).2.symm⟩
    | cons y as =>
      refine absurd ?_ hd
      rw [(List.cons.inj hxd).2]
      simp

theorem dedupKey_inj {p q : ExportProfile} (hp : 0x7c ∉ p.ja4) (hq : 0x7c ∉ q.ja4)
    (h : dedupKey p = dedupKey q) : p.family = q.family ∧ p.ja4 = q.ja4 := by
  unfold dedupKey at h
  rw [List.append_assoc, List.append_assoc] at h
  exact append_sep_inj (x := 0x7c) hp hq h

/-- the check passes when no JA4 contains the separator -/
theorem dedupKeys_nodup (ord : MapOrders) {profiles : Tree} {targets : List Target}
    (hids : (targets.map Target.id).Nodup)
    (hja4 : ∀ t ∈ targets, Eligible profiles t → 0x7c ∉ ja4Of profiles t) :
    ((naming ord profiles targets).profiles.map dedupKey).Nodup := by
  have hl : Lossless profiles targets _ := naming_lossless ord hids
  refine hl.nodup.map_on fun p hp q hq hk => ?_
  obtain ⟨t, ht, he, hf, hj⟩ := hl.sound p hp
  obtain ⟨u, hu, hue, huf, huj⟩ := hl.sound q hq
  obtain ⟨hpf, hpj⟩ := dedupKey_inj (hj ▸ hja4 t ht he) (huj ▸ hja4 u hu hue) hk
  exact (hl.complete t ht he).unique ⟨hp, hf.symm, hj.symm⟩
    ⟨hq, hpf.symm.trans hf.symm, hpj.symm.trans hj.symm⟩

/-- **Export is a lossless dedup**, and the dedup check never fails. -/
theorem export_lossless (ord : MapOrders) (profiles : Tree) (targets : List Target) (dist : Dist)
    (hids : (targets.map Target.id).Nodup) :
    (∀ chk out, runExport ord profiles targets chk dist = .ok out →
      ∃ cat, out.catalog = some cat ∧ Lossless profiles targets cat) ∧
    ((∀ t ∈ targets, Eligible profiles t → 0x7c ∉ ja4Of profiles t) →
      ∀ prev short f j d, runExport ord profiles targets true dist ≠ .error (.dedup prev short f j, d)) := by
  refine ⟨fun chk out h => ⟨_, runExport_catalog h, naming_lossless ord hids⟩, ?_⟩
  intro hja4 prev short f j d h
  exact runExport_dedup h (dedupKeys_nodup ord hids hja4)

/-! ## order independence -/

theorem stampLines_congr (ord ord' : MapOrders) (ps : List ExportProfile) (a : Aliases) :
    stampLines ord ps a = stampLines ord' ps a := by
  have hkeys : (ord.keys a.keys).insertionSort (· ≤ ·) = (ord'.keys a.keys).insertionSort (· ≤ ·) := by
    refine List.Perm.eq_of_pairwise' (List.pairwise_insertionSort _ _)
      (List.pairwise_insertionSort _ _) ?_
    refine (List.perm_insertionSort _ _).trans (List.Perm.trans ?_ (List.perm_insertionSort _ _).symm)
    refine (List.perm_ext_iff_of_nodup (ord.keys_nodup _) (ord'.keys_nodup _)).mpr fun k => ?_
    rw [ord.mem_keys, ord'.mem_keys]
  unfold stampLines
  rw [hkeys]

theorem catalogStamp_congr (ord ord' : MapOrders) (ps : List ExportProfile) (a : Aliases) :
    catalogStamp ord ps a = catalogStamp ord' ps a := by
  unfold catalogStamp
  rw [stampLines_congr ord ord']

theorem catalogOf_congr (ord ord' : MapOrders) (n : Naming) : catalogOf ord n = catalogOf ord' n := by
  unfold catalogOf
  rw [catalogStamp_congr ord ord']

/-- **The export does not depend on incidental orders**: neither on that of the registry nor on
those of the map iterations.  It rests on `betterMember` being a strict total order. -/
theorem export_order_independent (profiles : Tree) (targets targets' : List Target)
    (hids : (targets.map Target.id).Nodup) (hperm : targets.Perm targets') (ord ord' : MapOrders)
    (chk : Bool) (dist out : Dist) (h : runExport ord profiles targets chk dist = .ok out) :
    (∃ out' cat, runExport ord' profiles targets' chk dist = .ok out' ∧
      out.catalog = some cat ∧ out'.catalog = some cat) ∧
    (∀ a, betterMember a a = false) ∧
    (∀ a b c, betterMember a b = true → betterMember b c = true → betterMember a c = true) ∧
    ∀ a b, a.t.id ≠ b.t.id → betterMember a b = true ∨ betterMember b a = true := by
  refine ⟨?_, betterMember_irrefl, fun a b c => betterMember_trans, fun a b => betterMember_total⟩
  have hids' : (targets'.map Target.id).Nodup := (hperm.map _).nodup_iff.mp hids
  have hmem : ∀ m, m ∈ membersOf profiles targets ↔ m ∈ membersOf profiles targets' := by
    intro m
    rw [mem_membersOf, mem_membersOf]
    simp only [hperm.mem_iff]
  have hn : naming ord profiles targets = naming ord' profiles targets' :=
    nameMembers_congr hmem ord ord' (membersOf_distinct profiles hids)
      (membersOf_distinct profiles hids')
  obtain ⟨hg, hd, hcopy⟩ := (runExport_succeeds_iff ord profiles targets chk dist).mp ⟨out, h⟩
  have hg' : FamiliesGiven targets' := fun t ht => hg t (hperm.mem_iff.mpr ht)
  rw [hn] at hd hcopy
  obtain ⟨out', h'⟩ :=
    (runExport_succeeds_iff ord' profiles targets' chk dist).mpr ⟨hg', hd, hcopy⟩
  refine ⟨out', _, h', runExport_catalog h, ?_⟩
  rw [runExport_catalog h', hn, catalogOf_congr ord ord']

/-! ## a registry with a duplicate -/

/-- a directory with a hello of that JA4 -/
def sampleDir (hello ja4 : Bytes) (time : Int) : Dir where
  hello := some hello
  profile := some (.good { ja4 := ja4, format := str "utls-raw-clienthello-v1" })
  metaDoc := some (.good { ja4 := ja4, capturedAt := some time })

def sampleTree : Tree := fun id =>
  if id = str "chrome-linux" then sampleDir [1] (str "t13d1516h2_8daaf6152771_02713d6af862") 3
  else if id = str "chrome-120" then sampleDir [2] (str "t13d1516h2_8daaf6152771_e5627efa2ab1") 2
  else if id = str "brave" then sampleDir [3] (str "t13d1516h2_8daaf6152771_02713d6af862") 1
  else {}

def activeTarget (id family : Bytes) (version : Int) (track : Bytes) : Target :=
  normalizeTarget { id, family, version, track, status := str "active", utlsReady := true }

def sampleTargets : List Target :=
  [activeTarget (str "brave") (str "chrome") 120 [],
    activeTarget (str "chrome-120") (str "chrome") 120 trackPinned,
    activeTarget (str "chrome-linux") (str "chrome") 0 trackLatest]

theorem sampleTargets_export : ∃ out,
    runExport .sorted sampleTree sampleTargets true {} = .ok out :=
  exists_export (by decide +kernel)

theorem export_lossless_sample :
    (∃ out cat, runExport .sorted sampleTree sampleTargets true {} = .ok out ∧
      out.catalog = some cat ∧ Lossless sampleTree sampleTargets cat) ∧
    ∀ prev short f j d, runExport .sorted sampleTree sampleTargets true {}
      ≠ .error (.dedup prev short f j, d) := by
  have hlossless := export_lossless .sorted sampleTree sampleTargets {} (by decide +kernel)
  obtain ⟨out, h⟩ := sampleTargets_export
  obtain ⟨cat, hcat, hl⟩ := hlossless.1 true out h
  exact ⟨⟨out, cat, h, hcat, hl⟩, hlossless.2 (by decide +kernel)⟩

theorem export_order_independent_sample : ∃ out out' cat,
    runExport .sorted sampleTree sampleTargets true {} = .ok out ∧
    runExport .sorted sampleTree sampleTargets.reverse true {} = .ok out' ∧
    out.catalog = some cat ∧ out'.catalog = some cat := by
  obtain ⟨out, h⟩ := sampleTargets_export
  obtain ⟨⟨out', cat, h', hcat, hcat'⟩, -⟩ := export_order_independent sampleTree sampleTargets
    sampleTargets.reverse (by decide +kernel) (List.reverse_perm _).symm .sorted .sorted true {} out h
  exact ⟨out, out', cat, h, h', hcat, hcat'⟩

end Labctl
