import FingerprintLab.Labctl.Rank

/-!
# What the export names

`nameMembers` runs over the families in the order of a Go map.  Here its three results are given in
terms of the members alone: class number `i` of family `f` is `(classesOf members f)[i]?`.

* `mem_profiles`       an entry for every class, with the class number as its rank;
* `mem_aliasWrites`    an alias for every member of a class that is not its head;
* `lookup_families`    the shorts of a family in the order of its classes;
* `profiles_sorted`    the entries are strictly sorted by family and rank.
-/

set_option linter.unusedVariables false

namespace Labctl
open Go Lab Ranking Writes

def ofFamily (members : List RankedMember) (f : Bytes) : List RankedMember :=
  members.filter fun m => m.t.family = f

theorem mem_ofFamily {members : List RankedMember} {f : Bytes} {m : RankedMember} :
    m ∈ ofFamily members f ↔ m ∈ members ∧ m.t.family = f := by
  unfold ofFamily
  rw [List.mem_filter, decide_eq_true_eq]

/-- the JA4 classes of a family -/
def classesOf (members : List RankedMember) (f : Bytes) : List (Cluster RankedMember) :=
  classes (ofFamily members f)

/-! ## one family -/

def entriesFrom (f : Bytes) (r : Nat) (us : List (Cluster RankedMember)) : List ExportProfile :=
  (us.zipIdx r).map fun u => entry f u.2 u.1.head

def aliasWritesFrom (f : Bytes) (r : Nat) (us : List (Cluster RankedMember)) :
    List (Bytes × Bytes) :=
  (us.zipIdx r).flatMap fun u => u.1.rest.map fun d => (d.t.id, shortName f u.2)

def shortsFrom (f : Bytes) (r : Nat) (us : List (Cluster RankedMember)) : List Bytes :=
  (us.zipIdx r).map fun u => shortName f u.2

theorem nameClasses_eq (f : Bytes) (r : Nat) (us : List (Cluster RankedMember)) (n : Naming)
    (shorts : List Bytes) : nameClasses f r us (n, shorts) =
      ({ n with
          profiles := n.profiles ++ entriesFrom f r us
          aliases := writeAll n.aliases (aliasWritesFrom f r us) },
        shorts ++ shortsFrom f r us) := by
  induction us generalizing r n shorts with
  | nil => simp [nameClasses, entriesFrom, aliasWritesFrom, shortsFrom, writeAll]
  | cons u us ih =>
    rw [nameClasses, ih]
    simp [entriesFrom, aliasWritesFrom, shortsFrom, writeAll_append, List.zipIdx_cons]

theorem nameFamily_eq (n : Naming) (g : Cluster RankedMember) (f : Bytes)
    (l : List RankedMember) (hf : g.head.t.family = f) (hl : g.head :: g.rest = l) :
    nameFamily n g =
      { profiles := n.profiles ++ entriesFrom f 0 (classes l)
        aliases := writeAll n.aliases (aliasWritesFrom f 0 (classes l))
        families := n.families.insert f (shortsFrom f 0 (classes l)) } := by
  unfold nameFamily
  dsimp only
  rw [hl, hf, nameClasses_eq]
  rfl

/-! ## all families -/

/-- the families in the order of the loop -/
def familyOrder (ord : MapOrders) (members : List RankedMember) : List Bytes :=
  (ord.byFamily (byFamily members)).map fun g => g.head.t.family

theorem familyOrder_nodup (ord : MapOrders) (members : List RankedMember) :
    (familyOrder ord members).Nodup :=
  ((ord.byFamily_perm _).map _).nodup_iff.mpr 
    (keys_nodup (fun m : RankedMember => m.t.family) members)

theorem mem_familyOrder (ord : MapOrders) (members : List RankedMember) (f : Bytes) :
    f ∈ familyOrder ord members ↔ ∃ m ∈ members, m.t.family = f := by
  unfold familyOrder
  rw [((ord.byFamily_perm _).map _).mem_iff, List.mem_map]
  constructor
  · rintro ⟨g, hg, rfl⟩
    exact ⟨g.head, heads_subset _ _ _ (List.mem_map_of_mem hg), rfl⟩
  · rintro ⟨m, hm, rfl⟩
    exact exists_group _ members m hm

def aliasWrites (ord : MapOrders) (members : List RankedMember) : List (Bytes × Bytes) :=
  (familyOrder ord members).flatMap fun f => aliasWritesFrom f 0 (classesOf members f)

/-- the loop over the families -/
theorem foldl_nameFamily (members : List RankedMember) (gs : List (Cluster RankedMember))
    (hgs : ∀ g ∈ gs, g ∈ byFamily members) (n : Naming) :
    gs.foldl nameFamily n =
      { profiles := n.profiles ++ (gs.map fun g => g.head.t.family).flatMap fun f =>
          entriesFrom f 0 (classesOf members f)
        aliases := writeAll n.aliases ((gs.map fun g => g.head.t.family).flatMap fun f =>
          aliasWritesFrom f 0 (classesOf members f))
        families := writeAll n.families ((gs.map fun g => g.head.t.family).map fun f =>
          (f, shortsFrom f 0 (classesOf members f))) } := by
  induction gs generalizing n with
  | nil => simp [writeAll]
  | cons g gs ih =>
    have hg : g.head :: g.rest = ofFamily members g.head.t.family :=
      cons_rest _ members g (hgs g List.mem_cons_self)
    rw [List.foldl_cons, nameFamily_eq n g _ _ rfl hg,
      ih (fun g' hg' => hgs g' (List.mem_cons_of_mem _ hg'))]
    simp [classesOf, writeAll_append, writeAll_cons]

theorem nameMembers_eq (ord : MapOrders) (members : List RankedMember) : nameMembers ord members =
    { profiles := sortProfiles ((familyOrder ord members).flatMap fun f =>
        entriesFrom f 0 (classesOf members f))
      aliases := writeAll defaultAliases (aliasWrites ord members)
      families := writeAll ∅ ((familyOrder ord members).map fun f =>
        (f, shortsFrom f 0 (classesOf members f))) } := by
  unfold nameMembers
  rw [foldl_nameFamily members _ (fun g hg => (ord.byFamily_perm _).mem_iff.mp hg)]
  simp only [List.nil_append]
  rfl

theorem mem_entriesFrom (f : Bytes) (us : List (Cluster RankedMember)) (p : ExportProfile) :
    p ∈ entriesFrom f 0 us ↔ ∃ i u, us[i]? = some u ∧ p = entry f i u.head := by
  unfold entriesFrom
  simp only [List.mem_map, Prod.exists, List.mk_mem_zipIdx_iff_getElem?]
  constructor
  · rintro ⟨u, i, hu, rfl⟩; exact ⟨i, u, hu, rfl⟩
  · rintro ⟨i, u, hu, rfl⟩; exact ⟨u, i, hu, rfl⟩

/-- The entries: one for every class, its rank is the number of the class. -/
theorem mem_profiles (ord : MapOrders) (members : List RankedMember) (p : ExportProfile) :
    p ∈ (nameMembers ord members).profiles ↔
      ∃ i u, (classesOf members p.family)[i]? = some u ∧ p = entry p.family i u.head := by
  rw [nameMembers_eq]
  show p ∈ sortProfiles _ ↔ _
  unfold sortProfiles
  rw [List.mem_insertionSort, List.mem_flatMap]
  constructor
  · rintro ⟨f, -, hp⟩
    obtain ⟨i, u, hu, rfl⟩ := (mem_entriesFrom f _ p).mp hp
    exact ⟨i, u, hu, rfl⟩
  · rintro ⟨i, u, hu, hp⟩
    refine ⟨p.family, ?_, (mem_entriesFrom _ _ p).mpr ⟨i, u, hu, hp⟩⟩
    have hm := heads_subset _ _ _ (List.mem_map_of_mem (List.mem_of_getElem? hu))
    rw [mem_sortMembers, mem_ofFamily] at hm
    exact (mem_familyOrder ord members _).mpr ⟨u.head, hm⟩

theorem mem_aliasWrites (ord : MapOrders) (members : List RankedMember) (k s : Bytes) :
    (k, s) ∈ aliasWrites ord members ↔
      ∃ f i u, (classesOf members f)[i]? = some u ∧
        ∃ d ∈ u.rest, d.t.id = k ∧ shortName f i = s := by
  unfold aliasWrites aliasWritesFrom
  simp only [List.mem_flatMap, List.mem_map, Prod.exists, List.mk_mem_zipIdx_iff_getElem?,
    Prod.mk.injEq]
  constructor
  · rintro ⟨f, -, u, i, hu, d, hd, hk, hs⟩
    exact ⟨f, i, u, hu, d, hd, hk, hs⟩
  · rintro ⟨f, i, u, hu, d, hd, hk, hs⟩
    refine ⟨f, ?_, u, i, hu, d, hd, hk, hs⟩
    have hm := heads_subset _ _ _ (List.mem_map_of_mem (List.mem_of_getElem? hu))
    rw [mem_sortMembers, mem_ofFamily] at hm
    exact (mem_familyOrder ord members _).mpr ⟨u.head, hm⟩

theorem entry_family (f : Bytes) (i : Nat) (m : RankedMember) : (entry f i m).family = f := rfl
theorem entry_rank (f : Bytes) (i : Nat) (m : RankedMember) : (entry f i m).rank = i := rfl

/-- an entry is known by its family and rank -/
theorem profiles_ext (ord : MapOrders) (members : List RankedMember) {p q : ExportProfile}
    (hp : p ∈ (nameMembers ord members).profiles) (hq : q ∈ (nameMembers ord members).profiles)
    (hf : p.family = q.family) (hr : p.rank = q.rank) : p = q := by
  obtain ⟨i, u, hu, hpe⟩ := (mem_profiles ord members p).mp hp
  obtain ⟨j, v, hv, hqe⟩ := (mem_profiles ord members q).mp hq
  have hij : i = j := by
    rw [hpe, hqe] at hr
    exact hr
  subst hij
  rw [hf] at hu hpe
  rw [hpe, hqe, Option.some.inj (hu.symm.trans hv), entry_family]

/-- the key of the last sort -/
def place (p : ExportProfile) : Bytes ×ₗ Nat := toLex (p.family, p.rank)

/-- the order of the catalog -/
def Before (a b : ExportProfile) : Prop := place a < place b

instance : Std.Irrefl Before := ⟨fun a => lt_irrefl (place a)⟩
instance : Std.Antisymm Before := ⟨fun a b h h' => absurd h (lt_asymm h')⟩

theorem le_place_iff (a b : ExportProfile) :
    (if a.family ≠ b.family then a.family < b.family else a.rank ≤ b.rank) ↔
      place a ≤ place b := by
  unfold place
  rw [Prod.Lex.toLex_le_toLex]
  by_cases hf : a.family = b.family
  · rw [if_neg (not_not.mpr hf)]
    simp [hf]
  · rw [if_pos hf]
    simp [hf]

theorem entriesFrom_sorted (f : Bytes) (us : List (Cluster RankedMember)) :
    (entriesFrom f 0 us).Pairwise Before := by
  have hrank : ((us.zipIdx).map Prod.snd).Pairwise (· < ·) := by
    rw [List.zipIdx_map_snd]
    exact List.pairwise_lt_range'
  rw [List.pairwise_map] at hrank
  unfold entriesFrom
  rw [List.pairwise_map]
  refine hrank.imp fun {a b} h => ?_
  show place _ < place _
  unfold place
  rw [Prod.Lex.toLex_lt_toLex]
  exact Or.inr ⟨rfl, h⟩

theorem profiles_nodup (ord : MapOrders) (members : List RankedMember) :
    (nameMembers ord members).profiles.Nodup := by
  rw [nameMembers_eq]
  show (sortProfiles _).Nodup
  unfold sortProfiles
  rw [(List.perm_insertionSort _ _).nodup_iff, List.nodup_flatMap]
  refine ⟨fun f _ => (entriesFrom_sorted f _).nodup, ?_⟩
  refine (familyOrder_nodup ord members).imp fun {f g} hfg => ?_
  intro p hp hq
  obtain ⟨i, u, -, rfl⟩ := (mem_entriesFrom f _ p).mp hp
  obtain ⟨j, v, -, he⟩ := (mem_entriesFrom g _ _).mp hq
  exact hfg (congrArg ExportProfile.family he)

theorem profiles_sorted (ord : MapOrders) (members : List RankedMember) :
    (nameMembers ord members).profiles.Pairwise Before := by
  have hnd := profiles_nodup ord members
  have hext := @profiles_ext ord members
  rw [nameMembers_eq] at hnd hext ⊢
  have htotal : Std.Total fun a b : ExportProfile =>
      if a.family ≠ b.family then a.family < b.family else a.rank ≤ b.rank :=
    ⟨fun a b => by rw [le_place_iff, le_place_iff]; exact le_total _ _⟩
  have htrans : IsTrans ExportProfile fun a b =>
      if a.family ≠ b.family then a.family < b.family else a.rank ≤ b.rank :=
    ⟨fun a b c => by rw [le_place_iff, le_place_iff, le_place_iff]; exact le_trans⟩
  have hs := List.pairwise_insertionSort
    (fun a b : ExportProfile => if a.family ≠ b.family then a.family < b.family else a.rank ≤ b.rank)
    ((familyOrder ord members).flatMap fun f => entriesFrom f 0 (classesOf members f))
  refine (List.Pairwise.and_mem.mp (hs.and hnd)).imp fun {a b} h => ?_
  obtain ⟨ha, hb, hab, hne⟩ := h
  refine lt_of_le_of_ne ((le_place_iff a b).mp hab) fun he => hne ?_
  have hpair := Prod.mk.inj (toLex_inj.mp he)
  exact hext ha hb hpair.1 hpair.2

/-- the entries of one family, in the order of the catalog -/
theorem filter_profiles (ord : MapOrders) (members : List RankedMember) (f : Bytes) :
    (nameMembers ord members).profiles.filter (fun p => p.family = f)
      = entriesFrom f 0 (classesOf members f) := by
  refine List.Pairwise.eq_of_mem_iff ((profiles_sorted ord members).filter _)
    (entriesFrom_sorted f _) fun p => ?_
  rw [List.mem_filter, mem_profiles, mem_entriesFrom, decide_eq_true_eq]
  constructor
  · rintro ⟨h, rfl⟩; exact h
  · rintro ⟨i, u, hu, rfl⟩; exact ⟨⟨i, u, hu, rfl⟩, rfl⟩

/-! ## the families -/

theorem shortsFrom_eq (f : Bytes) (us : List (Cluster RankedMember)) :
    shortsFrom f 0 us = (List.range us.length).map (shortName f) := by
  unfold shortsFrom
  rw [List.range_eq_range', ← List.zipIdx_map_snd 0 us, List.map_map]
  rfl

theorem entriesFrom_shorts (f : Bytes) (us : List (Cluster RankedMember)) :
    (entriesFrom f 0 us).map ExportProfile.shortName = (List.range us.length).map (shortName f) := by
  rw [← shortsFrom_eq]
  unfold entriesFrom shortsFrom
  rw [List.map_map]
  rfl

theorem entriesFrom_ranks (f : Bytes) (us : List (Cluster RankedMember)) :
    (entriesFrom f 0 us).map ExportProfile.rank = List.range us.length := by
  unfold entriesFrom
  rw [List.map_map, List.range_eq_range']
  exact List.zipIdx_map_snd 0 us

theorem entriesFrom_length (f : Bytes) (us : List (Cluster RankedMember)) :
    (entriesFrom f 0 us).length = us.length := by
  unfold entriesFrom
  rw [List.length_map, List.length_zipIdx]

/-- a family is visited when it has a class -/
theorem mem_familyOrder_iff (ord : MapOrders) (members : List RankedMember) (f : Bytes) :
    f ∈ familyOrder ord members ↔ classesOf members f ≠ [] := by
  rw [mem_familyOrder]
  constructor
  · rintro ⟨m, hm, rfl⟩ hnil
    obtain ⟨i, u, hu, -⟩ := exists_class _ m (mem_ofFamily.mpr ⟨hm, rfl⟩)
    unfold classesOf at hnil
    rw [hnil] at hu
    cases hu
  · intro hne
    obtain ⟨u, hu⟩ := List.exists_mem_of_ne_nil _ hne
    have hm := heads_subset _ _ _ (List.mem_map_of_mem hu)
    rw [mem_sortMembers, mem_ofFamily] at hm
    exact ⟨u.head, hm⟩

theorem classesOf_length (members : List RankedMember) (f : Bytes) :
    (classesOf members f).length = ((ofFamily members f).map RankedMember.ja4).toFinset.card :=
  classes_length _

theorem lookup_families (ord : MapOrders) (members : List RankedMember) (f : Bytes) :
    (nameMembers ord members).families.lookup f =
      if f ∈ familyOrder ord members then
        some ((List.range (classesOf members f).length).map (shortName f))
      else none := by
  rw [nameMembers_eq, ← shortsFrom_eq]
  show (writeAll ∅ _).lookup f = _
  split
  · rename_i hf
    refine lookup_writeAll_of_mem _ _ _ _ ?_ (List.mem_map.mpr ⟨f, hf, rfl⟩)
    intro k v v' hv hv'
    obtain ⟨g, -, hg⟩ := List.mem_map.mp hv
    obtain ⟨g', -, hg'⟩ := List.mem_map.mp hv'
    obtain ⟨h1, h2⟩ := Prod.mk.inj hg
    obtain ⟨h1', h2'⟩ := Prod.mk.inj hg'
    rw [← h2, ← h2', h1, h1']
  · rename_i hf
    rw [lookup_writeAll_of_notMem, Finmap.lookup_empty]
    rw [List.map_map]
    intro h
    obtain ⟨g, hg, rfl⟩ := List.mem_map.mp h
    exact hf hg

/-! ## distinct ids

From here on the members have pairwise distinct ids. -/

def DistinctIDs (members : List RankedMember) : Prop := (members.map fun m => m.t.id).Nodup

theorem DistinctIDs.nodup {members : List RankedMember} (h : DistinctIDs members) :
    members.Nodup := List.Nodup.of_map _ h

theorem DistinctIDs.inj {members : List RankedMember} (h : DistinctIDs members)
    {a b : RankedMember} (ha : a ∈ members) (hb : b ∈ members) (he : a.t.id = b.t.id) : a = b :=
  List.inj_on_of_nodup_map h ha hb he

theorem coherent_ofFamily {members : List RankedMember} (h : Coherent members) (f : Bytes) :
    Coherent (ofFamily members f) := fun a ha b hb =>
  h a (mem_ofFamily.mp ha).1 b (mem_ofFamily.mp hb).1

theorem DistinctIDs.coherent {members : List RankedMember} (h : DistinctIDs members) :
    Coherent members := fun a ha b hb he => congrArg RankedMember.ja4 (h.inj ha hb he)

/-- a best member of its family and JA4 -/
def Canonical (members : List RankedMember) (c : RankedMember) : Prop :=
  Best (ofFamily members c.t.family) c

/-- the number of JA4s of its family that have a better member -/
def familyRank (members : List RankedMember) (c : RankedMember) : Nat :=
  rankOf (ofFamily members c.t.family) c

/-- a better member of the family stands in front -/
theorem familyRank_pos {members : List RankedMember} {u c : RankedMember} (hu : u ∈ members)
    (hf : u.t.family = c.t.family) (hs : score u < score c) : 0 < familyRank members c := by
  unfold familyRank rankOf rank
  refine Finset.card_pos.mpr ⟨u.ja4, ?_⟩
  rw [mem_above]
  exact ⟨u, mem_ofFamily.mpr ⟨hu, hf⟩, hs, rfl⟩

theorem Canonical.mem {members : List RankedMember} {c : RankedMember} (h : Canonical members c) :
    c ∈ members := (mem_ofFamily.mp h.1).1

theorem Canonical.score_eq {members : List RankedMember} {c c' : RankedMember}
    (h : Canonical members c) (h' : Canonical members c') (hf : c.t.family = c'.t.family)
    (hj : c.ja4 = c'.ja4) : score c = score c' := by
  refine le_antisymm ?_ ?_
  · exact h.2 c' (mem_ofFamily.mpr ⟨h'.mem, hf.symm⟩) hj.symm
  · exact h'.2 c (mem_ofFamily.mpr ⟨h.mem, hf⟩) hj

/-- there is one canonical member of a family and JA4 -/
theorem Canonical.unique {members : List RankedMember} (hd : DistinctIDs members)
    {c c' : RankedMember} (h : Canonical members c) (h' : Canonical members c')
    (hf : c.t.family = c'.t.family) (hj : c.ja4 = c'.ja4) : c = c' :=
  hd.inj h.mem h'.mem (score_id (h.score_eq h' hf hj))

/-- the class at a place, in terms of the members -/
theorem classesOf_spec {members : List RankedMember} (hc : Coherent members) {f : Bytes} {i : Nat}
    {u : Cluster RankedMember} (hu : (classesOf members f)[i]? = some u) :
    u.head.t.family = f ∧ Canonical members u.head ∧ i = familyRank members u.head ∧
      ∀ m, m ∈ u.head :: u.rest ↔ m ∈ members ∧ m.t.family = f ∧ m.ja4 = u.head.ja4 := by
  obtain ⟨hbest, hi, hmem⟩ := classes_spec _ (coherent_ofFamily hc f) i u hu
  have hf := (mem_ofFamily.mp hbest.1).2
  refine ⟨hf, ?_, ?_, fun m => ?_⟩
  · unfold Canonical
    rw [hf]
    exact hbest
  · unfold familyRank
    rw [hf]
    exact hi
  · rw [hmem m, mem_ofFamily, and_assoc]

theorem exists_classOf {members : List RankedMember} {m : RankedMember} (hm : m ∈ members) :
    ∃ (i : Nat) (u : Cluster RankedMember), (classesOf members m.t.family)[i]? = some u ∧
      u.head.ja4 = m.ja4 :=
  exists_class _ m (mem_ofFamily.mpr ⟨hm, rfl⟩)

/-- the class of a member, by its canonical member -/
theorem exists_canonical {members : List RankedMember} (hc : Coherent members) {m : RankedMember}
    (hm : m ∈ members) :
    ∃ c, Canonical members c ∧ c.t.family = m.t.family ∧ c.ja4 = m.ja4 := by
  obtain ⟨i, u, hu, hj⟩ := exists_classOf hm
  obtain ⟨hf, hcan, -⟩ := classesOf_spec hc hu
  exact ⟨u.head, hcan, hf, hj⟩

/-- a canonical member heads the class at its rank -/
theorem Canonical.classAt {members : List RankedMember} (hd : DistinctIDs members)
    {c : RankedMember} (h : Canonical members c) : ∃ u : Cluster RankedMember,
      (classesOf members c.t.family)[familyRank members c]? = some u ∧ u.head = c := by
  obtain ⟨i, u, hu, hj⟩ := exists_classOf h.mem
  obtain ⟨hf, hcan, hi, -⟩ := classesOf_spec hd.coherent hu
  have he : u.head = c := hcan.unique hd h hf hj
  exact ⟨u, by rw [← he, ← hi, hf]; exact hu, he⟩

/-- ranks compare as the canonical members do -/
theorem familyRank_lt_iff {members : List RankedMember} (hd : DistinctIDs members)
    {c c' : RankedMember} (hc : Canonical members c) (hc' : Canonical members c')
    (hf : c.t.family = c'.t.family) :
    familyRank members c < familyRank members c' ↔ score c < score c' := by
  have mono : ∀ s s' : Score, s ≤ s' →
      rank RankedMember.ja4 score (ofFamily members c'.t.family) s
        ≤ rank RankedMember.ja4 score (ofFamily members c'.t.family) s' := rank_mono _ _ _
  constructor
  · intro h
    by_contra hle
    refine absurd h (not_lt.mpr ?_)
    unfold familyRank rankOf
    rw [hf]
    exact mono _ _ (not_lt.mp hle)
  · intro h
    have hle : familyRank members c ≤ familyRank members c' := by
      unfold familyRank rankOf
      rw [hf]
      exact mono _ _ h.le
    refine lt_of_le_of_ne hle fun heq => ?_
    -- one rank is one class, so one member
    obtain ⟨u, hu, rfl⟩ := hc.classAt hd
    obtain ⟨v, hv, rfl⟩ := hc'.classAt hd
    rw [heq, hf, hv] at hu
    rw [Option.some.inj hu] at h
    exact lt_irrefl _ h

/-- an entry is that of a canonical member at its rank -/
theorem entry_canonical (ord : MapOrders) {members : List RankedMember} (hc : Coherent members)
    {p : ExportProfile} (hp : p ∈ (nameMembers ord members).profiles) :
    ∃ c, Canonical members c ∧ p = entry c.t.family (familyRank members c) c := by
  obtain ⟨i, u, hu, hpe⟩ := (mem_profiles ord members p).mp hp
  obtain ⟨hf, hcan, hi, -⟩ := classesOf_spec hc hu
  exact ⟨u.head, hcan, by rw [← hi, hf]; exact hpe⟩

/-- The class of a canonical member has an entry at its rank.  Its head has the same score, so the
same id, also when ids are not distinct. -/
theorem Canonical.exists_entry (ord : MapOrders) {members : List RankedMember}
    (hc : Coherent members) {c : RankedMember} (h : Canonical members c) :
    ∃ u, u.t.id = c.t.id ∧ u.ja4 = c.ja4 ∧
      entry c.t.family (familyRank members c) u ∈ (nameMembers ord members).profiles := by
  obtain ⟨i, u, hu, hj⟩ := exists_classOf h.mem
  obtain ⟨hf, hcan, hi, -⟩ := classesOf_spec hc hu
  have hscore := hcan.score_eq h hf hj
  have hrank : familyRank members c = i := by
    rw [hi]
    unfold familyRank rankOf
    rw [hscore, hf]
  rw [hrank]
  exact ⟨u.head, score_id hscore, hj, (mem_profiles ord members _).mpr ⟨i, u, hu, rfl⟩⟩

/-- **The entries** are those of the canonical members at their ranks. -/
theorem mem_profiles_canonical (ord : MapOrders) {members : List RankedMember}
    (hd : DistinctIDs members) (p : ExportProfile) :
    p ∈ (nameMembers ord members).profiles ↔
      ∃ c, Canonical members c ∧ p = entry c.t.family (familyRank members c) c := by
  constructor
  · exact entry_canonical ord hd.coherent
  · rintro ⟨c, hcan, rfl⟩
    obtain ⟨u, hu, he⟩ := hcan.classAt hd
    exact (mem_profiles ord members _).mpr ⟨_, u, hu, by rw [he]; rfl⟩

/-- the short name of a member's class -/
theorem aliasWrites_iff (ord : MapOrders) {members : List RankedMember} (hd : DistinctIDs members)
    (k s : Bytes) : (k, s) ∈ aliasWrites ord members ↔
      ∃ d ∈ members, d.t.id = k ∧ ¬ Canonical members d ∧
        ∃ c, Canonical members c ∧ c.t.family = d.t.family ∧ c.ja4 = d.ja4 ∧
          s = shortName c.t.family (familyRank members c) := by
  rw [mem_aliasWrites]
  constructor
  · rintro ⟨f, i, u, hu, d, hdr, rfl, rfl⟩
    obtain ⟨hf, hcan, hi, hmem⟩ := classesOf_spec hd.coherent hu
    obtain ⟨hdm, hdf, hdj⟩ := (hmem d).mp (List.mem_cons_of_mem _ hdr)
    refine ⟨d, hdm, rfl, fun hdc => ?_, u.head, hcan, hf.trans hdf.symm, hdj.symm, by rw [hf, hi]⟩
    have hnd := class_nodup _ (hd.nodup.filter _) u (List.mem_of_getElem? hu)
    have he : d = u.head := hdc.unique hd hcan (hdf.trans hf.symm) hdj
    exact (List.nodup_cons.mp hnd).1 (he ▸ hdr)
  · rintro ⟨d, hdm, rfl, hdc, c, hcan, hf, hj, rfl⟩
    obtain ⟨i, u, hu, huj⟩ := exists_classOf hdm
    obtain ⟨huf, hucan, hi, hmem⟩ := classesOf_spec hd.coherent hu
    have he : u.head = c := hucan.unique hd hcan (huf.trans hf.symm) (huj.trans hj.symm)
    refine ⟨d.t.family, i, u, hu, d, ?_, rfl, by rw [hi, he, hf]⟩
    rcases List.mem_cons.mp ((hmem d).mpr ⟨hdm, rfl, huj.symm⟩) with h | h
    · exact absurd (h ▸ hucan) hdc
    · exact h

theorem aliasWrites_functional (ord : MapOrders) {members : List RankedMember}
    (hd : DistinctIDs members) : Functional (aliasWrites ord members) := by
  intro k s s' hs hs'
  obtain ⟨d, hdm, rfl, -, c, hcan, hf, hj, rfl⟩ := (aliasWrites_iff ord hd _ s).mp hs
  obtain ⟨d', hdm', hid, -, c', hcan', hf', hj', rfl⟩ := (aliasWrites_iff ord hd _ s').mp hs'
  have he : d' = d := hd.inj hdm' hdm hid
  rw [he] at hf' hj'
  rw [hcan.unique hd hcan' (hf.trans hf'.symm) (hj.trans hj'.symm)]

/-- **The aliases**: a member that is not canonical is an alias of its class. -/
theorem lookup_aliases_dup (ord : MapOrders) {members : List RankedMember}
    (hd : DistinctIDs members) {d c : RankedMember} (hdm : d ∈ members)
    (hdc : ¬ Canonical members d) (hc : Canonical members c) (hf : c.t.family = d.t.family)
    (hj : c.ja4 = d.ja4) : (nameMembers ord members).aliases.lookup d.t.id
      = some (shortName c.t.family (familyRank members c)) := by
  rw [nameMembers_eq]
  refine lookup_writeAll_of_mem _ _ _ _ (aliasWrites_functional ord hd) ?_
  exact (aliasWrites_iff ord hd _ _).mpr ⟨d, hdm, rfl, hdc, c, hc, hf, hj, rfl⟩

/-- Every other key is a default one. -/
theorem lookup_aliases_default (ord : MapOrders) {members : List RankedMember}
    (hd : DistinctIDs members) (k : Bytes)
    (hk : ∀ d ∈ members, d.t.id = k → Canonical members d) :
    (nameMembers ord members).aliases.lookup k = defaultAliases.lookup k := by
  rw [nameMembers_eq]
  refine lookup_writeAll_of_notMem _ _ _ fun h => ?_
  obtain ⟨⟨k', s⟩, hs, rfl⟩ := List.mem_map.mp h
  obtain ⟨d, hdm, hid, hdc, -⟩ := (aliasWrites_iff ord hd _ s).mp hs
  exact hdc (hk d hdm hid)

/-! ## the order of the members does not matter -/

section
variable {members members' : List RankedMember} (h : ∀ m, m ∈ members ↔ m ∈ members')
include h

theorem ofFamily_congr (f : Bytes) (m : RankedMember) :
    m ∈ ofFamily members f ↔ m ∈ ofFamily members' f := by
  rw [mem_ofFamily, mem_ofFamily, h]

theorem canonical_congr (c : RankedMember) : Canonical members c ↔ Canonical members' c :=
  ⟨IsBest.congr _ _ (ofFamily_congr h _), IsBest.congr _ _ fun m => (ofFamily_congr h _ m).symm⟩

theorem familyRank_congr (c : RankedMember) : familyRank members c = familyRank members' c := by
  unfold familyRank rankOf rank
  rw [above_congr _ _ (ofFamily_congr h _)]

theorem classesOf_length_congr (f : Bytes) :
    (classesOf members f).length = (classesOf members' f).length := by
  rw [classesOf_length, classesOf_length]
  congr 1
  ext k
  simp only [List.mem_toFinset, List.mem_map, ofFamily_congr h]

/-- **Order independence**: the names depend on the set of members only. -/
theorem nameMembers_congr (ord ord' : MapOrders) (hd : DistinctIDs members)
    (hd' : DistinctIDs members') : nameMembers ord members = nameMembers ord' members' := by
  have hprofiles : (nameMembers ord members).profiles = (nameMembers ord' members').profiles := by
    refine List.Pairwise.eq_of_mem_iff (profiles_sorted ord members) (profiles_sorted ord' members')
      fun p => ?_
    rw [mem_profiles_canonical ord hd, mem_profiles_canonical ord' hd']
    simp only [canonical_congr h, familyRank_congr h]
  have haliases : (nameMembers ord members).aliases = (nameMembers ord' members').aliases := by
    rw [nameMembers_eq, nameMembers_eq]
    refine writeAll_congr _ _ _ (aliasWrites_functional ord hd) fun w => ?_
    rw [aliasWrites_iff ord hd, aliasWrites_iff ord' hd']
    simp only [canonical_congr h, familyRank_congr h, h]
  have hfamilies : (nameMembers ord members).families = (nameMembers ord' members').families := by
    refine Finmap.ext_lookup fun f => ?_
    rw [lookup_families, lookup_families, classesOf_length_congr h]
    simp only [mem_familyOrder, h]
  have eta : ∀ n n' : Naming, n.profiles = n'.profiles → n.aliases = n'.aliases →
      n.families = n'.families → n = n' := by
    rintro ⟨p, a, f⟩ ⟨p', a', f'⟩ rfl rfl rfl
    rfl
  exact eta _ _ hprofiles haliases hfamilies

end

end Labctl
