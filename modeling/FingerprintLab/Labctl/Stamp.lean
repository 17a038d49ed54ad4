import FingerprintLab.Labctl.Catalog

/-!
# The stamp of the catalog

`catalogStamp` hashes one line for each entry and one for each alias, tabs between the values.

* `cells`, `aliasCells`     the values of a line; `stampLines_rows`: the stream is these lines;
* `hashed`, `unhashed`      the columns of an entry that its line has, and those that it has not;
* `Plain`, `Clean`          no value of the stream contains a tab or a newline;
* `stampLines_inj`          the stream of a clean catalog determines the hashed columns and the
                            aliases;
* `stamp_identifies_iff`    the stamp identifies the catalog up to the columns that are not hashed;
* `stamp_misses`            a changed version and a separator in a value leave the stamp as it is.
-/

set_option linter.unusedVariables false

namespace Labctl
open Go Lab

/-! ## the stream as lines -/

/-- the columns of an entry that the stream has -/
def hashed (p : ExportProfile) : Bytes × Bytes × Bytes × Nat × Bool × Bytes :=
  (p.shortName, p.labID, p.family, p.rank, p.builtin, p.ja4)

/-- the columns that it has not -/
def unhashed (p : ExportProfile) : Int × Bytes × Bytes := (p.version, p.track, p.format)

/-- the line of an entry, before its values are joined -/
def cells : Bytes × Bytes × Bytes × Nat × Bool × Bytes → List Bytes
  | (short, labID, family, rank, builtin, ja4) =>
    [str "p", short, labID, family, decimal rank, showBool builtin, ja4]

/-- the line of an alias -/
def aliasCells (aliases : Aliases) (k : Bytes) : List Bytes :=
  [str "a", k, (aliases.lookup k).getD []]

/-- the keys in `sort.Strings` order -/
def sortedKeys (ord : MapOrders) (aliases : Aliases) : List Bytes :=
  (ord.keys aliases.keys).insertionSort (· ≤ ·)

def stampRows (ord : MapOrders) (profiles : List ExportProfile) (aliases : Aliases) :
    List (List Bytes) :=
  (profiles.map hashed).map cells ++ (sortedKeys ord aliases).map (aliasCells aliases)

theorem stampLines_rows (ord : MapOrders) (profiles : List ExportProfile) (aliases : Aliases) :
    stampLines ord profiles aliases
      = ((stampRows ord profiles aliases).map fun r => join r [9]).flatMap fun l => l ++ [10] := by
  unfold stampLines stampRows sortedKeys
  rw [List.map_append, List.flatMap_append, List.map_map, List.map_map, List.map_map,
    List.flatMap_map, List.flatMap_map]
  rfl

theorem mem_sortedKeys {ord : MapOrders} {aliases : Aliases} {k : Bytes} :
    k ∈ sortedKeys ord aliases ↔ k ∈ aliases.keys := by
  unfold sortedKeys
  rw [List.mem_insertionSort, ord.mem_keys]

/-! ## values without separators -/

/-- neither a tab nor a newline -/
def Plain (v : Bytes) : Prop := (9 : Byte) ∉ v ∧ (10 : Byte) ∉ v

/-- the texts of the stream are plain -/
structure Clean (cat : Catalog) : Prop where
  entry : ∀ p ∈ cat.profiles, Plain p.shortName ∧ Plain p.labID ∧ Plain p.family ∧ Plain p.ja4
  aliases : ∀ k v, cat.aliases.lookup k = some v → Plain k ∧ Plain v

theorem plain_decimal (n : Nat) : Plain (decimal n) := by
  constructor <;> intro h <;> have hr := decimal_digit n _ h
  · exact absurd hr.1 (by decide)
  · exact absurd hr.1 (by decide)

theorem plain_showBool (b : Bool) : Plain (showBool b) := by
  cases b <;> exact ⟨by decide, by decide⟩

theorem showBool_inj {a b : Bool} (h : showBool a = showBool b) : a = b := by
  cases a <;> cases b
  · rfl
  · exact absurd h (by decide)
  · exact absurd h (by decide)
  · rfl

theorem cells_injective : Function.Injective cells := by
  rintro ⟨s, l, f, r, b, j⟩ ⟨s', l', f', r', b', j'⟩ h
  simp only [cells, List.cons.injEq, and_true, true_and] at h
  obtain ⟨hs, hl, hf, hr, hb, hj⟩ := h
  rw [hs, hl, hf, decimal_inj _ _ hr, showBool_inj hb, hj]

/-- an entry is its hashed columns and the others -/
theorem profile_ext {p q : ExportProfile} (h : hashed p = hashed q) (hu : unhashed p = unhashed q) :
    p = q := by
  unfold hashed at h
  unfold unhashed at hu
  simp only [Prod.mk.injEq] at h hu
  obtain ⟨hs, hl, hf, hr, hb, hj⟩ := h
  obtain ⟨hv, ht, hform⟩ := hu
  cases p
  cases q
  simp only at hs hl hf hr hb hj hv ht hform
  rw [hs, hl, hf, hr, hb, hj, hv, ht, hform]

theorem entries_ext {ps qs : List ExportProfile} (h : ps.map hashed = qs.map hashed)
    (hu : ps.map unhashed = qs.map unhashed) : ps = qs := by
  induction ps generalizing qs with
  | nil => exact (List.map_eq_nil_iff.mp h.symm).symm
  | cons p ps ih =>
    cases qs with
    | nil => cases h
    | cons q qs =>
      obtain ⟨hp, hps⟩ := List.cons.inj h
      obtain ⟨hup, hups⟩ := List.cons.inj hu
      rw [profile_ext hp hup, ih hps hups]

section
variable {cat : Catalog} (hc : Clean cat) (ord : MapOrders)
include hc

/-- every value of a clean stream is plain -/
theorem Clean.plain {r : List Bytes} (hr : r ∈ stampRows ord cat.profiles cat.aliases) :
    r ≠ [] ∧ ∀ v ∈ r, Plain v := by
  rcases List.mem_append.mp hr with h | h
  · rw [List.map_map] at h
    obtain ⟨p, hp, rfl⟩ := List.mem_map.mp h
    obtain ⟨hs, hl, hf, hj⟩ := hc.entry p hp
    refine ⟨List.cons_ne_nil _ _, fun v hv => ?_⟩
    simp only [Function.comp_apply, hashed, cells, List.mem_cons, List.not_mem_nil,
      or_false] at hv
    rcases hv with rfl | rfl | rfl | rfl | rfl | rfl | rfl
    · exact ⟨by decide, by decide⟩
    · exact hs
    · exact hl
    · exact hf
    · exact plain_decimal _
    · exact plain_showBool _
    · exact hj
  · obtain ⟨k, hk, rfl⟩ := List.mem_map.mp h
    obtain ⟨v, hv⟩ := Option.isSome_iff_exists.mp
      (Finmap.lookup_isSome.mpr (Finmap.mem_keys.mp (mem_sortedKeys.mp hk)))
    obtain ⟨hpk, hpv⟩ := hc.aliases k v hv
    refine ⟨List.cons_ne_nil _ _, fun w hw => ?_⟩
    rw [aliasCells, hv] at hw
    simp only [Option.getD_some, List.mem_cons, List.not_mem_nil, or_false] at hw
    rcases hw with rfl | rfl | rfl
    · exact ⟨by decide, by decide⟩
    · exact hpk
    · exact hpv

/-- a line has no newline -/
theorem Clean.line {l : Bytes}
    (hl : l ∈ (stampRows ord cat.profiles cat.aliases).map fun r => join r [9]) : (10 : Byte) ∉ l := by
  obtain ⟨r, hr, rfl⟩ := List.mem_map.mp hl
  intro h
  rcases mem_join h with h | ⟨v, hv, h⟩
  · exact absurd h (by decide)
  · exact ((hc.plain ord hr).2 v hv).2 h

end

/-- the rows are read back by cutting the lines at their tabs, -/
theorem Clean.split_lines {cat : Catalog} (hc : Clean cat) (ord : MapOrders) :
    ((stampRows ord cat.profiles cat.aliases).map fun r => join r [9]).map (List.splitOn 9)
      = stampRows ord cat.profiles cat.aliases := by
  rw [List.map_map]
  conv_rhs => rw [← List.map_id (stampRows ord cat.profiles cat.aliases)]
  refine List.map_congr_left fun r hr => ?_
  obtain ⟨hne, hplain⟩ := hc.plain ord hr
  exact List.splitOn_intercalate 9 (fun v hv => (hplain v hv).1) hne

/-- and the lines by cutting the stream at its newlines. -/
theorem stampRows_inj {cat cat' : Catalog} (ord ord' : MapOrders) (hc : Clean cat) (hc' : Clean cat')
    (h : stampLines ord cat.profiles cat.aliases = stampLines ord' cat'.profiles cat'.aliases) :
    stampRows ord cat.profiles cat.aliases = stampRows ord' cat'.profiles cat'.aliases := by
  rw [stampLines_rows, stampLines_rows] at h
  have hlines := lines_inj 10 _ _ (fun l hl => hc.line ord hl) (fun l hl => hc'.line ord' hl) h
  rw [← hc.split_lines ord, ← hc'.split_lines ord', hlines]

/-- the rows that start with `p` are the entries -/
theorem filter_stampRows (ord : MapOrders) (profiles : List ExportProfile) (aliases : Aliases) :
    (stampRows ord profiles aliases).filter (fun r => r.head? = some (str "p"))
      = (profiles.map hashed).map cells := by
  unfold stampRows
  rw [List.filter_append, List.filter_eq_self.mpr, List.filter_eq_nil_iff.mpr, List.append_nil]
  · intro r hr
    obtain ⟨k, -, rfl⟩ := List.mem_map.mp hr
    show ¬ decide (some (str "a") = some (str "p")) = true
    decide
  · intro r hr
    obtain ⟨p, -, rfl⟩ := List.mem_map.mp hr
    exact decide_eq_true rfl

/-- an alias is its row -/
theorem lookup_iff_row (ord : MapOrders) (profiles : List ExportProfile) (aliases : Aliases)
    (k v : Bytes) :
    aliases.lookup k = some v ↔ [str "a", k, v] ∈ stampRows ord profiles aliases := by
  constructor
  · intro h
    refine List.mem_append_right _ (List.mem_map.mpr ⟨k, mem_sortedKeys.mpr ?_, ?_⟩)
    · exact Finmap.mem_keys.mpr (Finmap.lookup_isSome.mp (Option.isSome_of_eq_some h))
    · rw [aliasCells, h]
      rfl
  · intro h
    rcases List.mem_append.mp h with h | h
    · obtain ⟨p, -, hp⟩ := List.mem_map.mp h
      exact absurd (List.cons.inj hp).1 (by decide)
    · obtain ⟨l, hl, he⟩ := List.mem_map.mp h
      obtain ⟨w, hw⟩ := Option.isSome_iff_exists.mp
        (Finmap.lookup_isSome.mpr (Finmap.mem_keys.mp (mem_sortedKeys.mp hl)))
      rw [aliasCells, hw] at he
      simp only [Option.getD_some, List.cons.injEq, and_true, true_and] at he
      rw [← he.1, ← he.2, hw]

/-- the stream of a clean catalog has everything but the unhashed columns -/
theorem stampLines_inj {cat cat' : Catalog} (ord ord' : MapOrders) (hc : Clean cat)
    (hc' : Clean cat')
    (h : stampLines ord cat.profiles cat.aliases = stampLines ord' cat'.profiles cat'.aliases) :
    cat.profiles.map hashed = cat'.profiles.map hashed ∧ cat.aliases = cat'.aliases := by
  have hrows := stampRows_inj ord ord' hc hc' h
  constructor
  · refine List.map_injective_iff.mpr cells_injective ?_
    rw [← filter_stampRows ord cat.profiles cat.aliases, hrows, filter_stampRows]
  · refine Finmap.ext_lookup fun k => Option.ext fun v => ?_
    rw [lookup_iff_row ord cat.profiles, hrows, lookup_iff_row ord' cat'.profiles]

/-- the stream has nothing else -/
theorem stampLines_hashed (ord ord' : MapOrders) {ps qs : List ExportProfile} {a : Aliases}
    (h : ps.map hashed = qs.map hashed) : stampLines ord ps a = stampLines ord' qs a := by
  rw [stampLines_congr ord ord', stampLines_rows, stampLines_rows]
  unfold stampRows
  rw [h]

/-! ## what the stamp tells -/

/-- the digest of the stamp, cut to 16 digits -/
def digest16 (s : Bytes) : Bytes := (hexEncode (sha256 s)).take 16

/-- the cut digest tells the two streams apart -/
def Apart (s s' : Bytes) : Prop := digest16 s = digest16 s' → s = s'

/-- the stamp of the catalog is that of its entries and aliases -/
def Stamped (ord : MapOrders) (cat : Catalog) : Prop :=
  cat.generatedAt = str "sha256:" ++ digest16 (stampLines ord cat.profiles cat.aliases)

theorem catalogOf_stamped (ord : MapOrders) (n : Naming) : Stamped ord (catalogOf ord n) := rfl

/-- equal stamps are those of equal entries and aliases -/
def Identifies (cat cat' : Catalog) : Prop :=
  cat.generatedAt = cat'.generatedAt ↔ cat.profiles = cat'.profiles ∧ cat.aliases = cat'.aliases

/-- the catalogs do not differ in versions, tracks and formats alone -/
def Told (cat cat' : Catalog) : Prop :=
  cat.profiles.map hashed = cat'.profiles.map hashed → cat.aliases = cat'.aliases →
    cat.profiles.map unhashed = cat'.profiles.map unhashed

section
variable {ord ord' : MapOrders} {cat cat' : Catalog} (hs : Stamped ord cat) (hs' : Stamped ord' cat')
include hs hs'

/-- a change of the unhashed columns alone is not seen -/
theorem stamp_hashed (h : cat.profiles.map hashed = cat'.profiles.map hashed)
    (ha : cat.aliases = cat'.aliases) : cat.generatedAt = cat'.generatedAt := by
  unfold Stamped at hs hs'
  rw [hs, hs', ha, stampLines_hashed ord ord' h]

theorem told_of_identifies (hi : Identifies cat cat') : Told cat cat' := by
  intro h ha
  rw [(hi.mp (stamp_hashed hs hs' h ha)).1]

theorem identifies_of_told
    (hap : Apart (stampLines ord cat.profiles cat.aliases)
      (stampLines ord' cat'.profiles cat'.aliases))
    (hc : Clean cat) (hc' : Clean cat') (ht : Told cat cat') : Identifies cat cat' := by
  constructor
  · intro hg
    unfold Stamped at hs hs'
    rw [hs, hs'] at hg
    obtain ⟨h, ha⟩ := stampLines_inj ord ord' hc hc' (hap (List.append_cancel_left hg))
    exact ⟨entries_ext h (ht h ha), ha⟩
  · rintro ⟨hp, ha⟩
    exact stamp_hashed hs hs' (by rw [hp]) ha

end

/-- **The stamp identifies the catalog** only if the unhashed columns follow from the hashed ones,
and then it does when no value of the streams contains a tab or a newline. -/
theorem stamp_identifies_iff (ord ord' : MapOrders) (profiles profiles' : Tree)
    (targets targets' : List Target) (chk chk' : Bool) (dist dist' out out' : Dist)
    (h : runExport ord profiles targets chk dist = .ok out)
    (h' : runExport ord' profiles' targets' chk' dist' = .ok out') :
    ∃ cat cat', out.catalog = some cat ∧ out'.catalog = some cat' ∧
      (Identifies cat cat' → Told cat cat') ∧
      (Apart (stampLines ord cat.profiles cat.aliases)
          (stampLines ord' cat'.profiles cat'.aliases) →
        Clean cat → Clean cat' → (Identifies cat cat' ↔ Told cat cat')) := by
  have hs := catalogOf_stamped ord (naming ord profiles targets)
  have hs' := catalogOf_stamped ord' (naming ord' profiles' targets')
  refine ⟨_, _, runExport_catalog h, runExport_catalog h', ?_, fun hap hc hc' => ?_⟩
  · exact told_of_identifies hs hs'
  · exact ⟨told_of_identifies hs hs', identifies_of_told hs hs' hap hc hc'⟩

/-! ## two stamps -/

/-- two targets of one family -/
def pairTargets : List Target :=
  [activeTarget (str "a") (str "f") 2 [], activeTarget (str "b") (str "f") 1 []]

def pairTree : Tree := fun id =>
  if id = str "a" then sampleDir [1] (str "x") 1
  else if id = str "b" then sampleDir [2] (str "y") 1
  else {}

/-- the sorted keys from any sorted list of them -/
theorem sortedKeys_eq (ord : MapOrders) {aliases : Aliases} {l : List Bytes}
    (hs : l.Pairwise (· ≤ ·)) (hn : l.Nodup) (hl : l.toFinset = aliases.keys) :
    sortedKeys ord aliases = l := by
  refine List.Perm.eq_of_pairwise' (List.pairwise_insertionSort _ _) hs ?_
  refine (List.perm_insertionSort _ _).trans ?_
  refine (List.perm_ext_iff_of_nodup (ord.keys_nodup _) hn).mpr fun k => ?_
  rw [ord.mem_keys, ← hl, List.mem_toFinset]

theorem clean_of_keys {cat : Catalog}
    (he : ∀ p ∈ cat.profiles, Plain p.shortName ∧ Plain p.labID ∧ Plain p.family ∧ Plain p.ja4)
    (ha : ∀ k ∈ cat.aliases.keys, Plain k ∧ Plain ((cat.aliases.lookup k).getD [])) : Clean cat := by
  refine ⟨he, fun k v hv => ?_⟩
  have hk := ha k (Finmap.mem_keys.mpr (Finmap.lookup_isSome.mp (Option.isSome_of_eq_some hv)))
  rw [hv] at hk
  exact hk

/-- the default keys in order -/
def legacyKeys : List Bytes :=
  [[], str "chrome_padding_psk_shuffle", str "chrome_pq", str "chrome_pq_psk", str "chrome_psk",
    str "chrome_psk_shuffle"]

instance decidablePlain (v : Bytes) : Decidable (Plain v) := inferInstanceAs (Decidable (_ ∧ _))

/-- the export of the pair and that of its first target have two stamps -/
theorem pair_digests :
    digest16 (stampLines .sorted (naming .sorted pairTree pairTargets).profiles
      (naming .sorted pairTree pairTargets).aliases)
    ≠ digest16 (stampLines .sorted (naming .sorted pairTree (pairTargets.take 1)).profiles
      (naming .sorted pairTree (pairTargets.take 1)).aliases) := by
  rw [stampLines_rows, stampLines_rows]
  unfold stampRows
  rw [sortedKeys_eq (l := legacyKeys) .sorted (by decide +kernel) (by decide +kernel)
      (by decide +kernel),
    sortedKeys_eq (l := legacyKeys) .sorted (by decide +kernel) (by decide +kernel)
      (by decide +kernel)]
  decide +kernel

theorem stamp_identifies_pair : ∃ out out' cat cat',
    runExport .sorted pairTree pairTargets true {} = .ok out ∧
    runExport .sorted pairTree (pairTargets.take 1) true {} = .ok out' ∧
    out.catalog = some cat ∧ out'.catalog = some cat' ∧ Identifies cat cat' ∧
    cat.generatedAt ≠ cat'.generatedAt := by
  obtain ⟨out, h⟩ := exists_export (by decide +kernel :
    (runExport .sorted pairTree pairTargets true {}).isOk = true)
  obtain ⟨out', h'⟩ := exists_export (by decide +kernel :
    (runExport .sorted pairTree (pairTargets.take 1) true {}).isOk = true)
  obtain ⟨cat, cat', hcat, hcat', -, hid⟩ := stamp_identifies_iff .sorted .sorted pairTree pairTree
    pairTargets (pairTargets.take 1) true true {} {} out out' h h'
  obtain rfl := Option.some.inj (hcat.symm.trans (runExport_catalog h))
  obtain rfl := Option.some.inj (hcat'.symm.trans (runExport_catalog h'))
  have hne : (naming .sorted pairTree pairTargets).profiles.length
      ≠ (naming .sorted pairTree (pairTargets.take 1)).profiles.length := by decide +kernel
  have hi := (hid (fun he => absurd he pair_digests)
    (clean_of_keys (by decide +kernel) (by decide +kernel))
    (clean_of_keys (by decide +kernel) (by decide +kernel))).mpr fun hh => by
      have hlen := congrArg List.length hh
      rw [List.length_map, List.length_map] at hlen
      exact absurd hlen hne
  exact ⟨out, out', _, _, h, h', hcat, hcat', hi,
    fun hg => hne (congrArg List.length (hi.mp hg).1)⟩

/-! ## registries with the same stamp -/

/-- two exports whose streams are told apart by the digest, but not by the stamp -/
def Missed (profiles profiles' : Tree) (targets targets' : List Target) : Prop :=
  ∃ out out' cat cat', runExport .sorted profiles targets true {} = .ok out ∧
    runExport .sorted profiles' targets' true {} = .ok out' ∧
    out.catalog = some cat ∧ out'.catalog = some cat' ∧
    Apart (stampLines .sorted cat.profiles cat.aliases)
      (stampLines .sorted cat'.profiles cat'.aliases) ∧ ¬ Identifies cat cat'

theorem missed_of {profiles profiles' : Tree} {targets targets' : List Target}
    (h : (runExport .sorted profiles targets true {}).isOk = true)
    (h' : (runExport .sorted profiles' targets' true {}).isOk = true)
    (hne : (naming .sorted profiles targets).profiles ≠ (naming .sorted profiles' targets').profiles)
    (ha : (naming .sorted profiles targets).aliases = (naming .sorted profiles' targets').aliases)
    (hl : stampLines .sorted (naming .sorted profiles targets).profiles ∅
      = stampLines .sorted (naming .sorted profiles' targets').profiles ∅) :
    Missed profiles profiles' targets targets' := by
  have hlines : stampLines .sorted (naming .sorted profiles targets).profiles
        (naming .sorted profiles targets).aliases
      = stampLines .sorted (naming .sorted profiles' targets').profiles
        (naming .sorted profiles' targets').aliases := by
    rw [ha]
    unfold stampLines at hl ⊢
    exact congrArg (· ++ _) (List.append_cancel_right hl)
  obtain ⟨out, hout⟩ := exists_export h
  obtain ⟨out', hout'⟩ := exists_export h'
  refine ⟨out, out', _, _, hout, hout', runExport_catalog hout, runExport_catalog hout',
    fun _ => hlines, fun hi => hne (hi.mp ?_).1⟩
  show str "sha256:" ++ digest16 _ = str "sha256:" ++ digest16 _
  rw [hlines]

/-- `chrome-120` with a newer version -/
def renewedTargets : List Target :=
  [activeTarget (str "brave") (str "chrome") 120 [],
    activeTarget (str "chrome-120") (str "chrome") 121 trackPinned,
    activeTarget (str "chrome-linux") (str "chrome") 0 trackLatest]

/-- one target, its JA4 reads like the end of a line and the start of the next one -/
def joinedTree : Tree := fun id =>
  if id = str "a" then sampleDir [1] (str "x\np\tf-1\tb\tf\t1\tfalse\ty") 1 else {}

/-- **Missed**: another version, and separators inside a value. -/
theorem stamp_misses : Missed sampleTree sampleTree sampleTargets renewedTargets ∧
    Missed pairTree joinedTree pairTargets pairTargets := by
  constructor
  · exact missed_of (by decide +kernel) (by decide +kernel) (by decide +kernel) (by decide +kernel)
      (by decide +kernel)
  · exact missed_of (by decide +kernel) (by decide +kernel) (by decide +kernel) (by decide +kernel)
      (by decide +kernel)

end Labctl
