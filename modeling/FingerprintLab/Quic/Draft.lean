import FingerprintLab.Quic.Declared
import FingerprintLab.Quic.Spelling

/-!
# Drafts

`extract_utls_profile.py` makes a catalog document of an observation.

* `Inferred`, `infer_emit`   how the stack could be emitted, from its markers;
* `Draft`, `build_draft`     the document;
* `CuratedName`, `directory` the files below the catalog that the loader takes;
* `load_catalog_ok`          a directory whose documents have the format loads;
* `score_match_le`           no entry of a valid document scores more than `topScore`;
* `draft_score`              the draft reaches it on its own observation;
* `draft_wins`               so `classify` reports the draft wherever it comes first.
-/

set_option linter.unusedVariables false

namespace Quic
open Go Py

/-! ## the draft -/

structure Inferred where
  emitKind : Bytes
  engine : Option Engine := none
  status : Bytes
  shortHint : Bytes
  valuePolicy : Bytes
  framePolicy : Bytes
  deriving DecidableEq, Repr

def engineOf (chromeParrot enableDatagrams zeroLengthSCID : Bool) : Engine where
  chromeParrot := .val chromeParrot
  enableDatagrams := .val enableDatagrams
  zeroLengthSCID := .val zeroLengthSCID

def infer_emit (obs : Observation) : Inferred :=
  let m := obs.markers
  if m .x11 && m .x3128 then
    { emitKind := str "sagernet_chrome_parrot"
      engine := some (engineOf true true true)
      status := str "emit_ready"
      shortHint := str "chrome"
      valuePolicy := str "chrome_parrot_defaults"
      framePolicy := str "chrome_random_frames" }
  else if !m .x11 && !m .x3128 && m .x20 then
    { emitKind := str "sagernet_plain"
      engine := some (engineOf false true false)
      status := str "emit_ready"
      shortHint := str "quic-go-datagram"
      valuePolicy := str "quic_go_defaults"
      framePolicy := str "engine_default" }
  else if !m .x11 && !m .x3128 && !m .x20 then
    { emitKind := str "sagernet_plain"
      engine := some (engineOf false false false)
      status := str "emit_ready"
      shortHint := str "quic-go"
      valuePolicy := str "quic_go_defaults"
      framePolicy := str "engine_default" }
  else if m .x11 && !m .x3128 then
    { emitKind := str "match_only"
      engine := some (engineOf false (m .x20) (obs.scidLen = some 0))
      status := str "observation_only"
      shortHint := str "yandex-or-firefox"
      valuePolicy := str "unspecified"
      framePolicy := str "unspecified" }
  else
    { emitKind := str "match_only"
      status := str "observation_only"
      shortHint := orElse obs.family obs.id
      valuePolicy := str "unspecified"
      framePolicy := str "unspecified" }

structure InitialSpec where
  srcConnIDLength : Option Int
  destConnIDLength : Option Int
  framePolicy : Bytes
  deriving DecidableEq, Repr

structure TransportSpec where
  idOrder : List Bytes
  greasePolicy : Bytes
  valuePolicy : Bytes
  deriving DecidableEq, Repr

structure HelloSpec where
  policy : Bytes
  alpn : List Bytes
  notes : Bytes
  deriving DecidableEq, Repr

/-- `emit.structured` -/
structure Structured where
  initial : InitialSpec
  transportParameters : TransportSpec
  clientHello : HelloSpec
  deriving DecidableEq, Repr

/-- an element of `random.slots` -/
structure Slot where
  id : Bytes
  layer : Bytes
  stableForIdentity : Bool
  policy : Bytes
  authOverlay : Option Bool := none
  deriving DecidableEq, Repr

/-- a `quic-utls-profile-v1` document with the members that the loader does not read -/
structure Draft extends CatalogDoc where
  version : Nat
  family : Bytes
  aliases : List Bytes
  dcidLen : Option Int
  ja4Hint : Option Bytes
  structured : Structured
  authNotes : Bytes
  slots : List Slot
  notes : Bytes

/-- `DRAFT — curated shorts from scripts/sync_utls_catalog.py` -/
def draftNotes : Bytes :=
  str "DRAFT " ++ [0xe2, 0x80, 0x94] ++ str " curated shorts from scripts/sync_utls_catalog.py"

def build_draft (obs : Observation) : Draft :=
  let inf := infer_emit obs
  let has_grease := str "GREASE" ∈ obs.tp
  { format := .val PROFILE_FORMAT
    version := 1
    short := inf.shortHint
    family := orElse obs.family inf.shortHint
    aliases := [obs.id]
    status := inf.status
    identity := {
      tpIDSet := .val (obs.tp.map .str)
      markers := .val fun m => .val (obs.markers m)
      scidLen := .ofOption obs.scidLen
      datagramCountClass := if obs.datagramCount ∈ [1, 2] then .val obs.datagramCount else .null }
    tpIDSetMatch := .val .set
    dcidLen := none
    ja4Hint := none
    emit := .val {
      emitKind := .val inf.emitKind
      engine := (inf.engine.map .val).getD .missing
      notes := .val (str "auto-extracted from lab id=" ++ obs.id) }
    structured := {
      initial := {
        srcConnIDLength := obs.scidLen
        destConnIDLength := none
        framePolicy := inf.framePolicy }
      transportParameters := {
        idOrder := obs.tp
        greasePolicy := if has_grease then str "random_0_15" else str "omit"
        valuePolicy := inf.valuePolicy }
      clientHello := {
        policy := if inf.status = str "emit_ready" then str "engine_default" else str "unspecified"
        alpn := [str "h3"]
        notes := str "Draft from observation; review before promoting via sync_utls_catalog.py" } }
    slots := [
      { id := str "tp_grease_value"
        layer := str "transport_parameters"
        stableForIdentity := false
        policy := if has_grease then str "unknown" else str "omit"
        authOverlay := some false },
      { id := str "initial_dcid"
        layer := str "initial"
        stableForIdentity := false
        policy := str "random_bytes" }]
    auth := .val {
      capable := .val false
      channel := if has_grease then .val (str "tp_grease_value") else .null
      requiresDemuxFingerprint := .val false }
    authNotes := str "Draft: capable only after curated chrome emit path"
    observationRefs := .val [obs.id]
    notes := draftNotes }

/-! ## validity -/

/-- the pairs of a status and a kind that `infer_emit` chooses from -/
def emissions : List (Bytes × Bytes) :=
  [(str "emit_ready", str "sagernet_chrome_parrot"), (str "emit_ready", str "sagernet_plain"),
    (str "observation_only", str "match_only")]

theorem infer_emit_mem (obs : Observation) :
    ((infer_emit obs).status, (infer_emit obs).emitKind) ∈ emissions := by
  unfold infer_emit
  dsimp only
  split_ifs
  · exact List.mem_cons_self
  · exact List.mem_cons_of_mem _ List.mem_cons_self
  · exact List.mem_cons_of_mem _ List.mem_cons_self
  · exact List.mem_cons_of_mem _ (List.mem_cons_of_mem _ List.mem_cons_self)
  · exact List.mem_cons_of_mem _ (List.mem_cons_of_mem _ List.mem_cons_self)

/-- the schema allows every one of them -/
theorem emissions_valid : ∀ e ∈ emissions, e.1 ∈ statuses ∧ e.2 ∈ emitKinds ∧
    e.2 ≠ str "uquic_preset" ∧ (e.1 = str "emit_ready" → e.2 ≠ str "match_only") := by decide

theorem infer_emit_engine (obs : Observation) : (infer_emit obs).engine = none ∨
    ∃ a b c, (infer_emit obs).engine = some (engineOf a b c) := by
  unfold infer_emit
  dsimp only
  split_ifs
  · exact Or.inr ⟨_, _, _, rfl⟩
  · exact Or.inr ⟨_, _, _, rfl⟩
  · exact Or.inr ⟨_, _, _, rfl⟩
  · exact Or.inr ⟨_, _, _, rfl⟩
  · exact Or.inl rfl

theorem orElse_ne_nil (a : Option Bytes) {b : Bytes} (hb : b ≠ []) : orElse a b ≠ [] := by
  unfold orElse
  cases a with
  | none => exact hb
  | some s =>
    dsimp only
    by_cases hs : s = []
    · rw [if_pos hs]
      exact hb
    · rw [if_neg hs]
      exact hs

theorem shortHint_ne_nil (obs : Observation) (hid : obs.id ≠ []) :
    (infer_emit obs).shortHint ≠ [] := by
  unfold infer_emit
  dsimp only
  split_ifs
  · exact List.cons_ne_nil _ _
  · exact List.cons_ne_nil _ _
  · exact List.cons_ne_nil _ _
  · exact List.cons_ne_nil _ _
  · exact orElse_ne_nil obs.family hid

/-- A draft is a valid document, unless the length of the source id is negative. -/
theorem build_draft_valid (obs : Observation) (hid : obs.id ≠ [])
    (hscid : ∀ n, obs.scidLen = some n → 0 ≤ n) :
    SchemaValid (build_draft obs).toCatalogDoc := by
  obtain ⟨hstatus, hkind, hpreset, hready⟩ := emissions_valid _ (infer_emit_mem obs)
  refine ⟨rfl, shortHint_ne_nil obs hid, hstatus, ⟨obs.tp, rfl⟩, Or.inr ⟨_, rfl, fun m => Member.val_ne_null _⟩,
    fun n hn => ?_, fun n hn => ?_, ?_, ?_, Member.val_ne_null _⟩
  · have hget := congrArg Member.get hn
    exact hscid n ((Member.get_ofOption obs.scidLen).symm.trans hget)
  · have hclass : (if obs.datagramCount ∈ [1, 2] then Member.val (obs.datagramCount : Int)
        else .null) = .val n := hn
    by_cases hm : obs.datagramCount ∈ [1, 2]
    · rw [if_pos hm] at hclass
      have hcast := Member.val.inj hclass
      simp only [List.mem_cons, List.not_mem_nil, or_false] at hm
      omega
    · rw [if_neg hm] at hclass
      cases hclass
  · refine ⟨_, _, rfl, rfl, hkind, fun h => absurd h hpreset, hready,
      Member.missing_ne_null, Member.val_ne_null _, ?_⟩
    show ((infer_emit obs).engine.map Member.val).getD .missing = .missing ∨
      ∃ en, ((infer_emit obs).engine.map Member.val).getD .missing = .val en ∧ _
    obtain he | ⟨a, b, c, he⟩ := infer_emit_engine obs
    · rw [he]
      exact Or.inl rfl
    · rw [he]
      exact Or.inr ⟨_, rfl, Member.val_ne_null _, Member.val_ne_null _, Member.val_ne_null _⟩
  · exact ⟨_, _, _, rfl, rfl, rfl, fun h => absurd h Bool.false_ne_true⟩

/-! ## the directory -/

/-- the path that `main` writes the draft to, below the directory; an id with a `/` leads out of it -/
def draftFile (obs : Observation) : Bytes := obs.id ++ str ".json"

def isJson (name : Bytes) : Bool := (str ".json").isSuffixOf name

/-- the directory itself can hold a file of that name -/
def isFileName (s : Bytes) : Bool := decide (0x2f ∉ s) && decide (0x00 ∉ s)

/-- `glob("*.json")` finds the file; it does not descend into directories -/
def globbed (path : Bytes) : Bool := isFileName path && isJson path

/-- the loader takes the file at this path -/
def CuratedName (path : Bytes) : Prop :=
  globbed path = true ∧ (str "_").isPrefixOf path = false ∧ path ≠ str "index.json"

/-- a directory of the catalog as the loader sees it, from the files that are written below it -/
def directory (docs : List (Bytes × CatalogDoc)) : List (Bytes × CuratedDoc) :=
  (docs.filter fun f => globbed f.1).map fun f => (f.1, f.2.toCuratedDoc)

theorem isFileName_iff {s : Bytes} : isFileName s = true ↔ 0x2f ∉ s ∧ 0x00 ∉ s := by
  simp [isFileName]

/-- an ending that a directory can hold makes no difference to the rest -/
theorem isFileName_append {s t : Bytes} (ht : isFileName t = true) :
    isFileName (s ++ t) = isFileName s := by
  obtain ⟨hslash, hnul⟩ := isFileName_iff.mp ht
  simp [isFileName, hslash, hnul]

theorem isJson_append (s : Bytes) : isJson (s ++ str ".json") = true :=
  List.isSuffixOf_iff_suffix.mpr (List.suffix_append _ _)

theorem globbed_append (s : Bytes) : globbed (s ++ str ".json") = isFileName s := by
  unfold globbed
  rw [isFileName_append (by decide), isJson_append, Bool.and_true]

/-- `main` gives a name that is taken unless the id is a path, begins with `_` or is `index`. -/
theorem curatedName_draftFile (obs : Observation) :
    CuratedName (draftFile obs) ↔
      isFileName obs.id = true ∧ (str "_").isPrefixOf obs.id = false ∧ obs.id ≠ str "index" := by
  unfold CuratedName draftFile
  refine and_congr ?_ (and_congr ?_ (not_congr ?_))
  · rw [globbed_append]
  · cases obs.id <;> rfl
  · have hcut : str "index.json" = str "index" ++ str ".json" := rfl
    rw [hcut, List.append_left_inj]

theorem mem_directory {docs : List (Bytes × CatalogDoc)} {f : Bytes × CuratedDoc} :
    f ∈ directory docs ↔ ∃ g ∈ docs, globbed g.1 = true ∧ f = (g.1, g.2.toCuratedDoc) := by
  unfold directory
  rw [List.mem_map]
  constructor
  · rintro ⟨g, hg, rfl⟩
    exact ⟨g, (List.mem_filter.mp hg).1, (List.mem_filter.mp hg).2, rfl⟩
  · rintro ⟨g, hg, hglob, rfl⟩
    exact ⟨g, List.mem_filter.mpr ⟨hg, hglob⟩, rfl⟩

theorem mapM_ok {α β ε : Type} {f : α → Except ε β} {g : α → β} (l : List α)
    (h : ∀ x ∈ l, f x = .ok (g x)) : l.mapM f = .ok (l.map g) := by
  induction l with
  | nil => rfl
  | cons x l ih =>
    rw [List.mapM_cons, h x List.mem_cons_self, ih fun y hy => h y (List.mem_cons_of_mem x hy)]
    rfl

/-- documents with the right format load, one entry for every name that is taken -/
theorem load_catalog_ok (u : Unicode) (docs : List (Bytes × CatalogDoc))
    (h : ∀ f ∈ docs, f.2.format = .val PROFILE_FORMAT) :
    ∃ catalog, load_catalog_for_match u (directory docs) = .ok catalog ∧
      ∀ cat, cat ∈ catalog ↔ ∃ f ∈ docs, CuratedName f.1 ∧ cat = f.2.entry u f.1 := by
  have hformat : ∀ f ∈ directory docs, f.2.format.get = some PROFILE_FORMAT := by
    intro f hf
    obtain ⟨g, hg, -, rfl⟩ := mem_directory.mp hf
    show g.2.format.get = _
    rw [h g hg]
    rfl
  have hload : ∃ curated, iter_curated_profiles (directory docs) = .ok curated ∧
      ∀ f, f ∈ curated ↔ f ∈ directory docs ∧
        (str "_").isPrefixOf f.1 = false ∧ f.1 ≠ str "index.json" := by
    unfold iter_curated_profiles
    dsimp only
    rw [mapM_ok (g := id)]
    · refine ⟨_, rfl, fun f => ?_⟩
      rw [List.map_id, List.mem_filter, (List.perm_insertionSort _ _).mem_iff]
      simp
    · intro f hf
      have hmem := (List.perm_insertionSort _ _).mem_iff.mp (List.mem_of_mem_filter hf)
      rw [if_pos (hformat f hmem)]
      rfl
  obtain ⟨curated, hcurated, hmem⟩ := hload
  refine ⟨curated.map (loadEntry u), ?_, fun cat => ?_⟩
  · unfold load_catalog_for_match
    rw [hcurated]
    rfl
  · rw [List.mem_map]
    constructor
    · rintro ⟨f, hf, rfl⟩
      obtain ⟨hdir, hname⟩ := (hmem f).mp hf
      obtain ⟨g, hg, hglob, rfl⟩ := mem_directory.mp hdir
      exact ⟨g, hg, ⟨hglob, hname⟩, rfl⟩
    · rintro ⟨g, hg, ⟨hglob, hname⟩, rfl⟩
      exact ⟨_, (hmem _).mpr ⟨mem_directory.mpr ⟨g, hg, hglob, rfl⟩, hname⟩, rfl⟩

/-! ## the highest score -/

/-- what no entry exceeds on this observation -/
def topScore (obs : Observation) : Int :=
  100 + (if obs.scidLen.isSome then 20 else 0) + (if obs.datagramCount ∈ [1, 2] then 10 else 0) + 5

theorem scidScore_le {obs cat : Option Int} {x : Int × List Reason}
    (h : scidScore obs cat = .ok x) : x.1 ≤ if obs.isSome then 20 else 0 := by
  unfold scidScore at h
  cases cat with
  | none =>
    rw [← Except.ok.inj h]
    show (0 : Int) ≤ _
    split <;> decide
  | some c =>
    cases obs with
    | none =>
      rw [← Except.ok.inj h]
      exact Int.le_refl 0
    | some o =>
      dsimp only at h
      by_cases ho : o = c
      · rw [if_pos ho] at h
        rw [← Except.ok.inj h]
        exact Int.le_refl 20
      · rw [if_neg ho] at h
        cases h

/-- the schema knows two classes of counts -/
theorem datagramScore_le (count : Nat) (cat : Option Int) (h : ∀ n, cat = some n → n = 1 ∨ n = 2) :
    (datagramScore count cat).1 ≤ if count ∈ [1, 2] then 10 else 0 := by
  have hzero : (0 : Int) ≤ if count ∈ [1, 2] then 10 else 0 := by split <;> decide
  unfold datagramScore
  cases cat with
  | none => exact hzero
  | some n =>
    dsimp only
    by_cases hc : count = 0
    · rw [if_pos hc]
      exact hzero
    rw [if_neg hc]
    by_cases hn : (count : Int) = n
    · rw [if_pos hn, if_pos]
      have hn' := h n rfl
      rw [← hn] at hn'
      simp only [List.mem_cons, List.not_mem_nil, or_false]
      omega
    · rw [if_neg hn]
      exact hzero

theorem refScore_le (id : Bytes) (cat : Entry) : (refScore id cat).1 ≤ 5 := by
  unfold refScore
  split <;> decide

theorem topScore_nonneg (obs : Observation) : 0 ≤ topScore obs := by
  have h1 : (0 : Int) ≤ if obs.scidLen.isSome then 20 else 0 := by split <;> decide
  have h2 : (0 : Int) ≤ if obs.datagramCount ∈ [1, 2] then 10 else 0 := by split <;> decide
  unfold topScore
  omega

theorem score_match_le (u : Unicode) (path : Bytes) {d : CatalogDoc} (hd : SchemaValid d)
    (obs : Observation) : (score_match obs (d.entry u path)).1 ≤ topScore obs := by
  have htop := topScore_nonneg obs
  unfold score_match
  split
  · dsimp only
    omega
  · split
    · split
      · dsimp only
        omega
      · rename_i scid rs hx
        have h1 := scidScore_le hx
        have h2 := datagramScore_le obs.datagramCount (d.entry u path).datagramCountClass fun n hn =>
          hd.datagramCountClass n (by
            have hget : d.identity.datagramCountClass.get = some n := hn
            cases hm : d.identity.datagramCountClass with
            | val k => rw [hm] at hget; exact congrArg _ (Option.some.inj hget)
            | missing => rw [hm] at hget; cases hget
            | null => rw [hm] at hget; cases hget)
        have h3 := refScore_le obs.id (d.entry u path)
        unfold topScore
        dsimp only at h1 ⊢
        omega
    · dsimp only
      omega

/-! ## the draft's score -/

/-- the reasons that `score_match` gives for the draft -/
def draftReasons (obs : Observation) : List Reason :=
  .tpSetExact :: (if obs.scidLen.isSome then [.scidMatch] else [])
    ++ (if obs.datagramCount ∈ [1, 2] then [.dgClass] else []) ++ [.refHint]

theorem norm_own_tokens (u : Unicode) {tp : List Bytes} (h : ∀ t ∈ tp, ∃ n, t = token n) :
    norm_tp u (tp.map .str) = tp := by
  have hns : ∃ ns : List Nat, tp = ns.map token := by
    induction tp with
    | nil => exact ⟨[], rfl⟩
    | cons t tp ih =>
      obtain ⟨n, hn⟩ := h t List.mem_cons_self
      obtain ⟨ns, hns⟩ := ih fun s hs => h s (List.mem_cons_of_mem t hs)
      exact ⟨n :: ns, by rw [List.map_cons, hn, hns]⟩
  obtain ⟨ns, rfl⟩ := hns
  exact norm_tokens u ns

/-- what the loader makes of the draft: the observation's own identity -/
theorem draft_entry (u : Unicode) (path : Bytes) (obs : Observation)
    (htp : obs.tpSet = obs.tp.toFinset) (htok : ∀ t ∈ obs.tp, ∃ n, t = token n) :
    ((build_draft obs).entry u path).tpSet = obs.tpSet ∧
      ((build_draft obs).entry u path).markers = (fun m => .val (obs.markers m)) ∧
      ((build_draft obs).entry u path).scidLen = obs.scidLen ∧
      ((build_draft obs).entry u path).datagramCountClass
        = (if obs.datagramCount ∈ [1, 2] then some (obs.datagramCount : Int) else none) ∧
      ((build_draft obs).entry u path).observationRefs = [obs.id] := by
  refine ⟨?_, ?_, ?_, ?_, rfl⟩
  · show (norm_tp u (obs.tp.map .str)).toFinset = _
    rw [norm_own_tokens u htok, htp]
  · show entryMarkers (.val fun m => .val (obs.markers m)) (norm_tp u (obs.tp.map .str)).toFinset = _
    unfold entryMarkers
    exact if_pos rfl
  · exact Member.get_ofOption obs.scidLen
  · show (if obs.datagramCount ∈ [1, 2] then Member.val (obs.datagramCount : Int) else .null).get = _
    split <;> rfl

theorem draft_score (u : Unicode) (path : Bytes) (obs : Observation)
    (htp : obs.tpSet = obs.tp.toFinset) (htok : ∀ t ∈ obs.tp, ∃ n, t = token n) :
    score_match obs ((build_draft obs).entry u path) = (topScore obs, draftReasons obs) := by
  obtain ⟨hset, hmarkers, hscid, hcount, hrefs⟩ := draft_entry u path obs htp htok
  have hconf : markerConflict obs.markers ((build_draft obs).entry u path).markers = none := by
    rw [hmarkers, markerConflict_none]
    intro m b hb
    exact (Member.val.inj hb).symm
  have hs : scidScore obs.scidLen obs.scidLen = .ok (if obs.scidLen.isSome then 20 else 0,
      if obs.scidLen.isSome then [.scidMatch] else []) := by
    unfold scidScore
    cases obs.scidLen with
    | none => rfl
    | some n => exact if_pos rfl
  have hd : datagramScore obs.datagramCount
      (if obs.datagramCount ∈ [1, 2] then some (obs.datagramCount : Int) else none)
      = (if obs.datagramCount ∈ [1, 2] then 10 else 0,
        if obs.datagramCount ∈ [1, 2] then [.dgClass] else []) := by
    unfold datagramScore
    by_cases hm : obs.datagramCount ∈ [1, 2]
    · rw [if_pos hm, if_pos hm, if_pos hm]
      have hne : obs.datagramCount ≠ 0 := by
        rintro h0
        rw [h0] at hm
        exact absurd hm (by decide)
      dsimp only
      rw [if_neg hne, if_pos rfl]
    · rw [if_neg hm, if_neg hm, if_neg hm]
  have hr : refScore obs.id ((build_draft obs).entry u path) = (5, [.refHint]) := by
    unfold refScore
    rw [hrefs]
    exact if_pos (Or.inl List.mem_cons_self)
  unfold score_match
  rw [hconf]
  dsimp only
  rw [if_pos hset.symm, hscid, hs, hcount, hd, hr]
  rfl

/-! ## the classification -/

/-- an entry that does not score more leaves the best one -/
theorem foldl_keeps (obs : Observation) (best : Best) (rest : List Entry) (cs : List Candidate)
    (h : ∀ cat ∈ rest, (score_match obs cat).1 ≤ best.score) :
    ∃ cs', rest.foldl (consider obs) (some best, cs) = (some best, cs') := by
  induction rest generalizing cs with
  | nil => exact ⟨cs, rfl⟩
  | cons cat rest ih =>
    have hstep : ∃ cs', consider obs (some best, cs) cat = (some best, cs') := by
      have hle := h cat List.mem_cons_self
      unfold consider
      dsimp only [Option.map_some, Option.getD_some]
      by_cases hneg : (score_match obs cat).1 < 0
      · exact ⟨cs, if_pos hneg⟩
      · rw [if_neg hneg, if_neg (Int.not_lt.mpr hle)]
        exact ⟨_, rfl⟩
    obtain ⟨cs', hstep⟩ := hstep
    rw [List.foldl_cons, hstep]
    exact ih cs' fun c hc => h c (List.mem_cons_of_mem cat hc)

/-- the first entry is reported when no later one scores more -/
theorem classify_first (obs : Observation) (cat : Entry) (rest : List Entry)
    (hcat : 0 ≤ (score_match obs cat).1)
    (h : ∀ c ∈ rest, (score_match obs c).1 ≤ (score_match obs cat).1) :
    ∃ candidates, classify obs (cat :: rest) =
      report obs (some ⟨cat, (score_match obs cat).1, (score_match obs cat).2⟩) candidates := by
  obtain ⟨cs, hfold⟩ := foldl_keeps obs ⟨cat, (score_match obs cat).1, (score_match obs cat).2⟩ rest
    [⟨cat.short, (score_match obs cat).1, (score_match obs cat).2⟩] h
  refine ⟨cs, ?_⟩
  unfold classify
  rw [List.foldl_cons, consider_first obs hcat, hfold]

/-- the entry has the highest score that a valid document can have, and is reported when it comes
first -/
structure Wins (u : Unicode) (obs : Observation) (cat : Entry) : Prop where
  score : (score_match obs cat).1 = topScore obs
  highest : ∀ path d, SchemaValid d →
    (score_match obs (d.entry u path)).1 ≤ (score_match obs cat).1
  reported : ∀ rest : List (Bytes × CatalogDoc), (∀ f ∈ rest, SchemaValid f.2) → ∃ candidates,
    classify obs (cat :: rest.map fun f => f.2.entry u f.1) =
      report obs (some ⟨cat, (score_match obs cat).1, (score_match obs cat).2⟩) candidates

/-- **A draft wins its own observation**, wherever its file is taken. -/
theorem draft_wins (u : Unicode) {name path : Bytes} {p : ProfileDir} {obs : Observation}
    (hobs : load_observation u name p = some obs) (htok : ∀ t ∈ obs.tp, ∃ n, t = token n)
    (hpath : CuratedName path) (docs : List (Bytes × CatalogDoc)) (hdocs : ∀ f ∈ docs, SchemaValid f.2) :
    ∃ catalog, load_catalog_for_match u
        (directory ((path, (build_draft obs).toCatalogDoc) :: docs)) = .ok catalog ∧
      (build_draft obs).entry u path ∈ catalog ∧ Wins u obs ((build_draft obs).entry u path) := by
  have hscore := draft_score u path obs (load_observation_tp hobs).2.1 htok
  have hformat : ∀ f ∈ (path, (build_draft obs).toCatalogDoc) :: docs,
      f.2.format = .val PROFILE_FORMAT := by
    intro f hf
    obtain rfl | hf := List.mem_cons.mp hf
    · rfl
    · exact (hdocs f hf).format
  obtain ⟨catalog, hload, hmem⟩ := load_catalog_ok u _ hformat
  refine ⟨catalog, hload, (hmem _).mpr ⟨_, List.mem_cons_self, hpath, rfl⟩, ?_, ?_, ?_⟩
  · rw [hscore]
  · intro path' d hd
    rw [hscore]
    exact score_match_le u path' hd obs
  · intro rest hrest
    refine classify_first obs _ _ ?_ fun c hc => ?_
    · rw [hscore]
      exact topScore_nonneg obs
    · obtain ⟨f, hf, rfl⟩ := List.mem_map.mp hc
      rw [hscore]
      exact score_match_le u f.1 (hrest f hf) obs

/-! ## a draft that wins and one that is skipped -/

/-- `0x11` and `GREASE` -/
def twoTokens : List Bytes := [0x11, 27].map token

theorem load_two (name : Bytes) : ∃ obs,
    load_observation .ascii name (observed (twoTokens.map .str)) = some obs ∧
    (∀ t ∈ obs.tp, ∃ n, t = token n) ∧ obs.id = name := by
  refine ⟨_, rfl, fun t ht => ?_, rfl⟩
  have htp : t ∈ norm_tp .ascii (twoTokens.map .str) := ht
  unfold twoTokens at htp
  rw [norm_tokens] at htp
  obtain ⟨n, -, rfl⟩ := List.mem_map.mp htp
  exact ⟨n, rfl⟩

theorem draft_wins_two : ∃ obs catalog,
    load_observation .ascii (str "x") (observed (twoTokens.map .str)) = some obs ∧
    load_catalog_for_match .ascii (directory [(draftFile obs, (build_draft obs).toCatalogDoc),
      (str "ordered.json", orderedDoc)]) = .ok catalog ∧
    (build_draft obs).entry .ascii (draftFile obs) ∈ catalog ∧
    Wins .ascii obs ((build_draft obs).entry .ascii (draftFile obs)) := by
  obtain ⟨obs, hobs, htok, hid⟩ := load_two (str "x")
  have hname : CuratedName (draftFile obs) := by
    rw [curatedName_draftFile, hid]
    exact ⟨by decide, rfl, by decide⟩
  obtain ⟨catalog, hload, hmem, hwins⟩ := draft_wins .ascii hobs htok hname
    [(str "ordered.json", orderedDoc)] fun f hf => List.mem_singleton.mp hf ▸ orderedDoc_valid
  exact ⟨obs, catalog, hobs, hload, hmem, hwins⟩

/-- the draft of an observation with that id is not loaded back -/
def NotLoaded (id : Bytes) : Prop := ∃ obs,
  load_observation .ascii id (observed (twoTokens.map .str)) = some obs ∧
  (∀ t ∈ obs.tp, ∃ n, t = token n) ∧
  load_catalog_for_match .ascii (directory [(draftFile obs, (build_draft obs).toCatalogDoc)]) = .ok []

theorem notLoaded_of_name {id : Bytes} (h : ¬ CuratedName (id ++ str ".json")) : NotLoaded id := by
  obtain ⟨obs, hobs, htok, rfl⟩ := load_two id
  refine ⟨obs, hobs, htok, ?_⟩
  obtain ⟨catalog, hload, hmem⟩ := load_catalog_ok .ascii
    [(draftFile obs, (build_draft obs).toCatalogDoc)] fun f hf => List.mem_singleton.mp hf ▸ rfl
  have hnone : catalog = [] := by
    refine List.eq_nil_iff_forall_not_mem.mpr fun cat hcat => ?_
    obtain ⟨f, hf, hname, -⟩ := (hmem cat).mp hcat
    rw [List.mem_singleton.mp hf] at hname
    exact h hname
  rw [hload, hnone]

/-- The draft of an id that begins with `_` is skipped, and one whose id is a path is not found. -/
theorem draft_skipped : NotLoaded (str "_x") ∧ NotLoaded (str "lab/x") := by
  constructor
  · exact notLoaded_of_name fun h => absurd h.2.1 (by decide)
  · exact notLoaded_of_name fun h => absurd h.1 (by decide)

end Quic
