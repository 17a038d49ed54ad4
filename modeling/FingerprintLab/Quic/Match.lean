import FingerprintLab.Quic.Observe

/-!
# Matching observations against the QUIC catalog

* `CuratedDoc`, `Entry`, `load_catalog_for_match`   the catalog, as the matcher gets it;
* `score_match`        the score of an entry, -1 when it does not fit, with the reasons;
* `classify`           the loop that keeps the best entry;
* `Accepts`            the entry fits; `score_match_nonneg` says that only this decides;
* `classify_filter`    `classify` sees the entries that fit and no others;
* `classification_stable`   what the result of a classification depends on.
-/

set_option linter.unusedVariables false

namespace Quic
open Go Py

/-! ## the catalog -/

structure Auth where
  capable : Member Bool := .missing
  channel : Member Bytes := .missing
  requiresDemuxFingerprint : Member Bool := .missing
  deriving DecidableEq, Repr

/-- `identity` of a curated document -/
structure Identity where
  tpIDSet : Member (List TPElem) := .missing
  markers : Member (Marker → Member Bool) := .missing
  scidLen : Member Int := .missing
  datagramCountClass : Member Int := .missing

/-- what is read of a `quic-utls-profile-v1` document -/
structure CuratedDoc where
  format : Member Bytes := .missing
  short : Bytes
  status : Bytes
  identity : Identity
  emit : Member Emit := .missing
  auth : Member Auth := .missing
  observationRefs : Member (List Bytes) := .missing

def PROFILE_FORMAT : Bytes := str "quic-utls-profile-v1"

/-- `refuse format`: the file and the format that it has -/
structure LoadError where
  file : Bytes
  format : Option Bytes
  deriving DecidableEq, Repr

/-- The documents in the order of their names.  A file is a name that ends in `.json` and its
content. -/
def iter_curated_profiles (files : List (Bytes × CuratedDoc)) :
    Except LoadError (List (Bytes × CuratedDoc)) :=
  let sorted := files.insertionSort fun a b => a.1 ≤ b.1
  let curated := sorted.filter fun f =>
    !((str "_").isPrefixOf f.1) && !(f.1 = str "index.json")
  curated.mapM fun f =>
    if f.2.format.get = some PROFILE_FORMAT then .ok f else .error ⟨f.1, f.2.format.get⟩

structure Entry where
  path : Bytes
  short : Bytes
  status : Bytes
  tpSet : Finset Bytes
  markers : Marker → Member Bool
  scidLen : Option Int
  datagramCountClass : Option Int
  emit : Option Emit
  auth : Auth
  observationRefs : List Bytes

/-- `ident.get("markers") or markers_from_tp(..)`: an empty object counts as missing -/
def entryMarkers (stated : Member (Marker → Member Bool)) (s : Finset Bytes) :
    Marker → Member Bool :=
  match stated with
  | .val ms => if Marker.all.any fun m => (ms m).has then ms else fun m => .val (markers_from_tp s m)
  | _ => fun m => .val (markers_from_tp s m)

def loadEntry (u : Unicode) (f : Bytes × CuratedDoc) : Entry :=
  let ident := f.2.identity
  let tp := norm_tp u (ident.tpIDSet.get.getD [])
  { path := f.1
    short := f.2.short
    status := f.2.status
    tpSet := tp.toFinset
    markers := entryMarkers ident.markers tp.toFinset
    scidLen := ident.scidLen.get
    datagramCountClass := ident.datagramCountClass.get
    emit := f.2.emit.get
    auth := f.2.auth.get.getD {}
    observationRefs := f.2.observationRefs.get.getD [] }

def load_catalog_for_match (u : Unicode) (files : List (Bytes × CuratedDoc)) :
    Except LoadError (List Entry) := do
  let docs ← iter_curated_profiles files
  return docs.map (loadEntry u)

/-! ## the score -/

/-- the texts of `reasons` with the values that they show -/
inductive Reason where
  | marker (m : Marker) (obs cat : Bool)
  | tpSetExact
  | tpSetMismatch
  | scidUnknown
  | scidMatch
  | scid (obs cat : Int)
  | dgClass
  | dgClassSoft (obs : Nat) (cat : Int)
  | refHint
  deriving DecidableEq, Repr

/-- the first marker that the entry states and the observation has otherwise -/
def markerConflict (om : Markers) (cm : Marker → Member Bool) : Option Marker :=
  Marker.all.find? fun m =>
    match cm m with
    | .val b => b != om m
    | _ => false

def scidScore (obs cat : Option Int) : Except Reason (Int × List Reason) :=
  match cat with
  | none => .ok (0, [])
  | some c =>
    match obs with
    | none => .ok (0, [.scidUnknown])
    | some o => if o = c then .ok (20, [.scidMatch]) else .error (.scid o c)

def datagramScore (count : Nat) (cat : Option Int) : Int × List Reason :=
  match cat with
  | none => (0, [])
  | some dcc =>
    if count = 0 then (0, [])
    else if (count : Int) = dcc then (10, [.dgClass])
    else (0, [.dgClassSoft count dcc])

def refScore (id : Bytes) (cat : Entry) : Int × List Reason :=
  if id ∈ cat.observationRefs ∨ id = cat.short then (5, [.refHint]) else (0, [])

def score_match (obs : Observation) (cat : Entry) : Int × List Reason :=
  match markerConflict obs.markers cat.markers with
  | some m => (-1, [.marker m (obs.markers m) ((cat.markers m).get.getD false)])
  | none =>
    if obs.tpSet = cat.tpSet then
      match scidScore obs.scidLen cat.scidLen with
      | .error r => (-1, [r])
      | .ok (scid, rs) =>
        let (dg, rd) := datagramScore obs.datagramCount cat.datagramCountClass
        let (ref, rr) := refScore obs.id cat
        (100 + scid + dg + ref, .tpSetExact :: rs ++ rd ++ rr)
    else (-1, [.tpSetMismatch])

/-! ## the classification -/

structure Candidate where
  short : Bytes
  score : Int
  reasons : List Reason
  deriving DecidableEq, Repr

structure Best where
  cat : Entry
  score : Int
  reasons : List Reason

/-- one turn of the loop over the catalog; `best_score` starts at -1 -/
def consider (obs : Observation) (acc : Option Best × List Candidate) (cat : Entry) :
    Option Best × List Candidate :=
  let (sc, reasons) := score_match obs cat
  if sc < 0 then acc
  else
    let candidates := acc.2 ++ [⟨cat.short, sc, reasons⟩]
    let bestScore := (acc.1.map (·.score)).getD (-1)
    if sc > bestScore then (some ⟨cat, sc, reasons⟩, candidates) else (acc.1, candidates)

structure Classification where
  labID : Bytes
  matchedShort : Option Bytes
  status : Option Bytes
  score : Option Int
  reasons : List Reason
  emitKind : Option Bytes
  engine : Option Engine
  authCapable : Bool
  authChannel : Option Bytes
  requiresDemuxFingerprint : Option Bool
  markers : Markers
  tpSet : List Bytes
  datagramCount : Nat
  scidLen : Option Int
  candidates : List Candidate

/-- the answer for the best entry -/
def report (obs : Observation) (best : Option Best) (candidates : List Candidate) :
    Classification :=
  let auth := (best.map (·.cat.auth)).getD {}
  let emit := (best.bind (·.cat.emit)).getD {}
  { labID := obs.id
    matchedShort := best.map (·.cat.short)
    status := best.map (·.cat.status)
    score := best.map (·.score)
    reasons := (best.map (·.reasons)).getD []
    emitKind := emit.emitKind.get
    engine := emit.engine.get
    authCapable := auth.capable.get.getD false
    authChannel := auth.channel.get
    requiresDemuxFingerprint := auth.requiresDemuxFingerprint.get
    markers := obs.markers
    tpSet := obs.tpSet.sort (· ≤ ·)
    datagramCount := obs.datagramCount
    scidLen := obs.scidLen
    candidates := candidates }

def classify (obs : Observation) (catalog : List Entry) : Classification :=
  let (best, candidates) := catalog.foldl (consider obs) (none, [])
  report obs best candidates

/-! ## entries that fit -/

/-- the source ids agree, as far as both are known -/
def ScidFits (obs cat : Option Int) : Prop := cat = none ∨ obs = none ∨ obs = cat

instance (obs cat : Option Int) : Decidable (ScidFits obs cat) :=
  inferInstanceAs (Decidable (_ ∨ _ ∨ _))

/-- the entry has the observation's parameters, and states no other marker and no other source id -/
def Accepts (cat : Entry) (s : Finset Bytes) (markers : Markers) (scid : Option Int) : Prop :=
  s = cat.tpSet ∧ (∀ m b, cat.markers m = .val b → b = markers m) ∧ ScidFits scid cat.scidLen

theorem markerConflict_none (om : Markers) (cm : Marker → Member Bool) :
    markerConflict om cm = none ↔ ∀ m b, cm m = .val b → b = om m := by
  unfold markerConflict
  rw [List.find?_eq_none]
  constructor
  · intro h m b hb
    have hm := h m m.mem_all
    rw [hb] at hm
    simpa using hm
  · intro h m _
    cases hm : cm m with
    | missing => exact Bool.false_ne_true
    | null => exact Bool.false_ne_true
    | val b =>
      rw [h m b hm]
      simp

theorem scidScore_ok_iff (obs cat : Option Int) :
    (∃ x, scidScore obs cat = .ok x) ↔ ScidFits obs cat := by
  unfold scidScore ScidFits
  cases cat with
  | none => exact iff_of_true ⟨_, rfl⟩ (.inl rfl)
  | some c =>
    cases obs with
    | none => exact iff_of_true ⟨_, rfl⟩ (.inr (.inl rfl))
    | some o =>
      dsimp only
      by_cases h : o = c
      · rw [if_pos h, h]
        exact iff_of_true ⟨_, rfl⟩ (.inr (.inr rfl))
      · rw [if_neg h]
        refine iff_of_false (fun ⟨x, hx⟩ => nomatch hx) ?_
        rintro (h' | h' | h')
        · cases h'
        · cases h'
        · exact h (Option.some.inj h')

theorem scidScore_nonneg {obs cat : Option Int} {x : Int × List Reason}
    (h : scidScore obs cat = .ok x) : 0 ≤ x.1 := by
  unfold scidScore at h
  split at h
  · rw [← Except.ok.inj h]
  · split at h
    · rw [← Except.ok.inj h]
    · split at h
      · rw [← Except.ok.inj h]
        decide
      · cases h

theorem datagramScore_nonneg (count : Nat) (cat : Option Int) : 0 ≤ (datagramScore count cat).1 := by
  unfold datagramScore
  split
  · exact Int.le_refl 0
  · split
    · exact Int.le_refl 0
    · split
      · decide
      · exact Int.le_refl 0

theorem refScore_nonneg (id : Bytes) (cat : Entry) : 0 ≤ (refScore id cat).1 := by
  unfold refScore
  split
  · decide
  · exact Int.le_refl 0

/-- **Only this decides**: the count of datagrams and the lab id never do. -/
theorem score_match_nonneg (obs : Observation) (cat : Entry) :
    0 ≤ (score_match obs cat).1 ↔ Accepts cat obs.tpSet obs.markers obs.scidLen := by
  have hfail : ¬ (0 : Int) ≤ -1 := by decide
  unfold Accepts
  rw [← markerConflict_none, ← scidScore_ok_iff]
  unfold score_match
  cases hm : markerConflict obs.markers cat.markers with
  | some m => exact iff_of_false hfail fun h => nomatch h.2.1
  | none =>
    dsimp only
    by_cases hs : obs.tpSet = cat.tpSet
    · rw [if_pos hs]
      cases hx : scidScore obs.scidLen cat.scidLen with
      | error r => exact iff_of_false hfail fun ⟨_, _, x, hx'⟩ => nomatch hx'
      | ok x =>
        refine iff_of_true ?_ ⟨hs, rfl, x, rfl⟩
        have h1 := scidScore_nonneg hx
        have h2 := datagramScore_nonneg obs.datagramCount cat.datagramCountClass
        have h3 := refScore_nonneg obs.id cat
        dsimp only
        omega
    · rw [if_neg hs]
      exact iff_of_false hfail fun h => hs h.1

/-! ## the loop -/

section
variable (obs : Observation)

/-- the entries that fit, in the order of the catalog -/
def fitting (catalog : List Entry) : List Entry :=
  catalog.filter fun cat => 0 ≤ (score_match obs cat).1

theorem mem_fitting {catalog : List Entry} {cat : Entry} :
    cat ∈ fitting obs catalog ↔
      cat ∈ catalog ∧ Accepts cat obs.tpSet obs.markers obs.scidLen := by
  unfold fitting
  rw [List.mem_filter, decide_eq_true_eq, score_match_nonneg]

theorem foldl_fitting (catalog : List Entry) (acc : Option Best × List Candidate) :
    catalog.foldl (consider obs) acc = (fitting obs catalog).foldl (consider obs) acc := by
  induction catalog generalizing acc with
  | nil => rfl
  | cons cat catalog ih =>
    unfold fitting at ih ⊢
    by_cases h : 0 ≤ (score_match obs cat).1
    · rw [List.filter_cons_of_pos (by simpa using h), List.foldl_cons, List.foldl_cons, ih]
    · rw [List.filter_cons_of_neg (by simpa using h), List.foldl_cons, ih]
      have hskip : consider obs acc cat = acc := by
        unfold consider
        exact if_pos (Int.not_le.mp h)
      rw [hskip]

theorem classify_filter (catalog : List Entry) :
    classify obs catalog = classify obs (fitting obs catalog) := by
  unfold classify
  rw [foldl_fitting]

/-- the first entry that fits is the best one so far -/
theorem consider_first {cat : Entry} (h : 0 ≤ (score_match obs cat).1) :
    consider obs (none, []) cat = (some ⟨cat, (score_match obs cat).1, (score_match obs cat).2⟩,
      [⟨cat.short, (score_match obs cat).1, (score_match obs cat).2⟩]) := by
  unfold consider
  dsimp only [Option.map_none, Option.getD_none, List.nil_append]
  rw [if_neg (Int.not_lt.mpr h), if_pos (by omega)]

/-- a single entry that fits is the best one, whatever its bonuses -/
theorem classify_single {cat : Entry} (h : 0 ≤ (score_match obs cat).1) :
    classify obs [cat] = report obs (some ⟨cat, (score_match obs cat).1, (score_match obs cat).2⟩)
      [⟨cat.short, (score_match obs cat).1, (score_match obs cat).2⟩] := by
  unfold classify
  rw [List.foldl_cons, List.foldl_nil, consider_first obs h]

/-- with distinct parameter sets at most one entry fits -/
theorem fitting_cases {catalog : List Entry} (hnd : (catalog.map (·.tpSet)).Nodup) :
    fitting obs catalog = [] ∨ ∃ cat, fitting obs catalog = [cat] := by
  cases hf : fitting obs catalog with
  | nil => exact .inl rfl
  | cons a rest =>
    right
    cases rest with
    | nil => exact ⟨a, rfl⟩
    | cons b rest =>
      -- two entries that fit have the observation's set both
      have ha : a ∈ fitting obs catalog := by rw [hf]; exact List.mem_cons_self
      have hb : b ∈ fitting obs catalog := by
        rw [hf]
        exact List.mem_cons_of_mem a List.mem_cons_self
      have hsub : ((fitting obs catalog).map (·.tpSet)).Nodup :=
        (List.Sublist.map _ List.filter_sublist).nodup hnd
      rw [hf, List.map_cons, List.map_cons] at hsub
      have hsame : a.tpSet = b.tpSet :=
        ((mem_fitting obs).mp ha).2.1.symm.trans ((mem_fitting obs).mp hb).2.1
      exact absurd (hsame ▸ List.mem_cons_self) (List.nodup_cons.mp hsub).1

end

/-! ## what a classification depends on -/

/-- the part of a classification that names the stack and how to emit it -/
structure SameVerdict (a b : Classification) : Prop where
  matchedShort : a.matchedShort = b.matchedShort
  status : a.status = b.status
  emitKind : a.emitKind = b.emitKind
  engine : a.engine = b.engine
  authCapable : a.authCapable = b.authCapable
  authChannel : a.authChannel = b.authChannel
  requiresDemuxFingerprint : a.requiresDemuxFingerprint = b.requiresDemuxFingerprint

theorem fitting_congr {o₁ o₂ : Observation} {c₁ c₂ : List Entry} (hset : o₁.tpSet = o₂.tpSet)
    (hmarkers : o₁.markers = o₂.markers) (hscid : o₁.scidLen = o₂.scidLen) (hperm : c₂.Perm c₁) :
    (fitting o₂ c₂).Perm (fitting o₁ c₁) := by
  have hsame : fitting o₁ c₂ = fitting o₂ c₂ := by
    unfold fitting
    refine List.filter_congr fun cat _ => ?_
    refine decide_eq_decide.mpr ?_
    rw [score_match_nonneg, score_match_nonneg, hset, hmarkers, hscid]
  rw [← hsame]
  exact hperm.filter _

theorem classify_stable {o₁ o₂ : Observation} {c₁ c₂ : List Entry}
    (hnd : (c₁.map (·.tpSet)).Nodup) (hperm : c₂.Perm c₁) (hset : o₁.tpSet = o₂.tpSet)
    (hmarkers : o₁.markers = o₂.markers) (hscid : o₁.scidLen = o₂.scidLen) :
    SameVerdict (classify o₁ c₁) (classify o₂ c₂) ∧ (classify o₁ c₁).candidates.length ≤ 1 ∧
      (classify o₂ c₂).candidates.length ≤ 1 ∧
      ((classify o₁ c₁).matchedShort = none ↔
        ∀ cat ∈ c₁, ¬ Accepts cat o₁.tpSet o₁.markers o₁.scidLen) := by
  have hfit := fitting_congr hset hmarkers hscid hperm
  rw [classify_filter o₁ c₁, classify_filter o₂ c₂]
  rcases fitting_cases o₁ hnd with h | ⟨cat, h⟩
  · rw [h] at hfit ⊢
    rw [hfit.eq_nil]
    refine ⟨⟨rfl, rfl, rfl, rfl, rfl, rfl, rfl⟩, Nat.zero_le 1, Nat.zero_le 1, ?_⟩
    refine iff_of_true rfl fun cat hm ha => ?_
    have hmem := (mem_fitting o₁).mpr ⟨hm, ha⟩
    rw [h] at hmem
    exact List.not_mem_nil hmem
  · rw [h] at hfit ⊢
    rw [List.perm_singleton.mp hfit]
    have hmem : cat ∈ fitting o₁ c₁ := by
      rw [h]
      exact List.mem_cons_self
    obtain ⟨hm, ha⟩ := (mem_fitting o₁).mp hmem
    have h₁ := (score_match_nonneg o₁ cat).mpr ha
    have h₂ : 0 ≤ (score_match o₂ cat).1 := by
      rw [score_match_nonneg, ← hset, ← hmarkers, ← hscid]
      exact ha
    rw [classify_single o₁ h₁, classify_single o₂ h₂]
    refine ⟨⟨rfl, rfl, rfl, rfl, rfl, rfl, rfl⟩, Nat.le_refl 1, Nat.le_refl 1, ?_⟩
    exact iff_of_false (Option.some_ne_none cat.short) fun hall => hall cat hm ha

/-- the list `tp_id_set` of a directory -/
def rawIDs (d : ProfileDir) : List TPElem :=
  match d.profile with
  | some prof => (prof.expected.get.getD {}).tpIDSet.get.getD []
  | none => []

theorem load_observation_tp {u : Unicode} {name : Bytes} {d : ProfileDir} {obs : Observation}
    (h : load_observation u name d = some obs) : obs.tp = norm_tp u (rawIDs d) ∧
      obs.tpSet = obs.tp.toFinset ∧ obs.markers = markers_from_tp obs.tpSet := by
  unfold load_observation at h
  unfold rawIDs
  cases hp : d.profile with
  | none =>
    rw [hp] at h
    cases h
  | some prof =>
    rw [hp] at h
    rw [← Option.some.inj h]
    exact ⟨rfl, rfl, rfl⟩

theorem load_observation_tpSet {u : Unicode} {name : Bytes} {d : ProfileDir} {obs : Observation}
    (h : load_observation u name d = some obs) :
    obs.tpSet = tp_set u (rawIDs d) ∧ obs.markers = markers_from_tp obs.tpSet := by
  obtain ⟨htp, hset, hmarkers⟩ := load_observation_tp h
  refine ⟨?_, hmarkers⟩
  rw [hset, htp]
  rfl

/-- **The classification depends on the stable identity only**: on the set that the parameters
normalise to, and on the inferred length of the source id. -/
theorem classification_stable (u : Unicode) {files : List (Bytes × CuratedDoc)}
    {catalog catalog' : List Entry} (hload : load_catalog_for_match u files = .ok catalog)
    (hnd : (catalog.map (·.tpSet)).Nodup) (hperm : catalog'.Perm catalog)
    {name₁ name₂ : Bytes} {d₁ d₂ : ProfileDir} {o₁ o₂ : Observation}
    (h₁ : load_observation u name₁ d₁ = some o₁) (h₂ : load_observation u name₂ d₂ = some o₂)
    (hset : tp_set u (rawIDs d₁) = tp_set u (rawIDs d₂)) (hscid : o₁.scidLen = o₂.scidLen) :
    SameVerdict (classify o₁ catalog) (classify o₂ catalog') ∧
      (classify o₁ catalog).candidates.length ≤ 1 ∧
      (classify o₂ catalog').candidates.length ≤ 1 ∧
      ((classify o₁ catalog).matchedShort = none ↔
        ∀ cat ∈ catalog, ¬ Accepts cat o₁.tpSet o₁.markers o₁.scidLen) := by
  obtain ⟨hs₁, hm₁⟩ := load_observation_tpSet h₁
  obtain ⟨hs₂, hm₂⟩ := load_observation_tpSet h₂
  have hsame : o₁.tpSet = o₂.tpSet := by rw [hs₁, hs₂, hset]
  refine classify_stable hnd hperm hsame ?_ hscid
  rw [hm₁, hm₂, hsame]

/-! ## two observations of one stack -/

def curated (short : Bytes) (ids : List TPElem) (emit : String) : CuratedDoc where
  format := .val PROFILE_FORMAT
  short := short
  status := str "emit_ready"
  identity := { tpIDSet := .val ids, scidLen := .val 0 }
  emit := .val { emitKind := .val (str emit) }

def twoStacks : List (Bytes × CuratedDoc) :=
  [(str "chrome.json",
      curated (str "chrome") [.str (str "0x11"), .str (str "GREASE"), .str (str "0x3128")]
        "sagernet_chrome_parrot"),
    (str "quic-go.json", curated (str "quic-go") [.str (str "0x1")] "sagernet_plain")]

theorem twoStacks_load :
    load_catalog_for_match .ascii twoStacks = .ok (twoStacks.map (loadEntry .ascii)) := by
  have hsorted : iter_curated_profiles twoStacks = .ok twoStacks := by
    have hsort : (twoStacks.insertionSort fun a b => a.1 ≤ b.1) = twoStacks := by
      refine List.Pairwise.insertionSort_eq ?_
      decide +kernel
    unfold iter_curated_profiles
    dsimp only
    rw [hsort]
    rfl
  unfold load_catalog_for_match
  rw [hsorted]
  rfl

def observed (ids : List TPElem) : ProfileDir where
  header := some { destConnIDLen := .val 8 }
  profile := some { expected := .val { tpIDSet := .val ids, scidLen := .null, dcidLen := .null } }

/-- the parameters in two orders and spellings -/
def firstIDs : List TPElem := [.str (str "0x11"), .str (str "grease"), .int 0x3128]
def secondIDs : List TPElem := [.int 27, .str (str " 0X3128"), .str (str "17"), .str (str "0x11")]

theorem two_observations_stable : ∃ o₁ o₂,
    load_observation .ascii (str "a") (observed firstIDs) = some o₁ ∧
    load_observation .ascii (str "b") (observed secondIDs) = some o₂ ∧
    SameVerdict (classify o₁ (twoStacks.map (loadEntry .ascii)))
      (classify o₂ (twoStacks.map (loadEntry .ascii)).reverse) := by
  have h₁ : ∃ o, load_observation .ascii (str "a") (observed firstIDs) = some o ∧
      o.scidLen = some 0 := ⟨_, rfl, by decide +kernel⟩
  have h₂ : ∃ o, load_observation .ascii (str "b") (observed secondIDs) = some o ∧
      o.scidLen = some 0 := ⟨_, rfl, by decide +kernel⟩
  obtain ⟨o₁, h₁, hscid₁⟩ := h₁
  obtain ⟨o₂, h₂, hscid₂⟩ := h₂
  have hset : tp_set .ascii (rawIDs (observed firstIDs)) =
      tp_set .ascii (rawIDs (observed secondIDs)) := by decide +kernel
  have hnd : ((twoStacks.map (loadEntry .ascii)).map (·.tpSet)).Nodup := by decide +kernel
  refine ⟨o₁, o₂, h₁, h₂, ?_⟩
  exact (classification_stable .ascii twoStacks_load hnd (List.reverse_perm _) h₁ h₂ hset
    (hscid₁.trans hscid₂.symm)).1

end Quic
