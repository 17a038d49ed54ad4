import FingerprintLab.Quic.Match

/-!
# The identity that a catalog entry declares

A `quic-utls-profile-v1` document may say how its parameters are to be compared: `ordered` as a
sequence, `set` (or nothing) as a set.

* `MatchMode`, `CatalogDoc`   a document with its `tp_id_set_match`, which the loader does not read;
* `SchemaValid`       the documents that the schema allows;
* `Declares`          the document's identity fits an observation;
* `accepts_loaded_iff`   what the matcher compares instead;
* `declared_iff`      `score_match` decides `Declares` as long as the order does not matter.
-/

set_option linter.unusedVariables false

namespace Quic
open Go Py

inductive MatchMode where
  | ordered
  | set
  deriving DecidableEq, Repr

structure CatalogDoc extends CuratedDoc where
  tpIDSetMatch : Member MatchMode := .missing

/-- the entry of a document that stands in the file `path` -/
def CatalogDoc.entry (u : Unicode) (path : Bytes) (d : CatalogDoc) : Entry :=
  loadEntry u (path, d.toCuratedDoc)

def emitKinds : List Bytes :=
  [str "sagernet_chrome_parrot", str "sagernet_plain", str "uquic_preset", str "structured",
    str "match_only"]

def statuses : List Bytes := [str "emit_ready", str "experimental", str "observation_only"]

/-- what the schema asks of the members that are read -/
structure SchemaValid (d : CatalogDoc) : Prop where
  format : d.format = .val PROFILE_FORMAT
  short : d.short ≠ []
  status : d.status ∈ statuses
  tpIDSet : ∃ ids : List Bytes, d.identity.tpIDSet = .val (ids.map .str)
  markers : d.identity.markers = .missing ∨
    ∃ ms : Marker → Member Bool, d.identity.markers = .val ms ∧ ∀ m, ms m ≠ .null
  scidLen : ∀ n, d.identity.scidLen = .val n → 0 ≤ n
  datagramCountClass : ∀ n, d.identity.datagramCountClass = .val n → n = 1 ∨ n = 2
  emit : ∃ e kind, d.emit = .val e ∧ e.emitKind = .val kind ∧ kind ∈ emitKinds ∧
    (kind = str "uquic_preset" → e.uquicPreset.has = true) ∧
    (d.status = str "emit_ready" → kind ≠ str "match_only") ∧
    e.uquicPreset ≠ .null ∧ e.notes ≠ .null ∧ (e.engine = .missing ∨ ∃ en, e.engine = .val en ∧
      en.chromeParrot ≠ .null ∧ en.enableDatagrams ≠ .null ∧ en.zeroLengthSCID ≠ .null)
  auth : ∃ a capable demux, d.auth = .val a ∧ a.capable = .val capable ∧
    a.requiresDemuxFingerprint = .val demux ∧
    (capable = true → a.channel = .val (str "tp_grease_value") ∧ demux = false)
  observationRefs : d.observationRefs ≠ .null

/-! ## the declared relation -/

/-- the normalised parameters of the document, in its order -/
def CatalogDoc.tokens (u : Unicode) (d : CatalogDoc) : List Bytes :=
  norm_tp u (d.identity.tpIDSet.get.getD [])

/-- a marker that the document states -/
def CatalogDoc.states (d : CatalogDoc) (m : Marker) (b : Bool) : Prop :=
  ∃ ms, d.identity.markers = .val ms ∧ ms m = .val b

/-- the parameters agree in the declared way, every stated marker is the observation's, and the
observation's source id length is unknown or the pinned one -/
structure Declares (u : Unicode) (d : CatalogDoc) (obs : Observation) : Prop where
  params : if d.tpIDSetMatch = .val .ordered then obs.tp = d.tokens u
    else obs.tp.toFinset = (d.tokens u).toFinset
  markers : ∀ m b, d.states m b → b = obs.markers m
  scid : ScidFits obs.scidLen d.identity.scidLen.get

/-- The order makes no difference: it is not declared, or it is the same, or the observation does not
fit for another reason. -/
def OrderAgrees (u : Unicode) (d : CatalogDoc) (obs : Observation) : Prop :=
  d.tpIDSetMatch = .val .ordered → obs.tp = d.tokens u ∨
    obs.tp.toFinset ≠ (d.tokens u).toFinset ∨ (∃ m b, d.states m b ∧ b ≠ obs.markers m) ∨
    ¬ ScidFits obs.scidLen d.identity.scidLen.get

/-! ## what the matcher compares -/

/-- the markers of the entry: those that the document states, or those of its own parameters -/
theorem entryMarkers_cases (stated : Member (Marker → Member Bool)) (s : Finset Bytes) :
    (∃ ms, stated = .val ms ∧ entryMarkers stated s = ms) ∨
    ((∀ ms, stated = .val ms → ∀ m, ms m = .missing) ∧
      entryMarkers stated s = fun m => .val (markers_from_tp s m)) := by
  unfold entryMarkers
  cases stated with
  | missing => exact Or.inr ⟨nofun, rfl⟩
  | null => exact Or.inr ⟨nofun, rfl⟩
  | val ms =>
    by_cases hany : (Marker.all.any fun m => (ms m).has) = true
    · exact Or.inl ⟨ms, rfl, if_pos hany⟩
    · refine Or.inr ⟨fun ms' h m => ?_, if_neg hany⟩
      rw [← Member.val.inj h]
      have hm : (ms m).has = false := by
        by_contra hm
        exact hany (List.any_eq_true.mpr ⟨m, m.mem_all, by simpa using hm⟩)
      cases hk : ms m with
      | missing => rfl
      | null => rw [hk] at hm; cases hm
      | val b => rw [hk] at hm; cases hm

/-- **The matcher's relation**: like `Declares`, but always on sets. -/
theorem accepts_loaded_iff (u : Unicode) (path : Bytes) (d : CatalogDoc) (obs : Observation)
    (htp : obs.tpSet = obs.tp.toFinset) (hmarkers : obs.markers = markers_from_tp obs.tpSet) :
    Accepts (d.entry u path) obs.tpSet obs.markers obs.scidLen ↔
      obs.tp.toFinset = (d.tokens u).toFinset ∧ (∀ m b, d.states m b → b = obs.markers m) ∧
        ScidFits obs.scidLen d.identity.scidLen.get := by
  show obs.tpSet = (d.tokens u).toFinset ∧
    (∀ m b, entryMarkers d.identity.markers (d.tokens u).toFinset m = .val b → b = obs.markers m) ∧
    ScidFits obs.scidLen d.identity.scidLen.get ↔ _
  rw [htp]
  refine and_congr_right fun hset => and_congr_left fun _ => ?_
  obtain ⟨ms, hms, he⟩ | ⟨hnone, he⟩ := entryMarkers_cases d.identity.markers (d.tokens u).toFinset
  · rw [he]
    refine ⟨fun h m b hb => ?_, fun h m b hb => h m b ⟨ms, hms, hb⟩⟩
    obtain ⟨ms', hms', hb⟩ := hb
    rw [hms] at hms'
    rw [← Member.val.inj hms'] at hb
    exact h m b hb
  · -- no marker is stated; those of the document's own set are the observation's
    rw [he]
    refine ⟨fun _ m b hb => ?_, fun _ m b hb => ?_⟩
    · obtain ⟨ms, hms, hb⟩ := hb
      rw [hnone ms hms m] at hb
      cases hb
    · rw [← Member.val.inj hb, hmarkers, htp, hset]

/-- the score says whether the declared identity fits, whatever the count of datagrams and the id -/
structure Decides (u : Unicode) (path : Bytes) (d : CatalogDoc) (obs : Observation) : Prop where
  declared : 0 ≤ (score_match obs (d.entry u path)).1 ↔ Declares u d obs
  bonuses : ∀ count id, 0 ≤ (score_match { obs with datagramCount := count, id := id }
    (d.entry u path)).1 ↔ 0 ≤ (score_match obs (d.entry u path)).1

theorem score_match_bonuses (obs : Observation) (cat : Entry) (count : Nat) (id : Bytes) :
    0 ≤ (score_match { obs with datagramCount := count, id := id } cat).1 ↔
      0 ≤ (score_match obs cat).1 := by
  rw [score_match_nonneg, score_match_nonneg]

theorem declares_iff (u : Unicode) (d : CatalogDoc) (obs : Observation)
    (hord : d.tpIDSetMatch = .val .ordered) : Declares u d obs ↔ obs.tp = d.tokens u ∧
      (∀ m b, d.states m b → b = obs.markers m) ∧ ScidFits obs.scidLen d.identity.scidLen.get := by
  refine ⟨fun h => ?_, fun h => ⟨?_, h.2.1, h.2.2⟩⟩
  · have hp := h.params
    rw [if_pos hord] at hp
    exact ⟨hp, h.markers, h.scid⟩
  · rw [if_pos hord]
    exact h.1

/-- **`score_match` decides the declared identity** exactly where the order makes no difference. -/
theorem declared_iff (u : Unicode) (path : Bytes) (d : CatalogDoc) {name : Bytes} {p : ProfileDir}
    {obs : Observation} (h : load_observation u name p = some obs) :
    Decides u path d obs ↔ OrderAgrees u d obs := by
  obtain ⟨-, htp, hmarkers⟩ := load_observation_tp h
  have hscore := (score_match_nonneg obs (d.entry u path)).trans
    (accepts_loaded_iff u path d obs htp hmarkers)
  unfold OrderAgrees
  by_cases hord : d.tpIDSetMatch = .val .ordered
  · have hdec := declares_iff u d obs hord
    refine ⟨fun hall _ => ?_, fun hagree => ⟨?_, score_match_bonuses obs _⟩⟩
    · by_contra hnot
      rw [not_or, not_or, not_or, not_not, not_not] at hnot
      obtain ⟨hseq, hset, hmark, hscid⟩ := hnot
      have hstated : ∀ m b, d.states m b → b = obs.markers m := fun m b hb => by
        by_contra hne
        exact hmark ⟨m, b, hb, hne⟩
      exact hseq (hdec.mp (hall.declared.mp (hscore.mpr ⟨hset, hstated, hscid⟩))).1
    · rw [hscore, hdec]
      refine ⟨fun hacc => ⟨?_, hacc.2⟩, fun hd => ⟨congrArg List.toFinset hd.1, hd.2⟩⟩
      obtain hseq | hne | ⟨m, b, hb, hne⟩ | hne := hagree hord
      · exact hseq
      · exact absurd hacc.1 hne
      · exact absurd (hacc.2.1 m b hb) hne
      · exact absurd hacc.2.2 hne
  · refine iff_of_true ⟨?_, score_match_bonuses obs _⟩ fun h => absurd h hord
    rw [hscore]
    refine ⟨fun hacc => ⟨?_, hacc.2.1, hacc.2.2⟩, fun hd => ⟨?_, hd.markers, hd.scid⟩⟩
    · rw [if_neg hord]
      exact hacc.1
    · have hp := hd.params
      rw [if_neg hord] at hp
      exact hp

/-! ## an ordered entry -/

theorem load_observed (u : Unicode) (name : Bytes) (ids : List TPElem) :
    ∃ obs, load_observation u name (observed ids) = some obs ∧ obs.tp = norm_tp u ids :=
  ⟨_, rfl, rfl⟩

/-- an entry that asks for the ids `0x1` and `0x2` in this order -/
def orderedDoc : CatalogDoc where
  format := .val PROFILE_FORMAT
  short := str "ordered"
  status := str "observation_only"
  identity := { tpIDSet := .val [.str (str "0x1"), .str (str "0x2")] }
  emit := .val { emitKind := .val (str "match_only") }
  auth := .val { capable := .val false, requiresDemuxFingerprint := .val false }
  tpIDSetMatch := .val .ordered

theorem orderedDoc_valid : SchemaValid orderedDoc where
  format := rfl
  short := by decide
  status := by decide
  tpIDSet := ⟨[str "0x1", str "0x2"], rfl⟩
  markers := Or.inl rfl
  scidLen n h := nomatch h
  datagramCountClass n h := nomatch h
  emit := ⟨_, _, rfl, rfl, by decide, by decide, by decide, Member.missing_ne_null,
    Member.missing_ne_null, Or.inl rfl⟩
  auth := ⟨_, _, _, rfl, rfl, rfl, fun h => absurd h Bool.false_ne_true⟩
  observationRefs := Member.missing_ne_null

theorem orderedDoc_tokens : orderedDoc.tokens .ascii = [str "0x1", str "0x2"] := by decide +kernel

/-- the condition is met by the entry's own order -/
theorem declared_iff_ordered : ∃ obs,
    load_observation .ascii (str "a") (observed [.int 1, .int 2]) = some obs ∧
    Decides .ascii (str "ordered.json") orderedDoc obs := by
  obtain ⟨obs, hobs, htp⟩ := load_observed .ascii (str "a") [.int 1, .int 2]
  refine ⟨obs, hobs, (declared_iff .ascii (str "ordered.json") orderedDoc hobs).mpr fun _ => ?_⟩
  rw [htp, orderedDoc_tokens]
  exact Or.inl (by decide +kernel)

/-- The ids in the other order fit nevertheless. -/
theorem ordered_ignored : ∃ obs,
    load_observation .ascii (str "a") (observed [.int 2, .int 1]) = some obs ∧
    SchemaValid orderedDoc ∧ 0 ≤ (score_match obs (orderedDoc.entry .ascii (str "ordered.json"))).1 ∧
    ¬ Declares .ascii orderedDoc obs := by
  obtain ⟨obs, hobs, htp⟩ := load_observed .ascii (str "a") [.int 2, .int 1]
  obtain ⟨-, hset, hmarkers⟩ := load_observation_tp hobs
  refine ⟨obs, hobs, orderedDoc_valid, ?_, fun h => ?_⟩
  · rw [score_match_nonneg, accepts_loaded_iff _ _ _ _ hset hmarkers, htp, orderedDoc_tokens]
    exact ⟨by decide +kernel, fun m b ⟨ms, hms, _⟩ => (nomatch hms), Or.inl rfl⟩
  · have hp := ((declares_iff .ascii orderedDoc obs rfl).mp h).1
    rw [htp, orderedDoc_tokens] at hp
    exact absurd hp (by decide +kernel)

end Quic
