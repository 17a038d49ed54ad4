import FingerprintLab.Quic.Declared

/-!
# Emit templates

`export_dist.py` writes a template for every curated document: how to emit the stack, and which
parameters are expected on the wire.

* `Template`, `write_emit_templates`   the file, one entry a short name;
* `templates_order`, `templates_perm`  the entries stand as the documents come, and are the same in any
                               order of them;
* `Satisfies`, `AcceptsOwn`    a set of parameters fits a template; the template fits its document and
                               every observation that the document fits;
* `Consistent`                 the stated markers are those of the parameters;
* `templates_accept_iff`       every template accepts its own document exactly if no document leaves
                               out a marker that it has.
-/

set_option linter.unusedVariables false

namespace Quic
open Go Py Writes

/-! ## the file -/

/-- `emit`; a missing kind is written as `null`, and the preset only if it is not empty -/
structure TemplateEmit where
  emitKind : Option Bytes
  uquicPreset : Member Bytes := .missing
  deriving DecidableEq, Repr

/-- `expected`, with the members that it has -/
structure TemplateExpected where
  mustContain : Member (List Bytes) := .missing
  mustNotContain : Member (List Bytes) := .missing
  scidLen : Member Int := .missing
  datagramsTypical : Member Int := .missing
  deriving DecidableEq, Repr

structure Template where
  short : Bytes
  emit : TemplateEmit
  labIDs : List Bytes
  utlsProfile : Bytes
  status : Bytes
  dial : Bool
  expected : Member TemplateExpected
  deriving DecidableEq, Repr

def is_dialable (d : CuratedDoc) : Bool :=
  let emit := d.emit.get.getD {}
  let kind := emit.emitKind.get
  d.status = str "emit_ready" && !(kind = none) && !(kind = some (str "match_only"))

/-- a member that is written if there is a value -/
def memberOf {α : Type} (x : Option α) : Member α :=
  match x with
  | some a => .val a
  | none => .missing

/-- a member that is written if the list is not empty -/
def listMember (ids : List Bytes) : Member (List Bytes) := if ids = [] then .missing else .val ids

/-- `markers.get(..)` as a condition -/
def Identity.truthy (ident : Identity) (m : Marker) : Bool :=
  ((ident.markers.get.getD fun _ => .missing) m).get = some true

/-- the markers that a template may ask for, and those that it may forbid -/
def askedMarkers : List Marker := [.x11, .x3128, .x20]
def forbiddenMarkers : List Marker := [.x11, .x3128]

def templateExpected (ident : Identity) : TemplateExpected where
  mustContain := listMember ((askedMarkers.filter fun m => ident.truthy m).map Marker.id)
  mustNotContain := listMember ((forbiddenMarkers.filter fun m => !ident.truthy m).map Marker.id)
  scidLen := memberOf ident.scidLen.get
  datagramsTypical := memberOf ident.datagramCountClass.get

/-- the entry of a document -/
def template (d : CuratedDoc) : Template :=
  let emit := d.emit.get.getD {}
  let expected := templateExpected d.identity
  { short := d.short
    emit :=
      { emitKind := emit.emitKind.get
        uquicPreset :=
          match emit.uquicPreset.get with
          | some preset => if preset = [] then .missing else .val preset
          | none => .missing }
    labIDs := d.observationRefs.get.getD []
    utlsProfile := str "utls/" ++ d.short ++ str ".json"
    status := d.status
    dial := is_dialable d
    expected := if expected = {} then .missing else .val expected }

inductive TemplateValue where
  | comment (text : Bytes)
  | entry (t : Template)
  deriving DecidableEq, Repr

def templateComment : Bytes :=
  str "GENERATED by export_dist.py from catalog/utls/*.json. "
    ++ str "Do not edit by hand. See docs/UTLS_PROFILE.md."

/-- the object with its members in the order in which they are written -/
def write_emit_templates (docs : List CuratedDoc) : List (Bytes × TemplateValue) :=
  assignAll [(str "_comment", .comment templateComment)]
    (docs.map fun d => (d.short, .entry (template d)))

/-- the members as a reader of the file finds them -/
def templateMap (docs : List CuratedDoc) : Finmap fun _ : Bytes => TemplateValue :=
  writeAll ((∅ : Finmap fun _ : Bytes => TemplateValue).insert (str "_comment")
    (.comment templateComment)) (docs.map fun d => (d.short, .entry (template d)))

theorem lookup_templates (docs : List CuratedDoc) (k : Bytes) :
    (write_emit_templates docs).lookup k = (templateMap docs).lookup k := by
  refine lookup_assignAll (fun k => ?_) _ k
  rw [lookup_cons_ite]
  by_cases hk : k = str "_comment"
  · rw [if_pos hk, hk, Finmap.lookup_insert]
  · rw [if_neg hk, Finmap.lookup_insert_of_ne _ hk]
    rfl

/-- The members follow the documents: another order of them gives another file, -/
theorem templates_order {docs : List CuratedDoc} (hnd : (docs.map fun d => d.short).Nodup)
    (hcomment : str "_comment" ∉ docs.map fun d => d.short) :
    write_emit_templates docs = (str "_comment", .comment templateComment) ::
      docs.map fun d => (d.short, .entry (template d)) := by
  refine assignAll_of_nodup ?_
  rw [List.singleton_append, List.map_cons, List.map_map]
  exact List.nodup_cons.mpr ⟨hcomment, hnd⟩

/-- but with the same members. -/
theorem templates_perm {docs docs' : List CuratedDoc} (hnd : (docs.map fun d => d.short).Nodup)
    (hp : docs'.Perm docs) (k : Bytes) :
    (write_emit_templates docs').lookup k = (write_emit_templates docs).lookup k := by
  rw [lookup_templates, lookup_templates]
  unfold templateMap
  rw [writeAll_congr _ _ _ ?_ fun w => (hp.map _).mem_iff]
  intro k v v' hv hv'
  obtain ⟨d, hd, hdk⟩ := List.mem_map.mp hv
  obtain ⟨e, he, hek⟩ := List.mem_map.mp hv'
  obtain ⟨rfl, rfl⟩ := Prod.mk.inj hdk
  obtain ⟨hshort, rfl⟩ := Prod.mk.inj hek
  rw [List.inj_on_of_nodup_map hnd (hp.mem_iff.mp he) (hp.mem_iff.mp hd) hshort]

/-! ## what a template asks for -/

/-- a set of parameters has what the template asks for and nothing that it forbids -/
def Satisfies (t : Template) (s : Finset Bytes) : Prop :=
  (∀ id ∈ (t.expected.get.getD {}).mustContain.get.getD [], id ∈ s) ∧
    ∀ id ∈ (t.expected.get.getD {}).mustNotContain.get.getD [], id ∉ s

/-- the template fits its document, and every observation that the document's entry fits -/
structure AcceptsOwn (u : Unicode) (d : CatalogDoc) (t : Template) : Prop where
  document : Satisfies t (d.tokens u).toFinset
  observed : ∀ path name p obs, load_observation u name p = some obs →
    0 ≤ (score_match obs (d.entry u path)).1 → Satisfies t obs.tpSet

/-- every stated marker says whether the parameter is there -/
def Consistent (u : Unicode) (d : CatalogDoc) : Prop :=
  ∀ m b, d.states m b → b = decide (m.id ∈ d.tokens u)

theorem get_listMember (ids : List Bytes) : (listMember ids).get.getD [] = ids := by
  unfold listMember
  by_cases h : ids = []
  · rw [if_pos h, h]
    rfl
  · rw [if_neg h]
    rfl

theorem template_expected (d : CuratedDoc) :
    (template d).expected.get.getD {} = templateExpected d.identity := by
  show (if templateExpected d.identity = {} then Member.missing
    else Member.val (templateExpected d.identity)).get.getD {} = _
  by_cases h : templateExpected d.identity = {}
  · rw [if_pos h, h]
    rfl
  · rw [if_neg h]
    rfl

theorem truthy_iff (d : CatalogDoc) (m : Marker) :
    d.identity.truthy m = true ↔ d.states m true := by
  unfold Identity.truthy CatalogDoc.states
  rw [decide_eq_true_eq]
  cases hms : d.identity.markers with
  | missing => exact iff_of_false nofun fun ⟨ms, h, _⟩ => nomatch h
  | null => exact iff_of_false nofun fun ⟨ms, h, _⟩ => nomatch h
  | val ms =>
    show (ms m).get = some true ↔ _
    constructor
    · intro h
      refine ⟨ms, rfl, ?_⟩
      cases hm : ms m with
      | missing => rw [hm] at h; cases h
      | null => rw [hm] at h; cases h
      | val b =>
        rw [hm] at h
        rw [Option.some.inj h]
    · rintro ⟨ms', he, hm⟩
      rw [Member.val.inj he, hm]
      rfl

/-- what the template of a document says about a set -/
theorem satisfies_iff (d : CatalogDoc) (s : Finset Bytes) :
    Satisfies (template d.toCuratedDoc) s ↔
      (∀ m ∈ askedMarkers, d.states m true → m.id ∈ s) ∧
        ∀ m ∈ forbiddenMarkers, m.id ∈ s → d.states m true := by
  unfold Satisfies
  rw [template_expected]
  show (∀ id ∈ (listMember _).get.getD [], id ∈ s) ∧ (∀ id ∈ (listMember _).get.getD [], id ∉ s) ↔ _
  rw [get_listMember, get_listMember, List.forall_mem_map, List.forall_mem_map]
  refine and_congr ⟨fun h m hm hs => ?_, fun h m hm => ?_⟩ ⟨fun h m hm hs => ?_, fun h m hm hs => ?_⟩
  · exact h m (List.mem_filter.mpr ⟨hm, (truthy_iff d m).mpr hs⟩)
  · obtain ⟨hasked, ht⟩ := List.mem_filter.mp hm
    exact h m hasked ((truthy_iff d m).mp ht)
  · by_contra hnot
    have hf : d.identity.truthy m = false := by
      rw [← Bool.not_eq_true, truthy_iff]
      exact hnot
    refine h m (List.mem_filter.mpr ⟨hm, ?_⟩) hs
    rw [hf]
    rfl
  · obtain ⟨hforb, hf⟩ := List.mem_filter.mp hm
    rw [(truthy_iff d m).mpr (h m hforb hs)] at hf
    cases hf

/-- a consistent document fits its template exactly if it states the markers that it has -/
theorem satisfies_own {u : Unicode} {d : CatalogDoc} (hc : Consistent u d) :
    Satisfies (template d.toCuratedDoc) (d.tokens u).toFinset ↔
      ∀ m ∈ forbiddenMarkers, m.id ∈ d.tokens u → d.states m true := by
  rw [satisfies_iff]
  simp only [List.mem_toFinset]
  refine and_iff_right fun m _ hs => ?_
  exact of_decide_eq_true (hc m true hs).symm

/-- an observation that the document's entry fits has the document's parameters -/
theorem accepted_tpSet {u : Unicode} {d : CatalogDoc} {path name : Bytes} {p : ProfileDir}
    {obs : Observation} (hobs : load_observation u name p = some obs)
    (hscore : 0 ≤ (score_match obs (d.entry u path)).1) : obs.tpSet = (d.tokens u).toFinset := by
  obtain ⟨-, htp, hmarkers⟩ := load_observation_tp hobs
  rw [score_match_nonneg, accepts_loaded_iff u path d obs htp hmarkers] at hscore
  rw [htp, hscore.1]

theorem acceptsOwn_iff {u : Unicode} {d : CatalogDoc} (hc : Consistent u d) :
    AcceptsOwn u d (template d.toCuratedDoc) ↔
      ∀ m ∈ forbiddenMarkers, m.id ∈ d.tokens u → d.states m true := by
  rw [← satisfies_own hc]
  refine ⟨fun h => h.document, fun h => ⟨h, fun path name p obs hobs hscore => ?_⟩⟩
  rw [accepted_tpSet hobs hscore]
  exact h

/-! ## the generated entries -/

/-- the document that the entry of its short name comes from: the last one with the name -/
abbrev Written (docs : List CatalogDoc) (d : CatalogDoc) : Prop :=
  Last (fun d : CatalogDoc => d.short) docs d

theorem templates_lookup {docs : List CatalogDoc} {d : CatalogDoc} (h : Written docs d) :
    (write_emit_templates (docs.map (·.toCuratedDoc))).lookup d.short
      = some (.entry (template d.toCuratedDoc)) := by
  rw [lookup_templates]
  unfold templateMap
  rw [List.map_map]
  exact lookup_last _ (fun d : CatalogDoc => TemplateValue.entry (template d.toCuratedDoc)) _ h

/-- every entry comes from a document -/
theorem templates_source {docs : List CatalogDoc} {k : Bytes} {t : Template}
    (h : (write_emit_templates (docs.map (·.toCuratedDoc))).lookup k = some (.entry t)) :
    ∃ d, Written docs d ∧ d.short = k ∧ t = template d.toCuratedDoc := by
  rw [lookup_templates] at h
  unfold templateMap at h
  rw [List.map_map] at h
  obtain ⟨d, hd, hk, hv⟩ | hbase := lookup_last_cases (fun d : CatalogDoc => d.short)
    (fun d : CatalogDoc => TemplateValue.entry (template d.toCuratedDoc)) _ docs h
  · exact ⟨d, hd, hk, (TemplateValue.entry.inj hv).symm⟩
  · by_cases hk : k = str "_comment"
    · rw [hk, Finmap.lookup_insert] at hbase
      cases hbase
    · rw [Finmap.lookup_insert_of_ne _ hk] at hbase
      cases hbase

/-- Every entry comes from a document and accepts it. -/
def TemplatesAccept (u : Unicode) (docs : List CatalogDoc) : Prop :=
  ∀ k t, (write_emit_templates (docs.map (·.toCuratedDoc))).lookup k = some (.entry t) →
    ∃ d, Written docs d ∧ d.short = k ∧ t = template d.toCuratedDoc ∧ AcceptsOwn u d t

/-- **Templates accept their own documents** exactly if no document that an entry comes from has the
parameter `0x11` or `0x3128` without stating its marker. -/
theorem templates_accept_iff (u : Unicode) (docs : List CatalogDoc)
    (hc : ∀ d ∈ docs, Consistent u d) : TemplatesAccept u docs ↔
      ∀ d, Written docs d → ∀ m ∈ forbiddenMarkers, m.id ∈ d.tokens u → d.states m true := by
  constructor
  · intro h d hd
    obtain ⟨d', hd', hk, -, hacc⟩ := h _ _ (templates_lookup hd)
    obtain rfl : d' = d := hd'.unique _ hd hk
    exact (acceptsOwn_iff (hc d' (hd.mem _))).mp hacc
  · intro h k t ht
    obtain ⟨d, hd, hk, rfl⟩ := templates_source ht
    exact ⟨d, hd, hk, rfl, (acceptsOwn_iff (hc d (hd.mem _))).mpr (h d hd)⟩

/-! ## a document without markers -/

/-- a document with the parameter `0x11` -/
def markerDoc (markers : Member (Marker → Member Bool)) : CatalogDoc where
  format := .val PROFILE_FORMAT
  short := str "chrome"
  status := str "observation_only"
  identity := { tpIDSet := .val [.str (str "0x11")], markers := markers }
  emit := .val { emitKind := .val (str "match_only") }
  auth := .val { capable := .val false, requiresDemuxFingerprint := .val false }

theorem markerDoc_tokens (markers : Member (Marker → Member Bool)) :
    (markerDoc markers).tokens .ascii = [str "0x11"] := by
  show norm_tp .ascii [.str (str "0x11")] = _
  decide +kernel

theorem markerDoc_valid {markers : Member (Marker → Member Bool)} (h : markers = .missing ∨
    ∃ ms : Marker → Member Bool, markers = .val ms ∧ ∀ m, ms m ≠ .null) :
    SchemaValid (markerDoc markers) where
  format := rfl
  short := by
    show str "chrome" ≠ []
    decide
  status := by
    show str "observation_only" ∈ statuses
    decide
  tpIDSet := ⟨[str "0x11"], rfl⟩
  markers := h
  scidLen n h := nomatch h
  datagramCountClass n h := nomatch h
  emit := by
    have hready : ¬ str "observation_only" = str "emit_ready" := by decide
    exact ⟨_, _, rfl, rfl, by decide, by decide, fun h => absurd h hready, Member.missing_ne_null,
      Member.missing_ne_null, Or.inl rfl⟩
  auth := ⟨_, _, _, rfl, rfl, rfl, fun h => absurd h Bool.false_ne_true⟩
  observationRefs := Member.missing_ne_null

theorem markerDoc_missing_consistent : Consistent .ascii (markerDoc .missing) := by
  rintro m b ⟨ms, hms, -⟩
  cases hms

/-- the marker of `0x11` alone -/
def onlyX11 : Marker → Member Bool
  | .x11 => .val true
  | _ => .missing

theorem onlyX11_consistent : Consistent .ascii (markerDoc (.val onlyX11)) := by
  rintro m b ⟨ms, hms, hb⟩
  rw [← Member.val.inj hms] at hb
  rw [markerDoc_tokens]
  cases m with
  | x11 =>
    rw [← Member.val.inj hb]
    decide +kernel
  | _ => cases hb

/-- the condition is met by the marker of the one parameter -/
theorem templates_accept_x11 : SchemaValid (markerDoc (.val onlyX11)) ∧
    TemplatesAccept .ascii [markerDoc (.val onlyX11)] := by
  refine ⟨markerDoc_valid (Or.inr ⟨onlyX11, rfl, fun m => ?_⟩), ?_⟩
  · cases m with
    | x11 => exact Member.val_ne_null true
    | _ => exact Member.missing_ne_null
  refine (templates_accept_iff .ascii _ ?_).mpr fun d hd m hm hid => ?_
  · exact fun d hd => List.mem_singleton.mp hd ▸ onlyX11_consistent
  · obtain rfl := List.mem_singleton.mp (hd.mem _)
    rw [markerDoc_tokens, List.mem_singleton] at hid
    have hx : m = .x11 := by
      cases m with
      | x11 => rfl
      | _ => exact absurd hid (by decide)
    rw [hx]
    exact ⟨onlyX11, rfl, rfl⟩

/-- Without markers the template forbids the parameter that its document has, and so rejects the
observations that the matcher accepts for the document. -/
theorem templates_reject_unmarked : SchemaValid (markerDoc .missing) ∧
    Consistent .ascii (markerDoc .missing) ∧ ¬ TemplatesAccept .ascii [markerDoc .missing] ∧
    ∃ obs, load_observation .ascii (str "a") (observed [.int 17]) = some obs ∧
      0 ≤ (score_match obs ((markerDoc .missing).entry .ascii (str "chrome.json"))).1 ∧
      ¬ Satisfies (template (markerDoc .missing).toCuratedDoc) obs.tpSet := by
  have hforbidden : ∀ s : Finset Bytes, str "0x11" ∈ s →
      ¬ Satisfies (template (markerDoc .missing).toCuratedDoc) s := by
    intro s hs hsat
    rw [satisfies_iff] at hsat
    obtain ⟨ms, hms, -⟩ := hsat.2 .x11 List.mem_cons_self hs
    cases hms
  refine ⟨markerDoc_valid (Or.inl rfl), markerDoc_missing_consistent, fun h => ?_, ?_⟩
  · obtain ⟨d, hd, -, -, hacc⟩ := h _ _ (templates_lookup (last_concat _ [] _))
    obtain rfl := List.mem_singleton.mp (hd.mem _)
    refine hforbidden _ ?_ hacc.document
    rw [markerDoc_tokens]
    decide +kernel
  · obtain ⟨obs, hobs, htp⟩ := load_observed .ascii (str "a") [.int 17]
    obtain ⟨-, hset, hmarkers⟩ := load_observation_tp hobs
    have htokens : obs.tp = [str "0x11"] := by
      rw [htp]
      decide +kernel
    refine ⟨obs, hobs, ?_, hforbidden _ ?_⟩
    · rw [score_match_nonneg, accepts_loaded_iff _ _ _ _ hset hmarkers, htokens, markerDoc_tokens]
      exact ⟨rfl, fun m b ⟨ms, hms, _⟩ => (nomatch hms), Or.inl rfl⟩
    · rw [hset, htokens]
      exact List.mem_toFinset.mpr List.mem_cons_self

end Quic
