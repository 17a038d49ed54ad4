import FingerprintLab.Capture.Identity

/-!
# GREASE and the fingerprints

`GreasedHello h h'`: the hello `h'` is `h` with RFC 8701 values inserted at any positions of the
cipher list, the extension list, the groups, the versions and the signature algorithms.

Every list reaches the fingerprints through `clean`, which an insertion does not change
(`Greased.clean`), with one exception: the third part of JA4 tests the length of the unfiltered
signature algorithms.  So JA3 never changes, and JA4 changes exactly when the insertion is into an
empty list of signature algorithms (`grease_fingerprints`).
-/

set_option linter.unusedVariables false

namespace Capture
open Go

/-- `ws` is `vs` with reserved values inserted -/
inductive Greased : List UInt16 → List UInt16 → Prop where
  | nil : Greased [] []
  | keep (v : UInt16) {vs ws : List UInt16} (h : Greased vs ws) : Greased (v :: vs) (v :: ws)
  | add (v : UInt16) (hv : v ∈ greaseValues) {vs ws : List UInt16} (h : Greased vs ws) :
      Greased vs (v :: ws)

/-- an extension with reserved values inserted into its list -/
inductive Extension.Greased : Extension → Extension → Prop where
  | same (e : Extension) : Extension.Greased e e
  | groups {gs gs' : List UInt16} (h : Capture.Greased gs gs') :
      Extension.Greased (.supportedGroups gs) (.supportedGroups gs')
  | sigs {ss ss' : List UInt16} (h : Capture.Greased ss ss') :
      Extension.Greased (.signatureAlgorithms ss) (.signatureAlgorithms ss')
  | versions {vs vs' : List UInt16} (h : Capture.Greased vs vs') :
      Extension.Greased (.supportedVersions vs) (.supportedVersions vs')

/-- reserved extensions with any payload inserted into the list -/
inductive GreasedExts : List Extension → List Extension → Prop where
  | nil : GreasedExts [] []
  | keep {e e' : Extension} (he : e.Greased e') {es es' : List Extension}
      (h : GreasedExts es es') : GreasedExts (e :: es) (e' :: es')
  | add (eid : UInt16) (data : Bytes) (hu : eid ∉ typedIDs) (hv : eid ∈ greaseValues)
      {es es' : List Extension} (h : GreasedExts es es') :
      GreasedExts es (.other eid data hu :: es')

structure GreasedHello (h h' : HelloFields) : Prop where
  version : h.version = h'.version
  random : h.random = h'.random
  sessionID : h.sessionID = h'.sessionID
  compression : h.compression = h'.compression
  ciphers : Greased h.ciphers h'.ciphers
  exts : GreasedExts h.exts h'.exts

/-- every signature algorithm that the hello lists -/
def HelloFields.listedSigs (h : HelloFields) : List UInt16 :=
  h.exts.flatMap fun e => e.sigs?.getD []

/-- no reserved value goes into an empty list of signature algorithms -/
def SigsStay (h h' : HelloFields) : Prop := h.listedSigs = [] → h'.listedSigs = []

/-! ## what an insertion does to the lists -/

theorem Greased.refl (vs : List UInt16) : Greased vs vs := by
  induction vs with
  | nil => exact .nil
  | cons v vs ih => exact .keep v ih

theorem Greased.append {vs vs' ws ws' : List UInt16} (h : Greased vs vs') (h' : Greased ws ws') :
    Greased (vs ++ ws) (vs' ++ ws') := by
  induction h with
  | nil => exact h'
  | keep v _ ih => exact .keep v ih
  | add v hv _ ih => exact .add v hv ih

theorem Greased.clean {vs ws : List UInt16} (h : Greased vs ws) :
    Capture.clean vs = Capture.clean ws := by
  induction h with
  | nil => rfl
  | @keep v vs ws _ ih =>
    show List.filter _ _ = List.filter _ _
    rw [List.filter_cons, List.filter_cons]
    split
    · exact congrArg (v :: ·) ih
    · exact ih
  | @add v hv vs ws _ ih => rw [ih, clean_cons_grease v ws (isGREASE16_of_reserved v hv)]

theorem Greased.eq_nil {vs : List UInt16} (h : Greased vs []) : vs = [] := by
  cases h with
  | nil => rfl

theorem GreasedExts.ids {es es' : List Extension} (h : GreasedExts es es') :
    Greased (es.map Extension.id) (es'.map Extension.id) := by
  induction h with
  | nil => exact .nil
  | keep he _ ih =>
    cases he <;> exact .keep _ ih
  | add eid data hu hv _ ih => exact .add eid hv ih

/-- a list that the extensions hold, put together over all of them -/
theorem GreasedExts.flatMap (f : Extension → Option (List UInt16))
    (hf : ∀ e e' : Extension, e.Greased e' → Greased ((f e).getD []) ((f e').getD []))
    (ho : ∀ eid data hu, f (.other eid data hu) = none) {es es' : List Extension}
    (h : GreasedExts es es') :
    Greased (es.flatMap fun e => (f e).getD []) (es'.flatMap fun e => (f e).getD []) := by
  induction h with
  | nil => exact .nil
  | @keep e e' he es es' _ ih =>
    rw [List.flatMap_cons, List.flatMap_cons]
    exact (hf e e' he).append ih
  | @add eid data hu hv es es' _ ih =>
    rw [List.flatMap_cons, ho]
    exact ih

theorem GreasedExts.names {es es' : List Extension} (h : GreasedExts es es') :
    (es.flatMap fun e => e.names?.getD []) = es'.flatMap fun e => e.names?.getD [] := by
  induction h with
  | nil => rfl
  | keep he _ ih =>
    rw [List.flatMap_cons, List.flatMap_cons, ih]
    cases he <;> rfl
  | add eid data hu hv _ ih => exact ih

theorem GreasedExts.host {es es' : List Extension} (h : GreasedExts es es') (s : Bytes) :
    es.foldl (fun s e => e.host?.getD s) s = es'.foldl (fun s e => e.host?.getD s) s := by
  induction h generalizing s with
  | nil => rfl
  | keep he _ ih =>
    rw [List.foldl_cons, List.foldl_cons]
    cases he <;> exact ih _
  | add eid data hu hv _ ih => exact ih s

/-! ## the fingerprints -/

/-- the local variables of `analyze` on the record of a hello that may repeat ids -/
def ClientHello.walked (h : ClientHello) (recVer : UInt16) : Parsed :=
  { recVer := recVer, helloVer := h.version, ciphers := h.ciphers
    exts := h.exts.foldl Extension.collect {} }

/-- the two hellos agree on every list as far as `clean` shows it, and on name and protocols -/
structure CleanEq (p q : Parsed) : Prop where
  helloVer : p.helloVer = q.helloVer
  ciphers : clean p.ciphers = clean q.ciphers
  extIDs : clean p.exts.extIDs = clean q.exts.extIDs
  groups : clean p.exts.groups = clean q.exts.groups
  versions : clean p.exts.versions = clean q.exts.versions
  sigs : clean p.exts.sigs = clean q.exts.sigs
  sni : p.exts.sni = q.exts.sni
  alpn : p.exts.alpn = q.exts.alpn

theorem GreasedHello.cleanEq {h h' : ClientHello}
    (hg : GreasedHello h.toHelloFields h'.toHelloFields) (recVer recVer' : UInt16) :
    CleanEq (h.walked recVer) (h'.walked recVer') := by
  have hgroups := hg.exts.flatMap Extension.groups?
    (by intro e e' he; cases he with
        | groups h => exact h
        | _ => exact Greased.refl _) (fun _ _ _ => rfl)
  have hsigs := hg.exts.flatMap Extension.sigs?
    (by intro e e' he; cases he with
        | sigs h => exact h
        | _ => exact Greased.refl _) (fun _ _ _ => rfl)
  have hversions := hg.exts.flatMap Extension.versions?
    (by intro e e' he; cases he with
        | versions h => exact h
        | _ => exact Greased.refl _) (fun _ _ _ => rfl)
  constructor
  · exact hg.version
  · exact hg.ciphers.clean
  all_goals simp only [ClientHello.walked, foldl_collect, List.nil_append]
  · exact hg.exts.ids.clean
  · exact hgroups.clean
  · exact hversions.clean
  · exact hsigs.clean
  · exact hg.exts.host []
  · exact hg.exts.names

theorem CleanEq.ja3 {p q : Parsed} (h : CleanEq p q) :
    p.meta.ja3 = q.meta.ja3 ∧ p.meta.ja3Hash = q.meta.ja3Hash := by
  have hb : buildJA3 p.helloVer p.ciphers p.exts.extIDs p.exts.groups []
      = buildJA3 q.helloVer q.ciphers q.exts.extIDs q.exts.groups [] := by
    unfold buildJA3
    simp only [joinUint16_skip, h.helloVer, h.ciphers, h.extIDs, h.groups]
  exact ⟨congrArg Prod.fst hb, congrArg Prod.snd hb⟩

/-- JA4 changes only through the length test on the unfiltered signature algorithms -/
theorem CleanEq.identity {p q : Parsed} (h : CleanEq p q) :
    p.identity = q.identity ↔ shownSigs p.exts.sigs = shownSigs q.exts.sigs := by
  simp only [Parsed.identity, Identity.mk.injEq]
  constructor
  · intro hid
    exact hid.2.2.2.2.2
  · intro hs
    exact ⟨by rw [h.helloVer, h.versions], by rw [h.sni], by rw [h.alpn], h.ciphers,
      by rw [eClean_eq, eClean_eq, h.extIDs], hs⟩

theorem shownSigs_eq_iff (ss ss' : List UInt16) (h : clean ss = clean ss') :
    shownSigs ss = shownSigs ss' ↔ (ss = [] ↔ ss' = []) := by
  unfold shownSigs
  by_cases h1 : ss = [] <;> by_cases h2 : ss' = [] <;> simp [h1, h2, h]

theorem walked_sigs (h : ClientHello) (recVer : UInt16) :
    (h.walked recVer).exts.sigs = h.listedSigs := by
  simp only [ClientHello.walked, foldl_collect, List.nil_append]
  rfl

/-- **GREASE and the fingerprints.**  JA3 does not see an insertion.  JA4 does not see it either if
no reserved value goes into an empty list of signature algorithms; and only then, as far as the
truncated digest tells the hashed strings apart. -/
theorem grease_fingerprints (h h' : ClientHello) (hd : h.extIDs.Nodup)
    (hg : GreasedHello h.toHelloFields h'.toHelloFields) (recVer recVer' : UInt16)
    (tr tr' : Bytes) :
    ∃ m m', analyze (h.record recVer tr) = .ok m ∧ analyze (h'.record recVer' tr') = .ok m' ∧
      m.ja3 = m'.ja3 ∧ m.ja3Hash = m'.ja3Hash ∧
      (SigsStay h.toHelloFields h'.toHelloFields → m.ja4 = m'.ja4) ∧
      (NoCollision (h.walked recVer) (h'.walked recVer') →
        (m.ja4 = m'.ja4 ↔ SigsStay h.toHelloFields h'.toHelloFields)) := by
  have hc := hg.cleanEq recVer recVer'
  have hs : Greased h.listedSigs h'.listedSigs := hg.exts.flatMap Extension.sigs?
    (by intro e e' he; cases he with
        | sigs h => exact h
        | _ => exact Greased.refl _) (fun _ _ _ => rfl)
  have hid : (h.walked recVer).identity = (h'.walked recVer').identity
      ↔ SigsStay h.toHelloFields h'.toHelloFields := by
    rw [hc.identity, walked_sigs, walked_sigs, shownSigs_eq_iff _ _ hs.clean]
    constructor
    · intro hiff
      exact hiff.mp
    · intro hstay
      exact ⟨hstay, fun h0 => (h0 ▸ hs).eq_nil⟩
  refine ⟨_, _, analyze_of_parse (parse_record h recVer tr),
    analyze_of_parse (parse_record h' recVer' tr'), hc.ja3.1, hc.ja3.2, ?_, ?_⟩
  · intro hstay
    exact ja4_eq_of_identity (hid.mpr hstay)
  · intro hcol
    exact (ja4_eq_iff hcol).trans hid

/-! ### an insertion that JA4 sees -/

/-- the content of a hello whose one extension is `e` -/
def oneFields (e : Extension) : HelloFields where
  version := 0x0303
  random := List.replicate 32 7
  sessionID := []
  ciphers := [0x1301]
  compression := [0]
  block := some [e]

theorem oneFields_fit {e : Extension} (hf : e.Fits) : ∀ e' ∈ (oneFields e).exts, e'.Fits := by
  intro e' he
  obtain rfl : e' = e := List.mem_singleton.mp he
  exact hf

theorem oneFields_length {e : Extension} (hs : e.data.length < 1000) :
    (oneFields e).handshake.length < 65536 := by
  unfold oneFields
  simp [HelloFields.handshake, HelloFields.body, HelloFields.front, HelloFields.back,
    Extension.encode_length]
  omega

def oneExtension (e : Extension) (hf : e.Fits) (hs : e.data.length < 1000) : ClientHello where
  toHelloFields := oneFields e
  random_length := rfl
  sessionID_fits := show 0 < 256 by decide
  compression_fits := show 1 < 256 by decide
  exts_fit := oneFields_fit hf
  fits := oneFields_length hs

/-- an empty list of signature algorithms, and the same list with one reserved value in it -/
def emptySigs : ClientHello := oneExtension (.signatureAlgorithms []) trivial (by decide)
def greasedSigs : ClientHello := oneExtension (.signatureAlgorithms [0x0a0a]) trivial (by decide)

theorem emptySigs_greased : GreasedHello emptySigs.toHelloFields greasedSigs.toHelloFields where
  version := rfl
  random := rfl
  sessionID := rfl
  compression := rfl
  ciphers := Greased.refl _
  exts := .keep (.sigs (.add 0x0a0a (by decide) .nil)) .nil

theorem grease_changes_ja4 : emptySigs.extIDs.Nodup ∧
    GreasedHello emptySigs.toHelloFields greasedSigs.toHelloFields ∧
    ∃ m m', analyze (emptySigs.record 0x0301 []) = .ok m ∧
      analyze (greasedSigs.record 0x0301 []) = .ok m' ∧ m.ja4 ≠ m'.ja4 := by
  refine ⟨by decide, emptySigs_greased, _, _, analyze_of_parse (parse_record emptySigs 0x0301 []),
    analyze_of_parse (parse_record greasedSigs 0x0301 []), ?_⟩
  decide +kernel

/-- the same value inserted into a list that is not empty -/
theorem grease_fingerprints_nonempty :
    ∃ m m', analyze ((oneExtension (.signatureAlgorithms [0x0403]) trivial (by decide)).record
        0x0301 []) = .ok m ∧
      analyze ((oneExtension (.signatureAlgorithms [0x0a0a, 0x0403]) trivial (by decide)).record
        0x0301 []) = .ok m' ∧ m.ja3 = m'.ja3 ∧ m.ja4 = m'.ja4 := by
  obtain ⟨m, m', hm, hm', h3, -, h4, -⟩ := grease_fingerprints
    (oneExtension (.signatureAlgorithms [0x0403]) trivial (by decide))
    (oneExtension (.signatureAlgorithms [0x0a0a, 0x0403]) trivial (by decide)) (by decide)
    ⟨rfl, rfl, rfl, rfl, Greased.refl _,
      .keep (.sigs (.add 0x0a0a (by decide) (.keep 0x0403 .nil))) .nil⟩ 0x0301 0x0301 [] []
  exact ⟨m, m', hm, hm', h3, h4 (fun h => absurd h (by decide))⟩

end Capture
