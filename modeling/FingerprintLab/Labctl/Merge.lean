import FingerprintLab.Capture.Grease
import FingerprintLab.Capture.Promote
import FingerprintLab.Labctl.Extend

/-!
# What the export merges

The export merges targets of a family by the text of their JA4.  When the directories say what
`analyze` says of their hellos, it merges hellos of one identity only, as far as the truncated
digest tells the strings hashed apart.

* `Labelled`               the JA4 that the export reads is the one `analyze` computes from the hello;
* `labelled_of_promoted`   the capture server labels what it promotes;
* `LeadsTo`                the entry of a lab id: as its lab id, or else as an alias in its family;
* `class_identity`         the members of one class have one identity;
* `entry_identity`         so have the targets that lead to one entry;
* `ja4_identifies`         what a JA4 identifies, from the records to the export.
-/

set_option linter.unusedVariables false

open Capture

namespace Labctl
open Go Lab Ranking Writes

/-- the directory holds an accepted hello with its JA4 -/
def Labelled (profiles : Tree) (t : Target) (p : Parsed) : Prop :=
  ∃ hello, (profiles t.id).hello = some hello ∧ parse hello = .ok p ∧
    ja4Of profiles t = p.meta.ja4

theorem meta_ja4_ne (p : Parsed) : p.meta.ja4 ≠ [] := by
  intro h
  have hl : p.meta.ja4.length = 0 := by rw [h]; rfl
  unfold Parsed.meta buildJA4 at hl
  simp only [List.length_append, ja4A_length] at hl
  omega

theorem handle_metaDoc {fl : Flags} {c : Conn} {w : Promotion} {p : Parsed}
    (h : handle fl c = some w) (hp : parse c.rawHello = .ok p) :
    w.hello = c.rawHello ∧ w.metaDoc.ja4 = p.meta.ja4 := by
  unfold handle at h
  obtain ⟨m, hm, h⟩ := Option.bind_eq_some_iff.mp h
  obtain ⟨-, hhello, hdoc, -⟩ := writeImportableProfile_some h
  have hja4 : m.ja4 = p.meta.ja4 :=
    (startMeta_ja4 hm).trans (recordedJA4_ok (analyze_of_parse hp))
  refine ⟨hhello, ?_⟩
  rw [hdoc, ← hja4]
  cases c.fingerprinter <;> rfl

/-- The capture server labels what it promotes, when the handler is not disturbed. -/
theorem labelled_of_promoted {fl : Flags} {c : Conn} {w : Promotion} {p : Parsed} (profiles : Tree)
    (t : Target) (h : handle fl c = some w) (hp : parse c.rawHello = .ok p) (hid : t.id = w.id) :
    Labelled (w.writes.foldl Tree.apply profiles) t p := by
  obtain ⟨hhello, hja4⟩ := handle_metaDoc h hp
  have hd : w.writes.foldl Tree.apply profiles w.id =
      { profiles w.id with
        hello := some w.hello, metaDoc := some (.good w.metaDoc)
        profile := some (.good w.profile), readme := some w.readme } := by
    show (((profiles.apply _).apply _).apply _).apply _ w.id = _
    repeat rw [Tree.apply_self _ ⟨w.id, _⟩]
    rfl
  refine ⟨c.rawHello, ?_, hp, ?_⟩
  · rw [hid, hd, hhello]
  · have hne := meta_ja4_ne p
    rw [← hja4] at hne ⊢
    unfold ja4Of member
    dsimp only
    rw [hid, hd]
    exact if_neg hne

/-- the entry that a lab id leads to -/
def LeadsTo (cat : Catalog) (x : Target) (p : ExportProfile) : Prop :=
  p ∈ cat.profiles ∧ (p.labID = x.id ∨
    (∀ q ∈ cat.profiles, q.labID ≠ x.id) ∧ p.family = x.family ∧
      cat.aliases.lookup x.id = some p.shortName)

theorem LeadsTo.resolves {cat : Catalog} {x : Target} {p : ExportProfile} (h : LeadsTo cat x p) :
    Resolves cat x p.family p.ja4 := by
  obtain ⟨hp, hid | ⟨hno, hf, hl⟩⟩ := h
  · exact .inl ⟨p, hp, hid, rfl, rfl⟩
  · exact .inr ⟨hno, p, hp, hf, hl, rfl, rfl⟩

section
variable {profiles : Tree} {targets : List Target} {x y : Target} {p q : Parsed}
  (hx : Labelled profiles x p) (hy : Labelled profiles y q) (hcol : NoCollision p q)
include hx hy hcol

/-- equal export JA4s mean equal identities -/
theorem labelled_identity (h : ja4Of profiles x = ja4Of profiles y) : p.identity = q.identity := by
  obtain ⟨-, -, -, hp⟩ := hx
  obtain ⟨-, -, -, hq⟩ := hy
  rw [hp, hq] at h
  exact (ja4_eq_iff hcol).mp h

theorem class_identity {f : Bytes} {u : Cluster RankedMember}
    (hu : u ∈ classesOf (membersOf profiles targets) f)
    (hxu : member profiles x ∈ u.head :: u.rest) (hyu : member profiles y ∈ u.head :: u.rest) :
    p.identity = q.identity := by
  refine labelled_identity hx hy hcol ?_
  have hmem := mem_group_iff RankedMember.ja4 _ u hu
  exact ((hmem _).mp hxu).2.trans ((hmem _).mp hyu).2.symm

theorem entry_identity (ord : MapOrders) (hids : (targets.map Target.id).Nodup) (hxt : x ∈ targets)
    (hyt : y ∈ targets) (hxe : Eligible profiles x) (hye : Eligible profiles y) {e : ExportProfile}
    (hxl : LeadsTo (catalogOf ord (naming ord profiles targets)) x e)
    (hyl : LeadsTo (catalogOf ord (naming ord profiles targets)) y e) : p.identity = q.identity := by
  have hxj := ((resolves_iff ord hids hxt (fun _ => hxe) _ _).mp hxl.resolves).2.2
  have hyj := ((resolves_iff ord hids hyt (fun _ => hye) _ _).mp hyl.resolves).2.2
  exact labelled_identity hx hy hcol (hxj.symm.trans hyj)

end

/-- **What a JA4 identifies.**  Accepted records have equal JA4s exactly when their identities are
equal; what `Varied` allows to change is not part of it; and the export never merges hellos with
different identities. -/
theorem ja4_identifies :
    (∀ (r r' : Bytes) (m m' : Meta), analyze r = .ok m → analyze r' = .ok m' →
      ∃ p q, parse r = .ok p ∧ parse r' = .ok q ∧
        (p.identity = q.identity → m.ja4 = m'.ja4) ∧
        (NoCollision p q → (m.ja4 = m'.ja4 ↔ p.identity = q.identity))) ∧
    (∀ h h' : ClientHello, Varied h.toHelloFields h'.toHelloFields → h.extIDs.Nodup →
      ∀ recVer recVer' tr tr', ∃ m m', analyze (h.record recVer tr) = .ok m ∧
        analyze (h'.record recVer' tr') = .ok m' ∧ m.ja4 = m'.ja4) ∧
    ∀ (ord : MapOrders) (profiles : Tree) (targets : List Target) (chk : Bool) (dist out : Dist),
      runExport ord profiles targets chk dist = .ok out →
      ∀ x ∈ targets, ∀ y ∈ targets, Eligible profiles x → Eligible profiles y →
      ∀ p q, Labelled profiles x p → Labelled profiles y q → NoCollision p q →
        p.identity ≠ q.identity →
        (∀ f, ∀ u ∈ classesOf (membersOf profiles targets) f,
          ¬ (member profiles x ∈ u.head :: u.rest ∧ member profiles y ∈ u.head :: u.rest)) ∧
        ((targets.map Target.id).Nodup → ∃ cat, out.catalog = some cat ∧
          ∀ e, ¬ (LeadsTo cat x e ∧ LeadsTo cat y e)) := by
  refine ⟨?_, fun h h' hv hd => hv.ja4 hd, ?_⟩
  · intro r r' m m' hr hr'
    obtain ⟨p, hp, rfl⟩ := parse_of_analyze hr
    obtain ⟨q, hq, rfl⟩ := parse_of_analyze hr'
    exact ⟨p, q, hp, hq, ja4_eq_of_identity, ja4_eq_iff⟩
  · intro ord profiles targets chk dist out hout x hx y hy hxe hye p q hp hq hcol hne
    refine ⟨fun f u hu hm => hne (class_identity hp hq hcol hu hm.1 hm.2), fun hids => ?_⟩
    refine ⟨_, runExport_catalog hout, fun e he => hne ?_⟩
    exact entry_identity hp hq hcol ord hids hx hy hxe hye he.1 he.2

/-! ## two hellos of one identity, and one of another -/

theorem masterSecret_untyped : (0x0017 : UInt16) ∉ typedIDs := by decide

theorem grease_untyped : (0x3a3a : UInt16) ∉ typedIDs := by decide

/-- `sampleHello` with another random, session id and host name, and with its GREASE extension at
the end -/
def swappedFields : HelloFields where
  version := 0x0303
  random := List.replicate 32 8
  sessionID := []
  ciphers := [0x2a2a, 0x1301, 0x1302]
  compression := [0]
  block := some [.serverName (str "chrome.fp.lab.local"), .supportedGroups [0x001d],
    .signatureAlgorithms [0x0403, 0x0804], .alpn [str "h2"],
    .supportedVersions [0x5a5a, 0x0304, 0x0303], .other 0x0017 [] masterSecret_untyped,
    .other 0x3a3a [0] grease_untyped]

theorem swappedFields_fit : ∀ e ∈ swappedFields.exts, e.Fits := by
  intro e he
  simp only [HelloFields.exts, swappedFields, Option.getD_some, List.mem_cons, List.not_mem_nil,
    or_false] at he
  rcases he with rfl | rfl | rfl | rfl | rfl | rfl | rfl <;> simp [Extension.Fits]
  decide

def swappedHello : ClientHello where
  toHelloFields := swappedFields
  random_length := by decide
  sessionID_fits := by decide
  compression_fits := by decide
  exts_fit := swappedFields_fit
  fits := by decide +kernel

theorem swappedHello_varied : Varied sampleHello.toHelloFields swappedHello.toHelloFields where
  version := rfl
  ciphers := rfl
  exts := by
    have hp := List.perm_append_singleton (Extension.other 0x3a3a [0] grease_untyped)
      [.serverName (str "chrome.fp.lab.local"), .supportedGroups [0x001d],
        .signatureAlgorithms [0x0403, 0x0804], .alpn [str "h2"],
        .supportedVersions [0x5a5a, 0x0304, 0x0303], .other 0x0017 [] masterSecret_untyped]
    refine ⟨_, ?_, hp.symm⟩
    refine .cons (.other _ _ _ _) (.cons (.serverName _ _ (by decide) (by decide)) ?_)
    refine .cons (.groups _ _) (.cons (.same _) (.cons (.alpn _ _ _) ?_))
    exact .cons (.same _) (.cons (.same _) .nil)

/-- `profiles/` with the hellos `sampleHello` and `emptySigs` -/
def helloTree : Tree := fun id =>
  if id = str "chrome-linux" then
    sampleDir (sampleHello.record 0x0301 []) (sampleHello.parsed 0x0301).meta.ja4 2
  else if id = str "chrome-120" then
    sampleDir (emptySigs.record 0x0301 []) (emptySigs.parsed 0x0301).meta.ja4 1
  else {}

def helloTargets : List Target :=
  [activeTarget (str "chrome-linux") (str "chrome") 0 trackLatest,
    activeTarget (str "chrome-120") (str "chrome") 120 trackPinned]

theorem helloTargets_export : ∃ out, runExport .sorted helloTree helloTargets true {} = .ok out :=
  exists_export (by decide +kernel)

theorem labelled_sampleHello :
    Labelled helloTree (activeTarget (str "chrome-linux") (str "chrome") 0 trackLatest)
      (sampleHello.parsed 0x0301) :=
  ⟨_, rfl, parse_distinct sampleHello (by decide) 0x0301 [], by decide +kernel⟩

theorem labelled_emptySigs :
    Labelled helloTree (activeTarget (str "chrome-120") (str "chrome") 120 trackPinned)
      (emptySigs.parsed 0x0301) :=
  ⟨_, rfl, parse_distinct emptySigs (by decide) 0x0301 [], by decide +kernel⟩

theorem ja4_identifies_sample :
    (∃ m m', analyze (sampleHello.record 0x0301 []) = .ok m ∧
      analyze (swappedHello.record 0x0301 []) = .ok m' ∧ m.ja4 = m'.ja4) ∧
    (∃ m m', analyze (sampleHello.record 0x0301 []) = .ok m ∧
      analyze (emptySigs.record 0x0301 []) = .ok m' ∧ m.ja4 ≠ m'.ja4) ∧
    ∃ out cat, runExport .sorted helloTree helloTargets true {} = .ok out ∧ out.catalog = some cat ∧
      ∀ e, ¬ (LeadsTo cat (activeTarget (str "chrome-linux") (str "chrome") 0 trackLatest) e ∧
        LeadsTo cat (activeTarget (str "chrome-120") (str "chrome") 120 trackPinned) e) := by
  obtain ⟨hrecords, hvaried, hexport⟩ := ja4_identifies
  have hcol : NoCollision (sampleHello.parsed 0x0301) (emptySigs.parsed 0x0301) := by
    constructor
    · intro h
      exact absurd h (by decide +kernel)
    · intro h
      exact absurd h (by decide +kernel)
  have hne : (sampleHello.parsed 0x0301).identity ≠ (emptySigs.parsed 0x0301).identity := by
    intro h
    exact absurd (congrArg Identity.hasSNI h) (by decide +kernel)
  refine ⟨hvaried sampleHello swappedHello swappedHello_varied (by decide) 0x0301 0x0301 [] [], ?_, ?_⟩
  · have hp := parse_distinct sampleHello (by decide) 0x0301 []
    have hq := parse_distinct emptySigs (by decide) 0x0301 []
    obtain ⟨p, q, hp', hq', -, hiff⟩ :=
      hrecords _ _ _ _ (analyze_of_parse hp) (analyze_of_parse hq)
    obtain rfl : sampleHello.parsed 0x0301 = p := Except.ok.inj (hp.symm.trans hp')
    obtain rfl : emptySigs.parsed 0x0301 = q := Except.ok.inj (hq.symm.trans hq')
    exact ⟨_, _, analyze_of_parse hp, analyze_of_parse hq, fun h => hne ((hiff hcol).mp h)⟩
  · obtain ⟨out, h⟩ := helloTargets_export
    obtain ⟨-, hcat⟩ := hexport .sorted helloTree helloTargets true {} out h _ List.mem_cons_self _
      (List.mem_cons_of_mem _ List.mem_cons_self) (by decide +kernel) (by decide +kernel) _ _
      labelled_sampleHello labelled_emptySigs hcol hne
    obtain ⟨cat, hc, he⟩ := hcat (by decide +kernel)
    exact ⟨out, cat, h, hc, he⟩

end Labctl
