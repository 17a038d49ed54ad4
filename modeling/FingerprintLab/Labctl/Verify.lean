import FingerprintLab.Capture.Replay
import FingerprintLab.Labctl.NormalForm
import FingerprintLab.Labctl.Truthful

/-!
# `labctl verify` and `labctl catalog`

`verify` sends the hello of a profile again, to the name `verify-<id>`, and compares the JA4 that the
capture server answers with the expected one; `labctl verify` does so for every profile.  What uTLS
sends, and whether the handshake ends, is not under the lab: a `Client` is a parameter.

* `load`, `verify`          `profile.Load`, and the verification of one directory with its report;
* `verifyLoop`              the loop of `labctl verify`, with the number of failures;
* `WordNamed`               directories with a hello are named by words;
* `Faithful`                what the client sends for a hello is a replay of it;
* `lost`                    a profile whose replay does not get through;
* `verify_truthful`         a verification fails only when the replay does not get through, and of a
                            profile it writes the report only;
* `labProfiles`             the rows of `labctl catalog`;
* `catalogs_agree`          those of the lab and of an export say the same;
* `second_generation`       a lab of clients that replay an export captures the JA4s of its catalog.
-/

set_option linter.unusedVariables false

open Capture (Whole rawFormat recordedJA4 startMeta handled Replays verifySNI Conn Flags)

namespace Labctl
open Go Lab Runs

/-! ## one verification -/

/-- uTLS, and the TLS stacks behind the hello -/
structure Client where
  /-- the record sent for a captured hello and a server name; none when the hello is not imported -/
  send : Bytes → Bytes → Option Bytes
  /-- the handshake ends and the response is read -/
  completes : Bytes → Bool

/-- `profile.Load` -/
def load (d : Dir) : Option (ProfileDoc × Bytes) := do
  let m ← Doc.read? d.profile
  let hello ← d.hello
  return (m, hello)

/-- what `verify` reports; the JA3 does not decide -/
structure Verdict where
  profileID : Bytes
  sni : Bytes
  expectedJA4 : Bytes
  gotJA4 : Bytes
  ja4Match : Bool
  ja3Match : Bool
  deriving DecidableEq, Repr

/-- `profiles/`, with the `verify-last.json` of each directory, which nothing reads -/
structure Checked where
  tree : Tree
  last : Bytes → Option Verdict := fun _ => none

/-- What one verification leaves, and its report unless it ends with an error.  `env` is the connection
but for the record; `sni` is the flag. -/
def verify (C : Client) (fl : Flags) (env : Conn) (sni : Bytes) (s : Checked) (name : Bytes) :
    Checked × Option Verdict :=
  match load (s.tree name) with
  | none => (s, none)
  | some (m, hello) =>
    let sni := if sni = [] then verifySNI m.id else sni
    match C.send hello sni with
    | none => (s, none)
    | some record =>
      let s := { s with tree := handled fl { env with rawHello := record } s.tree }
      match startMeta record with
      | none => (s, none)
      | some got =>
        if C.completes record then
          let v : Verdict :=
            { profileID := m.id
              sni
              expectedJA4 := m.ja4
              gotJA4 := got.ja4
              ja4Match := got.ja4 ≠ [] ∧ got.ja4 = m.ja4
              ja3Match := got.ja3Hash = m.ja3Hash }
          ({ s with last := Function.update s.last name (some v) }, some v)
        else (s, none)

/-- exit code 0 -/
def passed : Option Verdict → Bool
  | some v => v.ja4Match
  | none => false

/-! ## the loop -/

def isVerify (name : Bytes) : Bool := (str "verify-").isPrefixOf name

/-- the directories that the loop looks at -/
def chosen (idFilter name : Bytes) : Bool := !isVerify name && (idFilter = [] || name = idFilter)

/-- the loop over the directories that were listed before it -/
def verifyLoop (C : Client) (fl : Flags) (env : Bytes → Conn) (idFilter : Bytes) :
    List Bytes → Checked → Checked × Nat
  | [], s => (s, 0)
  | e :: es, s =>
    if !chosen idFilter e then verifyLoop C fl env idFilter es s
    else if (s.tree e).hello = none then verifyLoop C fl env idFilter es s
    else
      let r := verify C fl (env e) [] s e
      let rest := verifyLoop C fl env idFilter es r.1
      (rest.1, (if passed r.2 then 0 else 1) + rest.2)

/-- the replay of the directory's hello is sent and answered -/
def getsThrough (C : Client) (t : Tree) (name : Bytes) : Bool :=
  match (t name).hello with
  | none => false
  | some hello =>
    match C.send hello (verifySNI name) with
    | none => false
    | some record => C.completes record

/-- the loop looks at the directory, and its replay does not get through -/
def lost (C : Client) (idFilter : Bytes) (t : Tree) (name : Bytes) : Bool :=
  chosen idFilter name && (t name).hello.isSome && !getsThrough C t name

/-! ## names -/

/-- directories with a hello are named by words -/
def WordNamed (lab : LabRoot) : Prop :=
  ∀ id, (lab.profiles id).hello ≠ none → Word id ∧ id ≠ []

section
variable {fl : Flags} {sent : Bytes → Prop} {lab : LabRoot}

theorem wordNamed_served {ws : List Write} (hq : Quietly fl sent lab ws) (h : WordNamed lab) :
    WordNamed (served lab ws) := by
  obtain ⟨conns, sched, -, -, -, hstore⟩ := hq
  intro id hh
  rw [hstore] at hh
  by_cases hp : ∃ p ∈ conns.filterMap (Capture.handle fl), p.id = id
  · obtain ⟨p, hp, rfl⟩ := hp
    obtain ⟨c, -, hc⟩ := List.mem_filterMap.mp hp
    have hconf := Capture.handle_confined hc
    exact ⟨hconf.word, hconf.ne_nil⟩
  · have hrest := Capture.store_run fl conns lab.profiles sched id fun p hp' hid => hp ⟨p, hp', hid⟩
    rw [hrest] at hh
    exact h id hh

theorem wordNamed_writeSlot {profiles : Tree} {id' : Bytes} (s : Slot)
    (h : ∀ id, (profiles id).hello ≠ none → Word id ∧ id ≠ []) (id : Bytes)
    (hh : (Function.update profiles id' (writeSlot (profiles id') s) id).hello ≠ none) :
    Word id ∧ id ≠ [] := by
  have hslot : (writeSlot (profiles id') s).hello ≠ none → Word id' ∧ id' ≠ [] := h id'
  exact Tree.forall_update (P := fun id d => d.hello ≠ none → Word id ∧ id ≠ []) h hslot id hh

theorem wordNamed_archive {t : Target} (before : Option Dir) (h : WordNamed lab) :
    WordNamed (maybeArchiveAfterCapture lab t before) := by
  intro id hh
  cases maybeArchived lab t before with
  | unchanged he =>
    rw [he] at hh
    exact h id hh
  | slotOnly s he =>
    rw [he] at hh
    exact wordNamed_writeSlot s h id hh
  | copied b dst s hbefore ht ha hdst he =>
    rw [he] at hh
    have hword := archiveDst_word lab.profiles t (oldSlot b)
    rw [hdst] at hword
    have hcopied : WordNamed { lab with profiles := withCopy lab.profiles dst b } :=
      Tree.forall_update (P := fun id d => d.hello ≠ none → Word id ∧ id ≠ []) h fun _ => hword
    exact wordNamed_writeSlot s hcopied id hh

/-- The step lemma for names. -/
theorem wordNamed_step (lab : LabRoot) (a : Action) (lab' : LabRoot) (hq : Quiet fl sent lab a)
    (hstep : step lab a = some lab') (h : WordNamed lab) : WordNamed lab' := by
  have hserved : WordNamed (served lab a.writes) := wordNamed_served hq h
  rcases a with ⟨t, ws, _ | probe⟩ | ws
  · rw [← Option.some.inj hstep]
    exact hserved
  · rw [← Option.some.inj hstep]
    have harch := wordNamed_archive (t := t) (snapshotProfile (lab.profiles t.id)) hserved
    show WordNamed (updateSlotAfterCapture _ t probe)
    by_cases hh : ((maybeArchiveAfterCapture (served lab ws) t
        (snapshotProfile (lab.profiles t.id))).profiles t.id).hello = none
    · unfold updateSlotAfterCapture
      rw [if_pos hh]
      exact harch
    · obtain ⟨s, -, he⟩ := updateSlot_spec _ t probe hh
      rw [he]
      exact wordNamed_writeSlot s harch
  · rw [← Option.some.inj hstep]
    exact hserved

end

/-! ## what a verification does -/

/-- What the client sends for a hello that the lab has seen is a replay of it, to that name. -/
def Faithful (C : Client) (sent : Bytes → Prop) : Prop :=
  ∀ a sni r, sent a → C.send a sni = some r → Replays a r sni

/-- what clients and verifications send -/
def Echoed (C : Client) (sent : Bytes → Prop) (r : Bytes) : Prop :=
  sent r ∨ ∃ a sni, sent a ∧ C.send a sni = some r

theorem isVerify_append (name : Bytes) : isVerify (str "verify-" ++ name) = true :=
  List.isPrefixOf_iff_prefix.mpr (List.prefix_append _ name)

theorem startMeta_of_analyze {record : Bytes} {m : Capture.Meta}
    (h : Capture.analyze record = .ok m) : startMeta record = some m := by
  unfold startMeta
  rw [h]

section
variable {C : Client} {sent : Bytes → Prop}

theorem Truthful.mono {sent' : Bytes → Prop} {id : Bytes} {d : Dir} (hs : ∀ b, sent b → sent' b)
    (h : Truthful sent id d) : Truthful sent' id d := by
  cases h with
  | empty hh hm hp => exact .empty hh hm hp
  | whole hello m p hsent hw => exact .whole hello m p (hs hello hsent) hw

/-- a handler that runs alone -/
theorem truthful_handled {fl : Flags} {c : Conn} {p : Capture.Promotion} {t : Tree}
    (hp : Capture.handle fl c = some p) (hc : sent c.rawHello)
    (ht : ∀ id, Truthful sent id (t id)) (id : Bytes) : Truthful sent id (handled fl c t id) := by
  by_cases hid : id = p.id
  · unfold handled
    rw [hp, hid]
    dsimp only
    rw [Capture.writes_apply]
    refine .whole p.hello p.metaDoc p.profile ?_ ⟨rfl, rfl, rfl, Capture.handle_described hp⟩
    rw [(Capture.handle_faithful hp).1]
    exact hc
  · rw [Capture.handled_frame hp t hid]
    exact ht id

/-- the report of a verification that finds the recorded JA4 again -/
structure Confirms (v : Verdict) (t : Tree) (name : Bytes) : Prop where
  profileID : v.profileID = name
  sni : v.sni = verifySNI name
  ja4 : ∃ hello, (t name).hello = some hello ∧ v.expectedJA4 = recordedJA4 hello ∧
    v.gotJA4 = v.expectedJA4
  ja4Match : v.ja4Match = true

/-- One verification of a directory that is truthful and named by a word. -/
structure Verified (C : Client) (sent : Bytes → Prop) (s : Checked) (name : Bytes) (s' : Checked)
    (report : Option Verdict) : Prop where
  passed : passed report = getsThrough C s.tree name
  frame : ∀ id, isVerify id = false → s'.tree id = s.tree id
  truthful : ∀ id, Truthful (Echoed C sent) id (s'.tree id)
  reported : getsThrough C s.tree name = true →
    ∃ v, Confirms v s.tree name ∧ s'.last = Function.update s.last name (some v)
  silent : getsThrough C s.tree name = false → s'.last = s.last

theorem verify_spec (hC : Faithful C sent) (fl : Flags) (env : Conn) {s : Checked} {name : Bytes}
    (hname : Truthful sent name (s.tree name)) (hh : (s.tree name).hello ≠ none) (hword : Word name)
    (ht : ∀ id, Truthful (Echoed C sent) id (s.tree id)) :
    Verified C sent s name (verify C fl env [] s name).1 (verify C fl env [] s name).2 := by
  obtain ⟨hello, m, p, hsent, hw⟩ := hname.of_hello hh
  have hload : load (s.tree name) = some (p, hello) := by
    unfold load
    rw [hw.profile, hw.bytes]
    rfl
  have hthrough : getsThrough C s.tree name =
      match C.send hello (verifySNI name) with
      | none => false
      | some record => C.completes record := by
    unfold getsThrough
    rw [hw.bytes]
  unfold verify
  simp only [hload, hw.described.id, if_true]
  cases hr : C.send hello (verifySNI name) with
  | none =>
    rw [hr] at hthrough
    exact ⟨hthrough.symm, fun id _ => rfl, ht,
      fun hg => absurd (hthrough.symm.trans hg) Bool.false_ne_true, fun _ => rfl⟩
  | some record =>
    rw [hr] at hthrough
    have hrep := hC hello _ record hsent hr
    obtain ⟨got, hgot, -, hja4⟩ := hrep.analyzed
    obtain ⟨q, hq, hqid⟩ := hrep.routed (Capture.verify_word hword)
      (List.append_ne_nil_of_left_ne_nil (by decide) name) (Capture.verify_ne_unknown name) fl
      (c := { env with rawHello := record }) rfl
    have hframe : ∀ id, isVerify id = false →
        handled fl { env with rawHello := record } s.tree id = s.tree id := by
      intro id hid
      refine Capture.handled_frame hq s.tree fun he => ?_
      rw [he, hqid, isVerify_append] at hid
      cases hid
    have htruth : ∀ id, Truthful (Echoed C sent) id
        (handled fl { env with rawHello := record } s.tree id) :=
      truthful_handled hq (.inr ⟨hello, _, hsent, hr⟩) ht
    simp only [startMeta_of_analyze hgot]
    by_cases hc : C.completes record = true
    · have hsame : got.ja4 = p.ja4 := hja4.trans hw.described.ja4.symm
      have hmatch : decide (got.ja4 ≠ [] ∧ got.ja4 = p.ja4) = true :=
        decide_eq_true ⟨Capture.ja4_ne_nil hgot, hsame⟩
      rw [if_pos hc]
      refine ⟨hmatch.trans (hthrough.trans hc).symm, hframe, htruth, fun _ => ⟨_, ?_, rfl⟩,
        fun hg => absurd (hg.symm.trans (hthrough.trans hc)) Bool.false_ne_true⟩
      exact ⟨rfl, rfl, ⟨hello, hw.bytes, hw.described.ja4, hsame⟩, hmatch⟩
    · rw [if_neg hc]
      rw [Bool.not_eq_true] at hc
      exact ⟨(hthrough.trans hc).symm, hframe, htruth,
        fun hg => absurd ((hthrough.trans hc).symm.trans hg) Bool.false_ne_true, fun _ => rfl⟩

theorem verifyLoop_skip (fl : Flags) (env : Bytes → Conn) (idFilter : Bytes) {e : Bytes}
    (es : List Bytes) {s : Checked} (h : ¬ (chosen idFilter e = true ∧ (s.tree e).hello ≠ none)) :
    verifyLoop C fl env idFilter (e :: es) s = verifyLoop C fl env idFilter es s := by
  rw [verifyLoop]
  by_cases hch : chosen idFilter e = true
  · have hh : (s.tree e).hello = none := not_not.mp fun hh => h ⟨hch, hh⟩
    rw [hch, if_neg (by decide), if_pos hh]
  · rw [if_pos (by rw [Bool.not_eq_true] at hch; rw [hch]; rfl)]

theorem verifyLoop_run (fl : Flags) (env : Bytes → Conn) (idFilter : Bytes) {e : Bytes}
    (es : List Bytes) {s : Checked} (hch : chosen idFilter e = true) (hh : (s.tree e).hello ≠ none) :
    verifyLoop C fl env idFilter (e :: es) s =
      ((verifyLoop C fl env idFilter es (verify C fl (env e) [] s e).1).1,
        (if passed (verify C fl (env e) [] s e).2 then 0 else 1) +
          (verifyLoop C fl env idFilter es (verify C fl (env e) [] s e).1).2) := by
  rw [verifyLoop, hch, if_neg (by decide), if_neg hh]

/-- the loop looks at the directory, and its replay gets through -/
def confirmed (C : Client) (idFilter : Bytes) (t : Tree) (name : Bytes) : Bool :=
  chosen idFilter name && getsThrough C t name

/-- What a loop over `names` leaves of `t₀` and `s`: a failure for each replay that is lost, a report for
each that gets through, and nothing else outside the directories of the replays. -/
structure LoopVerified (C : Client) (sent : Bytes → Prop) (idFilter : Bytes) (t₀ : Tree)
    (names : List Bytes) (s : Checked) (r : Checked × Nat) : Prop where
  failures : r.2 = (names.filter (lost C idFilter t₀)).length
  frame : ∀ id, isVerify id = false → r.1.tree id = t₀ id
  truthful : ∀ id, Truthful (Echoed C sent) id (r.1.tree id)
  reported : ∀ id ∈ names, confirmed C idFilter t₀ id = true →
    ∃ v, Confirms v t₀ id ∧ r.1.last id = some v
  silent : ∀ id, ¬ (id ∈ names ∧ confirmed C idFilter t₀ id = true) → r.1.last id = s.last id

theorem Confirms.congr {v : Verdict} {t t' : Tree} {e : Bytes} (h : t e = t' e)
    (hv : Confirms v t e) : Confirms v t' e where
  profileID := hv.profileID
  sni := hv.sni
  ja4 := h ▸ hv.ja4
  ja4Match := hv.ja4Match

/-- The loop lemma; `t₀` is the tree before the loop, whose profiles are still the same. -/
theorem verifyLoop_spec (hC : Faithful C sent) (fl : Flags) (env : Bytes → Conn) (idFilter : Bytes)
    {t₀ : Tree} (h₀ : ∀ id, Truthful sent id (t₀ id))
    (hword : ∀ id, (t₀ id).hello ≠ none → Word id ∧ id ≠ []) (names : List Bytes) (s : Checked)
    (hsame : ∀ id, isVerify id = false → s.tree id = t₀ id)
    (ht : ∀ id, Truthful (Echoed C sent) id (s.tree id)) :
    LoopVerified C sent idFilter t₀ names s (verifyLoop C fl env idFilter names s) := by
  induction names generalizing s with
  | nil =>
    exact ⟨rfl, hsame, ht, fun id hid => absurd hid List.not_mem_nil, fun _ _ => rfl⟩
  | cons e es ih =>
    have hte : chosen idFilter e = true → s.tree e = t₀ e := by
      intro hch
      unfold chosen at hch
      rw [Bool.and_eq_true, Bool.not_eq_true'] at hch
      exact hsame e hch.1
    by_cases hrun : chosen idFilter e = true ∧ (s.tree e).hello ≠ none
    · obtain ⟨hch, hh⟩ := hrun
      have hsafe := hte hch
      have hstep := verify_spec hC fl (env e) (hsafe ▸ h₀ e) hh (hword e (hsafe ▸ hh)).1 ht
      have hrest := ih (verify C fl (env e) [] s e).1
        (fun id hid => (hstep.frame id hid).trans (hsame id hid)) hstep.truthful
      have hthrough : getsThrough C s.tree e = getsThrough C t₀ e := by
        unfold getsThrough
        rw [hsafe]
      have hlost : lost C idFilter t₀ e = !getsThrough C s.tree e := by
        unfold lost
        rw [hch, hthrough, ← hsafe, Option.isSome_iff_ne_none.mpr hh]
        rfl
      have hconf : confirmed C idFilter t₀ e = getsThrough C s.tree e := by
        unfold confirmed
        rw [hch, hthrough]
        rfl
      rw [verifyLoop_run fl env idFilter es hch hh]
      refine ⟨?_, hrest.frame, hrest.truthful, fun id hid hc => ?_, fun id hn => ?_⟩
      · rw [List.filter_cons, hlost, ← hstep.passed]
        cases passed (verify C fl (env e) [] s e).2 with
        | true => exact (Nat.zero_add _).trans hrest.failures
        | false => exact (Nat.add_comm 1 _).trans (congrArg Nat.succ hrest.failures)
      · by_cases hes : id ∈ es
        · exact hrest.reported id hes hc
        · -- it is `e`, and the rest of the loop leaves its report
          obtain rfl := (List.mem_cons.mp hid).resolve_right hes
          obtain ⟨v, hv, hlast⟩ := hstep.reported (hconf.symm.trans hc)
          refine ⟨v, hv.congr hsafe, ?_⟩
          rw [hrest.silent id fun h => hes h.1, hlast]
          exact Function.update_self ..
      · have hnes : ¬ (id ∈ es ∧ confirmed C idFilter t₀ id = true) := fun h =>
          hn ⟨List.mem_cons_of_mem e h.1, h.2⟩
        rw [hrest.silent id hnes]
        by_cases hg : getsThrough C s.tree e = true
        · obtain ⟨v, -, hlast⟩ := hstep.reported hg
          have hne : id ≠ e := fun h => hn ⟨h ▸ List.mem_cons_self, by rw [h, hconf, hg]⟩
          rw [hlast]
          exact Function.update_of_ne hne ..
        · rw [hstep.silent (Bool.not_eq_true _ ▸ hg)]
    · have hnone : chosen idFilter e = true → (t₀ e).hello = none := fun hch =>
        hte hch ▸ not_not.mp fun hh => hrun ⟨hch, hh⟩
      have hlost : lost C idFilter t₀ e = false := by
        unfold lost
        by_cases hch : chosen idFilter e = true
        · rw [hnone hch, hch]
          rfl
        · rw [Bool.not_eq_true] at hch
          rw [hch]
          rfl
      have hconf : confirmed C idFilter t₀ e = false := by
        unfold confirmed getsThrough
        by_cases hch : chosen idFilter e = true
        · rw [hnone hch, hch]
          rfl
        · rw [Bool.not_eq_true] at hch
          rw [hch]
          rfl
      have hrest := ih s hsame ht
      rw [verifyLoop_skip fl env idFilter es hrun]
      refine ⟨?_, hrest.frame, hrest.truthful, fun id hid hc => ?_, fun id hn => ?_⟩
      · rw [List.filter_cons_of_neg (by rw [hlost]; decide)]
        exact hrest.failures
      · refine hrest.reported id ((List.mem_cons.mp hid).resolve_left fun h => ?_) hc
        rw [h, hconf] at hc
        cases hc
      · exact hrest.silent id fun h => hn ⟨List.mem_cons_of_mem e h.1, h.2⟩

end

/-- **Verification of a truthful lab**: a run of the loop fails once for each profile whose replay does
not get through, and for no other reason; of the profiles it changes the report of those that get
through, which confirms the JA4 of the hello; and what it leaves under `verify-` is truthful, too. -/
theorem verify_truthful {fl : Flags} {sent : Bytes → Prop} {lab lab' : LabRoot} {as : List Action}
    (hrun : exec step lab as = some lab') (hq : Along step (Quiet fl sent) lab as)
    (h : LabTruthful sent lab) (hw : WordNamed lab) {C : Client} (hC : Faithful C sent)
    (fl' : Flags) (env : Bytes → Conn) (idFilter : Bytes) (names : List Bytes)
    (last : Bytes → Option Verdict) :
    let out := verifyLoop C fl' env idFilter names ⟨lab'.profiles, last⟩
    out.2 = (names.filter (lost C idFilter lab'.profiles)).length ∧
    (∀ id, isVerify id = false → out.1.tree id = lab'.profiles id) ∧
    (∀ id ∈ names, confirmed C idFilter lab'.profiles id = true →
      ∃ v, Confirms v lab'.profiles id ∧ out.1.last id = some v) ∧
    (∀ id, ¬ (id ∈ names ∧ confirmed C idFilter lab'.profiles id = true) →
      out.1.last id = last id) ∧
    ∀ id, Truthful (Echoed C sent) id (out.1.tree id) := by
  have htruth : LabTruthful sent lab' :=
    exec_inv step (Quiet fl sent) (LabTruthful sent) truthful_step hq hrun h
  have hword : WordNamed lab' := exec_inv step (Quiet fl sent) WordNamed wordNamed_step hq hrun hw
  have hloop := verifyLoop_spec hC fl' env idFilter htruth hword names ⟨lab'.profiles, last⟩
    (fun _ _ => rfl) fun id => (htruth id).mono fun _ => .inl
  exact ⟨hloop.failures, hloop.frame, hloop.reported, hloop.silent, hloop.truthful⟩

/-! ## the catalog of the lab -/

/-- a row of `lab-profiles.json` -/
structure LabRow where
  id : Bytes
  ja4 : Bytes
  format : Bytes
  deriving DecidableEq, Repr

/-- the rows of `labctl catalog`; `entries` are the directories by name -/
def labProfiles (profiles : Tree) (entries : List Bytes) : List LabRow :=
  entries.filterMap fun e =>
    if isVerify e then none
    else (Doc.read? (profiles e).profile).map fun p => { id := e, ja4 := p.ja4, format := p.format }

theorem mem_labProfiles {profiles : Tree} {entries : List Bytes} {r : LabRow} :
    r ∈ labProfiles profiles entries ↔ r.id ∈ entries ∧ isVerify r.id = false ∧
      ∃ p, (profiles r.id).profile = some (.good p) ∧ r.ja4 = p.ja4 ∧ r.format = p.format := by
  unfold labProfiles
  rw [List.mem_filterMap]
  constructor
  · rintro ⟨e, he, hr⟩
    split at hr
    · cases hr
    · rename_i hv
      rcases hp : (profiles e).profile with _ | raw | p
      · rw [hp] at hr
        cases hr
      · rw [hp] at hr
        cases hr
      · rw [hp] at hr
        rw [← Option.some.inj hr]
        exact ⟨he, Bool.eq_false_iff.mpr hv, p, hp, rfl, rfl⟩
  · rintro ⟨he, hv, p, hp, hj, hf⟩
    refine ⟨r.id, he, ?_⟩
    rw [hv, hp]
    show some (LabRow.mk r.id p.ja4 p.format) = some r
    rw [← hj, ← hf]

/-- only the directories that are not `verify-` matter, -/
theorem labProfiles_congr {profiles profiles' : Tree}
    (h : ∀ id, isVerify id = false → profiles' id = profiles id) {entries entries' : List Bytes}
    (he : entries'.filter (fun e => !isVerify e) = entries.filter fun e => !isVerify e) :
    labProfiles profiles' entries' = labProfiles profiles entries := by
  have hfilter : ∀ (t : Tree) (es : List Bytes),
      labProfiles t es = labProfiles t (es.filter fun e => !isVerify e) := by
    intro t es
    unfold labProfiles
    rw [List.filterMap_filter]
    refine List.filterMap_congr fun e _ => ?_
    cases isVerify e <;> rfl
  rw [hfilter profiles', he, hfilter profiles]
  unfold labProfiles
  refine List.filterMap_congr fun e hmem => ?_
  have hv : isVerify e = false := by
    have hkeep := (List.mem_filter.mp hmem).2
    rw [Bool.not_eq_true'] at hkeep
    exact hkeep
  rw [h e hv]

theorem collect_congr {profiles profiles' : Tree} {targets : List Target}
    (h : ∀ t ∈ targets, profiles' t.id = profiles t.id) :
    collect profiles' targets = collect profiles targets := by
  induction targets with
  | nil => rfl
  | cons t ts ih =>
    have hmember : member profiles' t = member profiles t := by
      unfold member
      rw [h t List.mem_cons_self]
    rw [collect, collect, hmember, ih fun u hu => h u (List.mem_cons_of_mem t hu)]

theorem copyProfiles_congr {profiles profiles' : Tree} (dist : Dist) {ps : List ExportProfile}
    (h : ∀ p ∈ ps, profiles' p.labID = profiles p.labID) :
    copyProfiles profiles' dist ps = copyProfiles profiles dist ps := by
  induction ps generalizing dist with
  | nil => rfl
  | cons p ps ih =>
    have hcopy : copyProfile profiles' dist p = copyProfile profiles dist p := by
      unfold copyProfile
      rw [h p List.mem_cons_self]
    rw [copyProfiles, copyProfiles, hcopy]
    exact bind_congr fun d => ih d fun q hq => h q (List.mem_cons_of_mem p hq)

/-- and for an export those of the targets. -/
theorem runExport_congr (ord : MapOrders) {profiles profiles' : Tree} {targets : List Target}
    (h : ∀ t ∈ targets, profiles' t.id = profiles t.id) (chk : Bool) (dist : Dist) :
    runExport ord profiles' targets chk dist = runExport ord profiles targets chk dist := by
  unfold runExport
  rw [readTree_noFaults, readTree_noFaults, collect_congr h]
  cases hc : collect profiles targets with
  | error e => rfl
  | ok ms =>
    obtain ⟨-, rfl⟩ := (collect_ok_iff _ _ _).mp hc
    have hentries : ∀ p ∈ (nameMembers ord (membersOf profiles targets)).profiles,
        profiles' p.labID = profiles p.labID := by
      intro p hp
      obtain ⟨c, hcan, rfl⟩ := entry_canonical ord (membersOf_coherent profiles targets) hp
      obtain ⟨t, ht, -, rfl⟩ := mem_membersOf.mp hcan.mem
      show profiles' (member profiles t).t.id = profiles (member profiles t).t.id
      rw [member_t]
      exact h t ht
    dsimp only
    unfold writeExport
    rw [copyProfiles_congr {} hentries]

/-- **The two catalogs agree** on a truthful lab: an entry of the export is a row of `labctl catalog`,
the row of an eligible target is exported, each with the same JA4 and format; and a verification
between the two commands, whatever comes of it, changes neither. -/
theorem catalogs_agree {fl : Flags} {sent : Bytes → Prop} {lab lab' : LabRoot} {as : List Action}
    (hrun : exec step lab as = some lab') (hq : Along step (Quiet fl sent) lab as)
    (h : LabTruthful sent lab) (hw : WordNamed lab) {entries : List Bytes}
    (hentries : ∀ id, (lab'.profiles id).hello ≠ none → id ∈ entries) (ord : MapOrders)
    {targets : List Target} (hids : (targets.map Target.id).Nodup)
    (hverify : ∀ t ∈ targets, isVerify t.id = false) {chk : Bool} {dist out : Dist}
    (hx : runExport ord lab'.profiles targets chk dist = .ok out) :
    ∃ cat, out.catalog = some cat ∧
      (∀ e ∈ cat.profiles, ⟨e.labID, e.ja4, e.format⟩ ∈ labProfiles lab'.profiles entries) ∧
      (∀ t ∈ targets, Eligible lab'.profiles t → ∀ r ∈ labProfiles lab'.profiles entries,
        r.id = t.id → ∃ e ∈ cat.profiles, e.family = t.family ∧ e.ja4 = r.ja4 ∧ e.format = r.format) ∧
      ∀ C, Faithful C sent → ∀ fl' env idFilter names last entries',
        entries'.filter (fun e => !isVerify e) = entries.filter (fun e => !isVerify e) →
        let t := (verifyLoop C fl' env idFilter names ⟨lab'.profiles, last⟩).1.tree
        labProfiles t entries' = labProfiles lab'.profiles entries ∧
          runExport ord t targets chk dist = .ok out := by
  have htruth : LabTruthful sent lab' :=
    exec_inv step (Quiet fl sent) (LabTruthful sent) truthful_step hq hrun h
  have hword : WordNamed lab' := exec_inv step (Quiet fl sent) WordNamed wordNamed_step hq hrun hw
  have hl : Lossless lab'.profiles targets _ := naming_lossless ord hids
  refine ⟨_, runExport_catalog hx, fun e he => ?_, fun t ht hel r hr hid => ?_,
    fun C hC fl' env idFilter names last entries' hlist => ?_⟩
  · obtain ⟨hello, m, p, -, hwhole, hja4, hformat⟩ := entry_whole ord htruth he
    obtain ⟨t, ht, -, hid, -⟩ := hl.best e he
    refine mem_labProfiles.mpr ⟨hentries e.labID ?_, hid ▸ hverify t ht, p, hwhole.profile, ?_, ?_⟩
    · rw [hwhole.bytes]
      exact Option.some_ne_none hello
    · exact hja4.trans hwhole.described.ja4.symm
    · exact hformat.trans hwhole.described.format.symm
  · obtain ⟨-, -, p, hp, hja4, hformat⟩ := mem_labProfiles.mp hr
    obtain ⟨hello, m, p', -, hwhole⟩ := (htruth t.id).of_hello hel.2.2.1
    rw [hid, hwhole.profile] at hp
    have hpp : p' = p := Doc.good.inj (Option.some.inj hp)
    subst hpp
    obtain ⟨e, ⟨he, hfam, hej⟩, -⟩ := hl.complete t ht hel
    obtain ⟨hello', m', q, -, -, -, hef⟩ := entry_whole ord htruth he
    refine ⟨e, he, hfam, ?_, ?_⟩
    · rw [hej, hja4, hwhole.described.ja4]
      exact (member_whole hwhole).1
    · rw [hef, hformat, hwhole.described.format]
  · have hloop := verifyLoop_spec hC fl' env idFilter htruth hword names ⟨lab'.profiles, last⟩
      (fun _ _ => rfl) fun id => (htruth id).mono fun _ => .inl
    refine ⟨labProfiles_congr hloop.frame hlist, ?_⟩
    rw [runExport_congr ord (fun t ht => hloop.frame t.id (hverify t ht)), hx]

/-! ## clients that use an export -/

/-- the hellos that the library draws from the profiles of an export -/
def Drawn (C : Client) (cat : Catalog) (out : Dist) (r : Bytes) : Prop :=
  ∃ e ∈ cat.profiles, ∃ hello sni, (out.profiles e.shortName).hello = some hello ∧
    C.send hello sni = some r

section
variable {C : Client} {sent : Bytes → Prop} {cat : Catalog} {out : Dist}

/-- what is recorded of a replay is what is recorded of the hello -/
theorem replay_ja4 {a r sni : Bytes} (h : Replays a r sni) : recordedJA4 r = recordedJA4 a := by
  obtain ⟨m, hm, -, hja4⟩ := h.analyzed
  exact (Capture.recordedJA4_ok hm).trans hja4

/-- the promotion of a replay to the name of a word -/
theorem replay_promoted {a r x : Bytes} (h : Replays a r (x ++ Capture.sniSuffix)) (hx : Word x)
    (hne : x ≠ []) (hunk : x ≠ str "unknown") (fl : Flags) {c : Conn} (hc : c.rawHello = r) :
    ∃ p, Capture.handle fl c = some p ∧ p.id = x ∧ p.hello = r ∧
      p.profile.ja4 = recordedJA4 a := by
  obtain ⟨p, hp, hid⟩ := h.routed hx hne hunk fl hc
  obtain ⟨hhello, -, hja4⟩ := Capture.handle_faithful hp
  rw [hhello, hc] at hja4
  exact ⟨p, hp, hid, hhello.trans hc, hja4.trans (replay_ja4 h)⟩

/-- Each of them has the JA4 of the entry that it is drawn from. -/
theorem drawn_ja4 (hC : Faithful C sent)
    (hentry : ∀ e ∈ cat.profiles, ∃ hello, (out.profiles e.shortName).hello = some hello ∧
      sent hello ∧ e.ja4 = recordedJA4 hello) {r : Bytes} (hr : Drawn C cat out r) :
    ∃ e ∈ cat.profiles, recordedJA4 r = e.ja4 := by
  obtain ⟨e, he, hello, sni, hh, hsend⟩ := hr
  obtain ⟨hello', hh', hsent, hja4⟩ := hentry e he
  have hsame : hello' = hello := Option.some.inj (hh'.symm.trans hh)
  subst hsame
  exact ⟨e, he, (replay_ja4 (hC hello' sni r hsent hsend)).trans hja4.symm⟩

end

/-- **The second generation**: a lab is exported, and a library that replays hellos imports the
profiles.  What it sends for an entry to the name of a word is promoted under the word, with the JA4 of
the entry; and in a lab of such clients, whatever its run, each capture and each entry of an export has
a JA4 of the first catalog. -/
theorem second_generation {fl : Flags} {sent : Bytes → Prop} {lab lab' : LabRoot} {as : List Action}
    (hrun : exec step lab as = some lab') (hq : Along step (Quiet fl sent) lab as)
    (h : LabTruthful sent lab) (ord : MapOrders) {targets : List Target}
    (hfam : FamiliesApart lab'.profiles targets) {chk : Bool} {dist out : Dist}
    (hx : runExport ord lab'.profiles targets chk dist = .ok out) {C : Client}
    (hC : Faithful C sent) :
    ∃ cat, out.catalog = some cat ∧
      (∀ e ∈ cat.profiles, ∃ hello, (out.profiles e.shortName).hello = some hello ∧
        ∀ x r, Word x → x ≠ [] → x ≠ str "unknown" →
          C.send hello (x ++ Capture.sniSuffix) = some r → ∀ fl' c, c.rawHello = r →
          ∃ p, Capture.handle fl' c = some p ∧ p.id = x ∧ p.hello = r ∧ p.profile.ja4 = e.ja4) ∧
      ∀ fl' lab₂ lab₂' bs, exec step lab₂ bs = some lab₂' →
        Along step (Quiet fl' (Drawn C cat out)) lab₂ bs → LabTruthful (Drawn C cat out) lab₂ →
        (∀ id, (lab₂'.profiles id).hello ≠ none → ∃ e ∈ cat.profiles, ∃ p,
          (lab₂'.profiles id).profile = some (.good p) ∧ p.ja4 = e.ja4) ∧
        ∀ ord' targets' chk' dist' out',
          runExport ord' lab₂'.profiles targets' chk' dist' = .ok out' →
          ∃ cat', out'.catalog = some cat' ∧
            ∀ e' ∈ cat'.profiles, ∃ e ∈ cat.profiles, e'.ja4 = e.ja4 := by
  have htruth : LabTruthful sent lab' :=
    exec_inv step (Quiet fl sent) (LabTruthful sent) truthful_step hq hrun h
  have hentry : ∀ e ∈ (catalogOf ord (naming ord lab'.profiles targets)).profiles,
      ∃ hello, (out.profiles e.shortName).hello = some hello ∧ sent hello ∧
        e.ja4 = recordedJA4 hello := by
    intro e he
    obtain ⟨hello, m, p, hsent, hwhole, hja4, -⟩ := exported_whole ord htruth hfam hx e he
    exact ⟨hello, hwhole.bytes, hsent, hja4⟩
  refine ⟨_, runExport_catalog hx, fun e he => ?_, fun fl' lab₂ lab₂' bs hrun₂ hq₂ h₂ => ?_⟩
  · obtain ⟨hello, hh, hsent, hja4⟩ := hentry e he
    refine ⟨hello, hh, fun x r hx hne hunk hsend fl' c hc => ?_⟩
    have hrep := hC hello _ r hsent hsend
    obtain ⟨p, hp, hid, hhello, hpja4⟩ := replay_promoted hrep hx hne hunk fl' hc
    exact ⟨p, hp, hid, hhello, hpja4.trans hja4.symm⟩
  · have htruth₂ : LabTruthful (Drawn C _ out) lab₂' :=
      exec_inv step (Quiet fl' _) (LabTruthful _) truthful_step hq₂ hrun₂ h₂
    refine ⟨fun id hh => ?_, fun ord' targets' chk' dist' out' hx' => ?_⟩
    · obtain ⟨hello, m, p, hdrawn, hwhole⟩ := (htruth₂ id).of_hello hh
      obtain ⟨e, he, hja4⟩ := drawn_ja4 hC hentry hdrawn
      exact ⟨e, he, p, hwhole.profile, hwhole.described.ja4.trans hja4⟩
    · refine ⟨_, runExport_catalog hx', fun e' he' => ?_⟩
      obtain ⟨hello, m, p, hdrawn, -, hja4', -⟩ := entry_whole ord' htruth₂ he'
      obtain ⟨e, he, hja4⟩ := drawn_ja4 hC hentry hdrawn
      exact ⟨e, he, hja4'.trans hja4⟩

/-! ## a client that changes the name only -/

/-- the hello of a connection to that name -/
def namedClient (host : Bytes) (hs : host.length < 900) : Capture.ClientHello :=
  Capture.oneExtension (.serverName host) trivial (by
    simp [Capture.Extension.data]
    omega)

theorem namedClient_replayed {host host' : Bytes} (hs : host.length < 900)
    (hs' : host'.length < 900) (hne : host ≠ []) (hne' : host' ≠ []) :
    Capture.Replayed (namedClient host hs) (namedClient host' hs') :=
  Capture.Varied.replayed ⟨rfl, rfl, _, .cons (.serverName host host' hne hne') .nil, .refl _⟩
    (List.nodup_singleton _)

/-- it sends the hello of `firstBrave` to any other name that is not too long -/
def renamed : Client where
  send a sni :=
    if h : a = firstBrave.rawHello ∧ sni ≠ [] ∧ sni.length < 900 then
      some ((namedClient sni h.2.2).record 0x0301 [])
    else none
  completes _ := true

theorem renamed_send {sni : Bytes} (hne : sni ≠ []) (hs : sni.length < 900) :
    renamed.send firstBrave.rawHello sni = some ((namedClient sni hs).record 0x0301 []) := by
  unfold renamed
  dsimp only
  rw [dif_pos ⟨rfl, hne, hs⟩]

def firstSent (b : Bytes) : Prop := b = firstBrave.rawHello

theorem renamed_faithful : Faithful renamed firstSent := by
  intro a sni r ha hr
  unfold renamed at hr
  dsimp only at hr
  split at hr
  · rename_i hcond
    have hlen : (str "brave.fp.lab.local").length < 900 := by decide
    exact ⟨namedClient (str "brave.fp.lab.local") hlen, namedClient sni hcond.2.2, 0x0301, 0x0301,
      [], [], ha, (Option.some.inj hr).symm,
      namedClient_replayed hlen hcond.2.2 (by decide) hcond.2.1, List.nodup_singleton _, rfl⟩
  · cases hr

theorem firstRun_quiet : Along step (Quiet Capture.defaultFlags firstSent) emptyLab [againFirst] :=
  ⟨quietly_promoted _ rfl, trivial⟩

theorem emptyLab_wordNamed : WordNamed emptyLab := fun id h => absurd rfl h

theorem firstRun_exec : exec step emptyLab [againFirst] = some braveLab := rfl

/-- the profile of `brave` passes and stays as it is, but for its report -/
theorem verify_truthful_brave :
    let out := verifyLoop renamed Capture.defaultFlags (fun _ => firstBrave) []
      [str "brave", str "verify-old"] ⟨braveLab.profiles, fun _ => none⟩
    out.2 = 0 ∧ out.1.tree (str "brave") = braveLab.profiles (str "brave") ∧
      ∃ v, out.1.last (str "brave") = some v ∧ v.ja4Match = true := by
  obtain ⟨hcount, hframe, hreport, -⟩ := verify_truthful firstRun_exec firstRun_quiet
    (emptyLab_truthful firstSent) emptyLab_wordNamed renamed_faithful Capture.defaultFlags
    (fun _ => firstBrave) [] [str "brave", str "verify-old"] fun _ => none
  refine ⟨hcount.trans ?_, hframe (str "brave") (by decide), ?_⟩
  · decide +kernel
  · obtain ⟨v, hv, hlast⟩ := hreport (str "brave") List.mem_cons_self (by decide +kernel)
    exact ⟨v, hlast, hv.ja4Match⟩

/-- the only directory with a hello -/
theorem braveLab_listed (id : Bytes) (hh : (braveLab.profiles id).hello ≠ none) :
    id ∈ [str "brave"] := by
  by_contra hid
  rw [List.mem_singleton] at hid
  have hws : ∀ w ∈ promoted firstBrave, w.id = brave.id := by decide +kernel
  have hbefore : braveLab.profiles id = {} := first_capture_of_ne rfl hws hid _
  rw [hbefore] at hh
  exact hh rfl

theorem catalogs_agree_brave : ∃ out cat,
    runExport .sorted braveLab.profiles [brave] true {} = .ok out ∧ out.catalog = some cat ∧
    cat.profiles ≠ [] ∧
    (∀ e ∈ cat.profiles, ⟨e.labID, e.ja4, e.format⟩ ∈ labProfiles braveLab.profiles [str "brave"]) ∧
    runExport .sorted (verifyLoop renamed Capture.defaultFlags (fun _ => firstBrave) []
      [str "brave"] ⟨braveLab.profiles, fun _ => none⟩).1.tree [brave] true {} = .ok out := by
  obtain ⟨out, hx⟩ : ∃ out, runExport .sorted braveLab.profiles [brave] true {} = .ok out :=
    exists_export (by decide +kernel)
  obtain ⟨cat, hcat, hrows, hexported, hverify⟩ := catalogs_agree firstRun_exec firstRun_quiet
    (emptyLab_truthful firstSent) emptyLab_wordNamed braveLab_listed .sorted (by decide)
    (by decide) hx
  have hrow : ∃ r ∈ labProfiles braveLab.profiles [str "brave"], r.id = brave.id := by
    decide +kernel
  obtain ⟨r, hr, hid⟩ := hrow
  obtain ⟨e, he, -⟩ := hexported brave (List.mem_singleton_self _) (by decide +kernel) r hr hid
  exact ⟨out, cat, hx, hcat, List.ne_nil_of_mem he, hrows,
    (hverify renamed renamed_faithful _ _ _ _ _ _ rfl).2⟩

/-- that client, with the exported profile of `brave`, comes for another target -/
def copied : Capture.Conn :=
  { rawHello := (namedClient (str "copy" ++ Capture.sniSuffix) (by decide)).record 0x0301 [] }

/-- a lab of that client alone -/
def copyLab : LabRoot := served emptyLab (promoted copied)

theorem second_generation_brave : ∃ out cat e p,
    runExport .sorted braveLab.profiles [brave] true {} = .ok out ∧ out.catalog = some cat ∧
    e ∈ cat.profiles ∧ Capture.handle Capture.defaultFlags copied = some p ∧ p.id = str "copy" ∧
    p.profile.ja4 = e.ja4 ∧ ∃ e' ∈ cat.profiles, ∃ p',
      (copyLab.profiles (str "copy")).profile = some (.good p') ∧ p'.ja4 = e'.ja4 := by
  obtain ⟨out, hx⟩ : ∃ out, runExport .sorted braveLab.profiles [brave] true {} = .ok out :=
    exists_export (by decide +kernel)
  obtain ⟨cat, hcat, hsends, hlab⟩ := second_generation firstRun_exec firstRun_quiet
    (emptyLab_truthful firstSent) .sorted (.of_one brave_isName (by decide)) hx renamed_faithful
  have hl : Lossless braveLab.profiles [brave] (catalogOf .sorted _) :=
    naming_lossless .sorted (by decide)
  obtain ⟨e, ⟨hnamed, -⟩, -⟩ := hl.complete brave (List.mem_singleton_self _) (by decide +kernel)
  have he : e ∈ cat.profiles := by
    rw [runExport_catalog hx] at hcat
    rw [← Option.some.inj hcat]
    exact hnamed
  -- the entry holds the one hello that was sent
  obtain ⟨hello, hh, hpromoted⟩ := hsends e he
  obtain ⟨hello', m, p', hsent, hwhole, -⟩ := exported_whole .sorted
    (exec_inv step _ _ truthful_step firstRun_quiet firstRun_exec (emptyLab_truthful firstSent))
    (.of_one brave_isName (by decide)) hx e hnamed
  have hfirst : hello = firstBrave.rawHello := by
    rw [← hsent]
    exact Option.some.inj (hh.symm.trans hwhole.bytes)
  rw [hfirst] at hh hpromoted
  obtain ⟨p, hp, hid, -, hja4⟩ := hpromoted (str "copy") copied.rawHello (by decide) (by decide)
    (by decide) (renamed_send (by decide) (by decide)) Capture.defaultFlags copied rfl
  have hdrawn : Drawn renamed cat out copied.rawHello :=
    ⟨e, he, _, _, hh, renamed_send (by decide) (by decide)⟩
  refine ⟨out, cat, e, p, hx, hcat, he, hp, hid, hja4, ?_⟩
  exact (hlab Capture.defaultFlags emptyLab copyLab [.direct (promoted copied)] rfl
    ⟨quietly_promoted _ hdrawn, trivial⟩ (emptyLab_truthful _)).1 (str "copy") (by decide +kernel)

end Labctl
