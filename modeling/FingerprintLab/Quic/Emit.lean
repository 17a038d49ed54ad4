import FingerprintLab.Quic.Recognize
import FingerprintLab.Quic.Templates

/-!
# Emission

`fromprofile` dials with the engine flags of a profile, the capture server gathers what the stack
sends, and the draft of that capture is a profile again.

* `ProfileDoc`, `fromprofile`   the emitter: what it dials with, or why it does not;
* `fromprofile_ready`    a draft is dialled exactly if the export offers it for that;
* `Shows`                a stack shows the flags on the wire;
* `inferred_again`       its capture is inferred to be what was dialled;
* `emission_stable`      so the cycle of capture, draft and emission is stable from its first turn.
-/

set_option linter.unusedVariables false

namespace Quic
open Go Py Runs

/-! ## the emitter -/

structure EngineFlags where
  chromeParrot : Bool
  enableDatagrams : Bool
  zeroLengthSCID : Bool
  deriving DecidableEq, Repr

/-- `profileDoc`; `json.Unmarshal` leaves the zero value where a member is missing or `null` -/
structure ProfileDoc where
  format : Bytes
  short : Bytes
  status : Bytes
  emitKind : Bytes
  engine : Option EngineFlags
  authCapable : Bool
  authChannel : Bytes
  requiresDemuxFingerprint : Bool
  deriving DecidableEq, Repr

def unmarshal (d : CuratedDoc) : ProfileDoc :=
  let emit := d.emit.get.getD {}
  let auth := d.auth.get.getD {}
  { format := d.format.get.getD []
    short := d.short
    status := d.status
    emitKind := emit.emitKind.get.getD []
    engine := emit.engine.get.map fun e =>
      { chromeParrot := e.chromeParrot.get.getD false
        enableDatagrams := e.enableDatagrams.get.getD false
        zeroLengthSCID := e.zeroLengthSCID.get.getD false }
    authCapable := auth.capable.get.getD false
    authChannel := auth.channel.get.getD []
    requiresDemuxFingerprint := auth.requiresDemuxFingerprint.get.getD false }

/-- what stops the emitter before it dials, with the values of the message -/
inductive Refusal where
  /-- `unexpected format` -/
  | format (format : Bytes)
  /-- `refuse dial` -/
  | dial (short status emitKind : Bytes)
  /-- `engine path only today` -/
  | notWired (emitKind : Bytes)
  /-- `profile missing emit.engine` -/
  | noEngine
  deriving DecidableEq, Repr

def Refusal.exit : Refusal → Nat
  | .format _ => 2
  | .dial .. => 3
  | .notWired _ => 4
  | .noEngine => 2

/-- the transport and the configuration of `tr.Dial` -/
structure Dial where
  zeroLengthIDs : Bool
  serverName : Bytes
  chromeParrot : Bool
  enableDatagrams : Bool
  deriving DecidableEq, Repr

/-- what is dialled, and the line that is printed after it -/
structure Emission where
  dial : Dial
  short : Bytes
  emitKind : Bytes
  engine : EngineFlags
  authCapable : Bool
  authChannel : Bytes
  requiresDemuxFingerprint : Bool
  deriving DecidableEq, Repr

def fromprofile (sni : Bytes) (doc : ProfileDoc) : Except Refusal Emission :=
  if doc.format ≠ str "quic-utls-profile-v1" then .error (.format doc.format)
  else if doc.status = str "observation_only" ∨ doc.emitKind = str "match_only" then
    .error (.dial doc.short doc.status doc.emitKind)
  else if doc.emitKind = str "uquic_preset" ∨ doc.emitKind = str "structured" then
    .error (.notWired doc.emitKind)
  else
    match doc.engine with
    | none => .error .noEngine
    | some eng =>
      .ok
        { dial :=
            { zeroLengthIDs := eng.zeroLengthSCID || eng.chromeParrot
              serverName := sni
              chromeParrot := eng.chromeParrot
              enableDatagrams := eng.enableDatagrams }
          short := doc.short
          emitKind := doc.emitKind
          engine := eng
          authCapable := doc.authCapable
          authChannel := doc.authChannel
          requiresDemuxFingerprint := doc.requiresDemuxFingerprint }

/-! ## drafts -/

/-- the marks of the two engines agree, so one of them can send this -/
def Emittable (ids : List UInt64) : Prop := (0x11 : UInt64) ∈ ids ↔ (0x3128 : UInt64) ∈ ids

/-- what a draft of these parameters is dialled with -/
def draftDial (sni : Bytes) (ids : List UInt64) : Dial where
  zeroLengthIDs := decide ((0x11 : UInt64) ∈ ids)
  serverName := sni
  chromeParrot := decide ((0x11 : UInt64) ∈ ids)
  enableDatagrams := decide ((0x11 : UInt64) ∈ ids) || decide ((0x20 : UInt64) ∈ ids)

section
variable {obs : Observation} {s : Nat} {ids : List UInt64}

theorem Observed.mark (h : Observed obs s ids) (m : Marker) :
    obs.markers m = decide (m.number ∈ ids) := by
  rw [h.markers]

/-- the two engines -/
def engineKinds : List Bytes := [str "sagernet_chrome_parrot", str "sagernet_plain"]

theorem inferred_ready (h : Observed obs s ids) (he : Emittable ids) :
    (infer_emit obs).status = str "emit_ready" ∧ (infer_emit obs).emitKind ∈ engineKinds ∧
    (infer_emit obs).engine = some (engineOf (decide ((0x11 : UInt64) ∈ ids))
      (decide ((0x11 : UInt64) ∈ ids) || decide ((0x20 : UInt64) ∈ ids))
      (decide ((0x11 : UInt64) ∈ ids))) := by
  have h11 : obs.markers .x11 = decide ((0x11 : UInt64) ∈ ids) := h.mark .x11
  have h3128 : obs.markers .x3128 = decide ((0x11 : UInt64) ∈ ids) :=
    (h.mark .x3128).trans (decide_eq_decide.mpr he.symm)
  have h20 : obs.markers .x20 = decide ((0x20 : UInt64) ∈ ids) := h.mark .x20
  unfold infer_emit engineKinds
  simp only [h11, h3128, h20]
  by_cases ha : (0x11 : UInt64) ∈ ids <;> by_cases hc : (0x20 : UInt64) ∈ ids <;> simp [ha, hc]

theorem inferred_observed (h : Observed obs s ids) (he : ¬ Emittable ids) :
    (infer_emit obs).status = str "observation_only" ∧
    (infer_emit obs).emitKind = str "match_only" := by
  have h11 : obs.markers .x11 = decide ((0x11 : UInt64) ∈ ids) := h.mark .x11
  have h3128 : obs.markers .x3128 = !decide ((0x11 : UInt64) ∈ ids) := by
    rw [h.mark .x3128, ← decide_not]
    refine decide_eq_decide.mpr ?_
    show (0x3128 : UInt64) ∈ ids ↔ _
    unfold Emittable at he
    tauto
  unfold infer_emit
  simp only [h11, h3128]
  by_cases ha : (0x11 : UInt64) ∈ ids <;> simp [ha]

/-- A draft is dialled exactly if the export offers it for that, -/
theorem fromprofile_ready (h : Observed obs s ids) (he : Emittable ids) (sni : Bytes) :
    is_dialable (build_draft obs).toCuratedDoc = true ∧
    ∃ e, fromprofile sni (unmarshal (build_draft obs).toCuratedDoc) = .ok e ∧
      e.dial = draftDial sni ids := by
  obtain ⟨hstatus, hkind, hengine⟩ := inferred_ready h he
  have hkinds : ∀ k ∈ engineKinds, k ≠ str "match_only" ∧ k ≠ str "uquic_preset" ∧
      k ≠ str "structured" := by decide
  obtain ⟨hmatch, hpreset, hstructured⟩ := hkinds _ hkind
  have hready : str "emit_ready" ≠ str "observation_only" := by decide
  unfold is_dialable fromprofile unmarshal build_draft
  simp [hstatus, hready, hmatch, hpreset, hstructured, hengine, engineOf, draftDial, PROFILE_FORMAT]

/-- and refused if it is for matching only. -/
theorem fromprofile_observed (h : Observed obs s ids) (he : ¬ Emittable ids) (sni : Bytes) :
    is_dialable (build_draft obs).toCuratedDoc = false ∧
    ∃ r, fromprofile sni (unmarshal (build_draft obs).toCuratedDoc) = .error r ∧ r.exit = 3 := by
  obtain ⟨hstatus, hkind⟩ := inferred_observed h he
  unfold is_dialable fromprofile unmarshal build_draft
  simp [hstatus, hkind, PROFILE_FORMAT, Refusal.exit]

end

/-! ## the stack -/

/-- The gathered packets show what was dialled: Chrome's engine sends `0x11` and `0x3128`, datagrams
are announced by `0x20`, and an empty source id has no length. -/
structure Shows (d : Dial) (g : Gathered) : Prop where
  named : ∃ ch, g.clientHello = some ch ∧ ch.serverName = d.serverName
  sends : ∃ s ids, Sends g s ids ∧ (d.zeroLengthIDs = true → s = 0) ∧
    ((0x11 : UInt64) ∈ ids ↔ d.chromeParrot = true) ∧
    ((0x3128 : UInt64) ∈ ids ↔ d.chromeParrot = true) ∧
    (d.enableDatagrams = true → (0x20 : UInt64) ∈ ids) ∧
    ((0x20 : UInt64) ∈ ids → d.enableDatagrams = true ∨ d.chromeParrot = true)

/-- the marks of what is sent again, for the parameters that were drafted -/
structure Again (ids ids' : List UInt64) : Prop where
  parrot : (0x11 : UInt64) ∈ ids' ↔ (0x11 : UInt64) ∈ ids
  parrot' : (0x3128 : UInt64) ∈ ids' ↔ (0x11 : UInt64) ∈ ids
  datagrams : (0x20 : UInt64) ∈ ids → (0x20 : UInt64) ∈ ids'
  plain : (0x11 : UInt64) ∉ ids → (0x20 : UInt64) ∈ ids' → (0x20 : UInt64) ∈ ids

theorem Shows.again {sni : Bytes} {ids : List UInt64} {g : Gathered}
    (h : Shows (draftDial sni ids) g) : ∃ s' ids', Sends g s' ids' ∧ Again ids ids' ∧
      ((0x11 : UInt64) ∈ ids → s' = 0) := by
  obtain ⟨s', ids', hs, hzero, h11, h3128, hdg, hdg'⟩ := h.sends
  simp only [draftDial, decide_eq_true_eq, Bool.or_eq_true] at hzero h11 h3128 hdg hdg'
  refine ⟨s', ids', hs, ⟨h11, h3128, fun h => hdg (.inr h), fun hno h => ?_⟩, hzero⟩
  have hflag := hdg' h
  tauto

section
variable {obs obs' : Observation} {s s' : Nat} {ids ids' : List UInt64}

theorem Again.emittable (ha : Again ids ids') : Emittable ids' := ha.parrot.trans ha.parrot'.symm

/-- It is dialled the same way, -/
theorem Again.dial (ha : Again ids ids') (sni : Bytes) : draftDial sni ids' = draftDial sni ids := by
  unfold draftDial
  rw [decide_eq_decide.mpr ha.parrot]
  by_cases hin : (0x11 : UInt64) ∈ ids
  · simp [hin]
  · rw [decide_eq_decide.mpr ⟨ha.plain hin, ha.datagrams⟩]

/-- inferred to be what was dialled, -/
theorem inferred_again (h : Observed obs s ids) (h' : Observed obs' s' ids') (he : Emittable ids)
    (ha : Again ids ids') : infer_emit obs' = infer_emit obs := by
  have h11 : obs.markers .x11 = decide ((0x11 : UInt64) ∈ ids) := h.mark .x11
  have h3128 : obs.markers .x3128 = decide ((0x11 : UInt64) ∈ ids) :=
    (h.mark .x3128).trans (decide_eq_decide.mpr he.symm)
  have h20 : obs.markers .x20 = decide ((0x20 : UInt64) ∈ ids) := h.mark .x20
  have h11' : obs'.markers .x11 = decide ((0x11 : UInt64) ∈ ids) :=
    (h'.mark .x11).trans (decide_eq_decide.mpr ha.parrot)
  have h3128' : obs'.markers .x3128 = decide ((0x11 : UInt64) ∈ ids) :=
    (h'.mark .x3128).trans (decide_eq_decide.mpr ha.parrot')
  have h20' : obs'.markers .x20 = decide ((0x20 : UInt64) ∈ ids') := h'.mark .x20
  unfold infer_emit
  simp only [h11, h3128, h20, h11', h3128', h20']
  by_cases hin : (0x11 : UInt64) ∈ ids
  · simp [hin]
  · have hplain : (0x20 : UInt64) ∈ ids' ↔ (0x20 : UInt64) ∈ ids := ⟨ha.plain hin, ha.datagrams⟩
    by_cases hd : (0x20 : UInt64) ∈ ids <;> simp [hin, hplain, hd]

theorem draft_states (obs : Observation) (m : Marker) :
    (build_draft obs).toCatalogDoc.states m true ↔ obs.markers m = true := by
  constructor
  · rintro ⟨ms, hms, hm⟩
    rw [← Member.val.inj hms] at hm
    exact Member.val.inj hm
  · intro hm
    refine ⟨_, rfl, ?_⟩
    rw [hm]

/-- and has what the template of the draft asks for. -/
theorem satisfies_again (h : Observed obs s ids) (h' : Observed obs' s' ids') (he : Emittable ids)
    (ha : Again ids ids') : Satisfies (template (build_draft obs).toCuratedDoc) obs'.tpSet := by
  have hmem : ∀ m : Marker, m.id ∈ obs'.tpSet ↔ m.number ∈ ids' := by
    intro m
    rw [h'.tpSet]
    exact decide_eq_decide.mp (markers_promoted ids' m)
  refine (satisfies_iff _ _).mpr ⟨fun m hm hs => ?_, fun m hm hs => ?_⟩
  · rw [draft_states, h.mark, decide_eq_true_eq] at hs
    rw [hmem]
    cases m with
    | x11 => exact ha.parrot.mpr hs
    | x3128 => exact ha.parrot'.mpr (he.mpr hs)
    | x20 => exact ha.datagrams hs
    | x2ab2 => exact absurd hm (by decide)
  · rw [draft_states, h.mark, decide_eq_true_eq]
    rw [hmem] at hs
    cases m with
    | x11 => exact ha.parrot.mp hs
    | x3128 => exact he.mp (ha.parrot'.mp hs)
    | _ => exact absurd hm (by decide)

/-- the source id of Chrome's engine -/
theorem scid_again (h' : Observed obs' s' ids') (ha : Again ids ids') (hin : (0x11 : UInt64) ∈ ids)
    (hs : s' = 0) : obs'.scidLen = some 0 := by
  rw [h'.scidLen, hs]
  unfold scidOf
  rw [if_neg (not_not.mpr rfl), if_pos (.inr (ha.parrot.mpr hin))]

end

/-! ## the cycle -/

theorem lastGather_none {id : Bytes} {fs : List Finish} (h : ∀ f ∈ fs, f.id ≠ id) :
    lastGather id fs = none := by
  induction fs with
  | nil => rfl
  | cons f fs ih =>
    rw [lastGather, ih fun f' hf' => h f' (List.mem_cons_of_mem f hf'),
      if_neg (h f List.mem_cons_self)]
    rfl

theorem lastGather_split {id : Bytes} (before : List Finish) {f : Finish} {after : List Finish}
    (hf : f.id = id) (h : ∀ f' ∈ after, f'.id ≠ id) :
    lastGather id (before ++ f :: after) = some f.gathered := by
  induction before with
  | nil =>
    rw [List.nil_append, lastGather, lastGather_none h, if_pos hf]
    rfl
  | cons b before ih =>
    rw [List.cons_append, lastGather, ih]
    rfl

/-- **Emission is stable.**  After any run of the capture server the draft of a directory is offered for
a dial by the export exactly if the emitter takes it, and else it refuses with 3.  What a stack that
shows the flags then sends to the host of a target lands there, in any run of any lab; it has what the
template of the draft asks for, and its own draft has the same name and is dialled the same way. -/
theorem emission_stable (u : Unicode) {lab : QuicLab} (hlab : Unlocked lab) (fs : List Finish)
    {id : Bytes} {g : Gathered} (hl : lastGather id fs = some g) {s : Nat} {ids : List UInt64}
    (hs : Sends g s ids) (sni : Bytes) :
    ∃ lab' obs, exec finish lab fs = some lab' ∧
      load_observation u id (lab'.profiles id) = some obs ∧
      let draft := (build_draft obs).toCuratedDoc
      ((template draft).dial = false →
        ∃ r, fromprofile sni (unmarshal draft) = .error r ∧ r.exit = 3) ∧
      ((template draft).dial = true → ∃ e, fromprofile sni (unmarshal draft) = .ok e ∧
        ∀ x domain, PlainName x → sni = x ++ 0x2e :: domain →
        ∀ lab₂, Unlocked lab₂ → ∀ before f after, Shows e.dial f.gathered →
          (∀ f' ∈ after, f'.id ≠ x) →
          ∃ lab₂' obs₂ e₂, exec finish lab₂ (before ++ f :: after) = some lab₂' ∧
            load_observation u x (lab₂'.profiles x) = some obs₂ ∧
            Satisfies (template draft) obs₂.tpSet ∧
            (e.dial.zeroLengthIDs = true → obs₂.scidLen = some 0) ∧
            (build_draft obs₂).short = (build_draft obs).short ∧
            fromprofile sni (unmarshal (build_draft obs₂).toCuratedDoc) = .ok e₂ ∧
            e₂.dial = e.dial) := by
  obtain ⟨lab', hrun, hobserved⟩ := run_observed u hlab fs
  obtain ⟨obs, hload, hobs⟩ := hobserved id g s ids hl hs
  refine ⟨lab', obs, hrun, hload, fun hdial => ?_, fun hdial => ?_⟩
  · by_cases he : Emittable ids
    · have hyes : is_dialable (build_draft obs).toCuratedDoc = false := hdial
      rw [(fromprofile_ready hobs he sni).1] at hyes
      cases hyes
    · exact (fromprofile_observed hobs he sni).2
  · have he : Emittable ids := by
      by_contra he
      have hno : is_dialable (build_draft obs).toCuratedDoc = true := hdial
      rw [(fromprofile_observed hobs he sni).1] at hno
      cases hno
    obtain ⟨-, e, hok, hedial⟩ := fromprofile_ready hobs he sni
    refine ⟨e, hok, fun x domain hx hsni lab₂ hlab₂ before f after hshow hafter => ?_⟩
    rw [hedial] at hshow
    obtain ⟨ch, hch, hname⟩ := hshow.named
    obtain ⟨s₂, ids₂, hs₂, hagain, hzero⟩ := hshow.again
    have hid : f.id = x := peerID_host hx f.peer f.hint domain f.gathered ch hch (hname.trans hsni)
    obtain ⟨lab₂', hrun₂, hobserved₂⟩ := run_observed u hlab₂ (before ++ f :: after)
    obtain ⟨obs₂, hload₂, hobs₂⟩ := hobserved₂ x _ s₂ ids₂ (lastGather_split before hid hafter) hs₂
    obtain ⟨-, e₂, hok₂, hedial₂⟩ := fromprofile_ready hobs₂ hagain.emittable sni
    refine ⟨lab₂', obs₂, e₂, hrun₂, hload₂, satisfies_again hobs hobs₂ he hagain, fun hz => ?_,
      congrArg Inferred.shortHint (inferred_again hobs hobs₂ he hagain), hok₂, ?_⟩
    · rw [hedial] at hz
      have hin : (0x11 : UInt64) ∈ ids := of_decide_eq_true hz
      exact scid_again hobs₂ hagain hin (hzero hin)
    · rw [hedial₂, hedial, hagain.dial]

/-! ## Chrome's engine -/

def again : Bytes := str "again"
def againSNI : Bytes := again ++ 0x2e :: str "fp.lab"

theorem again_plain : PlainName again where
  word := by decide +kernel
  ne_nil := by decide
  head := by decide
  last := by decide
  known := by decide

/-- what it sends for the draft of `parrotGather` -/
def parrotEmitted : Gathered :=
  gatherOf { clientHello := some ⟨againSNI, [1, 0, 0, 0]⟩ } 8 0 [5] [] [0x20, 0x11, 27, 0x3128] []

theorem parrotEmitted_shows {ids : List UInt64} (h11 : (0x11 : UInt64) ∈ ids) :
    Shows (draftDial againSNI ids) parrotEmitted where
  named := ⟨_, rfl, rfl⟩
  sends := by
    refine ⟨0, _, ⟨_, _, _, _, _, rfl⟩, fun _ => rfl, ?_⟩
    simp [draftDial, h11]

/-- it is captured as `again`, and drafted as what it was drafted from -/
theorem emission_stable_parrot : ∃ lab obs e lab₂ obs₂ e₂, exec finish {} parrotRun = some lab ∧
    load_observation .ascii parrot (lab.profiles parrot) = some obs ∧
    fromprofile againSNI (unmarshal (build_draft obs).toCuratedDoc) = .ok e ∧
    exec finish {} [⟨chromePeer, parrot, [[1]], parrotEmitted, noon⟩] = some lab₂ ∧
    load_observation .ascii again (lab₂.profiles again) = some obs₂ ∧
    (build_draft obs₂).short = (build_draft obs).short ∧
    fromprofile againSNI (unmarshal (build_draft obs₂).toCuratedDoc) = .ok e₂ ∧
    e₂.dial = e.dial := by
  have hunlocked : Unlocked {} := ⟨fun _ => rfl, fun _ => rfl⟩
  have hfirst : Sends parrotGather 0 [0x1, 0x11, 27, 0x20, 0x3128] := ⟨_, _, _, _, _, rfl⟩
  obtain ⟨lab, obs, hrun, hload, -, hdialled⟩ :=
    emission_stable .ascii hunlocked parrotRun parrotRun_first hfirst againSNI
  obtain ⟨lab', hrun', hobserved⟩ := run_observed .ascii hunlocked parrotRun
  obtain ⟨obs', hload', hobs⟩ := hobserved parrot _ _ _ parrotRun_first hfirst
  rw [hrun] at hrun'
  rw [← Option.some.inj hrun', hload] at hload'
  rw [← Option.some.inj hload'] at hobs
  have he : Emittable [0x1, 0x11, 27, 0x20, 0x3128] := by
    unfold Emittable
    decide
  obtain ⟨hoffered, e', hok', hdial'⟩ := fromprofile_ready hobs he againSNI
  obtain ⟨e, hok, hemitted⟩ := hdialled hoffered
  rw [hok] at hok'
  rw [← Except.ok.inj hok'] at hdial'
  obtain ⟨lab₂, obs₂, e₂, hrun₂, hload₂, -, -, hshort, hok₂, hdial₂⟩ := hemitted again (str "fp.lab")
    again_plain rfl {} hunlocked [] ⟨chromePeer, parrot, [[1]], parrotEmitted, noon⟩ []
    (hdial' ▸ parrotEmitted_shows (by decide)) fun f hf => absurd hf List.not_mem_nil
  exact ⟨lab, obs, e, lab₂, obs₂, e₂, hrun, hload, hok, hrun₂, hload₂, hshort, hok₂, hdial₂⟩

end Quic
