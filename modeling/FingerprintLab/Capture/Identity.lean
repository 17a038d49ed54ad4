import FingerprintLab.Capture.Decode
import Mathlib.Data.Multiset.Basic

/-!
# What a JA4 string identifies

`Identity` is the part of a ClientHello that JA4 is meant to name.  `ja4_eq_iff`: the JA4 strings of
two parsed hellos are equal exactly when their identities are, as far as the truncated digest does
not collide on the four strings hashed.  The first part of a JA4 has a fixed length, the digests
too, so a JA4 string falls apart into its pieces; the hashed strings are injective in the lists.

`Varied` relates two hellos that differ only in what JA4 leaves out; `Varied.identity` is the
invariance.
-/

set_option linter.unusedVariables false

namespace Capture
open Go

structure Identity where
  version : Bytes
  hasSNI : Bool
  alpn : Bytes
  ciphers : List UInt16
  extensions : Multiset UInt16
  sigs : Option (List UInt16)

/-- the signature algorithms that JA4 shows: none if the hello lists none at all -/
def shownSigs (ss : List UInt16) : Option (List UInt16) := if ss = [] then none else some (clean ss)

/-- the version code of the maximum, the SNI flag, the code of the first ALPN name, and the three
lists without GREASE: the ciphers in order, the extensions as a multiset without SNI and ALPN, the
signature algorithms in order or none if the hello lists none -/
def Parsed.identity (p : Parsed) : Identity where
  version := verStr ((clean p.exts.versions).foldl max p.helloVer)
  hasSNI := p.exts.sni != []
  alpn := alpnFirst p.exts.alpn
  ciphers := clean p.ciphers
  extensions := (eClean p.exts.extIDs : Multiset UInt16)
  sigs := shownSigs p.exts.sigs

def Parsed.bSrc (p : Parsed) : Bytes := Capture.bSrc p.ciphers
def Parsed.cSrc (p : Parsed) : Bytes := Capture.cSrc p.exts.extIDs p.exts.sigs

/-- the truncated digest tells the strings hashed for `p` from those hashed for `q` -/
def NoCollision (p q : Parsed) : Prop :=
  (sha12 p.bSrc = sha12 q.bSrc → p.bSrc = q.bSrc) ∧ (sha12 p.cSrc = sha12 q.cSrc → p.cSrc = q.cSrc)

/-! ## the pieces of a JA4 string -/

theorem ja4Version_eq_max (vs : List UInt16) (v : UInt16) :
    ja4Version vs v = (clean vs).foldl max v := by
  induction vs generalizing v with
  | nil => rfl
  | cons w vs ih =>
    show ja4Version vs (if !isGREASE16 w && v < w then w else v) = _
    rw [ih]
    cases hg : isGREASE16 w with
    | true => rw [clean_cons_grease w vs hg]; rfl
    | false =>
      have hc : clean (w :: vs) = w :: clean vs := by simp [clean, notGREASE, hg]
      rw [hc, List.foldl_cons]
      by_cases hlt : v < w
      · simp [hlt, max_eq_right hlt.le]
      · simp [hlt, max_eq_left (not_lt.mp hlt)]

theorem verStr_length (v : UInt16) : (verStr v).length = 2 := by
  unfold verStr
  split
  · rfl
  split
  · rfl
  split
  · rfl
  split <;> rfl

theorem alpnFirst_length (alpn : List Bytes) : (alpnFirst alpn).length = 2 := by
  cases alpn with
  | nil => rfl
  | cons a as =>
    cases a with
    | nil => rfl
    | cons c a =>
      cases a with
      | nil => exact sanitizeALPN_length _
      | cons d a => exact sanitizeALPN_length _

theorem sniFlag_length (b : Bool) : (if b then str "d" else str "i").length = 1 := by
  cases b <;> rfl

theorem ja4A_length (vs : List UInt16) (v : UInt16) (b : Bool) (cs es : List UInt16)
    (alpn : List Bytes) : (ja4A vs v b cs es alpn).length = 10 := by
  unfold ja4A
  simp only [List.length_append, verStr_length, alpnFirst_length, sniFlag_length]
  rfl

theorem sha12_length (s : Bytes) : (sha12 s).length = 12 := by
  unfold sha12
  rw [List.length_take, hexEncode_length, sha256_length]
  rfl

/-- equal JA4 strings have equal parts -/
theorem buildJA4_parts {vs vs' cs cs' es es' ss ss' : List UInt16} {v v' : UInt16} {b b' : Bool}
    {al al' : List Bytes} (h : buildJA4 vs v b cs es ss al = buildJA4 vs' v' b' cs' es' ss' al') :
    ja4A vs v b cs es al = ja4A vs' v' b' cs' es' al' ∧
      sha12 (bSrc cs) = sha12 (bSrc cs') ∧ sha12 (cSrc es ss) = sha12 (cSrc es' ss') := by
  unfold buildJA4 at h
  obtain ⟨h, hc⟩ := List.append_inj h (by simp [ja4A_length, sha12_length])
  obtain ⟨h, -⟩ := List.append_inj h (by simp [ja4A_length, sha12_length])
  obtain ⟨h, hb⟩ := List.append_inj h (by simp [ja4A_length])
  obtain ⟨ha, -⟩ := List.append_inj h (by simp [ja4A_length])
  exact ⟨ha, hb, hc⟩

theorem sniFlag_inj (b b' : Bool)
    (h : (if b then str "d" else str "i") = (if b' then str "d" else str "i")) : b = b' := by
  cases b <;> cases b' <;> first | rfl | exact absurd h (by decide)

/-- equal first parts agree on version code, SNI flag and ALPN code -/
theorem ja4A_parts {vs vs' cs cs' es es' : List UInt16} {v v' : UInt16} {b b' : Bool}
    {al al' : List Bytes} (h : ja4A vs v b cs es al = ja4A vs' v' b' cs' es' al') :
    verStr (ja4Version vs v) = verStr (ja4Version vs' v') ∧ b = b' ∧
      alpnFirst al = alpnFirst al' := by
  have two : ∀ n, (dec02 n).length = 2 := fun _ => rfl
  unfold ja4A at h
  obtain ⟨h, hal⟩ := List.append_inj h
    (by simp only [List.length_append, verStr_length, sniFlag_length, two])
  obtain ⟨h, -⟩ := List.append_inj h
    (by simp only [List.length_append, verStr_length, sniFlag_length, two])
  obtain ⟨h, -⟩ := List.append_inj h
    (by simp only [List.length_append, verStr_length, sniFlag_length])
  obtain ⟨h, hb⟩ := List.append_inj h (by simp only [List.length_append, verStr_length])
  obtain ⟨-, hv⟩ := List.append_inj h rfl
  exact ⟨hv, sniFlag_inj b b' hb, hal⟩

theorem bSrc_inj (cs cs' : List UInt16) (h : bSrc cs = bSrc cs') : clean cs = clean cs' :=
  joinHex_inj _ _ h

theorem eClean_eq (es : List UInt16) :
    eClean es = (clean es).filter fun e => e != 0x0000 && e != 0x0010 := by
  unfold eClean clean notGREASE
  rw [List.filter_filter]
  refine List.filter_congr fun e _ => ?_
  cases isGREASE16 e <;> simp

theorem cSrc_nil (es : List UInt16) :
    cSrc es [] = joinUint16HexLower (sortUint16 (eClean es)) false := List.append_nil _

theorem cSrc_cons (es : List UInt16) (s : UInt16) (ss : List UInt16) :
    cSrc es (s :: ss) = joinUint16HexLower (sortUint16 (eClean es)) false
      ++ 0x5f :: joinUint16HexLower (clean (s :: ss)) false := rfl

/-- a string with the underscore is none without it -/
theorem cSrc_nil_ne (es es' : List UInt16) (s : UInt16) (ss : List UInt16) :
    cSrc es [] ≠ cSrc es' (s :: ss) := by
  intro h
  rw [cSrc_nil, cSrc_cons] at h
  apply joinHex_no_underscore (sortUint16 (eClean es))
  rw [h]
  simp

/-- The third hashed string: an underscore separates the two lists, and it stands there exactly if
the unfiltered list of signature algorithms is not empty. -/
theorem cSrc_inj (es es' ss ss' : List UInt16) (h : cSrc es ss = cSrc es' ss') :
    (eClean es).Perm (eClean es') ∧ shownSigs ss = shownSigs ss' := by
  have hperm : ∀ xs ys : List UInt16,
      joinUint16HexLower (sortUint16 xs) false = joinUint16HexLower (sortUint16 ys) false →
        xs.Perm ys :=
    fun xs ys he => (sortUint16_eq_iff xs ys).mp (joinHex_inj _ _ he)
  cases ss with
  | nil =>
    cases ss' with
    | nil =>
      rw [cSrc_nil, cSrc_nil] at h
      exact ⟨hperm _ _ h, rfl⟩
    | cons s' ss' => exact absurd h (cSrc_nil_ne es es' s' ss')
  | cons s ss =>
    cases ss' with
    | nil => exact absurd h.symm (cSrc_nil_ne es' es s ss)
    | cons s' ss' =>
      rw [cSrc_cons, cSrc_cons] at h
      obtain ⟨h1, -, h2⟩ := (List.append_cons_inj_of_notMem (joinHex_no_underscore _)
        (joinHex_no_underscore _)).mp h
      exact ⟨hperm _ _ h1, congrArg some (joinHex_inj _ _ h2)⟩

/-! ## the identity -/

theorem ja4_eq_of_identity {p q : Parsed} (h : p.identity = q.identity) :
    p.meta.ja4 = q.meta.ja4 := by
  simp only [Parsed.identity, Identity.mk.injEq, Multiset.coe_eq_coe] at h
  obtain ⟨hv, hs, ha, hc, he, hg⟩ := h
  have hA : ja4A p.exts.versions p.helloVer (p.exts.sni != []) p.ciphers p.exts.extIDs p.exts.alpn
      = ja4A q.exts.versions q.helloVer (q.exts.sni != []) q.ciphers q.exts.extIDs q.exts.alpn := by
    unfold ja4A
    rw [ja4Version_eq_max, ja4Version_eq_max, hv, hs, ha, hc, he.length_eq]
  have hB : bSrc p.ciphers = bSrc q.ciphers := by
    unfold bSrc
    rw [hc]
  have hC : cSrc p.exts.extIDs p.exts.sigs = cSrc q.exts.extIDs q.exts.sigs := by
    have hsort := (sortUint16_eq_iff _ _).mpr he
    unfold cSrc
    rw [hsort]
    cases hp : p.exts.sigs with
    | nil =>
      cases hq : q.exts.sigs with
      | nil => rfl
      | cons s ss => rw [hp, hq] at hg; cases hg
    | cons s ss =>
      cases hq : q.exts.sigs with
      | nil => rw [hp, hq] at hg; cases hg
      | cons s' ss' =>
        rw [hp, hq] at hg
        rw [show clean (s :: ss) = clean (s' :: ss') from Option.some.inj hg]
        rfl
  show buildJA4 _ _ _ _ _ _ _ = buildJA4 _ _ _ _ _ _ _
  unfold buildJA4
  rw [hA, hB, hC]

/-- **JA4 strings are equal exactly when the identities are.** -/
theorem ja4_eq_iff {p q : Parsed} (hcol : NoCollision p q) :
    p.meta.ja4 = q.meta.ja4 ↔ p.identity = q.identity := by
  refine ⟨fun h => ?_, ja4_eq_of_identity⟩
  obtain ⟨hA, hB, hC⟩ := buildJA4_parts h
  obtain ⟨hv, hs, ha⟩ := ja4A_parts hA
  have hc := bSrc_inj _ _ (hcol.1 hB)
  obtain ⟨he, hg⟩ := cSrc_inj _ _ _ _ (hcol.2 hC)
  rw [ja4Version_eq_max, ja4Version_eq_max] at hv
  simp only [Parsed.identity, Identity.mk.injEq, Multiset.coe_eq_coe]
  exact ⟨hv, hs, ha, hc, he, hg⟩

/-! ## what JA4 leaves out -/

/-- Two extensions that JA4 does not tell apart: the same up to a non-empty host name, the later
ALPN names, the groups, and the payload of an extension without typed content. -/
inductive Extension.Alike : Extension → Extension → Prop where
  | same (e : Extension) : Alike e e
  | serverName (a b : Bytes) (ha : a ≠ []) (hb : b ≠ []) : Alike (.serverName a) (.serverName b)
  | groups (gs gs' : List UInt16) : Alike (.supportedGroups gs) (.supportedGroups gs')
  | alpn (n : Bytes) (ns ns' : List Bytes) : Alike (.alpn (n :: ns)) (.alpn (n :: ns'))
  | other (eid : UInt16) (d d' : Bytes) (h : eid ∉ typedIDs) :
      Alike (.other eid d h) (.other eid d' h)

/-- the hellos differ in random, session id, compression, the order of the extensions, and in what
`Alike` extensions may differ -/
structure Varied (h h' : HelloFields) : Prop where
  version : h.version = h'.version
  ciphers : h.ciphers = h'.ciphers
  exts : ∃ es, List.Forall₂ Extension.Alike h.exts es ∧ es.Perm h'.exts

theorem Extension.Alike.id {e e' : Extension} (h : e.Alike e') : e.id = e'.id := by
  cases h <;> rfl

/-- with distinct ids the content of a kind is that of any extension of the kind -/
theorem findSome?_distinct {α : Type} (f : Extension → Option α) (k : UInt16)
    (hk : ∀ e, f e ≠ none → e.id = k) (es : List Extension) (hd : (es.map Extension.id).Nodup)
    (v : α) : es.findSome? f = some v ↔ ∃ e ∈ es, f e = some v := by
  constructor
  · intro h
    exact List.exists_of_findSome?_eq_some h
  · rintro ⟨e, he, hv⟩
    induction es with
    | nil => cases he
    | cons e' es ih =>
      rw [List.findSome?_cons]
      rcases List.mem_cons.mp he with rfl | he'
      · rw [hv]
      · have hnone : f e' = none := by
          by_contra hne
          have h0 := none_of_nodup f k hk e' es hd hne e he'
          rw [hv] at h0
          cases h0
        rw [hnone]
        exact ih (List.nodup_cons.mp hd).2 he'

theorem findSome?_perm {α : Type} (f : Extension → Option α) (k : UInt16)
    (hk : ∀ e, f e ≠ none → e.id = k) (es es' : List Extension) (hp : es.Perm es')
    (hd : (es.map Extension.id).Nodup) : es.findSome? f = es'.findSome? f := by
  have hd' : (es'.map Extension.id).Nodup := (hp.map _).nodup_iff.mp hd
  refine Option.ext fun v => ?_
  rw [findSome?_distinct f k hk es hd, findSome?_distinct f k hk es' hd']
  simp only [hp.mem_iff]

/-- a projection of the content that `Alike` extensions agree on -/
theorem findSome?_alike {α β : Type} (f : Extension → Option α) (g : Option α → β)
    (hf : ∀ e e' : Extension, e.Alike e' → (f e = none ↔ f e' = none) ∧ g (f e) = g (f e'))
    (es es' : List Extension) (ha : List.Forall₂ Extension.Alike es es') :
    g (es.findSome? f) = g (es'.findSome? f) := by
  induction ha with
  | nil => rfl
  | @cons e e' es es' h _ ih =>
    obtain ⟨hn, hg⟩ := hf e e' h
    rw [List.findSome?_cons, List.findSome?_cons]
    cases he : f e with
    | none => rw [hn.mp he]; exact ih
    | some v =>
      have he' : f e' ≠ none := fun h0 => by rw [hn.mpr h0] at he; cases he
      obtain ⟨v', hv'⟩ := Option.ne_none_iff_exists'.mp he'
      rw [hv']
      rw [he, hv'] at hg
      exact hg

theorem map_id_alike (es es' : List Extension) (ha : List.Forall₂ Extension.Alike es es') :
    es.map Extension.id = es'.map Extension.id := by
  induction ha with
  | nil => rfl
  | cons he _ ih => rw [List.map_cons, List.map_cons, he.id, ih]

/-- the content of a kind along `Alike` and then along a permutation -/
theorem findSome?_varied {α β : Type} (f : Extension → Option α) (k : UInt16)
    (hk : ∀ e, f e ≠ none → e.id = k) (g : Option α → β)
    (hf : ∀ e e' : Extension, e.Alike e' → (f e = none ↔ f e' = none) ∧ g (f e) = g (f e'))
    (es es' es'' : List Extension) (ha : List.Forall₂ Extension.Alike es es') (hp : es'.Perm es'')
    (hd : (es.map Extension.id).Nodup) : g (es.findSome? f) = g (es''.findSome? f) := by
  have hd' : (es'.map Extension.id).Nodup := map_id_alike es es' ha ▸ hd
  rw [findSome?_alike f g hf es es' ha, findSome?_perm f k hk es' es'' hp hd']

/-- **Invariance**: what `Varied` allows to change is not part of the identity. -/
theorem Varied.identity {h h' : ClientHello} (hv : Varied h.toHelloFields h'.toHelloFields)
    (hd : h.extIDs.Nodup) (recVer recVer' : UInt16) :
    h'.extIDs.Nodup ∧ (h.parsed recVer).identity = (h'.parsed recVer').identity := by
  obtain ⟨hver, hcs, es, hal, hp⟩ := hv
  have hperm : h.extIDs.Perm h'.extIDs := by
    show (h.exts.map Extension.id).Perm (h'.exts.map Extension.id)
    rw [map_id_alike _ _ hal]
    exact hp.map _
  have hsni : (h.sni != []) = (h'.sni != []) := by
    refine findSome?_varied Extension.host? _ Extension.id_of_host (fun o => o.getD [] != []) ?_
      h.exts es h'.exts hal hp hd
    intro e e' ha
    cases ha with
    | serverName a b ha hb => simp [Extension.host?, bne_iff_ne.mpr ha, bne_iff_ne.mpr hb]
    | _ => simp [Extension.host?]
  have halpn : alpnFirst h.alpn = alpnFirst h'.alpn := by
    refine findSome?_varied Extension.names? _ Extension.id_of_names
      (fun o => alpnFirst (o.getD [])) ?_ h.exts es h'.exts hal hp hd
    intro e e' ha
    cases ha with
    | alpn n ns ns' => exact ⟨by simp [Extension.names?], rfl⟩
    | _ => simp [Extension.names?]
  have hsigs : h.sigs = h'.sigs := by
    refine findSome?_varied Extension.sigs? _ Extension.id_of_sigs (fun o => o.getD []) ?_
      h.exts es h'.exts hal hp hd
    intro e e' ha
    cases ha <;> simp [Extension.sigs?]
  have hversions : h.versions = h'.versions := by
    refine findSome?_varied Extension.versions? _ Extension.id_of_versions (fun o => o.getD []) ?_
      h.exts es h'.exts hal hp hd
    intro e e' ha
    cases ha <;> simp [Extension.versions?]
  refine ⟨hperm.nodup_iff.mp hd, ?_⟩
  simp only [Parsed.identity, ClientHello.parsed, Identity.mk.injEq, Multiset.coe_eq_coe]
  exact ⟨by rw [hversions, hver], hsni, halpn, by rw [hcs], hperm.filter _, by rw [hsigs]⟩

/-- hellos that `Varied` relates have one JA4 -/
theorem Varied.ja4 {h h' : ClientHello} (hv : Varied h.toHelloFields h'.toHelloFields)
    (hd : h.extIDs.Nodup) (recVer recVer' : UInt16) (tr tr' : Bytes) :
    ∃ m m', analyze (h.record recVer tr) = .ok m ∧ analyze (h'.record recVer' tr') = .ok m' ∧
      m.ja4 = m'.ja4 := by
  obtain ⟨hd', hid⟩ := hv.identity hd recVer recVer'
  exact ⟨_, _, analyze_of_parse (parse_distinct h hd recVer tr),
    analyze_of_parse (parse_distinct h' hd' recVer' tr'), ja4_eq_of_identity hid⟩

end Capture
