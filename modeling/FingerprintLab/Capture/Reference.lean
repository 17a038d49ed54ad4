import FingerprintLab.Capture.Identity

/-!
# The fingerprints as their authors define them

`buildJA3` names the classic JA3 and `buildJA4` the JA4 of FoxIO; here both are defined on the
content of a ClientHello, and compared with what `analyze` computes.

* `ungreased`, `Mistaken`  the values without GREASE, and those that the lab drops for no reason;
* `foxJA4`, `classicJA3`   the two definitions;
* `FoxFits`                the hellos on which the two JA4 strings agree (`ja4_fox_iff`): the lab
                           keeps the ciphers in wire order, does not count SNI and ALPN, and takes
                           the hello version for a lower bound;
* `ja3_classic_iff`        the two JA3 strings agree unless the hello lists point formats or a value
                           that the lab takes for GREASE.
-/

set_option linter.unusedVariables false

namespace Capture
open Go

def hexList (vs : List UInt16) : Bytes := join (vs.map hex04) (str ",")
def dashed (vs : List UInt16) : Bytes := join (vs.map fun v => decimal v.toNat) (str "-")

/-- two texts that share their truncated digest -/
def Collision (s t : Bytes) : Prop := s ≠ t ∧ sha12 s = sha12 t

/-! ## GREASE -/

/-- the values that RFC 8701 does not reserve -/
def ungreased (vs : List UInt16) : List UInt16 := vs.filter fun v => v ∉ greaseValues

/-- one of the 240 other values that `isGREASE16` accepts -/
def Mistaken (v : UInt16) : Prop := isGREASE16 v = true ∧ v ∉ greaseValues

instance : DecidablePred Mistaken := fun _ => inferInstanceAs (Decidable (_ ∧ _))

example : Mistaken 0x0a1a := by decide

theorem not_mistaken_of_all {vs : List UInt16} (h : (vs.all fun v => !decide (Mistaken v)) = true) :
    ∀ v ∈ vs, ¬ Mistaken v := by
  intro v hv
  simpa using List.all_eq_true.mp h v hv

theorem clean_ungreased (vs : List UInt16) : (ungreased vs).filter notGREASE = clean vs := by
  unfold ungreased clean
  rw [List.filter_filter]
  refine List.filter_congr fun v _ => ?_
  by_cases hv : v ∈ greaseValues
  · simp [notGREASE, isGREASE16_of_reserved v hv]
  · simp [hv]

theorem mem_ungreased {vs : List UInt16} {v : UInt16} :
    v ∈ ungreased vs ↔ v ∈ vs ∧ v ∉ greaseValues := by
  unfold ungreased
  rw [List.mem_filter, decide_eq_true_eq]

theorem clean_sub_ungreased {vs : List UInt16} {v : UInt16} (h : v ∈ clean vs) : v ∈ ungreased vs :=
  List.mem_of_mem_filter (clean_ungreased vs ▸ h)

/-- no value is dropped for no reason -/
theorem notGREASE_ungreased_iff (vs : List UInt16) :
    (∀ v ∈ ungreased vs, notGREASE v = true) ↔ ∀ v ∈ vs, ¬ Mistaken v := by
  unfold Mistaken notGREASE
  simp only [mem_ungreased, not_and, not_not, Bool.not_eq_true', and_imp]
  refine forall₂_congr fun v _ => ?_
  cases isGREASE16 v <;> simp

theorem clean_eq_iff (vs : List UInt16) : clean vs = ungreased vs ↔ ∀ v ∈ vs, ¬ Mistaken v := by
  rw [← clean_ungreased, List.filter_eq_self, notGREASE_ungreased_iff]

theorem clean_length_iff (vs : List UInt16) :
    (clean vs).length = (ungreased vs).length ↔ ∀ v ∈ vs, ¬ Mistaken v := by
  rw [← clean_ungreased, List.length_filter_eq_length_iff, notGREASE_ungreased_iff]

theorem clean_length_le (vs : List UInt16) : (clean vs).length ≤ (ungreased vs).length := by
  rw [← clean_ungreased]
  exact List.length_filter_le ..

/-! ## FoxIO's JA4 -/

/-- the versions that `buildJA4` has a code for -/
def labVersions : List UInt16 := [0x0304, 0x0303, 0x0302, 0x0301]

/-- the other versions with a code: SSL and DTLS -/
def otherVersions : List UInt16 := [0x0300, 0x0002, 0xfeff, 0xfefd, 0xfefc]

def foxVersion (v : UInt16) : Bytes :=
  if v = 0x0304 then str "13"
  else if v = 0x0303 then str "12"
  else if v = 0x0302 then str "11"
  else if v = 0x0301 then str "10"
  else if v = 0x0300 then str "s3"
  else if v = 0x0002 then str "s2"
  else if v = 0xfeff then str "d1"
  else if v = 0xfefd then str "d2"
  else if v = 0xfefc then str "d3"
  else str "00"

/-- the first and the last character of the first name -/
def foxALPN (alpn : List Bytes) : Bytes :=
  match alpn with
  | [] => str "00"
  | a :: _ => [a.headD 0x30, a.getLastD 0x30]

def AlNum (b : Byte) : Prop :=
  0x61 ≤ b.toNat ∧ b.toNat ≤ 0x7a ∨ 0x41 ≤ b.toNat ∧ b.toNat ≤ 0x5a ∨
    0x30 ≤ b.toNat ∧ b.toNat ≤ 0x39

/-- the first name, if there is one, has two characters or more; its first and last one are
alphanumeric -/
def PlainALPN (alpn : List Bytes) : Prop :=
  ∀ a, alpn.head? = some a → ∃ c mid d, a = c :: (mid ++ [d]) ∧ AlNum c ∧ AlNum d

namespace HelloFields

/-- the highest supported version that is no GREASE; the hello version if none is listed -/
def topVersion (h : HelloFields) : UInt16 :=
  match ungreased h.versions with
  | [] => h.version
  | v :: vs => vs.foldl max v

def named (es : List UInt16) : List UInt16 := es.filter fun e => e != 0x0000 && e != 0x0010

/-- the extensions that the third part lists -/
def namedExts (h : HelloFields) : List UInt16 := named (ungreased h.extIDs)

def foxA (h : HelloFields) : Bytes :=
  str "t" ++ foxVersion h.topVersion ++ (if 0x0000 ∈ h.extIDs then str "d" else str "i")
    ++ dec02 (min (ungreased h.ciphers).length 99) ++ dec02 (min (ungreased h.extIDs).length 99)
    ++ foxALPN h.alpn

def foxBSrc (h : HelloFields) : Bytes := hexList (sortUint16 (ungreased h.ciphers))

def foxB (h : HelloFields) : Bytes :=
  if ungreased h.ciphers = [] then str "000000000000" else sha12 h.foxBSrc

/-- `exts` in order, and the signature algorithms `shown` of a hello that has some -/
def thirdText (h : HelloFields) (exts shown : List UInt16) : Bytes :=
  hexList (sortUint16 exts) ++ (if h.sigs = [] then [] else str "_" ++ hexList shown)

def foxCSrc (h : HelloFields) : Bytes := h.thirdText h.namedExts h.sigs

def foxC (h : HelloFields) : Bytes :=
  if h.namedExts = [] then str "000000000000" else sha12 h.foxCSrc

def foxJA4 (h : HelloFields) : Bytes := h.foxA ++ str "_" ++ h.foxB ++ str "_" ++ h.foxC

/-- the hello version, and the supported versions that `isGREASE16` does not accept -/
def keptVersions (h : HelloFields) : List UInt16 := h.version :: clean h.versions

/-- the extensions that the lab counts and lists -/
def keptExts (h : HelloFields) : List UInt16 := named (clean h.extIDs)

/-- The highest version is no SSL or DTLS version.  It is kept and not below the hello version; or it
has no code, and none of the kept versions with a code is the highest of them. -/
def VersionFits (h : HelloFields) : Prop :=
  h.topVersion ∉ otherVersions ∧
    ((h.topVersion ∈ h.keptVersions ∧ h.version ≤ h.topVersion) ∨
      (h.topVersion ∉ labVersions ∧
        ∀ v ∈ h.keptVersions, v ∈ labVersions → ∃ w ∈ h.keptVersions, v < w))

/-- where `buildJA4` and FoxIO agree -/
structure FoxFits (h : HelloFields) : Prop where
  version : h.VersionFits
  sni : 0x0000 ∈ h.extIDs → h.sni ≠ []
  cipherCount : (∀ c ∈ h.ciphers, ¬ Mistaken c) ∨ 99 ≤ (clean h.ciphers).length
  counts : (0x0000 ∉ h.extIDs ∧ 0x0010 ∉ h.extIDs ∧ ∀ e ∈ h.extIDs, ¬ Mistaken e) ∨
    99 ≤ h.keptExts.length
  ciphers : ungreased h.ciphers ≠ []
  order : ((∀ c ∈ h.ciphers, ¬ Mistaken c) ∧ (ungreased h.ciphers).Pairwise (· ≤ ·)) ∨
    Collision (hexList (clean h.ciphers)) h.foxBSrc
  exts : h.namedExts ≠ []
  sigs : ((∀ e ∈ h.extIDs, ¬ Mistaken e) ∧ ∀ s ∈ h.sigs, isGREASE16 s = false) ∨
    Collision (h.thirdText h.keptExts (clean h.sigs)) h.foxCSrc

end HelloFields

/-! ## the pieces -/

theorem eClean_kept (h : HelloFields) : eClean h.extIDs = h.keptExts := eClean_eq h.extIDs

theorem hexList_inj (vs ws : List UInt16) (h : hexList vs = hexList ws) : vs = ws := by
  refine joinHex_inj vs ws ?_
  rw [joinHex_keep, joinHex_keep]
  exact h

/-- a running maximum is the greatest of what it has seen -/
theorem foldl_max_spec (vs : List UInt16) (v : UInt16) :
    vs.foldl max v ∈ v :: vs ∧ ∀ w ∈ v :: vs, w ≤ vs.foldl max v := by
  induction vs generalizing v with
  | nil => exact ⟨List.mem_singleton_self v, fun w hw => le_of_eq (List.mem_singleton.mp hw)⟩
  | cons u us ih =>
    obtain ⟨hmem, hle⟩ := ih (max v u)
    rw [List.foldl_cons]
    have htop := hle (max v u) List.mem_cons_self
    refine ⟨?_, fun w hw => ?_⟩
    · obtain he | hm := List.mem_cons.mp hmem
      · obtain hv | hu := max_choice v u
        · rw [he, hv]
          exact List.mem_cons_self
        · rw [he, hu]
          exact List.mem_cons_of_mem v List.mem_cons_self
      · exact List.mem_cons_of_mem v (List.mem_cons_of_mem u hm)
    · obtain rfl | hw := List.mem_cons.mp hw
      · exact le_trans (le_max_left _ _) htop
      · obtain rfl | hw := List.mem_cons.mp hw
        · exact le_trans (le_max_right _ _) htop
        · exact hle w (List.mem_cons_of_mem _ hw)

/-- the lab's version is the highest of those it keeps -/
theorem ja4Version_spec (h : HelloFields) : ja4Version h.versions h.version ∈ h.keptVersions ∧
    ∀ v ∈ h.keptVersions, v ≤ ja4Version h.versions h.version := by
  rw [ja4Version_eq_max]
  exact foldl_max_spec (clean h.versions) h.version

theorem le_topVersion (h : HelloFields) {v : UInt16} (hv : v ∈ ungreased h.versions) :
    v ≤ h.topVersion := by
  unfold HelloFields.topVersion
  cases hu : ungreased h.versions with
  | nil =>
    rw [hu] at hv
    cases hv
  | cons u us =>
    rw [hu] at hv
    exact (foldl_max_spec us u).2 v hv

/-- when it is the highest of all -/
theorem ja4Version_top_iff (h : HelloFields) : ja4Version h.versions h.version = h.topVersion ↔
    h.topVersion ∈ h.keptVersions ∧ h.version ≤ h.topVersion := by
  obtain ⟨hmem, hle⟩ := ja4Version_spec h
  constructor
  · intro he
    rw [← he]
    exact ⟨hmem, hle h.version List.mem_cons_self⟩
  · rintro ⟨hkept, hver⟩
    refine le_antisymm ?_ (hle _ hkept)
    obtain he | hm := List.mem_cons.mp hmem
    · rw [he]
      exact hver
    · exact le_topVersion h (clean_sub_ungreased hm)

/-- when it has no code -/
theorem ja4Version_uncoded_iff (h : HelloFields) : ja4Version h.versions h.version ∉ labVersions ↔
    ∀ v ∈ h.keptVersions, v ∈ labVersions → ∃ w ∈ h.keptVersions, v < w := by
  obtain ⟨hmem, hle⟩ := ja4Version_spec h
  constructor
  · intro hn v hv hl
    refine ⟨_, hmem, lt_of_le_of_ne (hle v hv) fun he => hn (he ▸ hl)⟩
  · intro hall hl
    obtain ⟨w, hw, hlt⟩ := hall _ hmem hl
    exact absurd (hle w hw) (not_le.mpr hlt)

theorem foxVersion_of_not_other (v : UInt16) (h : v ∉ otherVersions) : foxVersion v = verStr v := by
  simp only [otherVersions, List.mem_cons, List.not_mem_nil, or_false, not_or] at h
  obtain ⟨h1, h2, h3, h4, h5⟩ := h
  unfold foxVersion verStr
  rw [if_neg h1, if_neg h2, if_neg h3, if_neg h4, if_neg h5]

theorem verStr_cases (v : UInt16) : (v ∈ labVersions ∧ verStr v ≠ str "00") ∨
    (v ∉ labVersions ∧ verStr v = str "00") := by
  by_cases h : v ∈ labVersions
  · refine Or.inl ⟨h, ?_⟩
    simp only [labVersions, List.mem_cons, List.not_mem_nil, or_false] at h
    obtain rfl | rfl | rfl | rfl := h <;> decide
  · refine Or.inr ⟨h, ?_⟩
    simp only [labVersions, List.mem_cons, List.not_mem_nil, or_false, not_or] at h
    obtain ⟨h1, h2, h3, h4⟩ := h
    unfold verStr
    rw [if_neg h1, if_neg h2, if_neg h3, if_neg h4]

theorem foxVersion_other (v w : UInt16) (hv : v ∈ otherVersions) : foxVersion v ≠ verStr w := by
  intro h
  -- none of the codes of SSL and DTLS is one of the lab's
  have hw : verStr w ∈ [str "13", str "12", str "11", str "10", str "00"] := by
    unfold verStr
    split
    · simp
    split
    · simp
    split
    · simp
    split <;> simp
  rw [← h] at hw
  simp only [otherVersions, List.mem_cons, List.not_mem_nil, or_false] at hv
  obtain rfl | rfl | rfl | rfl | rfl := hv <;> exact absurd hw (by decide)

theorem verStr_lab_inj (v w : UInt16) (hw : w ∈ labVersions) (h : verStr v = verStr w) : v = w := by
  obtain ⟨hv, _⟩ | ⟨_, hv⟩ := verStr_cases v
  · simp only [labVersions, List.mem_cons, List.not_mem_nil, or_false] at hv hw
    obtain rfl | rfl | rfl | rfl := hv <;> obtain rfl | rfl | rfl | rfl := hw <;>
      first | rfl | exact absurd h (by decide)
  · obtain ⟨_, hn⟩ | ⟨hn, _⟩ := verStr_cases w
    · exact absurd (h.symm.trans hv) hn
    · exact absurd hw hn

theorem verStr_eq_iff (v w : UInt16) :
    verStr v = verStr w ↔ v = w ∨ (w ∉ labVersions ∧ v ∉ labVersions) := by
  constructor
  · intro h
    obtain ⟨hw, -⟩ | ⟨hw, hwc⟩ := verStr_cases w
    · exact .inl (verStr_lab_inj v w hw h)
    obtain ⟨-, hvc⟩ | ⟨hv, -⟩ := verStr_cases v
    · exact absurd (h.trans hwc) hvc
    · exact .inr ⟨hw, hv⟩
  · rintro (rfl | ⟨hw, hv⟩)
    · rfl
    · rw [((verStr_cases v).resolve_left fun hc => hv hc.1).2,
        ((verStr_cases w).resolve_left fun hc => hw hc.1).2]

theorem version_iff (h : HelloFields) :
    verStr (ja4Version h.versions h.version) = foxVersion h.topVersion ↔ h.VersionFits := by
  unfold HelloFields.VersionFits
  by_cases ho : h.topVersion ∈ otherVersions
  · exact iff_of_false (fun he => foxVersion_other _ _ ho he.symm) fun hf => hf.1 ho
  · rw [foxVersion_of_not_other _ ho, verStr_eq_iff, ja4Version_top_iff, ja4Version_uncoded_iff,
      and_iff_right ho]

/-- the content of a kind comes from an extension of that kind -/
theorem id_mem_of_findSome {α : Type} (f : Extension → Option α) (k : UInt16)
    (hk : ∀ e, f e ≠ none → e.id = k) (h : HelloFields) (hf : h.exts.findSome? f ≠ none) :
    k ∈ h.extIDs := by
  obtain ⟨v, hv⟩ := Option.ne_none_iff_exists'.mp hf
  obtain ⟨e, he, hfe⟩ := List.exists_of_findSome?_eq_some hv
  have hid := hk e (by rw [hfe]; simp)
  rw [← hid]
  exact List.mem_map_of_mem he

theorem sni_ext (h : HelloFields) (hs : h.sni ≠ []) : 0x0000 ∈ h.extIDs := by
  refine id_mem_of_findSome Extension.host? _ Extension.id_of_host h fun hn => hs ?_
  unfold HelloFields.sni
  rw [hn]
  rfl

theorem sigs_ext (h : HelloFields) (hs : h.sigs ≠ []) : 0x000d ∈ h.extIDs := by
  refine id_mem_of_findSome Extension.sigs? _ Extension.id_of_sigs h fun hn => hs ?_
  unfold HelloFields.sigs
  rw [hn]
  rfl

theorem flag_iff (h : HelloFields) :
    (if (h.sni != []) then str "d" else str "i")
      = (if 0x0000 ∈ h.extIDs then str "d" else str "i") ↔ (0x0000 ∈ h.extIDs → h.sni ≠ []) := by
  have hne : str "d" ≠ str "i" := by decide
  by_cases hs : h.sni = []
  · by_cases hx : 0x0000 ∈ h.extIDs
    · simp [hs, hx, hne.symm]
    · simp [hs, hx]
  · simp [hs, sni_ext h hs]

theorem dec02_inj (m n : Nat) (hm : m < 100) (hn : n < 100) (h : dec02 m = dec02 n) : m = n := by
  have hd := List.cons.inj h
  have h1 := congrArg UInt8.toNat hd.1
  have h2 := congrArg UInt8.toNat (List.cons.inj hd.2).1
  rw [UInt8.toNat_ofNat', UInt8.toNat_ofNat'] at h1 h2
  omega

theorem dec02_min_iff {m n : Nat} (h : m ≤ n) :
    dec02 (min m 99) = dec02 (min n 99) ↔ m = n ∨ 99 ≤ m := by
  constructor
  · intro he
    have hm := dec02_inj _ _ (by omega) (by omega) he
    omega
  · intro hc
    have hm : min m 99 = min n 99 := by omega
    rw [hm]

theorem cipherCount_iff (h : HelloFields) :
    dec02 (min (clean h.ciphers).length 99) = dec02 (min (ungreased h.ciphers).length 99) ↔
      (∀ c ∈ h.ciphers, ¬ Mistaken c) ∨ 99 ≤ (clean h.ciphers).length := by
  rw [dec02_min_iff (clean_length_le h.ciphers), clean_length_iff]

theorem named_kept (h : HelloFields) : h.namedExts.filter notGREASE = h.keptExts := by
  unfold HelloFields.namedExts HelloFields.keptExts HelloFields.named
  rw [← clean_ungreased, List.filter_comm]

/-- SNI, ALPN and the mistaken ones are what the lab leaves out -/
theorem keptExts_length_iff (h : HelloFields) :
    h.keptExts.length = (ungreased h.extIDs).length ↔
      0x0000 ∉ h.extIDs ∧ 0x0010 ∉ h.extIDs ∧ ∀ e ∈ h.extIDs, ¬ Mistaken e := by
  have hmem : ∀ e, e ∉ greaseValues → (e ∈ ungreased h.extIDs ↔ e ∈ h.extIDs) := fun e he =>
    mem_ungreased.trans (and_iff_left he)
  unfold HelloFields.keptExts HelloFields.named
  rw [← clean_ungreased, List.filter_filter, List.length_filter_eq_length_iff,
    ← notGREASE_ungreased_iff, ← hmem 0x0000 (by decide), ← hmem 0x0010 (by decide)]
  refine ⟨fun hall => ⟨fun hm => ?_, fun hm => ?_, fun e he => ?_⟩, fun ⟨h0, h1, hg⟩ e he => ?_⟩
  · exact absurd (hall _ hm) (by decide)
  · exact absurd (hall _ hm) (by decide)
  · exact (Bool.and_eq_true_iff.mp (hall e he)).2
  · have hne0 : e ≠ 0x0000 := fun hc => h0 (hc ▸ he)
    have hne1 : e ≠ 0x0010 := fun hc => h1 (hc ▸ he)
    simp [hne0, hne1, hg e he]

theorem count_iff (h : HelloFields) :
    dec02 (min (eClean h.extIDs).length 99) = dec02 (min (ungreased h.extIDs).length 99) ↔
      (0x0000 ∉ h.extIDs ∧ 0x0010 ∉ h.extIDs ∧ ∀ e ∈ h.extIDs, ¬ Mistaken e) ∨
        99 ≤ h.keptExts.length := by
  have hle : h.keptExts.length ≤ (ungreased h.extIDs).length :=
    le_trans (List.length_filter_le ..) (clean_length_le h.extIDs)
  rw [eClean_kept, dec02_min_iff hle, keptExts_length_iff]

theorem alpnRune_plain (b : Byte) (hb : AlNum b) : alpnRune b.toNat = b := by
  unfold alpnRune
  rw [if_pos, UInt8.ofNat_toNat]
  unfold AlNum at hb
  simp
  omega

theorem AlNum.ascii {b : Byte} (hb : AlNum b) : b.toNat < 0x80 := by
  unfold AlNum at hb
  omega

theorem sanitizeALPN_plain (c d : Byte) (hc : AlNum c) (hd : AlNum d) :
    sanitizeALPN (encodeRune c.toNat ++ encodeRune d.toNat) = [c, d] := by
  have he : ∀ b : Byte, AlNum b → encodeRune b.toNat = [b] := by
    intro b hb
    unfold encodeRune
    rw [if_pos hb.ascii, UInt8.ofNat_toNat]
  have hr : runes [c, d] = [c.toNat, d.toNat] := by
    refine runes_ascii [c, d] fun b hb => ?_
    obtain rfl | hb := List.mem_cons.mp hb
    · exact hc.ascii
    · rw [List.mem_singleton.mp hb]
      exact hd.ascii
  unfold sanitizeALPN
  rw [he c hc, he d hd]
  show List.take 2 ((runes [c, d]).map alpnRune ++ _) = _
  rw [hr]
  simp only [List.map_cons, List.map_nil, alpnRune_plain c hc, alpnRune_plain d hd]
  rfl

theorem alpnFirst_plain (alpn : List Bytes) (h : PlainALPN alpn) :
    alpnFirst alpn = foxALPN alpn := by
  cases alpn with
  | nil => rfl
  | cons a rest =>
    obtain ⟨c, mid, d, rfl, hc, hd⟩ := h a rfl
    have hlast : ∀ x, (mid ++ [d]).getLastD x = d := fun x => by
      rw [List.getLastD_eq_getLast?, List.getLast?_concat, Option.getD_some]
    have hfox : foxALPN ((c :: (mid ++ [d])) :: rest) = [c, d] := by
      show [c, (c :: (mid ++ [d])).getLastD 0x30] = [c, d]
      rw [List.getLastD_cons, hlast]
    rw [hfox, ← sanitizeALPN_plain c d hc hd]
    cases hm : mid ++ [d] with
    | nil => simp at hm
    | cons e mid' =>
      show sanitizeALPN (encodeRune c.toNat ++ encodeRune ((e :: mid').getLastD e).toNat) = _
      rw [← hm, hlast]

theorem sha12_eq_iff (s t : Bytes) : sha12 s = sha12 t ↔ s = t ∨ Collision s t := by
  refine ⟨fun h => ?_, fun h => ?_⟩
  · by_cases hst : s = t
    · exact Or.inl hst
    · exact Or.inr ⟨hst, h⟩
  · obtain rfl | ⟨_, h⟩ := h
    · rfl
    · exact h

/-- the digest of the empty text is not the constant for an empty list -/
theorem sha12_nil_ne : sha12 [] ≠ str "000000000000" := by decide +kernel

theorem sortUint16_eq_self_iff (vs : List UInt16) : vs = sortUint16 vs ↔ vs.Pairwise (· ≤ ·) := by
  refine ⟨fun h => ?_, fun h => (List.Pairwise.insertionSort_eq h).symm⟩
  rw [h]
  exact List.pairwise_insertionSort (· ≤ ·) vs

/-- the lab's ciphers are the sorted ones of FoxIO when it drops none and they are sorted -/
theorem clean_eq_sorted_iff (vs : List UInt16) : clean vs = sortUint16 (ungreased vs) ↔
    (∀ v ∈ vs, ¬ Mistaken v) ∧ (ungreased vs).Pairwise (· ≤ ·) := by
  constructor
  · intro he
    have hlen := congrArg List.length he
    rw [(sortUint16_perm _).length_eq] at hlen
    have hall := (clean_length_iff vs).mp hlen
    rw [(clean_eq_iff vs).mpr hall, sortUint16_eq_self_iff] at he
    exact ⟨hall, he⟩
  · rintro ⟨hall, hsorted⟩
    rw [(clean_eq_iff vs).mpr hall]
    exact (sortUint16_eq_self_iff _).mpr hsorted

theorem partB_iff (h : HelloFields) : sha12 (bSrc h.ciphers) = h.foxB ↔ ungreased h.ciphers ≠ [] ∧
    (((∀ c ∈ h.ciphers, ¬ Mistaken c) ∧ (ungreased h.ciphers).Pairwise (· ≤ ·)) ∨
      Collision (hexList (clean h.ciphers)) h.foxBSrc) := by
  have hb : bSrc h.ciphers = hexList (clean h.ciphers) := joinHex_keep _
  rw [hb]
  unfold HelloFields.foxB
  by_cases hc : ungreased h.ciphers = []
  · have hnone : clean h.ciphers = [] := by
      rw [← clean_ungreased, hc]
      rfl
    rw [if_pos hc, hnone]
    exact ⟨fun he => absurd he sha12_nil_ne, fun he => absurd hc he.1⟩
  · have hs : hexList (clean h.ciphers) = h.foxBSrc ↔
        clean h.ciphers = sortUint16 (ungreased h.ciphers) := ⟨hexList_inj _ _, congrArg hexList⟩
    rw [if_neg hc, sha12_eq_iff, hs, clean_eq_sorted_iff, and_iff_right hc]

theorem clean_eq_self_iff (vs : List UInt16) :
    clean vs = vs ↔ ∀ v ∈ vs, isGREASE16 v = false := by
  unfold clean notGREASE
  rw [List.filter_eq_self]
  simp

theorem cSrc_kept (h : HelloFields) :
    cSrc h.extIDs h.sigs = h.thirdText h.keptExts (clean h.sigs) := by
  unfold cSrc HelloFields.thirdText
  rw [joinHex_keep, joinHex_keep, eClean_kept]
  by_cases hs : h.sigs = []
  · rw [if_pos hs, if_neg (by simp [hs])]
    rfl
  · rw [if_neg hs, if_pos (List.length_pos_of_ne_nil hs)]
    rfl

theorem hexList_no_underscore (vs : List UInt16) : 0x5f ∉ hexList vs := by
  have hn := joinHex_no_underscore vs
  rw [joinHex_keep] at hn
  exact hn

/-- the two lists of a third text are read back, the first up to its order -/
theorem thirdText_inj_iff (h : HelloFields) (es es' ss ss' : List UInt16) :
    h.thirdText es ss = h.thirdText es' ss' ↔
      sortUint16 es = sortUint16 es' ∧ (h.sigs ≠ [] → ss = ss') := by
  unfold HelloFields.thirdText
  by_cases hs : h.sigs = []
  · rw [if_pos hs, if_pos hs, List.append_nil, List.append_nil]
    exact ⟨fun he => ⟨hexList_inj _ _ he, fun hn => absurd hs hn⟩, fun he => congrArg hexList he.1⟩
  · rw [if_neg hs, if_neg hs]
    refine (List.append_cons_inj_of_notMem (hexList_no_underscore _)
      (hexList_no_underscore _)).trans ?_
    refine ⟨fun he => ⟨hexList_inj _ _ he.1, fun _ => hexList_inj _ _ he.2.2⟩, fun he => ?_⟩
    exact ⟨congrArg hexList he.1, rfl, congrArg hexList (he.2 hs)⟩

/-- the lab lists the same extensions as FoxIO -/
theorem keptExts_sorted_iff (h : HelloFields) :
    sortUint16 h.keptExts = sortUint16 h.namedExts ↔ ∀ e ∈ h.extIDs, ¬ Mistaken e := by
  rw [sortUint16_eq_iff, ← notGREASE_ungreased_iff]
  constructor
  · intro hp
    have hlen := hp.length_eq
    rw [← named_kept, List.length_filter_eq_length_iff] at hlen
    intro e he
    by_cases hsel : e ∈ h.namedExts
    · exact hlen e hsel
    · -- SNI and ALPN are no GREASE
      by_cases h0 : e = 0x0000
      · rw [h0]
        decide
      by_cases h1 : e = 0x0010
      · rw [h1]
        decide
      exact absurd (List.mem_filter.mpr ⟨he, by simp [h0, h1]⟩) hsel
  · intro hall
    have hkept : ∀ e ∈ h.namedExts, notGREASE e = true := fun e he =>
      hall e (List.mem_of_mem_filter he)
    rw [← named_kept, List.filter_eq_self.mpr hkept]

theorem partC_iff (h : HelloFields) : sha12 (cSrc h.extIDs h.sigs) = h.foxC ↔ h.namedExts ≠ [] ∧
    (((∀ e ∈ h.extIDs, ¬ Mistaken e) ∧ ∀ s ∈ h.sigs, isGREASE16 s = false) ∨
      Collision (h.thirdText h.keptExts (clean h.sigs)) h.foxCSrc) := by
  rw [cSrc_kept]
  unfold HelloFields.foxC
  by_cases hn : h.namedExts = []
  · -- no signature algorithms without their extension, so the empty text is hashed
    have hs : h.sigs = [] := by
      by_contra hs
      have hm : 0x000d ∈ h.namedExts :=
        List.mem_filter.mpr ⟨mem_ungreased.mpr ⟨sigs_ext h hs, by decide⟩, by decide⟩
      rw [hn] at hm
      cases hm
    have htext : h.thirdText h.keptExts (clean h.sigs) = [] := by
      unfold HelloFields.thirdText
      rw [← named_kept, hn, if_pos hs]
      rfl
    rw [if_pos hn, htext]
    exact ⟨fun he => absurd he sha12_nil_ne, fun he => absurd hn he.1⟩
  · have htexts : h.thirdText h.keptExts (clean h.sigs) = h.foxCSrc ↔
        (∀ e ∈ h.extIDs, ¬ Mistaken e) ∧ ∀ s ∈ h.sigs, isGREASE16 s = false := by
      unfold HelloFields.foxCSrc
      rw [thirdText_inj_iff, keptExts_sorted_iff, clean_eq_self_iff]
      refine and_congr_right fun _ => ⟨fun hc s hs => hc (List.ne_nil_of_mem hs) s hs, fun hc _ => hc⟩
    rw [if_neg hn, sha12_eq_iff, htexts, and_iff_right hn]

theorem foxVersion_length (v : UInt16) : (foxVersion v).length = 2 := by
  by_cases hv : v ∈ otherVersions
  · simp only [otherVersions, List.mem_cons, List.not_mem_nil, or_false] at hv
    obtain rfl | rfl | rfl | rfl | rfl := hv <;> rfl
  · rw [foxVersion_of_not_other v hv, verStr_length]

theorem foxALPN_length (alpn : List Bytes) : (foxALPN alpn).length = 2 := by
  cases alpn <;> rfl

theorem foxFlag_length (h : HelloFields) :
    (if 0x0000 ∈ h.extIDs then str "d" else str "i").length = 1 := by
  split <;> rfl

theorem foxA_length (h : HelloFields) : h.foxA.length = 10 := by
  unfold HelloFields.foxA
  simp only [List.length_append, foxVersion_length, foxALPN_length, foxFlag_length]
  rfl

theorem foxB_length (h : HelloFields) : h.foxB.length = 12 := by
  unfold HelloFields.foxB
  split
  · rfl
  · exact sha12_length _

/-- texts whose pieces have equal lengths are equal exactly if the pieces are -/
theorem append_eq_iff {a a' b b' : Bytes} (hl : a.length = a'.length) :
    a ++ b = a' ++ b' ↔ a = a' ∧ b = b' := by
  refine ⟨fun h => List.append_inj h hl, fun h => ?_⟩
  rw [h.1, h.2]

theorem partA_iff (h : HelloFields) (ha : PlainALPN h.alpn) :
    ja4A h.versions h.version (h.sni != []) h.ciphers h.extIDs h.alpn = h.foxA ↔
      h.VersionFits ∧ (0x0000 ∈ h.extIDs → h.sni ≠ []) ∧
        ((∀ c ∈ h.ciphers, ¬ Mistaken c) ∨ 99 ≤ (clean h.ciphers).length) ∧
        ((0x0000 ∉ h.extIDs ∧ 0x0010 ∉ h.extIDs ∧ ∀ e ∈ h.extIDs, ¬ Mistaken e) ∨
          99 ≤ h.keptExts.length) := by
  have two : ∀ n, (dec02 n).length = 2 := fun _ => rfl
  unfold ja4A HelloFields.foxA
  rw [append_eq_iff (by simp only [List.length_append, verStr_length, foxVersion_length,
      sniFlag_length, foxFlag_length, two]),
    append_eq_iff (by simp only [List.length_append, verStr_length, foxVersion_length,
      sniFlag_length, foxFlag_length, two]),
    append_eq_iff (by simp only [List.length_append, verStr_length, foxVersion_length,
      sniFlag_length, foxFlag_length]),
    append_eq_iff (by simp only [List.length_append, verStr_length, foxVersion_length]),
    append_eq_iff rfl, version_iff, flag_iff, cipherCount_iff, count_iff, alpnFirst_plain _ ha]
  tauto

/-- **JA4 of the lab against JA4 of FoxIO**: the two strings of a ClientHello agree exactly if the
hello satisfies `FoxFits`. -/
theorem ja4_fox_iff (h : ClientHello) (hd : h.extIDs.Nodup) (ha : PlainALPN h.alpn)
    (recVer : UInt16) (trailing : Bytes) : ∃ m, analyze (h.record recVer trailing) = .ok m ∧
      (m.ja4 = h.foxJA4 ↔ h.FoxFits) := by
  refine ⟨_, analyze_of_parse (parse_distinct h hd recVer trailing), ?_⟩
  show buildJA4 h.versions h.version (h.sni != []) h.ciphers h.extIDs h.sigs h.alpn = _ ↔ _
  unfold buildJA4 HelloFields.foxJA4
  rw [append_eq_iff (by simp [ja4A_length, foxA_length, sha12_length, foxB_length]),
    append_eq_iff (by simp [ja4A_length, foxA_length, sha12_length, foxB_length]),
    append_eq_iff (by simp [ja4A_length, foxA_length]),
    append_eq_iff (by simp [ja4A_length, foxA_length]),
    partA_iff _ ha, partB_iff, partC_iff]
  refine ⟨fun he => ?_, fun hf => ?_⟩
  · obtain ⟨⟨⟨⟨⟨hv, hs, hn, hc⟩, _⟩, hb⟩, _⟩, hx⟩ := he
    exact ⟨hv, hs, hn, hc, hb.1, hb.2, hx.1, hx.2⟩
  · exact ⟨⟨⟨⟨⟨hf.version, hf.sni, hf.cipherCount, hf.counts⟩, rfl⟩, hf.ciphers, hf.order⟩, rfl⟩,
      hf.exts, hf.sigs⟩

def plainExts : List Extension :=
  [.supportedGroups [0x001d], .signatureAlgorithms [0x0403], .supportedVersions [0x0304]]

theorem plainExts_fit : ∀ e ∈ plainExts, e.Fits := by
  intro e he
  unfold plainExts at he
  simp only [List.mem_cons, List.not_mem_nil, or_false] at he
  rcases he with rfl | rfl | rfl <;> simp [Extension.Fits]

/-- a hello without SNI and ALPN, its ciphers in ascending order -/
def plainHello : ClientHello where
  version := 0x0303
  random := List.replicate 32 7
  sessionID := []
  ciphers := [0x2a2a, 0x1301, 0x1302]
  compression := [0]
  block := some plainExts
  random_length := sampleHello.random_length
  sessionID_fits := by decide
  compression_fits := sampleHello.compression_fits
  exts_fit := plainExts_fit
  fits := by decide +kernel

theorem ja4_fox_plain : ∃ m, analyze (plainHello.record 0x0301 []) = .ok m ∧
    m.ja4 = plainHello.foxJA4 := by
  have halpn : PlainALPN plainHello.alpn := by
    intro a ha
    rw [show plainHello.alpn = [] from rfl] at ha
    cases ha
  obtain ⟨m, hm, hiff⟩ := ja4_fox_iff plainHello (by decide) halpn 0x0301 []
  have hvers : plainHello.VersionFits := ⟨by decide, .inl ⟨by decide, by decide⟩⟩
  have hnone : 0x0000 ∉ plainHello.extIDs ∧ 0x0010 ∉ plainHello.extIDs := ⟨by decide, by decide⟩
  have hciphers : ∀ c ∈ plainHello.ciphers, ¬ Mistaken c := not_mistaken_of_all (by decide)
  have hexts : ∀ e ∈ plainHello.extIDs, ¬ Mistaken e := not_mistaken_of_all (by decide)
  have hsigs : ∀ s ∈ plainHello.sigs, isGREASE16 s = false := by
    intro s hs
    have hone : s ∈ [(0x0403 : UInt16)] := hs
    rw [List.mem_singleton.mp hone]
    decide
  exact ⟨m, hm, hiff.mpr ⟨hvers, fun h => absurd h hnone.1, .inl hciphers,
    .inl ⟨hnone.1, hnone.2, hexts⟩, by decide, .inl ⟨hciphers, by decide +kernel⟩, by decide,
    .inl ⟨hexts, hsigs⟩⟩⟩

/-- SNI and ALPN are two of the extensions that FoxIO counts and the lab does not. -/
theorem ja4_not_fox : sampleHello.extIDs.Nodup ∧ PlainALPN sampleHello.alpn ∧
    ∃ m, analyze (sampleHello.record 0x0301 []) = .ok m ∧ m.ja4 ≠ sampleHello.foxJA4 := by
  have hd : sampleHello.extIDs.Nodup := by decide
  refine ⟨hd, ?_, _, analyze_of_parse (parse_distinct sampleHello hd 0x0301 []), by decide +kernel⟩
  intro a ha
  rw [← Option.some.inj ha]
  exact ⟨0x68, [], 0x32, rfl, Or.inl (by decide), Or.inr (Or.inr (by decide))⟩

/-! ## classic JA3 -/

/-- the content of `ec_point_formats`: a one-byte length, then the points -/
def Extension.points? (e : Extension) : Option Bytes :=
  if e.id = 0x000b then some ((e.data.drop 1).take (e.data.headD 0).toNat) else none

def HelloFields.points (h : HelloFields) : Bytes := (h.exts.findSome? Extension.points?).getD []

/-- version, ciphers, extensions, groups and point formats, without GREASE, in wire order -/
def HelloFields.classicJA3 (h : HelloFields) : Bytes :=
  join [decimal h.version.toNat, dashed (ungreased h.ciphers), dashed (ungreased h.extIDs),
    dashed (ungreased h.groups), join (h.points.map fun p => decimal p.toNat) (str "-")] (str ",")

theorem points_vec8 (pts : Bytes) (hf : pts.length < 256) (hu : 0x000b ∉ typedIDs) :
    (Extension.other 0x000b (vec8 pts) hu).points? = some pts := by
  have hn : (UInt8.ofNat pts.length).toNat = pts.length := by
    rw [UInt8.toNat_ofNat', Nat.mod_eq_of_lt hf]
  show some (pts.take (UInt8.ofNat pts.length).toNat) = some pts
  rw [hn, List.take_length]

theorem joinUint8_eq_nil_iff (pts : Bytes) : joinUint8 pts = [] ↔ pts = [] := by
  unfold joinUint8 join
  cases pts with
  | nil => exact ⟨fun _ => rfl, fun _ => rfl⟩
  | cons p pts =>
    cases pts with
    | nil => simp [decimal_ne_nil]
    | cons q pts => simp [List.intercalate_cons_cons, decimal_ne_nil]

/-- no decimal, and no list of them, has a byte that is neither digit nor dash -/
theorem comma_notMem_decimal (n : Nat) : 0x2c ∉ decimal n := fun h =>
  absurd (decimal_digit n _ h).1 (by decide)

theorem comma_notMem_decimals (ns : List Nat) : 0x2c ∉ join (ns.map decimal) (str "-") := by
  intro h
  obtain h | ⟨x, hx, hb⟩ := mem_join h
  · exact absurd h (by decide)
  · obtain ⟨n, -, rfl⟩ := List.mem_map.mp hx
    exact comma_notMem_decimal n hb

theorem comma_notMem_dashed (vs : List UInt16) : 0x2c ∉ dashed vs := by
  have hn := comma_notMem_decimals (vs.map UInt16.toNat)
  rw [List.map_map] at hn
  exact hn

theorem dashed_inj (vs ws : List UInt16) (h : dashed vs = dashed ws) : vs = ws := by
  have part : ∀ us : List UInt16, ∀ x ∈ us.map fun v => decimal v.toNat, x ≠ [] ∧ (0x2d : Byte) ∉ x := by
    intro us x hx
    obtain ⟨v, -, rfl⟩ := List.mem_map.mp hx
    exact ⟨decimal_ne_nil _, fun hd => absurd (decimal_digit _ _ hd).1 (by decide)⟩
  have hmap := join_inj 0x2d _ _ (part vs) (part ws) h
  exact List.map_injective_iff.mpr (fun v w hvw => UInt16.toNat_inj.mp (decimal_inj _ _ hvw)) hmap

/-- a text of parts without commas is read back -/
theorem join_comma_inj {xs ys : List Bytes} (hx : xs ≠ []) (hy : ys ≠ []) (hxs : ∀ x ∈ xs, 0x2c ∉ x)
    (hys : ∀ y ∈ ys, 0x2c ∉ y) (h : join xs (str ",") = join ys (str ",")) : xs = ys := by
  have hsplit : ∀ l : List Bytes, l ≠ [] → (∀ x ∈ l, 0x2c ∉ x) → (join l (str ",")).splitOn 0x2c = l :=
    fun l hl hs => List.splitOn_intercalate 0x2c hs hl
  rw [← hsplit xs hx hxs, ← hsplit ys hy hys, h]

theorem dashed_clean_iff (vs : List UInt16) :
    dashed (clean vs) = dashed (ungreased vs) ↔ ∀ v ∈ vs, ¬ Mistaken v := by
  rw [← clean_eq_iff]
  exact ⟨dashed_inj _ _, congrArg dashed⟩

/-- where `buildJA3` and classic JA3 agree -/
structure ClassicFits (h : HelloFields) : Prop where
  points : h.points = []
  ciphers : ∀ c ∈ h.ciphers, ¬ Mistaken c
  exts : ∀ e ∈ h.extIDs, ¬ Mistaken e
  groups : ∀ g ∈ h.groups, ¬ Mistaken g

theorem buildJA3_iff (h : HelloFields) :
    (buildJA3 h.version h.ciphers h.extIDs h.groups []).1 = h.classicJA3 ↔ ClassicFits h := by
  have hpoints : joinUint8 h.points = join ((h.points.map UInt8.toNat).map decimal) (str "-") := by
    rw [List.map_map]
    rfl
  have hcomma : ∀ cs es gs : List UInt16, ∀ ps : List Byte, ∀ x ∈ [decimal h.version.toNat, dashed cs,
      dashed es, dashed gs, joinUint8 ps], 0x2c ∉ x := by
    intro cs es gs ps x hx
    simp only [List.mem_cons, List.not_mem_nil, or_false] at hx
    obtain rfl | rfl | rfl | rfl | rfl := hx
    · exact comma_notMem_decimal _
    · exact comma_notMem_dashed _
    · exact comma_notMem_dashed _
    · exact comma_notMem_dashed _
    · have hn := comma_notMem_decimals (ps.map UInt8.toNat)
      rw [List.map_map] at hn
      exact hn
  unfold buildJA3 HelloFields.classicJA3
  rw [joinUint16_skip, joinUint16_skip, joinUint16_skip]
  constructor
  · intro he
    have hparts := join_comma_inj (List.cons_ne_nil _ _) (List.cons_ne_nil _ _) (hcomma _ _ _ [])
      (hcomma _ _ _ h.points) he
    simp only [List.cons.injEq, and_true, true_and] at hparts
    obtain ⟨hc, hx, hg, hp⟩ := hparts
    exact ⟨(joinUint8_eq_nil_iff _).mp hp.symm, (dashed_clean_iff _).mp hc, (dashed_clean_iff _).mp hx,
      (dashed_clean_iff _).mp hg⟩
  · intro hf
    have hc := (dashed_clean_iff _).mpr hf.ciphers
    have hx := (dashed_clean_iff _).mpr hf.exts
    have hg := (dashed_clean_iff _).mpr hf.groups
    unfold dashed at hc hx hg ⊢
    rw [hc, hx, hg, hf.points]
    rfl

/-- **JA3 of the lab against classic JA3**: text and digest agree exactly if the hello lists no
point formats, and no value that the lab takes for GREASE. -/
theorem ja3_classic_iff (h : ClientHello) (hd : h.extIDs.Nodup) (recVer : UInt16)
    (trailing : Bytes) : ∃ m, analyze (h.record recVer trailing) = .ok m ∧
      (m.ja3 = h.classicJA3 ∧ m.ja3Hash = md5String h.classicJA3 ↔ ClassicFits h.toHelloFields) := by
  refine ⟨_, analyze_of_parse (parse_distinct h hd recVer trailing), ?_⟩
  refine ⟨fun he => (buildJA3_iff _).mp he.1, fun hf => ?_⟩
  have hja3 := (buildJA3_iff h.toHelloFields).mpr hf
  refine ⟨hja3, ?_⟩
  show md5String (buildJA3 h.version h.ciphers h.extIDs h.groups []).1 = _
  rw [hja3]

theorem ja3_classic_sample : ∃ m, analyze (sampleHello.record 0x0301 []) = .ok m ∧
    m.ja3 = sampleHello.classicJA3 ∧ m.ja3Hash = md5String sampleHello.classicJA3 := by
  obtain ⟨m, hm, hiff⟩ := ja3_classic_iff sampleHello (by decide) 0x0301 []
  exact ⟨m, hm, hiff.mpr ⟨by decide, not_mistaken_of_all (by decide), not_mistaken_of_all (by decide),
    not_mistaken_of_all (by decide)⟩⟩

def pointExts : List Extension :=
  [.supportedGroups [0x001d], .other 0x000b (vec8 [0]) (by decide)]

theorem pointExts_fit : ∀ e ∈ pointExts, e.Fits := by
  intro e he
  unfold pointExts at he
  simp only [List.mem_cons, List.not_mem_nil, or_false] at he
  rcases he with rfl | rfl <;> simp [Extension.Fits]

/-- a hello with one group and the uncompressed point format -/
def pointHello : ClientHello where
  version := 0x0303
  random := List.replicate 32 7
  sessionID := []
  ciphers := [0x1301]
  compression := [0]
  block := some pointExts
  random_length := plainHello.random_length
  sessionID_fits := plainHello.sessionID_fits
  compression_fits := plainHello.compression_fits
  exts_fit := pointExts_fit
  fits := by decide +kernel

/-- `analyze` passes no points to `buildJA3`: the fifth list stays empty. -/
theorem ja3_not_classic : pointHello.extIDs.Nodup ∧ pointHello.points = [0] ∧
    ∃ m, analyze (pointHello.record 0x0301 []) = .ok m ∧
      m.ja3 = str "771,4865,10-11,29," ∧ pointHello.classicJA3 = str "771,4865,10-11,29,0" ∧
      m.ja3 ≠ pointHello.classicJA3 := by
  have hd : pointHello.extIDs.Nodup := by decide
  have hp : pointHello.points = [0] :=
    congrArg (fun o => o.getD []) (points_vec8 [0] (by decide) (by decide))
  exact ⟨hd, hp, _, analyze_of_parse (parse_distinct pointHello hd 0x0301 []), by decide +kernel,
    by decide +kernel, by decide +kernel⟩

end Capture
