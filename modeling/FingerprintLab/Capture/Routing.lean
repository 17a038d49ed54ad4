import FingerprintLab.Capture.Rejected
import FingerprintLab.Labctl.Words

/-!
# From the SNI to a directory

A client chooses the SNI, and with it the directory that its hello is promoted to.

* `profileDir`, `Confined`   the directory of a promotion, and that it is a child of the root whose
                             name is a word;
* `confined`                 every promotion is confined, whatever the SNI holds;
* `routed`                   the SNI of a word leads to the directory of that word;
* `handled_frame`            a handler leaves the other directories alone;
* `sni_routing`              targets are confined and separated, and a verification is a target of
                             its own.
-/

set_option linter.unusedVariables false

namespace Capture
open Go Lab Paths
open Labctl (Word word_idText idRune_cases lower_of_idRune)

def sniSuffix : Bytes := str ".fp.lab.local"

/-- the SNI that `verify` sends for a profile -/
def verifySNI (id : Bytes) : Bytes := str "verify-" ++ id ++ str ".fp.lab.local"

/-- `filepath.Join(root, id)` -/
def profileDir (root id : Bytes) : Location := join [root, id]

/-- The directory of the promotion is a direct child of the root, whatever the root is; its name is a
word, without a dot or a slash, and nothing is written elsewhere. -/
structure Confined (p : Promotion) : Prop where
  word : Word p.id
  ne_nil : p.id ≠ []
  plain : slash ∉ p.id ∧ 0x2e ∉ p.id
  writes : ∀ w ∈ p.writes, w.id = p.id
  child : ∀ root, profileDir root p.id = (locate root).child p.id

/-! ## confinement -/

theorem word_sanitize (s : Bytes) : Word (sanitize s) := by
  unfold sanitize
  dsimp only
  split
  · decide
  · exact word_idText s

theorem profileDir_word (root : Bytes) {id : Bytes} (h : Word id) (hne : id ≠ []) :
    profileDir root id = (locate root).child id := by
  rw [← join_one root]
  exact join_child [root] (h.isName hne)

theorem word_plain {id : Bytes} (h : Word id) : slash ∉ id ∧ 0x2e ∉ id :=
  ⟨fun hs => absurd (h slash hs) (by decide), fun hs => absurd (h 0x2e hs) (by decide)⟩

theorem writes_id (p : Promotion) : ∀ w ∈ p.writes, w.id = p.id := by
  intro w hw
  simp only [Promotion.writes, List.mem_cons, List.not_mem_nil, or_false] at hw
  rcases hw with rfl | rfl | rfl | rfl <;> rfl

/-- a promotion of any target -/
theorem confined {targetID dir hello : Bytes} {m : Meta} {p : Promotion}
    (h : writeImportableProfile targetID dir hello m = some p) : Confined p := by
  obtain ⟨hid, -⟩ := writeImportableProfile_some h
  have hword : Word p.id := hid ▸ word_sanitize targetID
  have hne : p.id ≠ [] := hid ▸ sanitize_ne_nil targetID
  exact ⟨hword, hne, word_plain hword, writes_id p, fun root => profileDir_word root hword hne⟩

theorem handle_confined {fl : Flags} {c : Conn} {p : Promotion} (h : handle fl c = some p) :
    Confined p := by
  unfold handle at h
  obtain ⟨m, -, h⟩ := Option.bind_eq_some_iff.mp h
  exact confined h

/-! ## the round trip -/

/-- neither the letters of a word nor the suffix are changed -/
theorem lower_sni {x : Bytes} (h : Word x) : ∀ b ∈ x ++ sniSuffix, IsLower b := by
  have hsuffix : ∀ b ∈ sniSuffix, IsLower b := by decide +kernel
  intro b hb
  exact (List.mem_append.mp hb).elim (fun hx => lower_of_idRune (h b hx)) (hsuffix b)

theorem trimSpace_sni {x : Bytes} (h : Word x) : trimSpace (x ++ sniSuffix) = x ++ sniSuffix := by
  have hsuffix : ∀ b ∈ sniSuffix, isSpace b.toNat = false := by decide +kernel
  have hspace : ∀ r, r < 0x80 → idRune r = true → isSpace r = false := by decide
  refine trimRunes_ascii isSpace _ (fun b hb => (lower_sni h b hb).ascii) fun b hb => ?_
  obtain hx | hs := List.mem_append.mp hb
  · exact hspace _ (h.ascii b hx) (h b hx)
  · exact hsuffix b hs

theorem targetFromSNI_word {x : Bytes} (h : Word x) (hne : x ≠ []) (fallback : Bytes) :
    targetFromSNI (x ++ sniSuffix) fallback = x := by
  have hsni : x ++ sniSuffix ≠ [] := List.append_ne_nil_of_left_ne_nil hne _
  have hsuffix : sniSuffix.isSuffixOf (x ++ sniSuffix) = true :=
    List.isSuffixOf_iff_suffix.mpr (List.suffix_append x sniSuffix)
  have htake : (x ++ sniSuffix).take ((x ++ sniSuffix).length - sniSuffix.length) = x := by
    rw [List.length_append, Nat.add_sub_cancel, List.take_left]
  unfold targetFromSNI
  dsimp only
  rw [trimSpace_sni h, toLower_of_lower _ (lower_sni h), if_neg hsni]
  show (if sniSuffix.isSuffixOf (x ++ sniSuffix) = true then
    if (x ++ sniSuffix).take ((x ++ sniSuffix).length - sniSuffix.length) ≠ [] ∧
        0x2e ∉ (x ++ sniSuffix).take ((x ++ sniSuffix).length - sniSuffix.length)
      then (x ++ sniSuffix).take ((x ++ sniSuffix).length - sniSuffix.length) else fallback
    else fallback) = x
  rw [if_pos hsuffix, htake, if_pos ⟨hne, (word_plain h).2⟩]

theorem sanitize_word {x : Bytes} (h : Word x) (hne : x ≠ []) : sanitize x = x := by
  unfold sanitize
  dsimp only
  rw [h.idText, if_neg hne]

theorem writeImportableProfile_word {x : Bytes} (h : Word x) (hne : x ≠ [])
    (hunk : x ≠ str "unknown") (dir hello : Bytes) (m : Meta) :
    ∃ p, writeImportableProfile x dir hello m = some p ∧ p.id = x ∧ p.hello = hello := by
  unfold writeImportableProfile
  dsimp only
  rw [sanitize_word h hne, if_neg (not_or.mpr ⟨hne, hunk⟩)]
  exact ⟨_, rfl, rfl, rfl⟩

/-- the handler of a hello that `analyze` accepts -/
theorem handle_analyzed (fl : Flags) {c : Conn} {m : Meta} (h : analyze c.rawHello = .ok m) :
    ∃ dir m', handle fl c =
      writeImportableProfile (targetFromSNI m.sni fl.targetHint) dir c.rawHello m' := by
  have hstart : startMeta c.rawHello = some m := by
    unfold startMeta
    rw [h]
  unfold handle
  rw [hstart]
  cases c.fingerprinter with
  | none =>
    simp only [Option.bind_eq_bind, Option.bind_some]
    exact ⟨_, _, rfl⟩
  | some err =>
    simp only [Option.bind_eq_bind, Option.bind_some]
    exact ⟨_, _, rfl⟩

/-- a hello with the SNI of a word is promoted under that word -/
theorem routed (fl : Flags) {x : Bytes} (h : Word x) (hne : x ≠ []) (hunk : x ≠ str "unknown")
    {c : Conn} {m : Meta} (hm : analyze c.rawHello = .ok m) (hsni : m.sni = x ++ sniSuffix) :
    ∃ p, handle fl c = some p ∧ p.id = x ∧ p.hello = c.rawHello := by
  obtain ⟨dir, m', hw⟩ := handle_analyzed fl hm
  rw [hsni, targetFromSNI_word h hne] at hw
  rw [hw]
  exact writeImportableProfile_word h hne hunk dir c.rawHello m'

/-! ## the other directories -/

theorem handled_frame {fl : Flags} {c : Conn} {p : Promotion} (h : handle fl c = some p) (t : Tree)
    {id : Bytes} (hne : id ≠ p.id) : handled fl c t id = t id := by
  unfold handled
  rw [h]
  exact Tree.foldl_apply_of_ne (fun w hw he => hne (he.symm.trans (writes_id p w hw))) t

theorem verify_word {x : Bytes} (h : Word x) : Word (str "verify-" ++ x) := by
  have hverify : Word (str "verify-") := by decide
  exact hverify.append h

theorem verify_ne_unknown (x : Bytes) : str "verify-" ++ x ≠ str "unknown" := by
  have hv : (str "verify-" ++ x).head? = some 0x76 := rfl
  intro he
  rw [he] at hv
  exact absurd hv (by decide)

/-- **SNI routing is confined and separates targets**: every promotion is confined, for every SNI and
default target; a hello with the SNI of a word is written to the directory of that word and nowhere
else, and two words have two directories; and a verification of a profile leaves every directory
but its own alone. -/
theorem sni_routing :
    (∀ sni fallback dir hello m p,
      writeImportableProfile (targetFromSNI sni fallback) dir hello m = some p → Confined p) ∧
    (∀ fl c p, handle fl c = some p → Confined p) ∧
    (∀ x, Word x → x ≠ [] → x ≠ str "unknown" →
      (∀ fallback, sanitize (targetFromSNI (x ++ sniSuffix) fallback) = x) ∧
      ∀ fl c m, analyze c.rawHello = .ok m → m.sni = x ++ sniSuffix →
        (∃ p, handle fl c = some p ∧ p.id = x) ∧
        ∀ t : Tree, (handled fl c t x).hello = some c.rawHello ∧
          ∀ id, id ≠ x → handled fl c t id = t id) ∧
    (∀ x y, Word x → x ≠ [] → Word y → y ≠ [] → x ≠ y →
      ∀ root, profileDir root x ≠ profileDir root y) ∧
    ∀ x, Word x → ∀ fl c m, analyze c.rawHello = .ok m → m.sni = verifySNI x →
      (∃ p, handle fl c = some p ∧ p.id = str "verify-" ++ x) ∧
      ∀ (t : Tree) id, id ≠ str "verify-" ++ x → handled fl c t id = t id := by
  refine ⟨fun sni fallback dir hello m p h => confined h, fun fl c p h => handle_confined h,
    fun x hx hne hunk => ⟨fun fallback => ?_, fun fl c m hm hsni => ?_⟩,
    fun x y hx hxne hy hyne hxy root he => ?_, fun x hx fl c m hm hsni => ?_⟩
  · rw [targetFromSNI_word hx hne, sanitize_word hx hne]
  · obtain ⟨p, hp, rfl, hhello⟩ := routed fl hx hne hunk hm hsni
    refine ⟨⟨p, hp, rfl⟩, fun t => ⟨?_, fun id hid => handled_frame hp t hid⟩⟩
    unfold handled
    rw [hp]
    show (p.writes.foldl Tree.apply t p.id).hello = _
    rw [writes_apply, hhello]
  · rw [profileDir_word root hx hxne, profileDir_word root hy hyne] at he
    exact hxy (child_inj he)
  · have hne : str "verify-" ++ x ≠ [] := List.append_ne_nil_of_left_ne_nil (by decide) x
    obtain ⟨p, hp, hid, -⟩ := routed fl (verify_word hx) hne (verify_ne_unknown x) hm hsni
    refine ⟨⟨p, hp, hid⟩, fun t id hother => handled_frame hp t ?_⟩
    rw [hid]
    exact hother

/-! ## a target and its verification -/

def sniConn (sni : Bytes) : Conn where
  rawHello := { namedHello [0x1301] with block := some [.serverName sni] }.record 0x0301 []

theorem sniConn_analyzed (sni : Bytes)
    (h : (analyze (sniConn sni).rawHello).toOption.map Meta.sni = some sni) :
    ∃ m, analyze (sniConn sni).rawHello = .ok m ∧ m.sni = sni := by
  cases ha : analyze (sniConn sni).rawHello with
  | error e =>
    rw [ha] at h
    cases h
  | ok m =>
    rw [ha] at h
    exact ⟨m, rfl, Option.some.inj h⟩

/-- the hello of `brave` and its verification -/
theorem sni_routing_brave :
    (∃ r, writeImportableProfile (targetFromSNI (str "brave" ++ sniSuffix) []) [] [] {} = some r ∧
      Confined r) ∧
    ∃ p q, handle defaultFlags (sniConn (str "brave.fp.lab.local")) = some p ∧
      handle defaultFlags (sniConn (verifySNI (str "brave"))) = some q ∧ Confined p ∧ Confined q ∧
      p.id = str "brave" ∧ q.id = str "verify-brave" ∧
      profileDir (str "/profiles") p.id ≠ profileDir (str "/profiles") q.id ∧
      ∀ t, handled defaultFlags (sniConn (verifySNI (str "brave"))) t p.id = t p.id := by
  have hword : Word (str "brave") := by decide
  have hnil : str "brave" ≠ [] := by decide
  have hunk : str "brave" ≠ str "unknown" := by decide
  have hne : str "brave" ≠ str "verify-" ++ str "brave" := by decide
  obtain ⟨m, hm, hsni⟩ := sniConn_analyzed (str "brave.fp.lab.local") (by decide +kernel)
  obtain ⟨m', hm', hsni'⟩ := sniConn_analyzed (verifySNI (str "brave")) (by decide +kernel)
  obtain ⟨hany, hconfined, hexact, hdistinct, hverify⟩ := sni_routing
  obtain ⟨⟨p, hp, hid⟩, -⟩ := (hexact _ hword hnil hunk).2 defaultFlags _ m hm hsni
  obtain ⟨⟨q, hq, hid'⟩, hframe⟩ := hverify _ hword defaultFlags _ m' hm' hsni'
  refine ⟨?_, p, q, hp, hq, hconfined _ _ p hp, hconfined _ _ q hq, hid, hid', ?_, fun t => ?_⟩
  · obtain ⟨r, hr, -⟩ := writeImportableProfile_word hword hnil hunk [] [] {}
    rw [← targetFromSNI_word hword hnil []] at hr
    exact ⟨r, hr, hany _ _ _ _ _ r hr⟩
  · rw [hid, hid']
    exact hdistinct _ _ hword hnil (by decide) (by decide) hne _
  · rw [hid]
    exact hframe t _ hne

end Capture
