import FingerprintLab.Quic.Match
import FingerprintLab.Quic.Spelling

/-!
# The structural comparison and the classification

`compare_structural.py` reads two observations with a normaliser of its own and compares the sets of
parameters, the counts of datagrams and two markers.

* `load`, `structural_match`   the comparison;
* `normElem_greaseToken`, `structural_sets`   a structural match means equal sets for the matcher;
* `FitsSet`                    an entry fits a set of parameters, whatever the source id;
* `structural_agrees_iff`      two matching observations get one classification exactly if their
                               source ids make no difference to such an entry.
-/

set_option linter.unusedVariables false

namespace Quic
open Go Py

/-! ## the comparison -/

/-- one element of `tp_n`; `none` for an integer that `str` refuses -/
def greaseToken (u : Unicode) : TPElem → Option Bytes
  | .null => some (str "None")
  | .int n =>
    if n = 27 then some (str "GREASE")
    else if (decimal n.natAbs).length ≤ maxStrDigits then some (decInt n) else none
  | .str s => some (if u.upper s = str "GREASE" then str "GREASE" else s)

structure Loaded where
  id : Option Bytes
  family : Option Bytes
  tp : List Bytes
  dg : Nat
  has_011 : Bool
  has_3128 : Bool
  emit : Option Emit

def load (u : Unicode) (d : ProfileDir) : Option Loaded := do
  let prof ← d.profile
  let exp := prof.expected.get.getD {}
  let tp_n ← (exp.tpIDSet.get.getD []).mapM (greaseToken u)
  return {
    id := prof.id.get
    family := prof.family.get
    tp := tp_n.toFinset.sort (· ≤ ·)
    dg := (binFiles d.initials).card
    has_011 := str "0x11" ∈ tp_n
    has_3128 := str "0x3128" ∈ tp_n
    emit := prof.emit.get }

def structural_match (a b : Loaded) : Bool :=
  a.tp = b.tp && a.dg = b.dg && a.has_011 = b.has_011 && a.has_3128 = b.has_3128

/-! ## one element -/

section
variable (u : Unicode)

/-- an integer and its decimal text have one token -/
theorem normString_decInt {n : Int} (hn : n ≠ 27) (hlen : (decimal n.natAbs).length ≤ maxStrDigits) :
    normString u (decInt n) = hex n := by
  have hplain : ∀ b ∈ decInt n, Plain b := by
    intro b hb
    obtain hb | rfl := decInt_chars n b hb
    · exact plain_of_isHex (isHex_of_isDec hb)
    · exact ⟨by decide, by decide⟩
  rw [normString_numeral u (strip_plain _ hplain) (decInt_chars n), if_neg (decInt_ne_27 hn),
    parseInt_decInt u n hlen]

/-- the matcher's token of an element is that of the comparison's -/
theorem normElem_greaseToken (hupper : ∀ s, u.upper s = str "GREASE" → strip s = s) {x : TPElem}
    {t : Bytes} (hx : x ≠ .null) (h : greaseToken u x = some t) :
    normElem u x = some (normString u t) := by
  cases x with
  | null => exact absurd rfl hx
  | int n =>
    show some (if n = 27 then str "GREASE" else hex n) = _
    unfold greaseToken at h
    dsimp only at h
    by_cases hn : n = 27
    · rw [if_pos hn] at h
      rw [if_pos hn, ← Option.some.inj h, normString_GREASE]
    · rw [if_neg hn] at h
      rw [if_neg hn]
      by_cases hlen : (decimal n.natAbs).length ≤ maxStrDigits
      · rw [if_pos hlen] at h
        rw [← Option.some.inj h, normString_decInt u hn hlen]
      · rw [if_neg hlen] at h
        cases h
  | str s =>
    show some (normString u s) = _
    rw [← Option.some.inj h]
    by_cases hs : u.upper s = str "GREASE"
    · rw [if_pos hs, normString_GREASE]
      unfold normString
      dsimp only
      rw [hupper s hs, if_pos (Or.inl hs)]
    · rw [if_neg hs]

/-! ## lists -/

theorem norm_greaseTokens (hupper : ∀ s, u.upper s = str "GREASE" → strip s = s)
    {ids : List TPElem} {ts : List Bytes} (hnull : TPElem.null ∉ ids)
    (h : ids.mapM (greaseToken u) = some ts) : norm_tp u ids = ts.map (normString u) := by
  unfold norm_tp
  induction ids generalizing ts with
  | nil =>
    rw [List.mapM_nil] at h
    rw [← Option.some.inj h]
    rfl
  | cons x ids ih =>
    rw [List.mapM_cons] at h
    obtain ⟨t, ht, h⟩ := Option.bind_eq_some_iff.mp h
    obtain ⟨ts', hts, h⟩ := Option.bind_eq_some_iff.mp h
    have hx : x ≠ .null := fun he => hnull (he ▸ List.mem_cons_self)
    have hrest := ih (fun hm => hnull (List.mem_cons_of_mem x hm)) hts
    rw [← Option.some.inj h, List.filterMap_cons, normElem_greaseToken u hupper hx ht, List.map_cons,
      ← hrest]

theorem load_tp {d : ProfileDir} {a : Loaded} (h : load u d = some a) :
    ∃ ts, (rawIDs d).mapM (greaseToken u) = some ts ∧ a.tp = ts.toFinset.sort (· ≤ ·) := by
  unfold load at h
  unfold rawIDs
  obtain ⟨prof, hprof, h⟩ := Option.bind_eq_some_iff.mp h
  obtain ⟨ts, hts, h⟩ := Option.bind_eq_some_iff.mp h
  rw [hprof]
  refine ⟨ts, hts, ?_⟩
  rw [← Option.some.inj h]

/-- a structural match: the matcher sees one set of parameters -/
theorem structural_sets (hupper : ∀ s, u.upper s = str "GREASE" → strip s = s) {d₁ d₂ : ProfileDir}
    {a b : Loaded} (ha : load u d₁ = some a) (hb : load u d₂ = some b)
    (hmatch : structural_match a b = true) (hnull₁ : TPElem.null ∉ rawIDs d₁)
    (hnull₂ : TPElem.null ∉ rawIDs d₂) : tp_set u (rawIDs d₁) = tp_set u (rawIDs d₂) := by
  obtain ⟨ts₁, h₁, htp₁⟩ := load_tp u ha
  obtain ⟨ts₂, h₂, htp₂⟩ := load_tp u hb
  unfold structural_match at hmatch
  have htp : a.tp = b.tp := by
    rw [Bool.and_eq_true, Bool.and_eq_true, Bool.and_eq_true] at hmatch
    exact of_decide_eq_true hmatch.1.1.1
  have hsets : ts₁.toFinset = ts₂.toFinset := by
    rw [htp₁, htp₂] at htp
    rw [← Finset.sort_toFinset ts₁.toFinset (· ≤ ·), htp, Finset.sort_toFinset]
  unfold tp_set
  rw [norm_greaseTokens u hupper hnull₁ h₁, norm_greaseTokens u hupper hnull₂ h₂]
  ext t
  have hmem : ∀ s, s ∈ ts₁ ↔ s ∈ ts₂ := fun s => by
    rw [← List.mem_toFinset, hsets, List.mem_toFinset]
  rw [List.mem_toFinset, List.mem_toFinset, List.mem_map, List.mem_map]
  exact exists_congr fun s => and_congr_left fun _ => hmem s

end

/-! ## the classification -/

/-- the entry has these parameters and states no other marker -/
def FitsSet (cat : Entry) (s : Finset Bytes) : Prop :=
  s = cat.tpSet ∧ ∀ m b, cat.markers m = .val b → b = markers_from_tp s m

theorem accepts_iff (cat : Entry) (s : Finset Bytes) (scid : Option Int) :
    Accepts cat s (markers_from_tp s) scid ↔ FitsSet cat s ∧ ScidFits scid cat.scidLen :=
  and_assoc.symm

section
variable {catalog : List Entry} (hnd : (catalog.map (·.tpSet)).Nodup) (obs : Observation)
include hnd

theorem matchedShort_none : (classify obs catalog).matchedShort = none ↔
    ∀ cat ∈ catalog, ¬ Accepts cat obs.tpSet obs.markers obs.scidLen :=
  (classify_stable hnd (List.Perm.refl catalog) rfl rfl rfl).2.2.2

theorem matchedShort_some {cat : Entry} (hmem : cat ∈ catalog)
    (h : Accepts cat obs.tpSet obs.markers obs.scidLen) :
    (classify obs catalog).matchedShort = some cat.short := by
  have hfit := (mem_fitting obs).mpr ⟨hmem, h⟩
  rw [classify_filter]
  obtain hnil | ⟨c, hc⟩ := fitting_cases obs hnd
  · rw [hnil] at hfit
    exact absurd hfit List.not_mem_nil
  · rw [hc] at hfit ⊢
    rw [← List.mem_singleton.mp hfit,
      classify_single obs ((score_match_nonneg obs cat).mpr h)]
    rfl

/-- an entry is known by its parameters -/
theorem entry_unique {a b : Entry} (ha : a ∈ catalog) (hb : b ∈ catalog) (h : a.tpSet = b.tpSet) :
    a = b :=
  List.inj_on_of_nodup_map hnd ha hb h

/-- one answer for two observations of the same parameters: they fit the same entries -/
theorem accepts_of_matchedShort {o o' : Observation} (hset : o.tpSet = o'.tpSet)
    (h : (classify o catalog).matchedShort = (classify o' catalog).matchedShort) {cat : Entry}
    (hmem : cat ∈ catalog) (hacc : Accepts cat o.tpSet o.markers o.scidLen) :
    Accepts cat o'.tpSet o'.markers o'.scidLen := by
  rw [matchedShort_some hnd o hmem hacc] at h
  have hsome : ¬ ∀ c ∈ catalog, ¬ Accepts c o'.tpSet o'.markers o'.scidLen := by
    rw [← matchedShort_none hnd o', ← h]
    exact Option.some_ne_none cat.short
  push Not at hsome
  obtain ⟨c, hc, hacc'⟩ := hsome
  have htp : c.tpSet = cat.tpSet := hacc'.1.symm.trans (hset.symm.trans hacc.1)
  rw [← entry_unique hnd hc hmem htp]
  exact hacc'

end

/-- **The two gates agree** exactly if the source ids make no difference to an entry that fits the
parameters of the two observations. -/
theorem structural_agrees_iff (u : Unicode) (hupper : ∀ s, u.upper s = str "GREASE" → strip s = s)
    {catalog : List Entry} (hnd : (catalog.map (·.tpSet)).Nodup) {d₁ d₂ : ProfileDir} {a b : Loaded}
    (ha : load u d₁ = some a) (hb : load u d₂ = some b) (hmatch : structural_match a b = true)
    (hnull₁ : TPElem.null ∉ rawIDs d₁) (hnull₂ : TPElem.null ∉ rawIDs d₂) {name₁ name₂ : Bytes}
    {o₁ o₂ : Observation} (h₁ : load_observation u name₁ d₁ = some o₁)
    (h₂ : load_observation u name₂ d₂ = some o₂) :
    (classify o₁ catalog).matchedShort = (classify o₂ catalog).matchedShort ↔
      ∀ cat ∈ catalog, FitsSet cat (tp_set u (rawIDs d₁)) →
        (ScidFits o₁.scidLen cat.scidLen ↔ ScidFits o₂.scidLen cat.scidLen) := by
  obtain ⟨hs₁, hm₁⟩ := load_observation_tpSet h₁
  obtain ⟨hs₂, hm₂⟩ := load_observation_tpSet h₂
  rw [← structural_sets u hupper ha hb hmatch hnull₁ hnull₂] at hs₂
  have hacc₁ : ∀ cat, Accepts cat o₁.tpSet o₁.markers o₁.scidLen ↔
      FitsSet cat (tp_set u (rawIDs d₁)) ∧ ScidFits o₁.scidLen cat.scidLen := fun cat => by
    rw [hm₁, hs₁, accepts_iff]
  have hacc₂ : ∀ cat, Accepts cat o₂.tpSet o₂.markers o₂.scidLen ↔
      FitsSet cat (tp_set u (rawIDs d₁)) ∧ ScidFits o₂.scidLen cat.scidLen := fun cat => by
    rw [hm₂, hs₂, accepts_iff]
  have hset : o₁.tpSet = o₂.tpSet := hs₁.trans hs₂.symm
  constructor
  · intro h cat hmem hfits
    refine ⟨fun hscid => ?_, fun hscid => ?_⟩
    · exact ((hacc₂ cat).mp (accepts_of_matchedShort hnd hset h hmem
        ((hacc₁ cat).mpr ⟨hfits, hscid⟩))).2
    · exact ((hacc₁ cat).mp (accepts_of_matchedShort hnd hset.symm h.symm hmem
        ((hacc₂ cat).mpr ⟨hfits, hscid⟩))).2
  · intro hscid
    have hsame : ∀ cat ∈ catalog, Accepts cat o₁.tpSet o₁.markers o₁.scidLen ↔
        Accepts cat o₂.tpSet o₂.markers o₂.scidLen := fun cat hmem => by
      rw [hacc₁, hacc₂]
      exact and_congr_right fun hfits => hscid cat hmem hfits
    by_cases hex : ∃ cat ∈ catalog, Accepts cat o₁.tpSet o₁.markers o₁.scidLen
    · obtain ⟨cat, hmem, hacc⟩ := hex
      rw [matchedShort_some hnd o₁ hmem hacc,
        matchedShort_some hnd o₂ hmem ((hsame cat hmem).mp hacc)]
    · push Not at hex
      rw [(matchedShort_none hnd o₁).mpr hex, (matchedShort_none hnd o₂).mpr fun cat hmem hacc =>
        hex cat hmem ((hsame cat hmem).mpr hacc)]

/-! ## two lengths of the source id -/

/-- one parameter, one header, and a source id of length `n` -/
def pinned (n : Int) : ProfileDir where
  header := some { destConnIDLen := .val 8 }
  profile := some { expected := .val { tpIDSet := .val [.str (str "0x1")], scidLen := .val n } }

/-- only words with the letters of GREASE upper-case to it -/
theorem ascii_upper_grease (s : Bytes) (h : Unicode.ascii.upper s = str "GREASE") : strip s = s :=
  strip_plain s (grease_plain h)

theorem twoStacks_nodup : ((twoStacks.map (loadEntry .ascii)).map (·.tpSet)).Nodup := by
  decide +kernel

theorem twoStacks_scid : ∀ cat ∈ twoStacks.map (loadEntry .ascii), cat.scidLen = some 0 := by
  intro cat hm
  obtain ⟨f, hf, rfl⟩ := List.mem_map.mp hm
  obtain rfl | hf := List.mem_cons.mp hf
  · rfl
  · rw [List.mem_singleton.mp hf]
    rfl

/-- an unknown length makes no difference -/
theorem structural_agrees_unknown : ∃ o₁ o₂,
    load_observation .ascii (str "a") (pinned 0) = some o₁ ∧
    load_observation .ascii (str "b") (observed [.str (str "0x1")]) = some o₂ ∧
    (classify o₁ (twoStacks.map (loadEntry .ascii))).matchedShort =
      (classify o₂ (twoStacks.map (loadEntry .ascii))).matchedShort := by
  have h₁ : ∃ o, load_observation .ascii (str "a") (pinned 0) = some o ∧ o.scidLen = some 0 :=
    ⟨_, rfl, rfl⟩
  have h₂ : ∃ o, load_observation .ascii (str "b") (observed [.str (str "0x1")]) = some o ∧
      o.scidLen = none := ⟨_, rfl, by decide +kernel⟩
  have hload : ∃ a b, load .ascii (pinned 0) = some a ∧
      load .ascii (observed [.str (str "0x1")]) = some b ∧ structural_match a b = true :=
    ⟨_, _, rfl, rfl, by decide +kernel⟩
  obtain ⟨o₁, h₁, hscid₁⟩ := h₁
  obtain ⟨o₂, h₂, hscid₂⟩ := h₂
  obtain ⟨a, b, ha, hb, hmatch⟩ := hload
  refine ⟨o₁, o₂, h₁, h₂, ?_⟩
  refine (structural_agrees_iff .ascii ascii_upper_grease twoStacks_nodup ha hb hmatch (by decide)
    (by decide) h₁ h₂).mpr fun cat hm _ => ?_
  rw [hscid₁, hscid₂, twoStacks_scid cat hm]
  exact iff_of_true (Or.inr (Or.inr rfl)) (Or.inr (Or.inl rfl))

/-- The comparison passes, but only the first of the two is `quic-go`. -/
theorem structural_disagrees : ∃ a b o₁ o₂,
    load_catalog_for_match .ascii twoStacks = .ok (twoStacks.map (loadEntry .ascii)) ∧
    ((twoStacks.map (loadEntry .ascii)).map (·.tpSet)).Nodup ∧
    load .ascii (pinned 0) = some a ∧ load .ascii (pinned 8) = some b ∧
    structural_match a b = true ∧
    load_observation .ascii (str "a") (pinned 0) = some o₁ ∧
    load_observation .ascii (str "b") (pinned 8) = some o₂ ∧
    (classify o₁ (twoStacks.map (loadEntry .ascii))).matchedShort = some (str "quic-go") ∧
    (classify o₂ (twoStacks.map (loadEntry .ascii))).matchedShort = none := by
  refine ⟨_, _, _, _, twoStacks_load, twoStacks_nodup, rfl, rfl, by decide +kernel, rfl, rfl,
    by decide +kernel, by decide +kernel⟩

end Quic
