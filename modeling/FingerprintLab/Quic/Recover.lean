import FingerprintLab.Quic.History

/-!
# What the reader recovers of a promoted gather

* `normString_tpToken`, `norm_promoted`   the tokens that the writer makes are normal;
* `promoted_observation`   the observation of a gather promoted into an empty directory;
* `Recovered`              the five things that the reader is to recover;
* `promotion_not_recovered`   the transport parameters, the markers and the count are recovered, the
                           length of the source id sometimes, that of the destination id never.
-/

set_option linter.unusedVariables false

namespace Quic
open Go Py Writes

/-! ## tokens -/

theorem ascii_cons {b : Byte} {s : Bytes} (hb : b.toNat < 0x80) (hs : Ascii s) : Ascii (b :: s) := by
  intro c hc
  rcases List.mem_cons.mp hc with rfl | hc
  · exact hb
  · exact hs c hc

/-- a token of a parameter that is not GREASE -/
theorem hexToken_eq (n : Nat) : str "0x" ++ hexNat n = 0x30 :: 0x78 :: hexNat n := rfl

theorem hexToken_ascii (n : Nat) : Ascii (str "0x" ++ hexNat n) := by
  rw [hexToken_eq]
  exact ascii_cons (by decide) (ascii_cons (by decide) fun b hb => ascii_of_isHex (isHex_hexNat n b hb))

theorem map_lowerByte_hexNat (n : Nat) : (hexNat n).map lowerByte = hexNat n := by
  conv_rhs => rw [← List.map_id (hexNat n)]
  exact List.map_congr_left fun b hb => lowerByte_of_isHex (isHex_hexNat n b hb)

theorem strip_hexToken (n : Nat) : strip (str "0x" ++ hexNat n) = str "0x" ++ hexNat n := by
  refine strip_ascii _ (hexToken_ascii n) fun b hb => ?_
  rw [hexToken_eq] at hb
  rcases List.mem_cons.mp hb with rfl | hb
  · decide
  rcases List.mem_cons.mp hb with rfl | hb
  · decide
  · exact isSpace_of_isHex (isHex_hexNat n b hb)

theorem normString_hexToken (u : Unicode) (n : Nat) (hn : n ≠ 27) :
    normString u (str "0x" ++ hexNat n) = str "0x" ++ hexNat n := by
  have hascii := hexToken_ascii n
  have hdigits : Ascii (hexNat n) := fun b hb => ascii_of_isHex (isHex_hexNat n b hb)
  -- neither the GREASE token nor one of the two spellings of 27
  have hgrease : ¬ (u.upper (str "0x" ++ hexNat n) = str "GREASE" ∨
      str "0x" ++ hexNat n ∈ [str "27", str "0x1b"]) := by
    rintro (h | h)
    · rw [u.upper_ascii _ hascii, hexToken_eq, List.map_cons] at h
      exact absurd (List.cons.inj h).1 (by decide)
    · rcases List.mem_cons.mp h with h | h
      · exact absurd (List.cons.inj h).1 (by decide)
      · rw [List.mem_singleton] at h
        have h27 : str "0x" ++ hexNat n = str "0x" ++ hexNat 27 := h
        exact hn (hexNat_inj n 27 (List.append_cancel_left h27))
  have hprefix : (str "0x").isPrefixOf (u.lower (str "0x" ++ hexNat n)) = true := by
    rw [u.lower_ascii _ hascii, hexToken_eq, List.map_cons, List.map_cons]
    rfl
  have hdrop : dropChars 2 (str "0x" ++ hexNat n) = hexNat n := by
    rw [dropChars_ascii 2 _ hascii]
    rfl
  unfold normString
  dsimp only
  rw [strip_hexToken, if_neg hgrease, if_pos hprefix, hdrop, u.lower_ascii _ hdigits,
    map_lowerByte_hexNat]

theorem normString_GREASE (u : Unicode) : normString u (str "GREASE") = str "GREASE" := by
  have hascii : Ascii (str "GREASE") := by decide
  have hstrip : strip (str "GREASE") = str "GREASE" := strip_ascii _ hascii (by decide +kernel)
  have hupper : u.upper (str "GREASE") = str "GREASE" := by
    rw [u.upper_ascii _ hascii]
    decide
  unfold normString
  dsimp only
  rw [hstrip, if_pos (.inl hupper)]

theorem normString_tpToken (u : Unicode) (idn : UInt64) : normString u (tpToken idn) = tpToken idn := by
  unfold tpToken
  by_cases h : idn = QTP_GREASE
  · rw [if_pos h]
    exact normString_GREASE u
  · rw [if_neg h]
    refine normString_hexToken u _ fun hn => h ?_
    exact UInt64.toNat_inj.mp hn

/-- what the writer puts into `tp_id_set` the reader takes as it is -/
theorem norm_promoted (u : Unicode) (ids : List UInt64) :
    norm_tp u ((ids.map tpToken).map .str) = ids.map tpToken := by
  unfold norm_tp
  induction ids with
  | nil => rfl
  | cons idn ids ih =>
    rw [List.map_cons, List.map_cons, List.filterMap_cons]
    show (normString u (tpToken idn)) :: _ = _
    rw [normString_tpToken, ih]

theorem tpToken_inj {a b : UInt64} (h : tpToken a = tpToken b) : a = b := by
  have hne : ∀ n : Nat, str "GREASE" ≠ str "0x" ++ hexNat n := by
    intro n h
    rw [hexToken_eq] at h
    exact absurd (List.cons.inj h).1 (by decide)
  unfold tpToken at h
  by_cases ha : a = QTP_GREASE
  · by_cases hb : b = QTP_GREASE
    · rw [ha, hb]
    · rw [if_pos ha, if_neg hb] at h
      exact absurd h (hne _)
  · by_cases hb : b = QTP_GREASE
    · rw [if_neg ha, if_pos hb] at h
      exact absurd h.symm (hne _)
    · rw [if_neg ha, if_neg hb] at h
      exact UInt64.toNat_inj.mp (hexNat_inj _ _ (List.append_cancel_left h))

/-! ## markers -/

/-- the number of a marker -/
def Marker.number : Marker → UInt64
  | .x11 => 0x11
  | .x3128 => 0x3128
  | .x20 => 0x20
  | .x2ab2 => 0x2ab2

theorem Marker.tpToken_number (m : Marker) : tpToken m.number = m.id := by
  cases m <;> decide

theorem markers_promoted (ids : List UInt64) (m : Marker) :
    markers_from_tp (ids.map tpToken).toFinset m = decide (m.number ∈ ids) := by
  unfold markers_from_tp
  refine decide_eq_decide.mpr ?_
  rw [List.mem_toFinset, ← m.tpToken_number, List.mem_map]
  constructor
  · rintro ⟨idn, hm, he⟩
    rw [← tpToken_inj he]
    exact hm
  · intro hm
    exact ⟨_, hm, rfl⟩

/-! ## the observation -/

/-- the encoding of a header: a source id of length zero is left out -/
def headerDoc (d s : Nat) (rest : Bytes) : HeaderDoc where
  destConnIDLen := .val d
  sourceConnIDLen := if s = 0 then .missing else .val s
  rest := rest

/-- a gather whose first packet and transport parameters are these -/
def gatherOf (g : Gathered) (d s : Nat) (rest : Bytes) (packets : List (Option HeaderDoc))
    (ids : List UInt64) (json : Bytes) : Gathered :=
  { g with
    packets := some (headerDoc d s rest) :: packets
    transportParameters := some ⟨ids, json⟩ }

structure Recovered (obs : Observation) (d s : Nat) (ids : List UInt64) (n : Nat) : Prop where
  tp : obs.tp = ids.map tpToken
  markers : ∀ m, obs.markers m = decide (m.number ∈ ids)
  scidLen : obs.scidLen = some (s : Int)
  dcidLen : obs.dcidLen = some (d : Int)
  datagramCount : obs.datagramCount = n

theorem profileOf_expected (id : Bytes) (g : Gathered) (d s : Nat) (rest : Bytes)
    (packets : List (Option HeaderDoc)) (ids : List UInt64) (json : Bytes) :
    ∃ exp, (profileOf id (gatherOf g d s rest packets ids json)).expected = .val exp ∧
      exp.tpIDSet = .val ((ids.map tpToken).map .str) ∧ exp.scidLen = .null ∧ exp.dcidLen = .null :=
  ⟨_, rfl, rfl, rfl, rfl⟩

theorem noLeftovers_empty (ds : List Bytes) (g : Gathered) : NoLeftovers {} {} ds g where
  captured name hm := absurd hm Finmap.notMem_empty
  promoted name hm := absurd hm Finmap.notMem_empty
  header := by
    unfold PartFree
    cases g.header with
    | none => rfl
    | some x => exact .inl rfl
  tp := by
    unfold PartFree
    cases g.transportParameters.map (·.json) with
    | none => rfl
    | some x => exact .inl rfl
  clienthello := by
    unfold PartFree
    cases g.rawHello with
    | none => rfl
    | some x => exact .inl rfl

theorem writeInitials_unlocked (m : Files) (i : Nat) (ds : List Bytes) :
    ∃ m', writeInitials (fun _ => false) m i ds = .ok m' := by
  induction ds generalizing m i with
  | nil => exact ⟨m, rfl⟩
  | cons d ds ih => exact ih (m.insert (initialName i) d) (i + 1)

/-- into an empty directory everything is written -/
theorem promoteProfile_empty (id : Bytes) (ds : List Bytes) (g : Gathered) (summary : Summary) :
    ∃ out, promoteProfile {} id ds g summary = .ok out := by
  obtain ⟨m, hm⟩ := writeInitials_unlocked ∅ 0 ds
  unfold promoteProfile
  rw [if_neg (by decide)]
  dsimp only
  rw [hm]
  exact ⟨_, rfl⟩

section
variable (u : Unicode) (name id : Bytes) (g : Gathered) (d s : Nat) (rest : Bytes)
  (packets : List (Option HeaderDoc)) (ids : List UInt64) (json : Bytes) (ds : List Bytes)
  (summary : Summary)

theorem promoted_observation {out : ProfileDir}
    (h : promoteProfile {} id ds (gatherOf g d s rest packets ids json) summary = .ok out) :
    ∃ obs, load_observation u name out = some obs ∧ obs.tp = ids.map tpToken ∧
      (∀ m, obs.markers m = decide (m.number ∈ ids)) ∧
      obs.scidLen = infer_scid_len (headerDoc d s rest) {} obs.markers ∧
      obs.dcidLen = none ∧ obs.datagramCount = ds.length := by
  have hdir := promoteProfile_ok h
  have hheader : out.header = some (headerDoc d s rest) := hdir.header
  obtain ⟨exp, hexp, htp, hscid, hdcid⟩ := profileOf_expected id g d s rest packets ids json
  have hload : ∃ obs, load_observation u name out = some obs := by
    unfold load_observation
    rw [hdir.profile]
    exact ⟨_, rfl⟩
  obtain ⟨obs, hobs⟩ := hload
  have hnum : Numbered out.initials ds := by
    rw [hdir.initials, numbered_iff]
    exact (noLeftovers_empty ds (gatherOf g d s rest packets ids json)).promoted
  have hcount : obs.datagramCount = ds.length := (count_observation hobs).trans hnum.card
  refine ⟨obs, hobs, ?_⟩
  unfold load_observation at hobs
  rw [hdir.profile] at hobs
  have hobs := Option.some.inj hobs
  rw [← hobs] at hcount ⊢
  dsimp only at hcount ⊢
  rw [hexp, hheader]
  have hnorm : norm_tp u (exp.tpIDSet.get.getD []) = ids.map tpToken := by
    rw [htp]
    exact norm_promoted u ids
  refine ⟨hnorm, ?_, ?_, ?_, hcount⟩
  · intro m
    show markers_from_tp (norm_tp u (exp.tpIDSet.get.getD [])).toFinset m = _
    rw [hnorm]
    exact markers_promoted ids m
  · show infer_scid_len (headerDoc d s rest) exp _ = _
    unfold infer_scid_len
    rw [hscid]
    rfl
  · show exp.dcidLen.getD _ = none
    rw [hdcid]
    rfl

/-- the length of the source id: written, or guessed from a marker -/
theorem infer_promoted (markers : Markers) (hm : ∀ m, markers m = decide (m.number ∈ ids)) :
    infer_scid_len (headerDoc d s rest) {} markers = some (s : Int) ↔
      s ≠ 0 ∨ (0x3128 : UInt64) ∈ ids ∨ (0x11 : UInt64) ∈ ids := by
  have h3128 : markers .x3128 = decide ((0x3128 : UInt64) ∈ ids) := hm .x3128
  have h11 : markers .x11 = decide ((0x11 : UInt64) ∈ ids) := hm .x11
  unfold infer_scid_len headerDoc
  dsimp only [Member.get_missing]
  by_cases hs : s = 0
  · rw [if_pos hs, Member.has_missing, if_neg Bool.false_ne_true, Member.has_val,
      Bool.not_true, if_neg Bool.false_ne_true, h3128, h11, hs]
    by_cases ha : (0x3128 : UInt64) ∈ ids <;> by_cases hb : (0x11 : UInt64) ∈ ids <;> simp [ha, hb]
  · rw [if_neg hs, Member.has_val, if_pos rfl]
    exact iff_of_true rfl (.inl hs)

/-- **Not recovered**: the tokens, the markers and the count are; the length of the source id is when
it is not zero or a marker is there; the length of the destination id never is. -/
theorem promotion_not_recovered : ∃ out obs,
    promoteProfile {} id ds (gatherOf g d s rest packets ids json) summary = .ok out ∧
    load_observation u name out = some obs ∧
    obs.tp = ids.map tpToken ∧ (∀ m, obs.markers m = decide (m.number ∈ ids)) ∧
    (obs.scidLen = some (s : Int) ↔ s ≠ 0 ∨ (0x3128 : UInt64) ∈ ids ∨ (0x11 : UInt64) ∈ ids) ∧
    obs.dcidLen = none ∧ obs.datagramCount = ds.length ∧ ¬ Recovered obs d s ids ds.length := by
  obtain ⟨out, hout⟩ :=
    promoteProfile_empty id ds (gatherOf g d s rest packets ids json) summary
  obtain ⟨obs, hobs, htp, hmarkers, hscid, hdcid, hcount⟩ :=
    promoted_observation u name id g d s rest packets ids json ds summary hout
  refine ⟨out, obs, hout, hobs, htp, hmarkers, ?_, hdcid, hcount, fun h => ?_⟩
  · rw [hscid]
    exact infer_promoted d s rest ids obs.markers hmarkers
  · have hd := h.dcidLen
    rw [hdcid] at hd
    cases hd

end

/-- a destination id of eight bytes, no source id, and the parameters of the parrot -/
def parrotGather : Gathered := gatherOf {} 8 0 [] [] [0x1, 0x11, 27, 0x20, 0x3128] []

/-- the eight bytes of the destination id are in `header.json`, and the reader gives nothing -/
theorem parrot_dcid_lost : ∃ out obs,
    promoteProfile {} parrot [[1]] parrotGather (summaryOf chromePeer parrot noon [[1]] parrotGather)
      = .ok out ∧
    load_observation .ascii parrot out = some obs ∧ obs.dcidLen = none ∧
    ¬ Recovered obs 8 0 [0x1, 0x11, 27, 0x20, 0x3128] 1 := by
  obtain ⟨out, hout⟩ := promoteProfile_empty parrot [[1]] parrotGather
    (summaryOf chromePeer parrot noon [[1]] parrotGather)
  obtain ⟨obs, hobs, -, -, -, hdcid, -⟩ := promoted_observation .ascii parrot parrot {} 8 0 [] [] _ [] _ _ hout
  refine ⟨out, obs, hout, hobs, hdcid, fun h => ?_⟩
  have hd := h.dcidLen
  rw [hdcid] at hd
  cases hd

end Quic
