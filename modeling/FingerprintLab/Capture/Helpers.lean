import FingerprintLab.Base.Digest

/-!
# The capture server's helpers

The string helpers of `capture/helpers.go` that the fingerprints are built from, and the facts the
fingerprint theorems use: a GREASE value in the sense of RFC 8701 is one `isGREASE16` accepts, the
joined hexadecimal lists lose nothing, and the ALPN code is two bytes long.
-/

set_option linter.unusedVariables false

namespace Capture
open Go

/-- RFC 8701 in the source's reading: both bytes end in the nibble `a` -/
def isGREASE16 (v : UInt16) : Bool := v &&& 0x0f0f == 0x0a0a

def notGREASE (v : UInt16) : Bool := !isGREASE16 v

/-- the values `vs` with those that `isGREASE16` accepts left out -/
def clean (vs : List UInt16) : List UInt16 := vs.filter notGREASE

/-- the replacement loop of `sanitizeALPN` on one rune -/
def alpnRune (r : Nat) : Byte :=
  if 0x61 ≤ r && r ≤ 0x7a || 0x41 ≤ r && r ≤ 0x5a || 0x30 ≤ r && r ≤ 0x39 then UInt8.ofNat r
  else 0x30

def sanitizeALPN (s : Bytes) : Bytes :=
  let b := (runes s).map alpnRune
  (b ++ List.replicate (2 - b.length) 0x30).take 2

def hexList16 (vs : List UInt16) : List Bytes := vs.map fun v => str "0x" ++ hex04 v

def joinUint16 (vs : List UInt16) (skipGREASE : Bool) : Bytes :=
  join ((vs.filter fun v => !(skipGREASE && isGREASE16 v)).map fun v => decimal v.toNat) (str "-")

def joinUint16HexLower (vs : List UInt16) (skipGREASE : Bool) : Bytes :=
  join ((vs.filter fun v => !(skipGREASE && isGREASE16 v)).map hex04) (str ",")

def joinUint8 (vs : List Byte) : Bytes := join (vs.map fun v => decimal v.toNat) (str "-")

def sortUint16 (vs : List UInt16) : List UInt16 := vs.insertionSort (· ≤ ·)

def md5String (s : Bytes) : Bytes := hexEncode (md5 s)

/-! ## GREASE -/

/-- the sixteen values that RFC 8701 reserves -/
def greaseValues : List UInt16 :=
  [0x0a0a, 0x1a1a, 0x2a2a, 0x3a3a, 0x4a4a, 0x5a5a, 0x6a6a, 0x7a7a, 0x8a8a, 0x9a9a, 0xaaaa, 0xbaba,
    0xcaca, 0xdada, 0xeaea, 0xfafa]

theorem isGREASE16_of_reserved (v : UInt16) (h : v ∈ greaseValues) : isGREASE16 v = true := by
  have hall : greaseValues.all isGREASE16 = true := by decide
  exact List.all_eq_true.mp hall v h

theorem clean_cons_grease (v : UInt16) (vs : List UInt16) (h : isGREASE16 v = true) :
    clean (v :: vs) = clean vs := by
  simp [clean, notGREASE, h]

theorem joinUint16_skip (vs : List UInt16) :
    joinUint16 vs true = join ((clean vs).map fun v => decimal v.toNat) (str "-") := rfl

theorem joinHex_keep (vs : List UInt16) :
    joinUint16HexLower vs false = join (vs.map hex04) (str ",") := by
  simp [joinUint16HexLower]

/-! ## the joined lists -/

private theorem hex04_part (v : UInt16) : hex04 v ≠ [] ∧ (0x2c : Byte) ∉ hex04 v := by
  refine ⟨by simp [hex04], fun h => ?_⟩
  rcases isHex_hex04 v _ h with h | h
  · exact absurd h.1 (by decide)
  · exact absurd h.1 (by decide)

theorem joinHex_inj (vs ws : List UInt16)
    (h : joinUint16HexLower vs false = joinUint16HexLower ws false) : vs = ws := by
  have part : ∀ us : List UInt16, ∀ x ∈ us.map hex04, x ≠ [] ∧ (0x2c : Byte) ∉ x := by
    intro us x hx
    obtain ⟨v, _, rfl⟩ := List.mem_map.mp hx
    exact hex04_part v
  rw [joinHex_keep, joinHex_keep] at h
  have hmap := join_inj 0x2c _ _ (part vs) (part ws) h
  exact List.map_injective_iff.mpr hex04_inj hmap

/-- the underscore that separates the two lists of the third part occurs in neither -/
theorem joinHex_no_underscore (vs : List UInt16) : (0x5f : Byte) ∉ joinUint16HexLower vs false := by
  intro h
  rw [joinHex_keep] at h
  rcases mem_join h with h | ⟨x, hx, hb⟩
  · exact absurd h (by decide)
  · obtain ⟨v, _, rfl⟩ := List.mem_map.mp hx
    rcases isHex_hex04 v _ hb with h | h
    · exact absurd h.2 (by decide)
    · exact absurd h.1 (by decide)

/-! ## sorting -/

theorem sortUint16_perm (vs : List UInt16) : (sortUint16 vs).Perm vs :=
  List.perm_insertionSort _ vs

theorem sortUint16_eq_iff (vs ws : List UInt16) :
    sortUint16 vs = sortUint16 ws ↔ vs.Perm ws := by
  constructor
  · intro h
    exact (sortUint16_perm vs).symm.trans (h ▸ sortUint16_perm ws)
  · intro h
    have hp : (sortUint16 vs).Perm (sortUint16 ws) :=
      (sortUint16_perm vs).trans (h.trans (sortUint16_perm ws).symm)
    exact hp.eq_of_pairwise' (List.pairwise_insertionSort (· ≤ ·) vs)
      (List.pairwise_insertionSort (· ≤ ·) ws)

/-! ## the ALPN code -/

theorem sanitizeALPN_length (s : Bytes) : (sanitizeALPN s).length = 2 := by
  simp only [sanitizeALPN, List.length_take, List.length_append, List.length_replicate]
  omega

end Capture
