import FingerprintLab.Base.Columns
import FingerprintLab.Capture.Identity

/-!
# The grammar of a JA4

Whatever the lists of the hello are, a JA4 is the same ten columns one after the other; so its three
parts stand at fixed positions, and an id may be cut from it by position.

* `ja4Columns`      `t`, the version code, the SNI flag, two counts, the ALPN code and two digests;
* `ja4Parts`       what `buildJA4` puts there;
* `ja4_grammar`    a JA4 matches the columns: 36 ASCII characters, each part at its place.
-/

set_option linter.unusedVariables false

namespace Capture
open Go Columns

/-! ## the columns -/

def Digit (b : Byte) : Prop := 48 ≤ b.toNat ∧ b.toNat ≤ 57

/-- an ASCII letter or digit -/
def Alnum (b : Byte) : Prop := Digit b ∨ 65 ≤ b.toNat ∧ b.toNat ≤ 90 ∨ 97 ≤ b.toNat ∧ b.toNat ≤ 122

def versionCodes : List Bytes := [str "13", str "12", str "11", str "10", str "00"]

/-- `n` characters of one kind -/
def ofKind (n : Nat) (kind : Byte → Prop) : Column Byte := ⟨n, fun p => ∀ b ∈ p, kind b⟩

/-- one of some texts -/
def oneOf (n : Nat) (texts : List Bytes) : Column Byte := ⟨n, fun p => p ∈ texts⟩

def ja4Columns : List (Column Byte) :=
  [oneOf 1 [str "t"], oneOf 2 versionCodes, oneOf 1 [str "d", str "i"], ofKind 2 Digit, ofKind 2 Digit,
    ofKind 2 Alnum, oneOf 1 [str "_"], ofKind 12 isHex, oneOf 1 [str "_"], ofKind 12 isHex]

/-! ## the parts -/

theorem verStr_code (v : UInt16) : verStr v ∈ versionCodes := by
  unfold verStr versionCodes
  split_ifs <;> simp

theorem sniFlag_code (b : Bool) : (if b then str "d" else str "i") ∈ [str "d", str "i"] := by
  cases b <;> simp

theorem digit_dec02 (n : Nat) : ∀ b ∈ dec02 (min n 99), Digit b := by
  have hdigit : ∀ k, k < 10 → Digit (UInt8.ofNat (48 + k)) := by
    intro k hk
    unfold Digit
    rw [UInt8.toNat_ofNat', Nat.mod_eq_of_lt (by omega)]
    omega
  intro b hb
  unfold dec02 at hb
  rw [List.mem_cons, List.mem_singleton] at hb
  obtain rfl | rfl := hb
  · exact hdigit _ (by omega)
  · exact hdigit _ (Nat.mod_lt _ (by decide))

/-- any other rune becomes `0` -/
theorem alnum_alpnRune (r : Nat) : Alnum (alpnRune r) := by
  unfold alpnRune
  split
  · rename_i h
    simp only [Bool.or_eq_true, Bool.and_eq_true, decide_eq_true_eq] at h
    unfold Alnum Digit
    rw [UInt8.toNat_ofNat', Nat.mod_eq_of_lt (by omega)]
    omega
  · exact Or.inl (by unfold Digit; decide)

theorem alnum_sanitizeALPN (s : Bytes) : ∀ b ∈ sanitizeALPN s, Alnum b := by
  intro b hb
  obtain hb | hb := List.mem_append.mp (List.mem_of_mem_take hb)
  · obtain ⟨r, -, rfl⟩ := List.mem_map.mp hb
    exact alnum_alpnRune r
  · rw [List.eq_of_mem_replicate hb]
    exact Or.inl (by unfold Digit; decide)

theorem alnum_alpnFirst (alpn : List Bytes) : ∀ b ∈ alpnFirst alpn, Alnum b := by
  have hnone : ∀ b ∈ str "00", Alnum b := by
    intro b hb
    have hzero : ∀ b ∈ str "00", b = 0x30 := by decide +kernel
    rw [hzero b hb]
    exact Or.inl (by unfold Digit; decide)
  cases alpn with
  | nil => exact hnone
  | cons a as =>
    cases a with
    | nil => exact hnone
    | cons c a =>
      cases a with
      | nil => exact alnum_sanitizeALPN _
      | cons d a => exact alnum_sanitizeALPN _

theorem isHex_sha12 (s : Bytes) : ∀ b ∈ sha12 s, isHex b := by
  intro b hb
  obtain ⟨x, -, hx⟩ := List.mem_flatMap.mp (List.mem_of_mem_take hb)
  have hbyte := x.toNat_lt
  rw [List.mem_cons, List.mem_singleton] at hx
  obtain rfl | rfl := hx
  · exact isHex_hexDigit _ (by omega)
  · exact isHex_hexDigit _ (Nat.mod_lt _ (by decide))

section
variable (supportedVersions : List UInt16) (helloVer : UInt16) (hasSNI : Bool)
  (ciphers exts sigs : List UInt16) (alpn : List Bytes)

/-- what `buildJA4` writes into the columns -/
def ja4Parts : List Bytes :=
  [str "t", verStr (ja4Version supportedVersions helloVer), if hasSNI then str "d" else str "i",
    dec02 (min (clean ciphers).length 99), dec02 (min (eClean exts).length 99), alpnFirst alpn,
    str "_", sha12 (bSrc ciphers), str "_", sha12 (cSrc exts sigs)]

theorem buildJA4_flatten : buildJA4 supportedVersions helloVer hasSNI ciphers exts sigs alpn =
    (ja4Parts supportedVersions helloVer hasSNI ciphers exts sigs alpn).flatten := by
  unfold buildJA4 ja4A ja4Parts
  simp only [List.flatten_cons, List.flatten_nil, List.append_nil, List.append_assoc]

/-- every part is a text of its column -/
theorem ja4Parts_columns : List.Forall₂ Column.Holds ja4Columns
    (ja4Parts supportedVersions helloVer hasSNI ciphers exts sigs alpn) := by
  refine .cons ⟨rfl, List.mem_singleton_self _⟩ <| .cons ⟨verStr_length _, verStr_code _⟩ <|
    .cons ⟨sniFlag_length _, sniFlag_code _⟩ <| .cons ⟨rfl, digit_dec02 _⟩ <|
    .cons ⟨rfl, digit_dec02 _⟩ <| .cons ⟨alpnFirst_length _, alnum_alpnFirst _⟩ <|
    .cons ⟨rfl, List.mem_singleton_self _⟩ <| .cons ⟨sha12_length _, isHex_sha12 _⟩ <|
    .cons ⟨rfl, List.mem_singleton_self _⟩ <| .cons ⟨sha12_length _, isHex_sha12 _⟩ .nil

end

/-- all columns are ASCII -/
theorem ja4Columns_ascii : ∀ f ∈ ja4Columns, ∀ p, f.ok p → ∀ b ∈ p, b.toNat < 0x80 := by
  have hone : ∀ n texts, (∀ t ∈ texts, ∀ b ∈ t, b.toNat < 0x80) → ∀ p, (oneOf n texts).ok p →
      ∀ b ∈ p, b.toNat < 0x80 := fun n texts h p hp => h p hp
  have hrun : ∀ n kind, (∀ b, kind b → b.toNat < 0x80) → ∀ p, (ofKind n kind).ok p →
      ∀ b ∈ p, b.toNat < 0x80 := fun n kind h p hp b hb => h b (hp b hb)
  have hdigit : ∀ b, Digit b → b.toNat < 0x80 := by
    intro b h
    unfold Digit at h
    omega
  have halnum : ∀ b, Alnum b → b.toNat < 0x80 := by
    intro b h
    unfold Alnum Digit at h
    omega
  have hhex : ∀ b, isHex b → b.toNat < 0x80 := by
    intro b h
    unfold isHex at h
    omega
  intro f hf
  simp only [ja4Columns, List.mem_cons, List.not_mem_nil, or_false] at hf
  rcases hf with rfl | rfl | rfl | rfl | rfl | rfl | rfl | rfl | rfl | rfl
  · exact hone _ _ (by decide +kernel)
  · exact hone _ _ (by decide +kernel)
  · exact hone _ _ (by decide +kernel)
  · exact hrun _ _ hdigit
  · exact hrun _ _ hdigit
  · exact hrun _ _ halnum
  · exact hone _ _ (by decide +kernel)
  · exact hrun _ _ hhex
  · exact hone _ _ (by decide +kernel)
  · exact hrun _ _ hhex

/-- **The grammar of a JA4**, for every hello: it matches the columns, so it is 36 ASCII characters;
every part is found again at the place of its column, and the three parts of the JA4 between the
underscores. -/
theorem ja4_grammar (supportedVersions : List UInt16) (helloVer : UInt16) (hasSNI : Bool)
    (ciphers exts sigs : List UInt16) (alpn : List Bytes) :
    let ja4 := buildJA4 supportedVersions helloVer hasSNI ciphers exts sigs alpn
    Matches ja4Columns ja4 ∧ ja4.length = 36 ∧ (∀ b ∈ ja4, b.toNat < 0x80) ∧
    (ja4Columns.map Column.width).splitLengths ja4
      = ja4Parts supportedVersions helloVer hasSNI ciphers exts sigs alpn ∧
    ja4.take 10 = ja4A supportedVersions helloVer hasSNI ciphers exts alpn ∧
    (ja4.drop 11).take 12 = sha12 (bSrc ciphers) ∧ ja4.drop 24 = sha12 (cSrc exts sigs) := by
  intro ja4
  have hparts := ja4Parts_columns supportedVersions helloVer hasSNI ciphers exts sigs alpn
  have hflat : ja4 = _ := buildJA4_flatten supportedVersions helloVer hasSNI ciphers exts sigs alpn
  have hmatch : Matches ja4Columns ja4 := ⟨_, hparts, hflat⟩
  have ha := ja4A_length supportedVersions helloVer hasSNI ciphers exts alpn
  have hb := sha12_length (bSrc ciphers)
  have hsep : (str "_").length = 1 := rfl
  have hja4 : ja4 = ja4A supportedVersions helloVer hasSNI ciphers exts alpn
      ++ (str "_" ++ (sha12 (bSrc ciphers) ++ (str "_" ++ sha12 (cSrc exts sigs)))) := by
    show buildJA4 _ _ _ _ _ _ _ = _
    unfold buildJA4
    simp only [List.append_assoc]
  refine ⟨hmatch, hmatch.length, hmatch.all ja4Columns_ascii, ?_, ?_, ?_, ?_⟩
  · rw [hflat, splitLengths_columns hparts]
  · rw [hja4, List.take_left' ha]
  · rw [hja4, show 11 = 10 + 1 from rfl, ← List.drop_drop, List.drop_left' ha,
      List.drop_left' hsep, List.take_left' hb]
  · rw [hja4, show 24 = 10 + (1 + (12 + 1)) from rfl, ← List.drop_drop, List.drop_left' ha,
      ← List.drop_drop, List.drop_left' hsep, ← List.drop_drop, List.drop_left' hb,
      List.drop_left' hsep]

end Capture
