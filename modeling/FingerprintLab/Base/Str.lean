import Mathlib.Data.List.Lex
import Mathlib.Data.List.Sort
import Mathlib.Tactic.Ring

/-!
# Go strings as byte lists

A Go `string` and a `[]byte` are the list of their bytes.  Comparison is bytewise lexicographic,
so the order of `List UInt8` is Go's order of strings.

* `str`                      an ASCII literal of the source;
* `decimal`, `decInt`        `%d` of a natural number and of an `int`;
* `dec02`, `hex04`           `%02d` of a number below 100 and `%04x` of a 16-bit word;
* `join`                     `strings.Join`; `join_inj`: it loses nothing when the separator is
                             one byte that no part contains; `lines_inj`: neither do lines;
* `runes`, `encodeRune`      the runes a `range` loop sees (an invalid byte is U+FFFD) and the
                             UTF-8 bytes of a rune;
* `toLower`                  `strings.ToLower`, except that a capital whose lower case is not ASCII
                             stays as it is;
* `trimSpace`, `trim`        `strings.TrimSpace`, and `strings.Trim` with one byte to cut;
* `contains`                 `strings.Contains`;
* `hexNat`, `dec03`          `%x` of a natural number and `%03d`; `decValue` reads decimal digits.
-/

set_option linter.unusedSectionVars false
set_option linter.unusedVariables false

namespace Go

abbrev Byte := UInt8
abbrev Bytes := List UInt8

instance uint8LinearOrder : LinearOrder UInt8 where
  le_refl a := UInt8.le_refl a
  le_trans _ _ _ := UInt8.le_trans
  le_antisymm _ _ := UInt8.le_antisymm
  le_total a b := UInt8.le_total a b
  lt_iff_le_not_ge a b := by
    rw [UInt8.lt_iff_toNat_lt, UInt8.le_iff_toNat_le, UInt8.le_iff_toNat_le]
    omega
  toDecidableLE := inferInstance

instance uint16LinearOrder : LinearOrder UInt16 where
  le_refl a := UInt16.le_refl a
  le_trans _ _ _ := UInt16.le_trans
  le_antisymm _ _ := UInt16.le_antisymm
  le_total a b := UInt16.le_total a b
  lt_iff_le_not_ge a b := by
    rw [UInt16.lt_iff_toNat_lt, UInt16.le_iff_toNat_le, UInt16.le_iff_toNat_le]
    omega
  toDecidableLE := inferInstance

-- strings are searched for in lists and sorted
instance bytes_lawfulBEq : LawfulBEq Bytes := inferInstance
instance bytes_isTrans : IsTrans Bytes (· ≤ ·) := inferInstance
instance bytes_antisymm : Std.Antisymm (α := Bytes) (· ≤ ·) := inferInstance
instance bytes_total : Std.Total (α := Bytes) (· ≤ ·) := inferInstance

def charByte (c : Char) : Byte := UInt8.ofNat c.toNat

/-- the bytes of an ASCII literal -/
def str (s : String) : Bytes := s.toList.map charByte

/-! ## digits -/

/-- one lower-case hexadecimal digit -/
def hexDigit (n : Nat) : Byte := UInt8.ofNat (if n < 10 then 48 + n else 87 + n)

def decimal (n : Nat) : Bytes := (Nat.toDigits 10 n).map charByte

def decInt : Int → Bytes
  | .ofNat n => decimal n
  | .negSucc n => str "-" ++ decimal (n + 1)

def dec02 (n : Nat) : Bytes := [UInt8.ofNat (48 + n / 10), UInt8.ofNat (48 + n % 10)]

def hex04 (v : UInt16) : Bytes :=
  [hexDigit (v.toNat / 4096), hexDigit (v.toNat / 256 % 16), hexDigit (v.toNat / 16 % 16),
    hexDigit (v.toNat % 16)]

/-- `hex.EncodeToString` -/
def hexEncode (b : Bytes) : Bytes :=
  b.flatMap fun x => [hexDigit (x.toNat / 16), hexDigit (x.toNat % 16)]

theorem hexDigit_toNat (n : Nat) (h : n < 16) :
    (hexDigit n).toNat = if n < 10 then 48 + n else 87 + n := by
  unfold hexDigit
  rw [UInt8.toNat_ofNat']
  split <;> omega

theorem hexDigit_inj (m n : Nat) (hm : m < 16) (hn : n < 16) (h : hexDigit m = hexDigit n) :
    m = n := by
  have e : (hexDigit m).toNat = (hexDigit n).toNat := by rw [h]
  rw [hexDigit_toNat m hm, hexDigit_toNat n hn] at e
  split at e <;> split at e <;> omega

/-- a hexadecimal digit as a byte -/
def isHex (b : Byte) : Prop := 48 ≤ b.toNat ∧ b.toNat ≤ 57 ∨ 97 ≤ b.toNat ∧ b.toNat ≤ 102

theorem isHex_hexDigit (n : Nat) (h : n < 16) : isHex (hexDigit n) := by
  unfold isHex
  rw [hexDigit_toNat n h]
  split <;> omega

theorem isHex_hex04 (v : UInt16) : ∀ b ∈ hex04 v, isHex b := by
  have hv := v.toNat_lt
  intro b hb
  simp only [hex04, List.mem_cons, List.not_mem_nil, or_false] at hb
  rcases hb with rfl | rfl | rfl | rfl <;> exact isHex_hexDigit _ (by omega)

theorem hex04_inj (v w : UInt16) (h : hex04 v = hex04 w) : v = w := by
  have hv := v.toNat_lt
  have hw := w.toNat_lt
  simp only [hex04, List.cons.injEq, and_true] at h
  obtain ⟨h3, h2, h1, h0⟩ := h
  have e3 := hexDigit_inj _ _ (by omega) (by omega) h3
  have e2 := hexDigit_inj _ _ (by omega) (by omega) h2
  have e1 := hexDigit_inj _ _ (by omega) (by omega) h1
  have e0 := hexDigit_inj _ _ (by omega) (by omega) h0
  apply UInt16.toNat_inj.mp
  omega

private theorem digit_range (n : Nat) (c : Char) (hc : c ∈ Nat.toDigits 10 n) :
    48 ≤ c.toNat ∧ c.toNat ≤ 57 := by
  have h := Nat.isDigit_of_mem_toDigits (by omega) (by omega) hc
  simp only [Char.isDigit, Bool.and_eq_true, decide_eq_true_eq] at h
  exact h

theorem decimal_digit (n : Nat) (b : Byte) (hb : b ∈ decimal n) :
    48 ≤ b.toNat ∧ b.toNat ≤ 57 := by
  obtain ⟨c, hc, rfl⟩ := List.mem_map.mp hb
  have h := digit_range n c hc
  unfold charByte
  rw [UInt8.toNat_ofNat', Nat.mod_eq_of_lt (by omega)]
  exact h

theorem decimal_ne_nil (n : Nat) : decimal n ≠ [] := by
  unfold decimal
  simp [Nat.toDigits_ne_nil]

theorem decimal_inj (m n : Nat) (h : decimal m = decimal n) : m = n := by
  have chars : ∀ k, (decimal k).map (fun b => Char.ofNat b.toNat) = Nat.toDigits 10 k := by
    intro k
    unfold decimal
    rw [List.map_map]
    conv_rhs => rw [← List.map_id (Nat.toDigits 10 k)]
    refine List.map_congr_left fun c hc => ?_
    have hr := digit_range k c hc
    show Char.ofNat (UInt8.ofNat c.toNat).toNat = c
    rw [UInt8.toNat_ofNat', Nat.mod_eq_of_lt (by omega), Char.ofNat_toNat]
  have hd : Nat.toDigits 10 m = Nat.toDigits 10 n := by rw [← chars m, ← chars n, h]
  have e := congrArg (fun l => Nat.ofDigitChars 10 l 0) hd
  simpa [Nat.ofDigitChars_ten_toDigits] using e

/-! ## joining -/

/-- `strings.Join` -/
def join (parts : List Bytes) (sep : Bytes) : Bytes := sep.intercalate parts

theorem join_inj (sep : Byte) (xs ys : List Bytes) (hx : ∀ x ∈ xs, x ≠ [] ∧ sep ∉ x)
    (hy : ∀ y ∈ ys, y ≠ [] ∧ sep ∉ y) (h : join xs [sep] = join ys [sep]) : xs = ys := by
  have split_join : ∀ l : List Bytes, l ≠ [] → (∀ x ∈ l, x ≠ [] ∧ sep ∉ x) →
      (join l [sep]).splitOn sep = l := fun l hl hs =>
    List.splitOn_intercalate sep (fun x hm => (hs x hm).2) hl
  -- the join of a non-empty list starts with its first part, which is not empty
  have ne_nil : ∀ l : List Bytes, l ≠ [] → (∀ x ∈ l, x ≠ [] ∧ sep ∉ x) → join l [sep] ≠ [] := by
    intro l hl hs he
    cases l with
    | nil => exact hl rfl
    | cons x l =>
      have hxe := (hs x List.mem_cons_self).1
      cases l with
      | nil => exact hxe (by simpa [join] using he)
      | cons y l => simp [join, List.intercalate_cons_cons] at he
  cases xs with
  | nil =>
    cases ys with
    | nil => rfl
    | cons y ys => exact absurd h.symm (ne_nil _ (by simp) hy)
  | cons x xs =>
    cases ys with
    | nil => exact absurd h (ne_nil _ (by simp) hx)
    | cons y ys =>
      rw [← split_join _ (by simp) hx, ← split_join (y :: ys) (by simp) hy, h]

/-- a text splits at its first separator -/
theorem append_first_sep_inj {sep : Byte} {a b c d : Bytes} (ha : sep ∉ a) (hc : sep ∉ c)
    (h : a ++ sep :: b = c ++ sep :: d) : a = c ∧ b = d := by
  rcases List.append_eq_append_iff.mp h with ⟨as, rfl, hb⟩ | ⟨as, rfl, hd⟩
  · cases as with
    | nil => exact ⟨(List.append_nil a).symm, (List.cons.inj hb).2⟩
    | cons y as =>
      rw [(List.cons.inj hb).1] at hc
      exact absurd (List.mem_append_right a List.mem_cons_self) hc
  · cases as with
    | nil => exact ⟨List.append_nil c, (List.cons.inj hd).2.symm⟩
    | cons y as =>
      rw [(List.cons.inj hd).1] at ha
      exact absurd (List.mem_append_right c List.mem_cons_self) ha

/-- lines that each end in a byte that none of them contains -/
theorem lines_inj (sep : Byte) (xs ys : List Bytes) (hx : ∀ x ∈ xs, sep ∉ x)
    (hy : ∀ y ∈ ys, sep ∉ y)
    (h : (xs.flatMap fun x => x ++ [sep]) = ys.flatMap fun y => y ++ [sep]) : xs = ys := by
  induction xs generalizing ys with
  | nil =>
    cases ys with
    | nil => rfl
    | cons y ys => simp at h
  | cons x xs ih =>
    cases ys with
    | nil => simp at h
    | cons y ys =>
      rw [List.flatMap_cons, List.flatMap_cons, List.append_assoc, List.append_assoc] at h
      obtain ⟨hxy, hrest⟩ := append_first_sep_inj (hx x List.mem_cons_self)
        (hy y List.mem_cons_self) h
      rw [hxy, ih ys (fun z hz => hx z (List.mem_cons_of_mem _ hz))
        (fun z hz => hy z (List.mem_cons_of_mem _ hz)) hrest]

theorem mem_join {sep : Bytes} {b : Byte} {xs : List Bytes} (hb : b ∈ join xs sep) :
    b ∈ sep ∨ ∃ x ∈ xs, b ∈ x := by
  induction xs with
  | nil => simp [join] at hb
  | cons x xs ih =>
    cases xs with
    | nil => exact Or.inr ⟨x, by simp, by simpa [join] using hb⟩
    | cons y ys =>
      simp only [join, List.intercalate_cons_cons, List.mem_append] at hb
      rcases hb with (h | h) | h
      · exact Or.inr ⟨x, by simp, h⟩
      · exact Or.inl h
      · rcases ih h with h | ⟨z, hz, hbz⟩
        · exact Or.inl h
        · exact Or.inr ⟨z, List.mem_cons_of_mem _ hz, hbz⟩

/-! ## runes -/

def isCont (n : Nat) : Bool := 0x80 ≤ n && n ≤ 0xbf

/-- `utf8.DecodeRune`: the rune at the head of the string and its width; an invalid or incomplete
sequence is U+FFFD of width one.  A missing byte is read as 0, which continues no sequence. -/
def decodeRune (s : Bytes) : Nat × Nat :=
  let n := (s.getD 0 0).toNat
  let n1 := (s.getD 1 0).toNat
  let n2 := (s.getD 2 0).toNat
  let n3 := (s.getD 3 0).toNat
  if n < 0x80 then (n, 1)
  else if 0xc2 ≤ n && n ≤ 0xdf && isCont n1 then (n % 32 * 64 + n1 % 64, 2)
  else if 0xe0 ≤ n && n ≤ 0xef && isCont n1 && isCont n2 && (n != 0xe0 || 0xa0 ≤ n1)
      && (n != 0xed || n1 ≤ 0x9f) then
    (n % 16 * 4096 + n1 % 64 * 64 + n2 % 64, 3)
  else if 0xf0 ≤ n && n ≤ 0xf4 && isCont n1 && isCont n2 && isCont n3 && (n != 0xf0 || 0x90 ≤ n1)
      && (n != 0xf4 || n1 ≤ 0x8f) then
    (n % 8 * 262144 + n1 % 64 * 4096 + n2 % 64 * 64 + n3 % 64, 4)
  else (0xfffd, 1)

/-- every rune takes at least one byte, so the length of the string is fuel enough -/
def runesFuel : Nat → Bytes → List Nat
  | 0, _ => []
  | _ + 1, [] => []
  | n + 1, b :: s => (decodeRune (b :: s)).1 :: runesFuel n ((b :: s).drop (decodeRune (b :: s)).2)

/-- the runes that `for _, r := range s` visits -/
def runes (s : Bytes) : List Nat := runesFuel s.length s

theorem decodeRune_ascii (b : Byte) (s : Bytes) (h : b.toNat < 0x80) :
    decodeRune (b :: s) = (b.toNat, 1) := by
  unfold decodeRune
  exact if_pos h

theorem runes_ascii (s : Bytes) (h : ∀ b ∈ s, b.toNat < 0x80) : runes s = s.map UInt8.toNat := by
  unfold runes
  induction s with
  | nil => rfl
  | cons b s ih =>
    have hb := decodeRune_ascii b s (h b List.mem_cons_self)
    rw [List.length_cons, runesFuel, hb]
    show b.toNat :: runesFuel s.length s = _
    rw [ih fun c hc => h c (List.mem_cons_of_mem b hc)]
    rfl

/-- `utf8.AppendRune` -/
def encodeRune (r : Nat) : Bytes :=
  if r < 0x80 then [UInt8.ofNat r]
  else if r < 0x800 then [UInt8.ofNat (0xc0 + r / 64), UInt8.ofNat (0x80 + r % 64)]
  else if 0xd800 ≤ r && r ≤ 0xdfff || 0x110000 ≤ r then [0xef, 0xbf, 0xbd]
  else if r < 0x10000 then
    [UInt8.ofNat (0xe0 + r / 4096), UInt8.ofNat (0x80 + r / 64 % 64), UInt8.ofNat (0x80 + r % 64)]
  else
    [UInt8.ofNat (0xf0 + r / 262144), UInt8.ofNat (0x80 + r / 4096 % 64),
      UInt8.ofNat (0x80 + r / 64 % 64), UInt8.ofNat (0x80 + r % 64)]

/-- `unicode.ToLower` on the runes whose lower case is ASCII: `A`-`Z`, U+0130 (to `i`) and the
Kelvin sign U+212A (to `k`).  Every other rune has a lower case outside ASCII and is left alone here,
also the capitals that the source changes (U+00C4, say). -/
def unicodeToLower (r : Nat) : Nat :=
  if 0x41 ≤ r && r ≤ 0x5a then r + 32
  else if r = 0x130 then 0x69
  else if r = 0x212a then 0x6b
  else r

/-- `strings.ToLower` up to the capitals outside ASCII -/
def toLower (s : Bytes) : Bytes := (runes s).flatMap fun r => encodeRune (unicodeToLower r)

/-- the bytes of the runes, one list a rune -/
def runeBytesFuel : Nat → Bytes → List Bytes
  | 0, _ => []
  | _ + 1, [] => []
  | n + 1, b :: s => (b :: s).take (decodeRune (b :: s)).2 ::
      runeBytesFuel n ((b :: s).drop (decodeRune (b :: s)).2)

/-- `unicode.IsSpace` -/
def isSpace (r : Nat) : Bool :=
  0x09 ≤ r && r ≤ 0x0d || r == 0x20 || r == 0x85 || r == 0xa0 || r == 0x1680
    || 0x2000 ≤ r && r ≤ 0x200a || r == 0x2028 || r == 0x2029 || r == 0x202f || r == 0x205f
    || r == 0x3000

/-- `strings.TrimSpace` -/
def trimSpace (s : Bytes) : Bytes :=
  let space := fun c => isSpace (decodeRune c).1
  ((((runeBytesFuel s.length s).dropWhile space).reverse.dropWhile space).reverse).flatten

/-- `strings.Trim` with a cutset of one ASCII byte -/
def trim (cut : Byte) (s : Bytes) : Bytes :=
  ((s.dropWhile (· == cut)).reverse.dropWhile (· == cut)).reverse

/-- `strings.Contains` -/
def contains (s sub : Bytes) : Bool := s.tails.any fun t => sub.isPrefixOf t

/-! ## more digits -/

/-- `%x` of an unsigned number -/
def hexNat (n : Nat) : Bytes := (Nat.toDigits 16 n).map charByte

theorem isHex_hexNat (n : Nat) : ∀ b ∈ hexNat n, isHex b := by
  have digit : ∀ k, k < 16 → isHex (charByte k.digitChar) := by
    unfold isHex
    decide
  have chars : ∀ c ∈ Nat.toDigits 16 n, isHex (charByte c) := by
    induction n using Nat.strongRecOn with
    | ind n ih =>
      intro c hc
      by_cases hn : n < 16
      · rw [Nat.toDigits_of_lt_base hn, List.mem_singleton] at hc
        rw [hc]
        exact digit n hn
      · rw [Nat.toDigits_of_base_le (by decide) (Nat.le_of_not_lt hn), List.mem_append,
          List.mem_singleton] at hc
        rcases hc with hc | hc
        · exact ih (n / 16) (by omega) c hc
        · rw [hc]
          exact digit _ (Nat.mod_lt _ (by decide))
  intro b hb
  obtain ⟨c, hc, rfl⟩ := List.mem_map.mp hb
  exact chars c hc

/-- the value of a list of lower-case hexadecimal digits -/
def hexValue (s : Bytes) : Nat :=
  s.foldl (fun n b => n * 16 + if b.toNat < 58 then b.toNat - 48 else b.toNat - 87) 0

theorem hexValue_hexNat (n : Nat) : hexValue (hexNat n) = n := by
  have digit : ∀ k, k < 16 → hexValue [charByte k.digitChar] = k := by decide
  induction n using Nat.strongRecOn with
  | ind n ih =>
    by_cases hn : n < 16
    · unfold hexNat
      rw [Nat.toDigits_of_lt_base hn]
      exact digit n hn
    · have hlast : hexNat n = hexNat (n / 16) ++ [charByte (n % 16).digitChar] := by
        unfold hexNat
        rw [Nat.toDigits_of_base_le (by decide) (Nat.le_of_not_lt hn), List.map_append]
        rfl
      have hd := digit (n % 16) (Nat.mod_lt _ (by decide))
      have hq := ih (n / 16) (by omega)
      unfold hexValue at hd hq ⊢
      rw [List.foldl_cons, List.foldl_nil, Nat.zero_mul, Nat.zero_add] at hd
      rw [hlast, List.foldl_append, hq, List.foldl_cons, List.foldl_nil, hd]
      omega

theorem hexNat_inj (m n : Nat) (h : hexNat m = hexNat n) : m = n := by
  rw [← hexValue_hexNat m, ← hexValue_hexNat n, h]

/-- the value of a list of decimal digits -/
def decValue (s : Bytes) : Nat := s.foldl (fun n b => n * 10 + (b.toNat - 48)) 0

theorem decValue_decimal (n : Nat) : decValue (decimal n) = n := by
  have digits : ∀ (l : List Char) (acc : Nat), (∀ c ∈ l, c.toNat < 256) →
      (l.map charByte).foldl (fun n b => n * 10 + (b.toNat - 48)) acc = Nat.ofDigitChars 10 l acc := by
    intro l
    induction l with
    | nil => exact fun acc _ => rfl
    | cons c l ih =>
      intro acc h
      have hc : (charByte c).toNat = c.toNat := by
        unfold charByte
        rw [UInt8.toNat_ofNat', Nat.mod_eq_of_lt (h c List.mem_cons_self)]
      rw [List.map_cons, List.foldl_cons, hc, Nat.ofDigitChars_cons, Nat.mul_comm]
      exact ih _ fun d hd => h d (List.mem_cons_of_mem c hd)
  unfold decValue decimal
  rw [digits _ _ fun c hc => Nat.lt_of_le_of_lt (digit_range n c hc).2 (by decide)]
  exact Nat.ofDigitChars_ten_toDigits

/-- `%03d` -/
def dec03 (n : Nat) : Bytes := List.replicate (3 - (decimal n).length) 0x30 ++ decimal n

theorem decValue_dec03 (n : Nat) : decValue (dec03 n) = n := by
  have zeros : ∀ k : Nat, ∀ s : Bytes, decValue (List.replicate k 0x30 ++ s) = decValue s := by
    intro k s
    induction k with
    | zero => rfl
    | succ k ih => exact ih
  unfold dec03
  rw [zeros, decValue_decimal]

theorem dec03_inj (m n : Nat) (h : dec03 m = dec03 n) : m = n := by
  rw [← decValue_dec03 m, ← decValue_dec03 n, h]

end Go
