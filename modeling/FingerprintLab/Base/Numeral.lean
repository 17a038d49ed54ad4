import FingerprintLab.Base.Py
import Mathlib.Data.List.Induction

/-!
# Numerals

* `Canonical`            a numeral without a leading zero;
* `hexNat_hexValue_iff`  the canonical hexadecimal numerals are those that `%x` writes;
* `parseInt_digits`      `int(s)` of decimal digits is their value;
* `strip_blank`          `strip` takes blanks off both ends.
-/

set_option linter.unusedVariables false

namespace Py
open Go

/-! ## hexadecimal numerals -/

def Canonical (s : Bytes) : Prop := s = [0x30] ∨ s.head? ≠ some 0x30

instance decidableCanonical (s : Bytes) : Decidable (Canonical s) :=
  inferInstanceAs (Decidable (_ ∨ _))

theorem hexNat_lt (n : Nat) (h : n < 16) : hexNat n = [charByte n.digitChar] := by
  unfold hexNat
  rw [Nat.toDigits_of_lt_base h]
  rfl

theorem hexNat_step (n : Nat) (h : 16 ≤ n) :
    hexNat n = hexNat (n / 16) ++ [charByte (n % 16).digitChar] := by
  unfold hexNat
  rw [Nat.toDigits_of_base_le (by decide) h, List.map_append]
  rfl

theorem hexNat_ne_nil (n : Nat) : hexNat n ≠ [] := by
  unfold hexNat
  simp [Nat.toDigits_ne_nil]

theorem head_hexNat (n : Nat) (h : 0 < n) : (hexNat n).head? ≠ some 0x30 := by
  induction n using Nat.strongRecOn with
  | ind n ih =>
    by_cases hn : n < 16
    · have digit : ∀ k, k < 16 → 0 < k → charByte k.digitChar ≠ 0x30 := by decide
      rw [hexNat_lt n hn]
      exact fun he => digit n hn h (Option.some.inj he)
    · rw [hexNat_step n (by omega), List.head?_append_of_ne_nil _ (hexNat_ne_nil _)]
      exact ih (n / 16) (by omega) (by omega)

theorem canonical_hexNat (n : Nat) : Canonical (hexNat n) := by
  by_cases hn : n = 0
  · rw [hn]
    exact Or.inl (by decide)
  · exact Or.inr (head_hexNat n (by omega))

theorem hexValue_concat (s : Bytes) (b : Byte) :
    hexValue (s ++ [b]) = hexValue s * 16 + hexValue [b] := by
  unfold hexValue
  rw [List.foldl_append]
  show _ * 16 + _ = _ * 16 + (0 * 16 + _)
  rw [Nat.zero_mul, Nat.zero_add]

/-- a property that 256 checks show -/
theorem forall_byte {P : Byte → Prop} (h : ∀ n, n < 256 → P (UInt8.ofNat n)) (b : Byte) : P b := by
  have hb := h b.toNat b.toNat_lt
  rw [UInt8.ofNat_toNat] at hb
  exact hb

theorem hexValue_digit (b : Byte) (h : isHex b) :
    hexValue [b] < 16 ∧ charByte (hexValue [b]).digitChar = b := by
  have hall : ∀ b : Byte, isHex b →
      hexValue [b] < 16 ∧ charByte (hexValue [b]).digitChar = b := by
    unfold isHex
    exact forall_byte (by decide +kernel)
  exact hall b h

theorem hexNat_hexValue (s : Bytes) (hs : ∀ b ∈ s, isHex b) (hne : s ≠ []) (hc : Canonical s) :
    hexNat (hexValue s) = s := by
  induction s using List.reverseRecOn with
  | nil => exact absurd rfl hne
  | append_singleton ds d ih =>
    obtain ⟨hlt, hd⟩ := hexValue_digit d (hs d (by simp))
    by_cases hds : ds = []
    · rw [hds, List.nil_append, hexNat_lt _ hlt, hd]
    · -- the digits in front are canonical and not zero
      have hhead : ds.head? ≠ some 0x30 := by
        obtain hc | hc := hc
        · have hl := congrArg List.length hc
          rw [List.length_append] at hl
          exact absurd (List.length_eq_zero_iff.mp (by simpa using hl)) hds
        · rw [List.head?_append_of_ne_nil _ hds] at hc
          exact hc
      have hrec := ih (fun b hb => hs b (List.mem_append_left _ hb)) hds (Or.inr hhead)
      have hpos : 0 < hexValue ds := by
        by_contra h0
        rw [show hexValue ds = 0 by omega] at hrec
        exact hhead (by rw [← hrec]; decide)
      rw [hexValue_concat, hexNat_step _ (by omega)]
      rw [show (hexValue ds * 16 + hexValue [d]) / 16 = hexValue ds by omega,
        show (hexValue ds * 16 + hexValue [d]) % 16 = hexValue [d] by omega, hrec, hd]

theorem hexNat_hexValue_iff (s : Bytes) (hs : ∀ b ∈ s, isHex b) (hne : s ≠ []) :
    hexNat (hexValue s) = s ↔ Canonical s := by
  refine ⟨fun h => ?_, hexNat_hexValue s hs hne⟩
  rw [← h]
  exact canonical_hexNat _

/-! ## decimal numerals -/

def isDec (b : Byte) : Prop := 48 ≤ b.toNat ∧ b.toNat ≤ 57

theorem isHex_of_isDec {b : Byte} (h : isDec b) : isHex b := Or.inl h

theorem digits_dec (u : Unicode) (s : Bytes) (hs : ∀ b ∈ s, isDec b) (prev : Bool)
    (hp : prev = true ∨ s ≠ []) :
    digits u prev (s.map UInt8.toNat) = some (s.map fun b => b.toNat - 48) := by
  induction s generalizing prev with
  | nil =>
    obtain hp | hp := hp
    · rw [hp]
      rfl
    · exact absurd rfl hp
  | cons b s ih =>
    obtain ⟨hlo, hhi⟩ := hs b List.mem_cons_self
    have hd : u.digit b.toNat = some (b.toNat - 48) := by
      rw [u.digit_ascii _ (by omega), if_pos ⟨hlo, hhi⟩]
    rw [List.map_cons, digits, hd]
    show (digits u true (s.map UInt8.toNat)).map _ = _
    rw [ih (fun c hc => hs c (List.mem_cons_of_mem _ hc)) true (Or.inl rfl)]
    rfl

theorem digits_value (s : Bytes) :
    (s.map fun b => b.toNat - 48).foldl (fun n d => n * 10 + d) 0 = decValue s := by
  unfold decValue
  rw [List.foldl_map]

theorem ascii_of_isDec {b : Byte} (h : isDec b) : b.toNat < 0x80 := ascii_of_isHex (isHex_of_isDec h)

theorem parseInt_digits (u : Unicode) (s : Bytes) (hs : ∀ b ∈ s, isDec b) (hne : s ≠ []) :
    parseInt u s = if s.length ≤ maxStrDigits then some (decValue s : Int) else none := by
  have hruns := runes_ascii s fun b hb => ascii_of_isDec (hs b hb)
  have hdig := digits_dec u s hs false (Or.inr hne)
  have hval := digits_value s
  cases s with
  | nil => exact absurd rfl hne
  | cons b s =>
    obtain ⟨hlo, hhi⟩ := hs b List.mem_cons_self
    unfold parseInt
    rw [hruns, List.map_cons]
    show (if b.toNat = 0x2b then _ else if b.toNat = 0x2d then _ else _) = _
    rw [if_neg (by omega), if_neg (by omega), ← List.map_cons]
    dsimp only
    rw [hdig]
    show (if ((b :: s).map fun b => b.toNat - 48).length ≤ maxStrDigits then _ else _) = _
    rw [List.length_map, hval]

/-- the same with a minus sign -/
theorem parseInt_neg (u : Unicode) (s : Bytes) (hs : ∀ b ∈ s, isDec b) (hne : s ≠ []) :
    parseInt u (0x2d :: s) =
      if s.length ≤ maxStrDigits then some (-(decValue s : Int)) else none := by
  have hruns : runes (0x2d :: s) = 0x2d :: s.map UInt8.toNat := by
    refine runes_ascii (0x2d :: s) fun b hb => ?_
    obtain rfl | hb := List.mem_cons.mp hb
    · decide
    · exact ascii_of_isDec (hs b hb)
  have hdig := digits_dec u s hs false (Or.inr hne)
  unfold parseInt
  rw [hruns]
  dsimp only
  rw [if_neg (by decide), if_pos rfl, hdig]
  show (if (s.map fun b => b.toNat - 48).length ≤ maxStrDigits then _ else _ : Option Int).map _ = _
  rw [List.length_map, digits_value]
  by_cases hlen : s.length ≤ maxStrDigits
  · rw [if_pos hlen, if_pos hlen]
    rfl
  · rw [if_neg hlen, if_neg hlen]
    rfl

theorem isDec_decimal (n : Nat) : ∀ b ∈ decimal n, isDec b := decimal_digit n

/-- `int(str(n))` -/
theorem parseInt_decInt (u : Unicode) (n : Int) (h : (decimal n.natAbs).length ≤ maxStrDigits) :
    parseInt u (decInt n) = some n := by
  cases n with
  | ofNat k =>
    have hlen : (decimal k).length ≤ maxStrDigits := h
    show parseInt u (decimal k) = _
    rw [parseInt_digits u _ (isDec_decimal k) (decimal_ne_nil k), if_pos hlen, decValue_decimal]
    rfl
  | negSucc k =>
    have hlen : (decimal (k + 1)).length ≤ maxStrDigits := h
    show parseInt u (0x2d :: decimal (k + 1)) = _
    rw [parseInt_neg u _ (isDec_decimal (k + 1)) (decimal_ne_nil (k + 1)), if_pos hlen,
      decValue_decimal]
    rfl

theorem decInt_chars (n : Int) : ∀ b ∈ decInt n, isDec b ∨ b = 0x2d := by
  cases n with
  | ofNat k => exact fun b hb => Or.inl (isDec_decimal k b hb)
  | negSucc k =>
    intro b hb
    obtain hb | hb := List.mem_append.mp hb
    · exact Or.inr (List.mem_singleton.mp hb)
    · exact Or.inl (isDec_decimal (k + 1) b hb)

theorem decInt_ne_27 {n : Int} (hn : n ≠ 27) : decInt n ≠ str "27" := by
  intro h
  cases n with
  | ofNat k => exact hn (congrArg Int.ofNat (decimal_inj k 27 h))
  | negSucc k => exact absurd (List.cons.inj h).1 (by decide)

/-! ## blanks -/

/-- ASCII white space -/
def Blank (b : Byte) : Prop := b.toNat < 0x80 ∧ isSpace b.toNat = true

/-- an ASCII character that is no white space -/
def Plain (b : Byte) : Prop := b.toNat < 0x80 ∧ isSpace b.toNat = false

theorem plain_of_isHex {b : Byte} (h : isHex b) : Plain b := ⟨ascii_of_isHex h, isSpace_of_isHex h⟩

/-- a hexadecimal digit of either case -/
def isHexDigit (b : Byte) : Prop := b.toNat < 0x80 ∧ isHex (lowerByte b)

theorem plain_of_isHexDigit {b : Byte} (h : isHexDigit b) : Plain b := by
  have hall : ∀ b : Byte, isHexDigit b → Plain b := by
    unfold isHexDigit isHex Plain
    exact forall_byte (by decide +kernel)
  exact hall b h

theorem strip_plain (s : Bytes) (hs : ∀ b ∈ s, Plain b) : strip s = s :=
  strip_ascii s (fun b hb => (hs b hb).1) fun b hb => (hs b hb).2

theorem dropWhile_blank (l s : Bytes) (hl : ∀ b ∈ l, Blank b)
    (hs : ∀ b, s.head? = some b → Plain b) :
    ((l ++ s).map fun b => [b]).dropWhile (fun c => isSpace (decodeRune c).1)
      = s.map fun b => [b] := by
  induction l with
  | nil =>
    cases s with
    | nil => rfl
    | cons b s =>
      obtain ⟨ha, hb⟩ := hs b rfl
      rw [List.nil_append, List.map_cons, List.dropWhile_cons_of_neg]
      rw [decodeRune_ascii b [] ha, hb]
      exact Bool.false_ne_true
  | cons b l ih =>
    obtain ⟨ha, hb⟩ := hl b List.mem_cons_self
    rw [List.cons_append, List.map_cons, List.dropWhile_cons_of_pos]
    · exact ih fun c hc => hl c (List.mem_cons_of_mem _ hc)
    · rw [decodeRune_ascii b [] ha]
      exact hb

/-- `strip` of a word between blanks -/
theorem strip_blank (l s r : Bytes) (hl : ∀ b ∈ l, Blank b) (hr : ∀ b ∈ r, Blank b)
    (hs : ∀ b ∈ s, Plain b) (hne : s ≠ []) :
    strip (l ++ s ++ r) = s := by
  have hascii : Ascii (l ++ s ++ r) := by
    intro b hb
    obtain hb | hb := List.mem_append.mp hb
    · obtain hb | hb := List.mem_append.mp hb
      · exact (hl b hb).1
      · exact (hs b hb).1
    · exact (hr b hb).1
  unfold strip
  dsimp only
  rw [chars_ascii _ hascii, List.append_assoc, dropWhile_blank l (s ++ r) hl, ← List.map_reverse,
    List.reverse_append, dropWhile_blank r.reverse s.reverse, ← List.map_reverse,
    List.reverse_reverse, flatten_singles]
  · exact fun b hb => hr b (List.mem_reverse.mp hb)
  · exact fun b hb => hs b (List.mem_reverse.mp (List.mem_of_mem_head? hb))
  · intro b hb
    rw [List.head?_append_of_ne_nil _ hne] at hb
    exact hs b (List.mem_of_mem_head? hb)

end Py
