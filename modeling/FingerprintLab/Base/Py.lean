import FingerprintLab.Base.Runes

/-!
# Python strings and JSON members

A Python `str` is the list of its UTF-8 bytes, so that a text written by a Go program and read by a
Python one is one value; the methods work on code points.

* `Member`          a member of a JSON object, as `dict.get` and `in` tell it from a missing one;
* `Unicode`        Python's case mappings and decimal digits, fixed on ASCII only;
* `strip`, `dropChars`   `str.strip` and `s[n:]`;
* `parseInt`       `int(s)`, `none` for a `ValueError`;
* `hex`            `hex(n)`.
-/

set_option linter.unusedVariables false

namespace Py
open Go

/-! ## members -/

inductive Member (α : Type) where
  | missing
  | null
  | val (a : α)
  deriving DecidableEq, Repr

section
variable {α : Type}

/-- `d.get(k)` -/
def Member.get : Member α → Option α
  | .val a => some a
  | _ => none

/-- `d.get(k, default)`: the default stands for a missing member only -/
def Member.getD : Member α → Option α → Option α
  | .missing, default => default
  | .null, _ => none
  | .val a, _ => some a

/-- `k in d` -/
def Member.has : Member α → Bool
  | .missing => false
  | _ => true

/-- the member that `None` or a value is written as -/
def Member.ofOption : Option α → Member α
  | some a => .val a
  | none => .null

@[simp] theorem Member.get_ofOption (x : Option α) : (Member.ofOption x).get = x := by
  cases x <;> rfl

theorem Member.val_ne_null (a : α) : Member.val a ≠ .null := fun h => by cases h
theorem Member.missing_ne_null : (Member.missing : Member α) ≠ .null := fun h => by cases h

@[simp] theorem Member.get_val (a : α) : (Member.val a).get = some a := rfl
@[simp] theorem Member.get_null : (Member.null : Member α).get = none := rfl
@[simp] theorem Member.get_missing : (Member.missing : Member α).get = none := rfl
@[simp] theorem Member.getD_val (a : α) (d : Option α) : (Member.val a).getD d = some a := rfl
@[simp] theorem Member.getD_null (d : Option α) : Member.null.getD d = none := rfl
@[simp] theorem Member.getD_missing (d : Option α) : Member.missing.getD d = d := rfl
@[simp] theorem Member.has_val (a : α) : (Member.val a).has = true := rfl
@[simp] theorem Member.has_null : (Member.null : Member α).has = true := rfl
@[simp] theorem Member.has_missing : (Member.missing : Member α).has = false := rfl

end

/-! ## characters -/

def Ascii (s : Bytes) : Prop := ∀ b ∈ s, b.toNat < 0x80

instance decidableAscii (s : Bytes) : Decidable (Ascii s) :=
  List.decidableBAll (fun b : Byte => b.toNat < 0x80) s

def lowerByte (b : Byte) : Byte := if 0x41 ≤ b && b ≤ 0x5a then b + 0x20 else b
def upperByte (b : Byte) : Byte := if 0x61 ≤ b && b ≤ 0x7a then b - 0x20 else b

/-- `str.lower`, `str.upper` and the value of a decimal digit -/
structure Unicode where
  lower : Bytes → Bytes
  upper : Bytes → Bytes
  digit : Nat → Option Nat
  lower_ascii : ∀ s, Ascii s → lower s = s.map lowerByte
  upper_ascii : ∀ s, Ascii s → upper s = s.map upperByte
  digit_ascii : ∀ c, c < 0x80 → digit c = if 0x30 ≤ c ∧ c ≤ 0x39 then some (c - 0x30) else none

/-- the mappings that leave everything outside ASCII alone -/
def Unicode.ascii : Unicode where
  lower s := s.map lowerByte
  upper s := s.map upperByte
  digit c := if 0x30 ≤ c ∧ c ≤ 0x39 then some (c - 0x30) else none
  lower_ascii _ _ := rfl
  upper_ascii _ _ := rfl
  digit_ascii _ _ := rfl

/-- `str.isspace` of a code point -/
def isSpace (r : Nat) : Bool :=
  0x09 ≤ r && r ≤ 0x0d || 0x1c ≤ r && r ≤ 0x20 || r == 0x85 || r == 0xa0 || r == 0x1680
    || 0x2000 ≤ r && r ≤ 0x200a || r == 0x2028 || r == 0x2029 || r == 0x202f || r == 0x205f
    || r == 0x3000

/-- the bytes of the code points -/
def chars (s : Bytes) : List Bytes := runeBytesFuel s.length s

/-- `s.strip()` -/
def strip (s : Bytes) : Bytes :=
  let space := fun c => isSpace (decodeRune c).1
  ((((chars s).dropWhile space).reverse.dropWhile space).reverse).flatten

/-- `s[n:]` -/
def dropChars (n : Nat) (s : Bytes) : Bytes := ((chars s).drop n).flatten

/-! ## integers -/

/-- `hex(n)` -/
def hex : Int → Bytes
  | .ofNat n => str "0x" ++ hexNat n
  | .negSucc n => str "-0x" ++ hexNat (n + 1)

/-- The digits of a decimal literal: one underscore may stand between two of them.  `prev` says that
a digit is just before. -/
def digits (u : Unicode) : Bool → List Nat → Option (List Nat)
  | prev, [] => if prev then some [] else none
  | prev, c :: cs =>
    match u.digit c with
    | some d => (digits u true cs).map (d :: ·)
    | none => if c = 0x5f ∧ prev then digits u false cs else none

/-- `sys.int_info.default_max_str_digits` -/
def maxStrDigits : Nat := 4300

/-- `int(s)` of a stripped string -/
def parseInt (u : Unicode) (s : Bytes) : Option Int :=
  let unsigned := fun cs =>
    match digits u false cs with
    | some ds =>
      if ds.length ≤ maxStrDigits then some ((ds.foldl (fun n d => n * 10 + d) 0 : Nat) : Int) else none
    | none => none
  match runes s with
  | [] => none
  | c :: cs =>
    if c = 0x2b then unsigned cs
    else if c = 0x2d then (unsigned cs).map fun n => -n
    else unsigned (c :: cs)

example : parseInt .ascii (str "1_027") = some 1027 := by decide +kernel

/-! ## ASCII strings -/

theorem chars_ascii (s : Bytes) (h : Ascii s) : chars s = s.map fun b => [b] :=
  runeBytes_ascii s h

theorem dropChars_ascii (n : Nat) (s : Bytes) (h : Ascii s) : dropChars n s = s.drop n := by
  unfold dropChars
  rw [chars_ascii s h, ← List.map_drop, flatten_singles]

/-- a string of ASCII characters without a space is stripped already -/
theorem strip_ascii (s : Bytes) (h : Ascii s) (hs : ∀ b ∈ s, isSpace b.toNat = false) :
    strip s = s := trimRunes_ascii isSpace s h hs

/-- lower-case hexadecimal digits stay as they are -/
theorem lowerByte_of_isHex {b : Byte} (h : isHex b) : lowerByte b = b := by
  unfold lowerByte
  rw [if_neg]
  intro hu
  rw [Bool.and_eq_true, decide_eq_true_eq, decide_eq_true_eq, UInt8.le_iff_toNat_le,
    UInt8.le_iff_toNat_le] at hu
  have h1 : (0x41 : UInt8).toNat = 65 := rfl
  have h2 : (0x5a : UInt8).toNat = 90 := rfl
  unfold isHex at h
  omega

theorem isSpace_of_isHex {b : Byte} (h : isHex b) : isSpace b.toNat = false := by
  have range : ∀ r, r < 103 → (48 ≤ r ∧ r ≤ 57 ∨ 97 ≤ r ∧ r ≤ 102) → isSpace r = false := by decide
  unfold isHex at h
  exact range _ (by omega) h

theorem ascii_of_isHex {b : Byte} (h : isHex b) : b.toNat < 0x80 := by
  unfold isHex at h
  omega

end Py
