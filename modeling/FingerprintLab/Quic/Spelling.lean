import FingerprintLab.Base.Numeral
import FingerprintLab.Quic.Recover

/-!
# Spellings of a transport parameter

A `tp_id_set` may hold a number as an integer, as a decimal or as a hexadecimal string, or the
GREASE token, which stands for 27.

* `Spelling`     one element, with the text it is written as (`elem`) and the number it means
                 (`value`);
* `token`        the token of a number, as `norm_tp` makes it of an integer;
* `Regular`      the spellings that `norm_tp` takes to the token of their number;
* `norm_tp_canonical_iff`   `norm_tp` goes by the number alone, and is idempotent, exactly on the
                 lists of regular spellings.
-/

set_option linter.unusedVariables false

namespace Quic
open Go Py

/-- blanks around a text -/
abbrev Blanks := { s : Bytes // ∀ b ∈ s, Blank b }

abbrev DecNumeral := { s : Bytes // s ≠ [] ∧ ∀ b ∈ s, isDec b }

/-- hexadecimal digits of either case -/
abbrev HexNumeral := { s : Bytes // s ≠ [] ∧ ∀ b ∈ s, isHexDigit b }

abbrev GreaseWord := { s : Bytes // s.map upperByte = str "GREASE" }

inductive Spelling where
  | null
  | int (n : Nat)
  | dec (before : Blanks) (digits : DecNumeral) (after : Blanks)
  | hex (before : Blanks) (capitalX : Bool) (digits : HexNumeral) (after : Blanks)
  | grease (before : Blanks) (word : GreaseWord) (after : Blanks)

namespace Spelling

/-- the `0x` of either case -/
def hexMark (capitalX : Bool) : Bytes := [0x30, if capitalX then 0x58 else 0x78]

def elem : Spelling → TPElem
  | .null => .null
  | .int n => .int n
  | .dec l ds r => .str (l.1 ++ ds.1 ++ r.1)
  | .hex l x ds r => .str (l.1 ++ (hexMark x ++ ds.1) ++ r.1)
  | .grease l w r => .str (l.1 ++ w.1 ++ r.1)

def value : Spelling → Option Nat
  | .null => none
  | .int n => some n
  | .dec _ ds _ => some (decValue ds.1)
  | .hex _ _ ds _ => some (hexValue (ds.1.map lowerByte))
  | .grease _ _ _ => some 27

/-- No hexadecimal spelling has a leading zero, and 27 is spelled `27` or `0x1b`; no decimal
spelling is longer than `int` reads. -/
def Regular : Spelling → Prop
  | .dec _ ds _ => ds.1.length ≤ maxStrDigits ∧ (decValue ds.1 = 27 → ds.1 = str "27")
  | .hex _ x ds _ => Canonical ds.1 ∧
      (hexValue (ds.1.map lowerByte) = 27 → hexMark x ++ ds.1 = str "0x1b")
  | _ => True

end Spelling

/-- the token of a number -/
def token (n : Nat) : Bytes := if n = 27 then str "GREASE" else str "0x" ++ hexNat n

/-! ## one spelling -/

section
variable (u : Unicode)

/-- a text of digits and minus signs -/
theorem normString_numeral {t s : Bytes} (hstrip : strip t = s)
    (hs : ∀ b ∈ s, isDec b ∨ b = 0x2d) :
    normString u t = if s = str "27" then str "GREASE"
      else match parseInt u s with
        | some n => hex n
        | none => s := by
  have hall : ∀ b : Byte, 48 ≤ b.toNat ∧ b.toNat ≤ 57 ∨ b = 0x2d →
      b.toNat < 0x80 ∧ upperByte b ≠ 0x47 ∧ lowerByte b = b ∧ b ≠ 0x78 :=
    forall_byte (by decide +kernel)
  have hbyte := fun b hb => hall b (hs b hb)
  have hascii : Ascii s := fun b hb => (hbyte b hb).1
  have hlower : u.lower s = s := by
    rw [u.lower_ascii s hascii]
    conv_rhs => rw [← List.map_id s]
    exact List.map_congr_left fun b hb => (hbyte b hb).2.2.1
  have hupper : u.upper s ≠ str "GREASE" := by
    rw [u.upper_ascii s hascii]
    cases s with
    | nil => exact fun h => nomatch h
    | cons b s => exact fun h => (hbyte b List.mem_cons_self).2.1 (List.cons.inj h).1
  -- no `x` among the characters
  have hx : (0x78 : Byte) ∉ s := fun h => (hbyte _ h).2.2.2 rfl
  have hmark : ¬ (str "0x").isPrefixOf s = true := fun h =>
    hx ((List.isPrefixOf_iff_prefix.mp h).subset (by decide))
  have h1b : s ≠ str "0x1b" := fun h => hx (h ▸ by decide)
  unfold normString
  dsimp only
  rw [hstrip, hlower]
  by_cases h27 : s = str "27"
  · rw [if_pos h27, if_pos (Or.inr (by rw [h27]; exact List.mem_cons_self))]
  · have hnot : ¬ (u.upper s = str "GREASE" ∨ s ∈ [str "27", str "0x1b"]) := by
      rintro (h | h)
      · exact hupper h
      obtain h | h := List.mem_cons.mp h
      · exact h27 h
      · exact h1b (List.mem_singleton.mp h)
    rw [if_neg h27, if_neg hnot]
    exact if_neg hmark

/-- a decimal string -/
theorem normString_dec (l r : Blanks) (ds : DecNumeral) :
    normString u (l.1 ++ ds.1 ++ r.1) =
      if ds.1 = str "27" then str "GREASE"
      else if ds.1.length ≤ maxStrDigits then str "0x" ++ hexNat (decValue ds.1) else ds.1 := by
  obtain ⟨s, hne, hs⟩ := ds
  have hplain : ∀ b ∈ s, Plain b := fun b hb => plain_of_isHex (isHex_of_isDec (hs b hb))
  have hstrip := strip_blank l.1 s r.1 l.2 r.2 hplain hne
  rw [normString_numeral u hstrip fun b hb => Or.inl (hs b hb), parseInt_digits u s hs hne]
  by_cases hlen : s.length ≤ maxStrDigits
  · rw [if_pos hlen, if_pos hlen]
    rfl
  · rw [if_neg hlen, if_neg hlen]

/-- a hexadecimal string -/
theorem normString_hex (l r : Blanks) (x : Bool) (ds : HexNumeral) :
    normString u (l.1 ++ (Spelling.hexMark x ++ ds.1) ++ r.1) =
      if Spelling.hexMark x ++ ds.1 = str "0x1b" then str "GREASE"
      else str "0x" ++ ds.1.map lowerByte := by
  obtain ⟨s, hne, hs⟩ := ds
  have hplain : ∀ b ∈ Spelling.hexMark x ++ s, Plain b := by
    intro b hb
    obtain hb | hb := List.mem_append.mp hb
    · have hall : ∀ b ∈ Spelling.hexMark x, Plain b := by
        unfold Plain
        cases x <;> decide +kernel
      exact hall b hb
    · exact plain_of_isHexDigit (hs b hb)
  have hascii : Ascii (Spelling.hexMark x ++ s) := fun b hb => (hplain b hb).1
  have hdigits : Ascii s := fun b hb => (hs b hb).1
  have hstrip := strip_blank l.1 (Spelling.hexMark x ++ s) r.1 l.2 r.2 hplain (by simp [hne])
  have hupper : u.upper (Spelling.hexMark x ++ s) ≠ str "GREASE" := by
    rw [u.upper_ascii _ hascii]
    intro h
    exact absurd (List.cons.inj h).1 (by decide)
  have hmark : (str "0x").isPrefixOf (u.lower (Spelling.hexMark x ++ s)) = true := by
    rw [u.lower_ascii _ hascii]
    cases x <;> rfl
  have hdrop : dropChars 2 (Spelling.hexMark x ++ s) = s := by
    rw [dropChars_ascii 2 _ hascii]
    rfl
  unfold normString
  dsimp only
  rw [hstrip, hdrop, u.lower_ascii s hdigits]
  by_cases h1b : Spelling.hexMark x ++ s = str "0x1b"
  · rw [if_pos h1b, if_pos (Or.inr (by rw [h1b]; exact List.mem_cons_of_mem _ List.mem_cons_self))]
  · have hnot : ¬ (u.upper (Spelling.hexMark x ++ s) = str "GREASE" ∨
        Spelling.hexMark x ++ s ∈ [str "27", str "0x1b"]) := by
      rintro (h | h)
      · exact hupper h
      obtain h | h := List.mem_cons.mp h
      · exact absurd (List.cons.inj h).1 (by decide)
      · exact h1b (List.mem_singleton.mp h)
    rw [if_neg h1b, if_neg hnot, if_pos hmark]

theorem grease_plain {s : Bytes} (hs : s.map upperByte = str "GREASE") : ∀ b ∈ s, Plain b := by
  have hall : ∀ b : Byte, upperByte b ∈ str "GREASE" → Plain b := by
    unfold Plain
    exact forall_byte (by decide +kernel)
  exact fun b hb => hall b (hs ▸ List.mem_map_of_mem hb)

/-- the GREASE token in any case -/
theorem normString_word (l r : Blanks) (w : GreaseWord) :
    normString u (l.1 ++ w.1 ++ r.1) = str "GREASE" := by
  obtain ⟨s, hs⟩ := w
  have hplain := grease_plain hs
  have hne : s ≠ [] := by
    rintro rfl
    cases hs
  have hstrip := strip_blank l.1 s r.1 l.2 r.2 hplain hne
  have hupper : u.upper s = str "GREASE" := by
    rw [u.upper_ascii s fun b hb => (hplain b hb).1]
    exact hs
  unfold normString
  dsimp only
  rw [hstrip, if_pos (Or.inl hupper)]

/-! ## tokens -/

theorem hexToken_ne_grease (s : Bytes) : str "0x" ++ s ≠ str "GREASE" := by
  intro h
  exact absurd (List.cons.inj h).1 (by decide)

theorem token_of_ne {n : Nat} (h : n ≠ 27) : token n = str "0x" ++ hexNat n := if_neg h

theorem token_inj {m n : Nat} (h : token m = token n) : m = n := by
  unfold token at h
  by_cases hm : m = 27
  · by_cases hn : n = 27
    · rw [hm, hn]
    · rw [if_pos hm, if_neg hn] at h
      exact absurd h.symm (hexToken_ne_grease _)
  · by_cases hn : n = 27
    · rw [if_neg hm, if_pos hn] at h
      exact absurd h (hexToken_ne_grease _)
    · rw [if_neg hm, if_neg hn] at h
      exact hexNat_inj m n (List.append_cancel_left h)

theorem normString_token (n : Nat) : normString u (token n) = token n := by
  by_cases h : n = 27
  · rw [h]
    exact normString_GREASE u
  · rw [token_of_ne h]
    exact normString_hexToken u n h

theorem norm_tokens (ns : List Nat) : norm_tp u ((ns.map token).map .str) = ns.map token := by
  unfold norm_tp
  induction ns with
  | nil => rfl
  | cons n ns ih =>
    rw [List.map_cons, List.map_cons, List.filterMap_cons]
    show normString u (token n) :: _ = _
    rw [normString_token, ih]

theorem canonical_lower (s : Bytes) : Canonical (s.map lowerByte) ↔ Canonical s := by
  have hzero : ∀ b : Byte, lowerByte b = 0x30 ↔ b = 0x30 := forall_byte (by decide +kernel)
  unfold Canonical
  cases s with
  | nil => exact Iff.rfl
  | cons b s =>
    rw [List.map_cons, List.head?_cons, List.head?_cons]
    simp only [List.cons.injEq, List.map_eq_nil_iff, hzero, ne_eq, Option.some.injEq]

theorem lower_isHex (ds : HexNumeral) : ∀ b ∈ ds.1.map lowerByte, isHex b := by
  intro b hb
  obtain ⟨c, hc, rfl⟩ := List.mem_map.mp hb
  exact (ds.2.2 c hc).2

/-! ## regular spellings -/

theorem regular_dec (l r : Blanks) (ds : DecNumeral) :
    normString u (l.1 ++ ds.1 ++ r.1) = token (decValue ds.1) ↔
      (Spelling.dec l ds r).Regular := by
  show _ ↔ ds.1.length ≤ maxStrDigits ∧ (decValue ds.1 = 27 → ds.1 = str "27")
  rw [normString_dec]
  by_cases h27 : ds.1 = str "27"
  · rw [if_pos h27, h27]
    exact ⟨fun _ => ⟨by decide, fun _ => rfl⟩, fun _ => by decide⟩
  · rw [if_neg h27]
    by_cases hlen : ds.1.length ≤ maxStrDigits
    · rw [if_pos hlen]
      by_cases hv : decValue ds.1 = 27
      · refine ⟨fun h => ?_, fun h => absurd (h.2 hv) h27⟩
        rw [hv] at h
        exact absurd h (hexToken_ne_grease _)
      · exact ⟨fun _ => ⟨hlen, fun h => absurd h hv⟩, fun _ => (token_of_ne hv).symm⟩
    · -- too long for `int`: the text stays, and no token consists of decimal digits
      rw [if_neg hlen]
      refine ⟨fun h => ?_, fun h => absurd h.1 hlen⟩
      have hmem : (0x78 : Byte) ∈ token (decValue ds.1) ∨ (0x47 : Byte) ∈ token (decValue ds.1) := by
        unfold token
        split
        · exact Or.inr (by decide)
        · exact Or.inl (List.mem_append_left _ (by decide))
      rw [← h] at hmem
      obtain hm | hm := hmem
      · exact absurd (ds.2.2 _ hm).2 (by decide)
      · exact absurd (ds.2.2 _ hm).2 (by decide)

theorem regular_hex (l r : Blanks) (x : Bool) (ds : HexNumeral) :
    normString u (l.1 ++ (Spelling.hexMark x ++ ds.1) ++ r.1)
        = token (hexValue (ds.1.map lowerByte)) ↔ (Spelling.hex l x ds r).Regular := by
  show _ ↔ Canonical ds.1 ∧
    (hexValue (ds.1.map lowerByte) = 27 → Spelling.hexMark x ++ ds.1 = str "0x1b")
  rw [normString_hex]
  by_cases h1b : Spelling.hexMark x ++ ds.1 = str "0x1b"
  · have hcut : Spelling.hexMark x ++ ds.1 = str "0x" ++ str "1b" := h1b
    have hds : ds.1 = str "1b" := (List.append_inj hcut rfl).2
    rw [if_pos h1b, hds]
    exact ⟨fun _ => ⟨by decide, fun _ => by rw [← hds]; exact h1b⟩, fun _ => by decide⟩
  · rw [if_neg h1b]
    by_cases hv : hexValue (ds.1.map lowerByte) = 27
    · refine ⟨fun h => ?_, fun h => absurd (h.2 hv) h1b⟩
      rw [hv] at h
      exact absurd h (hexToken_ne_grease _)
    · have hiff := hexNat_hexValue_iff (ds.1.map lowerByte) (lower_isHex ds) (by simp [ds.2.1])
      rw [canonical_lower] at hiff
      rw [token_of_ne hv, List.append_cancel_left_eq, eq_comm, hiff]
      exact ⟨fun h => ⟨h, fun h' => absurd h' hv⟩, fun h => h.1⟩

/-- one element is taken to the token of its number exactly if it is regular -/
theorem regular_iff (x : Spelling) (n : Nat) (hx : x.value = some n) :
    normElem u x.elem = some (token n) ↔ x.Regular := by
  cases x with
  | null => cases hx
  | int k =>
    rw [← Option.some.inj hx]
    refine iff_of_true ?_ trivial
    show some (if ((k : Nat) : Int) = 27 then str "GREASE" else hex k) = _
    by_cases hk : k = 27
    · rw [hk]
      rfl
    · rw [if_neg (by omega), token_of_ne hk]
      rfl
  | dec l ds r =>
    rw [← Option.some.inj hx]
    exact (Option.some_inj).trans (regular_dec u l r ds)
  | hex l x ds r =>
    rw [← Option.some.inj hx]
    exact (Option.some_inj).trans (regular_hex u l r x ds)
  | grease l w r =>
    rw [← Option.some.inj hx]
    exact iff_of_true (congrArg some (normString_word u l r w)) trivial

/-! ## lists -/

/-- the tokens are those of the numbers, in order, exactly if every spelling is regular -/
theorem norm_tp_eq_iff (xs : List Spelling) :
    norm_tp u (xs.map Spelling.elem) = (xs.filterMap Spelling.value).map token ↔
      ∀ x ∈ xs, x.Regular := by
  unfold norm_tp
  induction xs with
  | nil => exact iff_of_true rfl fun x hx => absurd hx List.not_mem_nil
  | cons x xs ih =>
    rw [List.map_cons, List.forall_mem_cons, ← ih]
    cases hv : x.value with
    | none =>
      have hnull : x = .null := by cases x <;> first | rfl | cases hv
      rw [hnull]
      exact ⟨fun h => ⟨trivial, h⟩, fun h => h.2⟩
    | some n =>
      have hsome : ∃ t, normElem u x.elem = some t := by
        cases x with
        | null => cases hv
        | _ => exact ⟨_, rfl⟩
      obtain ⟨t, ht⟩ := hsome
      rw [List.filterMap_cons, ht, List.filterMap_cons, hv, List.map_cons, List.cons.injEq,
        ← regular_iff u x n hv, ht, Option.some_inj]

/-- `norm_tp` goes by the numbers, in order; normalising once more changes nothing; set and markers
are those of the numbers. -/
structure ByNumber (xs : List Spelling) : Prop where
  tokens : norm_tp u (xs.map Spelling.elem) = (xs.filterMap Spelling.value).map token
  idempotent : norm_tp u ((norm_tp u (xs.map Spelling.elem)).map .str)
    = norm_tp u (xs.map Spelling.elem)
  set : tp_set u (xs.map Spelling.elem) = ((xs.filterMap Spelling.value).map token).toFinset
  markers : ∀ m, markers_from_tp (tp_set u (xs.map Spelling.elem)) m
    = decide (m.number.toNat ∈ xs.filterMap Spelling.value)

theorem Marker.token_number (m : Marker) : token m.number.toNat = m.id := by
  cases m <;> decide

/-- **`norm_tp` is a canonicalisation** of a list exactly if every spelling in it is regular. -/
theorem norm_tp_canonical_iff (xs : List Spelling) : ByNumber u xs ↔ ∀ x ∈ xs, x.Regular := by
  rw [← norm_tp_eq_iff u]
  refine ⟨fun h => h.tokens, fun h => ?_⟩
  have hset : tp_set u (xs.map Spelling.elem)
      = ((xs.filterMap Spelling.value).map token).toFinset := congrArg List.toFinset h
  refine ⟨h, ?_, hset, fun m => ?_⟩
  · rw [h]
    exact norm_tokens u _
  · rw [hset]
    unfold markers_from_tp
    refine decide_eq_decide.mpr ?_
    rw [List.mem_toFinset, ← m.token_number]
    refine ⟨fun hm => ?_, fun hm => List.mem_map_of_mem hm⟩
    obtain ⟨n, hn, he⟩ := List.mem_map.mp hm
    rw [← token_inj he]
    exact hn

end

def noBlanks : Blanks := ⟨[], fun b hb => absurd hb List.not_mem_nil⟩

/-- `0X1B`, `027` and `0x0011` -/
def irregular : List Spelling :=
  [.hex noBlanks true ⟨str "1B", by decide, by unfold isHexDigit isHex; decide +kernel⟩ noBlanks,
    .dec noBlanks ⟨str "027", by decide, by unfold isDec; decide +kernel⟩ noBlanks,
    .hex noBlanks false ⟨str "0011", by decide, by unfold isHexDigit isHex; decide +kernel⟩ noBlanks]

/-- Two spellings of 27 become GREASE on the second pass only, and 17 keeps its zeros. -/
theorem norm_tp_not_canonical :
    irregular.filterMap Spelling.value = [27, 27, 17] ∧
    norm_tp .ascii (irregular.map Spelling.elem) = [str "0x1b", str "0x1b", str "0x0011"] ∧
    norm_tp .ascii ((norm_tp .ascii (irregular.map Spelling.elem)).map .str)
      = [str "GREASE", str "GREASE", str "0x0011"] ∧
    norm_tp .ascii [.int 17] = [str "0x11"] ∧ ¬ ByNumber .ascii irregular := by
  have hnorm : norm_tp .ascii (irregular.map Spelling.elem)
      = [str "0x1b", str "0x1b", str "0x0011"] := by decide +kernel
  refine ⟨by decide +kernel, hnorm, by decide +kernel, by decide +kernel, fun h => ?_⟩
  have hid := h.idempotent
  rw [hnorm] at hid
  exact absurd hid (by decide +kernel)

end Quic
