import FingerprintLab.Base.Py

/-!
# Python texts by lines

A text is the list of its code points.

* `newlines`, `splitlines`   what `read_text` and `str.splitlines` make of line ends;
* `literal`, `spaces`        a literal and `\s+` of a regular expression;
* `Scanner`, `scan`          a scan of a text by lines, that an empty line leaves as it is;
* `scan_append`              a text written after a newline is scanned after the text before it,
                             however that one ends;
* `scan_append_block`        lines that are written whole are scanned one by one.
-/

set_option linter.unusedVariables false

namespace Py
open Go

abbrev Text := List Nat

/-! ## line ends -/

/-- `\r\n` and `\r` become `\n`; `cr` says that the character before is a `\r` -/
def newlines : Bool → Text → Text
  | _, [] => []
  | cr, r :: s =>
    if cr && r == 0x0a then newlines false s
    else if r == 0x0d then 0x0a :: newlines true s
    else r :: newlines false s

/-- the characters that end a line -/
def isBreak (r : Nat) : Bool :=
  0x0a ≤ r && r ≤ 0x0d || 0x1c ≤ r && r ≤ 0x1e || r == 0x85 || r == 0x2028 || r == 0x2029

/-- `line` has been read of the line -/
def linesFrom : Bool → Text → Text → List Text
  | _, line, [] => if line = [] then [] else [line]
  | cr, line, r :: s =>
    if cr && r == 0x0a then linesFrom false line s
    else if isBreak r then line :: linesFrom (r == 0x0d) [] s
    else linesFrom false (line ++ [r]) s

def splitlines (s : Text) : List Text := linesFrom false [] s

example : splitlines [0x61, 0x0d, 0x0a, 0x0a, 0x62, 0x0c] = [[0x61], [], [0x62]] := by decide

/-! ## patterns -/

/-- a literal: what follows it -/
def literal (w s : Text) : Option Text := if w.isPrefixOf s then some (s.drop w.length) else none

/-- `\s+`, before something that is no space -/
def spaces : Text → Option Text
  | r :: s => if isSpace r then some (s.dropWhile isSpace) else none
  | [] => none

/-! ## newlines -/

/-- no `\r` left -/
theorem newlines_cr (cr : Bool) (s : Text) : 0x0d ∉ newlines cr s := by
  induction s generalizing cr with
  | nil => simp [newlines]
  | cons r s ih =>
    rw [newlines]
    split
    · exact ih false
    split
    · simpa using ih true
    · rename_i hr
      simp only [List.mem_cons, not_or]
      exact ⟨fun he => hr (by simp [← he]), ih false⟩

theorem newlines_plain {s : Text} (h : 0x0d ∉ s) : newlines false s = s := by
  induction s with
  | nil => rfl
  | cons r s ih =>
    simp only [List.mem_cons, not_or] at h
    have hr : ¬ (r == 0x0d) = true := by simpa using Ne.symm h.1
    rw [newlines, if_neg (by simp), if_neg hr, ih h.2]

/-- A `\n` after the text is a newline of its own, or the end of a `\r\n`. -/
theorem newlines_append (cr : Bool) (s : Text) {t : Text} (h : 0x0d ∉ t) :
    newlines cr (s ++ 0x0a :: t) = newlines cr s ++ 0x0a :: t ∨
      (s = [] ∧ cr = true ∧ newlines cr (s ++ 0x0a :: t) = t) ∨
      ∃ u, newlines cr s = u ++ [0x0a] ∧ newlines cr (s ++ 0x0a :: t) = u ++ 0x0a :: t := by
  induction s generalizing cr with
  | nil =>
    have ht := newlines_plain h
    cases cr with
    | false =>
      left
      simp [newlines, ht]
    | true =>
      right; left
      simp [newlines, ht]
  | cons r s ih =>
    rw [List.cons_append, newlines, newlines]
    by_cases hlf : (cr && r == 0x0a) = true
    · rw [if_pos hlf, if_pos hlf]
      obtain h1 | ⟨-, hcr, -⟩ | h3 := ih false
      · exact .inl h1
      · cases hcr
      · exact .inr (.inr h3)
    rw [if_neg hlf, if_neg hlf]
    by_cases hcr : (r == 0x0d) = true
    · rw [if_pos hcr, if_pos hcr]
      obtain h1 | ⟨rfl, -, h2⟩ | ⟨u, h3, h4⟩ := ih true
      · exact .inl (by rw [h1, List.cons_append])
      · exact .inr (.inr ⟨[], rfl, by rw [h2, List.nil_append]⟩)
      · exact .inr (.inr ⟨0x0a :: u, by rw [h3, List.cons_append], by rw [h4, List.cons_append]⟩)
    · rw [if_neg hcr, if_neg hcr]
      obtain h1 | ⟨-, hf, -⟩ | ⟨u, h3, h4⟩ := ih false
      · exact .inl (by rw [h1, List.cons_append])
      · cases hf
      · exact .inr (.inr ⟨r :: u, by rw [h3, List.cons_append], by rw [h4, List.cons_append]⟩)

/-! ## lines -/

theorem linesFrom_break (line : Text) {r : Nat} (h : isBreak r = true) (s : Text) :
    linesFrom false line (r :: s) = line :: linesFrom (r == 0x0d) [] s := by
  simp [linesFrom, h]

theorem linesFrom_char (line : Text) {r : Nat} (h : isBreak r = false) (s : Text) :
    linesFrom false line (r :: s) = linesFrom false (line ++ [r]) s := by
  simp [linesFrom, h]

/-! ## scans -/

section
variable {S : Type} (step : S → Text → S)

/-- the lines of a text, one after the other -/
def scan (st : S) (s : Text) : S := (splitlines s).foldl step st

/-- an empty line changes nothing -/
def Scanner : Prop := ∀ st, step st [] = st

variable {step} (hblank : Scanner step)
include hblank

/-- The scan goes on after a `\n` as if the text ended there. -/
theorem foldl_linesFrom (st : S) (line : Text) {s : Text} (hs : 0x0d ∉ s) (t : Text) :
    (linesFrom false line (s ++ 0x0a :: t)).foldl step st =
      (linesFrom false [] t).foldl step ((linesFrom false line s).foldl step st) := by
  induction s generalizing st line with
  | nil =>
    have hlf : isBreak 0x0a = true := by decide
    rw [List.nil_append, linesFrom_break line hlf, linesFrom]
    by_cases hl : line = []
    · rw [if_pos hl, hl, List.foldl_cons, hblank]
      rfl
    · rw [if_neg hl]
      rfl
  | cons r s ih =>
    simp only [List.mem_cons, not_or] at hs
    have hr : (r == 0x0d) = false := by simpa using Ne.symm hs.1
    rw [List.cons_append]
    cases hb : isBreak r with
    | true =>
      rw [linesFrom_break line hb, linesFrom_break line hb, hr, List.foldl_cons, List.foldl_cons,
        ih _ _ hs.2]
    | false => rw [linesFrom_char line hb, linesFrom_char line hb, ih _ _ hs.2]

theorem scan_break (st : S) {s : Text} (hs : 0x0d ∉ s) (t : Text) :
    scan step st (s ++ 0x0a :: t) = scan step (scan step st s) t :=
  foldl_linesFrom hblank st [] hs t

/-- a text written after a newline -/
theorem scan_append (st : S) (s : Text) {t : Text} (ht : 0x0d ∉ t) :
    scan step st (newlines false (s ++ 0x0a :: t)) =
      scan step (scan step st (newlines false s)) t := by
  obtain h | ⟨-, hf, -⟩ | ⟨u, hu, h⟩ := newlines_append false s ht
  · rw [h, scan_break hblank st (newlines_cr false s)]
  · cases hf
  · have hcr : 0x0d ∉ u := fun hm => newlines_cr false s (hu ▸ List.mem_append_left _ hm)
    rw [h, hu, scan_break hblank st hcr, scan_break hblank st hcr]
    rfl

end

/-! ## lines that are written whole -/

/-- no line end inside -/
def OneLine (l : Text) : Prop := ∀ r ∈ l, isBreak r = false

/-- the lines, each with its `\n` -/
def block (ls : List Text) : Text := ls.flatMap fun l => l ++ [0x0a]

theorem linesFrom_line (line : Text) {l : Text} (h : OneLine l) (t : Text) :
    linesFrom false line (l ++ 0x0a :: t) = (line ++ l) :: linesFrom false [] t := by
  induction l generalizing line with
  | nil =>
    have hlf : isBreak 0x0a = true := by decide
    rw [List.nil_append, linesFrom_break line hlf, List.append_nil]
    rfl
  | cons r l ih =>
    have hr := h r List.mem_cons_self
    rw [List.cons_append, linesFrom_char line hr,
      ih (line ++ [r]) fun c hc => h c (List.mem_cons_of_mem r hc), List.append_assoc]
    rfl

theorem splitlines_block {ls : List Text} (h : ∀ l ∈ ls, OneLine l) : splitlines (block ls) = ls := by
  induction ls with
  | nil => rfl
  | cons l ls ih =>
    have hl := h l List.mem_cons_self
    unfold splitlines block at ih ⊢
    rw [List.flatMap_cons, List.append_assoc, List.singleton_append, linesFrom_line [] hl,
      ih fun k hk => h k (List.mem_cons_of_mem l hk), List.nil_append]

theorem block_cr {ls : List Text} (h : ∀ l ∈ ls, OneLine l) : 0x0d ∉ block ls := by
  intro hm
  obtain ⟨l, hl, hr⟩ := List.mem_flatMap.mp hm
  obtain hr | hr := List.mem_append.mp hr
  · exact absurd (h l hl _ hr) (by decide)
  · exact absurd (List.mem_singleton.mp hr) (by decide)

theorem scan_block {S : Type} (step : S → Text → S) (st : S) {ls : List Text}
    (h : ∀ l ∈ ls, OneLine l) : scan step st (block ls) = ls.foldl step st := by
  unfold scan
  rw [splitlines_block h]

/-- lines written after a newline -/
theorem scan_append_block {S : Type} {step : S → Text → S} (hblank : Scanner step) (st : S)
    (s : Text) {ls : List Text} (h : ∀ l ∈ ls, OneLine l) :
    scan step st (newlines false (s ++ 0x0a :: block ls)) =
      ls.foldl step (scan step st (newlines false s)) := by
  rw [scan_append hblank st s (block_cr h), scan_block step _ h]

end Py
