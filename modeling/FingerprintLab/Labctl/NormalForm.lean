import FingerprintLab.Base.Loops
import FingerprintLab.Labctl.Register
import Mathlib.Data.List.DropRight

/-!
# The normal form of ids

`sanitizeID` replaces pairs of dashes until there is none, and trims.  What it returns decides which
directory an archive overwrites.

* `collapse_ends`        the loop ends, after at most as many turns as the id has bytes;
* `NormalID`             a word without two adjacent dashes and without one at either end;
* `archiveDir`           the directory that `archiveSnapshot` writes to;
* `sanitizeID_normal`    the ids are in normal form, and an archive is a proper child of `profiles/`.
-/

set_option linter.unusedVariables false

namespace Labctl
open Go Lab Loops Paths

/-! ## the loop -/

theorem replaceDashes_le (s : Bytes) : (replaceDashes s).length ≤ s.length := by
  induction s using replaceDashes.induct with
  | case1 => exact Nat.le_refl _
  | case2 b => exact Nat.le_refl _
  | case3 b c s hbc ih =>
    rw [replaceDashes, if_pos hbc, List.length_cons, List.length_cons, List.length_cons]
    omega
  | case4 b c s hbc ih =>
    rw [replaceDashes, if_neg hbc, List.length_cons, List.length_cons]
    omega

/-- a turn of the loop removes a byte -/
theorem replaceDashes_lt (s : Bytes) (h : hasDashes s = true) :
    (replaceDashes s).length < s.length := by
  induction s using replaceDashes.induct with
  | case1 => cases h
  | case2 b => cases h
  | case3 b c s hbc ih =>
    have hle := replaceDashes_le s
    rw [replaceDashes, if_pos hbc, List.length_cons, List.length_cons, List.length_cons]
    omega
  | case4 b c s hbc ih =>
    have hne : (b == 0x2d && c == 0x2d) = false := by
      simpa using hbc
    rw [hasDashes, hne, Bool.false_or] at h
    rw [replaceDashes, if_neg hbc, List.length_cons, List.length_cons]
    exact Nat.succ_lt_succ (ih h)

theorem collapseDashes_while (n : Nat) (s : Bytes) :
    collapseDashes n s = whileFuel hasDashes replaceDashes n s := by
  induction n generalizing s with
  | zero => rfl
  | succ n ih => rw [collapseDashes, whileFuel, ih]

/-- the loop ends, and the model's fuel lasts until then -/
theorem collapse_ends (s : Bytes) : ∃ n, n ≤ s.length ∧ EndsAfter hasDashes replaceDashes n s ∧
    collapseDashes s.length s = replaceDashes^[n] s := by
  obtain ⟨n, hn, hend⟩ := ends_of_measure hasDashes replaceDashes List.length replaceDashes_lt s
  refine ⟨n, hn, hend, ?_⟩
  rw [collapseDashes_while, whileFuel_eq hasDashes replaceDashes hend hn]

/-! ## the normal form -/

def dashes : Bytes := str "--"

structure NormalID (s : Bytes) : Prop where
  word : Word s
  single : ¬ dashes <:+: s
  head : s.head? ≠ some 0x2d
  last : s.getLast? ≠ some 0x2d

theorem hasDashes_iff (s : Bytes) : hasDashes s = true ↔ dashes <:+: s := by
  induction s using hasDashes.induct with
  | case1 b c s ih =>
    have hpair : dashes <+: b :: c :: s ↔ (b == 0x2d && c == 0x2d) = true := by
      show [0x2d, 0x2d] <+: b :: c :: s ↔ _
      rw [List.cons_prefix_cons, List.cons_prefix_cons, Bool.and_eq_true, beq_iff_eq, beq_iff_eq]
      exact ⟨fun h => ⟨h.1.symm, h.2.1.symm⟩, fun h => ⟨h.1.symm, h.2.symm, List.nil_prefix⟩⟩
    rw [hasDashes, Bool.or_eq_true, ih, ← hpair]
    exact List.infix_cons_iff.symm
  | case2 s hs =>
    have hshort : s.length < 2 := by
      match s, hs with
      | [], _ => exact Nat.two_pos
      | [b], _ => exact Nat.one_lt_two
      | b :: c :: s, hs => exact absurd rfl (hs b c s)
    refine iff_of_false ?_ fun h => ?_
    · rw [hasDashes]
      · exact Bool.false_ne_true
      · exact hs
    · have hl := h.length_le
      have h2 : dashes.length = 2 := rfl
      omega

theorem trimDashes_eq (s : Bytes) :
    trimDashes s = (s.dropWhile (· == 0x2d)).rdropWhile (· == 0x2d) := rfl

theorem trimDashes_within (s : Bytes) : trimDashes s <:+: s := by
  have hpre := List.rdropWhile_prefix (fun b : Byte => b == 0x2d) (s.dropWhile (· == 0x2d))
  have hsuf := List.dropWhile_suffix (fun b : Byte => b == 0x2d) (l := s)
  rw [trimDashes_eq]
  exact hpre.isInfix.trans hsuf.isInfix

theorem trimDashes_last (s : Bytes) : (trimDashes s).getLast? ≠ some 0x2d := by
  intro h
  rw [trimDashes_eq] at h
  have hne : (s.dropWhile (· == 0x2d)).rdropWhile (· == 0x2d) ≠ [] := by
    intro hnil
    rw [hnil] at h
    cases h
  have hnot := List.rdropWhile_last_not (fun b : Byte => b == 0x2d) _ hne
  rw [List.getLast?_eq_some_getLast hne] at h
  rw [Option.some.inj h] at hnot
  exact hnot rfl

theorem trimDashes_head (s : Bytes) : (trimDashes s).head? ≠ some 0x2d := by
  intro h
  rw [trimDashes_eq] at h
  -- what is cut at the end leaves the first byte alone
  have hpre := List.rdropWhile_prefix (fun b : Byte => b == 0x2d) (s.dropWhile (· == 0x2d))
  have hne : (s.dropWhile (· == 0x2d)).rdropWhile (· == 0x2d) ≠ [] := by
    intro hnil
    rw [hnil] at h
    cases h
  obtain ⟨rest, hrest⟩ := hpre
  have hfirst : (s.dropWhile (· == 0x2d)).head? = some 0x2d := by
    rw [← hrest, List.head?_append_of_ne_nil _ hne]
    exact h
  have hnot := List.head?_dropWhile_not (fun b : Byte => b == 0x2d) s
  rw [hfirst] at hnot
  cases hnot

/-- what `sanitizeID` returns -/
theorem normalID_sanitizeID (s : Bytes) : NormalID (sanitizeID s) where
  word := word_sanitizeID s
  single h := by
    obtain ⟨n, -, hend, hcol⟩ := collapse_ends (idText s)
    have hin : dashes <:+: replaceDashes^[n] (idText s) := by
      rw [← hcol]
      exact h.trans (trimDashes_within _)
    rw [← hasDashes_iff, hend.1] at hin
    cases hin
  head := trimDashes_head _
  last := trimDashes_last _

/-- an id in normal form is left alone -/
theorem NormalID.sanitizeID {s : Bytes} (h : NormalID s) : sanitizeID s = s := by
  have hno : hasDashes s = false := by
    rw [← Bool.not_eq_true, hasDashes_iff]
    exact h.single
  have hstop : ∀ n, collapseDashes n s = s := by
    intro n
    cases n with
    | zero => rfl
    | succ n => rw [collapseDashes, if_neg (by rw [hno]; exact Bool.false_ne_true)]
  have hhead : s.dropWhile (· == 0x2d) = s := by
    cases s with
    | nil => rfl
    | cons b s =>
      refine List.dropWhile_cons_of_neg fun hb => ?_
      exact h.head (congrArg some (eq_of_beq hb))
  have hlast : s.rdropWhile (· == 0x2d) = s := by
    refine List.rdropWhile_eq_self_iff.mpr fun hne hb => ?_
    exact h.last (by rw [List.getLast?_eq_some_getLast hne, eq_of_beq hb])
  unfold Labctl.sanitizeID
  dsimp only
  rw [h.word.idText, hstop, trimDashes_eq, hhead, hlast]

/-! ## the archive directory -/

/-- `filepath.Join(labRoot, "profiles")` -/
def profilesRoot (labRoot : Bytes) : Location := join [labRoot, str "profiles"]

/-- `filepath.Join(labRoot, "profiles", archID)` -/
def archiveDir (labRoot archID : Bytes) : Location := join [labRoot, str "profiles", archID]

theorem archiveDir_child (labRoot : Bytes) {id : Bytes} (h : Word id) (hne : id ≠ []) :
    archiveDir labRoot id = (profilesRoot labRoot).child id :=
  join_child [labRoot, str "profiles"] (h.isName hne)

theorem archivePrefix_ne_nil (t : Target) (old : Slot) : archivePrefix t old ≠ [] := by
  obtain ⟨b, hb, -⟩ := keyByte_archivePrefix t old
  exact List.ne_nil_of_mem hb

/-- the digit, or the letter of `prev`, is in the id -/
theorem archiveBase_ne_nil (t : Target) (old : Slot) : archiveBase t old ≠ [] := by
  obtain ⟨b, hb, -⟩ := keyByte_archiveBase t old
  exact List.ne_nil_of_mem hb

/-- the directory's name is a word that is not empty -/
theorem archiveDst_word (profiles : Tree) (t : Target) (old : Slot) :
    Word (archiveDst profiles (archivePrefix t old) old).1 ∧
      (archiveDst profiles (archivePrefix t old) old).1 ≠ [] := by
  obtain ⟨tail, he, htail⟩ := archiveDst_id profiles t old
  have hbase : Word (archiveBase t old) := word_sanitizeID _
  have hword : Word tail := by
    obtain rfl | rfl := htail
    · exact fun b hb => absurd hb List.not_mem_nil
    · have hdash : Word (str "-") := by decide
      exact hdash.append (word_sanitizeID _)
  rw [he]
  exact ⟨hbase.append hword, List.append_ne_nil_of_left_ne_nil (archiveBase_ne_nil t old) _⟩

/-- **Ids are in normal form**: the loop of `sanitizeID` ends on every string, what it returns is in
normal form, and a second call changes nothing; and for every family, every slot and every tree the
archive has an id, so that its directory is a child of `profiles/` and not `profiles/` itself. -/
theorem sanitizeID_normal :
    (∀ s : Bytes, ∃ n, n ≤ (idText s).length ∧ EndsAfter hasDashes replaceDashes n (idText s) ∧
      sanitizeID s = trimDashes (replaceDashes^[n] (idText s))) ∧
    (∀ s : Bytes, NormalID (sanitizeID s) ∧ sanitizeID (sanitizeID s) = sanitizeID s) ∧
    ∀ (profiles : Tree) (t : Target) (old : Slot),
      archivePrefix t old ≠ [] ∧ sanitizeID (archivePrefix t old) ≠ [] ∧
      (archiveDst profiles (archivePrefix t old) old).1 ≠ [] ∧
      ∀ labRoot : Bytes,
        archiveDir labRoot (archiveDst profiles (archivePrefix t old) old).1
          = (profilesRoot labRoot).child (archiveDst profiles (archivePrefix t old) old).1 ∧
        archiveDir labRoot (archiveDst profiles (archivePrefix t old) old).1
          ≠ profilesRoot labRoot := by
  refine ⟨fun s => ?_, fun s => ?_, fun profiles t old => ?_⟩
  · obtain ⟨n, hn, hend, hcol⟩ := collapse_ends (idText s)
    refine ⟨n, hn, hend, ?_⟩
    rw [← hcol]
    rfl
  · have hnormal := normalID_sanitizeID s
    exact ⟨hnormal, hnormal.sanitizeID⟩
  · obtain ⟨hword, hne⟩ := archiveDst_word profiles t old
    refine ⟨archivePrefix_ne_nil t old, archiveBase_ne_nil t old, hne, fun labRoot => ?_⟩
    have hchild := archiveDir_child labRoot hword hne
    refine ⟨hchild, ?_⟩
    rw [hchild]
    exact child_ne _ _

end Labctl
