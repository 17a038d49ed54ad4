import Mathlib.Data.List.Forall2
import Mathlib.Data.List.SplitLengths

/-!
# Texts in columns of fixed widths

A text `Matches` a list of columns when it is one text of each column, one after the other.

* `Matches.length`        its length is the sum of the widths;
* `Matches.all`           what holds in every column holds of every character;
* `splitLengths_flatten`  the texts of the columns are found again by their positions.
-/

set_option linter.unusedVariables false

namespace Columns

structure Column (α : Type) where
  width : Nat
  ok : List α → Prop

section
variable {α : Type}

/-- a text of the column -/
def Column.Holds (f : Column α) (p : List α) : Prop := p.length = f.width ∧ f.ok p

def Matches (fs : List (Column α)) (s : List α) : Prop :=
  ∃ parts, List.Forall₂ Column.Holds fs parts ∧ s = parts.flatten

theorem widths {fs : List (Column α)} {parts : List (List α)} (h : List.Forall₂ Column.Holds fs parts) :
    parts.map List.length = fs.map Column.width := by
  induction h with
  | nil => rfl
  | cons hp _ ih => rw [List.map_cons, List.map_cons, hp.1, ih]

theorem Matches.length {fs : List (Column α)} {s : List α} (h : Matches fs s) :
    s.length = fs.foldr (fun f n => f.width + n) 0 := by
  obtain ⟨parts, hparts, rfl⟩ := h
  induction hparts with
  | nil => rfl
  | cons hp _ ih => rw [List.flatten_cons, List.length_append, hp.1, ih, List.foldr_cons]

theorem Matches.all {fs : List (Column α)} {s : List α} {Q : α → Prop} (h : Matches fs s)
    (hQ : ∀ f ∈ fs, ∀ p, f.ok p → ∀ a ∈ p, Q a) : ∀ a ∈ s, Q a := by
  obtain ⟨parts, hparts, rfl⟩ := h
  induction hparts with
  | nil => exact fun a ha => absurd ha List.not_mem_nil
  | cons hp _ ih =>
    intro a ha
    rw [List.flatten_cons] at ha
    obtain ha | ha := List.mem_append.mp ha
    · exact hQ _ List.mem_cons_self _ hp.2 a ha
    · exact ih (fun f hf => hQ f (List.mem_cons_of_mem _ hf)) a ha

/-- a list of texts is recovered from what they are one after the other -/
theorem splitLengths_flatten (parts : List (List α)) :
    (parts.map List.length).splitLengths parts.flatten = parts := by
  induction parts with
  | nil => rfl
  | cons p parts ih =>
    rw [List.map_cons, List.flatten_cons, List.splitLengths_cons, List.take_left, List.drop_left, ih]

theorem splitLengths_columns {fs : List (Column α)} {parts : List (List α)}
    (h : List.Forall₂ Column.Holds fs parts) :
    (fs.map Column.width).splitLengths parts.flatten = parts := by
  rw [← widths h, splitLengths_flatten]

end

end Columns
