import FingerprintLab.Base.Str
import Mathlib.Data.List.Basic

/-!
# File paths

What a path names after `filepath.Clean`, on a system whose separator is the slash: a start, the
root or the working directory, and the elements that are left.

* `locate`, `join`   `filepath.Clean` and `filepath.Join`;
* `IsName`          one element that is neither `.` nor `..`;
* `join_child`      a path joined with a name is the child of that name, whatever the path.
-/

set_option linter.unusedVariables false

namespace Paths
open Go

def slash : Byte := 0x2f

structure Location where
  rooted : Bool
  elems : List Bytes
  deriving DecidableEq, Repr

def Location.child (l : Location) (name : Bytes) : Location := ⟨l.rooted, l.elems ++ [name]⟩

/-- The next element of a path.  `..` takes the last element away; at the root it is dropped, and at
the start of a relative path it stays. -/
def step (rooted : Bool) (es : List Bytes) (e : Bytes) : List Bytes :=
  if e = [] ∨ e = str "." then es
  else if e = str ".." then
    match es.getLast? with
    | some last => if last = str ".." then es ++ [e] else es.dropLast
    | none => if rooted then es else [e]
  else es ++ [e]

/-- `filepath.Clean` -/
def locate (s : Bytes) : Location :=
  let rooted := s.head? == some slash
  ⟨rooted, (s.splitOn slash).foldl (step rooted) []⟩

/-- `filepath.Join`; the empty string, the join of nothing, is read as the working directory -/
def join (es : List Bytes) : Location := locate (Go.join (es.dropWhile fun e => e = []) [slash])

example : join [str "/profiles/", str "../captures", str "a//b/."]
    = ⟨true, [str "captures", str "a", str "b"]⟩ := by decide +kernel

/-- the name of a file in a directory -/
structure IsName (s : Bytes) : Prop where
  ne_nil : s ≠ []
  no_slash : slash ∉ s
  ne_dot : s ≠ str "."
  ne_dots : s ≠ str ".."

theorem child_inj {l : Location} {a b : Bytes} (h : l.child a = l.child b) : a = b := by
  have he : l.elems ++ [a] = l.elems ++ [b] := congrArg Location.elems h
  exact List.singleton_inj.mp (List.append_cancel_left he)

theorem child_ne (l : Location) (a : Bytes) : l.child a ≠ l := by
  intro h
  have he : l.elems ++ [a] = l.elems := congrArg Location.elems h
  exact List.cons_ne_nil a [] (List.append_right_eq_self.mp he)

theorem step_name {e : Bytes} (h : IsName e) (rooted : Bool) (es : List Bytes) :
    step rooted es e = es ++ [e] := by
  unfold step
  rw [if_neg (not_or.mpr ⟨h.ne_nil, h.ne_dot⟩), if_neg h.ne_dots]

theorem locate_append {s e : Bytes} (hs : s ≠ []) (h : IsName e) :
    locate (s ++ slash :: e) = (locate s).child e := by
  have hhead : (s ++ slash :: e).head? = s.head? := List.head?_append_of_ne_nil _ hs
  unfold locate Location.child
  dsimp only
  rw [hhead, List.splitOn_append_cons_self, List.splitOn_eq_singleton h.no_slash, List.foldl_append,
    List.foldl_cons, List.foldl_nil, step_name h]

theorem locate_name {e : Bytes} (h : IsName e) : locate e = (locate []).child e := by
  have hhead : (e.head? == some slash) = false := by
    cases e with
    | nil => rfl
    | cons b e =>
      have hb : b ≠ slash := fun hb => h.no_slash (hb ▸ List.mem_cons_self)
      simpa using hb
  unfold locate Location.child
  dsimp only
  rw [hhead, List.splitOn_eq_singleton h.no_slash, List.foldl_cons, List.foldl_nil, step_name h]
  rfl

theorem join_concat {es : List Bytes} (hes : es ≠ []) (e : Bytes) :
    Go.join (es ++ [e]) [slash] = Go.join es [slash] ++ slash :: e := by
  unfold Go.join
  induction es with
  | nil => exact absurd rfl hes
  | cons x es ih =>
    cases es with
    | nil => simp
    | cons y es =>
      rw [List.cons_append, List.cons_append, List.intercalate_cons_cons, ← List.cons_append,
        ih (List.cons_ne_nil y es), List.intercalate_cons_cons, List.append_assoc,
        List.append_assoc, List.append_assoc]

theorem join_skip (es : List Bytes) : join ([] :: es) = join es := rfl

theorem join_start {x : Bytes} (hx : x ≠ []) (es : List Bytes) :
    join (x :: es) = locate (Go.join (x :: es) [slash]) := by
  unfold join
  rw [List.dropWhile_cons_of_neg (by simpa using hx)]

theorem join_one (s : Bytes) : join [s] = locate s := by
  have hone : Go.join [s] [slash] = s := by simp [Go.join]
  by_cases hs : s = []
  · rw [hs]
    rfl
  · rw [join_start hs, hone]

/-- a path joined with a name -/
theorem join_child (es : List Bytes) {e : Bytes} (h : IsName e) :
    join (es ++ [e]) = (join es).child e := by
  induction es with
  | nil =>
    show join [e] = (locate []).child e
    rw [join_one, ← locate_name h]
  | cons x es ih =>
    by_cases hx : x = []
    · rw [hx, List.cons_append, join_skip, join_skip, ih]
    · have htext : Go.join (x :: es) [slash] ≠ [] := by
        unfold Go.join
        cases es with
        | nil => simpa using hx
        | cons y es => simp [List.intercalate_cons_cons]
      rw [join_start hx, List.cons_append, join_start hx, ← List.cons_append,
        join_concat (List.cons_ne_nil x es), locate_append htext h]

end Paths
