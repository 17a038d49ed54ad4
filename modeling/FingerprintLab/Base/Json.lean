import FingerprintLab.Base.Py
import Mathlib.Data.Finmap
import Mathlib.Data.Finset.Sort

/-!
# `json.dumps(value, sort_keys=True)`

Python's compact encoding with its default separators: everything outside printable ASCII is escaped,
and the members of an object stand in the order of their names.

* `Json`          the values that are encoded; `ofMap` is a `dict` of texts by name;
* `quote`         a string with its escapes;
* `dumps`         the encoding.
-/

set_option linter.unusedVariables false

namespace Py
open Go

inductive Json where
  | null
  | bool (b : Bool)
  | int (n : Int)
  | str (s : Bytes)
  | arr (vs : List Json)
  | obj (ms : List (Bytes × Json))

/-- `\uXXXX` of a UTF-16 unit -/
def unitEscape (n : Nat) : Bytes := Go.str "\\u" ++ hex04 (UInt16.ofNat n)

def escapeRune (r : Nat) : Bytes :=
  if r = 0x22 then Go.str "\\\""
  else if r = 0x5c then Go.str "\\\\"
  else if r = 0x0a then Go.str "\\n"
  else if r = 0x0d then Go.str "\\r"
  else if r = 0x09 then Go.str "\\t"
  else if r = 0x0c then Go.str "\\f"
  else if r = 0x08 then Go.str "\\b"
  else if 0x20 ≤ r ∧ r ≤ 0x7e then [UInt8.ofNat r]
  else if r < 0x10000 then unitEscape r
  else unitEscape (0xd800 + (r - 0x10000) / 0x400) ++ unitEscape (0xdc00 + (r - 0x10000) % 0x400)

def quote (s : Bytes) : Bytes := Go.str "\"" ++ (runes s).flatMap escapeRune ++ Go.str "\""

/-- the members with their values encoded, in the order of the names -/
def dumpMembers (ms : List (Bytes × Bytes)) : Bytes :=
  let sorted := ms.insertionSort fun a b => a.1 ≤ b.1
  Go.str "\x7b" ++ join (sorted.map fun m => quote m.1 ++ Go.str ": " ++ m.2) (Go.str ", ")
    ++ Go.str "\x7d"

mutual
def dumps : Json → Bytes
  | .null => Go.str "null"
  | .bool b => if b then Go.str "true" else Go.str "false"
  | .int n => decInt n
  | .str s => quote s
  | .arr vs => Go.str "[" ++ join (dumpsAll vs) (Go.str ", ") ++ Go.str "]"
  | .obj ms => dumpMembers (dumpsMembers ms)

def dumpsAll : List Json → List Bytes
  | [] => []
  | v :: vs => dumps v :: dumpsAll vs

def dumpsMembers : List (Bytes × Json) → List (Bytes × Bytes)
  | [] => []
  | (k, v) :: ms => (k, dumps v) :: dumpsMembers ms
end

/-- a `dict` -/
def Json.ofMap {V : Type} (f : V → Json) (m : Finmap fun _ : Bytes => V) : Json :=
  .obj ((m.keys.sort (· ≤ ·)).filterMap fun k => (m.lookup k).map fun v => (k, f v))

def Json.ofOption : Option Bytes → Json
  | some s => .str s
  | none => .null

example : dumps (.obj [(Go.str "b", .arr [.int 1, .null]), (Go.str "a", .str [0xc3, 0xa9, 0x0a])])
    = Go.str "\x7b\"a\": \"\\u00e9\\n\", \"b\": [1, null]\x7d" := by decide +kernel

end Py
