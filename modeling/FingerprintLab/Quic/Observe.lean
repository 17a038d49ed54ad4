import FingerprintLab.Quic.Files
import Mathlib.Data.Finset.Sort

/-!
# Observations of the QUIC lab

What the Python tools read from a directory under `profiles/`.

* `norm_tp`              the tokens of a list of transport parameters;
* `Marker`, `markers_from_tp`   the four ids that tell the stacks apart;
* `infer_scid_len`       the length of the source connection id, or a guess when it is missing;
* `load_observation`     `none` when there is no `profile.json`.
-/

set_option linter.unusedVariables false

namespace Quic
open Go Py

/-! ## tokens -/

/-- one element that is not `null` -/
def normString (u : Unicode) (x : Bytes) : Bytes :=
  let s := strip x
  if u.upper s = str "GREASE" ∨ s ∈ [str "27", str "0x1b"] then str "GREASE"
  else if (str "0x").isPrefixOf (u.lower s) then str "0x" ++ u.lower (dropChars 2 s)
  else
    match parseInt u s with
    | some n => hex n
    | none => u.lower s

def normElem (u : Unicode) : TPElem → Option Bytes
  | .null => none
  | .int n => some (if n = 27 then str "GREASE" else hex n)
  | .str s => some (normString u s)

def norm_tp (u : Unicode) (ids : List TPElem) : List Bytes := ids.filterMap (normElem u)

def tp_set (u : Unicode) (ids : List TPElem) : Finset Bytes := (norm_tp u ids).toFinset

/-! ## markers -/

/-- `MARKER_IDS` -/
inductive Marker where
  | x11
  | x3128
  | x20
  | x2ab2
  deriving DecidableEq, Repr

def Marker.all : List Marker := [.x11, .x3128, .x20, .x2ab2]

def Marker.id : Marker → Bytes
  | .x11 => str "0x11"
  | .x3128 => str "0x3128"
  | .x20 => str "0x20"
  | .x2ab2 => str "0x2ab2"

theorem Marker.mem_all (m : Marker) : m ∈ Marker.all := by
  cases m <;> decide

/-- the members `has_0x11` and so on -/
abbrev Markers := Marker → Bool

def markers_from_tp (s : Finset Bytes) : Markers := fun m => m.id ∈ s

/-! ## the observation -/

def infer_scid_len (hdr : HeaderDoc) (exp : Expected) (markers : Markers) : Option Int :=
  match exp.scidLen.get with
  | some scid => some scid
  | none =>
    if hdr.sourceConnIDLen.has then hdr.sourceConnIDLen.get
    else if !hdr.destConnIDLen.has then none
    else if markers .x3128 || (markers .x11 && !markers .x3128) then some 0
    else none

structure Observation where
  id : Bytes
  family : Option Bytes
  tp : List Bytes
  tpSet : Finset Bytes
  markers : Markers
  scidLen : Option Int
  dcidLen : Option Int
  datagramCount : Nat
  ja4 : Option Bytes
  emit : Option Emit

/-- the name matches `*.bin` -/
def isBin (name : Bytes) : Bool := (str ".bin").isSuffixOf name

def binFiles (files : Files) : Finset Bytes := files.keys.filter fun name => isBin name

/-- `a or b` of a string that may be `None` -/
def orElse (a : Option Bytes) (b : Bytes) : Bytes :=
  match a with
  | some s => if s = [] then b else s
  | none => b

def load_observation (u : Unicode) (name : Bytes) (d : ProfileDir) : Option Observation := do
  let prof ← d.profile
  let exp := prof.expected.get.getD {}
  let tp := norm_tp u (exp.tpIDSet.get.getD [])
  let s := tp.toFinset
  let markers := markers_from_tp s
  let hdr := d.header.getD {}
  return {
    id := orElse prof.id.get name
    family := prof.family.get
    tp := tp
    tpSet := s
    markers := markers
    scidLen := infer_scid_len hdr exp markers
    dcidLen := exp.dcidLen.getD hdr.destConnIDLen.get
    datagramCount := (binFiles d.initials).card
    ja4 := exp.ja4.get
    emit := prof.emit.get }

end Quic
