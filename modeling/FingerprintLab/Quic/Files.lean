import FingerprintLab.Base.Py
import FingerprintLab.Base.Writes

/-!
# The files of the QUIC lab

A directory under `profiles/` as `promoteProfile` fills it and `load_observation` reads it, and a
directory under `captures/`.  A JSON document is the record of the members that are used; a member
that a reader gets with `dict.get` is a `Member`.

* `TPElem`       an element of a `tp_id_set` list;
* `HeaderDoc`    `header.json`;
* `RawProfile`   `profile.json` with its `Expected` and `Emit` parts;
* `ProfileDir`, `CaptureDir`, `QuicLab`.
-/

set_option linter.unusedVariables false

namespace Quic
open Go Py

/-- the files of a directory by name -/
abbrev Files := Finmap fun _ : Bytes => Bytes

/-- a JSON value where a transport parameter is expected: `null`, an integer or a string -/
inductive TPElem where
  | null
  | int (n : Int)
  | str (s : Bytes)
  deriving DecidableEq, Repr

/-- `header.json`, the third-party encoding of a packet header; `rest` is the text of its other
members, which nothing reads -/
structure HeaderDoc where
  destConnIDLen : Member Int := .missing
  sourceConnIDLen : Member Int := .missing
  rest : Bytes := []
  deriving DecidableEq, Repr

structure Engine where
  chromeParrot : Member Bool := .missing
  enableDatagrams : Member Bool := .missing
  zeroLengthSCID : Member Bool := .missing
  deriving DecidableEq, Repr

/-- the `emit` object of a profile and of a catalog entry -/
structure Emit where
  emitKind : Member Bytes := .missing
  uquicPreset : Member Bytes := .missing
  engine : Member Engine := .missing
  notes : Member Bytes := .missing
  deriving DecidableEq, Repr

/-- `expected` of `profile.json` -/
structure Expected where
  ja4 : Member Bytes := .missing
  clienthellodID : Member Bytes := .missing
  tpIDSet : Member (List TPElem) := .missing
  dcidLen : Member Int := .missing
  scidLen : Member Int := .missing
  header : Option HeaderDoc := none
  deriving DecidableEq, Repr

structure RawProfile where
  format : Bytes := []
  id : Member Bytes := .missing
  family : Member Bytes := .missing
  version : Int := 0
  track : Bytes := []
  expected : Member Expected := .missing
  emit : Member Emit := .missing
  notes : Bytes := []
  deriving DecidableEq, Repr

/-- `meta.json`; `gathered` and `fingerprint` are third-party encodings -/
structure Summary where
  peer : Bytes
  targetID : Bytes
  capturedAt : Bytes
  datagrams : Nat
  completed : Bool
  gathered : Bytes
  fingerprint : Option Bytes
  firstSHA256 : Option Bytes
  deriving DecidableEq, Repr

/-- `profiles/<id>`.  `locked` tells the paths in it that cannot be opened for writing, such as a
directory in the place of a file. -/
structure ProfileDir where
  initials : Files := ∅
  header : Option HeaderDoc := none
  tp : Option Bytes := none
  clienthello : Option Bytes := none
  metaDoc : Option Summary := none
  profile : Option RawProfile := none
  locked : Bytes → Bool := fun _ => false

/-- `captures/<time>-<id>` -/
structure CaptureDir where
  initials : Files := ∅
  metaDoc : Option Summary := none
  locked : Bytes → Bool := fun _ => false

structure QuicLab where
  captures : Bytes → CaptureDir := fun _ => {}
  profiles : Bytes → ProfileDir := fun _ => {}

end Quic
