import FingerprintLab.Base.Str
import Mathlib.Logic.Function.Basic

/-!
# The files of a profile directory

A directory under `profiles/` holds up to five files; a JSON file is what its readers decode it
to.  An instant is a number of nanoseconds since 1970, so that two RFC 3339 texts of one instant
are one value.

* `idText`   the characters that both programs keep in an id, the others are dashes;
* `Doc`      a JSON document, or bytes that no reader decodes;
* `Dir`      one directory; a directory that does not exist is the one without files;
* `Tree`     all directories of one parent by name.  A name is one path element.
-/

set_option linter.unusedVariables false

namespace Lab
open Go

/-- a rune that may stand in an id -/
def idRune (r : Nat) : Bool :=
  0x61 ≤ r && r ≤ 0x7a || 0x30 ≤ r && r ≤ 0x39 || r == 0x2d || r == 0x5f

def idByte (r : Nat) : Byte := if idRune r then UInt8.ofNat r else 0x2d

/-- the loop that `sanitize` and `sanitizeID` share -/
def idText (s : Bytes) : Bytes := (runes (toLower s)).map idByte

/-- a JSON file: `json.Unmarshal` fails on `bad` -/
inductive Doc (α : Type) where
  | bad (raw : Bytes)
  | good (val : α)
  deriving DecidableEq, Repr

/-- the value when the file is there and decodes -/
def Doc.read? {α : Type} : Option (Doc α) → Option α
  | some (.good v) => some v
  | _ => none

@[simp] theorem Doc.read?_good {α : Type} (v : α) : Doc.read? (some (.good v)) = some v := rfl
@[simp] theorem Doc.read?_bad {α : Type} (raw : Bytes) :
    Doc.read? (some (.bad raw : Doc α)) = none := rfl
@[simp] theorem Doc.read?_none {α : Type} : Doc.read? (none : Option (Doc α)) = none := rfl

/-- `profile.json` -/
structure ProfileDoc where
  id : Bytes := []
  format : Bytes := []
  /-- `source.captured_at` -/
  capturedAt : Int := 0
  /-- `source.capture_dir` -/
  captureDir : Bytes := []
  /-- `expected.ja4` -/
  ja4 : Bytes := []
  /-- `expected.ja3_hash` -/
  ja3Hash : Bytes := []
  deriving DecidableEq, Repr

/-- `meta.json`; `capturedAt` is `none` when the text is no RFC 3339 time, and the software fields
are those that a client's own writer may add -/
structure MetaDoc where
  targetID : Bytes := []
  capturedAt : Option Int := none
  ja4 : Bytes := []
  clientHelloSHA256 : Bytes := []
  softwareMajor : Int := 0
  softwareVersion : Bytes := []
  resolvedVersion : Bytes := []
  deriving DecidableEq, Repr

/-- `profileSlot`, the content of `slot.json`; its `captured_at` is written and never read -/
structure Slot where
  ja4 : Bytes := []
  softwareVersion : Bytes := []
  softwareMajor : Int := 0
  track : Bytes := []
  deriving DecidableEq, Repr

/-- A `slot.json` is the record that `json.Unmarshal` leaves, also after an error, which its only
reader ignores. -/
structure Dir where
  hello : Option Bytes := none
  profile : Option (Doc ProfileDoc) := none
  metaDoc : Option (Doc MetaDoc) := none
  slot : Option Slot := none
  readme : Option Bytes := none
  deriving DecidableEq, Repr

abbrev Tree := Bytes → Dir

/-! ## single writes -/

/-- one `os.WriteFile` into a profile directory -/
inductive FileWrite where
  | hello (b : Bytes)
  | metaDoc (m : MetaDoc)
  | profile (p : ProfileDoc)
  | readme (b : Bytes)
  deriving DecidableEq, Repr

def Dir.write (d : Dir) : FileWrite → Dir
  | .hello b => { d with hello := some b }
  | .metaDoc m => { d with metaDoc := some (.good m) }
  | .profile p => { d with profile := some (.good p) }
  | .readme b => { d with readme := some b }

/-- a write into the directory of that name -/
structure Write where
  id : Bytes
  file : FileWrite
  deriving DecidableEq, Repr

def Tree.apply (t : Tree) (w : Write) : Tree := Function.update t w.id ((t w.id).write w.file)

theorem Tree.apply_self (t : Tree) (w : Write) : t.apply w w.id = (t w.id).write w.file :=
  Function.update_self ..

theorem Tree.apply_of_ne (t : Tree) (w : Write) (id : Bytes) (h : id ≠ w.id) :
    t.apply w id = t id :=
  Function.update_of_ne h ..

/-- no write, no change -/
theorem Tree.foldl_apply_of_ne {ws : List Write} {id : Bytes} (h : ∀ w ∈ ws, w.id ≠ id)
    (t : Tree) : ws.foldl Tree.apply t id = t id := by
  induction ws generalizing t with
  | nil => rfl
  | cons w ws ih =>
    have hw := h w List.mem_cons_self
    rw [List.foldl_cons, ih fun w' hw' => h w' (List.mem_cons_of_mem w hw'),
      Tree.apply_of_ne _ _ _ hw.symm]

section
variable {P : Bytes → Dir → Prop} {t : Tree}

/-- what holds of every directory still does when one is replaced, -/
theorem Tree.forall_update {id : Bytes} {d : Dir} (h : ∀ id, P id (t id)) (hd : P id d) :
    ∀ id', P id' (Function.update t id d id') :=
  (Function.forall_update_iff t P).mpr ⟨hd, fun id' _ => h id'⟩

/-- and after writes that keep it. -/
theorem Tree.forall_foldl_apply {ws : List Write} (h : ∀ id, P id (t id))
    (hw : ∀ w ∈ ws, ∀ d, P w.id d → P w.id (d.write w.file)) :
    ∀ id, P id (ws.foldl Tree.apply t id) := by
  induction ws generalizing t with
  | nil => exact h
  | cons w ws ih =>
    have hfirst : ∀ id, P id (t.apply w id) :=
      Tree.forall_update h (hw w List.mem_cons_self _ (h w.id))
    exact ih hfirst fun w' hw' => hw w' (List.mem_cons_of_mem w hw')

end

/-- `expected.ja4` of a directory, as `readProfileJA4` reads it; empty when there is none -/
def Dir.profileJA4 (d : Dir) : Bytes :=
  match Doc.read? d.profile with
  | some p => p.ja4
  | none => []

end Lab
