import FingerprintLab.Base.Lines
import FingerprintLab.Base.Numeral
import FingerprintLab.Capture.Routing
import FingerprintLab.Labctl.NormalForm
import FingerprintLab.Labctl.Register

/-!
# The hosts of the archives

`gen-compose.py` does not parse the two target files: it scans their text by lines, and gives the
capture service an alias for every active id, and one for its verification.  Only with these can a
client in the network reach the server under the name of the target.  `ensureArchiveTarget` writes the
text of a row itself.

* `composeIDs`, `aliases`   the scan, and the hosts;
* `ArchiveCall.entry`       the appended text;
* `registerText`            a call on the rows and on the file together;
* `composeIDs_entry`        an appended entry adds its id to the scan, and nothing else, however the
                            file before it ends;
* `archives_addressed`      after any run the hosts of every archive are aliases, and lead back to
                            its two directories.
-/

set_option linter.unusedVariables false

namespace Labctl
open Go Lab Runs
open Py (Text newlines splitlines scan scan_append_block scan_break scan_block block OneLine literal spaces)

/-- a text that only has ASCII characters -/
def text (s : String) : Text := (str s).map UInt8.toNat

/-! ## the scan -/

/-- `targets.yaml` and `targets.archive.yaml` as they are decoded; the second may not be there -/
structure LabFiles where
  targets : Text
  archive : Option Text

def composeText (f : LabFiles) : Text :=
  match f.archive with
  | some b => newlines false f.targets ++ 0x0a :: newlines false b
  | none => newlines false f.targets

/-- `\s+-\s+id:\s+(\S+)` -/
def idLine (line : Text) : Option Text := do
  let s ← spaces line
  let s ← literal (text "-") s
  let s ← spaces s
  let s ← literal (text "id:") s
  let s ← spaces s
  let id := s.takeWhile fun r => !Py.isSpace r
  if id = [] then none else some id

/-- `\w`; `alnum` is `str.isalnum` -/
def wordChar (alnum : Nat → Bool) (r : Nat) : Bool :=
  if r < 0x80 then
    0x30 ≤ r && r ≤ 0x39 || 0x41 ≤ r && r ≤ 0x5a || r == 0x5f || 0x61 ≤ r && r ≤ 0x7a
  else alnum r

/-- `\s+status:\s+active\b` -/
def statusActive (alnum : Nat → Bool) (line : Text) : Bool :=
  match (spaces line).bind (literal (text "status:")) |>.bind spaces |>.bind
      (literal (text "active")) with
  | some [] => true
  | some (r :: _) => !wordChar alnum r
  | none => false

/-- `ids` and `cur` -/
structure Scan where
  ids : List Text := []
  cur : Option Text := none
  deriving DecidableEq, Repr

def addID (ids : List Text) (id : Text) : List Text := if id ∈ ids then ids else ids ++ [id]

/-- one turn of the loop over the lines -/
def scanLine (alnum : Nat → Bool) (s : Scan) (line : Text) : Scan :=
  match idLine line with
  | some id => { s with cur := some id }
  | none =>
    match s.cur with
    | some cur => if statusActive alnum line then { ids := addID s.ids cur, cur := none } else s
    | none => s

def composeScan (alnum : Nat → Bool) (f : LabFiles) : Scan :=
  scan (scanLine alnum) {} (composeText f)

def composeIDs (alnum : Nat → Bool) (f : LabFiles) : List Text := (composeScan alnum f).ids

def aliases (ids : List Text) : List Text :=
  text "fp.lab.local" ::
    ids.flatMap fun i => [i ++ text ".fp.lab.local", text "verify-" ++ i ++ text ".fp.lab.local"]

/-! ## the text of a row -/

/-- the lines of `entry` after the first, that is empty -/
def ArchiveCall.entryLines (c : ArchiveCall) : List Bytes :=
  let major :=
    if c.old.softwareMajor = 0 then parseMajor c.old.softwareVersion else c.old.softwareMajor
  let major := if major = 0 then 1 else major
  [str "  - id: " ++ c.id,
    str "    group: browsers",
    str "    kind: wishlist",
    str "    status: active",
    str "    utls_ready: true",
    str "    family: " ++ c.latest.family,
    str "    version: " ++ decInt major,
    str "    track: pinned",
    str "    pin: \"" ++ decInt major ++ str "\"",
    str "    image_policy: cache",
    str "    notes: \"auto-archived from " ++ c.latest.id ++ str " when JA4 changed\""]

def ArchiveCall.entry (c : ArchiveCall) : Text :=
  runes (str "\n" ++ c.entryLines.flatMap fun l => l ++ str "\n")

def headerLines : List Bytes :=
  [str "# Auto-generated pinned archives from track=latest captures.",
    str "# labctl appends here on JA4 change.",
    [],
    str "version: 1",
    str "targets:"]

/-- the file that `ensureArchiveTarget` starts -/
def archiveHeader : Text := runes (headerLines.flatMap fun l => l ++ str "\n")

/-- the written file; `none` for one that is not there -/
def appendEntry (file : Option Text) (entry : Text) : Text :=
  let b := file.getD archiveHeader
  let b := if text "targets:" <:+: b then b else b ++ text "\ntargets:\n"
  b ++ entry

structure Registry where
  lab : LabRoot
  files : LabFiles

/-- a call, with what it does to the file -/
def registerText (s : Registry) (c : ArchiveCall) : Option Registry := do
  let lab ← register s.lab c
  let archive :=
    if (registry s.lab).any fun t => t.id = c.id then s.files.archive
    else some (appendEntry s.files.archive c.entry)
  some { lab := lab, files := { s.files with archive := archive } }

/-! ## printable text -/

def Printable (s : Bytes) : Prop := ∀ b ∈ s, 0x20 ≤ b.toNat ∧ b.toNat < 0x7f

instance decidablePrintable (s : Bytes) : Decidable (Printable s) :=
  List.decidableBAll (fun b : Byte => 0x20 ≤ b.toNat ∧ b.toNat < 0x7f) s

theorem Printable.append {s s' : Bytes} (h : Printable s) (h' : Printable s') :
    Printable (s ++ s') := by
  intro b hb
  exact (List.mem_append.mp hb).elim (h b) (h' b)

theorem Word.printable {s : Bytes} (h : Word s) : Printable s := by
  intro b hb
  have hr := idRune_cases (h b hb)
  omega

theorem ReadsBack.printable {t : Target} (h : ReadsBack t) : Printable t.id := by
  intro b hb
  obtain ⟨hlo, hhi, -⟩ := h.2.2 b hb
  exact ⟨UInt8.le_iff_toNat_le.mp hlo, UInt8.lt_iff_toNat_lt.mp hhi⟩

theorem word_decInt (n : Int) : Word (decInt n) := by
  have hdigit : ∀ r, r < 58 → 48 ≤ r → idRune r = true := by decide
  intro b hb
  obtain ⟨hlo, hhi⟩ | rfl := Py.decInt_chars n b hb
  · exact hdigit _ (by omega) hlo
  · decide

theorem Printable.oneLine {s : Bytes} (h : Printable s) : OneLine (s.map UInt8.toNat) := by
  have hrange : ∀ r, r < 0x7f → 0x20 ≤ r → Py.isBreak r = false := by decide
  intro r hr
  obtain ⟨b, hb, rfl⟩ := List.mem_map.mp hr
  exact hrange _ (h b hb).2 (h b hb).1

theorem oneLine_lines {ls : List Bytes} (h : ∀ l ∈ ls, Printable l) :
    ∀ l ∈ ls.map fun l => l.map UInt8.toNat, OneLine l := by
  intro l hl
  obtain ⟨k, hk, rfl⟩ := List.mem_map.mp hl
  exact (h k hk).oneLine

/-- the text of lines that are written one by one -/
theorem runes_lines {ls : List Bytes} (h : ∀ l ∈ ls, Printable l) :
    runes (ls.flatMap fun l => l ++ str "\n") = block (ls.map fun l => l.map UInt8.toNat) := by
  have hascii : ∀ b ∈ ls.flatMap fun l => l ++ str "\n", b.toNat < 0x80 := by
    intro b hb
    obtain ⟨l, hl, hb⟩ := List.mem_flatMap.mp hb
    obtain hb | hb := List.mem_append.mp hb
    · have hp := h l hl b hb
      omega
    · rw [List.mem_singleton.mp hb]
      decide
  rw [runes_ascii _ hascii]
  unfold block
  rw [List.map_flatMap, List.flatMap_map]
  congr 1
  funext l
  rw [List.map_append]
  rfl

theorem runes_word {s : Bytes} (h : Word s) : runes s = s.map UInt8.toNat := runes_ascii s h.ascii

/-! ## single lines -/

section
variable {alnum : Nat → Bool}

theorem scanner : Py.Scanner (scanLine alnum) := by
  rintro ⟨ids, _ | cur⟩ <;> rfl

/-- neither pattern matches the line -/
def Skipped (alnum : Nat → Bool) (line : Text) : Prop :=
  idLine line = none ∧ statusActive alnum line = false

theorem scanLine_skipped {line : Text} (h : Skipped alnum line) (s : Scan) :
    scanLine alnum s line = s := by
  unfold scanLine
  rw [h.1, h.2]
  obtain ⟨ids, _ | cur⟩ := s <;> rfl

theorem scan_skipped {ls : List Text} (h : ∀ l ∈ ls, Skipped alnum l) (s : Scan) :
    ls.foldl (scanLine alnum) s = s := by
  induction ls with
  | nil => rfl
  | cons l ls ih =>
    rw [List.foldl_cons, scanLine_skipped (h l List.mem_cons_self)]
    exact ih fun k hk => h k (List.mem_cons_of_mem l hk)

theorem spaces_four {c : Nat} (hc : Py.isSpace c = false) (rest : Text) :
    spaces (0x20 :: 0x20 :: 0x20 :: 0x20 :: c :: rest) = some (c :: rest) := by
  have hsp : Py.isSpace 0x20 = true := rfl
  simp [spaces, hsp, hc]

/-- a key of a row, other than `status` -/
theorem skipped_key {c : Nat} (hc : Py.isSpace c = false) (hd : c ≠ 0x2d) (hs : c ≠ 0x73)
    (rest : Text) : Skipped alnum (0x20 :: 0x20 :: 0x20 :: 0x20 :: c :: rest) := by
  have hdash : literal (text "-") (c :: rest) = none := by
    have hp : (text "-").isPrefixOf (c :: rest) = (0x2d == c && true) := rfl
    unfold literal
    rw [hp, if_neg (by simpa using Ne.symm hd)]
  have hstatus : literal (text "status:") (c :: rest) = none := by
    have hp : (text "status:").isPrefixOf (c :: rest) = (0x73 == c && _) := rfl
    unfold literal
    rw [hp, if_neg (by simp [Ne.symm hs])]
  constructor
  · unfold idLine
    rw [spaces_four hc rest]
    show (literal (text "-") (c :: rest)).bind _ = none
    rw [hdash]
    rfl
  · unfold statusActive
    rw [spaces_four hc rest]
    show (match ((literal (text "status:") (c :: rest)).bind spaces).bind _ with
      | some [] => true
      | some (r :: _) => !wordChar alnum r
      | none => false) = false
    rw [hstatus]
    rfl

/-- the first line of a row -/
theorem idLine_word {id : Bytes} (h : Word id) (hne : id ≠ []) :
    idLine ((str "  - id: " ++ id).map UInt8.toNat) = some (runes id) := by
  have hplain : ∀ r ∈ runes id, Py.isSpace r = false := by
    have hrange : ∀ r, r < 0x80 → idRune r = true → Py.isSpace r = false := by decide
    intro r hr
    rw [runes_word h] at hr
    obtain ⟨b, hb, rfl⟩ := List.mem_map.mp hr
    exact hrange _ (h.ascii b hb) (h b hb)
  have hid : runes id ≠ [] := by
    rw [runes_word h]
    simpa using hne
  rw [List.map_append, ← runes_word h]
  have hdrop : (runes id).dropWhile Py.isSpace = runes id := by
    cases hr : runes id with
    | nil => rfl
    | cons r rs =>
      rw [List.dropWhile_cons_of_neg]
      rw [hplain r (by rw [hr]; exact List.mem_cons_self)]
      simp
  have htake : (runes id).takeWhile (fun r => !Py.isSpace r) = runes id := by
    rw [List.takeWhile_eq_self_iff]
    intro r hr
    rw [hplain r hr]
    rfl
  show (let s := (runes id).dropWhile Py.isSpace
    let id' := s.takeWhile fun r => !Py.isSpace r
    if id' = [] then none else some id') = _
  dsimp only
  rw [hdrop, htake, if_neg hid]

/-! ## an entry -/

theorem ArchiveCall.id_word (c : ArchiveCall) : Word c.id ∧ c.id ≠ [] :=
  archiveDst_word c.profiles c.latest c.old

/-- the scan of an entry, whatever id is pending -/
theorem scan_entry (c : ArchiveCall) (s : Scan) :
    (c.entryLines.map fun l => l.map UInt8.toNat).foldl (scanLine alnum) s =
      { ids := addID s.ids (runes c.id), cur := none } := by
  obtain ⟨hword, hne⟩ := c.id_word
  have hid : scanLine alnum s ((str "  - id: " ++ c.id).map UInt8.toNat) =
      { s with cur := some (runes c.id) } := by
    unfold scanLine
    rw [idLine_word hword hne]
  have hgroup : Skipped alnum ((str "    group: browsers").map UInt8.toNat) := ⟨rfl, rfl⟩
  have hkind : Skipped alnum ((str "    kind: wishlist").map UInt8.toNat) := ⟨rfl, rfl⟩
  have hactive : ∀ ids cur, scanLine alnum { ids := ids, cur := some cur }
      ((str "    status: active").map UInt8.toNat) = { ids := addID ids cur, cur := none } :=
    fun ids cur => rfl
  have hkey : ∀ (r : Nat) (rest : Text), r ∈ [0x75, 0x66, 0x76, 0x74, 0x70, 0x69, 0x6e] →
      Skipped alnum (0x20 :: 0x20 :: 0x20 :: 0x20 :: r :: rest) := by
    intro r rest hr
    have hchars : ∀ r ∈ [0x75, 0x66, 0x76, 0x74, 0x70, 0x69, 0x6e],
        Py.isSpace r = false ∧ r ≠ 0x2d ∧ r ≠ 0x73 := by decide
    obtain ⟨h1, h2, h3⟩ := hchars r hr
    exact skipped_key h1 h2 h3 rest
  unfold ArchiveCall.entryLines
  simp only [List.map_cons, List.map_nil]
  rw [List.foldl_cons, hid, List.foldl_cons, scanLine_skipped hgroup, List.foldl_cons,
    scanLine_skipped hkind, List.foldl_cons, hactive]
  -- the keys after the status
  refine scan_skipped ?_ _
  simp only [List.forall_mem_cons]
  exact ⟨hkey 0x75 _ (by decide), hkey 0x66 _ (by decide), hkey 0x76 _ (by decide),
    hkey 0x74 _ (by decide), hkey 0x70 _ (by decide), hkey 0x69 _ (by decide),
    hkey 0x6e _ (by decide), fun l hl => absurd hl List.not_mem_nil⟩

section
variable {c : ArchiveCall} (hw : Word c.latest.family) (hr : ReadsBack c.latest)
include hw hr

theorem entryLines_printable : ∀ l ∈ c.entryLines, Printable l := by
  have hid : Printable c.id := c.id_word.1.printable
  have hplain : ∀ l ∈ [str "    group: browsers", str "    kind: wishlist", str "    status: active",
      str "    utls_ready: true", str "    track: pinned", str "    image_policy: cache",
      str "  - id: ", str "    family: ", str "    version: ", str "    pin: \"", str "\"",
      str "    notes: \"auto-archived from ", str " when JA4 changed\""], Printable l := by
    decide +kernel
  simp only [List.forall_mem_cons] at hplain
  obtain ⟨h1, h2, h3, h4, h5, h6, k1, k2, k3, k4, k5, k6, k7, -⟩ := hplain
  unfold ArchiveCall.entryLines
  simp only [List.forall_mem_cons]
  exact ⟨k1.append hid, h1, h2, h3, h4, k2.append hw.printable, k3.append (word_decInt _).printable,
    h5, (k4.append (word_decInt _).printable).append k5, h6, (k6.append hr.printable).append k7,
    fun l hl => absurd hl List.not_mem_nil⟩

theorem entry_block :
    c.entry = 0x0a :: block (c.entryLines.map fun l => l.map UInt8.toNat) := by
  have hlf : ∀ l ∈ [] :: c.entryLines, Printable l := by
    intro l hl
    obtain rfl | hl := List.mem_cons.mp hl
    · exact fun b hb => absurd hb List.not_mem_nil
    · exact entryLines_printable hw hr l hl
  exact runes_lines hlf

/-- the entry is scanned after the whole file, a file that is started or one without `targets:`
included -/
theorem scan_appendEntry (file : Option Text) (st : Scan) :
    scan (scanLine alnum) st (newlines false (appendEntry file c.entry)) =
      let s := match file with
        | some b => scan (scanLine alnum) st (newlines false b)
        | none => st
      { ids := addID s.ids (runes c.id), cur := none } := by
  have hE := oneLine_lines (entryLines_printable hw hr)
  cases file with
  | none =>
    have hhas : text "targets:" <:+: archiveHeader := by decide +kernel
    have hprintable : ∀ l ∈ headerLines, Printable l := by decide +kernel
    have hheader : archiveHeader = block (headerLines.map fun l => l.map UInt8.toNat) :=
      runes_lines hprintable
    have hskip : ∀ l ∈ headerLines.map fun l => l.map UInt8.toNat, Skipped alnum l := by
      unfold headerLines
      simp only [List.map_cons, List.map_nil, List.forall_mem_cons]
      exact ⟨⟨rfl, rfl⟩, ⟨rfl, rfl⟩, ⟨rfl, rfl⟩, ⟨rfl, rfl⟩, ⟨rfl, rfl⟩,
        fun l hl => absurd hl List.not_mem_nil⟩
    have hone := oneLine_lines hprintable
    have hfile : appendEntry none c.entry = archiveHeader ++ c.entry := by
      unfold appendEntry
      dsimp only [Option.getD_none]
      rw [if_pos hhas]
    rw [hfile, entry_block hw hr, scan_append_block scanner st archiveHeader hE, hheader,
      Py.newlines_plain (Py.block_cr hone), scan_block _ st hone, scan_skipped hskip, scan_entry]
  | some b =>
    by_cases hhas : text "targets:" <:+: b
    · have hfile : appendEntry (some b) c.entry = b ++ c.entry := by
        unfold appendEntry
        dsimp only [Option.getD_some]
        rw [if_pos hhas]
      rw [hfile, entry_block hw hr, scan_append_block scanner st b hE, scan_entry]
    · have hfile : appendEntry (some b) c.entry = b ++ 0x0a :: block
          (text "targets:" :: [] :: c.entryLines.map fun l => l.map UInt8.toNat) := by
        unfold appendEntry
        dsimp only [Option.getD_some]
        rw [if_neg hhas, entry_block hw hr, List.append_assoc]
        rfl
      have hone : ∀ l ∈ text "targets:" :: [] :: c.entryLines.map fun l => l.map UInt8.toNat,
          OneLine l := by
        have hp : OneLine (text "targets:") := by
          unfold OneLine
          decide
        simp only [List.forall_mem_cons]
        exact ⟨hp, fun r hr => absurd hr List.not_mem_nil, hE⟩
      have htargets : Skipped alnum (text "targets:") := ⟨rfl, rfl⟩
      rw [hfile, scan_append_block scanner st b hone, List.foldl_cons, scanLine_skipped htargets,
        List.foldl_cons, scanner, scan_entry]

/-- an appended entry adds its id -/
theorem composeIDs_entry (f : LabFiles) :
    composeIDs alnum { f with archive := some (appendEntry f.archive c.entry) } =
      addID (composeIDs alnum f) (runes c.id) := by
  have hcr := Py.newlines_cr false f.targets
  unfold composeIDs composeScan composeText
  dsimp only
  rw [scan_break scanner {} hcr, scan_appendEntry hw hr]
  cases f.archive with
  | none => rfl
  | some b =>
    dsimp only
    rw [scan_break scanner {} hcr]

end

/-! ## one call -/

theorem mem_addID {ids : List Text} {i id : Text} : i ∈ addID ids id ↔ i ∈ ids ∨ i = id := by
  unfold addID
  split
  · rename_i h
    exact ⟨.inl, fun hi => hi.elim (fun hi => hi) fun he => he ▸ h⟩
  · simp

variable (alnum) in
/-- what a call does to the rows and to the hosts -/
theorem registerText_spec {s s' : Registry} {c : ArchiveCall} (h : registerText s c = some s')
    (hw : Word c.latest.family) (hr : ReadsBack c.latest) :
    register s.lab c = some s'.lab ∧ s'.lab.targets = s.lab.targets ∧
    (rowsOf s.lab c.id ≠ [] ∧ s'.lab.archive = s.lab.archive ∧
        composeIDs alnum s'.files = composeIDs alnum s.files ∨
      rowsOf s.lab c.id = [] ∧ s'.lab.archive = s.lab.archive ++ [c.row] ∧
        composeIDs alnum s'.files = addID (composeIDs alnum s.files) (runes c.id)) := by
  unfold registerText at h
  obtain ⟨lab, hlab, hs⟩ := Option.bind_eq_some_iff.mp h
  have hany : ((registry s.lab).any fun t => t.id = c.id) = true ↔ rowsOf s.lab c.id ≠ [] := by
    unfold rowsOf
    rw [Ne, List.filter_eq_nil_iff, List.any_eq_true]
    push Not
    rfl
  rw [← Option.some.inj hs]
  obtain ⟨ht, ⟨hne, ha⟩ | ⟨hnil, ha⟩⟩ := register_registry hlab
  · refine ⟨hlab, ht, .inl ⟨hne, ha, ?_⟩⟩
    dsimp only
    rw [if_pos (hany.mpr hne)]
  · refine ⟨hlab, ht, .inr ⟨hnil, ha, ?_⟩⟩
    dsimp only
    rw [if_neg fun hp => hany.mp hp hnil]
    exact composeIDs_entry hw hr s.files

/-! ## runs -/

theorem normalizeTarget_id (t : Target) : (normalizeTarget t).id = t.id := by
  unfold normalizeTarget
  dsimp only
  split_ifs <;> rfl

/-- the family and the id of the target can be written as plain YAML -/
def Writable (c : ArchiveCall) : Prop := Word c.latest.family ∧ ReadsBack c.latest

theorem foldl_addID {ids : List Text} {i : Text} (ls : List Text) (h : i ∈ ids ∨ i ∈ ls) :
    i ∈ ls.foldl addID ids := by
  induction ls generalizing ids with
  | nil => exact h.resolve_right List.not_mem_nil
  | cons l ls ih =>
    refine ih ?_
    obtain hi | hi := h
    · exact .inl (mem_addID.mpr (.inl hi))
    · exact (List.mem_cons.mp hi).imp (fun he => mem_addID.mpr (.inr he)) fun hi => hi

section
variable {s s' : Registry} {cs : List ArchiveCall} (h : exec registerText s cs = some s')
  (hw : ∀ c ∈ cs, Writable c)
include h hw

variable (alnum) in
/-- the rows that a run appends, and their hosts -/
theorem run_composed : exec register s.lab cs = some s'.lab ∧ s'.lab.targets = s.lab.targets ∧
    ∃ rows, s'.lab.archive = s.lab.archive ++ rows ∧
      composeIDs alnum s'.files =
        (rows.map fun r => runes r.id).foldl addID (composeIDs alnum s.files) := by
  induction cs generalizing s with
  | nil =>
    rw [Option.some.inj h]
    exact ⟨rfl, rfl, [], (List.append_nil _).symm, rfl⟩
  | cons c cs ih =>
    obtain ⟨s₁, h₁, hrest⟩ := (exec_cons_eq_some registerText).mp h
    obtain ⟨hwc, hrc⟩ := hw c List.mem_cons_self
    obtain ⟨hlab, ht₁, hstep⟩ := registerText_spec alnum h₁ hwc hrc
    obtain ⟨hrun, ht, rows, hrows, hids⟩ := ih hrest fun d hd => hw d (List.mem_cons_of_mem c hd)
    refine ⟨by rw [exec_cons register hlab, hrun], ht.trans ht₁, ?_⟩
    obtain ⟨-, ha, hi⟩ | ⟨-, ha, hi⟩ := hstep
    · exact ⟨rows, by rw [hrows, ha], by rw [hids, hi]⟩
    · refine ⟨c.row :: rows, ?_, ?_⟩
      · rw [hrows, ha, List.append_assoc, List.singleton_append]
      · rw [hids, hi, List.map_cons, List.foldl_cons, row_id]

/-- an archive that had no row has its hosts in the end -/
theorem run_listed : ∀ c ∈ cs, rowsOf s.lab c.id = [] → runes c.id ∈ composeIDs alnum s'.files := by
  induction cs generalizing s with
  | nil => exact fun c hc => absurd hc List.not_mem_nil
  | cons c cs ih =>
    obtain ⟨s₁, h₁, hrest⟩ := (exec_cons_eq_some registerText).mp h
    have hws : ∀ d ∈ cs, Writable d := fun d hd => hw d (List.mem_cons_of_mem c hd)
    obtain ⟨hwc, hrc⟩ := hw c List.mem_cons_self
    obtain ⟨-, ht, hstep⟩ := registerText_spec alnum h₁ hwc hrc
    obtain ⟨-, -, rows, -, hids⟩ := run_composed alnum hrest hws
    have hself : rowsOf s.lab c.id = [] → runes c.id ∈ composeIDs alnum s'.files := by
      intro hnil
      obtain ⟨hne, -⟩ | ⟨-, -, hi⟩ := hstep
      · exact absurd hnil hne
      · rw [hids, hi]
        exact foldl_addID _ (.inl (mem_addID.mpr (.inr rfl)))
    intro d hd hnil
    obtain rfl | hd := List.mem_cons.mp hd
    · exact hself hnil
    by_cases hid : d.id = c.id
    · rw [hid] at hnil ⊢
      exact hself hnil
    · refine ih hrest hws d hd ?_
      obtain ⟨-, ha, -⟩ | ⟨-, ha, -⟩ := hstep
      · rw [rowsOf_kept ht ha]
        exact hnil
      · have hrow : ¬ c.row.id = d.id := by
          rw [row_id]
          exact fun he => hid he.symm
        rw [rowsOf_append ht ha, hnil, List.filter_cons_of_neg (by simpa using hrow)]
        rfl

end

/-- the hosts of an id are aliases of the capture service, which promotes a hello for them to the
directory of the id, and to that of its verification -/
structure Addressed (alnum : Nat → Bool) (f : LabFiles) (id : Bytes) : Prop where
  host : runes (id ++ Capture.sniSuffix) ∈ aliases (composeIDs alnum f)
  verifyHost : runes (Capture.verifySNI id) ∈ aliases (composeIDs alnum f)
  routed : ∀ fallback, Capture.targetFromSNI (id ++ Capture.sniSuffix) fallback = id
  verifyRouted : ∀ fallback,
    Capture.targetFromSNI (Capture.verifySNI id) fallback = str "verify-" ++ id

theorem addressed {f : LabFiles} {id : Bytes} (hword : Word id) (hne : id ≠ [])
    (h : runes id ∈ composeIDs alnum f) : Addressed alnum f id := by
  have hsuffix : ∀ b ∈ Capture.sniSuffix, b.toNat < 0x80 := by decide +kernel
  have hverify : Word (str "verify-" ++ id) := Capture.verify_word hword
  have hhost : ∀ {w : Bytes}, Word w →
      runes (w ++ Capture.sniSuffix) = runes w ++ text ".fp.lab.local" := by
    intro w hw
    rw [runes_ascii _ fun b hb => (List.mem_append.mp hb).elim (hw.ascii b) (hsuffix b),
      runes_word hw, List.map_append]
    rfl
  have hmem : ∀ {x : Text}, x ∈ [runes id ++ text ".fp.lab.local",
      text "verify-" ++ runes id ++ text ".fp.lab.local"] → x ∈ aliases (composeIDs alnum f) :=
    fun hx => List.mem_cons_of_mem _ (List.mem_flatMap.mpr ⟨_, h, hx⟩)
  refine ⟨?_, ?_, Capture.targetFromSNI_word hword hne,
    Capture.targetFromSNI_word hverify (List.append_ne_nil_of_left_ne_nil (by decide) id)⟩
  · rw [hhost hword]
    exact hmem List.mem_cons_self
  · have hruns : runes (str "verify-" ++ id) = text "verify-" ++ runes id := by
      rw [runes_word hverify, runes_word hword, List.map_append]
      rfl
    show runes (str "verify-" ++ id ++ Capture.sniSuffix) ∈ _
    rw [hhost hverify, hruns]
    exact hmem (List.mem_cons_of_mem _ List.mem_cons_self)

/-- the scan finds every active target -/
def Listed (alnum : Nat → Bool) (s : Registry) : Prop :=
  ∀ t ∈ registry s.lab, t.status = str "active" → runes t.id ∈ composeIDs alnum s.files

/-- **Every archive is addressed** after any run: what the scan finds is what it found before and the
ids of the appended rows, in their order; the hosts of an archive that had no row are aliases and lead
to its two directories; and where the scan found every active target, it still does. -/
theorem archives_addressed {s s' : Registry} {cs : List ArchiveCall}
    (h : exec registerText s cs = some s') (hw : ∀ c ∈ cs, Writable c) :
    exec register s.lab cs = some s'.lab ∧
    (∃ rows, s'.lab.archive = s.lab.archive ++ rows ∧
      composeIDs alnum s'.files =
        (rows.map fun r => runes r.id).foldl addID (composeIDs alnum s.files)) ∧
    (∀ c ∈ cs, rowsOf s.lab c.id = [] → Addressed alnum s'.files c.id) ∧
    (Listed alnum s → Listed alnum s') := by
  obtain ⟨hrun, ht, rows, hrows, hids⟩ := run_composed alnum h hw
  refine ⟨hrun, ⟨rows, hrows, hids⟩, fun c hc hnil => ?_, fun hlisted t hmem hact => ?_⟩
  · exact addressed c.id_word.1 c.id_word.2 (run_listed h hw c hc hnil)
  · rw [hids]
    refine foldl_addID _ ?_
    unfold registry loadLab at hmem
    rw [ht, hrows, ← List.append_assoc, List.map_append] at hmem
    obtain hmem | hmem := List.mem_append.mp hmem
    · exact .inl (hlisted t hmem hact)
    · -- the loaded rows have the ids that were written
      obtain ⟨r, hr, rfl⟩ := List.mem_map.mp hmem
      exact .inr (List.mem_map.mpr ⟨r, hr, by rw [normalizeTarget_id]⟩)

end

/-- a registry of one latest target, and no archive yet -/
def chromeRegistry : Registry where
  lab := chromeLab
  files :=
    { targets := text "version: 1\ntargets:\n  - id: chrome-linux\n    status: active\r\n"
      archive := none }

theorem chrome120Call_writable : ∀ c ∈ [chrome120Call], Writable c := by
  unfold Writable ReadsBack
  decide +kernel

/-- Chrome 120 is archived, and has its hosts. -/
theorem archives_addressed_chrome : ∃ s, exec registerText chromeRegistry [chrome120Call] = some s ∧
    Addressed (fun _ => false) s.files chrome120Call.id := by
  obtain ⟨s, hs⟩ : ∃ s, exec registerText chromeRegistry [chrome120Call] = some s := ⟨_, rfl⟩
  have hfree : rowsOf chromeRegistry.lab chrome120Call.id = [] := by decide +kernel
  exact ⟨s, hs, (archives_addressed hs chrome120Call_writable).2.2.1 _ List.mem_cons_self hfree⟩

end Labctl
