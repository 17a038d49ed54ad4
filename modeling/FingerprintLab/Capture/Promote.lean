import FingerprintLab.Base.Interleave
import FingerprintLab.Capture.Hello
import FingerprintLab.Capture.Analyze
import FingerprintLab.Lab.Files

/-!
# Promotion of captured hellos to importable profiles

`handle` runs once for every connection, each time in a goroutine of its own.  It renders the
`Meta` of the hello and then writes the files of `profiles/<id>` one after the other, without a
lock; the id is the target that the SNI names.

* `Promotion`                what a handler holds when it starts to write, and its `writes`;
* `handle`                   a connection's promotion; `none` when nothing under `profiles/` is
                             written;
* `Server`                   the tree and the handlers' pending writes, run by a schedule;
* `Recorded`                 the directory describes one hello; `recorded_next` keeps it as long as
                             no handler starts while one with another hello is `Mid` write;
* `promoted_consistent`      every promoted directory is consistent after a run without overlaps;
* `promotion_race`           two connections of one client that overlap leave a mixed directory.
-/

set_option linter.unusedVariables false

namespace Capture
open Go Lab Interleave

/-! ## from the SNI to a directory name -/

def targetFromSNI (sni fallback : Bytes) : Bytes :=
  let sni := toLower (trimSpace sni)
  let suffix := str ".fp.lab.local"
  if sni = [] then fallback
  else if suffix.isSuffixOf sni then
    let id := sni.take (sni.length - suffix.length)
    if id ≠ [] ∧ 0x2e ∉ id then id else fallback
  else fallback

def sanitize (s : Bytes) : Bytes :=
  let out := idText s
  if out = [] then str "unknown" else out

/-! ## the handler -/

/-- the files of one call of `writeImportableProfile` -/
structure Promotion where
  id : Bytes
  hello : Bytes
  metaDoc : MetaDoc
  profile : ProfileDoc
  readme : Bytes
  deriving DecidableEq, Repr

/-- the writes in the order of the source -/
def Promotion.writes (p : Promotion) : List Write :=
  [⟨p.id, .hello p.hello⟩, ⟨p.id, .metaDoc p.metaDoc⟩, ⟨p.id, .profile p.profile⟩,
    ⟨p.id, .readme p.readme⟩]

/-- what a reader decodes from the encoded `Meta` -/
def Meta.doc (m : Meta) : MetaDoc where
  targetID := m.targetID
  capturedAt := some m.capturedAt
  ja4 := m.ja4
  clientHelloSHA256 := m.clientHelloSHA256

def readmeText (id ja4 : Bytes) : Bytes :=
  str "# uTLS profile: " ++ id ++ str "\n\nFormat: `utls-raw-clienthello-v1`\n\n"
    ++ str "Import: `utls.Fingerprinter.RawClientHello(clienthello.bin)` then `ApplyPreset`.\n\n"
    ++ str "Expected JA4: `" ++ ja4 ++ str "`\n\n"
    ++ str "Verify: `docker compose --profile verify run --rm verify-profile` with `PROFILE_ID="
    ++ id ++ str "`\n"

def writeImportableProfile (targetID captureDir hello : Bytes) (m : Meta) : Option Promotion :=
  let id := sanitize targetID
  if id = [] ∨ id = str "unknown" then none
  else some
    { id
      hello
      metaDoc := m.doc
      profile :=
        { id
          format := str "utls-raw-clienthello-v1"
          capturedAt := m.capturedAt
          captureDir
          ja4 := m.ja4
          ja3Hash := m.ja3Hash }
      readme := readmeText id m.ja4 }

/-- the server's flags; `-out` is a clean path -/
structure Flags where
  outDir : Bytes
  targetHint : Bytes

/-- A connection whose hello was read: the record, the peer's address, the time and the number that
the handler draws, and the fingerprinter's error text, if it fails. -/
structure Conn where
  rawHello : Bytes
  peer : Bytes := []
  now : Int := 0
  seq : Nat := 1
  fingerprinter : Option Bytes := none

/-- the `Meta` before the time, the target and the digest are filled in; a panic ends the server -/
def startMeta (record : Bytes) : Option Meta :=
  match analyze record with
  | .ok m => some m
  | .error (.error msg) => some { notes := str "analyze error: " ++ str msg }
  | .error _ => none

def handle (fl : Flags) (c : Conn) : Option Promotion := do
  let m ← startMeta c.rawHello
  let targetID := targetFromSNI m.sni fl.targetHint
  let id := decimal c.seq ++ str "-" ++ sanitize targetID
  let dir := fl.outDir ++ str "/" ++ id
  let m : Meta := { m with
    peer := c.peer
    capturedAt := c.now
    targetID := targetID
    clientHelloPath := str "clienthello.bin"
    clientHelloSHA256 := hexEncode (sha256 c.rawHello) }
  let m : Meta := match c.fingerprinter with
    | some err =>
      { m with
        utlsFingerprinterOK := false
        notes := trimSpace (m.notes ++ str " fingerprinter: " ++ err) }
    | none => { m with utlsFingerprinterOK := true }
  writeImportableProfile m.targetID dir c.rawHello m

/-- the JA4 of a hello, empty when `analyze` rejects it -/
def recordedJA4 (record : Bytes) : Bytes :=
  match analyze record with
  | .ok m => m.ja4
  | .error _ => []

/-- the two documents describe the hello -/
def Promotion.Faithful (p : Promotion) : Prop :=
  p.metaDoc.clientHelloSHA256 = hexEncode (sha256 p.hello) ∧ p.profile.ja4 = recordedJA4 p.hello

theorem writeImportableProfile_some {targetID dir hello : Bytes} {m : Meta} {p : Promotion}
    (h : writeImportableProfile targetID dir hello m = some p) :
    p.id = sanitize targetID ∧ p.hello = hello ∧ p.metaDoc = m.doc ∧ p.profile.ja4 = m.ja4 := by
  unfold writeImportableProfile at h
  dsimp only at h
  split at h
  · cases h
  · rw [← Option.some.inj h]
    exact ⟨rfl, rfl, rfl, rfl⟩

theorem startMeta_ja4 {record : Bytes} {m : Meta} (h : startMeta record = some m) :
    m.ja4 = recordedJA4 record := by
  unfold startMeta at h
  unfold recordedJA4
  split at h
  · rename_i m' ha
    rw [ha, ← Option.some.inj h]
  · rename_i msg ha
    rw [ha, ← Option.some.inj h]
  · cases h

theorem handle_faithful {fl : Flags} {c : Conn} {p : Promotion} (h : handle fl c = some p) :
    p.hello = c.rawHello ∧ p.Faithful := by
  unfold handle at h
  obtain ⟨m, hm, h⟩ := Option.bind_eq_some_iff.mp h
  obtain ⟨-, hhello, hdoc, hja4⟩ := writeImportableProfile_some h
  refine ⟨hhello, ?_, ?_⟩
  · rw [hdoc, hhello]
    cases c.fingerprinter <;> rfl
  · rw [hja4, hhello, ← startMeta_ja4 hm]
    cases c.fingerprinter <;> rfl

/-! ## the server -/

/-- the handlers' pending writes on the profiles tree -/
abbrev Server := Config Tree Promotion Write

/-- the handlers of the connections, none of which has written yet -/
def Server.start (fl : Flags) (conns : List Conn) (t : Tree) : Server where
  store := t
  threads := (conns.filterMap (handle fl)).map fun p => ⟨p, p.writes⟩

/-- the server after a run -/
def serve (fl : Flags) (conns : List Conn) (t : Tree) (sched : List Nat) : Server :=
  run Tree.apply (Server.start fl conns t) sched

/-- `clienthello.bin` is written and `profile.json` is not -/
def Mid (th : Thread Promotion Write) : Prop :=
  th.todo = th.owner.writes.drop 1 ∨ th.todo = th.owner.writes.drop 2

/-- When handler `i` is about to write its `clienthello.bin`, every handler that is `Mid` write in
the same directory holds the same hello. -/
def NoOverlap (s : Server) (i : Nat) : Prop :=
  ∀ p, s.threads[i]? = some ⟨p, p.writes⟩ →
    ∀ th ∈ s.threads, th.owner.id = p.id → Mid th → th.owner.hello = p.hello

instance (th : Thread Promotion Write) : Decidable (Mid th) := inferInstanceAs (Decidable (_ ∨ _))

/-- the same in an order that is cheap to decide -/
theorem noOverlap_iff (s : Server) (i : Nat) : NoOverlap s i ↔
    ∀ m ∈ s.threads[i]?, m.todo.length = 4 → ∀ th ∈ s.threads, th.todo.length < 4 → Mid th →
      m.todo = m.owner.writes → th.owner.id = m.owner.id → th.owner.hello = m.owner.hello := by
  constructor
  · intro h m hm _ th hth _ hmid hw hid
    refine h m.owner ?_ th hth hid hmid
    rw [← hw]
    exact hm
  · intro h p hp th hth hid hmid
    refine h _ hp rfl th hth ?_ hmid rfl hid
    rcases hmid with ht | ht
    · rw [ht, List.length_drop]; show 4 - 1 < 4; omega
    · rw [ht, List.length_drop]; show 4 - 2 < 4; omega

instance (s : Server) (i : Nat) : Decidable (NoOverlap s i) :=
  decidable_of_iff' _ (noOverlap_iff s i)

def NoOverlaps (fl : Flags) (conns : List Conn) (t : Tree) (sched : List Nat) : Prop :=
  Turns Tree.apply NoOverlap (Server.start fl conns t) sched

/-- the digest of `meta.json` and the expected JA4 of `profile.json` are those of the hello -/
def SelfConsistent (d : Dir) : Prop :=
  ∃ hello m, d.hello = some hello ∧ analyze hello = .ok m ∧
    (∃ md, d.metaDoc = some (.good md) ∧ md.clientHelloSHA256 = hexEncode (sha256 hello)) ∧
    ∃ pd, d.profile = some (.good pd) ∧ pd.ja4 = m.ja4

/-! ## the invariant -/

def MetaOf (d : Dir) (hello : Bytes) : Prop :=
  ∃ md, d.metaDoc = some (.good md) ∧ md.clientHelloSHA256 = hexEncode (sha256 hello)

def ProfileOf (d : Dir) (hello : Bytes) : Prop :=
  ∃ pd, d.profile = some (.good pd) ∧ pd.ja4 = recordedJA4 hello

/-- Directory `id` holds the hello of one of its handlers, all handlers in mid-write hold it too,
and each document describes it or is still to be written by one of them. -/
def Recorded (s : Server) (id : Bytes) : Prop :=
  ∃ hello, (s.store id).hello = some hello ∧
    (∃ th ∈ s.threads, th.owner.id = id ∧ th.owner.hello = hello) ∧
    (∀ th ∈ s.threads, th.owner.id = id → Mid th → th.owner.hello = hello) ∧
    (MetaOf (s.store id) hello ∨
      ∃ th ∈ s.threads, th.owner.id = id ∧ th.todo = th.owner.writes.drop 1) ∧
    (ProfileOf (s.store id) hello ∨ ∃ th ∈ s.threads, th.owner.id = id ∧ Mid th)

/-- no handler of the directory has started -/
def Untouched (s : Server) (id : Bytes) : Prop :=
  ∀ th ∈ s.threads, th.owner.id = id → th.todo = th.owner.writes

/-- what is pending is the end of what the handler writes, and what it writes is faithful -/
def Orderly (s : Server) : Prop :=
  ∀ th ∈ s.threads, th.owner.Faithful ∧ ∃ n, th.todo = th.owner.writes.drop n

theorem Promotion.drop_length (p : Promotion) (n : Nat) : (p.writes.drop n).length = 4 - n := by
  rw [List.length_drop]
  rfl

/-- the next write of a handler, by what it still has to do -/
theorem Promotion.drop_cases (p : Promotion) {a : Write} {rest : List Write} {n : Nat}
    (h : a :: rest = p.writes.drop n) :
    (a = ⟨p.id, .hello p.hello⟩ ∧ rest = p.writes.drop 1) ∨
    (a = ⟨p.id, .metaDoc p.metaDoc⟩ ∧ rest = p.writes.drop 2) ∨
    (a = ⟨p.id, .profile p.profile⟩ ∧ rest = p.writes.drop 3) ∨
    (a = ⟨p.id, .readme p.readme⟩ ∧ rest = p.writes.drop 4) := by
  have hn : n < 4 := by
    have hl := congrArg List.length h
    rw [p.drop_length, List.length_cons] at hl
    omega
  obtain rfl | rfl | rfl | rfl : n = 0 ∨ n = 1 ∨ n = 2 ∨ n = 3 := by omega
  · exact Or.inl (List.cons.inj h)
  · exact Or.inr (Or.inl (List.cons.inj h))
  · exact Or.inr (Or.inr (Or.inl (List.cons.inj h)))
  · exact Or.inr (Or.inr (Or.inr (List.cons.inj h)))

section
variable {s : Server} {i : Nat} {p : Promotion} {a : Write} {rest : List Write}
  (hi : s.threads[i]? = some ⟨p, a :: rest⟩)
include hi

/-- the server after handler `i` has made the write `a` -/
private abbrev moved (s : Server) (i : Nat) (p : Promotion) (a : Write) (rest : List Write) :
    Server := ⟨s.store.apply a, s.threads.set i ⟨p, rest⟩⟩

private theorem mover_mem : (⟨p, a :: rest⟩ : Thread Promotion Write) ∈ s.threads :=
  List.mem_of_getElem? hi

/-- a handler of another stage is not the one that moves -/
private theorem other_mem {th : Thread Promotion Write} (hth : th ∈ s.threads)
    (hl : th.todo.length ≠ rest.length + 1) : th ∈ (moved s i p a rest).threads := by
  refine mem_set_of_ne _ _ _ _ _ hi hth ?_
  rintro rfl
  exact hl (List.length_cons ..)

private theorem mover_stays : ⟨p, rest⟩ ∈ (moved s i p a rest).threads :=
  mem_set_self _ _ _ _ hi

/-- a write into another directory -/
private theorem frame {id : Bytes} (ha : a.id = p.id) (hne : p.id ≠ id)
    (h : Untouched s id ∨ Recorded s id) :
    Untouched (moved s i p a rest) id ∨ Recorded (moved s i p a rest) id := by
  have hstore : (moved s i p a rest).store id = s.store id :=
    Tree.apply_of_ne _ _ _ (by rw [ha]; exact hne.symm)
  have back : ∀ th ∈ (moved s i p a rest).threads, th.owner.id = id → th ∈ s.threads := by
    intro th hth hid
    rcases mem_set_cases _ _ _ _ hth with rfl | h
    · exact absurd hid hne
    · exact h
  have forth : ∀ th ∈ s.threads, th.owner.id = id → th ∈ (moved s i p a rest).threads := by
    intro th hth hid
    refine mem_set_of_ne _ _ _ _ _ hi hth ?_
    rintro rfl
    exact hne hid
  rcases h with h | ⟨hello, hh, ⟨w, hw, hwid, hwh⟩, hmid, hmeta, hprof⟩
  · exact Or.inl fun th hth hid => h th (back th hth hid) hid
  · refine Or.inr ⟨hello, by rw [hstore]; exact hh, ⟨w, forth w hw hwid, hwid, hwh⟩,
      fun th hth hid => hmid th (back th hth hid) hid, ?_, ?_⟩
    · rw [hstore]
      exact hmeta.imp_right fun ⟨th, hth, hid, ht⟩ => ⟨th, forth th hth hid, hid, ht⟩
    · rw [hstore]
      exact hprof.imp_right fun ⟨th, hth, hid, ht⟩ => ⟨th, forth th hth hid, hid, ht⟩

/-- the first write: from now on the directory holds the new hello -/
private theorem recorded_hello (ha : a = ⟨p.id, .hello p.hello⟩) (hr : rest = p.writes.drop 1)
    (hN : NoOverlap s i) : Recorded (moved s i p a rest) p.id := by
  subst ha
  subst hr
  have hstay := mover_stays hi
  have hstore := s.store.apply_self ⟨p.id, .hello p.hello⟩
  refine ⟨p.hello, ?_, ⟨_, hstay, rfl, rfl⟩, ?_, Or.inr ⟨_, hstay, rfl, rfl⟩,
    Or.inr ⟨_, hstay, rfl, Or.inl rfl⟩⟩
  · show (s.store.apply _ p.id).hello = _
    rw [hstore]
    rfl
  · intro th hth hid hm
    rcases mem_set_cases _ _ _ _ hth with rfl | h
    · rfl
    · exact hN p hi th h hid hm

/-- A later write changes neither the hello nor whose it is. -/
private theorem later {hello : Bytes} (hid : a.id = p.id)
    (hfile : ((s.store p.id).write a.file).hello = (s.store p.id).hello)
    (hmove : Mid ⟨p, rest⟩ → Mid ⟨p, a :: rest⟩) (hh : (s.store p.id).hello = some hello)
    (hw : ∃ th ∈ s.threads, th.owner.id = p.id ∧ th.owner.hello = hello)
    (hmid : ∀ th ∈ s.threads, th.owner.id = p.id → Mid th → th.owner.hello = hello) :
    ((moved s i p a rest).store p.id).hello = some hello ∧
    (∃ th ∈ (moved s i p a rest).threads, th.owner.id = p.id ∧ th.owner.hello = hello) ∧
    ∀ th ∈ (moved s i p a rest).threads, th.owner.id = p.id → Mid th → th.owner.hello = hello := by
  refine ⟨?_, ?_, ?_⟩
  · show (s.store.apply a p.id).hello = _
    rw [← hid, Tree.apply_self, hid, hfile, hh]
  · obtain ⟨w, hw, hwid, hwh⟩ := hw
    by_cases he : w = ⟨p, a :: rest⟩
    · exact ⟨_, mover_stays hi, rfl, by rw [← hwh, he]⟩
    · exact ⟨w, mem_set_of_ne _ _ _ _ _ hi hw he, hwid, hwh⟩
  · intro th hth hthid hm
    rcases mem_set_cases _ _ _ _ hth with rfl | h
    · exact hmid ⟨p, a :: rest⟩ (mover_mem hi) rfl (hmove hm)
    · exact hmid th h hthid hm

private theorem recorded_meta (ha : a = ⟨p.id, .metaDoc p.metaDoc⟩) (hr : rest = p.writes.drop 2)
    (hf : p.Faithful) (h : Recorded s p.id) : Recorded (moved s i p a rest) p.id := by
  subst ha
  subst hr
  obtain ⟨hello, hh, hw, hmid, -, hprof⟩ := h
  have hp : p.hello = hello := hmid _ (mover_mem hi) rfl (Or.inl rfl)
  obtain ⟨h1, h2, h3⟩ := later hi rfl rfl (fun _ => Or.inl rfl) hh hw hmid
  have hstore := s.store.apply_self ⟨p.id, .metaDoc p.metaDoc⟩
  refine ⟨hello, h1, h2, h3, Or.inl ?_, Or.inr ⟨_, mover_stays hi, rfl, Or.inr rfl⟩⟩
  show MetaOf (s.store.apply _ p.id) hello
  rw [hstore]
  exact ⟨_, rfl, hp ▸ hf.1⟩

/-- the `meta.json` of a handler that moved on can only be pending at another one -/
private theorem pending_meta {hello : Bytes} (hid : a.id = p.id)
    (hfile : ((s.store p.id).write a.file).metaDoc = (s.store p.id).metaDoc)
    (hl : rest.length < 2)
    (h : MetaOf (s.store p.id) hello ∨
      ∃ th ∈ s.threads, th.owner.id = p.id ∧ th.todo = th.owner.writes.drop 1) :
    MetaOf ((moved s i p a rest).store p.id) hello ∨
      ∃ th ∈ (moved s i p a rest).threads, th.owner.id = p.id ∧ th.todo = th.owner.writes.drop 1 := by
  rcases h with ⟨md, hmd, hsum⟩ | ⟨th, hth, hthid, ht⟩
  · refine Or.inl ⟨md, ?_, hsum⟩
    show (s.store.apply a p.id).metaDoc = _
    rw [← hid, Tree.apply_self, hid, hfile, hmd]
  · refine Or.inr ⟨th, other_mem hi hth ?_, hthid, ht⟩
    rw [ht, th.owner.drop_length]
    omega

private theorem recorded_profile (ha : a = ⟨p.id, .profile p.profile⟩)
    (hr : rest = p.writes.drop 3) (hf : p.Faithful) (h : Recorded s p.id) :
    Recorded (moved s i p a rest) p.id := by
  subst ha
  subst hr
  obtain ⟨hello, hh, hw, hmid, hmeta, -⟩ := h
  have hp : p.hello = hello := hmid _ (mover_mem hi) rfl (Or.inr rfl)
  obtain ⟨h1, h2, h3⟩ := later hi rfl rfl (fun _ => Or.inr rfl) hh hw hmid
  have hstore := s.store.apply_self ⟨p.id, .profile p.profile⟩
  refine ⟨hello, h1, h2, h3, pending_meta hi rfl rfl (by rw [p.drop_length]; omega) hmeta,
    Or.inl ?_⟩
  show ProfileOf (s.store.apply _ p.id) hello
  rw [hstore]
  exact ⟨_, rfl, hp ▸ hf.2⟩

private theorem recorded_readme (ha : a = ⟨p.id, .readme p.readme⟩) (hr : rest = p.writes.drop 4)
    (h : Recorded s p.id) : Recorded (moved s i p a rest) p.id := by
  subst ha
  subst hr
  obtain ⟨hello, hh, hw, hmid, hmeta, hprof⟩ := h
  have hstop : ¬ Mid (⟨p, p.writes.drop 4⟩ : Thread Promotion Write) := by
    rintro (h | h)
    · exact absurd (congrArg List.length h) (by rw [p.drop_length, p.drop_length]; omega)
    · exact absurd (congrArg List.length h) (by rw [p.drop_length, p.drop_length]; omega)
  obtain ⟨h1, h2, h3⟩ := later hi rfl rfl (fun h => absurd h hstop) hh hw hmid
  have hstore := s.store.apply_self ⟨p.id, .readme p.readme⟩
  refine ⟨hello, h1, h2, h3, pending_meta hi rfl rfl (by rw [p.drop_length]; omega) hmeta, ?_⟩
  rcases hprof with ⟨pd, hpd, hja4⟩ | ⟨th, hth, hthid, hm⟩
  · refine Or.inl ⟨pd, ?_, hja4⟩
    show (s.store.apply _ p.id).profile = _
    rw [hstore]
    exact hpd
  · refine Or.inr ⟨th, other_mem hi hth ?_, hthid, hm⟩
    rcases hm with h | h
    · rw [h, th.owner.drop_length, p.drop_length]; omega
    · rw [h, th.owner.drop_length, p.drop_length]; omega

end

theorem orderly_next (s : Server) (i : Nat) (h : Orderly s) : Orderly (next Tree.apply s i) := by
  rcases next_cases Tree.apply s i with he | ⟨p, a, rest, hi, he⟩
  · rw [he]; exact h
  · rw [he]
    intro th hth
    rcases mem_set_cases _ _ _ _ hth with rfl | hth
    · obtain ⟨hf, n, hn⟩ := h _ (mover_mem hi)
      refine ⟨hf, n + 1, ?_⟩
      show rest = p.writes.drop (n + 1)
      rw [← List.tail_drop, ← hn]
      rfl
    · exact h th hth

/-- One turn without an overlap. -/
theorem recorded_next (s : Server) (i : Nat) (id : Bytes) (hN : NoOverlap s i) (ho : Orderly s)
    (h : Untouched s id ∨ Recorded s id) :
    Untouched (next Tree.apply s i) id ∨ Recorded (next Tree.apply s i) id := by
  rcases next_cases Tree.apply s i with he | ⟨p, a, rest, hi, he⟩
  · rw [he]; exact h
  rw [he]
  obtain ⟨hf, n, hn⟩ := ho _ (mover_mem hi)
  have hcases := p.drop_cases hn
  by_cases hid : p.id = id
  · subst hid
    -- after its first write a handler has left the untouched state
    have started : rest.length < 3 → Recorded s p.id := by
      intro hl
      refine h.resolve_left fun hu => ?_
      have he := congrArg List.length (hu _ (mover_mem hi) rfl)
      have h4 : p.writes.length = 4 := rfl
      rw [List.length_cons, h4] at he
      omega
    right
    rcases hcases with ⟨ha, hr⟩ | ⟨ha, hr⟩ | ⟨ha, hr⟩ | ⟨ha, hr⟩
    · exact recorded_hello hi ha hr hN
    · exact recorded_meta hi ha hr hf (started (by rw [hr, p.drop_length]; omega))
    · exact recorded_profile hi ha hr hf (started (by rw [hr, p.drop_length]; omega))
    · exact recorded_readme hi ha hr (started (by rw [hr, p.drop_length]; omega))
  · refine frame hi ?_ hid h
    rcases hcases with ⟨ha, -⟩ | ⟨ha, -⟩ | ⟨ha, -⟩ | ⟨ha, -⟩ <;> rw [ha]

theorem recordedJA4_ok {record : Bytes} {m : Meta} (h : analyze record = .ok m) :
    recordedJA4 record = m.ja4 := by
  unfold recordedJA4
  rw [h]

theorem start_owners (fl : Flags) (conns : List Conn) (t : Tree) :
    (Server.start fl conns t).threads.map Thread.owner = conns.filterMap (handle fl) := by
  unfold Server.start
  rw [List.map_map]
  exact List.map_id _

theorem start_orderly (fl : Flags) (conns : List Conn) (t : Tree) :
    Orderly (Server.start fl conns t) := by
  intro th hth
  obtain ⟨q, hq, rfl⟩ := List.mem_map.mp hth
  obtain ⟨c, -, hc⟩ := List.mem_filterMap.mp hq
  exact ⟨(handle_faithful hc).2, 0, rfl⟩

theorem start_untouched (fl : Flags) (conns : List Conn) (t : Tree) (id : Bytes) :
    Untouched (Server.start fl conns t) id := by
  intro th hth hid
  obtain ⟨q, hq, rfl⟩ := List.mem_map.mp hth
  rfl

/-- Once every handler is done, a promoted directory describes the hello of one of its handlers. -/
theorem recorded_run (fl : Flags) (conns : List Conn) (t : Tree) (sched : List Nat)
    (hN : NoOverlaps fl conns t sched) (hdone : (serve fl conns t sched).Done) (p : Promotion)
    (hp : p ∈ conns.filterMap (handle fl)) :
    ∃ q ∈ conns.filterMap (handle fl), q.id = p.id ∧
      ((serve fl conns t sched).store p.id).hello = some q.hello ∧
      MetaOf ((serve fl conns t sched).store p.id) q.hello ∧
      ProfileOf ((serve fl conns t sched).store p.id) q.hello := by
  have howners : (serve fl conns t sched).threads.map Thread.owner
      = conns.filterMap (handle fl) := by
    unfold serve
    rw [run_owners, start_owners]
  have hinv : Orderly (serve fl conns t sched) ∧
      (Untouched (serve fl conns t sched) p.id ∨ Recorded (serve fl conns t sched) p.id) :=
    run_inv Tree.apply NoOverlap (fun s => Orderly s ∧ (Untouched s p.id ∨ Recorded s p.id))
      (fun s i hN ⟨ho, h⟩ => ⟨orderly_next s i ho, recorded_next s i p.id hN ho h⟩) _ sched hN
      ⟨start_orderly fl conns t, Or.inl (start_untouched fl conns t p.id)⟩
  generalize serve fl conns t sched = s at howners hinv hdone ⊢
  -- nothing is pending any more
  have hempty : ∀ th ∈ s.threads, ∀ n, n < 4 → th.todo ≠ th.owner.writes.drop n := by
    intro th hth n hn he
    have hl := congrArg List.length he
    rw [hdone th hth, th.owner.drop_length, List.length_nil] at hl
    omega
  have hstop : ∀ th ∈ s.threads, ¬ Mid th := by
    rintro th hth (h | h)
    · exact hempty th hth 1 (by omega) h
    · exact hempty th hth 2 (by omega) h
  rcases hinv.2 with hu | ⟨hello, hh, ⟨w, hw, hwid, hwh⟩, -, hmeta, hprof⟩
  · obtain ⟨th, hth, hpo⟩ := List.mem_map.mp (howners ▸ hp)
    exact absurd (hu th hth (congrArg Promotion.id hpo)) (hempty th hth 0 (by omega))
  · refine ⟨w.owner, howners ▸ List.mem_map_of_mem hw, hwid, hwh ▸ hh, ?_, ?_⟩
    · rw [hwh]
      exact hmeta.resolve_right fun ⟨th, hth, _, h⟩ => hempty th hth 1 (by omega) h
    · rw [hwh]
      exact hprof.resolve_right fun ⟨th, hth, _, h⟩ => hstop th hth h

/-- a directory that no handler promotes -/
theorem store_run (fl : Flags) (conns : List Conn) (t : Tree) (sched : List Nat) (id : Bytes)
    (h : ∀ p ∈ conns.filterMap (handle fl), p.id ≠ id) :
    (serve fl conns t sched).store id = t id := by
  have hinv : Orderly (serve fl conns t sched) ∧
      (∀ th ∈ (serve fl conns t sched).threads, th.owner.id ≠ id) ∧
      (serve fl conns t sched).store id = t id := by
    refine run_always Tree.apply
      (fun s => Orderly s ∧ (∀ th ∈ s.threads, th.owner.id ≠ id) ∧ s.store id = t id) ?_ _ sched
      ⟨start_orderly fl conns t, ?_, rfl⟩
    · intro s i ⟨ho, hid, hs⟩
      refine ⟨orderly_next s i ho, ?_⟩
      rcases next_cases Tree.apply s i with he | ⟨p, a, rest, hi, he⟩
      · rw [he]; exact ⟨hid, hs⟩
      · obtain ⟨-, n, hn⟩ := ho _ (mover_mem hi)
        have hpid := hid _ (mover_mem hi)
        have ha : a.id = p.id := by
          rcases p.drop_cases hn with ⟨ha, -⟩ | ⟨ha, -⟩ | ⟨ha, -⟩ | ⟨ha, -⟩ <;> rw [ha]
        rw [he]
        refine ⟨fun th hth => ?_, ?_⟩
        · rcases mem_set_cases _ _ _ _ hth with rfl | hth
          · exact hpid
          · exact hid th hth
        · show s.store.apply a id = _
          rw [Tree.apply_of_ne _ _ _ (fun he => hpid (by rw [← ha, he])), hs]
    · intro th hth
      obtain ⟨q, hq, rfl⟩ := List.mem_map.mp hth
      exact h q hq
  exact hinv.2.2

/-- **Promotion**: without overlaps, and when `analyze` accepts what is promoted, every promoted
directory is consistent in the end; the others are as they were. -/
theorem promoted_consistent (fl : Flags) (conns : List Conn) (t : Tree) (sched : List Nat)
    (hN : NoOverlaps fl conns t sched)
    (hacc : ∀ c ∈ conns, handle fl c ≠ none → ∃ m, analyze c.rawHello = .ok m)
    (hdone : (serve fl conns t sched).Done) (id : Bytes) :
    ((∃ p ∈ conns.filterMap (handle fl), p.id = id) →
      SelfConsistent ((serve fl conns t sched).store id)) ∧
    ((∀ p ∈ conns.filterMap (handle fl), p.id ≠ id) →
      (serve fl conns t sched).store id = t id) := by
  refine ⟨?_, store_run fl conns t sched id⟩
  rintro ⟨p, hp, rfl⟩
  obtain ⟨q, hq, -, hh, hmeta, pd, hpd, hja4⟩ := recorded_run fl conns t sched hN hdone p hp
  obtain ⟨c, hc, hcq⟩ := List.mem_filterMap.mp hq
  obtain ⟨m, hm⟩ := hacc c hc (by rw [hcq]; exact Option.some_ne_none q)
  rw [← (handle_faithful hcq).1] at hm
  exact ⟨q.hello, m, hh, hm, hmeta, pd, hpd, hja4.trans (recordedJA4_ok hm)⟩

/-! ## two connections of one client -/

/-- a hello with a server name only -/
def namedHello (ciphers : List UInt16) : HelloFields where
  version := 0x0303
  random := List.replicate 32 7
  sessionID := []
  ciphers
  compression := [0]
  block := some [.serverName (str "brave.fp.lab.local")]

def twoConns : List Conn :=
  [{ rawHello := (namedHello [0x1301]).record 0x0301 [], seq := 1 },
    { rawHello := (namedHello [0x1301, 0x1302]).record 0x0301 [], seq := 2 }]

def defaultFlags : Flags where
  outDir := str "/captures"
  targetHint := str "unknown"

theorem twoConns_accepted : ∀ c ∈ twoConns, ∃ m, analyze c.rawHello = .ok m := by
  have hok : ∀ c ∈ twoConns, (analyze c.rawHello).isOk = true := by decide +kernel
  intro c hc
  have h := hok c hc
  cases ha : analyze c.rawHello with
  | ok m => exact ⟨m, rfl⟩
  | error e => rw [ha] at h; cases h

theorem promoted_consistent_sequential :
    SelfConsistent ((serve defaultFlags twoConns (fun _ => {}) [0, 0, 0, 0, 1, 1, 1, 1]).store
      (str "brave")) := by
  refine (promoted_consistent defaultFlags twoConns (fun _ => {}) [0, 0, 0, 0, 1, 1, 1, 1] ?_ ?_ ?_
    (str "brave")).1 ?_
  · show Turns _ _ _ _
    decide +kernel
  · exact fun c hc _ => twoConns_accepted c hc
  · show ∀ th ∈ _, _
    decide +kernel
  · decide +kernel

/-- The second handler runs between the first and the second write of the first one: the directory
holds the second hello with the documents of the first. -/
theorem promotion_race :
    (serve defaultFlags twoConns (fun _ => {}) [0, 1, 1, 1, 1, 0, 0, 0]).Done ∧
    (∀ c ∈ twoConns, ∃ m, analyze c.rawHello = .ok m) ∧
    (∃ p ∈ twoConns.filterMap (handle defaultFlags), p.id = str "brave") ∧
    ¬ SelfConsistent ((serve defaultFlags twoConns (fun _ => {}) [0, 1, 1, 1, 1, 0, 0, 0]).store
      (str "brave")) := by
  refine ⟨?_, twoConns_accepted, ?_, ?_⟩
  · show ∀ th ∈ _, _
    decide +kernel
  · decide +kernel
  · rintro ⟨hello, m, hh, hm, -, pd, hpd, hja4⟩
    have hlast : ((serve defaultFlags twoConns (fun _ => {}) [0, 1, 1, 1, 1, 0, 0, 0]).store
        (str "brave")).hello = some ((namedHello [0x1301, 0x1302]).record 0x0301 []) := by
      decide +kernel
    have hne : ((serve defaultFlags twoConns (fun _ => {}) [0, 1, 1, 1, 1, 0, 0, 0]).store
        (str "brave")).profileJA4 ≠ recordedJA4 ((namedHello [0x1301, 0x1302]).record 0x0301 []) := by
      decide +kernel
    rw [hlast] at hh
    rw [Option.some.inj hh, recordedJA4_ok hm, ← hja4] at hne
    refine hne ?_
    unfold Dir.profileJA4
    rw [hpd]
    rfl

end Capture
