import FingerprintLab.Quic.Observe
import FingerprintLab.Quic.Promote

/-!
# What a promotion takes over from the directories before it

`finishPeer` adds files and overwrites files, and the reader counts those that are there.

* `writeInitials_ok`, `promoteProfile_ok`, `finishPeer_ok`   what has been written on success;
* `Numbered`, `numbered_iff`     the datagram files are those of this gather when there was no other;
* `Fresh`, `NoLeftovers`         the directories describe the gather; what must not be there before;
* `promotion_fresh_iff`          the one holds if and only if the other does;
* `promotion_leftover`           a shorter gather under the id of a longer one.
-/

set_option linter.unusedVariables false

namespace Quic
open Go Py Writes

/-! ## the datagram files -/

theorem initialName_inj {i j : Nat} (h : initialName i = initialName j) : i = j :=
  dec03_inj i j (List.append_cancel_right h)

theorem isBin_initialName (i : Nat) : isBin (initialName i) = true :=
  List.isSuffixOf_iff_suffix.mpr (List.suffix_append (dec03 i) (str ".bin"))

/-- the writes of the loop from number `i` on -/
def initialWrites (i : Nat) (ds : List Bytes) : List (Bytes × Bytes) :=
  (ds.zipIdx i).map fun p => (initialName p.2, p.1)

theorem writeInitials_ok {locked : Bytes → Bool} {m m' : Files} {i : Nat} {ds : List Bytes}
    (h : writeInitials locked m i ds = .ok m') : m' = writeAll m (initialWrites i ds) := by
  induction ds generalizing m i with
  | nil => exact (Except.ok.inj h).symm
  | cons d ds ih =>
    rw [writeInitials] at h
    split at h
    · cases h
    · exact ih h

theorem mem_initialWrites {ds : List Bytes} {name d : Bytes} :
    (name, d) ∈ initialWrites 0 ds ↔ ∃ i : Nat, name = initialName i ∧ ds[i]? = some d := by
  unfold initialWrites
  rw [List.mem_map]
  constructor
  · rintro ⟨⟨e, i⟩, hm, he⟩
    obtain ⟨hn, hd⟩ := Prod.mk.inj he
    exact ⟨i, hn.symm, hd ▸ List.mk_mem_zipIdx_iff_getElem?.mp hm⟩
  · rintro ⟨i, rfl, hd⟩
    exact ⟨(d, i), List.mk_mem_zipIdx_iff_getElem?.mpr hd, rfl⟩

theorem functional_initialWrites (ds : List Bytes) : Functional (initialWrites 0 ds) := by
  intro name d d' h h'
  obtain ⟨i, hi, hd⟩ := mem_initialWrites.mp h
  obtain ⟨j, hj, hd'⟩ := mem_initialWrites.mp h'
  have hij : i = j := initialName_inj (hi.symm.trans hj)
  rw [hij, hd'] at hd
  exact (Option.some.inj hd).symm

/-- The datagram files are the datagrams, numbered in order. -/
def Numbered (files : Files) (ds : List Bytes) : Prop :=
  ∀ name d, isBin name = true →
    (files.lookup name = some d ↔ ∃ i : Nat, name = initialName i ∧ ds[i]? = some d)

/-- no datagram file has a number from `n` on, or another name -/
def NoExtra (files : Files) (n : Nat) : Prop :=
  ∀ name ∈ files, isBin name = true → ∃ i < n, name = initialName i

theorem numbered_iff (m : Files) (ds : List Bytes) :
    Numbered (writeAll m (initialWrites 0 ds)) ds ↔ NoExtra m ds.length := by
  constructor
  · intro h name hm hbin
    by_contra hnot
    -- a name that is not written keeps its file
    have hkeep : (writeAll m (initialWrites 0 ds)).lookup name = m.lookup name := by
      refine lookup_writeAll_of_notMem m _ name fun hmem => hnot ?_
      obtain ⟨⟨name', d⟩, hw, he⟩ := List.mem_map.mp hmem
      obtain ⟨i, hi, hd⟩ := mem_initialWrites.mp hw
      dsimp only at he
      rw [he] at hi
      exact ⟨i, (List.getElem?_eq_some_iff.mp hd).1, hi⟩
    obtain ⟨d, hd⟩ := Option.isSome_iff_exists.mp (Finmap.lookup_isSome.mpr hm)
    obtain ⟨i, hi, hget⟩ := (h name d hbin).mp (hkeep.trans hd)
    exact hnot ⟨i, (List.getElem?_eq_some_iff.mp hget).1, hi⟩
  · intro h name d hbin
    have hf := functional_initialWrites ds
    constructor
    · intro hl
      rcases lookup_writeAll_cases m _ name d hl with hw | hm
      · exact mem_initialWrites.mp hw
      · obtain ⟨i, hi, rfl⟩ := h name (Finmap.mem_of_lookup_eq_some hm) hbin
        have hw := lookup_writeAll_of_mem m _ _ _ hf
          (mem_initialWrites.mpr ⟨i, rfl, List.getElem?_eq_getElem hi⟩)
        refine ⟨i, rfl, ?_⟩
        rw [List.getElem?_eq_getElem hi, ← hw, hl]
    · rintro ⟨i, rfl, hd⟩
      exact lookup_writeAll_of_mem m _ _ _ hf (mem_initialWrites.mpr ⟨i, rfl, hd⟩)

/-- the reader's count of numbered files -/
theorem Numbered.card {files : Files} {ds : List Bytes} (h : Numbered files ds) :
    (binFiles files).card = ds.length := by
  have himage : binFiles files = (Finset.range ds.length).image initialName := by
    refine Finset.ext fun name => ?_
    unfold binFiles
    rw [Finset.mem_filter, Finmap.mem_keys, Finset.mem_image]
    constructor
    · rintro ⟨hm, hbin⟩
      obtain ⟨d, hd⟩ := Option.isSome_iff_exists.mp (Finmap.lookup_isSome.mpr hm)
      obtain ⟨i, hi, hget⟩ := (h name d hbin).mp hd
      exact ⟨i, Finset.mem_range.mpr (List.getElem?_eq_some_iff.mp hget).1, hi.symm⟩
    · rintro ⟨i, hi, rfl⟩
      have hbin := isBin_initialName i
      have hget := List.getElem?_eq_getElem (Finset.mem_range.mp hi)
      exact ⟨Finmap.mem_of_lookup_eq_some ((h _ _ hbin).mpr ⟨i, rfl, hget⟩), hbin⟩
  rw [himage, Finset.card_image_of_injective _ fun i j => initialName_inj, Finset.card_range]

/-! ## a successful call -/

theorem writeCapture_ok {dir out : CaptureDir} {ds : List Bytes} {summary : Summary}
    (h : writeCapture dir ds summary = .ok out) :
    out.initials = writeAll dir.initials (initialWrites 0 ds) ∧ out.metaDoc = some summary := by
  unfold writeCapture at h
  split at h
  · cases h
  · split at h
    · cases h
    · rename_i m hm
      dsimp only at h
      split at h
      · cases h
      · rw [← Except.ok.inj h]
        exact ⟨writeInitials_ok hm, rfl⟩

/-- what `promoteProfile` leaves in the directory -/
structure Promoted (dir out : ProfileDir) (id : Bytes) (ds : List Bytes) (g : Gathered) : Prop where
  initials : out.initials = writeAll dir.initials (initialWrites 0 ds)
  header : out.header = writePart (dir.locked (str "header.json")) g.header dir.header
  tp : out.tp = writePart (dir.locked (str "tp.json")) (g.transportParameters.map (·.json)) dir.tp
  clienthello :
    out.clienthello = writePart (dir.locked (str "clienthello.bin")) g.rawHello dir.clienthello
  profile : out.profile = some (profileOf id g)

theorem promoteProfile_ok {dir out : ProfileDir} {id : Bytes} {ds : List Bytes} {g : Gathered}
    {summary : Summary} (h : promoteProfile dir id ds g summary = .ok out) :
    Promoted dir out id ds g := by
  unfold promoteProfile at h
  split at h
  · cases h
  · split at h
    · cases h
    · rename_i m hm
      dsimp only at h
      split at h
      · cases h
      · rw [← Except.ok.inj h]
        exact ⟨writeInitials_ok hm, rfl, rfl, rfl, rfl⟩

section
variable {lab out : QuicLab} {peer hint : Bytes} {ds : List Bytes} {g : Gathered} {clock : Clock}

/-- **A successful promotion**: the two directories, and nothing else. -/
theorem finishPeer_ok (h : finishPeer lab peer hint true ds g clock = .ok out) :
    (out.captures (captureID clock (peerID peer hint g))).initials =
      writeAll (lab.captures (captureID clock (peerID peer hint g))).initials (initialWrites 0 ds) ∧
    Promoted (lab.profiles (peerID peer hint g)) (out.profiles (peerID peer hint g))
      (peerID peer hint g) ds g ∧
    (∀ name, name ≠ captureID clock (peerID peer hint g) → out.captures name = lab.captures name) ∧
    ∀ name, name ≠ peerID peer hint g → out.profiles name = lab.profiles name := by
  unfold finishPeer at h
  dsimp only at h
  split at h
  · cases h
  · rename_i cap hcap
    rw [if_neg (by decide)] at h
    split at h
    · cases h
    · rename_i dir hdir
      rw [← Except.ok.inj h]
      dsimp only
      rw [Function.update_self, Function.update_self]
      refine ⟨(writeCapture_ok hcap).1, promoteProfile_ok hdir, ?_, ?_⟩
      · exact fun name hn => Function.update_of_ne hn ..
      · exact fun name hn => Function.update_of_ne hn ..

end

/-! ## independence of the history -/

/-- The directories describe this gather and no other one. -/
structure Fresh (u : Unicode) (cap : CaptureDir) (dir : ProfileDir) (ds : List Bytes)
    (g : Gathered) : Prop where
  captured : Numbered cap.initials ds
  promoted : Numbered dir.initials ds
  header : dir.header = g.header
  tp : dir.tp = g.transportParameters.map (·.json)
  clienthello : dir.clienthello = g.rawHello
  counted : ∀ name obs, load_observation u name dir = some obs → obs.datagramCount = ds.length

/-- the file is written, or what is there is what the gather has -/
def PartFree {α : Type} (locked : Bool) (part old : Option α) : Prop :=
  match part with
  | some x => locked = false ∨ old = some x
  | none => old = none

/-- Nothing of an earlier gather is left over. -/
structure NoLeftovers (cap : CaptureDir) (dir : ProfileDir) (ds : List Bytes) (g : Gathered) :
    Prop where
  captured : NoExtra cap.initials ds.length
  promoted : NoExtra dir.initials ds.length
  header : PartFree (dir.locked (str "header.json")) g.header dir.header
  tp : PartFree (dir.locked (str "tp.json")) (g.transportParameters.map (·.json)) dir.tp
  clienthello : PartFree (dir.locked (str "clienthello.bin")) g.rawHello dir.clienthello

theorem writePart_eq_iff {α : Type} (locked : Bool) (part old : Option α) :
    writePart locked part old = part ↔ PartFree locked part old := by
  unfold writePart PartFree
  cases part with
  | none => exact Iff.rfl
  | some x => cases locked <;> simp

theorem count_observation {u : Unicode} {name : Bytes} {dir : ProfileDir} {obs : Observation}
    (h : load_observation u name dir = some obs) :
    obs.datagramCount = (binFiles dir.initials).card := by
  unfold load_observation at h
  cases hp : dir.profile with
  | none =>
    rw [hp] at h
    cases h
  | some prof =>
    rw [hp] at h
    rw [← Option.some.inj h]

theorem fresh_iff (u : Unicode) {cap capOut : CaptureDir} {dir dirOut : ProfileDir} {id : Bytes}
    {ds : List Bytes} {g : Gathered}
    (hcap : capOut.initials = writeAll cap.initials (initialWrites 0 ds))
    (hdir : Promoted dir dirOut id ds g) :
    Fresh u capOut dirOut ds g ↔ NoLeftovers cap dir ds g := by
  constructor
  · intro hf
    have hc := hf.captured
    have hp := hf.promoted
    rw [hcap, numbered_iff] at hc
    rw [hdir.initials, numbered_iff] at hp
    refine ⟨hc, hp, ?_, ?_, ?_⟩
    · rw [← writePart_eq_iff, ← hdir.header]
      exact hf.header
    · rw [← writePart_eq_iff, ← hdir.tp]
      exact hf.tp
    · rw [← writePart_eq_iff, ← hdir.clienthello]
      exact hf.clienthello
  · intro hn
    have hp : Numbered dirOut.initials ds := by
      rw [hdir.initials, numbered_iff]
      exact hn.promoted
    refine ⟨?_, hp, ?_, ?_, ?_, ?_⟩
    · rw [hcap, numbered_iff]
      exact hn.captured
    · rw [hdir.header, writePart_eq_iff]
      exact hn.header
    · rw [hdir.tp, writePart_eq_iff]
      exact hn.tp
    · rw [hdir.clienthello, writePart_eq_iff]
      exact hn.clienthello
    · intro name obs hobs
      rw [count_observation hobs, hp.card]

/-- **A promotion is independent of the history** exactly when nothing is left over. -/
theorem promotion_fresh_iff (u : Unicode) {lab out : QuicLab} {peer hint : Bytes}
    {ds : List Bytes} {g : Gathered} {clock : Clock}
    (h : finishPeer lab peer hint true ds g clock = .ok out) :
    Fresh u (out.captures (captureID clock (peerID peer hint g))) (out.profiles (peerID peer hint g))
        ds g ↔
      NoLeftovers (lab.captures (captureID clock (peerID peer hint g)))
        (lab.profiles (peerID peer hint g)) ds g := by
  obtain ⟨hcap, hdir, -, -⟩ := finishPeer_ok h
  exact fresh_iff u hcap hdir

/-! ## two gathers of one peer -/

/-- the datagrams of an earlier, longer gather are still there -/
theorem leftover_of_shorter {lab lab' : QuicLab} {peer hint : Bytes} {ds ds' : List Bytes}
    {g g' : Gathered} {clock : Clock} (h : finishPeer lab peer hint true ds g clock = .ok lab')
    (hlen : ds'.length < ds.length) (cap : CaptureDir) :
    ¬ NoLeftovers cap (lab'.profiles (peerID peer hint g)) ds' g' := by
  obtain ⟨-, hdir, -, -⟩ := finishPeer_ok h
  intro hn
  have hget := List.getElem?_eq_getElem hlen
  have hw := lookup_writeAll_of_mem (lab.profiles (peerID peer hint g)).initials _ _ _
    (functional_initialWrites ds) (mem_initialWrites.mpr ⟨ds'.length, rfl, hget⟩)
  rw [← hdir.initials] at hw
  obtain ⟨i, hi, he⟩ := hn.promoted _ (Finmap.mem_of_lookup_eq_some hw) (isBin_initialName _)
  rw [initialName_inj he] at hi
  exact Nat.lt_irrefl i hi

/-- success as a value that can be evaluated -/
theorem exists_ok {α β : Type} {x : Except α β} (h : x.isOk = true) : ∃ out, x = .ok out := by
  cases x with
  | ok out => exact ⟨out, rfl⟩
  | error e => cases h

theorem exists_ok_bind {α β γ : Type} {x : Except α β} {f : β → Except α γ}
    (h : (x >>= f).isOk = true) : ∃ a b, x = .ok a ∧ f a = .ok b := by
  cases x with
  | ok a =>
    obtain ⟨b, hb⟩ := exists_ok (x := f a) h
    exact ⟨a, b, rfl, hb⟩
  | error e => cases h

def chromePeer : Bytes := str "172.18.0.5:40000"
def parrot : Bytes := str "chromeparrot"

/-- two readings of the clock a minute apart -/
def noon : Clock := ⟨str "20260101T120000Z", str "2026-01-01T12:00:00Z"⟩
def minuteLater : Clock := ⟨str "20260101T120100Z", str "2026-01-01T12:01:00Z"⟩

/-- **Left over**: a gather of two datagrams and then one of a single datagram with the same id; the
second file of the first gather stays. -/
theorem promotion_leftover : ∃ lab out,
    finishPeer {} chromePeer parrot true [[1], [2]] {} noon = .ok lab ∧
    finishPeer lab chromePeer parrot true [[3]] {} minuteLater = .ok out ∧
    ¬ Fresh .ascii (out.captures (captureID minuteLater (peerID chromePeer parrot {})))
      (out.profiles (peerID chromePeer parrot {})) [[3]] {} := by
  obtain ⟨lab, out, hlab, hout⟩ := exists_ok_bind (by decide +kernel :
    (finishPeer {} chromePeer parrot true [[1], [2]] {} noon >>= fun lab =>
      finishPeer lab chromePeer parrot true [[3]] {} minuteLater).isOk = true)
  refine ⟨lab, out, hlab, hout, fun hfresh => ?_⟩
  obtain ⟨hcap, hdir, -, -⟩ := finishPeer_ok hout
  exact leftover_of_shorter hlab (by decide) _ ((fresh_iff .ascii hcap hdir).mp hfresh)

/-- the first gather on its own -/
theorem promotion_fresh_first : ∃ out,
    finishPeer {} chromePeer parrot true [[1], [2]] {} noon = .ok out ∧
    Fresh .ascii (out.captures (captureID noon (peerID chromePeer parrot {})))
      (out.profiles (peerID chromePeer parrot {})) [[1], [2]] {} := by
  obtain ⟨out, h⟩ := exists_ok (by decide +kernel :
    (finishPeer {} chromePeer parrot true [[1], [2]] {} noon).isOk = true)
  refine ⟨out, h, (promotion_fresh_iff .ascii h).mpr ?_⟩
  refine ⟨?_, ?_, rfl, rfl, rfl⟩
  · exact fun name hm => absurd hm Finmap.notMem_empty
  · exact fun name hm => absurd hm Finmap.notMem_empty

end Quic
