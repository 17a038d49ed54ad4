import FingerprintLab.Base.Paths
import FingerprintLab.Base.Runes
import FingerprintLab.Lab.Files
import FingerprintLab.Quic.Promote

/-!
# Where a gather is written

The id of a gather comes from the server name of its hello, from the hint, or from the address of the
peer, all of them free text.

* `Sanitized`, `sanitized_peerID`   the id is never empty, and has no slash and no dot;
* `peerID_host`                a host whose first label is a plain name is routed to that name;
* `called`, `run_frame`         a run of calls, that may fail, changes the directories of its ids only;
* `gathers_confined`           each of these is a child of its parent directory.
-/

set_option linter.unusedVariables false

namespace Quic
open Go Paths

/-! ## ids -/

/-- letters, digits, dashes and underscores -/
def Sanitized (s : Bytes) : Prop := ∀ b ∈ s, keptRune b.toNat = true

instance decidableSanitized (s : Bytes) : Decidable (Sanitized s) :=
  List.decidableBAll (fun b : Byte => keptRune b.toNat = true) s

theorem keptRune_lt {r : Nat} (h : keptRune r = true) : r < 0x80 := by
  unfold keptRune at h
  simp only [Bool.or_eq_true, Bool.and_eq_true, decide_eq_true_eq, beq_iff_eq] at h
  omega

theorem Sanitized.append {s s' : Bytes} (h : Sanitized s) (h' : Sanitized s') : Sanitized (s ++ s') := by
  intro b hb
  exact (List.mem_append.mp hb).elim (h b) (h' b)

theorem Sanitized.ascii {s : Bytes} (h : Sanitized s) : ∀ b ∈ s, b.toNat < 0x80 :=
  fun b hb => keptRune_lt (h b hb)

theorem Sanitized.plain {s : Bytes} (h : Sanitized s) : slash ∉ s ∧ (0x2e : Byte) ∉ s :=
  ⟨fun hs => absurd (h slash hs) (by decide), fun hs => absurd (h 0x2e hs) (by decide)⟩

theorem mem_trim {cut b : Byte} {s : Bytes} (h : b ∈ trim cut s) : b ∈ s := by
  unfold trim at h
  rw [List.mem_reverse] at h
  have h' := (List.dropWhile_sublist _).subset h
  exact (List.dropWhile_sublist _).subset (List.mem_reverse.mp h')

theorem sanitized_sanitize (s : Bytes) : Sanitized (sanitize s) := by
  intro b hb
  obtain ⟨r, -, rfl⟩ := List.mem_map.mp (mem_trim hb)
  split
  · rename_i hr
    have hlt := keptRune_lt hr
    rw [UInt8.toNat_ofNat', Nat.mod_eq_of_lt (by omega)]
    exact hr
  · decide

/-- the id before the address of the peer stands in for it -/
def namedID (hint : Bytes) (g : Gathered) : Bytes :=
  match g.clientHello with
  | some ch =>
    if ch.serverName ≠ [] then
      if targetFromSNI ch.serverName ≠ [] then targetFromSNI ch.serverName else sanitize hint
    else sanitize hint
  | none => sanitize hint

theorem peerID_named (peer hint : Bytes) (g : Gathered) : peerID peer hint g =
    if namedID hint g = [] ∨ namedID hint g = str "unknown" then
      str "peer-" ++ sanitize (peer.map fun b => if b = 0x3a then 0x2d else b)
    else namedID hint g := rfl

theorem sanitized_namedID (hint : Bytes) (g : Gathered) : Sanitized (namedID hint g) := by
  unfold namedID
  cases g.clientHello with
  | none => exact sanitized_sanitize hint
  | some ch =>
    dsimp only
    split_ifs
    · exact sanitized_sanitize _
    · exact sanitized_sanitize hint
    · exact sanitized_sanitize hint

/-- whatever the server name, the hint and the address are -/
theorem sanitized_peerID (peer hint : Bytes) (g : Gathered) :
    Sanitized (peerID peer hint g) ∧ peerID peer hint g ≠ [] := by
  have hpeer : Sanitized (str "peer-") := by decide
  rw [peerID_named]
  split
  · exact ⟨hpeer.append (sanitized_sanitize _), List.append_ne_nil_of_left_ne_nil (by decide) _⟩
  · rename_i hne
    exact ⟨sanitized_namedID hint g, fun he => hne (.inl he)⟩

/-! ## an ASCII text before another text -/

section
variable {x : Bytes} (hx : ∀ b ∈ x, b.toNat < 0x80)
include hx

theorem runes_append (t : Bytes) : runes (x ++ t) = x.map UInt8.toNat ++ runes t := by
  induction x with
  | nil => rfl
  | cons b x ih =>
    have hb := decodeRune_ascii b (x ++ t) (hx b List.mem_cons_self)
    unfold runes at ih ⊢
    rw [List.cons_append, List.length_cons, runesFuel, hb]
    show b.toNat :: runesFuel (x ++ t).length (x ++ t) = _
    rw [ih fun c hc => hx c (List.mem_cons_of_mem b hc)]
    rfl

theorem runeBytes_append (t : Bytes) : runeBytesFuel (x ++ t).length (x ++ t) =
    x.map (fun b => [b]) ++ runeBytesFuel t.length t := by
  induction x with
  | nil => rfl
  | cons b x ih =>
    have hb := decodeRune_ascii b (x ++ t) (hx b List.mem_cons_self)
    rw [List.cons_append, List.length_cons, runeBytesFuel, hb]
    show [b] :: runeBytesFuel (x ++ t).length (x ++ t) = _
    rw [ih fun c hc => hx c (List.mem_cons_of_mem b hc)]
    rfl

/-- what is trimmed is behind the last character that is no space -/
theorem trimSpace_append (hs : ∀ b ∈ x, isSpace b.toNat = false) (hne : x ≠ []) (t : Bytes) :
    ∃ t', trimSpace (x ++ t) = x ++ t' := by
  have hspace : ∀ b ∈ x, isSpace (decodeRune [b]).1 = false := by
    intro b hb
    rw [decodeRune_ascii b [] (hx b hb)]
    exact hs b hb
  have hhead : ∀ l : Bytes, l ≠ [] → (∀ b ∈ l, b ∈ x) → ∀ r,
      (l.map (fun b => [b]) ++ r).dropWhile (fun c => isSpace (decodeRune c).1) =
        l.map (fun b => [b]) ++ r := by
    intro l hl hmem r
    cases l with
    | nil => exact absurd rfl hl
    | cons b l =>
      rw [List.map_cons, List.cons_append, List.dropWhile_cons_of_neg]
      rw [hspace b (hmem b List.mem_cons_self)]
      exact Bool.false_ne_true
  have hrev : ∀ b ∈ x.reverse, b ∈ x := fun b hb => List.mem_reverse.mp hb
  have hnerev : x.reverse ≠ [] := by simpa using hne
  unfold trimSpace
  rw [runeBytes_append hx]
  dsimp only
  rw [hhead x hne (fun b hb => hb), List.reverse_append, List.dropWhile_append, ← List.map_reverse]
  have hback := hhead x.reverse hnerev hrev []
  rw [List.append_nil] at hback
  split
  · rw [hback, ← List.map_reverse, List.reverse_reverse, flatten_singles]
    exact ⟨[], (List.append_nil x).symm⟩
  · rw [List.reverse_append, ← List.map_reverse, List.reverse_reverse, List.flatten_append,
      flatten_singles]
    exact ⟨_, rfl⟩

theorem toLower_append (hl : ∀ b ∈ x, IsLower b) (t : Bytes) : toLower (x ++ t) = x ++ toLower t := by
  have hself := toLower_of_lower x hl
  unfold toLower at hself ⊢
  rw [runes_ascii x hx] at hself
  rw [runes_append hx, List.flatMap_append, hself]

end

/-! ## hosts -/

/-- a lower-case name as the lab gives them to its targets -/
structure PlainName (x : Bytes) : Prop where
  word : ∀ b ∈ x, Lab.idRune b.toNat = true
  ne_nil : x ≠ []
  head : x.head? ≠ some 0x2d
  last : x.getLast? ≠ some 0x2d
  known : x ≠ str "unknown"

section
variable {x : Bytes} (hx : PlainName x)
include hx

theorem PlainName.ascii : ∀ b ∈ x, b.toNat < 0x80 := by
  intro b hb
  have h := hx.word b hb
  unfold Lab.idRune at h
  simp only [Bool.or_eq_true, Bool.and_eq_true, decide_eq_true_eq, beq_iff_eq] at h
  omega

theorem PlainName.sanitized : Sanitized x := by
  intro b hb
  have h := hx.word b hb
  unfold Lab.idRune at h
  unfold keptRune
  simp only [Bool.or_eq_true, Bool.and_eq_true, decide_eq_true_eq, beq_iff_eq] at h ⊢
  omega

theorem PlainName.lower : ∀ b ∈ x, IsLower b := by
  intro b hb
  have h := hx.word b hb
  unfold Lab.idRune at h
  unfold IsLower
  simp only [Bool.or_eq_true, Bool.and_eq_true, decide_eq_true_eq, beq_iff_eq] at h
  omega

theorem PlainName.space : ∀ b ∈ x, isSpace b.toNat = false := by
  have hrange : ∀ r, r < 0x80 → Lab.idRune r = true → isSpace r = false := by decide
  exact fun b hb => hrange _ (hx.ascii b hb) (hx.word b hb)

theorem trim_plain : trim 0x2d x = x := by
  have hdash : ∀ l : Bytes, l.head? ≠ some 0x2d → l.dropWhile (· == 0x2d) = l := by
    intro l hl
    cases l with
    | nil => rfl
    | cons b l =>
      rw [List.dropWhile_cons_of_neg]
      simpa using hl
  have hrev : x.reverse.head? ≠ some 0x2d := by
    rw [List.head?_reverse]
    exact hx.last
  unfold trim
  rw [hdash x hx.head, hdash _ hrev, List.reverse_reverse]

theorem sanitize_plain : sanitize x = x := by
  have htrim : trimSpace x = x := trimRunes_ascii isSpace x hx.ascii hx.space
  have hmap : (x.map UInt8.toNat).map (fun r => if keptRune r then UInt8.ofNat r else 0x2d) = x := by
    rw [List.map_map]
    conv_rhs => rw [← List.map_id x]
    refine List.map_congr_left fun b hb => ?_
    have hk := hx.sanitized b hb
    simp [hk]
  unfold sanitize
  rw [htrim, runes_ascii x hx.ascii, hmap, trim_plain hx]

/-- the name of a host, whatever the domain is -/
theorem targetFromSNI_host (domain : Bytes) : targetFromSNI (x ++ 0x2e :: domain) = x := by
  have hlabel : ∀ b ∈ x ++ [0x2e], b.toNat < 0x80 ∧ isSpace b.toNat = false ∧ IsLower b := by
    intro b hb
    obtain hb | hb := List.mem_append.mp hb
    · exact ⟨hx.ascii b hb, hx.space b hb, hx.lower b hb⟩
    · rw [List.mem_singleton.mp hb]
      decide
  have hascii : ∀ b ∈ x ++ [0x2e], b.toNat < 0x80 := fun b hb => (hlabel b hb).1
  obtain ⟨t, ht⟩ := trimSpace_append hascii (fun b hb => (hlabel b hb).2.1)
    (List.append_ne_nil_of_left_ne_nil hx.ne_nil _) domain
  have hlower := toLower_append hascii (fun b hb => (hlabel b hb).2.2) t
  have hdot : ∀ b ∈ x, (b == 0x2e) = false := by
    intro b hb
    have hnot := hx.sanitized.plain.2
    simp only [beq_eq_false_iff_ne]
    rintro rfl
    exact hnot hb
  have hidx : ∀ (l : Bytes) (r : Bytes), (∀ b ∈ l, (b == 0x2e) = false) →
      (l ++ 0x2e :: r).findIdx (· == 0x2e) = l.length := by
    intro l r hl
    induction l with
    | nil => simp [List.findIdx_cons]
    | cons b l ih =>
      rw [List.cons_append, List.findIdx_cons, hl b List.mem_cons_self,
        ih fun c hc => hl c (List.mem_cons_of_mem b hc)]
      rfl
  simp only [List.append_assoc, List.singleton_append] at ht hlower
  unfold targetFromSNI
  dsimp only
  rw [ht, hlower, hidx x _ hdot, if_pos, List.take_left, sanitize_plain hx]
  refine ⟨List.length_pos_iff.mpr hx.ne_nil, ?_⟩
  simp

end

/-- a host is routed to its first label, whatever the hint and the address are -/
theorem peerID_host {x : Bytes} (hx : PlainName x) (peer hint domain : Bytes) (g : Gathered)
    (ch : ClientHello) (hg : g.clientHello = some ch) (hname : ch.serverName = x ++ 0x2e :: domain) :
    peerID peer hint g = x := by
  have hnamed : namedID hint g = x := by
    have hsome : x ++ 0x2e :: domain ≠ [] := List.append_ne_nil_of_left_ne_nil hx.ne_nil _
    unfold namedID
    rw [hg]
    dsimp only
    rw [hname, if_pos hsome, targetFromSNI_host hx, if_pos hx.ne_nil]
  rw [peerID_named, hnamed, if_neg]
  rintro (h | h)
  · exact hx.ne_nil h
  · exact hx.known h

/-! ## runs -/

/-- what `finishPeer` gets of a peer -/
structure Finish where
  peer : Bytes
  hint : Bytes
  datagrams : List Bytes
  gathered : Gathered
  clock : Clock

/-- the name of the directory -/
def Finish.id (f : Finish) : Bytes := peerID f.peer f.hint f.gathered

/-- a call of `finishPeer`, that is logged when it fails -/
structure Call extends Finish where
  promote : Bool

/-- the lab after the call -/
def called (lab : QuicLab) (c : Call) : QuicLab :=
  match finishPeer lab c.peer c.hint c.promote c.datagrams c.gathered c.clock with
  | .ok out => out
  | .error (_, out) => out

/-- a call leaves the other directories alone, also when a write fails -/
theorem called_frame (lab : QuicLab) (c : Call) :
    (∀ name, name ≠ c.id → (called lab c).profiles name = lab.profiles name) ∧
    ∀ name, name ≠ captureID c.clock c.id → (called lab c).captures name = lab.captures name := by
  have hprof : ∀ (dir : ProfileDir) name, name ≠ c.id →
      Function.update lab.profiles c.id dir name = lab.profiles name :=
    fun dir name hn => Function.update_of_ne hn ..
  have hcap : ∀ (dir : CaptureDir) name, name ≠ captureID c.clock c.id →
      Function.update lab.captures (captureID c.clock c.id) dir name = lab.captures name :=
    fun dir name hn => Function.update_of_ne hn ..
  unfold Finish.id at hprof hcap ⊢
  unfold called finishPeer
  dsimp only
  cases writeCapture (lab.captures (captureID c.clock (peerID c.peer c.hint c.gathered))) c.datagrams
      (summaryOf c.peer (peerID c.peer c.hint c.gathered) c.clock c.datagrams c.gathered) with
  | error e => exact ⟨fun _ _ => rfl, hcap e.2⟩
  | ok cap =>
    dsimp only
    by_cases hp : c.promote = true
    · rw [if_neg (by simpa using hp)]
      cases promoteProfile (lab.profiles (peerID c.peer c.hint c.gathered))
          (peerID c.peer c.hint c.gathered) c.datagrams c.gathered
          (summaryOf c.peer (peerID c.peer c.hint c.gathered) c.clock c.datagrams c.gathered) with
      | error e => exact ⟨hprof e.2, hcap cap⟩
      | ok dir => exact ⟨hprof dir, hcap cap⟩
    · rw [if_pos (by simpa using hp)]
      exact ⟨fun _ _ => rfl, hcap cap⟩

/-- a run changes the directories of its ids only -/
theorem run_frame (lab : QuicLab) (cs : List Call) :
    (∀ name, (∀ c ∈ cs, name ≠ c.id) → (cs.foldl called lab).profiles name = lab.profiles name) ∧
    ∀ name, (∀ c ∈ cs, name ≠ captureID c.clock c.id) →
      (cs.foldl called lab).captures name = lab.captures name := by
  induction cs generalizing lab with
  | nil => exact ⟨fun _ _ => rfl, fun _ _ => rfl⟩
  | cons c cs ih =>
    obtain ⟨hprof, hcap⟩ := called_frame lab c
    obtain ⟨hprofs, hcaps⟩ := ih (called lab c)
    refine ⟨fun name hn => ?_, fun name hn => ?_⟩
    · rw [List.foldl_cons, hprofs name fun d hd => hn d (List.mem_cons_of_mem c hd),
        hprof name (hn c List.mem_cons_self)]
    · rw [List.foldl_cons, hcaps name fun d hd => hn d (List.mem_cons_of_mem c hd),
        hcap name (hn c List.mem_cons_self)]

/-- the name of a directory below a parent -/
structure Child (root name : Bytes) : Prop where
  path : Paths.join [root, name] = (locate root).child name
  plain : slash ∉ name ∧ name ≠ []

theorem child_of_plain (root : Bytes) {name : Bytes} (hne : name ≠ []) (hslash : slash ∉ name)
    (hdot : (0x2e : Byte) ∉ name) : Child root name := by
  have hname : IsName name := by
    refine ⟨hne, hslash, ?_, ?_⟩
    · rintro rfl
      exact hdot (by decide)
    · rintro rfl
      exact hdot (by decide)
  refine ⟨?_, hslash, hne⟩
  rw [← join_one root]
  exact join_child [root] hname

/-- **Gathers are confined.**  Whatever the clients send, a run of calls, failing or not, changes only
children of the two parent directories, one of each for a call; and a host whose first label is the
plain name of a target is written to the directory of that name. -/
theorem gathers_confined (lab : QuicLab) (cs : List Call) (profileDir outDir : Bytes)
    (hts : ∀ c ∈ cs, Sanitized c.clock.ts) :
    (∀ name, (cs.foldl called lab).profiles name ≠ lab.profiles name →
      ∃ c ∈ cs, name = c.id ∧ Child profileDir name) ∧
    (∀ name, (cs.foldl called lab).captures name ≠ lab.captures name →
      ∃ c ∈ cs, name = captureID c.clock c.id ∧ Child outDir name) ∧
    ∀ c ∈ cs, ∀ ch, c.gathered.clientHello = some ch → ∀ x domain, PlainName x →
      ch.serverName = x ++ 0x2e :: domain → c.id = x := by
  obtain ⟨hprof, hcap⟩ := run_frame lab cs
  have hid : ∀ c : Call, Sanitized c.id ∧ c.id ≠ [] := fun c => sanitized_peerID c.peer c.hint c.gathered
  refine ⟨fun name hch => ?_, fun name hch => ?_, fun c hc ch hg x domain hx hname => ?_⟩
  · have hex : ∃ c ∈ cs, name = c.id := by
      by_contra hnot
      exact hch (hprof name fun c hc he => hnot ⟨c, hc, he⟩)
    obtain ⟨c, hc, rfl⟩ := hex
    obtain ⟨hclean, hne⟩ := hid c
    exact ⟨c, hc, rfl, child_of_plain profileDir hne hclean.plain.1 hclean.plain.2⟩
  · have hex : ∃ c ∈ cs, name = captureID c.clock c.id := by
      by_contra hnot
      exact hch (hcap name fun c hc he => hnot ⟨c, hc, he⟩)
    obtain ⟨c, hc, rfl⟩ := hex
    have hdash : Sanitized (str "-") := by decide
    have hclean : Sanitized (captureID c.clock c.id) := ((hts c hc).append hdash).append (hid c).1
    have hne : captureID c.clock c.id ≠ [] := List.append_ne_nil_of_right_ne_nil _ (hid c).2
    exact ⟨c, hc, rfl, child_of_plain outDir hne hclean.plain.1 hclean.plain.2⟩
  · exact peerID_host hx c.peer c.hint domain c.gathered ch hg hname

/-- a client that asks for the parent directory, and one that asks for a target -/
def strayCalls : List Call :=
  [⟨⟨str "10.0.0.9:1", str "../../etc", [[1]], {}, ⟨str "20260101T120000Z", []⟩⟩, true⟩,
    ⟨⟨str "10.0.0.9:2", [], [[2]],
      { clientHello := some { serverName := str "firefox.fp.lab", raw := [] } },
      ⟨str "20260101T120001Z", []⟩⟩, true⟩]

theorem gathers_confined_stray :
    (strayCalls.map fun c => c.id) = [str "etc", str "firefox"] ∧
    ∀ name, (strayCalls.foldl called {}).profiles name ≠ ({} : QuicLab).profiles name →
      Child (str "/lab/profiles") name := by
  have hts : ∀ c ∈ strayCalls, Sanitized c.clock.ts := by decide
  obtain ⟨hprof, -, -⟩ := gathers_confined {} strayCalls (str "/lab/profiles") [] hts
  refine ⟨by decide +kernel, fun name hch => ?_⟩
  obtain ⟨-, -, -, hchild⟩ := hprof name hch
  exact hchild

end Quic
