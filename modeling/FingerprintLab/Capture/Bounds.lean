import FingerprintLab.Base.Returns
import FingerprintLab.Capture.Analyze

/-!
# `analyze` returns for every byte sequence

Every access of `parse` is in range and every loop ends, whatever the record's lengths claim
(`parse_returns`).  `buildJA4` and `sanitizeALPN` are given a second time with the index and slice
expressions of the source, which the definitions in `Analyze` and `Helpers` have as total functions;
the two renderings agree (`analyzeChecked_eq`).
-/

set_option linter.unusedVariables false

namespace Capture
open Go

/-! ## the walk -/

theorem helloBody_returns (record : Bytes) :
    Returns (fun r => 34 ≤ r.2.length) (helloBody record) := by
  unfold helloBody
  refine returns_ite (fun _ => returns_fail _) fun h5 => ?_
  refine returns_bind (uint16At_returns (by omega)) fun recVer _ => ?_
  refine returns_bind (slice_returns (by omega) le_rfl) fun hs hhs => ?_
  refine returns_ite (fun _ => returns_fail _) fun h4 => ?_
  refine returns_bind (index_returns (by omega)) fun typ _ => ?_
  refine returns_ite (fun _ => returns_fail _) fun _ => ?_
  refine returns_bind (index_returns (by omega)) fun b1 _ => ?_
  refine returns_bind (index_returns (by omega)) fun b2 _ => ?_
  refine returns_bind (index_returns (by omega)) fun b3 _ => ?_
  refine returns_bind (slice_returns (by omega) le_rfl) fun body hbody => ?_
  refine returns_ite (fun _ => returns_fail _) fun hlen => ?_
  refine returns_bind (slice_returns (by omega) (by omega)) fun body hbody => ?_
  refine returns_ite (fun _ => returns_fail _) fun h34 => ?_
  exact returns_ok (not_lt.mp h34)

theorem fixedPart_returns {body : Bytes} (hb : 34 ≤ body.length) :
    Returns (fun _ => True) (fixedPart body) := by
  unfold fixedPart
  refine returns_bind (uint16At_returns (by omega)) fun helloVer _ => ?_
  refine returns_ite (fun _ => returns_fail _) fun hsid => ?_
  refine returns_bind (index_returns (by omega)) fun sidLen _ => ?_
  refine returns_ite (fun _ => returns_fail _) fun hcs => ?_
  refine returns_bind (uint16At_returns (by omega)) fun csLen _ => ?_
  refine returns_ite (fun _ => returns_fail _) fun hlen => ?_
  refine returns_bind (uint16s_returns (by omega) _ _ (by omega) (by omega)) fun ciphers _ => ?_
  refine returns_ite (fun _ => returns_fail _) fun hcomp => ?_
  exact returns_bind (index_returns (by omega)) fun compLen _ => returns_ok trivial

theorem uint16List_returns (data : Bytes) : Returns (fun _ => True) (uint16List data) := by
  unfold uint16List
  refine returns_ite (fun h2 => ?_) fun _ => returns_ok trivial
  refine returns_bind (uint16At_returns (by omega)) fun ll _ => ?_
  exact uint16s_returns (by omega) _ _ (by omega) (by omega)

theorem versionList_returns (data : Bytes) : Returns (fun _ => True) (versionList data) := by
  unfold versionList
  refine returns_ite (fun h1 => ?_) fun _ => returns_ok trivial
  refine returns_bind (index_returns (by omega)) fun ll _ => ?_
  exact uint16s_returns (by omega) _ _ (by omega) (by omega)

/-- each name takes a length byte at least -/
theorem alpnLoop_returns (data : Bytes) (lim fuel j : Nat) (h0 : 0 < fuel)
    (hf : data.length < j + fuel) : Returns (fun _ => True) (alpnLoop data lim fuel j) := by
  induction fuel generalizing j with
  | zero => omega
  | succ fuel ih =>
    unfold alpnLoop
    refine returns_ite (fun hj => ?_) fun _ => returns_ok trivial
    refine returns_bind (index_returns hj.2) fun n _ => ?_
    refine returns_ite (fun _ => returns_ok trivial) fun hn => ?_
    refine returns_bind (slice_returns (by omega) (by omega)) fun name _ => ?_
    exact returns_bind (ih _ (by omega) (by omega)) fun names _ => returns_ok trivial

theorem alpnList_returns (data : Bytes) : Returns (fun _ => True) (alpnList data) := by
  unfold alpnList
  refine returns_ite (fun h2 => ?_) fun _ => returns_ok trivial
  refine returns_bind (uint16At_returns (by omega)) fun ll _ => ?_
  exact alpnLoop_returns data _ _ _ (by omega) (by omega)

theorem serverName_returns (data sni : Bytes) :
    Returns (fun _ => True) (serverName data sni) := by
  unfold serverName
  refine returns_ite (fun h5 => ?_) fun _ => returns_ok trivial
  refine returns_bind (uint16At_returns (by omega)) fun n _ => ?_
  refine returns_ite (fun hn => ?_) fun _ => returns_ok trivial
  exact returns_mono (slice_returns (by omega) hn) fun _ _ => trivial

/-- the switch leaves the ids alone -/
theorem extCase_returns (eid : UInt16) (data : Bytes) (x : Exts) :
    Returns (fun x' => x'.extIDs = x.extIDs) (extCase eid data x) := by
  unfold extCase
  refine returns_ite (fun _ => ?_) fun _ => returns_ite (fun _ => ?_) fun _ =>
    returns_ite (fun _ => ?_) fun _ => returns_ite (fun _ => ?_) fun _ =>
    returns_ite (fun _ => ?_) fun _ => returns_ok rfl
  · exact returns_bind (serverName_returns data x.sni) fun _ _ => returns_ok rfl
  · exact returns_bind (uint16List_returns data) fun _ _ => returns_ok rfl
  · exact returns_bind (uint16List_returns data) fun _ _ => returns_ok rfl
  · exact returns_bind (alpnList_returns data) fun _ _ => returns_ok rfl
  · exact returns_bind (versionList_returns data) fun _ _ => returns_ok rfl

/-- each extension takes its four bytes of id and length at least -/
theorem extLoop_returns (body : Bytes) (stop : Nat) (hs : stop ≤ body.length) (fuel i : Nat)
    (x : Exts) (h0 : 0 < fuel) (hf : stop < i + 4 * fuel) :
    Returns (fun _ => True) (extLoop body stop fuel i x) := by
  induction fuel generalizing i x with
  | zero => omega
  | succ fuel ih =>
    unfold extLoop
    refine returns_ite (fun hi => ?_) fun _ => returns_ok trivial
    refine returns_bind (uint16At_returns (by omega)) fun eid _ => ?_
    refine returns_bind (uint16At_returns (by omega)) fun el _ => ?_
    refine returns_ite (fun _ => returns_ok trivial) fun hel => ?_
    refine returns_bind (slice_returns (by omega) (by omega)) fun data _ => ?_
    refine returns_bind (extCase_returns eid data _) fun x' _ => ?_
    exact ih _ _ (by omega) (by omega)

/-- the index may have run past the end -/
theorem extensions_returns (body : Bytes) (i : Nat) :
    Returns (fun _ => True) (extensions body i) := by
  unfold extensions
  refine returns_ite (fun hi => ?_) fun _ => returns_ok trivial
  refine returns_bind (uint16At_returns hi) fun extLen _ => ?_
  exact extLoop_returns body _ (by omega) _ _ _ (by omega) (by omega)

theorem parse_returns (record : Bytes) : Returns (fun _ => True) (parse record) := by
  unfold parse
  refine returns_bind (helloBody_returns record) fun r hr => ?_
  refine returns_bind (fixedPart_returns hr) fun f _ => ?_
  exact returns_bind (extensions_returns r.2 f.2.2) fun exts _ => returns_ok trivial

/-! ## the index expressions of `buildJA4` -/

/-- `alpn[i]` -/
def nameAt (alpn : List Bytes) (i : Nat) : Res Bytes :=
  match alpn[i]? with
  | some a => .ok a
  | none => .error .panic

/-- `for b.Len() < 2 { b.WriteByte('0') }` -/
def padLoop : Nat → Bytes → Res Bytes
  | 0, _ => .error .loop
  | fuel+1, b => if b.length < 2 then padLoop fuel (b ++ [0x30]) else .ok b

def sanitizeALPNChecked (s : Bytes) : Res Bytes := do
  let b ← padLoop 3 ((runes s).map alpnRune)
  slice b 0 2

def alpnFirstChecked (alpn : List Bytes) : Res Bytes :=
  if alpn.length > 0 then do
    let a ← nameAt alpn 0
    if a.length > 0 then
      if a.length = 1 then do
        let c ← index a 0
        sanitizeALPNChecked (encodeRune c.toNat ++ str "0")
      else do
        let c ← index a 0
        let d ← index a (a.length - 1)
        sanitizeALPNChecked (encodeRune c.toNat ++ encodeRune d.toNat)
    else return str "00"
  else return str "00"

def sha12Checked (s : Bytes) : Res Bytes := slice (hexEncode (sha256 s)) 0 12

def buildJA4Checked (supportedVersions : List UInt16) (helloVer : UInt16) (hasSNI : Bool)
    (ciphers exts sigs : List UInt16) (alpn : List Bytes) : Res Bytes := do
  let first ← alpnFirstChecked alpn
  let a := str "t" ++ verStr (ja4Version supportedVersions helloVer)
    ++ (if hasSNI then str "d" else str "i")
    ++ dec02 (min (clean ciphers).length 99) ++ dec02 (min (eClean exts).length 99) ++ first
  let b ← sha12Checked (bSrc ciphers)
  let c ← sha12Checked (cSrc exts sigs)
  return a ++ str "_" ++ b ++ str "_" ++ c

def analyzeChecked (record : Bytes) : Res Meta := do
  let p ← parse record
  let ja4 ← buildJA4Checked p.exts.versions p.helloVer (p.exts.sni != []) p.ciphers p.exts.extIDs
    p.exts.sigs p.exts.alpn
  return { p.meta with ja4 := ja4 }

theorem padLoop_eq (fuel : Nat) (b : Bytes) (h0 : 0 < fuel) (hf : 2 < b.length + fuel) :
    padLoop fuel b = .ok (b ++ List.replicate (2 - b.length) 0x30) := by
  induction fuel generalizing b with
  | zero => omega
  | succ fuel ih =>
    unfold padLoop
    by_cases hb : b.length < 2
    · have hlen : (b ++ [(0x30 : Byte)]).length = b.length + 1 := by simp
      have hsucc : 2 - b.length = (2 - (b.length + 1)) + 1 := by omega
      rw [if_pos hb, ih _ (by omega) (by omega), hlen, hsucc, List.replicate_succ, List.append_assoc]
      rfl
    · rw [if_neg hb, show 2 - b.length = 0 by omega]
      simp

theorem sanitizeALPNChecked_eq (s : Bytes) : sanitizeALPNChecked s = .ok (sanitizeALPN s) := by
  unfold sanitizeALPNChecked
  rw [padLoop_eq _ _ (by omega) (by omega), ok_bind]
  unfold slice
  rw [if_pos]
  · rfl
  · rw [List.length_append, List.length_replicate]
    omega

theorem alpnFirstChecked_eq (alpn : List Bytes) : alpnFirstChecked alpn = .ok (alpnFirst alpn) := by
  cases alpn with
  | nil => rfl
  | cons a rest =>
    cases a with
    | nil => rfl
    | cons c a =>
      cases a with
      | nil => exact sanitizeALPNChecked_eq _
      | cons d a =>
        have hlast : index (c :: d :: a) ((c :: d :: a).length - 1)
            = .ok ((d :: a).getLastD d) := by
          unfold index
          rw [← List.getLast?_eq_getElem?]
          rw [List.getLast?_cons_cons, List.getLastD_eq_getLast?]
          rw [List.getLast?_eq_getLast_of_ne_nil (List.cons_ne_nil d a)]
          rfl
        show (do
          let e ← index (c :: d :: a) ((c :: d :: a).length - 1)
          sanitizeALPNChecked (encodeRune c.toNat ++ encodeRune e.toNat)) = _
        rw [hlast, ok_bind]
        exact sanitizeALPNChecked_eq _

theorem sha12Checked_eq (s : Bytes) : sha12Checked s = .ok (sha12 s) := by
  unfold sha12Checked slice
  rw [if_pos]
  · rfl
  · rw [hexEncode_length, sha256_length]
    omega

/-- no index or slice expression of `buildJA4` faults -/
theorem analyzeChecked_eq (record : Bytes) : analyzeChecked record = analyze record := by
  unfold analyzeChecked analyze
  congr 1
  funext p
  unfold buildJA4Checked
  rw [alpnFirstChecked_eq, sha12Checked_eq, sha12Checked_eq]
  rfl

/-- **`analyze` returns**: on every byte sequence it ends without a fault, with a `Meta` or with an
error. -/
theorem analyze_returns (record : Bytes) : analyzeChecked record = analyze record ∧
    ((∃ m, analyzeChecked record = .ok m) ∨
      ∃ msg, analyzeChecked record = .error (.error msg)) := by
  refine ⟨analyzeChecked_eq record, ?_⟩
  have hret : Returns (fun _ => True) (analyze record) :=
    returns_bind (parse_returns record) fun p _ => returns_ok trivial
  rw [← analyzeChecked_eq record] at hret
  obtain ⟨m, hm, _⟩ | herr := returns_iff.mp hret
  · exact Or.inl ⟨m, hm⟩
  · exact Or.inr herr

end Capture
