import FingerprintLab.Capture.Bounds

/-!
# Which hellos `analyze` accepts

`analyze` refuses a hello whose body, session id or cipher list does not fit; behind the cipher list
it is tolerant: it takes what is there.

* `RawHello`         a complete ClientHello with arbitrary extension data, and its encoding;
* `Walk`             the pieces that the walk of `analyze` finds in the body it accepts;
* `Walk.Consistent`  the lengths agree: an even cipher list, and nothing is cut, clamped or left;
* `accepted_walk`    every accepted record has a walk that the result reports, and its body is a
                     complete ClientHello exactly if the walk is consistent.
-/

set_option linter.unusedVariables false

namespace Capture
open Go

/-! ## complete hellos -/

/-- an extension as the extension loop sees it -/
abbrev RawExt := UInt16 × Bytes

def encodeExt (e : RawExt) : Bytes := be16 e.1.toNat ++ vec16 e.2

/-- the top-level pieces of a ClientHello; the extensions carry any data -/
structure RawHello where
  version : UInt16
  random : Bytes
  sessionID : Bytes
  ciphers : List UInt16
  compression : Bytes
  block : Option (List RawExt)

namespace RawHello

def exts (r : RawHello) : List RawExt := r.block.getD []

def back (r : RawHello) : Bytes :=
  match r.block with
  | none => []
  | some es => vec16 (es.flatMap encodeExt)

def encode (r : RawHello) : Bytes :=
  be16 r.version.toNat ++ r.random ++ vec8 r.sessionID ++ vec16 (words r.ciphers)
    ++ vec8 r.compression ++ r.back

/-- every piece fits its length field -/
structure Fits (r : RawHello) : Prop where
  random : r.random.length = 32
  sessionID : r.sessionID.length < 256
  ciphers : 2 * r.ciphers.length < 65536
  compression : r.compression.length < 256
  data : ∀ e ∈ r.exts, e.2.length < 65536
  block : (r.exts.flatMap encodeExt).length < 65536

end RawHello

/-- The body that `analyze` delimits is one complete ClientHello, and the result lists its ciphers
and its extensions. -/
def Complete (record : Bytes) (m : Meta) : Prop :=
  ∃ recVer, ∃ r : RawHello, r.Fits ∧ helloBody record = .ok (recVer, r.encode) ∧
    m.cipherSuites = hexList16 r.ciphers ∧ m.extensions = hexList16 (r.exts.map Prod.fst)

/-! ## the walk -/

/-- What the walk finds: everything up to the length of the compression list, then the bytes behind
it, the extensions it takes and the part of the block it leaves. -/
structure Walk where
  version : UInt16
  random : Bytes
  sessionID : Bytes
  cipherBytes : Bytes
  compLen : Byte
  tail : Bytes
  exts : List RawExt
  left : Bytes

namespace Walk

def front (w : Walk) : Bytes :=
  be16 w.version.toNat ++ w.random ++ vec8 w.sessionID ++ vec16 w.cipherBytes

def body (w : Walk) : Bytes := w.front ++ w.compLen :: w.tail

/-- what is behind the compression list; nothing, if that list runs past the end -/
def behind (w : Walk) : Bytes := w.tail.drop w.compLen.toNat

/-- the declared length of the extension block -/
def blockLen (w : Walk) : Nat := (uint16 (w.behind.getD 0 0) (w.behind.getD 1 0)).toNat

/-- the extension block, clamped to the body; without a length field there is none -/
def block (w : Walk) : Bytes :=
  if w.behind.length < 2 then [] else (w.behind.drop 2).take w.blockLen

/-- no complete extension stands at the head -/
def Stuck (b : Bytes) : Prop := ∀ e : RawExt, ∀ rest, e.2.length < 65536 → b ≠ encodeExt e ++ rest

structure Valid (w : Walk) : Prop where
  random : w.random.length = 32
  sessionID : w.sessionID.length < 256
  ciphers : w.cipherBytes.length < 65536
  data : ∀ e ∈ w.exts, e.2.length < 65536
  block : w.block = w.exts.flatMap encodeExt ++ w.left
  stuck : Stuck w.left

/-- An even cipher list, a compression list inside the body, and behind it nothing or a block that
ends with the body and falls apart into extensions. -/
structure Consistent (w : Walk) : Prop where
  ciphers : w.cipherBytes.length % 2 = 0
  compression : w.compLen.toNat ≤ w.tail.length
  block : w.behind = [] ∨ w.blockLen + 2 = w.behind.length
  exts : w.left = []

end Walk

/-! ## the walk of an accepted record -/

theorem be16_inj (m n : Nat) (hm : m < 65536) (hn : n < 65536) (h : be16 m = be16 n) : m = n := by
  have h1 := uint16_be16 m hm
  have h2 := uint16_be16 n hn
  unfold be16 at h
  rw [(List.cons.inj h).1, (List.cons.inj (List.cons.inj h).2).1] at h1
  exact h1.symm.trans h2

theorem encodeExt_length (e : RawExt) : (encodeExt e).length = 4 + e.2.length := by
  simp [encodeExt]
  omega

theorem extCase_extIDs {eid : UInt16} {data : Bytes} {x x' : Exts}
    (h : extCase eid data x = .ok x') : x'.extIDs = x.extIDs := by
  have hret := extCase_returns eid data x
  rw [h] at hret
  exact hret

theorem stuck_short {b : Bytes} (h : b.length < 4) : Walk.Stuck b := by
  intro e rest _ he
  rw [he, List.length_append, encodeExt_length] at h
  omega

/-- an extension that claims more than there is -/
theorem stuck_overrun {eid el : UInt16} {b : Bytes} (h : b.length < el.toNat) :
    Walk.Stuck (be16 eid.toNat ++ (be16 el.toNat ++ b)) := by
  intro e rest hfit he
  unfold encodeExt vec16 at he
  rw [List.append_assoc, List.append_assoc] at he
  have hrest := (List.append_inj he rfl).2
  obtain ⟨hlen, hb⟩ := List.append_inj hrest rfl
  have hel := be16_inj _ _ el.toNat_lt hfit hlen
  rw [hb, List.length_append] at h
  omega

/-- The extension loop on the bytes from the index to `stop`: it takes complete extensions as long
as one stands there, by induction on the fuel. -/
theorem extLoop_ok {body : Bytes} {stop fuel i : Nat} {x x' : Exts} (hs : stop ≤ body.length)
    (h : extLoop body stop fuel i x = .ok x') :
    ∃ es : List RawExt, ∃ left, (body.drop i).take (stop - i) = es.flatMap encodeExt ++ left ∧
      Walk.Stuck left ∧ (∀ e ∈ es, e.2.length < 65536) ∧
      x'.extIDs = x.extIDs ++ es.map Prod.fst := by
  induction fuel generalizing i x with
  | zero => cases h
  | succ fuel ih =>
    unfold extLoop at h
    by_cases hi : i + 4 ≤ stop
    · rw [if_pos hi] at h
      obtain ⟨eid, heid, h⟩ := bind_ok h
      obtain ⟨el, hel, h⟩ := bind_ok h
      have hhead : (body.drop i).take (stop - i)
          = be16 eid.toNat ++ (be16 el.toNat ++ (body.drop (i + 4)).take (stop - (i + 4))) := by
        have hsplit : stop - i = 2 + (2 + (stop - (i + 4))) := by omega
        rw [(uint16At_ok heid).2, (uint16At_ok hel).2, hsplit,
          show 2 = (be16 eid.toNat).length from rfl, List.take_length_add_append,
          show (be16 eid.toNat).length = (be16 el.toNat).length from rfl,
          List.take_length_add_append]
        rfl
      by_cases hov : i + 4 + el.toNat > stop
      · -- the break: nothing more is taken
        rw [if_pos hov] at h
        refine ⟨[], _, rfl, ?_, fun e he => absurd he List.not_mem_nil, ?_⟩
        · rw [hhead]
          refine stuck_overrun ?_
          rw [List.length_take]
          omega
        · rw [← Except.ok.inj h]
          exact (List.append_nil _).symm
      · rw [if_neg hov] at h
        obtain ⟨data, hdata, h⟩ := bind_ok h
        obtain ⟨y, hy, h⟩ := bind_ok h
        obtain ⟨es, left, heq, hstuck, hfit, hids⟩ := ih h
        obtain ⟨_, hle, hdata⟩ := slice_ok hdata
        have hdlen : data.length = el.toNat := by
          rw [hdata, List.length_take, List.length_drop]
          omega
        have hcut : (body.drop (i + 4)).take (stop - (i + 4))
            = data ++ (body.drop (i + 4 + el.toNat)).take (stop - (i + 4 + el.toNat)) := by
          have hsum : stop - (i + 4) = data.length + (stop - (i + 4 + el.toNat)) := by omega
          rw [Nat.add_sub_cancel_left] at hdata
          rw [drop_cut body (i + 4) el.toNat, ← hdata, hsum, List.take_length_add_append]
        refine ⟨(eid, data) :: es, left, ?_, hstuck, ?_, ?_⟩
        · rw [hhead, hcut, heq, List.flatMap_cons]
          simp [encodeExt, vec16, hdlen]
        · intro e he
          obtain rfl | he := List.mem_cons.mp he
          · show data.length < 65536
            have := el.toNat_lt
            omega
          · exact hfit e he
        · rw [hids, extCase_extIDs hy, List.map_cons, List.append_assoc]
          rfl
    · rw [if_neg hi] at h
      refine ⟨[], _, rfl, ?_, fun e he => absurd he List.not_mem_nil, ?_⟩
      · refine stuck_short ?_
        rw [List.length_take]
        omega
      · rw [← Except.ok.inj h]
        exact (List.append_nil _).symm

theorem Walk.blockLen_eq (w : Walk) (n : Nat) (b : Bytes) (hn : n < 65536)
    (hw : w.behind = be16 n ++ b) : w.blockLen = n := by
  unfold Walk.blockLen
  rw [hw]
  exact uint16_be16 n hn

/-- the ids of the extensions, and the block as the walk cuts it -/
theorem extensions_ok {body : Bytes} {i : Nat} {x : Exts} (h : extensions body i = .ok x)
    (w : Walk) (hw : w.behind = body.drop i) :
    ∃ es : List RawExt, ∃ left, w.block = es.flatMap encodeExt ++ left ∧ Walk.Stuck left ∧
      (∀ e ∈ es, e.2.length < 65536) ∧ x.extIDs = es.map Prod.fst := by
  have hlen : w.behind.length = body.length - i := by rw [hw, List.length_drop]
  unfold extensions at h
  unfold Walk.block
  by_cases hi : i + 2 ≤ body.length
  · rw [if_pos hi] at h
    obtain ⟨extLen, hext, h⟩ := bind_ok h
    obtain ⟨es, left, heq, hstuck, hfit, hids⟩ := extLoop_ok (by omega) h
    refine ⟨es, left, ?_, hstuck, hfit, hids⟩
    have hL : w.blockLen = extLen.toNat :=
      w.blockLen_eq _ _ extLen.toNat_lt (hw.trans (uint16At_ok hext).2)
    rw [if_neg (by omega), hL, hw, List.drop_drop, ← heq, List.take_eq_take_iff, List.length_drop]
    omega
  · rw [if_neg hi] at h
    refine ⟨[], [], ?_, stuck_short (by simp), fun e he => absurd he List.not_mem_nil, ?_⟩
    · rw [if_pos (by omega)]
      rfl
    · rw [← Except.ok.inj h]
      rfl

/-- the pieces in front of the extensions -/
theorem fixedPart_ok {body : Bytes} {v : UInt16} {cs : List UInt16} {i : Nat}
    (h : fixedPart body = .ok (v, cs, i)) :
    ∃ random sessionID cipherBytes compLen tail,
      body = be16 v.toNat ++ random ++ vec8 sessionID ++ vec16 cipherBytes ++ compLen :: tail ∧
      random.length = 32 ∧ sessionID.length < 256 ∧ cipherBytes.length < 65536 ∧
      cs = wordsOf cipherBytes ∧ body.drop i = tail.drop compLen.toNat := by
  unfold fixedPart at h
  obtain ⟨ver, hver, h⟩ := bind_ok h
  obtain ⟨h34, h⟩ := guard_ok h
  obtain ⟨sidLen, hsid, h⟩ := bind_ok h
  obtain ⟨hcs, h⟩ := guard_ok h
  obtain ⟨csLen, hlen, h⟩ := bind_ok h
  obtain ⟨hfit, h⟩ := guard_ok h
  obtain ⟨ciphers, hciphers, h⟩ := bind_ok h
  obtain ⟨hcomp, h⟩ := guard_ok h
  obtain ⟨compLen, hclen, h⟩ := bind_ok h
  have hres := Except.ok.inj h
  obtain ⟨hv, hres⟩ := Prod.mk.inj hres
  obtain ⟨hc, hi⟩ := Prod.mk.inj hres
  have hl := csLen.toNat_lt
  have hs := sidLen.toNat_lt
  have e0 := (uint16At_ok hver).2
  have e1 := drop_cut body 2 32
  have e2 := (index_ok hsid).2
  have e3 := drop_cut body 35 sidLen.toNat
  have e4 := (uint16At_ok hlen).2
  have e5 := drop_cut body (35 + sidLen.toNat + 2) csLen.toNat
  have e6 := (index_ok hclen).2
  have l1 : ((body.drop 2).take 32).length = 32 := by
    rw [List.length_take, List.length_drop]
    omega
  have l3 : ((body.drop 35).take sidLen.toNat).length = sidLen.toNat := by
    rw [List.length_take, List.length_drop]
    omega
  have l5 : ((body.drop (35 + sidLen.toNat + 2)).take csLen.toNat).length = csLen.toNat := by
    rw [List.length_take, List.length_drop]
    omega
  refine ⟨_, _, _, compLen, body.drop (35 + sidLen.toNat + 2 + csLen.toNat + 1), ?_, l1,
    by rw [l3]; exact hs, by rw [l5]; exact hl, ?_, ?_⟩
  · unfold vec8 vec16
    rw [l3, l5, UInt8.ofNat_toNat, ← hv]
    calc body = body.drop 0 := rfl
      _ = be16 ver.toNat ++ body.drop 2 := e0
      _ = be16 ver.toNat ++ ((body.drop 2).take 32 ++ sidLen :: body.drop 35) := by rw [← e2, ← e1]
      _ = be16 ver.toNat ++ ((body.drop 2).take 32 ++ sidLen :: ((body.drop 35).take sidLen.toNat
          ++ (be16 csLen.toNat ++ ((body.drop (35 + sidLen.toNat + 2)).take csLen.toNat
          ++ compLen :: body.drop (35 + sidLen.toNat + 2 + csLen.toNat + 1))))) := by
        rw [← e6, ← e5, ← e4, ← e3]
      _ = _ := by simp
  · rw [← hc, uint16s_ok hciphers]
    rfl
  · rw [← hi, List.drop_drop]

theorem walk_of_analyze {record : Bytes} {m : Meta} (h : analyze record = .ok m) :
    ∃ recVer, ∃ w : Walk, helloBody record = .ok (recVer, w.body) ∧ w.Valid ∧
      m.cipherSuites = hexList16 (wordsOf w.cipherBytes) ∧
      m.extensions = hexList16 (w.exts.map Prod.fst) := by
  obtain ⟨p, hp, rfl⟩ := parse_of_analyze h
  unfold parse at hp
  obtain ⟨⟨recVer, body⟩, hbody, hp⟩ := bind_ok hp
  obtain ⟨⟨v, cs, i⟩, hfixed, hp⟩ := bind_ok hp
  obtain ⟨x, hx, hp⟩ := bind_ok hp
  obtain ⟨random, sid, cb, compLen, tail, hb, hr, hs, hc, hcs, hdrop⟩ := fixedPart_ok hfixed
  let w0 : Walk := ⟨v, random, sid, cb, compLen, tail, [], []⟩
  obtain ⟨es, left, hblock, hstuck, hfit, hids⟩ := extensions_ok hx w0 hdrop.symm
  have hpe := Except.ok.inj hp
  refine ⟨recVer, ⟨v, random, sid, cb, compLen, tail, es, left⟩, ?_,
    ⟨hr, hs, hc, hfit, hblock, hstuck⟩, ?_, ?_⟩
  · rw [hbody, hb]
    rfl
  · rw [← hpe, ← hcs]
    rfl
  · rw [← hpe, ← hids]
    rfl

/-! ## complete exactly if consistent -/

theorem vec8_append_inj {a b x y : Bytes} (ha : a.length < 256) (hb : b.length < 256)
    (h : vec8 a ++ x = vec8 b ++ y) : a = b ∧ x = y := by
  have hc := List.cons.inj h
  have hl := congrArg UInt8.toNat hc.1
  rw [UInt8.toNat_ofNat', UInt8.toNat_ofNat', Nat.mod_eq_of_lt ha, Nat.mod_eq_of_lt hb] at hl
  exact List.append_inj hc.2 hl

theorem vec16_append_inj {a b x y : Bytes} (ha : a.length < 65536) (hb : b.length < 65536)
    (h : vec16 a ++ x = vec16 b ++ y) : a = b ∧ x = y := by
  unfold vec16 at h
  rw [List.append_assoc, List.append_assoc] at h
  obtain ⟨hl, hrest⟩ := List.append_inj h rfl
  exact List.append_inj hrest (be16_inj _ _ ha hb hl)

theorem encodeExt_append_inj {e f : RawExt} {x y : Bytes} (he : e.2.length < 65536)
    (hf : f.2.length < 65536) (h : encodeExt e ++ x = encodeExt f ++ y) : x = y := by
  unfold encodeExt at h
  rw [List.append_assoc, List.append_assoc] at h
  exact (vec16_append_inj he hf (List.append_inj h rfl).2).2

/-- a run of extensions that ends where none stands is all there is -/
theorem left_of_run (es fs : List RawExt) (left : Bytes) (he : ∀ e ∈ es, e.2.length < 65536)
    (hf : ∀ e ∈ fs, e.2.length < 65536) (hs : Walk.Stuck left)
    (h : es.flatMap encodeExt = fs.flatMap encodeExt ++ left) : left = [] := by
  induction fs generalizing es with
  | nil =>
    cases es with
    | nil => exact h.symm
    | cons e es => exact absurd h.symm (hs e _ (he e List.mem_cons_self))
  | cons f fs ih =>
    cases es with
    | nil =>
      have hl := congrArg List.length h
      simp [encodeExt_length] at hl
      omega
    | cons e es =>
      rw [List.flatMap_cons, List.flatMap_cons, List.append_assoc] at h
      exact ih es (fun e' hm => he e' (List.mem_cons_of_mem _ hm))
        (fun e' hm => hf e' (List.mem_cons_of_mem _ hm))
        (encodeExt_append_inj (he e List.mem_cons_self) (hf f List.mem_cons_self) h)

theorem Walk.Valid.consistent {w : Walk} (hw : w.Valid) {r : RawHello} (hr : r.Fits)
    (h : r.encode = w.body) : w.Consistent := by
  have hwords := words_length r.ciphers
  have hlen := hr.random.trans hw.random.symm
  unfold RawHello.encode Walk.body Walk.front at h
  simp only [List.append_assoc] at h
  obtain ⟨_, h⟩ := List.append_inj h rfl
  obtain ⟨_, h⟩ := List.append_inj h hlen
  obtain ⟨_, h⟩ := vec8_append_inj hr.sessionID hw.sessionID h
  obtain ⟨hcs, h⟩ := vec16_append_inj (by rw [hwords]; exact hr.ciphers) hw.ciphers h
  obtain ⟨hc, htail⟩ := List.cons.inj h
  replace htail : r.compression ++ r.back = w.tail := htail
  have hcl : w.compLen.toNat = r.compression.length := by
    rw [← hc, UInt8.toNat_ofNat', Nat.mod_eq_of_lt hr.compression]
  have hbehind : w.behind = r.back := by
    unfold Walk.behind
    rw [← htail, hcl, List.drop_left]
  have heven : w.cipherBytes.length % 2 = 0 := by
    rw [← hcs, hwords]
    omega
  have hcomp : w.compLen.toNat ≤ w.tail.length := by
    rw [← htail, hcl, List.length_append]
    omega
  cases hk : r.block with
  | none =>
    have hnil : w.behind = [] := by rw [hbehind, RawHello.back, hk]
    have hblock := hw.block
    unfold Walk.block at hblock
    rw [if_pos (by rw [hnil]; exact Nat.zero_lt_two)] at hblock
    exact ⟨heven, hcomp, Or.inl hnil, (List.append_eq_nil_iff.mp hblock.symm).2⟩
  | some es =>
    have hes : r.exts = es := by rw [RawHello.exts, hk]; rfl
    have hfit := hr.block
    rw [hes] at hfit
    have hback : w.behind = be16 (es.flatMap encodeExt).length ++ es.flatMap encodeExt := by
      rw [hbehind, RawHello.back, hk]
      rfl
    have hL := w.blockLen_eq _ _ hfit hback
    have hbl : w.behind.length = 2 + (es.flatMap encodeExt).length := by
      rw [hback, List.length_append, be16_length]
    have hblock := hw.block
    unfold Walk.block at hblock
    rw [if_neg (by omega), hL, hback] at hblock
    have hrun : es.flatMap encodeExt = w.exts.flatMap encodeExt ++ w.left := by
      rw [← hblock]
      exact (List.take_length).symm
    exact ⟨heven, hcomp, Or.inr (by omega),
      left_of_run es w.exts w.left (fun e hm => hr.data e (hes ▸ hm)) hw.data hw.stuck hrun⟩

/-- the complete hello that a consistent walk has taken apart -/
def Walk.hello (w : Walk) : RawHello where
  version := w.version
  random := w.random
  sessionID := w.sessionID
  ciphers := wordsOf w.cipherBytes
  compression := w.tail.take w.compLen.toNat
  block := if w.behind = [] then none else some w.exts

namespace Walk
variable {w : Walk} (hw : w.Valid) (hc : w.Consistent)
include hw hc

theorem hello_exts : w.hello.exts = w.exts := by
  by_cases hb : w.behind = []
  · have hblock := hw.block
    unfold Walk.block at hblock
    rw [if_pos (by rw [hb]; exact Nat.zero_lt_two), hc.exts, List.append_nil] at hblock
    have hnil : w.exts = [] := by
      cases he : w.exts with
      | nil => rfl
      | cons e es =>
        rw [he] at hblock
        have hl := congrArg List.length hblock
        simp [encodeExt_length] at hl
        omega
    unfold RawHello.exts hello
    rw [if_pos hb, hnil]
    rfl
  · unfold RawHello.exts hello
    rw [if_neg hb]
    rfl

/-- the block ends with the body, so nothing is lost of what is behind -/
theorem hello_back : w.hello.back = w.behind := by
  unfold RawHello.back hello
  by_cases hb : w.behind = []
  · rw [if_pos hb, hb]
  · have hlen := hc.block.resolve_left hb
    have hblock := hw.block
    unfold Walk.block at hblock
    rw [if_neg (by omega), hc.exts, List.append_nil,
      List.take_of_length_le (by rw [List.length_drop]; omega)] at hblock
    have hdl : (w.behind.drop 2).length = w.blockLen := by
      rw [List.length_drop]
      omega
    rw [if_neg hb]
    show vec16 (w.exts.flatMap encodeExt) = w.behind
    rw [← hblock]
    unfold vec16
    rw [hdl]
    unfold blockLen
    rw [be16_uint16]
    cases hbe : w.behind with
    | nil => exact absurd hbe hb
    | cons x b =>
      cases b with
      | nil => rw [hbe, List.length_singleton] at hlen; omega
      | cons y b => rfl

theorem hello_fits : w.hello.Fits := by
  have hl := hc.compression
  have hn := w.compLen.toNat_lt
  have heven := hc.ciphers
  have hcl := hw.ciphers
  have hwords := words_length (wordsOf w.cipherBytes)
  rw [words_wordsOf (w.cipherBytes.length / 2) _ (by omega)] at hwords
  refine ⟨hw.random, hw.sessionID, ?_, ?_, ?_, ?_⟩
  · show 2 * (wordsOf w.cipherBytes).length < 65536
    omega
  · show (w.tail.take w.compLen.toNat).length < 256
    rw [List.length_take]
    omega
  · rw [hello_exts hw hc]
    exact hw.data
  · rw [hello_exts hw hc]
    have hblock := hw.block
    rw [hc.exts, List.append_nil] at hblock
    rw [← hblock]
    unfold Walk.block blockLen
    split
    · exact Nat.zero_lt_succ _
    · have hL := (uint16 (w.behind.getD 0 0) (w.behind.getD 1 0)).toNat_lt
      rw [List.length_take]
      omega

theorem hello_encode : w.hello.encode = w.body := by
  have heven := hc.ciphers
  have hl := hc.compression
  have hwords : words (wordsOf w.cipherBytes) = w.cipherBytes :=
    words_wordsOf (w.cipherBytes.length / 2) _ (by omega)
  have htl : (w.tail.take w.compLen.toNat).length = w.compLen.toNat := by
    rw [List.length_take]
    omega
  have hcomp : vec8 (w.tail.take w.compLen.toNat) ++ w.behind = w.compLen :: w.tail := by
    unfold vec8
    rw [htl, UInt8.ofNat_toNat, List.cons_append]
    unfold behind
    rw [List.take_append_drop]
  unfold RawHello.encode
  rw [hello_back hw hc]
  show be16 w.version.toNat ++ w.random ++ vec8 w.sessionID
    ++ vec16 (words (wordsOf w.cipherBytes)) ++ vec8 (w.tail.take w.compLen.toNat) ++ w.behind = _
  rw [hwords, List.append_assoc, hcomp]
  rfl

end Walk

/-- **Accepted hellos.**  The walk of an accepted record covers its body, and the result lists what
the walk has found: the whole words of the cipher list, and the extensions that stand completely at
the front of the extension block, which is clamped to the body.  The body is one complete
ClientHello exactly if the walk is consistent. -/
theorem accepted_walk (record : Bytes) (m : Meta) (h : analyze record = .ok m) :
    ∃ recVer, ∃ w : Walk, helloBody record = .ok (recVer, w.body) ∧ w.Valid ∧
      m.cipherSuites = hexList16 (wordsOf w.cipherBytes) ∧
      m.extensions = hexList16 (w.exts.map Prod.fst) ∧
      (Complete record m ↔ w.Consistent) := by
  obtain ⟨recVer, w, hbody, hw, hcs, hes⟩ := walk_of_analyze h
  refine ⟨recVer, w, hbody, hw, hcs, hes, ?_, fun hc => ?_⟩
  · rintro ⟨recVer', r, hr, hr', _, _⟩
    have he := Except.ok.inj (hr'.symm.trans hbody)
    exact hw.consistent hr (Prod.mk.inj he).2
  · refine ⟨recVer, w.hello, Walk.hello_fits hw hc, ?_, hcs, ?_⟩
    · rw [Walk.hello_encode hw hc]
      exact hbody
    · rw [Walk.hello_exts hw hc]
      exact hes

/-- The extension block announces 32 bytes and the body ends after nine of them, in the middle of
the ALPN extension. -/
def cutWalk : Walk where
  version := 0x0303
  random := List.replicate 32 7
  sessionID := []
  cipherBytes := [0x13, 0x01]
  compLen := 1
  tail := [0, 0x00, 0x20, 0x00, 0x17, 0x00, 0x00, 0x00, 0x10, 0x00, 0x0e, 0x00]
  exts := [(0x0017, [])]
  left := [0x00, 0x10, 0x00, 0x0e, 0x00]

def cutRecord : Bytes :=
  [0x16, 0x03, 0x01] ++ vec16 ([0x01] ++ be24 cutWalk.body.length ++ cutWalk.body)

def cutParsed : Parsed where
  recVer := 0x0301
  helloVer := 0x0303
  ciphers := [0x1301]
  exts := { extIDs := [0x0017] }

theorem cut_accepted : analyze cutRecord = .ok cutParsed.meta := by
  refine analyze_of_parse ?_
  decide +kernel

theorem cutWalk_valid : cutWalk.Valid := by
  refine ⟨rfl, by decide, by decide, ?_, rfl, ?_⟩
  · intro e he
    rw [List.mem_singleton.mp he]
    decide
  · have hs : Walk.Stuck (be16 (0x0010 : UInt16).toNat ++ (be16 (0x000e : UInt16).toNat ++ [0x00])) :=
      stuck_overrun (by decide)
    exact hs

theorem accepted_walk_cut : ∃ recVer, ∃ w : Walk, helloBody cutRecord = .ok (recVer, w.body) ∧
    w.Valid ∧ cutParsed.meta.extensions = hexList16 (w.exts.map Prod.fst) ∧
    (Complete cutRecord cutParsed.meta ↔ w.Consistent) := by
  obtain ⟨recVer, w, hbody, hw, _, hes, hiff⟩ := accepted_walk cutRecord _ cut_accepted
  exact ⟨recVer, w, hbody, hw, hes, hiff⟩

/-- A truncated hello is accepted, and its first extension is reported as if it were the only one. -/
theorem incomplete_accepted : ∃ m, analyze cutRecord = .ok m ∧ m.extensions = [str "0x0017"] ∧
    ¬ Complete cutRecord m := by
  refine ⟨_, cut_accepted, by decide +kernel, ?_⟩
  rintro ⟨recVer, r, hr, hbody, _, _⟩
  have hcut : helloBody cutRecord = .ok (0x0301, cutWalk.body) := by decide +kernel
  have he := Except.ok.inj (hbody.symm.trans hcut)
  have hc := (cutWalk_valid.consistent hr (Prod.mk.inj he).2).exts
  cases hc

end Capture
