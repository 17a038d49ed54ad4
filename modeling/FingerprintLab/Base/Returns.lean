import FingerprintLab.Base.Slice

/-!
# Calls that return

* `Returns Q r`      the Go call `r` returns: either a value that satisfies `Q`, or an error of its
                     own.  It does not fault, and no loop of it runs out of fuel.  There is one rule
                     for each way to put a computation together, and one for each access to a byte
                     slice;
* `index_ok`, ...    what is known of the bytes behind the index once an access has succeeded;
* `wordsOf`          the whole 16-bit words of a byte string, as `uint16s` reads them.
-/

set_option linter.unusedVariables false

namespace Go

def Returns {α : Type} (Q : α → Prop) : Res α → Prop
  | .ok a => Q a
  | .error (.error _) => True
  | .error _ => False

/-- a value or an error text -/
theorem returns_iff {α : Type} {Q : α → Prop} {r : Res α} :
    Returns Q r ↔ (∃ a, r = .ok a ∧ Q a) ∨ ∃ msg, r = .error (.error msg) := by
  cases r with
  | ok a => simp [Returns]
  | error f => cases f <;> simp [Returns]

section
variable {α β : Type} {P : β → Prop} {Q R : α → Prop}

theorem returns_ok {a : α} (h : Q a) : Returns Q (.ok a) := h

theorem returns_fail (msg : String) : Returns Q (fail msg) := trivial

theorem returns_mono {r : Res α} (hr : Returns R r) (h : ∀ a, R a → Q a) : Returns Q r := by
  cases r with
  | ok a => exact h a hr
  | error f => cases f <;> exact hr

theorem returns_bind {x : Res β} {f : β → Res α} (hx : Returns P x)
    (hf : ∀ b, P b → Returns Q (f b)) : Returns Q (x >>= f) := by
  cases x with
  | ok b => exact hf b hx
  | error e => cases e <;> exact hx

theorem returns_ite {c : Prop} [Decidable c] {x y : Res α} (hx : c → Returns Q x)
    (hy : ¬c → Returns Q y) : Returns Q (if c then x else y) := by
  by_cases hc : c
  · rw [if_pos hc]
    exact hx hc
  · rw [if_neg hc]
    exact hy hc

end

/-! ## accesses in range -/

theorem index_returns {b : Bytes} {i : Nat} (h : i < b.length) :
    Returns (fun x => x = b[i]) (index b i) := by
  unfold index
  rw [List.getElem?_eq_getElem h]
  exact returns_ok rfl

theorem slice_returns {b : Bytes} {i j : Nat} (hi : i ≤ j) (hj : j ≤ b.length) :
    Returns (fun s => s = (b.drop i).take (j - i) ∧ s.length = j - i) (slice b i j) := by
  unfold slice
  rw [if_pos ⟨hi, hj⟩]
  refine returns_ok ⟨rfl, ?_⟩
  rw [List.length_take, List.length_drop]
  omega

theorem uint16At_returns {b : Bytes} {i : Nat} (h : i + 2 ≤ b.length) :
    Returns (fun _ => True) (uint16At b i) := by
  unfold uint16At
  refine returns_bind (slice_returns (by omega) h) fun s hs => ?_
  refine returns_bind (index_returns (by omega)) fun hi _ => ?_
  exact returns_bind (index_returns (by omega)) fun lo _ => returns_ok trivial

/-- The word loop: it stays in range as long as its limit does, and two bytes a turn bring it to
the limit. -/
theorem uint16s_returns {b : Bytes} {off lim : Nat} (hb : off + lim ≤ b.length) (fuel j : Nat)
    (h0 : 0 < fuel) (hf : lim < j + 2 * fuel) :
    Returns (fun _ => True) (uint16s b off lim fuel j) := by
  induction fuel generalizing j with
  | zero => omega
  | succ fuel ih =>
    unfold uint16s
    refine returns_ite (fun hj => ?_) fun _ => returns_ok trivial
    refine returns_bind (uint16At_returns (by omega)) fun v _ => ?_
    exact returns_bind (ih (j + 2) (by omega) (by omega)) fun vs _ => returns_ok trivial

/-! ## what a successful access says -/

theorem bind_ok {α β : Type} {x : Res β} {f : β → Res α} {a : α} (h : (x >>= f) = .ok a) :
    ∃ b, x = .ok b ∧ f b = .ok a := by
  cases x with
  | ok b => exact ⟨b, rfl, h⟩
  | error e => cases h

/-- behind a check that ends in an error text -/
theorem guard_ok {α : Type} {c : Prop} [Decidable c] {msg : String} {x : Res α} {a : α}
    (h : (if c then fail msg else x) = .ok a) : ¬c ∧ x = .ok a := by
  by_cases hc : c
  · rw [if_pos hc] at h
    cases h
  · rw [if_neg hc] at h
    exact ⟨hc, h⟩

theorem index_ok {b : Bytes} {i : Nat} {x : Byte} (h : index b i = .ok x) :
    i < b.length ∧ b.drop i = x :: b.drop (i + 1) := by
  unfold index at h
  cases hx : b[i]? with
  | none => rw [hx] at h; cases h
  | some y =>
    rw [hx] at h
    obtain ⟨hi, hy⟩ := List.getElem?_eq_some_iff.mp hx
    refine ⟨hi, ?_⟩
    rw [List.drop_eq_getElem_cons hi, hy, Except.ok.inj h]

theorem slice_ok {b s : Bytes} {i j : Nat} (h : slice b i j = .ok s) :
    i ≤ j ∧ j ≤ b.length ∧ s = (b.drop i).take (j - i) := by
  unfold slice at h
  split at h
  · rename_i hij
    exact ⟨hij.1, hij.2, (Except.ok.inj h).symm⟩
  · cases h

/-- the bytes behind an index, cut once more -/
theorem drop_cut (b : Bytes) (i n : Nat) : b.drop i = (b.drop i).take n ++ b.drop (i + n) := by
  rw [← List.drop_drop, List.take_append_drop]

theorem be16_uint16 (hi lo : Byte) : be16 (uint16 hi lo).toNat = [hi, lo] := by
  have h1 := hi.toNat_lt
  have h2 := lo.toNat_lt
  have hv : (uint16 hi lo).toNat = hi.toNat * 256 + lo.toNat := by
    unfold uint16
    rw [UInt16.toNat_ofNat', Nat.mod_eq_of_lt (by omega)]
  have e1 : (UInt8.ofNat ((uint16 hi lo).toNat / 256)).toNat = hi.toNat := by
    rw [hv, UInt8.toNat_ofNat']
    omega
  have e2 : (UInt8.ofNat (uint16 hi lo).toNat).toNat = lo.toNat := by
    rw [hv, UInt8.toNat_ofNat']
    omega
  unfold be16
  rw [UInt8.toNat_inj.mp e1, UInt8.toNat_inj.mp e2]

theorem uint16At_ok {b : Bytes} {i : Nat} {v : UInt16} (h : uint16At b i = .ok v) :
    i + 2 ≤ b.length ∧ b.drop i = be16 v.toNat ++ b.drop (i + 2) := by
  unfold uint16At at h
  obtain ⟨s, hs, h⟩ := bind_ok h
  obtain ⟨hi, hhi, h⟩ := bind_ok h
  obtain ⟨lo, hlo, h⟩ := bind_ok h
  obtain ⟨_, hlen, hs⟩ := slice_ok hs
  have h0 := (index_ok hhi).2
  have h1 := (index_ok hlo).2
  have hl : s.length = 2 := by
    rw [hs, List.length_take, List.length_drop]
    omega
  have hpair : s = [hi, lo] := by
    rw [List.drop_zero] at h0
    rw [h0, h1, List.drop_eq_nil_of_le (by omega)]
  refine ⟨hlen, ?_⟩
  rw [← Except.ok.inj h, be16_uint16, ← hpair, hs, Nat.add_sub_cancel_left]
  exact drop_cut b i 2

def wordsOf : Bytes → List UInt16
  | hi :: lo :: b => uint16 hi lo :: wordsOf b
  | _ => []

theorem wordsOf_short (b : Bytes) (h : b.length < 2) : wordsOf b = [] := by
  cases b with
  | nil => rfl
  | cons x b =>
    cases b with
    | nil => rfl
    | cons y b =>
      rw [List.length_cons, List.length_cons] at h
      omega

theorem wordsOf_word (v : UInt16) (b : Bytes) : wordsOf (be16 v.toNat ++ b) = v :: wordsOf b := by
  have hv : uint16 (UInt8.ofNat (v.toNat / 256)) (UInt8.ofNat v.toNat) = v :=
    UInt16.toNat_inj.mp (uint16_be16 v.toNat v.toNat_lt)
  show uint16 _ _ :: wordsOf b = _
  rw [hv]

/-- of an even number of bytes nothing is lost -/
theorem words_wordsOf (n : Nat) (b : Bytes) (h : b.length = 2 * n) : words (wordsOf b) = b := by
  induction n generalizing b with
  | zero =>
    rw [List.length_eq_zero_iff.mp h]
    rfl
  | succ n ih =>
    cases b with
    | nil => rfl
    | cons hi b =>
      cases b with
      | nil => rw [List.length_singleton] at h; omega
      | cons lo b =>
        show words (uint16 hi lo :: wordsOf b) = _
        rw [List.length_cons, List.length_cons] at h
        rw [words_cons, be16_uint16, ih b (by omega)]
        rfl

theorem uint16s_ok {b : Bytes} {off lim fuel j : Nat} {vs : List UInt16}
    (h : uint16s b off lim fuel j = .ok vs) :
    vs = wordsOf ((b.drop (off + j)).take (lim - j)) := by
  induction fuel generalizing j vs with
  | zero => cases h
  | succ fuel ih =>
    unfold uint16s at h
    by_cases hj : j + 2 ≤ lim
    · rw [if_pos hj] at h
      obtain ⟨v, hv, h⟩ := bind_ok h
      obtain ⟨ws, hws, h⟩ := bind_ok h
      have hpair : lim - j = (be16 v.toNat).length + (lim - (j + 2)) := by
        rw [be16_length]
        omega
      rw [(uint16At_ok hv).2, hpair, List.take_length_add_append, wordsOf_word, Nat.add_assoc,
        ← ih hws]
      exact (Except.ok.inj h).symm
    · rw [if_neg hj] at h
      rw [wordsOf_short _ (by rw [List.length_take]; omega)]
      exact (Except.ok.inj h).symm

end Go
