import FingerprintLab.Base.Str

/-!
# Slices, faults and length-prefixed vectors

`Res α` is the result of a Go function `(α, error)` together with the two ways in which it may not
return at all: an index out of range (`panic`) and a loop that used up its fuel (`loop`).

* `index`, `slice`, `uint16At`    `b[i]`, `b[i:j]` and `binary.BigEndian.Uint16(b[i:i+2])`;
* `be16`, `vec8`, `vec16`         a 16-bit word, and vectors with a one- and a two-byte length;
* `uint16s`                       the loop that reads 16-bit words up to a limit; on the encoding
                                  of a list it returns the list (`uint16s_words`).
-/

set_option linter.unusedVariables false

namespace Go

inductive Fault where
  | error (msg : String)
  | panic
  | loop
  deriving DecidableEq, Repr

abbrev Res (α : Type) := Except Fault α

def fail {α : Type} (msg : String) : Res α := .error (.error msg)

@[simp] theorem ok_bind {α β : Type} (a : α) (f : α → Res β) : (Except.ok a >>= f) = f a := rfl
@[simp] theorem pure_eq_ok {α : Type} (a : α) : (pure a : Res α) = .ok a := rfl

def index (b : Bytes) (i : Nat) : Res Byte :=
  match b[i]? with
  | some x => .ok x
  | none => .error .panic

def slice (b : Bytes) (i j : Nat) : Res Bytes :=
  if i ≤ j ∧ j ≤ b.length then .ok ((b.drop i).take (j - i)) else .error .panic

def uint16 (hi lo : Byte) : UInt16 := UInt16.ofNat (hi.toNat * 256 + lo.toNat)

def uint16At (b : Bytes) (i : Nat) : Res UInt16 := do
  let s ← slice b i (i + 2)
  let hi ← index s 0
  let lo ← index s 1
  return uint16 hi lo

/-- the words at `off + j`, `off + j + 2`, ... while a whole word ends at `lim` or before -/
def uint16s (b : Bytes) (off lim : Nat) : Nat → Nat → Res (List UInt16)
  | 0, _ => .error .loop
  | fuel+1, j =>
    if j + 2 ≤ lim then do
      let v ← uint16At b (off + j)
      let vs ← uint16s b off lim fuel (j + 2)
      return v :: vs
    else .ok []

/-! ## encoding -/

def be16 (n : Nat) : Bytes := [UInt8.ofNat (n / 256), UInt8.ofNat n]
def be24 (n : Nat) : Bytes := UInt8.ofNat (n / 65536) :: be16 n
def words (vs : List UInt16) : Bytes := vs.flatMap fun v => be16 v.toNat

/-- `opaque<0..2^8-1>` -/
def vec8 (b : Bytes) : Bytes := UInt8.ofNat b.length :: b

/-- `opaque<0..2^16-1>` -/
def vec16 (b : Bytes) : Bytes := be16 b.length ++ b

@[simp] theorem be16_length (n : Nat) : (be16 n).length = 2 := rfl
@[simp] theorem be24_length (n : Nat) : (be24 n).length = 3 := rfl
@[simp] theorem vec8_length (b : Bytes) : (vec8 b).length = b.length + 1 := rfl
@[simp] theorem vec16_length (b : Bytes) : (vec16 b).length = b.length + 2 := by
  simp [vec16]; omega

theorem words_cons (v : UInt16) (vs : List UInt16) : words (v :: vs) = be16 v.toNat ++ words vs := rfl

@[simp] theorem words_length (vs : List UInt16) : (words vs).length = 2 * vs.length := by
  induction vs with
  | nil => rfl
  | cons v vs ih =>
    rw [words_cons, List.length_append, ih, be16_length, List.length_cons]
    omega

/-! ## reading what was encoded

Each lemma takes the bytes `b` with an equation that shows where the piece stands. -/

theorem index_at (b p q : Bytes) (x : Byte) (i : Nat) (hb : b = p ++ x :: q)
    (hi : i = p.length) : index b i = .ok x := by
  subst hb; subst hi
  simp [index]

theorem slice_at (b p d q : Bytes) (i j : Nat) (hb : b = p ++ d ++ q) (hi : i = p.length)
    (hj : j = i + d.length) : slice b i j = .ok d := by
  subst hb; subst hi; subst hj
  have hle : p.length + d.length ≤ (p ++ d ++ q).length := by
    simp only [List.length_append]; omega
  unfold slice
  rw [if_pos ⟨by omega, hle⟩, List.append_assoc, List.drop_left, Nat.add_sub_cancel_left,
    List.take_left]

theorem uint16_be16 (n : Nat) (h : n < 65536) :
    (uint16 (UInt8.ofNat (n / 256)) (UInt8.ofNat n)).toNat = n := by
  unfold uint16
  rw [UInt16.toNat_ofNat', UInt8.toNat_ofNat', UInt8.toNat_ofNat']
  omega

theorem uint16At_len (b p q : Bytes) (n i : Nat) (hn : n < 65536) (hb : b = p ++ be16 n ++ q)
    (hi : i = p.length) : ∃ v : UInt16, v.toNat = n ∧ uint16At b i = .ok v := by
  refine ⟨_, uint16_be16 n hn, ?_⟩
  unfold uint16At
  rw [slice_at b p (be16 n) q i (i + 2) hb hi rfl]
  rfl

theorem uint16At_word (b p q : Bytes) (v : UInt16) (i : Nat) (hb : b = p ++ be16 v.toNat ++ q)
    (hi : i = p.length) : uint16At b i = .ok v := by
  obtain ⟨w, hw, h⟩ := uint16At_len b p q v.toNat i v.toNat_lt hb hi
  rw [h, UInt16.toNat_inj.mp hw]

/-- On an encoded list the loop returns the list: one word a turn, and it stops because the limit
leaves no room for another word. -/
theorem uint16s_words (b p q : Bytes) (vs : List UInt16) (off lim fuel j : Nat)
    (hb : b = p ++ words vs ++ q) (hp : off + j = p.length) (hlim : lim = j + 2 * vs.length)
    (hf : vs.length < fuel) : uint16s b off lim fuel j = .ok vs := by
  induction vs generalizing p fuel j with
  | nil =>
    obtain ⟨fuel, rfl⟩ : ∃ f, fuel = f + 1 := ⟨fuel - 1, by simp at hf; omega⟩
    have hstop : ¬ j + 2 ≤ lim := by simp at hlim; omega
    unfold uint16s
    rw [if_neg hstop]
  | cons v vs ih =>
    obtain ⟨fuel, rfl⟩ : ∃ f, fuel = f + 1 := ⟨fuel - 1, by simp at hf; omega⟩
    rw [List.length_cons] at hlim hf
    have hgo : j + 2 ≤ lim := by omega
    have hv : uint16At b (off + j) = .ok v :=
      uint16At_word b p (words vs ++ q) v (off + j) (by rw [hb, words_cons]; simp) hp
    have hvs : uint16s b off lim fuel (j + 2) = .ok vs :=
      ih (p ++ be16 v.toNat) fuel (j + 2) (by rw [hb, words_cons]; simp)
        (by rw [List.length_append, be16_length]; omega) (by omega) (by omega)
    unfold uint16s
    rw [if_pos hgo, hv, ok_bind, hvs, ok_bind, pure_eq_ok]

end Go
