import FingerprintLab.Base.Paths
import FingerprintLab.Base.Runes
import FingerprintLab.Labctl.Archive

/-!
# Words

The texts over `a`-`z`, `0`-`9`, `-` and `_` that `sanitize` and `sanitizeID` return.

* `Word`, `word_idText`    every id text is a word, and a word is its own id text;
* `mem_idText`             a character of a word is not lost, whatever stands around it;
* `mem_sanitizeID_idText`  `sanitizeID` loses dashes only;
* `Word.isName`            a word is a file name.
-/

set_option linter.unusedVariables false

namespace Labctl
open Go Lab Paths

/-- a word over `a`-`z`, `0`-`9`, `-` and `_` -/
def Word (s : Bytes) : Prop := ∀ b ∈ s, idRune b.toNat = true

instance decidableWord (s : Bytes) : Decidable (Word s) :=
  List.decidableBAll (fun b : Byte => idRune b.toNat = true) s

theorem idRune_cases {r : Nat} (h : idRune r = true) :
    0x61 ≤ r ∧ r ≤ 0x7a ∨ 0x30 ≤ r ∧ r ≤ 0x39 ∨ r = 0x2d ∨ r = 0x5f := by
  unfold idRune at h
  simp only [Bool.or_eq_true, Bool.and_eq_true, decide_eq_true_eq, beq_iff_eq] at h
  omega

theorem idByte_word (r : Nat) : idRune (idByte r).toNat = true := by
  unfold idByte
  split
  · rename_i h
    have hr := idRune_cases h
    rw [UInt8.toNat_ofNat', Nat.mod_eq_of_lt (by omega)]
    exact h
  · decide

theorem Word.append {s s' : Bytes} (h : Word s) (h' : Word s') : Word (s ++ s') := by
  intro b hb
  exact (List.mem_append.mp hb).elim (h b) (h' b)

theorem Word.ascii {s : Bytes} (h : Word s) : ∀ b ∈ s, b.toNat < 0x80 := by
  intro b hb
  have hr := idRune_cases (h b hb)
  omega

theorem word_idText (s : Bytes) : Word (idText s) := by
  intro b hb
  obtain ⟨r, -, rfl⟩ := List.mem_map.mp hb
  exact idByte_word r

theorem lower_of_idRune {b : Byte} (h : idRune b.toNat = true) : IsLower b := by
  have hr := idRune_cases h
  unfold IsLower
  omega

theorem Word.toLower {s : Bytes} (h : Word s) : toLower s = s :=
  toLower_of_lower s fun b hb => lower_of_idRune (h b hb)

/-- an id keeps the characters of a word, also in a text that is none -/
theorem mem_idText {b : Byte} {s : Bytes} (hb : idRune b.toNat = true) (h : b ∈ s) :
    b ∈ Lab.idText s := by
  have hlow := lower_of_idRune hb
  refine List.mem_map.mpr ⟨b.toNat, mem_runes hlow.ascii (mem_toLower hlow h), ?_⟩
  unfold idByte
  rw [if_pos hb, UInt8.ofNat_toNat]

/-- a word is its own id text -/
theorem Word.idText {s : Bytes} (h : Word s) : idText s = s := by
  unfold Lab.idText
  rw [h.toLower, runes_ascii s h.ascii, List.map_map]
  have hself : s.map (idByte ∘ UInt8.toNat) = s.map id := by
    refine List.map_congr_left fun b hb => ?_
    show idByte b.toNat = b
    unfold idByte
    rw [if_pos (h b hb), UInt8.ofNat_toNat]
  rw [hself, List.map_id]

/-- a word is a file name -/
theorem Word.isName {s : Bytes} (h : Word s) (hne : s ≠ []) : IsName s where
  ne_nil := hne
  no_slash hs := absurd (h slash hs) (by decide)
  ne_dot hs := absurd (h 0x2e (hs ▸ by decide)) (by decide)
  ne_dots hs := absurd (h 0x2e (hs ▸ by decide)) (by decide)

theorem mem_replaceDashes {b : Byte} (hb : b ≠ 0x2d) (s : Bytes) :
    b ∈ replaceDashes s ↔ b ∈ s := by
  induction s using replaceDashes.induct with
  | case1 => exact Iff.rfl
  | case2 c => exact Iff.rfl
  | case3 c d s hcd ih =>
    rw [replaceDashes, if_pos hcd, List.mem_cons, ih, List.mem_cons, List.mem_cons, hcd.1, hcd.2]
    constructor
    · exact fun h => .inr (.inr (h.resolve_left hb))
    · exact fun h => .inr ((h.resolve_left hb).resolve_left hb)
  | case4 c d s hcd ih =>
    rw [replaceDashes, if_neg hcd, List.mem_cons, ih, List.mem_cons (a := b) (b := c)]

theorem mem_collapseDashes {b : Byte} (hb : b ≠ 0x2d) (n : Nat) (s : Bytes) :
    b ∈ collapseDashes n s ↔ b ∈ s := by
  induction n generalizing s with
  | zero => exact Iff.rfl
  | succ n ih =>
    rw [collapseDashes]
    split
    · rw [ih, mem_replaceDashes hb]
    · exact Iff.rfl

theorem mem_dropWhile_dash {b : Byte} (hb : b ≠ 0x2d) (s : Bytes) :
    b ∈ s.dropWhile (· == 0x2d) ↔ b ∈ s := by
  induction s with
  | nil => exact Iff.rfl
  | cons c s ih =>
    by_cases hc : c = 0x2d
    · rw [List.dropWhile_cons_of_pos (by rw [hc]; rfl), ih, List.mem_cons, hc]
      exact ⟨.inr, fun h => h.resolve_left hb⟩
    · rw [List.dropWhile_cons_of_neg (by simpa using hc)]

/-- only dashes are lost after the replacement -/
theorem mem_sanitizeID_idText {b : Byte} (hb : b ≠ 0x2d) (s : Bytes) :
    b ∈ sanitizeID s ↔ b ∈ idText s := by
  unfold sanitizeID trimDashes
  dsimp only
  rw [List.mem_reverse, mem_dropWhile_dash hb, List.mem_reverse, mem_dropWhile_dash hb,
    mem_collapseDashes hb]

theorem word_sanitizeID (s : Bytes) : Word (sanitizeID s) := by
  intro b hb
  by_cases hd : b = 0x2d
  · rw [hd]
    decide
  · exact word_idText s b ((mem_sanitizeID_idText hd s).mp hb)

end Labctl
