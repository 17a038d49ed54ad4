import FingerprintLab.Base.Str

/-!
# ASCII bytes among runes

A byte below `0x80` is a rune of its own wherever it stands, whatever the bytes around it.

* `mem_runes`          it is one of the runes of the string;
* `eq_of_runes`        a string whose runes are those of an ASCII text is that text;
* `trimRunes_ascii`    an ASCII text without spaces is trimmed already;
* `toLower_of_lower`   lower case stays as it is.
-/

set_option linter.unusedVariables false

namespace Go

/-! ## decoding -/

/-- an ASCII rune is decoded from its one byte -/
theorem decodeRune_lt (b : Byte) (s : Bytes) (h : (decodeRune (b :: s)).1 < 0x80) :
    b.toNat < 0x80 := by
  unfold decodeRune at h
  simp only [List.getD_cons_zero] at h
  by_cases hb : b.toNat < 0x80
  · exact hb
  · rw [if_neg hb] at h
    split at h
    · rename_i h2
      simp only [Bool.and_eq_true, decide_eq_true_eq, isCont] at h2
      dsimp only at h
      omega
    split at h
    · rename_i h3
      simp only [Bool.and_eq_true, Bool.or_eq_true, decide_eq_true_eq, isCont, bne_iff_ne] at h3
      dsimp only at h
      omega
    split at h
    · rename_i h4
      simp only [Bool.and_eq_true, Bool.or_eq_true, decide_eq_true_eq, isCont, bne_iff_ne] at h4
      dsimp only at h
      omega
    · dsimp only at h
      omega

/-- a rune takes its first byte and bytes that are no ASCII -/
theorem decodeRune_width (s : Bytes) : 0 < (decodeRune s).2 ∧
    ∀ i, 0 < i → i < (decodeRune s).2 → 0x80 ≤ (s.getD i 0).toNat := by
  have hcont : ∀ n, isCont n = true → 0x80 ≤ n := by
    intro n h
    simp only [isCont, Bool.and_eq_true, decide_eq_true_eq] at h
    exact h.1
  unfold decodeRune
  dsimp only
  split
  · exact ⟨Nat.one_pos, fun i h0 h1 => by omega⟩
  split
  · rename_i h2
    simp only [Bool.and_eq_true] at h2
    refine ⟨Nat.two_pos, fun i h0 h1 => ?_⟩
    obtain rfl : i = 1 := by omega
    exact hcont _ h2.2
  split
  · rename_i h3
    simp only [Bool.and_eq_true] at h3
    obtain ⟨⟨⟨⟨-, c1⟩, c2⟩, -⟩, -⟩ := h3
    refine ⟨by omega, fun i h0 h1 => ?_⟩
    obtain rfl | rfl : i = 1 ∨ i = 2 := by omega
    · exact hcont _ c1
    · exact hcont _ c2
  split
  · rename_i h4
    simp only [Bool.and_eq_true] at h4
    obtain ⟨⟨⟨⟨⟨-, c1⟩, c2⟩, c3⟩, -⟩, -⟩ := h4
    refine ⟨by omega, fun i h0 h1 => ?_⟩
    obtain rfl | rfl | rfl : i = 1 ∨ i = 2 ∨ i = 3 := by omega
    · exact hcont _ c1
    · exact hcont _ c2
    · exact hcont _ c3
  · exact ⟨Nat.one_pos, fun i h0 h1 => by omega⟩

theorem mem_runesFuel (fuel : Nat) (s : Bytes) (hf : s.length ≤ fuel) (b : Byte)
    (hb : b.toNat < 0x80) (h : b ∈ s) : b.toNat ∈ runesFuel fuel s := by
  induction fuel generalizing s with
  | zero =>
    rw [List.length_eq_zero_iff.mp (Nat.le_zero.mp hf)] at h
    exact absurd h List.not_mem_nil
  | succ fuel ih =>
    cases s with
    | nil => exact absurd h List.not_mem_nil
    | cons c s =>
      rw [runesFuel]
      obtain rfl | hs := List.mem_cons.mp h
      · rw [decodeRune_ascii b s hb]
        exact List.mem_cons_self
      · obtain ⟨hpos, hrest⟩ := decodeRune_width (c :: s)
        refine List.mem_cons_of_mem _ (ih _ ?_ ?_)
        · rw [List.length_drop]
          omega
        · -- the byte is not one that the rune takes, so it is still there
          obtain ⟨i, hi, rfl⟩ := List.getElem_of_mem hs
          have hget : (c :: s).getD (i + 1) 0 = s[i] := by
            rw [List.getD_cons_succ, List.getD_eq_getElem?_getD, List.getElem?_eq_getElem hi]
            rfl
          have hle : (decodeRune (c :: s)).2 ≤ i + 1 := by
            by_contra hlt
            have hcont := hrest (i + 1) (Nat.succ_pos i) (Nat.lt_of_not_le hlt)
            rw [hget] at hcont
            omega
          refine List.mem_iff_getElem?.mpr ⟨i + 1 - (decodeRune (c :: s)).2, ?_⟩
          rw [List.getElem?_drop, Nat.add_sub_cancel' hle, List.getElem?_cons_succ]
          exact List.getElem?_eq_getElem hi

theorem mem_runes {b : Byte} {s : Bytes} (hb : b.toNat < 0x80) (h : b ∈ s) : b.toNat ∈ runes s :=
  mem_runesFuel s.length s (Nat.le_refl _) b hb h

theorem ascii_of_runes (fuel : Nat) (s : Bytes) (hf : s.length ≤ fuel)
    (h : ∀ r ∈ runesFuel fuel s, r < 0x80) : ∀ b ∈ s, b.toNat < 0x80 := by
  induction fuel generalizing s with
  | zero =>
    have hs : s = [] := List.length_eq_zero_iff.mp (by omega)
    rw [hs]
    exact fun b hb => absurd hb List.not_mem_nil
  | succ fuel ih =>
    cases s with
    | nil => exact fun b hb => absurd hb List.not_mem_nil
    | cons c s =>
      rw [runesFuel] at h
      have hc := decodeRune_lt c s (h _ List.mem_cons_self)
      have hw := decodeRune_ascii c s hc
      rw [hw] at h
      intro b hb
      obtain rfl | hb := List.mem_cons.mp hb
      · exact hc
      · refine ih s ?_ (fun r hr => h r (List.mem_cons_of_mem _ hr)) b hb
        rw [List.length_cons] at hf
        omega

/-- a text whose runes are those of an ASCII text is that text -/
theorem eq_of_runes (s t : Bytes) (ht : ∀ b ∈ t, b.toNat < 0x80) (h : runes s = t.map UInt8.toNat) :
    s = t := by
  have hs : ∀ b ∈ s, b.toNat < 0x80 := by
    refine ascii_of_runes s.length s (Nat.le_refl _) fun r hr => ?_
    have hm : r ∈ t.map UInt8.toNat := h ▸ hr
    obtain ⟨b, hb, rfl⟩ := List.mem_map.mp hm
    exact ht b hb
  rw [runes_ascii s hs] at h
  exact List.map_injective_iff.mpr (fun _ _ => UInt8.toNat_inj.mp) h

/-! ## trimming -/

theorem runeBytes_ascii (s : Bytes) (h : ∀ b ∈ s, b.toNat < 0x80) :
    runeBytesFuel s.length s = s.map fun b => [b] := by
  induction s with
  | nil => rfl
  | cons b s ih =>
    have hb := decodeRune_ascii b s (h b List.mem_cons_self)
    rw [List.length_cons, runeBytesFuel, hb]
    show [b] :: runeBytesFuel s.length s = _
    rw [ih fun c hc => h c (List.mem_cons_of_mem b hc)]
    rfl

theorem flatten_singles (s : Bytes) : (s.map fun b => [b]).flatten = s := by
  induction s with
  | nil => rfl
  | cons b s ih =>
    rw [List.map_cons, List.flatten_cons, ih]
    rfl

/-- a string of ASCII characters without a space is trimmed already, whatever counts as a space -/
theorem trimRunes_ascii (space : Nat → Bool) (s : Bytes) (h : ∀ b ∈ s, b.toNat < 0x80)
    (hs : ∀ b ∈ s, space b.toNat = false) :
    ((((runeBytesFuel s.length s).dropWhile fun c => space (decodeRune c).1).reverse.dropWhile
      fun c => space (decodeRune c).1).reverse).flatten = s := by
  have keep : ∀ l : Bytes, (∀ b ∈ l, b ∈ s) →
      (l.map fun b => [b]).dropWhile (fun c => space (decodeRune c).1) = l.map fun b => [b] := by
    intro l hl
    cases l with
    | nil => rfl
    | cons b l =>
      have hb := hl b List.mem_cons_self
      rw [List.map_cons, List.dropWhile_cons_of_neg]
      rw [decodeRune_ascii b [] (h b hb), hs b hb]
      exact Bool.false_ne_true
  rw [runeBytes_ascii s h, keep s (fun _ => id), ← List.map_reverse,
    keep s.reverse (fun b hb => List.mem_reverse.mp hb), ← List.map_reverse, List.reverse_reverse,
    flatten_singles]

/-! ## lower case -/

/-- an ASCII byte that is no capital letter -/
def IsLower (b : Byte) : Prop := b.toNat < 0x41 ∨ 0x5a < b.toNat ∧ b.toNat < 0x80

instance decidableIsLower (b : Byte) : Decidable (IsLower b) := inferInstanceAs (Decidable (_ ∨ _))

theorem IsLower.ascii {b : Byte} (h : IsLower b) : b.toNat < 0x80 := by
  unfold IsLower at h
  omega

/-- what `strings.ToLower` writes for the byte -/
theorem IsLower.encode {b : Byte} (h : IsLower b) :
    encodeRune (unicodeToLower b.toNat) = [b] := by
  have hlow : unicodeToLower b.toNat = b.toNat := by
    unfold IsLower at h
    unfold unicodeToLower
    simp only [Bool.and_eq_true, decide_eq_true_eq]
    split_ifs <;> omega
  rw [hlow]
  unfold encodeRune
  rw [if_pos h.ascii, UInt8.ofNat_toNat]

theorem mem_toLower {b : Byte} {s : Bytes} (hb : IsLower b) (h : b ∈ s) : b ∈ toLower s := by
  refine List.mem_flatMap.mpr ⟨b.toNat, mem_runes hb.ascii h, ?_⟩
  rw [hb.encode]
  exact List.mem_cons_self

theorem toLower_of_lower (s : Bytes) (h : ∀ b ∈ s, IsLower b) : toLower s = s := by
  unfold toLower
  rw [runes_ascii s fun b hb => (h b hb).ascii]
  induction s with
  | nil => rfl
  | cons b s ih =>
    rw [List.map_cons, List.flatMap_cons, (h b List.mem_cons_self).encode,
      ih fun c hc => h c (List.mem_cons_of_mem b hc)]
    rfl

end Go
