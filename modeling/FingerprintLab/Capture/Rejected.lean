import FingerprintLab.Base.Runes
import FingerprintLab.Capture.Promote

/-!
# Hellos that `analyze` rejects

After an error of `analyze` the handler goes on with an empty `Meta`: there is no SNI, so the target
is the default one, and `writeImportableProfile` looks at its name only.

* `handled`                  the profiles tree after a handler has made all its writes;
* `NamesNobody`              the flag is empty or `unknown`, in any case;
* `rejected_untouched_iff`   a rejected hello leaves every tree alone exactly if the flag names
                             nobody; else its bytes are promoted with an empty JA4.
-/

set_option linter.unusedVariables false

namespace Capture
open Go Lab

def handled (fl : Flags) (c : Conn) (t : Tree) : Tree :=
  match handle fl c with
  | none => t
  | some p => p.writes.foldl Tree.apply t

def NamesNobody (targetHint : Bytes) : Prop :=
  toLower targetHint = [] ∨ toLower targetHint = str "unknown"

/-! ## the name of the directory -/

/-- a letter of an id comes from the rune of that letter -/
theorem idByte_letter (r : Nat) (b : Byte) (hb : 0x61 ≤ b.toNat) (h : idByte r = b) :
    r = b.toNat := by
  unfold idByte at h
  split at h
  · rename_i hid
    unfold idRune at hid
    simp only [Bool.or_eq_true, Bool.and_eq_true, decide_eq_true_eq, beq_iff_eq] at hid
    rw [← h, UInt8.toNat_ofNat', Nat.mod_eq_of_lt (by omega)]
  · rw [← h] at hb
    exact absurd hb (by decide)

theorem idText_letters (s t : Bytes) (ht : ∀ b ∈ t, 0x61 ≤ b.toNat ∧ b.toNat < 0x80)
    (h : idText s = t) : toLower s = t := by
  refine eq_of_runes _ t (fun b hb => (ht b hb).2) ?_
  unfold idText at h
  generalize runes (toLower s) = rs at h
  induction rs generalizing t with
  | nil => rw [← h]; rfl
  | cons r rs ih =>
    cases t with
    | nil => cases h
    | cons b t =>
      obtain ⟨hb, hrest⟩ := List.cons.inj h
      rw [idByte_letter r b (ht b List.mem_cons_self).1 hb,
        ih t (fun c hc => ht c (List.mem_cons_of_mem _ hc)) hrest]
      rfl

/-- the name that `writeImportableProfile` refuses -/
theorem sanitize_unknown_iff (hint : Bytes) : sanitize hint = str "unknown" ↔ NamesNobody hint := by
  have hletters : ∀ b ∈ str "unknown", 0x61 ≤ b.toNat ∧ b.toNat < 0x80 := by
    decide +kernel
  unfold sanitize NamesNobody
  simp only []
  by_cases hnil : idText hint = []
  · have h0 : toLower hint = [] :=
      idText_letters hint [] (fun b hb => absurd hb List.not_mem_nil) hnil
    rw [if_pos hnil]
    exact ⟨fun _ => Or.inl h0, fun _ => rfl⟩
  · rw [if_neg hnil]
    refine ⟨fun h => Or.inr (idText_letters hint _ hletters h), fun h => ?_⟩
    obtain h | h := h
    · refine absurd ?_ hnil
      unfold idText
      rw [h]
      rfl
    · unfold idText
      rw [h]
      decide

theorem sanitize_ne_nil (s : Bytes) : sanitize s ≠ [] := by
  unfold sanitize
  simp only []
  split
  · decide
  · assumption

/-! ## the handler on a rejected hello -/

theorem targetFromSNI_nil (hint : Bytes) : targetFromSNI [] hint = hint := by
  unfold targetFromSNI
  exact if_pos rfl

section
variable {fl : Flags} {c : Conn} {msg : String} (hrej : analyze c.rawHello = .error (.error msg))
include hrej

/-- the target is the flag, and no JA4 is known -/
theorem handle_rejected : ∃ dir m, m.ja4 = [] ∧
    handle fl c = writeImportableProfile fl.targetHint dir c.rawHello m := by
  have hstart : startMeta c.rawHello = some { notes := str "analyze error: " ++ str msg } := by
    unfold startMeta
    rw [hrej]
  unfold handle
  rw [hstart]
  cases c.fingerprinter with
  | none =>
    simp only [Option.bind_eq_bind, Option.bind_some, targetFromSNI_nil]
    exact ⟨_, _, rfl, rfl⟩
  | some err =>
    simp only [Option.bind_eq_bind, Option.bind_some, targetFromSNI_nil]
    exact ⟨_, _, rfl, rfl⟩

theorem handle_rejected_none (h : NamesNobody fl.targetHint) : handle fl c = none := by
  obtain ⟨dir, m, _, hw⟩ := handle_rejected hrej
  rw [hw]
  unfold writeImportableProfile
  exact if_pos (Or.inr ((sanitize_unknown_iff fl.targetHint).mpr h))

theorem handle_rejected_some (h : ¬ NamesNobody fl.targetHint) :
    ∃ p, handle fl c = some p ∧ p.id = sanitize fl.targetHint ∧ p.hello = c.rawHello ∧
      p.profile.ja4 = [] := by
  obtain ⟨dir, m, hja4, hw⟩ := handle_rejected hrej
  have hname : ¬ (sanitize fl.targetHint = [] ∨ sanitize fl.targetHint = str "unknown") := by
    rintro (h' | h')
    · exact sanitize_ne_nil _ h'
    · exact h ((sanitize_unknown_iff _).mp h')
  cases hp : writeImportableProfile fl.targetHint dir c.rawHello m with
  | none =>
    unfold writeImportableProfile at hp
    dsimp only at hp
    rw [if_neg hname] at hp
    cases hp
  | some p =>
    obtain ⟨hid, hhello, _, hprof⟩ := writeImportableProfile_some hp
    exact ⟨p, hw.trans hp, hid, hhello, hprof.trans hja4⟩

end

/-- the four writes of a promotion, in its own directory -/
theorem writes_apply (p : Promotion) (t : Tree) :
    p.writes.foldl Tree.apply t p.id =
      { t p.id with
        hello := some p.hello, metaDoc := some (.good p.metaDoc), profile := some (.good p.profile)
        readme := some p.readme } := by
  show (((t.apply _).apply _).apply _).apply _ p.id = _
  simp only [Tree.apply, Function.update_self, Dir.write]

/-- **Rejected hellos and the profiles tree**: no directory changes, whatever the tree, exactly if
the flag names nobody; otherwise the rejected bytes stand in the flag's directory afterwards, with
an empty expected JA4. -/
theorem rejected_untouched_iff (fl : Flags) (c : Conn) (msg : String)
    (hrej : analyze c.rawHello = .error (.error msg)) :
    ((∀ t : Tree, handled fl c t = t) ↔ NamesNobody fl.targetHint) ∧
    (¬ NamesNobody fl.targetHint → ∀ t : Tree,
      (handled fl c t (sanitize fl.targetHint)).hello = some c.rawHello ∧
      (handled fl c t (sanitize fl.targetHint)).profileJA4 = []) := by
  have hpromoted : ¬ NamesNobody fl.targetHint → ∀ t : Tree,
      (handled fl c t (sanitize fl.targetHint)).hello = some c.rawHello ∧
      (handled fl c t (sanitize fl.targetHint)).profileJA4 = [] := by
    intro h t
    obtain ⟨p, hp, hid, hhello, hja4⟩ := handle_rejected_some hrej h
    unfold handled
    rw [hp, ← hid, ← hhello, ← hja4]
    show (p.writes.foldl Tree.apply t p.id).hello = _ ∧
      (p.writes.foldl Tree.apply t p.id).profileJA4 = _
    rw [writes_apply]
    exact ⟨rfl, rfl⟩
  refine ⟨⟨fun hall => ?_, fun h t => ?_⟩, hpromoted⟩
  · by_contra h
    have hempty := (hpromoted h fun _ => {}).1
    rw [hall] at hempty
    cases hempty
  · unfold handled
    rw [handle_rejected_none hrej h]

/-- a record with a handshake type that is no ClientHello -/
def strayConn : Conn where
  rawHello := [0x16, 3, 1, 0, 4, 2, 0, 0, 0]

theorem strayConn_rejected :
    analyze strayConn.rawHello = .error (.error "not ClientHello handshake") := by
  decide +kernel

theorem rejected_untouched_default :
    handled defaultFlags strayConn (fun _ => { hello := some (str "old hello") })
      = fun _ => { hello := some (str "old hello") } :=
  (rejected_untouched_iff defaultFlags strayConn _ strayConn_rejected).1.mpr
    (Or.inr (by decide)) _

/-- With `-default-target=brave` a rejected record replaces the hello of `profiles/brave`. -/
theorem rejected_promoted : (∃ msg, analyze strayConn.rawHello = .error (.error msg)) ∧
    ∃ t : Tree, (t (str "brave")).hello = some (str "old hello") ∧
      (handled ⟨str "/captures", str "brave"⟩ strayConn t (str "brave")).hello
        = some strayConn.rawHello ∧
      (handled ⟨str "/captures", str "brave"⟩ strayConn t (str "brave")).profileJA4 = [] := by
  refine ⟨⟨_, strayConn_rejected⟩, fun _ => { hello := some (str "old hello") }, rfl, ?_, ?_⟩
  · decide +kernel
  · decide +kernel

end Capture
