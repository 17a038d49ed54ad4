import FingerprintLab.Capture.Grease
import FingerprintLab.Capture.Routing
import FingerprintLab.Capture.Whole

/-!
# Replayed hellos

A TLS library that sends a captured hello again keeps its lists and draws the rest anew: the random,
the session id, the key shares, the GREASE values and the places where they stand, the order of the
extensions; the name is the one it connects to.

* `Replayed`         a hello and its replay: GREASE taken out, varied, and GREASE put in again;
* `Replays`          the same of two records, with the name;
* `Replays.ja4`      the JA4 of a record is that of its replay;
* `Replays.routed`   and the replay is promoted under the name.
-/

set_option linter.unusedVariables false

namespace Capture
open Go Lab
open Labctl (Word)

/-- `b` and `b'` are the two hellos without their GREASE -/
def Replayed (h h' : ClientHello) : Prop :=
  ∃ b b' : ClientHello, b.extIDs.Nodup ∧
    GreasedHello b.toHelloFields h.toHelloFields ∧ SigsStay b.toHelloFields h.toHelloFields ∧
    Varied b.toHelloFields b'.toHelloFields ∧
    GreasedHello b'.toHelloFields h'.toHelloFields ∧ SigsStay b'.toHelloFields h'.toHelloFields

/-- the record `r` is a replay of the record `a` to the name `sni` -/
def Replays (a r sni : Bytes) : Prop :=
  ∃ (h h' : ClientHello) (recVer recVer' : UInt16) (tr tr' : Bytes),
    a = h.record recVer tr ∧ r = h'.record recVer' tr' ∧ Replayed h h' ∧ h'.extIDs.Nodup ∧
    h'.sni = sni

/-- GREASE that does not go into an empty list of signature algorithms is not part of the identity -/
theorem GreasedHello.identity {h h' : ClientHello}
    (hg : GreasedHello h.toHelloFields h'.toHelloFields)
    (hs : SigsStay h.toHelloFields h'.toHelloFields) (recVer recVer' : UInt16) :
    (h.walked recVer).identity = (h'.walked recVer').identity := by
  have hc := hg.cleanEq recVer recVer'
  have hlist : Greased h.listedSigs h'.listedSigs := hg.exts.flatMap Extension.sigs?
    (by intro e e' he; cases he with
        | sigs h => exact h
        | _ => exact Greased.refl _) (fun _ _ _ => rfl)
  rw [hc.identity, walked_sigs, walked_sigs, shownSigs_eq_iff _ _ hlist.clean]
  exact ⟨hs, fun h0 => (h0 ▸ hlist).eq_nil⟩

theorem GreasedExts.refl (es : List Extension) : GreasedExts es es := by
  induction es with
  | nil => exact .nil
  | cons e es ih => exact .keep (.same e) ih

theorem GreasedHello.refl (h : HelloFields) : GreasedHello h h :=
  ⟨rfl, rfl, rfl, rfl, Greased.refl _, GreasedExts.refl _⟩

/-- a hello without GREASE -/
theorem Varied.replayed {h h' : ClientHello} (hv : Varied h.toHelloFields h'.toHelloFields)
    (hd : h.extIDs.Nodup) : Replayed h h' :=
  ⟨h, h', hd, GreasedHello.refl _, fun hs => hs, hv, GreasedHello.refl _, fun hs => hs⟩

/-- with distinct ids the two readings of a hello are one -/
theorem walked_eq_parsed (h : ClientHello) (hd : h.extIDs.Nodup) (recVer : UInt16) :
    h.walked recVer = h.parsed recVer := by
  have hw : parse (h.record recVer []) = .ok (h.walked recVer) := parse_record h recVer []
  rw [parse_distinct h hd recVer []] at hw
  exact (Except.ok.inj hw).symm

theorem Replayed.identity {h h' : ClientHello} (hr : Replayed h h') (recVer recVer' : UInt16) :
    (h.walked recVer).identity = (h'.walked recVer').identity := by
  obtain ⟨b, b', hd, hg, hs, hv, hg', hs'⟩ := hr
  obtain ⟨hd', hid⟩ := hv.identity hd recVer recVer'
  calc (h.walked recVer).identity
      = (b.walked recVer).identity := (hg.identity hs recVer recVer).symm
    _ = (b.parsed recVer).identity := by rw [walked_eq_parsed b hd]
    _ = (b'.parsed recVer').identity := hid
    _ = (b'.walked recVer').identity := by rw [walked_eq_parsed b' hd']
    _ = (h'.walked recVer').identity := hg'.identity hs' recVer' recVer'

theorem recordedJA4_record (h : ClientHello) (recVer : UInt16) (tr : Bytes) :
    recordedJA4 (h.record recVer tr) = (h.walked recVer).meta.ja4 :=
  recordedJA4_ok (analyze_of_parse (parse_record h recVer tr))

/-- what `analyze` says of the name and the JA4 of a replay -/
theorem Replays.analyzed {a r sni : Bytes} (hr : Replays a r sni) :
    ∃ m, analyze r = .ok m ∧ m.sni = sni ∧ m.ja4 = recordedJA4 a := by
  obtain ⟨h, h', recVer, recVer', tr, tr', rfl, rfl, hrep, hd, rfl⟩ := hr
  have hm := analyze_of_parse (parse_distinct h' hd recVer' tr')
  refine ⟨_, hm, rfl, ?_⟩
  rw [recordedJA4_record, ja4_eq_of_identity (hrep.identity recVer recVer'),
    walked_eq_parsed h' hd]

/-- the handler of a replay promotes it under the word that its name begins with -/
theorem Replays.routed {a r x : Bytes} (hr : Replays a r (x ++ sniSuffix)) (hx : Word x)
    (hne : x ≠ []) (hunk : x ≠ str "unknown") (fl : Flags) {c : Conn} (hc : c.rawHello = r) :
    ∃ p, handle fl c = some p ∧ p.id = x := by
  obtain ⟨m, hm, hsni, -⟩ := hr.analyzed
  rw [← hc] at hm
  obtain ⟨p, hp, hid, -⟩ := Capture.routed fl hx hne hunk hm hsni
  exact ⟨p, hp, hid⟩

end Capture
