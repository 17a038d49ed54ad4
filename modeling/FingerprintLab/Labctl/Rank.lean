import FingerprintLab.Labctl.Export
import Mathlib.Data.Prod.Lex
import Mathlib.Data.List.Lex
import Mathlib.Order.Lex

/-!
# The ranking of members

`betterMember` is the strict order of `score`, five values compared one after the other; so it is a
strict total order on members with distinct ids.  With the ranking library this says what the loops
of the export compute from a set of members, whatever the order of the list.

* `betterMember_iff`     the comparison is `<` on the scores;
* `Canonical`            a best member of its family and JA4;
* `familyRank`           the number of JA4s of the family with a better member;
* `classes_spec`         the place of a class is its rank, its head is canonical.
-/

set_option linter.unusedVariables false

namespace Labctl
open Go Lab Ranking Writes

/-! ## the score -/

abbrev Score := Bool ×ₗ Bool ×ₗ Int ×ₗ Int ×ₗ Bytes

/-- Not latest, builtin, the version and the time with their signs turned, and the id: smaller is
better. -/
def score (m : RankedMember) : Score :=
  toLex (!decide (m.t.track = trackLatest), toLex (decide (m.t.kind = kindBuiltin),
    toLex (-m.t.version, toLex (-m.capturedAt, m.t.id))))

theorem betterMember_iff (a b : RankedMember) : betterMember a b = true ↔ score a < score b := by
  unfold betterMember score
  simp only [Prod.Lex.toLex_lt_toLex]
  generalize decide (a.t.track = trackLatest) = la
  generalize decide (b.t.track = trackLatest) = lb
  generalize decide (a.t.kind = kindBuiltin) = bi
  generalize decide (b.t.kind = kindBuiltin) = bj
  by_cases hl : la = lb
  · by_cases hb : bi = bj
    · by_cases hv : a.t.version = b.t.version
      · by_cases hc : a.capturedAt = b.capturedAt
        · simp [hl, hb, hv, hc]
        · simp [hl, hb, hv, hc]
      · simp [hl, hb, hv]
    · cases bi <;> cases bj <;> simp [hl] at hb ⊢
  · cases la <;> cases lb <;> simp at hl ⊢

theorem not_betterMember_iff (a b : RankedMember) :
    (!betterMember b a) = true ↔ score a ≤ score b := by
  rw [Bool.not_eq_true', ← Bool.not_eq_true, betterMember_iff, not_lt]

theorem score_id {a b : RankedMember} (h : score a = score b) : a.t.id = b.t.id := by
  unfold score at h
  simp only [EmbeddingLike.apply_eq_iff_eq, Prod.mk.injEq] at h
  exact h.2.2.2.2

/-- `betterMember` is irreflexive, transitive and total on members with distinct ids. -/
theorem betterMember_irrefl (a : RankedMember) : betterMember a a = false := by
  rw [← Bool.not_eq_true, betterMember_iff]
  exact lt_irrefl _

theorem betterMember_trans {a b c : RankedMember} (hab : betterMember a b = true)
    (hbc : betterMember b c = true) : betterMember a c = true := by
  rw [betterMember_iff] at hab hbc ⊢
  exact lt_trans hab hbc

theorem betterMember_total {a b : RankedMember} (h : a.t.id ≠ b.t.id) :
    betterMember a b = true ∨ betterMember b a = true := by
  rw [betterMember_iff, betterMember_iff]
  exact lt_or_gt_of_ne fun he => h (score_id he)

/-! ## the sorted members of a family -/

theorem sortMembers_perm (l : List RankedMember) : (sortMembers l).Perm l :=
  List.perm_insertionSort _ l

theorem mem_sortMembers (l : List RankedMember) (m : RankedMember) :
    m ∈ sortMembers l ↔ m ∈ l := (sortMembers_perm l).mem_iff

theorem sortMembers_sorted (l : List RankedMember) : Sorted score (sortMembers l) := by
  have hle : ∀ a b : RankedMember, (!betterMember b a) = true ↔ score a ≤ score b :=
    not_betterMember_iff
  have htotal : Std.Total fun a b : RankedMember => (!betterMember b a) = true :=
    ⟨fun a b => by rw [hle, hle]; exact le_total _ _⟩
  have htrans : IsTrans RankedMember fun a b => (!betterMember b a) = true :=
    ⟨fun a b c => by rw [hle, hle, hle]; exact le_trans⟩
  exact (List.pairwise_insertionSort _ l).imp fun {a b} h => (hle a b).mp h

/-- members of one id have one JA4, as when all come from one tree -/
def Coherent (l : List RankedMember) : Prop := ∀ a ∈ l, ∀ b ∈ l, a.t.id = b.t.id → a.ja4 = b.ja4

theorem Coherent.separated {l : List RankedMember} (h : Coherent l) :
    Separated RankedMember.ja4 score l := fun a ha b hb he => h a ha b hb (score_id he)

/-- the best members of the JA4s of a family's list -/
abbrev Best (l : List RankedMember) (c : RankedMember) : Prop := IsBest RankedMember.ja4 score l c

/-- the number of JA4s with a member better than that -/
abbrev rankOf (l : List RankedMember) (c : RankedMember) : Nat :=
  rank RankedMember.ja4 score l (score c)

/-- What the sort and the grouping compute from a family's members. -/
theorem classes_spec (l : List RankedMember) (hl : Coherent l) (i : Nat)
    (u : Cluster RankedMember) (hu : (classes l)[i]? = some u) :
    Best l u.head ∧ i = rankOf l u.head ∧
      ∀ m, m ∈ u.head :: u.rest ↔ m ∈ l ∧ m.ja4 = u.head.ja4 := by
  have hmem := mem_sortMembers l
  have hx : Separated RankedMember.ja4 score (sortMembers l) := fun a ha b hb he =>
    hl.separated a ((hmem a).mp ha) b ((hmem b).mp hb) he
  have hug : u ∈ groups RankedMember.ja4 (sortMembers l) := List.mem_of_getElem? hu
  refine ⟨(head_isBest _ _ _ (sortMembers_sorted l) u hug).congr _ _ hmem, ?_, fun m => ?_⟩
  · rw [index_eq_rank _ _ _ (sortMembers_sorted l) hx i u hu]
    unfold rankOf rank
    rw [above_congr _ _ hmem]
  · rw [mem_group_iff _ _ u hug, hmem]

theorem exists_class (l : List RankedMember) (m : RankedMember) (hm : m ∈ l) :
    ∃ (i : Nat) (u : Cluster RankedMember), (classes l)[i]? = some u ∧ u.head.ja4 = m.ja4 := by
  obtain ⟨u, hu, hk⟩ := exists_group RankedMember.ja4 (sortMembers l) m
    ((mem_sortMembers l m).mpr hm)
  obtain ⟨i, hi⟩ := List.mem_iff_getElem?.mp hu
  exact ⟨i, u, hi, hk⟩

theorem class_nodup (l : List RankedMember) (hl : l.Nodup) (u : Cluster RankedMember)
    (hu : u ∈ classes l) : (u.head :: u.rest).Nodup := by
  rw [cons_rest _ _ u hu]
  exact ((sortMembers_perm l).nodup_iff.mpr hl).filter _

theorem classes_length (l : List RankedMember) :
    (classes l).length = (l.map RankedMember.ja4).toFinset.card := by
  unfold classes
  rw [groups_length, List.toFinset_eq_of_perm _ _ ((sortMembers_perm l).map _)]

end Labctl
