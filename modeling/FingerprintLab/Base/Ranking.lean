import Mathlib.Data.List.Sort
import Mathlib.Data.Finset.Card
import Mathlib.Data.List.Infix
import Mathlib.Tactic.Common

/-!
# Classes ranked by their best member

Members `m : M` have a class `key m : K` and a score `score m` in a linear order; the smaller score
is the better one.  `groups key l` is the grouping loop (first seen, first in line), and on a list
sorted by the score it puts the classes in the order of their best members:

* `cons_rest`        a group is the list of all members of its class, in the order of the list;
* `exists_group`     every member has a group, `keys_nodup`: and only one;
* `head_isBest`      the head of a group is a best member of its class;
* `heads_sorted`     the heads are strictly sorted;
* `index_eq_rank`    the place of a group is the number of classes with a better member (`rank`);
* `rank_map`         ranks are steady when the comparisons between different classes are.

`rank` and `IsBest` depend on the members alone, not on the order of a list.
-/

set_option linter.unusedSectionVars false
set_option linter.unusedVariables false

namespace Ranking

/-- a class: its first member and the later ones -/
structure Cluster (M : Type*) where
  head : M
  rest : List M

section
variable {M K : Type*} [DecidableEq K] (key : M → K)

/-- one turn of the loop: into the group of the class if there is one, else a new group -/
def groupStep (gs : List (Cluster M)) (m : M) : List (Cluster M) :=
  if gs.any (fun g => key g.head = key m) then
    gs.map fun g => if key g.head = key m then { g with rest := g.rest ++ [m] } else g
  else gs ++ [⟨m, []⟩]

def groups (l : List M) : List (Cluster M) := l.foldl (groupStep key) []

theorem groups_append (l : List M) (m : M) :
    groups key (l ++ [m]) = groupStep key (groups key l) m := by
  unfold groups
  rw [List.foldl_append]
  rfl

theorem groupStep_heads (gs : List (Cluster M)) (m : M) :
    (groupStep key gs m).map Cluster.head
      = if gs.any (fun g => key g.head = key m) then gs.map Cluster.head
        else gs.map Cluster.head ++ [m] := by
  unfold groupStep
  split
  · rw [List.map_map]
    refine List.map_congr_left fun g _ => ?_
    show (if key g.head = key m then _ else g).head = g.head
    split <;> rfl
  · simp

theorem any_iff (gs : List (Cluster M)) (m : M) :
    gs.any (fun g => key g.head = key m) = true ↔ key m ∈ gs.map fun g => key g.head := by
  simp only [List.any_eq_true, decide_eq_true_eq, List.mem_map]

theorem heads_subset (l : List M) : ∀ h ∈ (groups key l).map Cluster.head, h ∈ l := by
  induction l using List.reverseRecOn with
  | nil => simp [groups]
  | append_singleton l m ih =>
    intro h hh
    rw [groups_append, groupStep_heads] at hh
    split at hh
    · exact List.mem_append_left _ (ih h hh)
    · rcases List.mem_append.mp hh with hh | hh
      · exact List.mem_append_left _ (ih h hh)
      · exact List.mem_append_right _ hh

theorem keys_nodup (l : List M) : ((groups key l).map fun g => key g.head).Nodup := by
  have e : ∀ gs : List (Cluster M), (gs.map fun g => key g.head) = (gs.map Cluster.head).map key :=
    fun gs => by rw [List.map_map]; rfl
  induction l using List.reverseRecOn with
  | nil => exact List.nodup_nil
  | append_singleton l m ih =>
    rw [e, groups_append, groupStep_heads]
    split
    · rw [← e]; exact ih
    · rename_i hany
      rw [any_iff] at hany
      rw [List.map_append, ← e]
      refine List.nodup_append.mpr ⟨ih, by simp, ?_⟩
      intro k hk k' hk' heq
      rw [List.map_singleton, List.mem_singleton] at hk'
      exact hany (hk' ▸ heq ▸ hk)

theorem exists_group (l : List M) (m : M) (hm : m ∈ l) :
    ∃ g ∈ groups key l, key g.head = key m := by
  induction l using List.reverseRecOn with
  | nil => cases hm
  | append_singleton l m' ih =>
    -- the heads only grow
    have grow : ∀ h ∈ (groups key l).map Cluster.head, h ∈ (groups key (l ++ [m'])).map Cluster.head := by
      intro h hh
      rw [groups_append, groupStep_heads]
      split
      · exact hh
      · exact List.mem_append_left _ hh
    have lift : (∃ g ∈ groups key l, key g.head = key m) →
        ∃ g ∈ groups key (l ++ [m']), key g.head = key m := by
      rintro ⟨g, hg, hk⟩
      obtain ⟨g', hg', he⟩ := List.mem_map.mp (grow g.head (List.mem_map_of_mem hg))
      exact ⟨g', hg', he ▸ hk⟩
    rcases List.mem_append.mp hm with hm | hm
    · exact lift (ih hm)
    · have hmm : m = m' := by simpa using hm
      by_cases hany : (groups key l).any (fun g => key g.head = key m') = true
      · obtain ⟨g, hg, hk⟩ := List.mem_map.mp ((any_iff key _ _).mp hany)
        exact lift ⟨g, hg, hmm ▸ hk⟩
      · refine ⟨⟨m', []⟩, ?_, by rw [hmm]⟩
        rw [groups_append, groupStep, if_neg hany]
        exact List.mem_append_right _ (List.mem_singleton.mpr rfl)

/-- a group holds all members of its class in the order of the list -/
theorem cons_rest (l : List M) : ∀ g ∈ groups key l,
    g.head :: g.rest = l.filter fun m => key m = key g.head := by
  induction l using List.reverseRecOn with
  | nil => simp [groups]
  | append_singleton l m ih =>
    intro g hg
    rw [groups_append, groupStep] at hg
    rw [List.filter_append]
    split at hg
    · obtain ⟨g', hg', rfl⟩ := List.mem_map.mp hg
      by_cases hk : key g'.head = key m
      · rw [if_pos hk]
        show g'.head :: (g'.rest ++ [m]) = _
        rw [List.filter_cons_of_pos (by simpa using hk.symm), ← ih g' hg']
        rfl
      · rw [if_neg hk, List.filter_cons_of_neg (by simpa using Ne.symm hk), ← ih g' hg']
        simp
    · rename_i hany
      rw [any_iff] at hany
      rcases List.mem_append.mp hg with hg | hg
      · have hk : key m ≠ key g.head := fun h => hany (h ▸ List.mem_map_of_mem hg)
        rw [List.filter_cons_of_neg (by simpa using hk), ← ih g hg]
        simp
      · rw [List.mem_singleton.mp hg]
        have hnil : (l.filter fun x => key x = key m) = [] := by
          rw [List.filter_eq_nil_iff]
          intro x hx hxm
          obtain ⟨g', hg', hk⟩ := exists_group key l x hx
          have hxm' : key x = key m := by simpa using hxm
          exact hany (hxm' ▸ hk ▸ List.mem_map_of_mem hg')
        rw [hnil]
        simp

theorem mem_group_iff (l : List M) (g : Cluster M) (hg : g ∈ groups key l) (m : M) :
    m ∈ g.head :: g.rest ↔ m ∈ l ∧ key m = key g.head := by
  rw [cons_rest key l g hg, List.mem_filter]
  simp

end

section
variable {M K L : Type*} [DecidableEq K] [LinearOrder L] (key : M → K) (score : M → L)

/-- no member of its class has a better score -/
def IsBest (l : List M) (c : M) : Prop := c ∈ l ∧ ∀ m ∈ l, key m = key c → score c ≤ score m

/-- the classes with a member better than the score `s` -/
def above (l : List M) (s : L) : Finset K := ((l.filter fun m => score m < s).map key).toFinset

/-- the number of classes with a better member -/
def rank (l : List M) (s : L) : Nat := (above key score l s).card

theorem mem_above (l : List M) (s : L) (k : K) :
    k ∈ above key score l s ↔ ∃ m ∈ l, score m < s ∧ key m = k := by
  simp only [above, List.mem_toFinset, List.mem_map, List.mem_filter, decide_eq_true_eq,
    and_assoc]

theorem above_congr {l l' : List M} (h : ∀ m, m ∈ l ↔ m ∈ l') (s : L) :
    above key score l s = above key score l' s := by
  ext k
  simp only [mem_above, h]

theorem IsBest.congr {l l' : List M} (h : ∀ m, m ∈ l ↔ m ∈ l') {c : M}
    (hc : IsBest key score l c) : IsBest key score l' c :=
  ⟨(h c).mp hc.1, fun m hm => hc.2 m ((h m).mpr hm)⟩

/-- **Steady ranks**: when members of different classes compare as before, also after `φ` has changed
their scores, the best member of a class, whichever it is now, has the rank it had. -/
theorem rank_map (l : List M) (φ : M → M) (hkey : ∀ m ∈ l, key (φ m) = key m)
    (hsteady : ∀ a ∈ l, ∀ b ∈ l, key a ≠ key b → (score (φ a) < score (φ b) ↔ score a < score b))
    {c d : M} (hc : IsBest key score l c) (hd : d ∈ l) (hk : key d = key c)
    (hbest : IsBest key score (l.map φ) (φ d)) :
    rank key score (l.map φ) (score (φ d)) = rank key score l (score c) := by
  have hdbest : ∀ m ∈ l, key m = key c → score (φ d) ≤ score (φ m) := fun m hm hmc =>
    hbest.2 (φ m) (List.mem_map_of_mem hm) (by rw [hkey m hm, hkey d hd, hmc, hk])
  unfold rank
  congr 1
  ext k
  rw [mem_above, mem_above]
  constructor
  · rintro ⟨m', hm', hs, rfl⟩
    obtain ⟨m, hm, rfl⟩ := List.mem_map.mp hm'
    have hne : key m ≠ key c := fun h => absurd hs (not_lt.mpr (hdbest m hm h))
    have hsc : score (φ m) < score (φ c) := lt_of_lt_of_le hs (hdbest c hc.1 rfl)
    exact ⟨m, hm, (hsteady m hm c hc.1 hne).mp hsc, (hkey m hm).symm⟩
  · rintro ⟨m, hm, hs, rfl⟩
    have hne : key m ≠ key c := fun h => absurd hs (not_lt.mpr (hc.2 m hm h))
    have hsd : score m < score d := lt_of_lt_of_le hs (hc.2 d hd hk)
    exact ⟨φ m, List.mem_map_of_mem hm, (hsteady m hm d hd (by rw [hk]; exact hne)).mpr hsd,
      hkey m hm⟩

/-- one more member raises a rank by one or leaves it -/
theorem above_cons (t : M) (l : List M) (s : L) : above key score (t :: l) s
    = if score t < s then insert (key t) (above key score l s) else above key score l s := by
  ext k
  split
  · rename_i h
    simp only [mem_above, Finset.mem_insert, List.mem_cons]
    constructor
    · rintro ⟨m, rfl | hm, hs, hk⟩
      · exact Or.inl hk.symm
      · exact Or.inr ⟨m, hm, hs, hk⟩
    · rintro (rfl | ⟨m, hm, hs, hk⟩)
      · exact ⟨t, Or.inl rfl, h, rfl⟩
      · exact ⟨m, Or.inr hm, hs, hk⟩
  · rename_i h
    simp only [mem_above, List.mem_cons]
    constructor
    · rintro ⟨m, rfl | hm, hs, hk⟩
      · exact absurd hs h
      · exact ⟨m, hm, hs, hk⟩
    · rintro ⟨m, hm, hs, hk⟩
      exact ⟨m, Or.inr hm, hs, hk⟩

theorem rank_cons_of_lt (t : M) (l : List M) (s : L) (h : s ≤ score t) :
    rank key score (t :: l) s = rank key score l s := by
  unfold rank
  rw [above_cons, if_neg (not_lt.mpr h)]

theorem rank_cons (t : M) (l : List M) (s : L) :
    rank key score (t :: l) s = rank key score l s ∨
      rank key score (t :: l) s = rank key score l s + 1 := by
  unfold rank
  rw [above_cons]
  split
  · by_cases hm : key t ∈ above key score l s
    · rw [Finset.insert_eq_of_mem hm]; exact Or.inl rfl
    · rw [Finset.card_insert_of_notMem hm]; exact Or.inr rfl
  · exact Or.inl rfl

theorem rank_mono (l : List M) (s s' : L) (h : s ≤ s') :
    rank key score l s ≤ rank key score l s' := by
  refine Finset.card_le_card fun k hk => ?_
  rw [mem_above] at hk ⊢
  obtain ⟨m, hm, hs, hk⟩ := hk
  exact ⟨m, hm, lt_of_lt_of_le hs h, hk⟩

/-- in a sorted list -/
def Sorted (l : List M) : Prop := l.Pairwise fun a b => score a ≤ score b

/-- members of different classes have different scores -/
def Separated (l : List M) : Prop := ∀ a ∈ l, ∀ b ∈ l, score a = score b → key a = key b

theorem head_isBest (l : List M) (hs : Sorted score l) (g : Cluster M) (hg : g ∈ groups key l) :
    IsBest key score l g.head := by
  have hc := cons_rest key l g hg
  have hsub : (g.head :: g.rest).Pairwise fun a b => score a ≤ score b := by
    rw [hc]
    exact hs.sublist List.filter_sublist
  refine ⟨heads_subset key l _ (List.mem_map_of_mem hg), fun m hm hk => ?_⟩
  rcases List.mem_cons.mp ((mem_group_iff key l g hg m).mpr ⟨hm, hk⟩) with rfl | hr
  · exact le_refl _
  · exact (List.pairwise_cons.mp hsub).1 m hr

theorem heads_sorted (l : List M) (hs : Sorted score l) (hx : Separated key score l) :
    ((groups key l).map Cluster.head).Pairwise fun a b => score a < score b := by
  induction l using List.reverseRecOn with
  | nil => exact List.Pairwise.nil
  | append_singleton l m ih =>
    obtain ⟨hs', -, hlast⟩ := List.pairwise_append.mp hs
    have ih' := ih hs' fun a ha b hb => hx a (List.mem_append_left _ ha) b (List.mem_append_left _ hb)
    rw [groups_append, groupStep_heads]
    split
    · exact ih'
    · rename_i hany
      rw [any_iff] at hany
      refine List.pairwise_append.mpr ⟨ih', List.pairwise_singleton _ _, ?_⟩
      intro h hh m' hm'
      rw [List.mem_singleton.mp hm']
      have hl := heads_subset key l h hh
      refine lt_of_le_of_ne (hlast h hl m (List.mem_singleton.mpr rfl)) fun he => ?_
      -- a tie would put the two into one class, which has a group already
      have hk := hx h (List.mem_append_left _ hl) m (by simp) he
      obtain ⟨g, hg, rfl⟩ := List.mem_map.mp hh
      exact hany (hk ▸ List.mem_map_of_mem hg)

/-- The place of a group: the groups in front of it are the classes with a better member. -/
theorem index_eq_rank (l : List M) (hs : Sorted score l) (hx : Separated key score l) (i : Nat)
    (g : Cluster M) (hi : (groups key l)[i]? = some g) : i = rank key score l (score g.head) := by
  have hlt : i < (groups key l).length := (List.getElem?_eq_some_iff.mp hi).1
  have hget : (groups key l)[i] = g := (List.getElem?_eq_some_iff.mp hi).2
  have hsorted := heads_sorted key score l hs hx
  rw [List.pairwise_map] at hsorted
  have hfront : above key score l (score g.head)
      = (((groups key l).take i).map fun g => key g.head).toFinset := by
    ext k
    rw [mem_above, List.mem_toFinset, List.mem_map]
    constructor
    · rintro ⟨m, hm, hms, rfl⟩
      obtain ⟨g', hg', hk⟩ := exists_group key l m hm
      have hbest := (head_isBest key score l hs g' hg').2 m hm hk.symm
      refine ⟨g', ?_, hk⟩
      obtain ⟨j, hj, rfl⟩ := List.mem_iff_getElem.mp hg'
      rw [List.mem_take_iff_getElem]
      refine ⟨j, ?_, rfl⟩
      have hji : j < i := by
        by_contra hle
        rcases Nat.lt_or_eq_of_le (Nat.not_lt.mp hle) with h | h
        · have h1 := List.pairwise_iff_getElem.mp hsorted i j hlt hj h
          rw [hget] at h1
          exact absurd (lt_of_le_of_lt hbest hms) (not_lt.mpr h1.le)
        · subst h
          rw [hget] at hbest
          exact absurd hms (not_lt.mpr hbest)
      omega
    · rintro ⟨g', hg', rfl⟩
      obtain ⟨j, hj, rfl⟩ := List.mem_take_iff_getElem.mp hg'
      have hjl : j < (groups key l).length := by omega
      have h1 := List.pairwise_iff_getElem.mp hsorted j i hjl hlt (by omega)
      rw [hget] at h1
      exact ⟨_, heads_subset key l _ (List.mem_map_of_mem (List.getElem_mem hjl)), h1, rfl⟩
  have hnd : (((groups key l).take i).map fun g => key g.head).Nodup :=
    (keys_nodup key l).sublist ((List.take_sublist i _).map _)
  unfold rank
  rw [hfront, List.toFinset_card_of_nodup hnd, List.length_map, List.length_take]
  omega

/-- the number of groups is the number of classes -/
theorem groups_length (l : List M) :
    (groups key l).length = (l.map key).toFinset.card := by
  have he : (l.map key).toFinset = ((groups key l).map fun g => key g.head).toFinset := by
    ext k
    simp only [List.mem_toFinset, List.mem_map]
    constructor
    · rintro ⟨m, hm, rfl⟩
      exact exists_group key l m hm
    · rintro ⟨g, hg, rfl⟩
      exact ⟨g.head, heads_subset key l _ (List.mem_map_of_mem hg), rfl⟩
  rw [he, List.toFinset_card_of_nodup (keys_nodup key l), List.length_map]

end

end Ranking
