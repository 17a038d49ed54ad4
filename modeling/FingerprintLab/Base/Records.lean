import FingerprintLab.Base.Interleave

/-!
# Records that concurrent writers fill field by field

Threads on a shared store; some of them write one record, each of them all its fields in one fixed
order.  What a writer puts into a field is seen through `holds` only: the field of the record is what
the writer writes there.  A writer has a key, and two writers of one key may be mixed up freely.

* `Layout`     the order, the writes, and what they do to the fields of the record;
* `Untorn`     no writer starts while one with another key is between its first and its last tracked
               field;
* `Version`    all tracked fields are of one key, or are still to be written by a thread of that key;
* `whole`      a run that is never torn ends with all tracked fields of one key.
-/

set_option linter.unusedSectionVars false
set_option linter.unusedVariables false

namespace Records
open Interleave

section
variable {S T A F K : Type*}

/-- `mine` are the writers of the record; the others leave it alone. -/
structure Layout (S T A F K : Type*) where
  act : S → A → S
  order : List F
  tracked : Nat
  write : T → F → A
  key : T → K
  mine : T → Prop
  holds : S → F → T → Prop
  nodup : order.Nodup
  tracked_le : tracked ≤ order.length
  holds_self : ∀ s t f, mine t → holds (act s (write t f)) f t
  holds_ne : ∀ s t f g u, g ≠ f → holds s g u → holds (act s (write t f)) g u
  holds_other : ∀ s t f g u, ¬ mine t → holds s g u → holds (act s (write t f)) g u

variable (L : Layout S T A F K)

/-- the number of fields that a thread has written -/
def Layout.pos (th : Thread T A) : Nat := L.order.length - th.todo.length

/-- what is pending is the end of what the owner writes -/
def Layout.Orderly (c : Config S T A) : Prop :=
  ∀ th ∈ c.threads, ∃ n, th.todo = (L.order.drop n).map (L.write th.owner)

/-- between the first and the last tracked field -/
def Layout.Mid (th : Thread T A) : Prop := 0 < L.pos th ∧ L.pos th < L.tracked

/-- When thread `i` is about to start, the threads in mid-record have its key. -/
def Layout.Untorn (c : Config S T A) (i : Nat) : Prop :=
  ∀ th, c.threads[i]? = some th → th.todo ≠ [] → L.mine th.owner → L.pos th = 0 →
    ∀ u ∈ c.threads, L.mine u.owner → L.Mid u → L.key u.owner = L.key th.owner

/-- no writer of the record has started -/
def Layout.Fresh (c : Config S T A) : Prop := ∀ th ∈ c.threads, L.mine th.owner → L.pos th = 0

/-- field number `j` has a value of the key, or a thread of the key that has started will give it one -/
def Layout.Due (c : Config S T A) (k : K) (j : Nat) (f : F) : Prop :=
  ∃ th ∈ c.threads, L.mine th.owner ∧ L.key th.owner = k ∧
    (L.holds c.store f th.owner ∨ 0 < L.pos th ∧ L.pos th ≤ j)

structure Layout.Version (c : Config S T A) (k : K) : Prop where
  mid : ∀ th ∈ c.threads, L.mine th.owner → L.Mid th → L.key th.owner = k
  due : ∀ j f, j < L.tracked → L.order[j]? = some f → L.Due c k j f

/-- a thread that is about to write, and what it writes -/
theorem Layout.Orderly.next {c : Config S T A} (ho : L.Orderly c) {t : T} {a : A} {rest : List A}
    (hth : (⟨t, a :: rest⟩ : Thread T A) ∈ c.threads) :
    ∃ f, L.order[L.pos ⟨t, a :: rest⟩]? = some f ∧ a = L.write t f ∧
      rest = (L.order.drop (L.pos ⟨t, a :: rest⟩ + 1)).map (L.write t) ∧
      L.pos ⟨t, rest⟩ = L.pos ⟨t, a :: rest⟩ + 1 := by
  obtain ⟨n, hn⟩ := ho _ hth
  replace hn : a :: rest = (L.order.drop n).map (L.write t) := hn
  have hlen := congrArg List.length hn
  rw [List.length_map, List.length_drop, List.length_cons] at hlen
  have hpos : L.pos ⟨t, a :: rest⟩ = n := by
    show L.order.length - (rest.length + 1) = n
    omega
  have hlt : n < L.order.length := by omega
  rw [List.drop_eq_getElem_cons hlt, List.map_cons] at hn
  obtain ⟨ha, hrest⟩ := List.cons.inj hn
  rw [hpos]
  refine ⟨L.order[n], List.getElem?_eq_getElem hlt, ha, hrest, ?_⟩
  show L.order.length - rest.length = n + 1
  omega

/-- the threads after a turn, except for the one that moved -/
theorem mem_moved {threads : List (Thread T A)} {i : Nat} {t : T} {a : A} {rest : List A}
    {th : Thread T A} (hi : threads[i]? = some ⟨t, a :: rest⟩) (hth : th ∈ threads) :
    th ∈ threads.set i ⟨t, rest⟩ ∨
      th = ⟨t, a :: rest⟩ ∧ (⟨t, rest⟩ : Thread T A) ∈ threads.set i ⟨t, rest⟩ := by
  by_cases he : th = ⟨t, a :: rest⟩
  · exact .inr ⟨he, mem_set_self _ _ _ _ hi⟩
  · exact .inl (mem_set_of_ne _ _ _ _ _ hi hth he)

theorem orderly_next {c : Config S T A} (ho : L.Orderly c) (i : Nat) :
    L.Orderly (next L.act c i) := by
  rcases next_cases L.act c i with he | ⟨t, a, rest, hi, he⟩
  · rw [he]
    exact ho
  · rw [he]
    intro th hth
    rcases mem_set_cases _ _ _ _ hth with rfl | hth
    · obtain ⟨f, -, -, hrest, -⟩ := ho.next L (List.mem_of_getElem? hi)
      exact ⟨_, hrest⟩
    · exact ho th hth

section
variable {c : Config S T A} {i : Nat} {t : T} {a : A} {rest : List A}
  (hi : c.threads[i]? = some ⟨t, a :: rest⟩)
include hi

/-- what is due stays due: the fields that are not written now, or not of this record -/
theorem due_moved {k : K} {j : Nat} {f g : F} (ha : a = L.write t f)
    (hmove : L.pos ⟨t, rest⟩ = L.pos ⟨t, a :: rest⟩ + 1)
    (hg : g ≠ f ∧ j ≠ L.pos ⟨t, a :: rest⟩ ∨ ¬ L.mine t) (h : L.Due c k j g) :
    L.Due ⟨L.act c.store a, c.threads.set i ⟨t, rest⟩⟩ k j g := by
  obtain ⟨th, hth, hmine, hkey, hd⟩ := h
  have hkeep : L.holds c.store g th.owner → L.holds (L.act c.store a) g th.owner := by
    rw [ha]
    rcases hg with hg | hg
    · exact L.holds_ne _ _ _ _ _ hg.1
    · exact L.holds_other _ _ _ _ _ hg
  rcases mem_moved hi hth with hm | ⟨rfl, hm⟩
  · exact ⟨th, hm, hmine, hkey, hd.imp_left hkeep⟩
  · refine ⟨_, hm, hmine, hkey, hd.imp hkeep fun ⟨hpos, hle⟩ => ?_⟩
    rcases hg with hg | hg
    · rw [hmove]
      omega
    · exact absurd hmine hg

/-- a turn of another record's writer -/
theorem version_other {k : K} (ho : L.Orderly c) (hmine : ¬ L.mine t) (h : L.Version c k) :
    L.Version ⟨L.act c.store a, c.threads.set i ⟨t, rest⟩⟩ k := by
  obtain ⟨f, -, ha, -, hmove⟩ := ho.next L (List.mem_of_getElem? hi)
  refine ⟨fun th hth hm hmid => ?_, fun j g hj hg => ?_⟩
  · rcases mem_set_cases _ _ _ _ hth with rfl | hth
    · exact absurd hm hmine
    · exact h.mid th hth hm hmid
  · exact due_moved L hi ha hmove (.inr hmine) (h.due j g hj hg)

/-- a writer starts: the record is its version from now on -/
theorem version_start (ho : L.Orderly c) (hmine : L.mine t) (hpos : L.pos ⟨t, a :: rest⟩ = 0)
    (hN : L.Untorn c i) :
    L.Version ⟨L.act c.store a, c.threads.set i ⟨t, rest⟩⟩ (L.key t) := by
  obtain ⟨f, hf, ha, -, hmove⟩ := ho.next L (List.mem_of_getElem? hi)
  have hself := mem_set_self _ _ (⟨t, rest⟩ : Thread T A) _ hi
  refine ⟨fun th hth hm hmid => ?_, fun j g hj hg => ?_⟩
  · rcases mem_set_cases _ _ _ _ hth with rfl | hth
    · rfl
    · exact hN _ hi (List.cons_ne_nil a rest) hmine hpos th hth hm hmid
  · refine ⟨_, hself, hmine, rfl, ?_⟩
    rw [hpos] at hf hmove
    cases j with
    | zero =>
      rw [hf] at hg
      rw [← Option.some.inj hg, ha]
      exact .inl (L.holds_self _ _ _ hmine)
    | succ j =>
      exact .inr (by rw [hmove]; omega)

/-- a writer goes on -/
theorem version_next {k : K} (ho : L.Orderly c) (hmine : L.mine t)
    (hpos : 0 < L.pos ⟨t, a :: rest⟩) (h : L.Version c k) :
    L.Version ⟨L.act c.store a, c.threads.set i ⟨t, rest⟩⟩ k := by
  obtain ⟨f, hf, ha, -, hmove⟩ := ho.next L (List.mem_of_getElem? hi)
  have hold := List.mem_of_getElem? hi
  have hself := mem_set_self _ _ (⟨t, rest⟩ : Thread T A) _ hi
  refine ⟨fun th hth hm hmid => ?_, fun j g hj hg => ?_⟩
  · rcases mem_set_cases _ _ _ _ hth with rfl | hth
    · have hlt := hmid.2
      rw [hmove] at hlt
      exact h.mid ⟨t, a :: rest⟩ hold hmine ⟨hpos, by omega⟩
    · exact h.mid th hth hm hmid
  · by_cases hj' : j = L.pos ⟨t, a :: rest⟩
    · -- the field that is written
      rw [hj', hf] at hg
      have hkey := h.mid _ hold hmine ⟨hpos, by omega⟩
      refine ⟨_, hself, hmine, hkey, .inl ?_⟩
      rw [← Option.some.inj hg, ha]
      exact L.holds_self _ _ _ hmine
    · have hgf : g ≠ f := by
        intro he
        have hlt : j < L.order.length := (List.getElem?_eq_some_iff.mp hg).1
        exact hj' ((List.getElem?_inj hlt L.nodup).mp (by rw [hg, hf, he]))
      exact due_moved L hi ha hmove (.inl ⟨hgf, hj'⟩) (h.due j g hj hg)

end

/-- One turn that is not torn. -/
theorem version_turn (c : Config S T A) (i : Nat) (hN : L.Untorn c i) (ho : L.Orderly c)
    (h : L.Fresh c ∨ ∃ k, L.Version c k) :
    L.Fresh (next L.act c i) ∨ ∃ k, L.Version (next L.act c i) k := by
  rcases next_cases L.act c i with he | ⟨t, a, rest, hi, he⟩
  · rw [he]
    exact h
  rw [he]
  by_cases hmine : L.mine t
  · right
    by_cases hpos : L.pos ⟨t, a :: rest⟩ = 0
    · exact ⟨_, version_start L hi ho hmine hpos hN⟩
    · have hstarted : ∃ k, L.Version c k :=
        h.resolve_left fun hf => hpos (hf _ (List.mem_of_getElem? hi) hmine)
      exact hstarted.imp fun k hk => version_next L hi ho hmine (Nat.pos_of_ne_zero hpos) hk
  · refine h.imp (fun hf th hth hm => ?_) fun ⟨k, hk⟩ => ⟨k, version_other L hi ho hmine hk⟩
    rcases mem_set_cases _ _ _ _ hth with rfl | hth
    · exact absurd hm hmine
    · exact hf th hth hm

/-- **No torn record**: when a run is never torn and every thread is done, the tracked fields of a
record with a writer are what writers of one key have written. -/
theorem whole (c : Config S T A) (sched : List Nat) (hN : Turns L.act L.Untorn c sched)
    (ho : L.Orderly c) (hf : L.Fresh c) (hdone : (run L.act c sched).Done) (hpos : 0 < L.order.length)
    (hw : ∃ th ∈ c.threads, L.mine th.owner) :
    ∃ k, ∀ j f, j < L.tracked → L.order[j]? = some f →
      ∃ t ∈ c.threads.map Thread.owner, L.mine t ∧ L.key t = k ∧
        L.holds (run L.act c sched).store f t := by
  have hinv : L.Orderly (run L.act c sched) ∧
      (L.Fresh (run L.act c sched) ∨ ∃ k, L.Version (run L.act c sched) k) :=
    run_inv L.act L.Untorn (fun s => L.Orderly s ∧ (L.Fresh s ∨ ∃ k, L.Version s k))
      (fun s i hN ⟨ho, h⟩ => ⟨orderly_next L ho i, version_turn L s i hN ho h⟩) c sched hN
      ⟨ho, .inl hf⟩
  have howners := run_owners L.act c sched
  generalize run L.act c sched = s at hinv howners hdone ⊢
  have hend : ∀ th ∈ s.threads, L.pos th = L.order.length := by
    intro th hth
    unfold Layout.pos
    rw [hdone th hth]
    rfl
  rcases hinv.2 with hfresh | ⟨k, hk⟩
  · obtain ⟨w, hw, hwm⟩ := hw
    have hmem : w.owner ∈ s.threads.map Thread.owner := by
      rw [howners]
      exact List.mem_map_of_mem hw
    obtain ⟨th, hth, hthw⟩ := List.mem_map.mp hmem
    have h0 := hfresh th hth (hthw ▸ hwm)
    rw [hend th hth] at h0
    omega
  · refine ⟨k, fun j f hj hf => ?_⟩
    obtain ⟨th, hth, hmine, hkey, hd⟩ := hk.due j f hj hf
    have hle := L.tracked_le
    refine ⟨th.owner, howners ▸ List.mem_map_of_mem hth, hmine, hkey, hd.resolve_right ?_⟩
    rw [hend th hth]
    omega

end

end Records
