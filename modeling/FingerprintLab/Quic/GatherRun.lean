import FingerprintLab.Quic.Gather

/-!
# Gathers over a run

* `Started`         what every run keeps: a state with a gather is finished or is still to be;
* `Control`         the states that are still to be finished will be so once, and the map holds
                    exactly these;
* `Kept`            every accepted datagram is in one place;
* `exec_once`       a run in which the reader always stops the timer in time keeps `Once`;
* `late_twice`      a reader that stops it too late finishes a peer a second time;
* `gathers_finished_once`   both for whole runs.
-/

set_option linter.unusedVariables false

namespace Quic
open Go Runs

section
variable {G : Type}

/-! ## the invariants -/

structure Started (s : Server G) : Prop where
  unmade : ∀ i, s.made ≤ i → (s.states i).gather = none
  fresh : ∀ i, (s.states i).gather = none → s.pending i = 0 ∧ s.calls i = 0
  loaded : ∀ i d, s.reader = .loaded i d → i < s.made
  peers : ∀ key i, s.peers key = some i → i < s.made
  started : ∀ i, (s.states i).gather ≠ none → 1 ≤ s.pending i + s.calls i

structure Control (s : Server G) : Prop where
  loading : ∀ i, i < s.made → (s.states i).gather = none → ∃ d, s.reader = .loaded i d
  once : ∀ i, s.pending i + s.calls i ≤ 1
  peers : ∀ key i, s.peers key = some i ↔
    i < s.made ∧ (s.states i).key = key ∧ s.calls i = 0
  removals : ∀ r ∈ s.removals, ∀ i, r.found = some i → i = r.st

structure Kept (s : Server G) : Prop where
  fresh : ∀ i, (s.states i).gather = none → (s.states i).datagram = []
  called : ∀ c ∈ s.finished, c.datagrams = (s.states c.st).datagram
  loaded : ∀ i d, s.reader = .loaded i d → d.nr + 1 = s.accepted
  accepted : ∀ i, ∀ d ∈ (s.states i).datagram, d.nr < s.accepted
  waiting : ∀ i, ∀ d ∈ (s.states i).datagram, ∀ j e, s.reader = .loaded j e → d.nr ≠ e.nr
  own : ∀ i j, ∀ d ∈ (s.states i).datagram, ∀ e ∈ (s.states j).datagram, d.nr = e.nr → i = j
  located : ∀ nr < s.accepted, (∃ i, ∃ d ∈ (s.states i).datagram, d.nr = nr) ∨
    ∃ i d, s.reader = .loaded i d ∧ d.nr = nr

theorem started_init : Started ({} : Server G) where
  unmade i _ := rfl
  fresh i _ := ⟨rfl, rfl⟩
  loaded i d h := nomatch h
  peers key i h := nomatch h
  started i h := absurd rfl h

theorem control_init : Control ({} : Server G) where
  loading i h := absurd h (Nat.not_lt_zero i)
  once i := Nat.zero_le 1
  peers key i := iff_of_false (nofun : none ≠ some i) fun h => absurd h.1 (Nat.not_lt_zero i)
  removals r h := absurd h List.not_mem_nil

theorem kept_init : Kept ({} : Server G) where
  fresh i _ := rfl
  called c h := absurd h List.not_mem_nil
  loaded i d h := nomatch h
  accepted i d h := absurd h List.not_mem_nil
  waiting i d h := absurd h List.not_mem_nil
  own i j d h := absurd h List.not_mem_nil
  located nr h := absurd h (Nat.not_lt_zero nr)

/-! ## `finalize` -/

theorem calls_of_finished {s t : Server G} (h : t.finished = s.finished) (i : Nat) :
    t.calls i = s.calls i := by
  unfold Server.calls
  rw [h]

theorem finalize_finished {s : Server G} {st : Nat} (h : (s.states st).gather ≠ none) :
    ∃ g, (finalize s st).finished = s.finished ++ [⟨st, (s.states st).datagram, g⟩] := by
  obtain ⟨g, hg⟩ := Option.ne_none_iff_exists'.mp h
  refine ⟨g, ?_⟩
  unfold finalize
  dsimp only
  rw [hg]

theorem finalize_calls {s : Server G} {st : Nat} (h : (s.states st).gather ≠ none) (i : Nat) :
    (finalize s st).calls i = s.calls i + if i = st then 1 else 0 := by
  obtain ⟨g, hg⟩ := finalize_finished h
  unfold Server.calls
  rw [hg, List.countP_append, List.countP_singleton]
  by_cases hi : i = st
  · rw [if_pos hi, if_pos (by simpa using hi.symm)]
  · rw [if_neg hi, if_neg (by simpa using fun he : st = i => hi he.symm)]

theorem Started.lt {s : Server G} (h : Started s) {i : Nat} (hg : (s.states i).gather ≠ none) :
    i < s.made := by
  by_contra hlt
  exact hg (h.unmade i (Nat.le_of_not_lt hlt))

section
variable {s t : Server G} {st : Nat}

/-- a state that `finalize` is still to be called for has a gather -/
theorem Started.taken (h : Started s) (ht : Taken s t st) : (t.states st).gather ≠ none := by
  intro hn
  rw [ht.gather] at hn
  have h0 := (h.fresh st hn).1
  have h1 := ht.self
  omega

theorem Taken.calls (ht : Taken s t st) (hg : (t.states st).gather ≠ none) (i : Nat) :
    (finalize t st).calls i = s.calls i + if i = st then 1 else 0 := by
  rw [finalize_calls hg, calls_of_finished ht.finished]

/-- `finalize` turns a pending call into a call -/
theorem Taken.balance (ht : Taken s t st) (hg : (t.states st).gather ≠ none) (i : Nat) :
    (finalize t st).pending i + (finalize t st).calls i = s.pending i + s.calls i := by
  have hpend : (finalize t st).pending i = t.pending i := rfl
  rw [hpend, ht.calls hg]
  by_cases hi : i = st
  · rw [hi, if_pos rfl, ← ht.self]
    omega
  · rw [if_neg hi, ht.other i hi]
    omega

theorem finalize_started (h : Started s) (ht : Taken s t st) : Started (finalize t st) := by
  have hg := h.taken ht
  constructor
  · intro i hi
    show (t.states i).gather = none
    rw [ht.gather]
    exact h.unmade i (by rw [← ht.made]; exact hi)
  · intro i hi
    have hi' : (t.states i).gather = none := hi
    rw [ht.gather] at hi'
    have h0 := h.fresh i hi'
    have h1 := ht.balance hg i
    exact ⟨by omega, by omega⟩
  · intro i d hd
    show i < t.made
    rw [ht.made]
    exact h.loaded i d ((ht.loaded i d).mp hd)
  · intro key i hi
    have hi' : Function.update t.peers (t.states st).key none key = some i := hi
    show i < t.made
    rw [ht.made]
    by_cases hk : key = (t.states st).key
    · rw [hk, Function.update_self] at hi'
      cases hi'
    · rw [Function.update_of_ne hk, ht.peers] at hi'
      exact h.peers key i hi'
  · intro i hi
    have hi' : (t.states i).gather ≠ none := hi
    rw [ht.gather] at hi'
    rw [ht.balance hg]
    exact h.started i hi'

/-- A pending call of `finalize` is the only one of its state, and it removes its own entry. -/
theorem Control.taken (h0 : Started s) (h : Control s) (ht : Taken s t st) :
    s.calls st = 0 ∧ t.peers (t.states st).key = some st := by
  have hlt : st < s.made := by
    refine h0.lt ?_
    rw [← ht.gather]
    exact h0.taken ht
  have h1 := h.once st
  have h2 := ht.self
  refine ⟨by omega, ?_⟩
  rw [ht.peers, ht.key]
  exact (h.peers _ _).mpr ⟨hlt, rfl, by omega⟩

theorem finalize_control (h0 : Started s) (h : Control s) (ht : Taken s t st) :
    Control (finalize t st) := by
  have hg := h0.taken ht
  obtain ⟨hc, hpeer⟩ := h.taken h0 ht
  constructor
  · intro i hlt hi
    have hi' : (t.states i).gather = none := hi
    have hlt' : i < t.made := hlt
    rw [ht.gather] at hi'
    rw [ht.made] at hlt'
    obtain ⟨d, hd⟩ := h.loading i hlt' hi'
    exact ⟨d, (ht.loaded i d).mpr hd⟩
  · intro i
    rw [ht.balance hg]
    exact h.once i
  · intro key i
    show Function.update t.peers (t.states st).key none key = some i ↔
      i < t.made ∧ (t.states i).key = key ∧ (finalize t st).calls i = 0
    rw [ht.calls hg, ht.made, ht.key i]
    by_cases hk : key = (t.states st).key
    · -- the removed key: its only owner was `st`, which has now been called
      rw [hk, Function.update_self]
      refine iff_of_false (nofun : none ≠ some i) fun ⟨hlt, hkey, hz⟩ => ?_
      have hown : s.peers (t.states st).key = some i :=
        (h.peers _ i).mpr ⟨hlt, hkey, by omega⟩
      rw [← ht.peers, hpeer] at hown
      rw [← Option.some.inj hown, if_pos rfl] at hz
      omega
    · rw [Function.update_of_ne hk, ht.peers, h.peers]
      have hi : (s.states i).key = key → i ≠ st := by
        rintro hkey rfl
        rw [ht.key] at hk
        exact hk hkey.symm
      constructor
      · rintro ⟨hlt, hkey, hz⟩
        exact ⟨hlt, hkey, by rw [if_neg (hi hkey)]; exact hz⟩
      · rintro ⟨hlt, hkey, hz⟩
        rw [if_neg (hi hkey)] at hz
        exact ⟨hlt, hkey, hz⟩
  · intro r hr i hi
    have hr' : r ∈ t.removals ++ [⟨st, t.peers (t.states st).key⟩] := hr
    rw [List.mem_append, List.mem_singleton] at hr'
    rcases hr' with hr' | hr'
    · rw [ht.removals] at hr'
      exact h.removals r hr' i hi
    · rw [hr'] at hi ⊢
      exact (Option.some.inj (hpeer.symm.trans hi)).symm

end

theorem finalize_kept {s t : Server G} {st : Nat} (h : Kept s) (ht : Taken s t st)
    (hg : (t.states st).gather ≠ none) : Kept (finalize t st) := by
  have hd : ∀ i, ((finalize t st).states i).datagram = (s.states i).datagram := ht.datagram
  have hr : ∀ i d, (finalize t st).reader = .loaded i d ↔ s.reader = .loaded i d := ht.loaded
  have ha : (finalize t st).accepted = s.accepted := ht.accepted
  constructor
  · intro i hi
    have hi' : (t.states i).gather = none := hi
    rw [hd]
    exact h.fresh i (by rw [← ht.gather]; exact hi')
  · intro c hc
    obtain ⟨g, he⟩ := finalize_finished hg
    rw [he, List.mem_append, List.mem_singleton, ht.finished] at hc
    rcases hc with hc | rfl
    · rw [hd]
      exact h.called c hc
    · rfl
  · intro i d hl
    rw [ha]
    exact h.loaded i d ((hr i d).mp hl)
  · intro i d hm
    rw [hd] at hm
    rw [ha]
    exact h.accepted i d hm
  · intro i d hm j e hl
    rw [hd] at hm
    exact h.waiting i d hm j e ((hr j e).mp hl)
  · intro i j d hm e hm'
    rw [hd] at hm hm'
    exact h.own i j d hm e hm'
  · intro nr hn
    rw [ha] at hn
    rcases h.located nr hn with ⟨i, d, hm, he⟩ | ⟨i, d, hl, he⟩
    · exact .inl ⟨i, d, by rw [hd]; exact hm, he⟩
    · exact .inr ⟨i, d, (hr i d).mpr hl, he⟩

/-! ## the other actions -/

/-- What an accepted datagram leaves: the looked up state `st` is an old one, or it is new and
empty. -/
structure Accepted (s t : Server G) (key : Bytes) (d : Datagram) (st : Nat) : Prop where
  reader : t.reader = .loaded st d
  accepted : t.accepted = s.accepted + 1
  finished : t.finished = s.finished
  removals : t.removals = s.removals
  other : ∀ i, (i ≠ st ∨ st < s.made) → t.states i = s.states i
  found : (s.peers key = some st ∧ t.peers = s.peers ∧ t.made = s.made ∧ st < s.made) ∨
    (s.peers key = none ∧ t.peers = Function.update s.peers key (some st) ∧ st = s.made ∧
      t.made = s.made + 1 ∧ t.states st = { key := key })

theorem accept_spec {s : Server G} (h : Started s) (key bytes : Bytes) :
    ∃ st, Accepted s (accept s key bytes) key ⟨s.accepted, bytes⟩ st := by
  rcases accept_cases s key bytes with ⟨st, hst, he⟩ | ⟨hnone, he⟩
  · rw [he]
    exact ⟨st, rfl, rfl, rfl, rfl, fun i _ => rfl, .inl ⟨hst, rfl, rfl, h.peers key st hst⟩⟩
  · rw [he]
    refine ⟨s.made, rfl, rfl, rfl, rfl, ?_, .inr ⟨hnone, rfl, rfl, rfl, Function.update_self ..⟩⟩
    intro i hi
    exact Function.update_of_ne (hi.resolve_right (Nat.lt_irrefl _)) ..

section
variable {s t : Server G} {key : Bytes} {d : Datagram} {st : Nat}

theorem Accepted.calls (ha : Accepted s t key d st) (i : Nat) : t.calls i = s.calls i :=
  calls_of_finished ha.finished i

theorem Accepted.pending (h : Started s) (hr : s.reader = .reading) (ha : Accepted s t key d st)
    (i : Nat) : t.pending i = s.pending i := by
  have hold : t.states i = s.states i → t.pending i = s.pending i := by
    intro hs
    unfold Server.pending
    rw [hs, ha.reader, hr, if_neg (nofun : Reader.loaded st d ≠ .completed i),
      if_neg (nofun : Reader.reading ≠ .completed i)]
  by_cases hi : i = st
  · rcases ha.found with ⟨-, -, -, hlt⟩ | ⟨-, -, hst, -, hnew⟩
    · exact hold (ha.other i (.inr hlt))
    · rw [hi, (h.fresh st (h.unmade st (Nat.le_of_eq hst.symm))).1]
      unfold Server.pending
      rw [hnew, ha.reader, if_neg (nofun : Reader.loaded st d ≠ .completed st)]
      rfl
  · exact hold (ha.other i (.inl hi))

/-- a part of the states that a new one has in common with the free place stays the same -/
theorem Accepted.same {α : Type} (f : PeerState G → α) (ha : Accepted s t key d st)
    (hnew : s.made ≤ st → f { key := key } = f (s.states st)) (i : Nat) :
    f (t.states i) = f (s.states i) := by
  by_cases hi : i = st
  · rcases ha.found with ⟨-, -, -, hlt⟩ | ⟨-, -, hst, -, hstate⟩
    · rw [ha.other i (.inr hlt)]
    · rw [hi, hstate]
      exact hnew (Nat.le_of_eq hst.symm)
  · rw [ha.other i (.inl hi)]

theorem Accepted.gather (h : Started s) (ha : Accepted s t key d st) (i : Nat) :
    (t.states i).gather = (s.states i).gather :=
  ha.same PeerState.gather (fun hst => (h.unmade st hst).symm) i

theorem accepted_started (h : Started s) (hr : s.reader = .reading)
    (ha : Accepted s t key d st) : Started t := by
  have hg := ha.gather h
  have hp := ha.pending h hr
  have hmade : s.made ≤ t.made ∧ st < t.made := by
    rcases ha.found with ⟨-, -, hm, hlt⟩ | ⟨-, -, hst, hm, -⟩
    · omega
    · omega
  constructor
  · intro i hi
    rw [hg]
    exact h.unmade i (Nat.le_trans hmade.1 hi)
  · intro i hi
    rw [hg] at hi
    rw [hp, ha.calls]
    exact h.fresh i hi
  · intro i e he
    rw [ha.reader] at he
    rw [← (Reader.loaded.inj he).1]
    exact hmade.2
  · intro k i hi
    rcases ha.found with ⟨-, hpeers, hm, -⟩ | ⟨-, hpeers, -, -, -⟩
    · rw [hpeers] at hi
      rw [hm]
      exact h.peers k i hi
    · rw [hpeers] at hi
      by_cases hk : k = key
      · rw [hk, Function.update_self] at hi
        rw [← Option.some.inj hi]
        exact hmade.2
      · rw [Function.update_of_ne hk] at hi
        exact Nat.lt_of_lt_of_le (h.peers k i hi) hmade.1
  · intro i hi
    rw [hg] at hi
    rw [hp, ha.calls]
    exact h.started i hi

theorem accepted_control (h0 : Started s) (h : Control s) (hr : s.reader = .reading)
    (ha : Accepted s t key d st) : Control t := by
  have hg := ha.gather h0
  have hidle : ∀ i, i < s.made → (s.states i).gather ≠ none := by
    intro i hi hn
    obtain ⟨e, he⟩ := h.loading i hi hn
    rw [hr] at he
    cases he
  constructor
  · intro i hi hn
    rw [hg] at hn
    rcases ha.found with ⟨-, -, hm, -⟩ | ⟨-, -, hst, hm, -⟩
    · rw [hm] at hi
      exact absurd hn (hidle i hi)
    · have him : i = st := by
        by_contra hne
        exact hidle i (by omega) hn
      rw [him]
      exact ⟨d, ha.reader⟩
  · intro i
    rw [ha.pending h0 hr, ha.calls]
    exact h.once i
  · intro k i
    rw [ha.calls]
    rcases ha.found with ⟨-, hpeers, hm, hlt⟩ | ⟨hnone, hpeers, hst, hm, hnew⟩
    · rw [hpeers, hm, ha.other i (.inr hlt)]
      exact h.peers k i
    · rw [hpeers, hm]
      by_cases him : i = st
      · have hc : s.calls st = 0 := (h0.fresh st (h0.unmade st (Nat.le_of_eq hst.symm))).2
        rw [him, hnew]
        by_cases hk : k = key
        · rw [hk, Function.update_self]
          exact iff_of_true rfl ⟨by omega, rfl, hc⟩
        · rw [Function.update_of_ne hk]
          refine iff_of_false (fun hp => ?_) fun hp => hk hp.2.1.symm
          have := h0.peers k st hp
          omega
      · rw [ha.other i (.inl him)]
        by_cases hk : k = key
        · -- the key was free, so no other open state has it
          rw [hk, Function.update_self]
          refine iff_of_false (fun hp => him (Option.some.inj hp).symm) fun ⟨hlt, hkey, hz⟩ => ?_
          have := (h.peers key i).mpr ⟨by omega, hkey, hz⟩
          rw [hnone] at this
          cases this
        · rw [Function.update_of_ne hk, h.peers]
          refine and_congr_left fun _ => ?_
          constructor
          · intro hlt
            omega
          · intro hlt
            omega
  · rw [ha.removals]
    exact h.removals

theorem accepted_kept (h0 : Started s) (h : Kept s) (hr : s.reader = .reading)
    (hd : d.nr = s.accepted) (ha : Accepted s t key d st) : Kept t := by
  have hg := ha.gather h0
  -- a new state has no datagrams, and the old ones keep theirs
  have hdata : ∀ i, (t.states i).datagram = (s.states i).datagram :=
    ha.same PeerState.datagram fun hst => (h.fresh st (h0.unmade st hst)).symm
  constructor
  · intro i hi
    rw [hg] at hi
    rw [hdata]
    exact h.fresh i hi
  · intro c hm
    rw [ha.finished] at hm
    rw [hdata]
    exact h.called c hm
  · intro i e he
    rw [ha.reader] at he
    rw [ha.accepted, ← (Reader.loaded.inj he).2, hd]
  · intro i e he
    rw [hdata] at he
    rw [ha.accepted]
    exact Nat.lt_succ_of_lt (h.accepted i e he)
  · intro i e he j f hf
    rw [hdata] at he
    rw [ha.reader] at hf
    rw [← (Reader.loaded.inj hf).2, hd]
    exact Nat.ne_of_lt (h.accepted i e he)
  · intro i j
    rw [hdata, hdata]
    exact h.own i j
  · intro nr hn
    rw [ha.accepted] at hn
    rcases Nat.lt_succ_iff_lt_or_eq.mp hn with hn | hn
    · rcases h.located nr hn with ⟨i, e, he, hnr⟩ | ⟨i, e, he, -⟩
      · exact .inl ⟨i, e, by rw [hdata]; exact he, hnr⟩
      · rw [hr] at he
        cases he
    · exact .inr ⟨st, d, ha.reader, hd.trans hn.symm⟩

end

/-- what the reader's critical section leaves of the states -/
theorem add_states (s : Server G) (st : Nat) (d : Datagram) (g : G) (done : Bool) :
    (add s st d g done).states st = (s.states st).add d g done ∧
      ∀ i, i ≠ st → (add s st d g done).states i = s.states i :=
  ⟨Function.update_self .., fun i hi => Function.update_of_ne hi ..⟩

/-- the reader has set the timer, or it is about to finish the peer itself -/
theorem add_pending {s : Server G} {st : Nat} {d : Datagram} (hr : s.reader = .loaded st d) (g : G)
    (done : Bool) : (add s st d g done).pending st = (s.states st).fired + 1 ∧
      ∀ i, i ≠ st → (add s st d g done).pending i = s.pending i := by
  obtain ⟨hself, hother⟩ := add_states s st d g done
  have hreader : (add s st d g done).reader = if done then .completed st else .reading := rfl
  constructor
  · have hfired : ((s.states st).add d g done).fired = (s.states st).fired := by
      unfold PeerState.add
      dsimp only
      split <;> rfl
    have harmed : ((s.states st).add d g done).armed = !done := rfl
    unfold Server.pending
    rw [hself, hfired, harmed, hreader]
    cases done
    · rw [if_neg (nofun : (if false = true then Reader.completed st else .reading) ≠ .completed st)]
      show 1 + (s.states st).fired + 0 = _
      omega
    · show 0 + (s.states st).fired + (if Reader.completed st = .completed st then 1 else 0) = _
      rw [if_pos rfl]
      omega
  · intro i hi
    have hne : (add s st d g done).reader ≠ .completed i := by
      rw [hreader]
      cases done
      · exact nofun
      · exact fun he => hi (Reader.completed.inj he).symm
    unfold Server.pending
    rw [hother i hi, if_neg hne, hr, if_neg (nofun : Reader.loaded st d ≠ .completed i)]

/-- what is pending or done for the locked state: one more when its timer did not run -/
theorem add_balance {s : Server G} {st : Nat} {d : Datagram} (hr : s.reader = .loaded st d) (g : G)
    (done : Bool) : (add s st d g done).pending st
      = s.pending st + if (s.states st).armed then 0 else 1 := by
  rw [(add_pending hr g done).1]
  unfold Server.pending
  rw [hr, if_neg (nofun : Reader.loaded st d ≠ .completed st)]
  cases (s.states st).armed
  · show _ = 0 + _ + 0 + 1
    omega
  · show _ = 1 + _ + 0 + 0
    omega

theorem add_started {s : Server G} {st : Nat} {d : Datagram} (h : Started s)
    (hr : s.reader = .loaded st d) (g : G) (done : Bool) : Started (add s st d g done) := by
  obtain ⟨hself, hother⟩ := add_states s st d g done
  obtain ⟨hpself, hpother⟩ := add_pending hr g done
  have hgather : ((add s st d g done).states st).gather ≠ none := by
    rw [hself]
    exact Option.some_ne_none g
  have hcalls : ∀ i, (add s st d g done).calls i = s.calls i := fun i => rfl
  constructor
  · intro i hi
    have hi' : s.made ≤ i := hi
    have hlt := h.loaded st d hr
    rw [hother i (by omega)]
    exact h.unmade i hi
  · intro i hi
    have hne : i ≠ st := by
      rintro rfl
      exact hgather hi
    rw [hother i hne] at hi
    rw [hpother i hne, hcalls]
    exact h.fresh i hi
  · intro i e he
    have hreader : (if done then Reader.completed st else .reading) = .loaded i e := he
    cases done <;> cases hreader
  · exact h.peers
  · intro i hi
    rw [hcalls]
    by_cases hne : i = st
    · rw [hne, hpself]
      omega
    · rw [hother i hne] at hi
      rw [hpother i hne]
      exact h.started i hi

/-- a reader that stops the timer in time has a state that is not finished and no callback waiting -/
theorem Control.inTime {s : Server G} {st : Nat} {d : Datagram} (h0 : Started s) (h : Control s)
    (ht : (s.states st).gather = none ∨ (s.states st).armed = true) :
    (s.states st).fired = 0 ∧ s.calls st = 0 := by
  by_cases hg : (s.states st).gather = none
  · obtain ⟨hp, hc⟩ := h0.fresh st hg
    unfold Server.pending at hp
    exact ⟨by omega, hc⟩
  · have hp := h.once st
    unfold Server.pending at hp
    rw [if_pos (ht.resolve_left hg)] at hp
    exact ⟨by omega, by omega⟩

theorem add_control {s : Server G} {st : Nat} {d : Datagram} (h0 : Started s) (h : Control s)
    (hr : s.reader = .loaded st d) (ht : (s.states st).gather = none ∨ (s.states st).armed = true)
    (g : G) (done : Bool) : Control (add s st d g done) := by
  obtain ⟨hfired, hcall⟩ := h.inTime h0 (d := d) ht
  obtain ⟨hself, hother⟩ := add_states s st d g done
  obtain ⟨hpself, hpother⟩ := add_pending hr g done
  have hcalls : ∀ i, (add s st d g done).calls i = s.calls i := fun i => rfl
  constructor
  · intro i hi hg
    have hne : i ≠ st := by
      rintro rfl
      rw [hself] at hg
      exact Option.some_ne_none g hg
    rw [hother i hne] at hg
    obtain ⟨e, he⟩ := h.loading i hi hg
    rw [hr] at he
    exact absurd (Reader.loaded.inj he).1.symm hne
  · intro i
    rw [hcalls]
    by_cases hne : i = st
    · rw [hne, hpself, hfired, hcall]
    · rw [hpother i hne]
      exact h.once i
  · intro key i
    have hkey : ((add s st d g done).states i).key = (s.states i).key := by
      by_cases hne : i = st
      · rw [hne, hself]
        unfold PeerState.add
        dsimp only
        split <;> rfl
      · rw [hother i hne]
    rw [hkey, hcalls]
    exact h.peers key i
  · exact h.removals

/-- the datagram goes to the end of the locked state -/
theorem add_datagram {s : Server G} {st : Nat} {d : Datagram} (h : Kept s) (g : G) (done : Bool) :
    ((add s st d g done).states st).datagram = (s.states st).datagram ++ [d] := by
  rw [(add_states s st d g done).1]
  unfold PeerState.add
  dsimp only
  by_cases hg : (s.states st).gather = none
  · rw [hg, h.fresh st hg]
    rfl
  · rw [if_neg (by rw [Option.isNone_iff_eq_none]; exact hg)]

theorem add_kept {s : Server G} {st : Nat} {d : Datagram} (h0 : Started s) (hc : Control s)
    (h : Kept s)
    (hr : s.reader = .loaded st d) (ht : (s.states st).gather = none ∨ (s.states st).armed = true)
    (g : G) (done : Bool) : Kept (add s st d g done) := by
  obtain ⟨-, hcall⟩ := hc.inTime h0 (d := d) ht
  obtain ⟨hself, hother⟩ := add_states s st d g done
  have hdata : ((add s st d g done).states st).datagram = (s.states st).datagram ++ [d] :=
    add_datagram h g done
  have hlast := h.loaded st d hr
  have hreader : ∀ i e, (add s st d g done).reader ≠ .loaded i e := by
    intro i e he
    have he' : (if done then Reader.completed st else .reading) = .loaded i e := he
    cases done <;> cases he'
  -- what a state holds now is what it held, or the new datagram
  have hmem : ∀ i, ∀ e ∈ ((add s st d g done).states i).datagram,
      e ∈ (s.states i).datagram ∨ i = st ∧ e = d := by
    intro i e he
    by_cases hne : i = st
    · rw [hne, hdata, List.mem_append, List.mem_singleton] at he
      rw [hne]
      exact he.imp id fun he => ⟨rfl, he⟩
    · rw [hother i hne] at he
      exact .inl he
  constructor
  · intro i hi
    have hne : i ≠ st := by
      rintro rfl
      rw [hself] at hi
      exact Option.some_ne_none g hi
    rw [hother i hne] at hi ⊢
    exact h.fresh i hi
  · intro c hm
    have hm' : c ∈ s.finished := hm
    have hne : c.st ≠ st := by
      intro he
      have := List.countP_eq_zero.mp hcall c hm'
      exact this (by simpa using he)
    rw [hother _ hne]
    exact h.called c hm'
  · intro i e he
    exact absurd he (hreader i e)
  · intro i e he
    show e.nr < s.accepted
    rcases hmem i e he with he | ⟨-, rfl⟩
    · exact h.accepted i e he
    · omega
  · intro i e _ j f hf
    exact absurd hf (hreader j f)
  · intro i j e he f hf hnr
    rcases hmem i e he with he' | ⟨hi, hed⟩
    · rcases hmem j f hf with hf' | ⟨hj, hfd⟩
      · exact h.own i j e he' f hf' hnr
      · rw [hfd] at hnr
        exact absurd hnr (h.waiting i e he' _ _ hr)
    · rcases hmem j f hf with hf' | ⟨hj, -⟩
      · rw [hed] at hnr
        exact absurd hnr.symm (h.waiting j f hf' _ _ hr)
      · rw [hi, hj]
  · intro nr hn
    rcases h.located nr hn with ⟨i, e, he, hnr⟩ | ⟨i, e, he, hnr⟩
    · refine .inl ⟨i, e, ?_, hnr⟩
      by_cases hne : i = st
      · rw [hne] at he ⊢
        rw [hdata]
        exact List.mem_append_left [d] he
      · rw [hother i hne]
        exact he
    · rw [hr] at he
      obtain ⟨rfl, rfl⟩ := Reader.loaded.inj he
      refine .inl ⟨st, d, ?_, hnr⟩
      rw [hdata]
      exact List.mem_append_right _ List.mem_cons_self

theorem fire_pending {s : Server G} {st : Nat} (ha : (s.states st).armed = true) (i : Nat) :
    (s.setState st (s.states st).fire).pending i = s.pending i := by
  by_cases hi : i = st
  · rw [hi, pending_setState_self]
    unfold Server.pending PeerState.fire
    rw [ha]
    show 0 + ((s.states st).fired + 1) + _ = 1 + (s.states st).fired + _
    omega
  · exact pending_setState_of_ne s st _ i hi

theorem fire_started {s : Server G} {st : Nat} (h : Started s) (ha : (s.states st).armed = true) :
    Started (s.setState st (s.states st).fire) := by
  have hg := setState_same s st (s.states st).fire PeerState.gather rfl
  have hp := fire_pending ha
  refine ⟨?_, ?_, h.loaded, h.peers, ?_⟩
  · intro i hi
    rw [hg]
    exact h.unmade i hi
  · intro i hi
    rw [hg] at hi
    rw [hp]
    exact h.fresh i hi
  · intro i hi
    rw [hg] at hi
    rw [hp]
    exact h.started i hi

theorem fire_control {s : Server G} {st : Nat} (h : Control s) (ha : (s.states st).armed = true) :
    Control (s.setState st (s.states st).fire) := by
  have hg := setState_same s st (s.states st).fire PeerState.gather rfl
  have hk := setState_same s st (s.states st).fire PeerState.key rfl
  refine ⟨?_, ?_, ?_, h.removals⟩
  · intro i hi hn
    rw [hg] at hn
    exact h.loading i hi hn
  · intro i
    rw [fire_pending ha]
    exact h.once i
  · intro key i
    rw [hk]
    exact h.peers key i

theorem fire_kept {s : Server G} {st : Nat} (h : Kept s) :
    Kept (s.setState st (s.states st).fire) := by
  have hg := setState_same s st (s.states st).fire PeerState.gather rfl
  have hd := setState_same s st (s.states st).fire PeerState.datagram rfl
  refine ⟨?_, ?_, h.loaded, ?_, ?_, ?_, ?_⟩
  · intro i hi
    rw [hg] at hi
    rw [hd]
    exact h.fresh i hi
  · intro c hc
    rw [hd]
    exact h.called c hc
  · intro i
    rw [hd]
    exact h.accepted i
  · intro i
    rw [hd]
    exact h.waiting i
  · intro i j
    rw [hd, hd]
    exact h.own i j
  · intro nr hn
    rcases h.located nr hn with ⟨i, d, hm, he⟩ | hl
    · exact .inl ⟨i, d, by rw [hd]; exact hm, he⟩
    · exact .inr hl

/-! ## runs -/

/-- **One action** of any run. -/
theorem step_started {s s' : Server G} {a : Action G} (h : step s a = some s') (hs : Started s) :
    Started s' := by
  rcases step_cases h with ⟨key, bytes, -, hr, rfl⟩ | ⟨g, done, st, d, -, hr, rfl⟩ |
    ⟨st, -, hr, rfl⟩ | ⟨st, -, ha, rfl⟩ | ⟨st, -, hf, rfl⟩
  · obtain ⟨st, hacc⟩ := accept_spec hs key bytes
    exact accepted_started hs hr hacc
  · exact add_started hs hr g done
  · exact finalize_started hs (taken_finish hr)
  · exact fire_started hs ha
  · exact finalize_started hs (taken_callback hf)

/-- **One action** keeps the invariants when the reader stops its timer in time. -/
theorem step_kept {s s' : Server G} {a : Action G} (ht : InTime s a) (h : step s a = some s')
    (hs : Started s ∧ Control s ∧ Kept s) : Started s' ∧ Control s' ∧ Kept s' := by
  refine ⟨step_started h hs.1, ?_⟩
  obtain ⟨h0, hc, hk⟩ := hs
  rcases step_cases h with ⟨key, bytes, -, hr, rfl⟩ | ⟨g, done, st, d, rfl, hr, rfl⟩ |
    ⟨st, -, hr, rfl⟩ | ⟨st, -, ha, rfl⟩ | ⟨st, -, hf, rfl⟩
  · obtain ⟨st, hacc⟩ := accept_spec h0 key bytes
    exact ⟨accepted_control h0 hc hr hacc, accepted_kept h0 hk hr rfl hacc⟩
  · unfold InTime at ht
    rw [hr] at ht
    exact ⟨add_control h0 hc hr ht g done, add_kept h0 hc hk hr ht g done⟩
  · have htaken := taken_finish hr
    exact ⟨finalize_control h0 hc htaken, finalize_kept hk htaken (h0.taken htaken)⟩
  · exact ⟨fire_control hc ha, fire_kept hk⟩
  · have htaken := taken_callback hf
    exact ⟨finalize_control h0 hc htaken, finalize_kept hk htaken (h0.taken htaken)⟩

theorem Started.quiet {s : Server G} (h : Started s) (hq : s.Quiet) (i : Nat) : s.pending i = 0 := by
  by_cases hi : i < s.made
  · unfold Server.pending
    rw [hq.1, (hq.2 i hi).1, (hq.2 i hi).2]
    rfl
  · exact (h.fresh i (h.unmade i (Nat.le_of_not_lt hi))).1

/-- all calls that were passed a datagram are of the one state that holds it -/
theorem Kept.passed_le {s : Server G} (h : Kept s) {i : Nat} {d : Datagram}
    (hd : d ∈ (s.states i).datagram) : s.passed d.nr ≤ s.calls i := by
  refine List.countP_mono_left fun c hm hp => ?_
  obtain ⟨e, he, hnr⟩ := List.any_eq_true.mp hp
  rw [h.called c hm] at he
  exact decide_eq_true (h.own _ _ e he d hd (of_decide_eq_true hnr))

theorem once_of_kept {s : Server G} (h0 : Started s) (hc : Control s) (hk : Kept s) : Once s where
  peer i := by
    have := hc.once i
    omega
  datagram nr := by
    by_cases hp : s.passed nr = 0
    · omega
    obtain ⟨c, hm, hd⟩ := List.countP_pos_iff.mp (Nat.pos_of_ne_zero hp)
    obtain ⟨d, hd, hnr⟩ := List.any_eq_true.mp hd
    rw [hk.called c hm] at hd
    have hle := hk.passed_le hd
    have honce := hc.once c.st
    rw [of_decide_eq_true hnr] at hle
    omega
  removal := hc.removals
  complete := by
    rintro ⟨hr, hquiet⟩ nr hn
    rcases hk.located nr hn with ⟨i, d, hd, hnr⟩ | ⟨i, d, hl, -⟩
    · have hg : (s.states i).gather ≠ none := by
        intro hg
        rw [hk.fresh i hg] at hd
        exact List.not_mem_nil hd
      have hcalls : s.calls i = 1 := by
        have hle := hc.once i
        have hge := h0.started i hg
        have hpend := h0.quiet ⟨hr, hquiet⟩ i
        omega
      obtain ⟨c, hm, hst⟩ := List.countP_pos_iff.mp (Nat.lt_of_lt_of_eq Nat.one_pos hcalls.symm)
      have hpos : 0 < s.passed nr := by
        refine List.countP_pos_iff.mpr ⟨c, hm, List.any_eq_true.mpr ⟨d, ?_, decide_eq_true hnr⟩⟩
        rw [hk.called c hm, of_decide_eq_true hst]
        exact hd
      have hle := hk.passed_le hd
      rw [hnr, hcalls] at hle
      omega
    · rw [hr] at hl
      cases hl

/-- **A run in time** finishes every gather once. -/
theorem exec_once {s : Server G} {as : List (Action G)} (h : exec step {} as = some s)
    (ht : Along step InTime {} as) : Once s := by
  obtain ⟨h0, hc, hk⟩ := exec_inv step InTime (fun s => Started s ∧ Control s ∧ Kept s)
    (fun s a s' ht h hs => step_kept ht h hs) ht h ⟨started_init, control_init, kept_init⟩
  exact once_of_kept h0 hc hk

/-! ## a reader that is late -/

/-- no action takes anything off what is pending or done for a state -/
theorem step_balance {s s' : Server G} {a : Action G} (hs : Started s) (h : step s a = some s')
    (i : Nat) : s.pending i + s.calls i ≤ s'.pending i + s'.calls i := by
  rcases step_cases h with ⟨key, bytes, -, hr, rfl⟩ | ⟨g, done, st, d, rfl, hr, rfl⟩ |
    ⟨st, -, hr, rfl⟩ | ⟨st, -, ha, rfl⟩ | ⟨st, -, hf, rfl⟩
  · obtain ⟨st, hacc⟩ := accept_spec hs key bytes
    rw [hacc.pending hs hr, hacc.calls]
  · have hcalls : (add s st d g done).calls i = s.calls i := rfl
    rw [hcalls]
    by_cases hi : i = st
    · rw [hi, add_balance hr]
      omega
    · rw [(add_pending hr g done).2 i hi]
  · have htaken := taken_finish hr
    rw [htaken.balance (hs.taken htaken)]
  · rw [fire_pending ha]
    exact Nat.le_refl _
  · have htaken := taken_callback hf
    rw [htaken.balance (hs.taken htaken)]

/-- After a late datagram two calls of `finishPeer` are done or pending for its peer, and this stays
so. -/
theorem late_twice {s s₁ s₂ : Server G} {a : Action G} {as : List (Action G)} (hs : Started s₁)
    (hlate : ¬ InTime s₁ a) (ha : step s₁ a = some s₂) (h : exec step s₂ as = some s) :
    ∃ i, 2 ≤ s.pending i + s.calls i := by
  rcases step_cases ha with ⟨key, bytes, rfl, -, -⟩ | ⟨g, done, st, d, rfl, hr, rfl⟩ |
    ⟨st, rfl, -, -⟩ | ⟨st, rfl, -, -⟩ | ⟨st, rfl, -, -⟩
  · exact absurd trivial hlate
  · unfold InTime at hlate
    rw [hr] at hlate
    obtain ⟨hg, harmed⟩ := not_or.mp hlate
    have hstart := hs.started st hg
    have hadd := add_balance hr g done
    rw [if_neg harmed] at hadd
    have hcalls : (add s₁ st d g done).calls st = s₁.calls st := rfl
    refine ⟨st, ?_⟩
    refine exec_always step (fun u => Started u ∧ 2 ≤ u.pending st + u.calls st) ?_ h ?_ |>.2
    · intro u b u' hu hinv
      exact ⟨step_started hu hinv.1, Nat.le_trans hinv.2 (step_balance hinv.1 hu st)⟩
    · exact ⟨step_started ha hs, by omega⟩
  · exact absurd trivial hlate
  · exact absurd trivial hlate
  · exact absurd trivial hlate

/-- **Every gather is finished once** when the reader always stops the idle timer before it fires; and a
run that has come to rest has finished every gather once only then. -/
theorem gathers_finished_once {s : Server G} {as : List (Action G)}
    (h : exec step {} as = some s) :
    (Along step InTime {} as → Once s) ∧ (s.Quiet → (Once s ↔ Along step InTime {} as)) := by
  refine ⟨exec_once h, fun hq => ⟨fun honce => ?_, exec_once h⟩⟩
  by_contra hbad
  obtain ⟨before, a, after, s₁, s₂, -, h1, hlate, ha, h2⟩ := exists_bad step InTime h hbad
  have hs₁ : Started s₁ := exec_always step Started (fun _ _ _ hu hinv => step_started hu hinv) h1
    started_init
  have hs : Started s := exec_always step Started (fun _ _ _ hu hinv => step_started hu hinv) h
    started_init
  obtain ⟨i, hi⟩ := late_twice hs₁ hlate ha h2
  have hzero := hs.quiet hq i
  have hle := honce.peer i
  omega

end

/-! ## two runs -/

def somePeer : Bytes := str "172.18.0.5:40000"

/-- The timer fires after the reader has looked the second datagram's peer up, and its callback gets
the lock first. -/
def lateRun : List (Action Unit) :=
  [.accept somePeer [1], .add () false, .accept somePeer [2], .fire 0, .callback 0, .add () false,
    .accept somePeer [3], .add () false, .fire 0, .callback 0, .fire 1, .callback 1]

/-- **Finished twice**: the first datagram is in two calls, and the second call removes the entry of
the peer's next state. -/
theorem gather_finished_twice : ∃ s, exec step {} lateRun = some s ∧ s.Quiet ∧ s.calls 0 = 2 ∧
    s.passed 0 = 2 ∧ ⟨0, some 1⟩ ∈ s.removals ∧ ¬ Once s := by
  refine ⟨_, rfl, ⟨rfl, by decide⟩, by decide, by decide, by decide, fun h => ?_⟩
  exact absurd (h.peer 0) (by decide)

/-- the same datagrams with every timer stopped in time; the gather is complete with the third one -/
def timelyRun : List (Action Unit) :=
  [.accept somePeer [1], .add () false, .accept somePeer [2], .add () false, .accept somePeer [3],
    .add () true, .finish]

theorem timelyRun_inTime : Along step InTime {} timelyRun :=
  ⟨trivial, .inl rfl, trivial, .inr rfl, trivial, .inr rfl, trivial, trivial⟩

theorem timelyRun_once : ∃ s, exec step {} timelyRun = some s ∧ Once s ∧ s.passed 2 = 1 :=
  ⟨_, rfl, (gathers_finished_once rfl).1 timelyRun_inTime, by decide⟩

end Quic
