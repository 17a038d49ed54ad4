import FingerprintLab.Base.Runs
import FingerprintLab.Base.Str
import Mathlib.Logic.Function.Basic

/-!
# The gather loop of the QUIC capture

The reader takes the datagrams from the socket one after the other.  For each it gets the peer's
state from the map, and only then locks it; idle timers finish a peer in goroutines of their own.
A critical section of `st.mu` is one action, and so is `LoadOrStore`; that of the reader stands where
it stops the idle timer, which may fire until then.  What the third-party gather makes of a packet is
an input of the action, so it may be anything.

* `PeerState`, `Server`     the states of the peers in order of creation, the map, the reader's
                            place in the loop, and what has been finished;
* `finalize`                the closure that the reader and the timers call;
* `step`                    one action, `none` when it is not possible;
* `Once`                    every peer is finished once, with the datagrams that are its own;
* `InTime`                  the reader stops an idle timer that has not fired;
* `step_cases`, `Taken`     everything that an action can do, and what every `finalize` starts from.
-/

set_option linter.unusedVariables false

namespace Quic
open Go Runs

/-- an accepted Initial; `nr` counts the datagrams in order of arrival -/
structure Datagram where
  nr : Nat
  bytes : Bytes
  deriving DecidableEq, Repr

/-- `peerState` with the key of its closure.  `armed` is a running `st.timer`; `fired` counts the
callbacks that wait for `st.mu`, which `Stop` cannot recall. -/
structure PeerState (G : Type) where
  key : Bytes := []
  gather : Option G := none
  datagram : List Datagram := []
  armed : Bool := false
  fired : Nat := 0

/-- the reader's place: at `ReadFrom`, before `st.mu.Lock`, or before its own call of `finalize` -/
inductive Reader where
  | reading
  | loaded (st : Nat) (d : Datagram)
  | completed (st : Nat)
  deriving DecidableEq, Repr

/-- a call of `finishPeer` -/
structure FinishCall (G : Type) where
  st : Nat
  datagrams : List Datagram
  gather : G

/-- a call of `peers.Delete` by the closure of `st`, and what the map held -/
structure Removal where
  st : Nat
  found : Option Nat
  deriving DecidableEq, Repr

/-- Peer states are numbered in order of creation; `made` is their number. -/
structure Server (G : Type) where
  peers : Bytes → Option Nat := fun _ => none
  states : Nat → PeerState G := fun _ => {}
  made : Nat := 0
  reader : Reader := .reading
  accepted : Nat := 0
  finished : List (FinishCall G) := []
  removals : List Removal := []

inductive Action (G : Type) where
  /-- an Initial from that address is read and its peer looked up -/
  | accept (key bytes : Bytes)
  /-- the reader's critical section, at `st.timer.Stop`; `gather` and `done` are what `AddPacket` and
  `Completed` give -/
  | add (gather : G) (done : Bool)
  /-- the reader calls `finalize` -/
  | finish
  /-- the timer of that state fires -/
  | fire (st : Nat)
  /-- a fired callback gets the lock -/
  | callback (st : Nat)

section
variable {G : Type}

/-- what the reader does to a locked peer.  The idle timer is stopped, and set again unless the
gather is complete. -/
def PeerState.add (p : PeerState G) (d : Datagram) (gather : G) (done : Bool) : PeerState G :=
  let p := if p.gather.isNone then { p with datagram := [] } else p
  { p with gather := some gather, datagram := p.datagram ++ [d], armed := !done }

def PeerState.fire (p : PeerState G) : PeerState G :=
  { p with armed := false, fired := p.fired + 1 }

/-- a waiting callback gets the lock -/
def PeerState.take (p : PeerState G) : PeerState G := { p with fired := p.fired - 1 }

def Server.setState (s : Server G) (i : Nat) (p : PeerState G) : Server G :=
  { s with states := Function.update s.states i p }

/-- `peers.LoadOrStore(key, &peerState{})` -/
def loadOrStore (s : Server G) (key : Bytes) : Server G × Nat :=
  match s.peers key with
  | some i => (s, i)
  | none =>
    ({ s with
        peers := Function.update s.peers key (some s.made)
        states := Function.update s.states s.made { key := key }
        made := s.made + 1 }, s.made)

def accept (s : Server G) (key bytes : Bytes) : Server G :=
  let (s', st) := loadOrStore s key
  { s' with reader := .loaded st ⟨s.accepted, bytes⟩, accepted := s.accepted + 1 }

/-- from `st.mu.Lock` to `st.mu.Unlock` in the reader -/
def add (s : Server G) (st : Nat) (d : Datagram) (gather : G) (done : Bool) : Server G :=
  { s.setState st ((s.states st).add d gather done) with
    reader := if done then .completed st else .reading }

def finalize (s : Server G) (st : Nat) : Server G :=
  let p := s.states st
  { s with
    peers := Function.update s.peers p.key none
    removals := s.removals ++ [⟨st, s.peers p.key⟩]
    finished :=
      match p.gather with
      | none => s.finished
      | some g => s.finished ++ [⟨st, p.datagram, g⟩] }

def step (s : Server G) : Action G → Option (Server G)
  | .accept key bytes =>
    match s.reader with
    | .reading => some (accept s key bytes)
    | _ => none
  | .add gather done =>
    match s.reader with
    | .loaded st d => some (add s st d gather done)
    | _ => none
  | .finish =>
    match s.reader with
    | .completed st => some { finalize s st with reader := .reading }
    | _ => none
  | .fire st =>
    if (s.states st).armed then some (s.setState st (s.states st).fire) else none
  | .callback st =>
    if (s.states st).fired > 0 then some (finalize (s.setState st (s.states st).take) st) else none

/-! ## what is to hold -/

/-- how often `finishPeer` ran on a state -/
def Server.calls (s : Server G) (i : Nat) : Nat := s.finished.countP fun c => c.st = i

/-- how many calls of `finishPeer` were passed a datagram -/
def Server.passed (s : Server G) (nr : Nat) : Nat :=
  s.finished.countP fun c => c.datagrams.any fun d => d.nr = nr

/-- no timer is running, no callback waits, and the reader is at `ReadFrom` -/
def Server.Quiet (s : Server G) : Prop :=
  s.reader = .reading ∧ ∀ i < s.made, (s.states i).armed = false ∧ (s.states i).fired = 0

structure Once (s : Server G) : Prop where
  peer : ∀ i, s.calls i ≤ 1
  datagram : ∀ nr, s.passed nr ≤ 1
  removal : ∀ r ∈ s.removals, ∀ i, r.found = some i → i = r.st
  complete : s.Quiet → ∀ nr < s.accepted, s.passed nr = 1

/-- When the reader stops the timer of a peer's state, the state is new, or the timer has not fired
since it was last set. -/
def InTime (s : Server G) : Action G → Prop
  | .add _ _ =>
    match s.reader with
    | .loaded st _ => (s.states st).gather = none ∨ (s.states st).armed = true
    | _ => True
  | _ => True

/-! ## what an action does -/

/-- the ways in which `finalize` may still be called for a state -/
def Server.pending (s : Server G) (i : Nat) : Nat :=
  (if (s.states i).armed then 1 else 0) + (s.states i).fired +
    (if s.reader = .completed i then 1 else 0)

/-- everything that an action can do -/
theorem step_cases {s s' : Server G} {a : Action G} (h : step s a = some s') :
    (∃ key bytes, a = .accept key bytes ∧ s.reader = .reading ∧ s' = accept s key bytes) ∨
    (∃ g done st d, a = .add g done ∧ s.reader = .loaded st d ∧ s' = add s st d g done) ∨
    (∃ st, a = .finish ∧ s.reader = .completed st ∧
      s' = finalize { s with reader := .reading } st) ∨
    (∃ st, a = .fire st ∧ (s.states st).armed = true ∧ s' = s.setState st (s.states st).fire) ∨
    (∃ st, a = .callback st ∧ 0 < (s.states st).fired ∧ s' = finalize (s.setState st (s.states st).take) st) := by
  cases a with
  | accept key bytes =>
    rw [step] at h
    split at h
    · rename_i hr
      exact .inl ⟨key, bytes, rfl, hr, (Option.some.inj h).symm⟩
    · cases h
  | add g done =>
    rw [step] at h
    split at h
    · rename_i st d hr
      exact .inr (.inl ⟨g, done, st, d, rfl, hr, (Option.some.inj h).symm⟩)
    · cases h
  | finish =>
    rw [step] at h
    split at h
    · rename_i st hr
      exact .inr (.inr (.inl ⟨st, rfl, hr, (Option.some.inj h).symm⟩))
    · cases h
  | fire st =>
    rw [step] at h
    split at h
    · rename_i ha
      exact .inr (.inr (.inr (.inl ⟨st, rfl, ha, (Option.some.inj h).symm⟩)))
    · cases h
  | callback st =>
    rw [step] at h
    split at h
    · rename_i hf
      exact .inr (.inr (.inr (.inr ⟨st, rfl, hf, (Option.some.inj h).symm⟩)))
    · cases h

/-- the peer is known, or it is new -/
theorem accept_cases (s : Server G) (key bytes : Bytes) :
    (∃ i, s.peers key = some i ∧ accept s key bytes =
      { s with reader := .loaded i ⟨s.accepted, bytes⟩, accepted := s.accepted + 1 }) ∨
    (s.peers key = none ∧ accept s key bytes =
      { s with
          peers := Function.update s.peers key (some s.made)
          states := Function.update s.states s.made { key := key }
          made := s.made + 1
          reader := .loaded s.made ⟨s.accepted, bytes⟩
          accepted := s.accepted + 1 }) := by
  unfold accept loadOrStore
  cases s.peers key with
  | none => exact .inr ⟨rfl, rfl⟩
  | some i => exact .inl ⟨i, rfl, rfl⟩

/-- One call of `finalize` has been taken out of what is pending for `st`; nothing else has
changed. -/
structure Taken (s t : Server G) (st : Nat) : Prop where
  peers : t.peers = s.peers
  made : t.made = s.made
  accepted : t.accepted = s.accepted
  finished : t.finished = s.finished
  removals : t.removals = s.removals
  key : ∀ i, (t.states i).key = (s.states i).key
  gather : ∀ i, (t.states i).gather = (s.states i).gather
  datagram : ∀ i, (t.states i).datagram = (s.states i).datagram
  loaded : ∀ i d, t.reader = .loaded i d ↔ s.reader = .loaded i d
  self : t.pending st + 1 = s.pending st
  other : ∀ i, i ≠ st → t.pending i = s.pending i

theorem taken_finish {s : Server G} {st : Nat} (h : s.reader = .completed st) :
    Taken s { s with reader := .reading } st where
  peers := rfl
  made := rfl
  accepted := rfl
  finished := rfl
  removals := rfl
  key i := rfl
  gather i := rfl
  datagram i := rfl
  loaded i d := by
    rw [h]
    exact iff_of_false (nofun : Reader.reading ≠ .loaded i d) (nofun : Reader.completed st ≠ .loaded i d)
  self := by
    unfold Server.pending
    rw [if_pos h, if_neg (nofun : Reader.reading ≠ .completed st)]
  other i hi := by
    have hne : s.reader ≠ .completed i := by
      rw [h]
      exact fun he => hi (Reader.completed.inj he).symm
    unfold Server.pending
    rw [if_neg hne, if_neg (nofun : Reader.reading ≠ .completed i)]

/-- what a new value of one state has in common with the old one, all states keep -/
theorem setState_same {α : Type} (s : Server G) (st : Nat) (p : PeerState G) (f : PeerState G → α)
    (h : f p = f (s.states st)) (i : Nat) : f ((s.setState st p).states i) = f (s.states i) := by
  show f (Function.update s.states st p i) = _
  by_cases hi : i = st
  · rw [hi, Function.update_self, h]
  · rw [Function.update_of_ne hi]

theorem pending_setState_self (s : Server G) (st : Nat) (p : PeerState G) :
    (s.setState st p).pending st = (if p.armed then 1 else 0) + p.fired +
      (if s.reader = .completed st then 1 else 0) := by
  have hs : (s.setState st p).states st = p := Function.update_self ..
  unfold Server.pending
  rw [hs]
  rfl

theorem pending_setState_of_ne (s : Server G) (st : Nat) (p : PeerState G) (i : Nat) (hi : i ≠ st) :
    (s.setState st p).pending i = s.pending i := by
  have hs : (s.setState st p).states i = s.states i := Function.update_of_ne hi ..
  unfold Server.pending
  rw [hs]
  rfl

theorem taken_callback {s : Server G} {st : Nat} (h : 0 < (s.states st).fired) :
    Taken s (s.setState st (s.states st).take) st where
  peers := rfl
  made := rfl
  accepted := rfl
  finished := rfl
  removals := rfl
  key i := setState_same s st (s.states st).take PeerState.key rfl i
  gather i := setState_same s st (s.states st).take PeerState.gather rfl i
  datagram i := setState_same s st (s.states st).take PeerState.datagram rfl i
  loaded i d := Iff.rfl
  self := by
    rw [pending_setState_self]
    unfold Server.pending PeerState.take
    dsimp only
    omega
  other i hi := pending_setState_of_ne s st _ i hi

end

end Quic
