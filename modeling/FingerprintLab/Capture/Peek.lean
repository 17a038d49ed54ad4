import FingerprintLab.Base.Returns

/-!
# The recorded hello and the live connection

`readClientHello` takes one record off the connection, and `prefixConn` hands the recorded bytes to
the TLS server before it reads on.

* `Wire`               the connection: the bytes still to come, and how many of them each read finds;
* `readClientHello`    the record, by two calls of `io.ReadFull`;
* `PrefixConn.read`    one read of the server; `PrefixConn.reads` a sequence of them;
* `PrefixConn.pending` what the server has not received yet; a read takes it off the front
                       (`read_pending`), and takes something if it has room (`read_progress`);
* `peek_transparent`   the server receives the client's stream.
-/

set_option linter.unusedVariables false

namespace Capture
open Go

/-! ## the connection -/

/-- The `k`-th read finds `arrive k` bytes, but at least one: a read waits for data. -/
structure Wire where
  left : Bytes
  arrive : Nat → Nat
  reads : Nat

/-- the bytes, and whether the stream has ended -/
def Wire.read (w : Wire) (n : Nat) : (Bytes × Bool) × Wire :=
  if n = 0 then (([], false), w)
  else if w.left = [] then (([], true), w)
  else
    let k := min n (max 1 (w.arrive w.reads))
    ((w.left.take k, false), { w with left := w.left.drop k, reads := w.reads + 1 })

/-- the loop of `io.ReadAtLeast` -/
def readAtLeast : Nat → Nat → Bytes → Wire → Res (Bytes × Wire)
  | 0, _, _, _ => .error .loop
  | fuel+1, n, buf, w =>
    if buf.length < n then
      let r := w.read (n - buf.length)
      if r.1.2 then fail (if buf = [] then "EOF" else "unexpected EOF")
      else readAtLeast fuel n (buf ++ r.1.1) r.2
    else .ok (buf, w)

def readFull (n : Nat) (w : Wire) : Res (Bytes × Wire) := readAtLeast (n + 1) n [] w

/-- the record, the rest and the connection behind them -/
def readClientHello (w : Wire) : Res ((Bytes × Bytes) × Wire) := do
  let (hdr, w) ← readFull 5 w
  let typ ← index hdr 0
  if typ ≠ 0x16 then fail ("not handshake record (type=" ++ toString typ.toNat ++ ")") else do
  let n ← uint16At hdr 3
  let (body, w) ← readFull n.toNat w
  return ((hdr ++ body, []), w)

structure PrefixConn where
  conn : Wire
  pre : Bytes
  off : Nat

def PrefixConn.read (p : PrefixConn) (n : Nat) : (Bytes × Bool) × PrefixConn :=
  if p.off < p.pre.length then
    let b := (p.pre.drop p.off).take n
    ((b, false), { p with off := p.off + b.length })
  else
    let r := p.conn.read n
    (r.1, { p with conn := r.2 })

/-- the server's reads, one for each buffer size: what each of them brings -/
def PrefixConn.reads : PrefixConn → List Nat → List Bytes × PrefixConn
  | p, [] => ([], p)
  | p, n :: bufs =>
    let r := p.read n
    let rs := r.2.reads bufs
    (r.1.1 :: rs.1, rs.2)

/-- the connection that `handle` gives to the TLS server -/
def replay (rawHello rest : Bytes) (w : Wire) : PrefixConn where
  conn := w
  pre := rawHello ++ rest
  off := 0

/-! ## reading from the connection -/

theorem Wire.read_left (w : Wire) (n : Nat) : (w.read n).1.1 ++ (w.read n).2.left = w.left := by
  unfold Wire.read
  by_cases hn : n = 0
  · rw [if_pos hn]
    rfl
  · rw [if_neg hn]
    by_cases hl : w.left = []
    · rw [if_pos hl]
      rfl
    · rw [if_neg hl]
      exact List.take_append_drop _ _

/-- a read with room brings at least one byte, and no more than fit -/
theorem Wire.read_some (w : Wire) (n : Nat) (hn : 0 < n) (hl : w.left ≠ []) :
    (w.read n).1.2 = false ∧ 0 < (w.read n).1.1.length ∧ (w.read n).1.1.length ≤ n := by
  have hpos := List.length_pos_of_ne_nil hl
  unfold Wire.read
  rw [if_neg (by omega), if_neg hl]
  refine ⟨rfl, ?_, ?_⟩
  · show 0 < (w.left.take _).length
    rw [List.length_take]
    omega
  · show (w.left.take _).length ≤ n
    rw [List.length_take]
    omega

/-- the loop collects the next bytes of the stream, however they arrive -/
theorem readAtLeast_eq (fuel n : Nat) (buf : Bytes) (w : Wire) (hb : buf.length ≤ n)
    (hn : n ≤ buf.length + w.left.length) (hf : n < buf.length + fuel) :
    ∃ w', readAtLeast fuel n buf w = .ok (buf ++ w.left.take (n - buf.length), w') ∧
      w'.left = w.left.drop (n - buf.length) := by
  induction fuel generalizing buf w with
  | zero => omega
  | succ fuel ih =>
    unfold readAtLeast
    by_cases hlt : buf.length < n
    · have hl : w.left ≠ [] := List.ne_nil_of_length_pos (by omega)
      obtain ⟨hend, hpos, hle⟩ := w.read_some (n - buf.length) (by omega) hl
      have hleft := w.read_left (n - buf.length)
      rw [if_pos hlt]
      simp only []
      rw [if_neg (by rw [hend]; exact Bool.false_ne_true)]
      generalize hr : w.read (n - buf.length) = r at hend hpos hle hleft ⊢
      obtain ⟨⟨d, eof⟩, w1⟩ := r
      have hsplit : n - buf.length = d.length + (n - (buf ++ d).length) := by
        rw [List.length_append]
        show n - buf.length = d.length + (n - (buf.length + d.length))
        replace hle : d.length ≤ n - buf.length := hle
        omega
      have hlen : d.length + w1.left.length = w.left.length := by
        rw [← List.length_append]
        exact congrArg List.length hleft
      obtain ⟨w', hw', hd⟩ := ih (buf ++ d) w1 (by rw [List.length_append] at hsplit ⊢; omega)
        (by rw [List.length_append]; omega)
        (by rw [List.length_append]; replace hpos : 0 < d.length := hpos; omega)
      refine ⟨w', ?_, ?_⟩
      · rw [hw', hsplit, ← hleft, List.take_length_add_append, List.append_assoc]
      · rw [hd, hsplit, ← hleft, List.drop_length_add_append]
    · have h0 : n - buf.length = 0 := by omega
      rw [if_neg hlt, h0]
      exact ⟨w, by rw [List.take_zero, List.append_nil], rfl⟩

theorem readFull_eq (n : Nat) (w : Wire) (hn : n ≤ w.left.length) :
    ∃ w', readFull n w = .ok (w.left.take n, w') ∧ w'.left = w.left.drop n :=
  readAtLeast_eq (n + 1) n [] w (Nat.zero_le n) (by simpa using hn) (by simp)

/-! ## the record -/

/-- the length field of the record at the head of the stream -/
def recordLength (stream : Bytes) : Nat :=
  (uint16 (stream.getD 3 0) (stream.getD 4 0)).toNat

/-- the stream starts with a complete handshake record -/
structure StartsWithRecord (stream : Bytes) : Prop where
  typ : stream.head? = some 0x16
  complete : 5 + recordLength stream ≤ stream.length

theorem five_bytes (s : Bytes) (h : 5 ≤ s.length) :
    ∃ a b c hi lo more, s = a :: b :: c :: hi :: lo :: more := by
  obtain ⟨a, s, rfl⟩ := List.exists_cons_of_length_pos (show 0 < s.length by omega)
  rw [List.length_cons] at h
  obtain ⟨b, s, rfl⟩ := List.exists_cons_of_length_pos (show 0 < s.length by omega)
  rw [List.length_cons] at h
  obtain ⟨c, s, rfl⟩ := List.exists_cons_of_length_pos (show 0 < s.length by omega)
  rw [List.length_cons] at h
  obtain ⟨hi, s, rfl⟩ := List.exists_cons_of_length_pos (show 0 < s.length by omega)
  rw [List.length_cons] at h
  obtain ⟨lo, s, rfl⟩ := List.exists_cons_of_length_pos (show 0 < s.length by omega)
  exact ⟨a, b, c, hi, lo, s, rfl⟩

theorem readClientHello_eq (stream : Bytes) (arrive : Nat → Nat) (h : StartsWithRecord stream) :
    ∃ w, readClientHello ⟨stream, arrive, 0⟩
        = .ok ((stream.take (5 + recordLength stream), []), w) ∧
      w.left = stream.drop (5 + recordLength stream) := by
  have hc := h.complete
  obtain ⟨w1, hr1, hl1⟩ := readFull_eq 5 ⟨stream, arrive, 0⟩ (by show 5 ≤ stream.length; omega)
  replace hr1 : readFull 5 ⟨stream, arrive, 0⟩ = .ok (stream.take 5, w1) := hr1
  replace hl1 : w1.left = stream.drop 5 := hl1
  -- the five bytes of the header
  obtain ⟨a, b, c, hi, lo, more, rfl⟩ := five_bytes stream (by omega)
  have ha : a = 0x16 := Option.some.inj h.typ
  have hn : recordLength (a :: b :: c :: hi :: lo :: more) = (uint16 hi lo).toNat := rfl
  rw [hn] at hc ⊢
  obtain ⟨w2, hr2, hl2⟩ := readFull_eq (uint16 hi lo).toNat w1 (by
    rw [hl1]
    show (uint16 hi lo).toNat ≤ more.length
    simp only [List.length_cons] at hc
    omega)
  rw [hl1] at hr2 hl2
  refine ⟨w2, ?_, ?_⟩
  · unfold readClientHello
    rw [hr1, ok_bind]
    show (if a ≠ 0x16 then fail _ else
      readFull (uint16 hi lo).toNat w1 >>= fun r => .ok ((_ ++ r.1, []), r.2)) = _
    rw [if_neg (not_not.mpr ha), hr2, ok_bind, List.take_add]
  · rw [hl2, List.drop_drop]

/-! ## the server's reads -/

namespace PrefixConn

/-- what the server has not received yet -/
def pending (p : PrefixConn) : Bytes := p.pre.drop p.off ++ p.conn.left

/-- A read takes its bytes off the front of what is pending. -/
theorem read_pending (p : PrefixConn) (n : Nat) :
    (p.read n).1.1 ++ (p.read n).2.pending = p.pending := by
  unfold read pending
  by_cases hp : p.off < p.pre.length
  · rw [if_pos hp]
    show (p.pre.drop p.off).take n
      ++ (p.pre.drop (p.off + ((p.pre.drop p.off).take n).length) ++ p.conn.left) = _
    have hdrop : p.pre.drop (p.off + ((p.pre.drop p.off).take n).length)
        = (p.pre.drop p.off).drop n := by
      rw [← List.drop_drop, List.length_take]
      by_cases hn : n ≤ (p.pre.drop p.off).length
      · rw [Nat.min_eq_left hn]
      · rw [Nat.min_eq_right (by omega), List.drop_length, List.drop_eq_nil_of_le (by omega)]
    rw [hdrop, ← List.append_assoc, List.take_append_drop]
  · rw [if_neg hp]
    have hnil : p.pre.drop p.off = [] := List.drop_eq_nil_of_le (by omega)
    show (p.conn.read n).1.1 ++ (p.pre.drop p.off ++ (p.conn.read n).2.left) = _
    rw [hnil]
    exact p.conn.read_left n

/-- A read with room brings something as long as something is pending. -/
theorem read_progress (p : PrefixConn) (n : Nat) (hn : 0 < n) (hp : p.pending ≠ []) :
    0 < (p.read n).1.1.length := by
  unfold read
  by_cases hoff : p.off < p.pre.length
  · rw [if_pos hoff]
    show 0 < ((p.pre.drop p.off).take n).length
    rw [List.length_take, List.length_drop]
    omega
  · rw [if_neg hoff]
    unfold pending at hp
    rw [List.drop_eq_nil_of_le (by omega)] at hp
    exact (p.conn.read_some n hn hp).2.1

/-- **A run of reads**, by induction on the buffers: received and pending are one stream. -/
theorem reads_pending (p : PrefixConn) (bufs : List Nat) :
    (p.reads bufs).1.flatten ++ (p.reads bufs).2.pending = p.pending := by
  induction bufs generalizing p with
  | nil => rfl
  | cons n bufs ih =>
    show ((p.read n).1.1 :: ((p.read n).2.reads bufs).1).flatten
      ++ ((p.read n).2.reads bufs).2.pending = _
    rw [List.flatten_cons, List.append_assoc, ih, read_pending]

/-- the buffers with room -/
def roomy (bufs : List Nat) : Nat := (bufs.filter fun n => 0 < n).length

theorem reads_progress (p : PrefixConn) (bufs : List Nat) :
    (p.reads bufs).2.pending.length ≤ p.pending.length - roomy bufs := by
  induction bufs generalizing p with
  | nil => exact Nat.le_refl _
  | cons n bufs ih =>
    have hstep := congrArg List.length (p.read_pending n)
    rw [List.length_append] at hstep
    have hrest := ih (p.read n).2
    show ((p.read n).2.reads bufs).2.pending.length ≤ _
    by_cases hn : 0 < n
    · have hroom : roomy (n :: bufs) = roomy bufs + 1 := by simp [roomy, hn]
      by_cases hp : p.pending = []
      · have h0 : p.pending.length = 0 := by rw [hp]; rfl
        omega
      · have hpos := p.read_progress n hn hp
        omega
    · have hroom : roomy (n :: bufs) = roomy bufs := by simp [roomy, hn]
      omega

end PrefixConn

/-- **Peeking is transparent**: whatever the reads of the connection find and whatever buffers the
TLS server brings, the recorded hello is the first record of the stream, what the server receives is
a front of the stream, and with enough reads it is the stream. -/
theorem peek_transparent (stream : Bytes) (arrive : Nat → Nat) (h : StartsWithRecord stream) :
    ∃ rawHello rest w, readClientHello ⟨stream, arrive, 0⟩ = .ok ((rawHello, rest), w) ∧
      rawHello = stream.take (5 + recordLength stream) ∧
      ∀ bufs, ∃ later, ((replay rawHello rest w).reads bufs).1.flatten ++ later = stream ∧
        (stream.length ≤ PrefixConn.roomy bufs → later = []) := by
  obtain ⟨w, hr, hl⟩ := readClientHello_eq stream arrive h
  have hpend : (replay (stream.take (5 + recordLength stream)) [] w).pending = stream := by
    show (stream.take (5 + recordLength stream) ++ []).drop 0 ++ w.left = stream
    rw [hl, List.append_nil]
    exact List.take_append_drop _ _
  refine ⟨_, _, w, hr, rfl, fun bufs => ⟨_, (PrefixConn.reads_pending _ bufs).trans hpend, ?_⟩⟩
  intro henough
  have hle := PrefixConn.reads_progress (replay (stream.take (5 + recordLength stream)) [] w) bufs
  rw [hpend] at hle
  exact List.length_eq_zero_iff.mp (by omega)

/-- a record of two bytes, then more; the connection brings one byte a read -/
theorem peek_transparent_small : ∃ rawHello rest w,
    readClientHello ⟨[0x16, 3, 1, 0, 2, 7, 8, 9, 10], fun _ => 1, 0⟩ = .ok ((rawHello, rest), w) ∧
    rawHello = [0x16, 3, 1, 0, 2, 7, 8] ∧
    ∀ bufs, ∃ later, ((replay rawHello rest w).reads bufs).1.flatten ++ later
        = [0x16, 3, 1, 0, 2, 7, 8, 9, 10] ∧
      (9 ≤ PrefixConn.roomy bufs → later = []) :=
  peek_transparent [0x16, 3, 1, 0, 2, 7, 8, 9, 10] (fun _ => 1) ⟨rfl, by decide⟩

end Capture
