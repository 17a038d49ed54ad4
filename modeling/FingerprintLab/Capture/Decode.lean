import FingerprintLab.Capture.Hello

/-!
# `analyze` undoes the encoding

`parse_record`: on the record of a `ClientHello` the parser of `analyze` returns the encoded
content.  The proof follows the encoding from the inside out: the four inner lists and the server
name, one extension (`extCase_data`), the extension loop by induction on the list of extensions
(`extLoop_encode`), the fixed part, the record.

`Extension.collect` says what one extension contributes; the loop folds it, and for extensions with
pairwise distinct ids the fold is the list of the one extension of each kind (`collect_distinct`).
-/

set_option linter.unusedVariables false

namespace Capture
open Go

/-! ## the inner lists -/

theorem uint16List_vec16 (vs : List UInt16) (hf : 2 * vs.length < 65536) :
    uint16List (vec16 (words vs)) = .ok vs := by
  obtain ⟨ll, hll, hr⟩ := uint16At_len (vec16 (words vs)) [] (words vs) (words vs).length 0
    (by rw [words_length]; exact hf) rfl rfl
  have hlen : (vec16 (words vs)).length = 2 * vs.length + 2 := by simp
  rw [words_length] at hll
  unfold uint16List
  rw [if_pos (by omega), hr, ok_bind]
  exact uint16s_words _ (be16 (words vs).length) [] vs 0 _ _ 2 (by simp [vec16]) rfl
    (by rw [hll, hlen]; omega) (by omega)

theorem versionList_vec8 (vs : List UInt16) (hf : 2 * vs.length < 256) :
    versionList (vec8 (words vs)) = .ok vs := by
  have hlen : (vec8 (words vs)).length = 2 * vs.length + 1 := by simp
  have hr : index (vec8 (words vs)) 0 = .ok (UInt8.ofNat (words vs).length) :=
    index_at _ [] (words vs) _ 0 rfl rfl
  have hll : (UInt8.ofNat (words vs).length).toNat = 2 * vs.length := by
    rw [UInt8.toNat_ofNat', words_length, Nat.mod_eq_of_lt hf]
  unfold versionList
  rw [if_pos (by omega), hr, ok_bind]
  exact uint16s_words _ [UInt8.ofNat (words vs).length] [] vs 0 _ _ 1 (by simp [vec8]) rfl
    (by rw [hll, hlen]; omega) (by omega)

/-- the name loop: one name a turn, by induction on the names -/
theorem alpnLoop_names (names : List Bytes) (hn : ∀ name ∈ names, name.length < 256)
    (b p : Bytes) (lim fuel j : Nat) (hb : b = p ++ names.flatMap vec8) (hj : j = p.length)
    (hlim : lim = b.length) (hf : names.length < fuel) : alpnLoop b lim fuel j = .ok names := by
  induction names generalizing p fuel j with
  | nil =>
    obtain ⟨fuel, rfl⟩ : ∃ f, fuel = f + 1 := ⟨fuel - 1, by simp at hf; omega⟩
    have hlen : b.length = p.length := by rw [hb]; simp
    unfold alpnLoop
    rw [if_neg (by omega), pure_eq_ok]
  | cons name names ih =>
    obtain ⟨fuel, rfl⟩ : ∃ f, fuel = f + 1 := ⟨fuel - 1, by simp at hf; omega⟩
    rw [List.length_cons] at hf
    have hlt := hn name List.mem_cons_self
    have hb' : b = p ++ UInt8.ofNat name.length :: (name ++ names.flatMap vec8) := by
      rw [hb, List.flatMap_cons]; simp [vec8]
    have hlen : b.length = p.length + (name.length + (names.flatMap vec8).length + 1) := by
      rw [hb']; simp
    have hn8 : (UInt8.ofNat name.length).toNat = name.length := by
      rw [UInt8.toNat_ofNat', Nat.mod_eq_of_lt hlt]
    have hname : slice b (j + 1) (j + 1 + name.length) = .ok name :=
      slice_at b (p ++ [UInt8.ofNat name.length]) name (names.flatMap vec8) _ _
        (by rw [hb']; simp) (by simp [hj]) rfl
    have hrest : alpnLoop b lim fuel (j + 1 + name.length) = .ok names :=
      ih (fun n h => hn n (List.mem_cons_of_mem _ h)) (p ++ vec8 name) fuel _
        (by rw [hb, List.flatMap_cons]; simp) (by simp [hj]; omega) (by omega)
    unfold alpnLoop
    rw [if_pos (by omega), index_at b p _ _ j hb' hj, ok_bind, hn8, if_neg (by omega), hname,
      ok_bind, hrest, ok_bind, pure_eq_ok]

theorem length_le_flatMap_vec8 (names : List Bytes) :
    names.length ≤ (names.flatMap vec8).length := by
  induction names with
  | nil => exact Nat.le_refl 0
  | cons name names ih =>
    rw [List.flatMap_cons, List.length_append, vec8_length, List.length_cons]
    omega

theorem alpnList_vec16 (names : List Bytes) (hn : ∀ name ∈ names, name.length < 256)
    (hf : (names.flatMap vec8).length < 65536) :
    alpnList (vec16 (names.flatMap vec8)) = .ok names := by
  obtain ⟨ll, hll, hr⟩ := uint16At_len (vec16 (names.flatMap vec8)) [] (names.flatMap vec8) _ 0 hf
    rfl rfl
  have hlen := vec16_length (names.flatMap vec8)
  have hle := length_le_flatMap_vec8 names
  unfold alpnList
  rw [if_pos (by omega), hr, ok_bind]
  exact alpnLoop_names names hn _ (be16 _) _ _ 2 rfl rfl (by omega) (by omega)

theorem serverName_vec16 (host sni : Bytes) (hf : host.length < 65536) :
    serverName (vec16 (0x00 :: vec16 host)) sni = .ok host := by
  have hb : vec16 (0x00 :: vec16 host)
      = (be16 (2 + host.length + 1) ++ [0x00]) ++ be16 host.length ++ host := by
    simp [vec16]
  have hlen : (vec16 (0x00 :: vec16 host)).length = 5 + host.length := by simp; omega
  obtain ⟨n, hn, hr⟩ := uint16At_len _ _ host host.length 3 hf hb rfl
  have hs : slice (vec16 (0x00 :: vec16 host)) 5 (5 + host.length) = .ok host :=
    slice_at _ (be16 (2 + host.length + 1) ++ [0x00] ++ be16 host.length) host [] _ _
      (by rw [hb, List.append_nil]) rfl rfl
  unfold serverName
  rw [if_pos (by omega), hr, ok_bind, hn, if_pos (by omega), hs]

/-! ## the extensions -/

/-- what one extension adds to the variables of the loop -/
def Extension.collect (x : Exts) (e : Extension) : Exts :=
  match e with
  | .serverName host => { x with extIDs := x.extIDs ++ [e.id], sni := host }
  | .supportedGroups gs => { x with extIDs := x.extIDs ++ [e.id], groups := x.groups ++ gs }
  | .signatureAlgorithms ss => { x with extIDs := x.extIDs ++ [e.id], sigs := x.sigs ++ ss }
  | .alpn names => { x with extIDs := x.extIDs ++ [e.id], alpn := x.alpn ++ names }
  | .supportedVersions vs => { x with extIDs := x.extIDs ++ [e.id], versions := x.versions ++ vs }
  | .other _ _ _ => { x with extIDs := x.extIDs ++ [e.id] }

theorem extCase_data (e : Extension) (he : e.Fits) (hf : e.data.length < 65536) (x : Exts) :
    extCase e.id e.data { x with extIDs := x.extIDs ++ [e.id] } = .ok (e.collect x) := by
  cases e with
  | serverName host =>
    have hd : (vec16 (0x00 :: vec16 host)).length < 65536 := hf
    have h := serverName_vec16 host x.sni (by simp at hd; omega)
    show (do return { x with extIDs := x.extIDs ++ [0x0000],
                             sni := ← serverName (vec16 (0x00 :: vec16 host)) x.sni }) = _
    rw [h]
    rfl
  | supportedGroups gs =>
    have hd : (vec16 (words gs)).length < 65536 := hf
    have h := uint16List_vec16 gs (by simp at hd; omega)
    show (do return { x with extIDs := x.extIDs ++ [0x000a],
                             groups := x.groups ++ (← uint16List (vec16 (words gs))) }) = _
    rw [h]
    rfl
  | signatureAlgorithms ss =>
    have hd : (vec16 (words ss)).length < 65536 := hf
    have h := uint16List_vec16 ss (by simp at hd; omega)
    show (do return { x with extIDs := x.extIDs ++ [0x000d],
                             sigs := x.sigs ++ (← uint16List (vec16 (words ss))) }) = _
    rw [h]
    rfl
  | alpn names =>
    have hd : (vec16 (names.flatMap vec8)).length < 65536 := hf
    have h := alpnList_vec16 names he (by rw [vec16_length] at hd; omega)
    show (do return { x with extIDs := x.extIDs ++ [0x0010],
                             alpn := x.alpn ++ (← alpnList (vec16 (names.flatMap vec8))) }) = _
    rw [h]
    rfl
  | supportedVersions vs =>
    have h := versionList_vec8 vs he
    show (do return { x with extIDs := x.extIDs ++ [0x002b],
                             versions := x.versions ++ (← versionList (vec8 (words vs))) }) = _
    rw [h]
    rfl
  | other eid data untyped =>
    simp only [typedIDs, List.mem_cons, List.not_mem_nil, or_false, not_or] at untyped
    obtain ⟨h0, h1, h2, h3, h4⟩ := untyped
    show extCase eid data _ = _
    unfold extCase
    rw [if_neg h0, if_neg h1, if_neg h2, if_neg h3, if_neg h4]
    rfl

theorem Extension.encode_length (e : Extension) : e.encode.length = 4 + e.data.length := by
  simp [Extension.encode]
  omega

theorem length_le_flatMap_encode (es : List Extension) :
    4 * es.length ≤ (es.flatMap Extension.encode).length := by
  induction es with
  | nil => exact Nat.le_refl 0
  | cons e es ih =>
    rw [List.flatMap_cons, List.length_append, Extension.encode_length, List.length_cons]
    omega

/-- The extension loop, by induction on the extensions: `p` is what lies in front of the index. -/
theorem extLoop_encode (es : List Extension) (he : ∀ e ∈ es, e.Fits) (b p : Bytes)
    (stop fuel i : Nat) (x : Exts) (hb : b = p ++ es.flatMap Extension.encode) (hi : i = p.length)
    (hstop : stop = b.length) (hlt : (es.flatMap Extension.encode).length < 65536)
    (hf : es.length < fuel) : extLoop b stop fuel i x = .ok (es.foldl Extension.collect x) := by
  induction es generalizing p fuel i x with
  | nil =>
    obtain ⟨fuel, rfl⟩ : ∃ f, fuel = f + 1 := ⟨fuel - 1, by simp at hf; omega⟩
    have hlen : b.length = p.length := by rw [hb]; simp
    unfold extLoop
    rw [if_neg (by omega)]
    rfl
  | cons e es ih =>
    obtain ⟨fuel, rfl⟩ : ∃ f, fuel = f + 1 := ⟨fuel - 1, by simp at hf; omega⟩
    rw [List.flatMap_cons] at hb hlt
    rw [List.length_append, Extension.encode_length] at hlt
    rw [List.length_cons] at hf
    have hlen : b.length = p.length + (4 + e.data.length
        + (es.flatMap Extension.encode).length) := by
      rw [hb, List.length_append, List.length_append, Extension.encode_length]
    have hid : uint16At b i = .ok e.id :=
      uint16At_word b p (vec16 e.data ++ es.flatMap Extension.encode) e.id i
        (by rw [hb]; simp [Extension.encode]) hi
    obtain ⟨el, hel, hlr⟩ := uint16At_len b (p ++ be16 e.id.toNat)
      (e.data ++ es.flatMap Extension.encode) e.data.length (i + 2) (by omega)
      (by rw [hb]; simp [Extension.encode, vec16]) (by simp [hi])
    have hdata : slice b (i + 4) (i + 4 + e.data.length) = .ok e.data :=
      slice_at b (p ++ be16 e.id.toNat ++ be16 e.data.length) e.data (es.flatMap Extension.encode)
        _ _ (by rw [hb]; simp [Extension.encode, vec16]) (by simp [hi]) rfl
    have hcase := extCase_data e (he e List.mem_cons_self) (by omega) x
    have hrest := ih (fun e' h => he e' (List.mem_cons_of_mem _ h)) (p ++ e.encode) fuel
      (i + 4 + e.data.length) (e.collect x) (by rw [hb, List.append_assoc])
      (by rw [List.length_append, Extension.encode_length]; omega) (by omega) (by omega)
    unfold extLoop
    rw [if_pos (by omega), hid, ok_bind, hlr, ok_bind, hel, if_neg (by omega), hdata, ok_bind,
      hcase, ok_bind, hrest, List.foldl_cons]

/-! ## the fixed part and the record -/

theorem extensions_body (h : ClientHello) :
    extensions h.body h.front.length = .ok (h.exts.foldl Extension.collect {}) := by
  have hbl := h.body_lt
  have hlen : h.body.length = h.front.length + h.back.length := by
    rw [HelloFields.body, List.length_append]
  unfold extensions
  cases hk : h.block with
  | none =>
    have hback : h.back = [] := by rw [HelloFields.back, hk]
    have hex : h.exts = [] := by rw [HelloFields.exts, hk]; rfl
    rw [hback, List.length_nil] at hlen
    rw [if_neg (by omega), hex]
    rfl
  | some es =>
    have hback : h.back = vec16 (es.flatMap Extension.encode) := by rw [HelloFields.back, hk]
    have hex : h.exts = es := by rw [HelloFields.exts, hk]; rfl
    rw [hback, vec16_length] at hlen
    have hb : h.body = h.front ++ be16 (es.flatMap Extension.encode).length
        ++ es.flatMap Extension.encode := by
      rw [HelloFields.body, hback, vec16, List.append_assoc]
    obtain ⟨n, hn, hr⟩ := uint16At_len h.body h.front _ _ _ (by omega) hb rfl
    have hle := length_le_flatMap_encode es
    rw [if_pos (by omega), hr, ok_bind, hex]
    exact extLoop_encode es (hex ▸ h.exts_fit) h.body _ _ _ _ {} hb (by simp) (by omega)
      (by omega) (by omega)

theorem fixedPart_body (h : ClientHello) :
    fixedPart h.body = .ok (h.version, h.ciphers, h.front.length) := by
  have hrl := h.random_length
  have hsl := h.sessionID_fits
  have hcl := h.compression_fits
  have hfl := h.front_length
  have hbl := h.body_lt
  have hle := h.front_le
  have hs8 : (UInt8.ofNat h.sessionID.length).toNat = h.sessionID.length := by
    rw [UInt8.toNat_ofNat', Nat.mod_eq_of_lt hsl]
  have hc8 : (UInt8.ofNat h.compression.length).toNat = h.compression.length := by
    rw [UInt8.toNat_ofNat', Nat.mod_eq_of_lt hcl]
  -- the body cut in front of each field
  have hver : uint16At h.body 0 = .ok h.version :=
    uint16At_word h.body [] (h.random ++ vec8 h.sessionID ++ vec16 (words h.ciphers)
      ++ vec8 h.compression ++ h.back) h.version 0
      (by simp [HelloFields.body, HelloFields.front]) rfl
  have hsid : index h.body 34 = .ok (UInt8.ofNat h.sessionID.length) :=
    index_at h.body (be16 h.version.toNat ++ h.random) (h.sessionID ++ vec16 (words h.ciphers)
      ++ vec8 h.compression ++ h.back) _ 34
      (by simp [HelloFields.body, HelloFields.front, vec8]) (by simp [hrl])
  have hws := words_length h.ciphers
  obtain ⟨n, hn, hcs⟩ := uint16At_len h.body (be16 h.version.toNat ++ h.random ++ vec8 h.sessionID)
    (words h.ciphers ++ vec8 h.compression ++ h.back) (words h.ciphers).length
    (34 + 1 + h.sessionID.length) (by omega)
    (by simp [HelloFields.body, HelloFields.front, vec16]) (by simp [hrl]; omega)
  have hciphers : uint16s h.body (34 + 1 + h.sessionID.length + 2) n.toNat (n.toNat + 1) 0
      = .ok h.ciphers :=
    uint16s_words h.body (be16 h.version.toNat ++ h.random ++ vec8 h.sessionID
      ++ be16 (words h.ciphers).length) (vec8 h.compression ++ h.back) h.ciphers _ _ _ 0
      (by simp [HelloFields.body, HelloFields.front, vec16]) (by simp [hrl]; omega) (by omega)
      (by omega)
  have hcomp : index h.body (34 + 1 + h.sessionID.length + 2 + n.toNat)
      = .ok (UInt8.ofNat h.compression.length) :=
    index_at h.body (be16 h.version.toNat ++ h.random ++ vec8 h.sessionID
      ++ vec16 (words h.ciphers)) (h.compression ++ h.back) _ _
      (by simp [HelloFields.body, HelloFields.front, vec8]) (by simp [hrl]; omega)
  unfold fixedPart
  simp only []
  rw [hver, ok_bind, if_neg (by omega), hsid, ok_bind, hs8, if_neg (by omega), hcs, ok_bind,
    if_neg (by omega), hciphers, ok_bind, if_neg (by omega), hcomp, ok_bind, hc8, pure_eq_ok]
  have hi : 34 + 1 + h.sessionID.length + 2 + n.toNat + 1 + h.compression.length
      = h.front.length := by omega
  rw [hi]

theorem helloBody_record (h : ClientHello) (recVer : UInt16) (trailing : Bytes) :
    helloBody (h.record recVer trailing) = .ok (recVer, h.body) := by
  have hbl := h.body_lt
  have hfl := h.front_length
  have hrl := h.random_length
  have hle := h.front_le
  have hr : h.record recVer trailing = [0x16] ++ be16 recVer.toNat
      ++ be16 (h.handshake ++ trailing).length ++ (h.handshake ++ trailing) := by
    simp [HelloFields.record, vec16]
  have hhs : h.handshake ++ trailing = [0x01] ++ be24 h.body.length ++ (h.body ++ trailing) := by
    simp [HelloFields.handshake]
  have hlen : (h.record recVer trailing).length = 5 + (h.handshake ++ trailing).length := by
    rw [hr]; simp; omega
  have hlen' : (h.handshake ++ trailing).length = 4 + (h.body.length + trailing.length) := by
    rw [hhs]; simp; omega
  have happ : (h.body ++ trailing).length = h.body.length + trailing.length := List.length_append
  have hver : uint16At (h.record recVer trailing) 1 = .ok recVer :=
    uint16At_word _ [0x16] (be16 (h.handshake ++ trailing).length ++ (h.handshake ++ trailing))
      recVer 1 (by rw [hr]; simp) rfl
  have hsl : slice (h.record recVer trailing) 5 (h.record recVer trailing).length
      = .ok (h.handshake ++ trailing) :=
    slice_at _ ([0x16] ++ be16 recVer.toNat ++ be16 (h.handshake ++ trailing).length)
      (h.handshake ++ trailing) [] _ _ (by rw [hr, List.append_nil]) rfl hlen
  have h0 : index (h.handshake ++ trailing) 0 = .ok 0x01 := by rw [hhs]; rfl
  have h1 : index (h.handshake ++ trailing) 1 = .ok (UInt8.ofNat (h.body.length / 65536)) := by
    rw [hhs]; rfl
  have h2 : index (h.handshake ++ trailing) 2 = .ok (UInt8.ofNat (h.body.length / 256)) := by
    rw [hhs]; rfl
  have h3 : index (h.handshake ++ trailing) 3 = .ok (UInt8.ofNat h.body.length) := by rw [hhs]; rfl
  have hbody : slice (h.handshake ++ trailing) 4 (h.handshake ++ trailing).length
      = .ok (h.body ++ trailing) :=
    slice_at _ ([0x01] ++ be24 h.body.length) (h.body ++ trailing) [] _ _
      (by rw [hhs, List.append_nil]) rfl (by rw [hlen', happ])
  have hcut : slice (h.body ++ trailing) 0 h.body.length = .ok h.body :=
    slice_at _ [] h.body trailing 0 _ rfl rfl (by omega)
  have hbl24 : (UInt8.ofNat (h.body.length / 65536)).toNat * 65536
      + (UInt8.ofNat (h.body.length / 256)).toNat * 256 + (UInt8.ofNat h.body.length).toNat
      = h.body.length := by
    rw [UInt8.toNat_ofNat', UInt8.toNat_ofNat', UInt8.toNat_ofNat']
    omega
  unfold helloBody
  rw [if_neg (by omega), hver, ok_bind, hsl, ok_bind, if_neg (by omega), h0, ok_bind,
    if_neg (by simp), h1, ok_bind, h2, ok_bind, h3, ok_bind, hbody, ok_bind]
  simp only [hbl24]
  rw [if_neg (by omega), hcut, ok_bind, if_neg (by omega), pure_eq_ok]

/-- **The parser undoes the encoding**, whatever follows the message inside the record. -/
theorem parse_record (h : ClientHello) (recVer : UInt16) (trailing : Bytes) :
    parse (h.record recVer trailing) = .ok
      { recVer := recVer, helloVer := h.version, ciphers := h.ciphers
        exts := h.exts.foldl Extension.collect {} } := by
  unfold parse
  rw [helloBody_record, ok_bind]
  simp only []
  rw [fixedPart_body, ok_bind]
  simp only []
  rw [extensions_body, ok_bind, pure_eq_ok]

/-! ## the folded extensions -/

theorem foldl_collect (es : List Extension) (x : Exts) : es.foldl Extension.collect x =
    { extIDs := x.extIDs ++ es.map Extension.id
      groups := x.groups ++ es.flatMap fun e => e.groups?.getD []
      sigs := x.sigs ++ es.flatMap fun e => e.sigs?.getD []
      versions := x.versions ++ es.flatMap fun e => e.versions?.getD []
      sni := es.foldl (fun s e => e.host?.getD s) x.sni
      alpn := x.alpn ++ es.flatMap fun e => e.names?.getD [] } := by
  induction es generalizing x with
  | nil => simp
  | cons e es ih =>
    rw [List.foldl_cons, ih]
    cases e <;> simp [Extension.collect, Extension.id, Extension.groups?, Extension.sigs?,
      Extension.versions?, Extension.names?, Extension.host?]

section
variable {α : Type} (f : Extension → Option α) (k : UInt16) (hk : ∀ e, f e ≠ none → e.id = k)
include hk

/-- with distinct ids only one extension is of a kind -/
theorem none_of_nodup (e : Extension) (es : List Extension)
    (hd : ((e :: es).map Extension.id).Nodup) (he : f e ≠ none) : ∀ e' ∈ es, f e' = none := by
  intro e' he'
  by_contra hne
  have hmem : e'.id ∈ es.map Extension.id := List.mem_map_of_mem he'
  rw [hk e' hne, ← hk e he] at hmem
  exact (List.nodup_cons.mp hd).1 hmem

end

theorem flatMap_distinct {α : Type} (f : Extension → Option (List α)) (k : UInt16)
    (hk : ∀ e, f e ≠ none → e.id = k) (es : List Extension)
    (hd : (es.map Extension.id).Nodup) :
    (es.flatMap fun e => (f e).getD []) = (es.findSome? f).getD [] := by
  induction es with
  | nil => rfl
  | cons e es ih =>
    have hd' : (es.map Extension.id).Nodup := (List.nodup_cons.mp hd).2
    cases hf : f e with
    | none => simpa [hf] using ih hd'
    | some l =>
      have hnone := none_of_nodup f k hk e es hd (by rw [hf]; simp)
      have hrest : (es.flatMap fun e => (f e).getD []) = [] := by
        rw [List.flatMap_eq_nil_iff]
        intro e' he'
        rw [hnone e' he']
        rfl
      simp [hf, hrest]

theorem foldl_distinct (f : Extension → Option Bytes) (k : UInt16)
    (hk : ∀ e, f e ≠ none → e.id = k) (es : List Extension)
    (hd : (es.map Extension.id).Nodup) (s : Bytes) :
    es.foldl (fun s e => (f e).getD s) s = (es.findSome? f).getD s := by
  induction es generalizing s with
  | nil => rfl
  | cons e es ih =>
    have hd' : (es.map Extension.id).Nodup := (List.nodup_cons.mp hd).2
    rw [List.foldl_cons, ih hd']
    cases hf : f e with
    | none => simp [hf]
    | some l =>
      have hnone := none_of_nodup f k hk e es hd (by rw [hf]; simp)
      rw [List.findSome?_eq_none_iff.mpr hnone]
      simp [hf]

/-- with distinct ids the loop collects the content of the one extension of each kind -/
theorem collect_distinct (h : HelloFields) (hd : h.extIDs.Nodup) :
    h.exts.foldl Extension.collect {} =
      { extIDs := h.extIDs, groups := h.groups, sigs := h.sigs, versions := h.versions
        sni := h.sni, alpn := h.alpn } := by
  have hgroups := flatMap_distinct Extension.groups? _ Extension.id_of_groups h.exts hd
  have hsigs := flatMap_distinct Extension.sigs? _ Extension.id_of_sigs h.exts hd
  have hversions := flatMap_distinct Extension.versions? _ Extension.id_of_versions h.exts hd
  have halpn := flatMap_distinct Extension.names? _ Extension.id_of_names h.exts hd
  have hsni := foldl_distinct Extension.host? _ Extension.id_of_host h.exts hd []
  rw [foldl_collect, hgroups, hsigs, hversions, halpn]
  show Exts.mk _ _ _ _ (h.exts.foldl (fun s e => e.host?.getD s) []) _ = _
  rw [hsni]
  rfl

/-- what `analyze` has in its local variables behind the walk over the record of `h` -/
def ClientHello.parsed (h : ClientHello) (recVer : UInt16) : Parsed :=
  { recVer := recVer, helloVer := h.version, ciphers := h.ciphers
    exts := { extIDs := h.extIDs, groups := h.groups, sigs := h.sigs, versions := h.versions
              sni := h.sni, alpn := h.alpn } }

theorem parse_distinct (h : ClientHello) (hd : h.extIDs.Nodup) (recVer : UInt16)
    (trailing : Bytes) : parse (h.record recVer trailing) = .ok (h.parsed recVer) := by
  rw [parse_record, collect_distinct h.toHelloFields hd]
  rfl

/-- **`analyze` on the record of a ClientHello with distinct extension ids**: no error, and every
list of the result is the encoded one in wire order.  The last equation names the arguments of
`buildJA4`, the version list among them. -/
theorem analyze_record (h : ClientHello) (hd : h.extIDs.Nodup) (recVer : UInt16)
    (trailing : Bytes) : ∃ m, analyze (h.record recVer trailing) = .ok m ∧
      m.sni = h.sni ∧ m.alpn = h.alpn ∧ m.cipherSuites = hexList16 h.ciphers ∧
      m.extensions = hexList16 h.extIDs ∧ m.supportedGroups = hexList16 h.groups ∧
      m.signatureAlgorithms = hexList16 h.sigs ∧
      parse (h.record recVer trailing) = .ok
        { recVer := recVer, helloVer := h.version, ciphers := h.ciphers
          exts := { extIDs := h.extIDs, groups := h.groups, sigs := h.sigs
                    versions := h.versions, sni := h.sni, alpn := h.alpn } } ∧
      m.ja4 = buildJA4 h.versions h.version (h.sni != []) h.ciphers h.extIDs h.sigs h.alpn := by
  have hp := parse_distinct h hd recVer trailing
  exact ⟨_, analyze_of_parse hp, rfl, rfl, rfl, rfl, rfl, rfl, hp, rfl⟩

/-- a small hello with one extension of each kind, GREASE in front -/
def sampleHello : ClientHello where
  version := 0x0303
  random := List.replicate 32 7
  sessionID := [1, 2, 3]
  ciphers := [0x2a2a, 0x1301, 0x1302]
  compression := [0]
  block := some [.other 0x3a3a [] (by decide), .serverName (str "brave.fp.lab.local"),
    .supportedGroups [0x4a4a, 0x001d], .signatureAlgorithms [0x0403, 0x0804],
    .alpn [str "h2", str "http/1.1"], .supportedVersions [0x5a5a, 0x0304, 0x0303],
    .other 0x0017 [] (by decide)]
  random_length := by decide
  sessionID_fits := by decide
  compression_fits := by decide
  exts_fit := by
    intro e he
    simp only [HelloFields.exts, Option.getD_some, List.mem_cons, List.not_mem_nil, or_false] at he
    rcases he with rfl | rfl | rfl | rfl | rfl | rfl | rfl <;> simp [Extension.Fits]
    decide
  fits := by decide +kernel

theorem analyze_record_sample : ∃ m, analyze (sampleHello.record 0x0301 [9]) = .ok m ∧
    m.sni = str "brave.fp.lab.local" ∧ m.alpn = [str "h2", str "http/1.1"] ∧
    m.supportedGroups = [str "0x4a4a", str "0x001d"] := by
  obtain ⟨m, hm, hsni, halpn, _, _, hgroups, _⟩ :=
    analyze_record sampleHello (by decide) 0x0301 [9]
  exact ⟨m, hm, hsni, halpn, hgroups⟩

end Capture
