import CuttleDB.SentStrings

/-!
# Mixed columns

A column may hold cells that were written as they are beside cells that were encrypted.
A reader that decrypts the column tells them apart by their text alone: what begins with
`enc:v1:` is taken for a token, whoever wrote it. Such a text never comes back as it is,
because a token is longer than what is sealed in it.
-/

namespace CuttleDB

/-- A sequence that returns has returned from both its parts. -/
theorem ok_of_bind {ε α β : Type} {x : Except ε α} {f : α → Except ε β} {b : β}
    (h : (x >>= f) = .ok b) : ∃ a, x = .ok a ∧ f a = .ok b := by
  cases x with
  | error e => cases h
  | ok a => exact ⟨a, rfl, h⟩

/-! ### Writing -/

namespace Client

theorem Js.encrypt_eq (aes : AesGcm) (cipher : FieldCipher) (iv : Nonce) (s : List UInt16) :
    Js.encrypt aes cipher iv s = utf16 (token aes cipher iv (toText .javascript s)) := by
  rw [← Js.encrypt_utf16]
  have hbytes : Js.bufferFromUtf8 (utf16 (toText .javascript s)) = Js.bufferFromUtf8 s :=
    Js.bufferFromUtf8_utf16 _
  rw [Js.encrypt, Js.encrypt, hbytes]

/-- The cells of a written row, when what `f` makes of a cell is `k` under `g`. -/
theorem map_of_onCells {α β ε : Type} {cols : List Int} {f : Nat → α → Except ε α}
    {k : Nat → β → β} {g : α → β} (hcell : ∀ i v w, f i v = .ok w → g w = k i (g v)) {n : Nat}
    {row out : List α} (h : onCells cols f n row = .ok out) :
    out.map g = mapCells cols k n (row.map g) := by
  induction row generalizing n out with
  | nil =>
    cases h
    rfl
  | cons v row ih =>
    obtain ⟨w, hw, h⟩ := ok_of_bind h
    obtain ⟨rest, hrest, h⟩ := ok_of_bind h
    cases h
    have hhead : g w = if (n : Int) ∈ cols then k n (g v) else g v := by
      by_cases hchosen : (n : Int) ∈ cols
      · rw [onCell, if_pos hchosen] at hw
        rw [if_pos hchosen]
        exact hcell n v w hw
      · rw [onCell, if_neg hchosen] at hw
        rw [if_neg hchosen, Except.ok.inj hw]
    rw [List.map_cons, List.map_cons, mapCells, hhead, ih hrest]

/-- The Unicode strings of the cells that a client writes. -/
theorem map_toText_of_encRow {aes : AesGcm} {nonces : Nat → Nonce} {cipher : FieldCipher}
    {encCols : List Int} {client : Client} {row cells : List (List client.Unit)}
    (h : client.encRow aes nonces cipher encCols row = .ok cells) :
    cells.map client.toText = storedRow aes nonces (row.map client.toText) cipher encCols := by
  cases client with
  | python =>
    refine map_of_onCells (fun i v w hw => ?_) h
    obtain ⟨data, hdata, hsealed⟩ := ok_of_bind hw
    have hbytes : data = Utf8.encode (sentText v) := eq_encode_of_send (show send python v = _ from hdata)
    have htext := Py.encrypt_codePoints aes cipher (nonces i) (sentText v)
    rw [Py.encrypt, Py.encodeUtf8_codePoints, ← hbytes] at htext
    have hsame : w = codePoints (token aes cipher (nonces i) (sentText v)) :=
      Except.ok.inj (hsealed.symm.trans htext)
    rw [hsame]
    exact sentText_codePoints _
  | javascript =>
    refine map_of_onCells (fun i v w hw => ?_) h
    rw [← Except.ok.inj hw, Js.encrypt_eq]
    exact toText_ofText .javascript _

theorem joinValues_injective {row row' : List Text} (hrow : row ≠ []) (hrow' : row' ≠ [])
    (h : Py.joinValues row = Py.joinValues row') : row = row' :=
  (splitWireRow_encodeValue hrow).symm.trans
    ((congrArg Py.splitWireRow h).trans (splitWireRow_encodeValue hrow'))

end Client

/-! ### Reading -/

/-- What the clients rely on, too: a plaintext is as long as its ciphertext. -/
def AesGcm.KeepsLength (aes : AesGcm) : Prop :=
  ∀ key nonce ct tag data : Bytes, key.length = 32 → nonce.length = 12 →
    aes.decrypt key nonce ct tag = some data → data.length = ct.length

theorem length_units_le_utf8Size (c : Char) :
    (Utf16.units (lit c)).length ≤ c.utf8Size := by
  have hval : (lit c : CodePoint).val = c.val.toNat := rfl
  by_cases hbmp : (lit c : CodePoint).val < 0x10000
  · rw [Utf16.units_of_lt hbmp]
    exact c.utf8Size_pos
  · have hlong : ¬ c.val ≤ 0x7F := by
      intro hle
      have hnat := UInt32.le_iff_toNat_le.mp hle
      simp only [UInt32.reduceToNat] at hnat
      omega
    have hsize : 2 ≤ c.utf8Size := by
      unfold Char.utf8Size
      dsimp only
      split
      · exact absurd ‹_› hlong
      · split
        · exact Nat.le_refl 2
        · split <;> omega
    rw [Utf16.units, if_neg hbmp]
    exact hsize

theorem utf16_cons (c : Char) (t : Text) : utf16 (c :: t) = Utf16.units (lit c) ++ utf16 t := rfl

/-- A replaced text has no more units than there are bytes. -/
theorem length_replaceLoop (skip : Nat) (data : Bytes) :
    (utf16 (Utf8.replaceLoop skip data)).length ≤ data.length - skip := by
  induction data generalizing skip with
  | nil => cases skip <;> exact Nat.zero_le _
  | cons b data ih =>
    cases skip with
    | succ skip =>
      have hrest := ih skip
      rw [Utf8.replaceLoop, List.length_cons]
      omega
    | zero =>
      rw [Utf8.replaceLoop]
      cases hfirst : Utf8.first? (b :: data) with
      | none =>
        have hunit : (Utf16.units (lit '\uFFFD')).length = 1 := rfl
        have hrest := ih (Utf8.replaced (b :: data) - 1)
        dsimp only
        rw [utf16_cons, List.length_append, hunit, List.length_cons]
        omega
      | some c =>
        have hunits := length_units_le_utf8Size c
        have hfits : 0 + c.utf8Size ≤ (b :: data).toByteArray.size :=
          ByteArray.le_size_of_utf8DecodeChar?_eq_some hfirst
        have hpos := c.utf8Size_pos
        have hrest := ih (c.utf8Size - 1)
        rw [List.size_toByteArray, List.length_cons] at hfits
        dsimp only
        rw [utf16_cons, List.length_append, List.length_cons]
        omega

theorem Js.length_toStringUtf8 (data : Bytes) : (Js.toStringUtf8 data).length ≤ data.length :=
  length_replaceLoop 0 data

theorem length_base64_bytes (vs : List (Fin 64)) : (Base64.bytes vs).length ≤ vs.length := by
  fun_induction Base64.bytes vs with
  | case1 a b c d rest ih =>
    simp only [List.length_cons]
    omega
  | case2 a b c => simp
  | case3 a b => simp
  | case4 vs => exact Nat.zero_le _

theorem Py.length_base64Loop {quad pads : Nat} {s : List Char} {vs : List (Fin 64)}
    (h : Py.base64Loop quad pads s = some vs) : vs.length ≤ s.length := by
  fun_induction Py.base64Loop quad pads s generalizing vs with
  | case1 | case3 =>
    cases h
    exact Nat.zero_le _
  | case2 => cases h
  | case4 _ _ _ _ _ ih | case5 _ _ _ _ ih | case6 _ _ _ _ _ _ ih => exact Nat.le_succ_of_le (ih h)
  | case7 _ _ _ _ _ _ _ ih =>
    obtain ⟨rest, hrest, rfl⟩ := Option.map_eq_some_iff.mp h
    exact Nat.succ_le_succ (ih hrest)

theorem Py.length_b64decode {s : List CodePoint} {raw : Bytes} (h : Py.b64decode s = .ok raw) :
    raw.length ≤ s.length := by
  unfold Py.b64decode at h
  split at h
  · cases hloop : Py.base64Loop 0 0 (s.map fun c => Char.ofNat c.val) with
    | none =>
      rw [hloop] at h
      cases h
    | some vs =>
      rw [hloop] at h
      cases h
      have hvs := Py.length_base64Loop hloop
      rw [List.length_map] at hvs
      exact Nat.le_trans (length_base64_bytes vs) hvs
  · cases h

theorem Js.length_bufferFromBase64 (s : List UInt16) :
    (Js.bufferFromBase64 s).length ≤ s.length := by
  refine Nat.le_trans (length_base64_bytes _) (Nat.le_trans (List.length_filterMap_le _ _) ?_)
  refine Nat.le_trans (List.takeWhile_prefix _).length_le (Nat.le_of_eq ?_)
  exact List.length_map _

/-! ### What is taken for a token -/

/-- `FieldCipher.decrypt` -/
def Client.decrypt (aes : AesGcm) (cipher : FieldCipher) :
    (client : Client) → List client.Unit → Except CipherError (List client.Unit)
  | python, token => Py.decrypt aes cipher token
  | javascript, token => Js.decrypt aes cipher token

/-- What the library opens is as long as the ciphertext before the tag. -/
theorem Py.length_aesDecrypt {aes : AesGcm} (haes : aes.KeepsLength) {key nonce ct data : Bytes}
    (hkey : key.length = 32) (hnonce : nonce.length = 12)
    (h : Py.aesDecrypt aes key nonce ct = .ok data) : data.length = ct.length - 16 := by
  unfold Py.aesDecrypt at h
  split at h
  · cases h
  · cases hopened : aes.decrypt key nonce (ct.take (ct.length - 16)) (ct.drop (ct.length - 16)) with
    | none =>
      rw [hopened] at h
      cases h
    | some plain =>
      rw [hopened] at h
      cases h
      rw [haes _ _ _ _ _ hkey hnonce hopened, List.length_take]
      omega

theorem Py.length_decodeUtf8 {data : Bytes} {out : List CodePoint}
    (h : Py.decodeUtf8 data = .ok out) : (Utf16.encode out).length ≤ data.length := by
  unfold Py.decodeUtf8 at h
  cases hdecode : Utf8.decode? data with
  | none =>
    rw [hdecode] at h
    cases h
  | some t =>
    rw [hdecode] at h
    cases h
    have hunits := Js.length_toStringUtf8 (Utf8.encode t)
    rw [Js.toStringUtf8_encode, Utf8.encode_of_decode? hdecode] at hunits
    exact hunits

/-- A string that the Python client decrypts is shorter than what it takes for its token. -/
theorem Py.length_decrypt {aes : AesGcm} (haes : aes.KeepsLength) {cipher : FieldCipher}
    {marked out : List CodePoint} (hmarked : isEncrypted marked = true)
    (h : Py.decrypt aes cipher marked = .ok out) : (Utf16.encode out).length < marked.length := by
  rw [Py.decrypt, hmarked] at h
  obtain ⟨raw, hraw, h⟩ := ok_of_bind h
  have hlength := Py.length_b64decode hraw
  rw [List.length_drop] at hlength
  by_cases hshort : raw.length < 12 + 16
  · rw [if_pos hshort] at h
    cases h
  · rw [if_neg hshort] at h
    obtain ⟨data, hdata, hout⟩ := ok_of_bind h
    have hnonce : (raw.take 12).length = 12 := by
      rw [List.length_take]
      omega
    have hopened := Py.length_aesDecrypt haes cipher.length_key hnonce hdata
    have hunits := Py.length_decodeUtf8 hout
    rw [List.length_drop] at hopened
    omega

/-- A string that the JavaScript client decrypts is shorter than what it takes for its
token. -/
theorem Js.length_decrypt {aes : AesGcm} (haes : aes.KeepsLength) {cipher : FieldCipher}
    {marked out : List UInt16} (hmarked : isEncrypted marked = true)
    (h : Js.decrypt aes cipher marked = .ok out) : out.length < marked.length := by
  rw [Js.decrypt, hmarked] at h
  have hlength := Js.length_bufferFromBase64 (marked.drop ENC_PREFIX.length)
  rw [List.length_drop] at hlength
  dsimp only at h
  generalize Js.bufferFromBase64 (marked.drop ENC_PREFIX.length) = raw at h hlength
  by_cases hshort : raw.length < 12 + 16
  · simp only [not_true_eq_false, if_false, hshort, if_true] at h
    cases h
  · simp only [not_true_eq_false, if_false, hshort] at h
    have hiv : (raw.take 12).length = 12 := by
      rw [List.length_take]
      omega
    have hct : ((raw.take (raw.length - 16)).drop 12).length = raw.length - 28 := by
      rw [List.length_drop, List.length_take]
      omega
    cases hopened : aes.decrypt cipher.key (raw.take 12) ((raw.take (raw.length - 16)).drop 12)
        (raw.drop (raw.length - 16)) with
    | none =>
      rw [hopened] at h
      cases h
    | some data =>
      rw [hopened] at h
      have hout : Js.toStringUtf8 data = out := Except.ok.inj h
      have hunits := Js.length_toStringUtf8 data
      have hdata := haes _ _ _ _ _ cipher.length_key hiv hopened
      rw [hout] at hunits
      omega

section Cells

variable {α ε : Type} {cols : List Int} {f : Nat → α → Except ε α}

theorem getElem?_of_onCells {n : Nat} {row out : List α} (h : onCells cols f n row = .ok out)
    {i : Nat} {v : α} (hv : row[i]? = some v) :
    ∃ u, onCell cols f (n + i) v = .ok u ∧ out[i]? = some u := by
  induction row generalizing n out i with
  | nil => cases hv
  | cons w row ih =>
    obtain ⟨u, hu, h⟩ := ok_of_bind h
    obtain ⟨rest, hrest, h⟩ := ok_of_bind h
    cases h
    cases i with
    | zero =>
      cases hv
      exact ⟨u, hu, rfl⟩
    | succ i =>
      have htail := ih hrest hv
      rwa [Nat.add_right_comm, Nat.add_assoc] at htail

theorem onCells_total {n : Nat} {row : List α}
    (h : ∀ (i : Nat) (v : α), row[i]? = some v → ∃ u, onCell cols f (n + i) v = .ok u) :
    ∃ out, onCells cols f n row = .ok out := by
  induction row generalizing n with
  | nil => exact ⟨[], rfl⟩
  | cons w row ih =>
    obtain ⟨u, hu⟩ := h 0 w rfl
    have htail : ∀ (i : Nat) (v : α), row[i]? = some v →
        ∃ u, onCell cols f (n + 1 + i) v = .ok u := by
      intro i v hv
      rw [Nat.add_right_comm, Nat.add_assoc]
      exact h (i + 1) v hv
    obtain ⟨rest, hrest⟩ := ih htail
    refine ⟨u :: rest, ?_⟩
    rw [Nat.add_zero] at hu
    rw [onCells, hu, hrest]
    rfl

end Cells

namespace Client

theorem length_decrypt {aes : AesGcm} (haes : aes.KeepsLength) {cipher : FieldCipher}
    {client : Client} {marked out : List client.Unit} (hmarked : isEncrypted marked = true)
    (h : client.decrypt aes cipher marked = .ok out) :
    (client.toUtf16 out).length < (client.toUtf16 marked).length := by
  cases client with
  | python =>
    exact Nat.lt_of_lt_of_le (Py.length_decrypt haes hmarked h) (Utf16.length_le_encode marked)
  | javascript => exact Js.length_decrypt haes hmarked h

theorem decrypt_token {aes : AesGcm} (haes : aes.Lawful) (cipher : FieldCipher) (nonce : Nonce)
    (client : Client) (t : Text) :
    client.decrypt aes cipher (client.ofText (token aes cipher nonce t)) =
      .ok (client.ofText t) := by
  cases client with
  | python => exact Py.decrypt_token haes cipher nonce t
  | javascript => exact Js.decrypt_token haes cipher nonce t

/-- What does not look like a token is passed through. -/
theorem decrypt_plain (aes : AesGcm) (cipher : FieldCipher) {client : Client}
    {s : List client.Unit} (hs : isEncrypted s = false) :
    client.decrypt aes cipher s = .ok s := by
  cases client with
  | python =>
    have hnot : isEncrypted (α := CodePoint) s = false := hs
    rw [decrypt, Py.decrypt, hnot]
    rfl
  | javascript =>
    have hnot : isEncrypted (α := UInt16) s = false := hs
    rw [decrypt, Js.decrypt, hnot]
    rfl

theorem lit_codePoint_inj {a b : Char} (h : (lit a : CodePoint) = lit b) : a = b :=
  Char.toNat_inj.mp (Fin.mk.inj h)

/-- An ASCII text is a prefix of a text in UTF-16 if it is one of the text. -/
theorem prefix_utf16_iff {p : Text} (hp : ∀ a ∈ p, a.toNat < 128) (t : Text) :
    p.map lit <+: utf16 t ↔ p <+: t := by
  induction p generalizing t with
  | nil => simp
  | cons a p ih =>
    have ha := hp a List.mem_cons_self
    have htail := fun b hb => hp b (List.mem_cons_of_mem _ hb)
    cases t with
    | nil =>
      constructor
      all_goals
        intro h
        cases List.prefix_nil.mp h
    | cons c t =>
      rw [utf16_cons, List.map_cons]
      by_cases hc : c = a
      · rw [hc, units_lit ha, List.singleton_append, List.prefix_cons_inj, List.prefix_cons_inj,
          ih htail]
      · constructor
        · intro h
          have hmem : lit a ∈ Utf16.units (lit c) := by
            have hpos := Utf16.length_units_pos (lit c)
            cases hunits : Utf16.units (lit c) with
            | nil =>
              rw [hunits] at hpos
              cases hpos
            | cons u us =>
              rw [hunits] at h
              rw [(List.cons_prefix_cons.mp h).1]
              exact List.mem_cons_self
          exact absurd (lit_codePoint_inj ((lit_mem_units ha (lit c)).mp hmem)) hc
        · intro h
          exact absurd (List.cons_prefix_cons.mp h).1.symm hc

theorem isEncrypted_iff {α : Type} [DecidableEq α] [Alphabet α] (s : List α) :
    isEncrypted s = true ↔ ENC_PREFIX.map lit <+: s := List.isPrefixOf_iff_prefix

/-- Every client sees the same strings as tokens. -/
theorem isEncrypted_ofText (client : Client) (t : Text) :
    isEncrypted (client.ofText t) = isEncrypted t := by
  have hascii : ENC_PREFIX.all (·.toNat < 128) = true := by decide
  have hplain : ENC_PREFIX.map (lit : Char → Char) = ENC_PREFIX := List.map_id _
  rw [Bool.eq_iff_iff, isEncrypted_iff, isEncrypted_iff, hplain]
  cases client with
  | python => exact List.prefix_map_iff_of_injective fun _ _ h => lit_codePoint_inj h
  | javascript =>
    exact prefix_utf16_iff (fun c hc => of_decide_eq_true (List.all_eq_true.mp hascii c hc)) t

end Client

/-- A row that a client has written, its cells at `encCols` encrypted: none of them with
`insert`. What the server stores is the row whose line has arrived. -/
structure Written (aes : AesGcm) (cipher : FieldCipher) where
  writer : Client
  row : List (List writer.Unit)
  encCols : List Int
  nonces : Nat → Nonce
  stored : List Text
  row_ne : row ≠ []
  stored_ne : stored ≠ []
  sent : (do
    let cells ← writer.encRow aes nonces cipher encCols row
    writer.send (writer.joinValues cells)) = .ok (Utf8.encode (Py.joinValues stored))

namespace Written

variable {aes : AesGcm} {cipher : FieldCipher} (w : Written aes cipher)

theorem stored_eq :
    w.stored = storedRow aes w.nonces (w.row.map w.writer.toText) cipher w.encCols := by
  obtain ⟨cells, hcells, hsend⟩ := ok_of_bind w.sent
  have hline := Client.eq_encode_of_send hsend
  rw [Client.toText_joinValues, Client.map_toText_of_encRow hcells] at hline
  have htext := congrArg Utf8.decode? hline
  rw [Utf8.decode?_encode, Utf8.decode?_encode, Option.some.injEq] at htext
  exact Client.joinValues_injective w.stored_ne
    (storedRow_ne_nil aes w.nonces (mt List.map_eq_nil_iff.mp w.row_ne) cipher w.encCols) htext

/-- A cell that was written as it is. -/
theorem stored_of_insert {i : Nat} {s : List w.writer.Unit} (hs : w.row[i]? = some s)
    (hplain : (i : Int) ∉ w.encCols) : w.stored[i]? = some (w.writer.toText s) := by
  rw [stored_eq, storedRow, getElem?_mapCells, List.getElem?_map, hs, Nat.zero_add]
  simp [hplain]

/-- A cell that was written encrypted. -/
theorem stored_of_encrypted {i : Nat} {s : List w.writer.Unit} (hs : w.row[i]? = some s)
    (henc : (i : Int) ∈ w.encCols) :
    w.stored[i]? = some (token aes cipher (w.nonces i) (w.writer.toText s)) := by
  rw [stored_eq, storedRow, getElem?_mapCells, List.getElem?_map, hs, Nat.zero_add]
  simp [henc]

theorem length_stored : w.stored.length = w.row.length := by
  rw [stored_eq, length_storedRow, List.length_map]

/-- `get_dec`, `getDec` of the row -/
def getDec (encCols : List Int) (reader : Client) : Except CipherError (List (List reader.Unit)) := do
  let line ← reader.receive (Utf8.encode (renderRow w.stored))
  reader.getDec aes cipher encCols line

/-- The reader gets every chosen cell as it was written. -/
def ReadsBack (encCols : List Int) (reader : Client) : Prop :=
  ∃ cells, w.getDec encCols reader = .ok cells ∧
    ∀ (i : Nat) (s : List w.writer.Unit), (i : Int) ∈ encCols → w.row[i]? = some s →
      ∃ t, cells[i]? = some t ∧ reader.toUtf16 t = w.writer.toUtf16 s

/-- The reader decrypts the stored cell to the string that was written. -/
def CellReadsBack (reader : Client) (i : Nat) (s : List w.writer.Unit) : Prop :=
  ∃ v t, w.stored[i]? = some v ∧ reader.decrypt aes cipher (reader.ofText v) = .ok t ∧
    reader.toUtf16 t = w.writer.toUtf16 s

theorem getDec_eq (encCols : List Int) (reader : Client) :
    w.getDec encCols reader =
      onCells encCols (fun _ s => reader.decrypt aes cipher s) 0 (w.stored.map reader.ofText) := by
  have hcells : reader.splitWireRow (reader.ofText (renderRow w.stored)) =
      w.stored.map reader.ofText := by
    have hmap : w.stored.map reader.ofText ≠ [] := mt List.map_eq_nil_iff.mp w.stored_ne
    rw [← Client.renderRow_ofText]
    cases reader with
    | python => exact splitWireRow_renderRow hmap
    | javascript => exact splitWireRow_renderRow hmap
  have hread : w.getDec encCols reader =
      reader.getDec aes cipher encCols (reader.ofText (renderRow w.stored)) := by
    rw [getDec, Client.receive_encode]
    rfl
  rw [hread, ← hcells]
  cases reader <;> rfl

/-- What the reader has for a chosen cell is what it decrypts the stored cell to. -/
theorem decrypt_of_getDec {encCols : List Int} {reader : Client} {cells : List (List reader.Unit)}
    (hcells : w.getDec encCols reader = .ok cells) {i : Nat} (hchosen : (i : Int) ∈ encCols)
    {v : Text} (hv : w.stored[i]? = some v) :
    ∃ t, reader.decrypt aes cipher (reader.ofText v) = .ok t ∧ cells[i]? = some t := by
  have hmap : (w.stored.map reader.ofText)[i]? = some (reader.ofText v) := by
    rw [List.getElem?_map, hv]
    rfl
  rw [getDec_eq] at hcells
  obtain ⟨t, ht, hcell⟩ := getElem?_of_onCells hcells hmap
  rw [onCell, Nat.zero_add, if_pos hchosen] at ht
  exact ⟨t, ht, hcell⟩

theorem exists_stored {i : Nat} {s : List w.writer.Unit} (hs : w.row[i]? = some s) :
    ∃ v, w.stored[i]? = some v := by
  have hlt : i < w.stored.length := by
    rw [w.length_stored]
    exact (List.getElem?_eq_some_iff.mp hs).1
  exact ⟨_, List.getElem?_eq_getElem hlt⟩

theorem exists_row {i : Nat} {v : Text} (hv : w.stored[i]? = some v) :
    ∃ s, w.row[i]? = some s := by
  have hlt : i < w.row.length := by
    rw [← w.length_stored]
    exact (List.getElem?_eq_some_iff.mp hv).1
  exact ⟨_, List.getElem?_eq_getElem hlt⟩

/-- The row can be read, if its chosen cells can. -/
theorem exists_getDec {encCols : List Int} {reader : Client}
    (h : ∀ (i : Nat) (v : Text), (i : Int) ∈ encCols → w.stored[i]? = some v →
      ∃ t, reader.decrypt aes cipher (reader.ofText v) = .ok t) :
    ∃ cells, w.getDec encCols reader = .ok cells := by
  rw [getDec_eq]
  refine onCells_total fun i c hc => ?_
  rw [onCell, Nat.zero_add]
  split
  · rename_i hchosen
    rw [List.getElem?_map] at hc
    obtain ⟨v, hv, rfl⟩ := Option.map_eq_some_iff.mp hc
    exact h i v hchosen hv
  · exact ⟨c, rfl⟩

theorem readsBack_iff_cells (encCols : List Int) (reader : Client) :
    w.ReadsBack encCols reader ↔
      ∀ (i : Nat) (s : List w.writer.Unit), (i : Int) ∈ encCols → w.row[i]? = some s →
        w.CellReadsBack reader i s := by
  constructor
  · rintro ⟨cells, hcells, hback⟩ i s hchosen hs
    obtain ⟨v, hv⟩ := w.exists_stored hs
    obtain ⟨t, ht, hcell⟩ := w.decrypt_of_getDec hcells hchosen hv
    obtain ⟨t', hcell', hsame⟩ := hback i s hchosen hs
    obtain rfl : t = t' := Option.some.inj (hcell.symm.trans hcell')
    exact ⟨v, t, hv, ht, hsame⟩
  · intro hback
    have hreads : ∀ (i : Nat) (v : Text), (i : Int) ∈ encCols → w.stored[i]? = some v →
        ∃ t, reader.decrypt aes cipher (reader.ofText v) = .ok t := by
      intro i v hchosen hv
      obtain ⟨s, hs⟩ := w.exists_row hv
      obtain ⟨v', t, hv', ht, -⟩ := hback i s hchosen hs
      obtain rfl : v' = v := Option.some.inj (hv'.symm.trans hv)
      exact ⟨t, ht⟩
    obtain ⟨cells, hcells⟩ := w.exists_getDec hreads
    refine ⟨cells, hcells, fun i s hchosen hs => ?_⟩
    obtain ⟨v, t, hv, ht, hsame⟩ := hback i s hchosen hs
    obtain ⟨t', ht', hcell⟩ := w.decrypt_of_getDec hcells hchosen hv
    obtain rfl : t = t' := Except.ok.inj (ht.symm.trans ht')
    exact ⟨t, hcell, hsame⟩

/-- A cell reads back if it is a Unicode string that was encrypted, or one that does not
look like a token. -/
theorem cellReadsBack_iff (haes : aes.Lawful) (hlength : aes.KeepsLength) (reader : Client)
    {i : Nat} {s : List w.writer.Unit} (hs : w.row[i]? = some s) :
    w.CellReadsBack reader i s ↔
      w.writer.IsWellFormed s ∧ ((i : Int) ∈ w.encCols ∨ isEncrypted s = false) := by
  have hsame : reader.toUtf16 (reader.ofText (w.writer.toText s)) = w.writer.toUtf16 s ↔
      w.writer.IsWellFormed s := by rw [Client.toUtf16_ofText, Client.toUtf16_eq_iff]
  by_cases henc : (i : Int) ∈ w.encCols
  · have hstored := w.stored_of_encrypted hs henc
    have htoken := Client.decrypt_token haes cipher (w.nonces i) reader (w.writer.toText s)
    constructor
    · rintro ⟨v, t, hv, ht, hback⟩
      rw [hstored] at hv
      cases hv
      rw [htoken] at ht
      cases ht
      exact ⟨hsame.mp hback, Or.inl henc⟩
    · rintro ⟨hwell, -⟩
      exact ⟨_, _, hstored, htoken, hsame.mpr hwell⟩
  · have hstored := w.stored_of_insert hs henc
    constructor
    · rintro ⟨v, t, hv, ht, hback⟩
      rw [hstored] at hv
      cases hv
      -- what is taken for a token would come back shorter than it was written
      have hplain : isEncrypted (reader.ofText (w.writer.toText s)) = false := by
        by_contra hmarked
        have hshorter := Client.length_decrypt hlength (Bool.not_eq_false _ ▸ hmarked) ht
        rw [hback, Client.toUtf16_ofText, Client.length_toText] at hshorter
        exact Nat.lt_irrefl _ hshorter
      rw [Client.decrypt_plain aes cipher hplain] at ht
      cases ht
      obtain ⟨text, rfl⟩ := hsame.mp hback
      rw [Client.toText_ofText, Client.isEncrypted_ofText] at hplain
      refine ⟨⟨text, rfl⟩, Or.inr ?_⟩
      rw [Client.isEncrypted_ofText, hplain]
    · rintro ⟨⟨text, rfl⟩, hcase⟩
      have hplain : isEncrypted (reader.ofText text) = false := by
        have hwritten := hcase.resolve_left henc
        rwa [Client.isEncrypted_ofText] at hwritten ⊢
      rw [Client.toText_ofText] at hstored
      refine ⟨text, _, hstored, Client.decrypt_plain aes cipher hplain, ?_⟩
      rw [Client.toUtf16_ofText, Client.toUtf16_ofText]

/-- A row of Unicode strings, as any client writes it. -/
def ofTexts (aes : AesGcm) (cipher : FieldCipher) (writer : Client) (row : List Text)
    (hrow : row ≠ []) (encCols : List Int) (nonces : Nat → Nonce) : Written aes cipher where
  writer := writer
  row := row.map writer.ofText
  encCols := encCols
  nonces := nonces
  stored := storedRow aes nonces row cipher encCols
  row_ne := mt List.map_eq_nil_iff.mp hrow
  stored_ne := storedRow_ne_nil aes nonces hrow cipher encCols
  sent := by
    rw [Client.encRow_ofText]
    simp only [bind, Except.bind]
    rw [Client.joinValues_ofText, Client.send_ofText]

end Written

/-- **Mixed columns are safe to read just where no plaintext looks like a token.** Every
row reads back if and only if each of its chosen cells is a Unicode string that was
encrypted or does not begin with `enc:v1:`. -/
theorem mixedColumns_iff {aes : AesGcm} (haes : aes.Lawful) (hlength : aes.KeepsLength)
    (cipher : FieldCipher) (rows : List (Written aes cipher)) (encCols : List Int)
    (reader : Client) :
    (∀ w ∈ rows, w.ReadsBack encCols reader) ↔
      ∀ w ∈ rows, ∀ (i : Nat) (s : List w.writer.Unit), (i : Int) ∈ encCols →
        w.row[i]? = some s →
          w.writer.IsWellFormed s ∧ ((i : Int) ∈ w.encCols ∨ isEncrypted s = false) := by
  simp only [Written.readsBack_iff_cells]
  constructor
  · intro h w hw i s hchosen hs
    exact (w.cellReadsBack_iff haes hlength reader hs).mp (h w hw i s hchosen hs)
  · intro h w hw i s hchosen hs
    exact (w.cellReadsBack_iff haes hlength reader hs).mpr (h w hw i s hchosen hs)

theorem firstGcm_keepsLength : Client.firstGcm.KeepsLength := by
  intro key nonce ct tag data _ _ h
  by_cases htag : tag = Client.firstTag
  · have hdata : some (Client.firstMask ct) = some data := by simpa [Client.firstGcm, htag] using h
    cases hdata
    exact List.length_mapIdx
  · simp [Client.firstGcm, htag] at h

/-- The key and the nonces of the rows below. -/
def firstCipher : FieldCipher := ⟨(List.range 32).map UInt8.ofNat, rfl⟩

def firstNonces : Nat → Nonce := fun _ => ⟨(List.range 12).map UInt8.ofNat, rfl⟩

/-- A row that a Python client has inserted as it is. -/
def insertedRow : Written Client.firstGcm firstCipher :=
  Written.ofTexts Client.firstGcm firstCipher .python ["enc:v".toList] (by decide) [] firstNonces

/-- A row that a JavaScript client has encrypted. -/
def sealedRow : Written Client.firstGcm firstCipher :=
  Written.ofTexts Client.firstGcm firstCipher .javascript ["a,b\\🦑".toList] (by decide) [0]
    firstNonces

/-- A Python client reads both. -/
theorem mixedColumns_python_reads :
    insertedRow.ReadsBack [0] .python ∧ sealedRow.ReadsBack [0] .python := by
  have hcells : ∀ w ∈ [insertedRow, sealedRow], ∀ (i : Nat) (s : List w.writer.Unit),
      (i : Int) ∈ ([0] : List Int) → w.row[i]? = some s →
        w.writer.IsWellFormed s ∧ ((i : Int) ∈ w.encCols ∨ isEncrypted s = false) := by
    intro w hw i s hchosen hs
    simp only [List.mem_cons, List.not_mem_nil, or_false] at hw hchosen
    obtain rfl : i = 0 := by exact_mod_cast hchosen
    rcases hw with rfl | rfl
    · cases hs
      exact ⟨⟨_, rfl⟩, Or.inr (by decide)⟩
    · cases hs
      exact ⟨⟨_, rfl⟩, Or.inl (by decide)⟩
  have hreads := (mixedColumns_iff Client.firstGcm_lawful firstGcm_keepsLength firstCipher
    [insertedRow, sealedRow] [0] .python).mpr hcells
  exact ⟨hreads insertedRow (by simp), hreads sealedRow (by simp)⟩

theorem Py.b64decode_hello : Py.b64decode (codePoints "hello".toList) = .error .notBase64 := by
  have hascii : ∀ c ∈ codePoints "hello".toList, c.val < 128 := by
    intro c hc
    obtain ⟨a, ha, rfl⟩ := List.mem_map.mp hc
    have hall : "hello".toList.all (·.toNat < 128) = true := by decide
    exact of_decide_eq_true (List.all_eq_true.mp hall a ha)
  have hloop : Py.base64Loop 0 0 ((codePoints "hello".toList).map fun c => Char.ofNat c.val) =
      none := by decide +kernel
  rw [Py.b64decode, if_pos hascii, hloop]

/-- A row that was inserted before encryption was enabled. -/
def legacyRow : Written Client.firstGcm firstCipher :=
  Written.ofTexts Client.firstGcm firstCipher .python ["enc:v1:hello".toList] (by decide) []
    firstNonces

theorem legacyRow_python : legacyRow.getDec [0] .python = .error .notBase64 := by
  rw [Written.getDec_eq]
  have hcell : Py.decrypt Client.firstGcm firstCipher (codePoints "enc:v1:hello".toList) =
      .error .notBase64 := by
    have htext : codePoints "enc:v1:hello".toList =
        ENC_PREFIX.map lit ++ codePoints "hello".toList := rfl
    rw [htext, Py.decrypt, isEncrypted_prefix, drop_prefix, Py.b64decode_hello]
    rfl
  have hrow : onCells [0] (fun _ s => Py.decrypt Client.firstGcm firstCipher s) 0
      [codePoints "enc:v1:hello".toList] = .error .notBase64 := by
    rw [onCells, onCell, if_pos (by decide), hcell]
    rfl
  exact hrow

theorem legacyRow_javascript : legacyRow.getDec [0] .javascript = .error .tooShort := by
  rw [Written.getDec_eq]
  rfl

/-- A plaintext that begins with `enc:v1:` makes its row unreadable for both clients. -/
theorem marked_plaintext_is_unreadable :
    legacyRow.getDec [0] .python = .error .notBase64 ∧
      legacyRow.getDec [0] .javascript = .error .tooShort ∧
      ∀ reader : Client, ¬ ∀ w ∈ [legacyRow], w.ReadsBack [0] reader := by
  refine ⟨legacyRow_python, legacyRow_javascript, fun reader h => ?_⟩
  obtain ⟨cells, hcells, -⟩ := h legacyRow List.mem_cons_self
  cases reader with
  | python =>
    rw [legacyRow_python] at hcells
    cases hcells
  | javascript =>
    rw [legacyRow_javascript] at hcells
    cases hcells

end CuttleDB
