import CuttleDB.FieldCipher

/-!
# Encrypted columns

A client encrypts the chosen cells of a row before it sends the row and decrypts the
same cells of the row that it gets back. Writer and reader may be different clients:
what crosses the wire is the UTF-8 of one line, and both clients make the same line of
the same cells.
-/

namespace CuttleDB

/-! ### Rows -/

/-- A cell, replaced by what `f` makes of it if its index is chosen. -/
def onCell {α ε : Type} (cols : List Int) (f : Nat → α → Except ε α) (i : Nat) (v : α) :
    Except ε α :=
  if (i : Int) ∈ cols then f i v else .ok v

/-- The copy of a row in which the chosen cells are replaced, its indices counted from
`i` on. -/
def onCells {α ε : Type} (cols : List Int) (f : Nat → α → Except ε α) :
    Nat → List α → Except ε (List α)
  | _, [] => .ok []
  | i, v :: row => do
    let w ← onCell cols f i v
    let rest ← onCells cols f (i + 1) row
    .ok (w :: rest)

/-- `_enc_row`, with the nonce that is drawn for the cell at each index -/
def Py.encRow (aes : AesGcm) (urandom : Nat → Nonce) (values : List (List CodePoint))
    (cipher : FieldCipher) (encCols : List Int) : Except CipherError (List (List CodePoint)) :=
  onCells encCols (fun i v => Py.encrypt aes cipher (urandom i) v) 0 values

/-- `get_dec`, from the reply to `GET` -/
def Py.getDec (aes : AesGcm) (reply : List CodePoint) (cipher : FieldCipher)
    (encCols : List Int) : Except CipherError (List (List CodePoint)) :=
  onCells encCols (fun _ v => Py.decrypt aes cipher v) 0 (Py.splitWireRow reply)

/-- `encRow`, with the nonce that is drawn for the cell at each index -/
def Js.encRow (aes : AesGcm) (randomBytes : Nat → Nonce) (values : List (List UInt16))
    (cipher : FieldCipher) (encCols : List Int) : Except CipherError (List (List UInt16)) :=
  onCells encCols (fun i v => .ok (Js.encrypt aes cipher (randomBytes i) v)) 0 values

/-- `getDec`, from the reply to `GET` -/
def Js.getDec (aes : AesGcm) (reply : List UInt16) (cipher : FieldCipher)
    (encCols : List Int) : Except CipherError (List (List UInt16)) :=
  onCells encCols (fun _ v => Js.decrypt aes cipher v) 0 (Js.splitWireRow reply)

/-- The cells of a row, counted from `i` on, with `k` applied to the chosen ones. -/
def mapCells {α : Type} (cols : List Int) (k : Nat → α → α) : Nat → List α → List α
  | _, [] => []
  | i, v :: row => (if (i : Int) ∈ cols then k i v else v) :: mapCells cols k (i + 1) row

theorem length_mapCells {α : Type} (cols : List Int) (k : Nat → α → α) (n : Nat) (row : List α) :
    (mapCells cols k n row).length = row.length := by
  induction row generalizing n with
  | nil => rfl
  | cons v row ih => rw [mapCells, List.length_cons, List.length_cons, ih]

theorem getElem?_mapCells {α : Type} (cols : List Int) (k : Nat → α → α) (n : Nat)
    (row : List α) (i : Nat) :
    (mapCells cols k n row)[i]? =
      row[i]?.map fun v => if ((n + i : Nat) : Int) ∈ cols then k (n + i) v else v := by
  induction row generalizing n i with
  | nil => rfl
  | cons v row ih =>
    cases i with
    | zero => rfl
    | succ i =>
      rw [mapCells, List.getElem?_cons_succ, List.getElem?_cons_succ, ih, Nat.add_right_comm,
        Nat.add_assoc]

section Cells

variable {α β ε : Type} (cols : List Int) {f : Nat → α → Except ε α} {g : β → α} {k : Nat → β → β}

/-- Cells given by `g` stay so, when `f` follows `k`. -/
theorem onCells_ok (h : ∀ i v, f i (g v) = .ok (g (k i v))) (n : Nat) (row : List β) :
    onCells cols f n (row.map g) = .ok ((mapCells cols k n row).map g) := by
  induction row generalizing n with
  | nil => rfl
  | cons v row ih =>
    have hcell : onCell cols f n (g v) = .ok (g (if (n : Int) ∈ cols then k n v else v)) := by
      unfold onCell
      split
      · exact h n v
      · rfl
    rw [List.map_cons, onCells, hcell, ih (n + 1)]
    rfl

/-- Cells are back, when `f` undoes `k`. -/
theorem onCells_back (h : ∀ i v, f i (g (k i v)) = .ok (g v)) (n : Nat) (row : List β) :
    onCells cols f n ((mapCells cols k n row).map g) = .ok (row.map g) := by
  induction row generalizing n with
  | nil => rfl
  | cons v row ih =>
    have hcell : onCell cols f n (g (if (n : Int) ∈ cols then k n v else v)) = .ok (g v) := by
      unfold onCell
      split
      · exact h n v
      · rfl
    rw [mapCells, List.map_cons, onCells, hcell, ih (n + 1)]
    rfl

end Cells

/-- The Unicode strings that are stored for a row of them. -/
def storedRow (aes : AesGcm) (nonces : Nat → Nonce) (row : List Text) (cipher : FieldCipher)
    (encCols : List Int) : List Text :=
  mapCells encCols (fun i v => token aes cipher (nonces i) v) 0 row

theorem length_storedRow (aes : AesGcm) (nonces : Nat → Nonce) (row : List Text)
    (cipher : FieldCipher) (encCols : List Int) :
    (storedRow aes nonces row cipher encCols).length = row.length := length_mapCells encCols _ 0 row

theorem storedRow_ne_nil (aes : AesGcm) (nonces : Nat → Nonce) {row : List Text} (hrow : row ≠ [])
    (cipher : FieldCipher) (encCols : List Int) : storedRow aes nonces row cipher encCols ≠ [] := by
  intro hnil
  have hlength := length_storedRow aes nonces row cipher encCols
  rw [hnil] at hlength
  exact hrow (List.eq_nil_of_length_eq_zero hlength.symm)

/-! ### Texts on the wire -/

theorem escapeUnit_codePoint (table : List (Char × Char)) (c : Char) :
    escapeUnit table (lit c : CodePoint) = (escapeUnit table c).map lit := by
  have hlit : ∀ a : Char, (lit c : CodePoint) = lit a ↔ c = lit a := fun a =>
    ⟨fun h => Char.toNat_inj.mp (Fin.mk.inj h), congrArg lit⟩
  unfold escapeUnit
  simp only [hlit]
  cases table.find? (fun p => c = lit p.1) <;> rfl

theorem codePoints_escape (table : List (Char × Char)) (t : Text) :
    codePoints (t.flatMap (escapeUnit table)) = (codePoints t).flatMap (escapeUnit table) := by
  rw [codePoints, codePoints, List.map_flatMap, List.flatMap_map]
  simp only [escapeUnit_codePoint]

theorem codePoints_join (ps : List Text) :
    codePoints ([lit ','].intercalate ps) = [lit ','].intercalate (ps.map codePoints) := by
  have hsingle : codePoints = List.flatMap fun c => [(lit c : CodePoint)] :=
    funext fun _ => List.map_eq_flatMap
  rw [hsingle]
  exact Escape.flatMap_intercalate _ [lit ','] ps

theorem valueEscapes_subset : valueEscapes ⊆ wireEscapes := by decide

/-- No character that either side of the wire escapes is in a token. -/
theorem token_not_mem {p : Char × Char} (hp : p ∈ wireEscapes) (aes : AesGcm)
    (cipher : FieldCipher) (nonce : Nonce) (t : Text) : p.1 ∉ token aes cipher nonce t := by
  have hplain : ∀ q ∈ wireEscapes, q.1 ∉ ENC_PREFIX ∧ q.1 ≠ '=' ∧
      (Base64.value? q.1).isSome = false := by decide +kernel
  obtain ⟨henc, hpad, hvalue⟩ := hplain p hp
  intro hmem
  rcases List.mem_append.mp hmem with hhead | hrest
  · exact henc hhead
  · rcases Base64.mem_encode hrest with heq | hsome
    · exact hpad heq
    · rw [hvalue] at hsome
      cases hsome

/-! ### Writers and readers -/

inductive Client where
  | python
  | javascript
deriving DecidableEq, Repr

namespace Client

/-- The units of a client's strings. -/
abbrev Unit : Client → Type
  | python => CodePoint
  | javascript => UInt16

instance : (client : Client) → DecidableEq client.Unit
  | python => inferInstanceAs (DecidableEq CodePoint)
  | javascript => inferInstanceAs (DecidableEq UInt16)

instance : (client : Client) → Alphabet client.Unit
  | python => inferInstanceAs (Alphabet CodePoint)
  | javascript => inferInstanceAs (Alphabet UInt16)

/-- A Unicode string as a client has it. -/
def ofText : (client : Client) → Text → List client.Unit
  | python => codePoints
  | javascript => utf16

def encRow (aes : AesGcm) (nonces : Nat → Nonce) (cipher : FieldCipher) (encCols : List Int) :
    (client : Client) → List (List client.Unit) → Except CipherError (List (List client.Unit))
  | python, values => Py.encRow aes nonces values cipher encCols
  | javascript, values => Js.encRow aes nonces values cipher encCols

def encodeValue : (client : Client) → List client.Unit → List client.Unit
  | python, s => Py.encodeValue (.str s)
  | javascript, s => Js.encodeValue (.str s)

def joinValues : (client : Client) → List (List client.Unit) → List client.Unit
  | python => Py.joinValues
  | javascript => Js.joinValues

def splitWireRow : (client : Client) → List client.Unit → List (List client.Unit)
  | python => Py.splitWireRow
  | javascript => Js.splitWireRow

/-- The bytes that a client sends for a text. -/
def send : (client : Client) → List client.Unit → Except CipherError Bytes
  | python, s => Py.encodeUtf8 s
  | javascript, s => .ok (Js.bufferFromUtf8 s)

/-- The text that a client reads from the bytes of a line. -/
def receive : (client : Client) → Bytes → Except CipherError (List client.Unit)
  | python, data => Py.decodeUtf8 data
  | javascript, data => .ok (Js.toStringUtf8 data)

def getDec (aes : AesGcm) (cipher : FieldCipher) (encCols : List Int) :
    (client : Client) → List client.Unit → Except CipherError (List (List client.Unit))
  | python, reply => Py.getDec aes reply cipher encCols
  | javascript, reply => Js.getDec aes reply cipher encCols

variable {aes : AesGcm}

theorem encRow_ofText (aes : AesGcm) (nonces : Nat → Nonce) (cipher : FieldCipher)
    (encCols : List Int) (client : Client) (row : List Text) :
    client.encRow aes nonces cipher encCols (row.map client.ofText) =
      .ok ((storedRow aes nonces row cipher encCols).map client.ofText) := by
  cases client with
  | python =>
    exact onCells_ok encCols (fun i t => Py.encrypt_codePoints aes cipher (nonces i) t) 0 row
  | javascript =>
    apply onCells_ok encCols _ 0 row
    intro i t
    exact congrArg Except.ok (Js.encrypt_utf16 aes cipher (nonces i) t)

theorem ofText_escape {table : List (Char × Char)} (htable : IsAscii table) (client : Client)
    (t : Text) :
    client.ofText (t.flatMap (escapeUnit table)) =
      (client.ofText t).flatMap (escapeUnit table) := by
  cases client with
  | python => exact codePoints_escape table t
  | javascript =>
    have hunits := encode_escape htable (codePoints t)
    exact (congrArg Utf16.encode (codePoints_escape table t)).trans hunits

theorem ofText_join (client : Client) (ps : List Text) :
    client.ofText ([lit ','].intercalate ps) =
      [lit ','].intercalate (ps.map client.ofText) := by
  cases client with
  | python => exact codePoints_join ps
  | javascript =>
    have hunits := encode_join (ps.map codePoints)
    rw [List.map_map] at hunits
    exact (congrArg Utf16.encode (codePoints_join ps)).trans hunits

/-- Every client writes one text for a Unicode string. -/
theorem encodeValue_ofText (client : Client) (t : Text) :
    client.encodeValue (client.ofText t) = client.ofText (Py.encodeValue (.str t)) := by
  rw [encodeValue_str, ofText_escape (by decide)]
  cases client with
  | python => exact encodeValue_str (codePoints t)
  | javascript => exact encodeValue_str (utf16 t)

theorem joinValues_ofText (client : Client) (row : List Text) :
    client.joinValues (row.map client.ofText) = client.ofText (Py.joinValues row) := by
  have hcells : client.joinValues (row.map client.ofText) =
      [lit ','].intercalate ((row.map client.ofText).map client.encodeValue) := by
    cases client <;> rfl
  rw [hcells, Py.joinValues, ofText_join, List.map_map, List.map_map]
  congr 1
  exact List.map_congr_left fun t _ => encodeValue_ofText client t

theorem renderRow_ofText (client : Client) (row : List Text) :
    renderRow (row.map client.ofText) = client.ofText (renderRow row) := by
  rw [renderRow, renderRow, ofText_join, List.map_map, List.map_map]
  congr 1
  exact List.map_congr_left fun t _ => (ofText_escape (by decide) client t).symm

theorem splitWireRow_ofText (client : Client) {row : List Text} (hrow : row ≠ []) :
    client.splitWireRow (client.ofText (Py.joinValues row)) = row.map client.ofText := by
  rw [← joinValues_ofText]
  have hmap : row.map client.ofText ≠ [] := mt List.map_eq_nil_iff.mp hrow
  cases client with
  | python => exact splitWireRow_encodeValue hmap
  | javascript => exact splitWireRow_encodeValue hmap

theorem send_ofText (client : Client) (t : Text) :
    client.send (client.ofText t) = .ok (Utf8.encode t) := by
  cases client with
  | python => exact Py.encodeUtf8_codePoints t
  | javascript => exact congrArg Except.ok (Js.bufferFromUtf8_utf16 t)

theorem receive_encode (client : Client) (t : Text) :
    client.receive (Utf8.encode t) = .ok (client.ofText t) := by
  cases client with
  | python => exact Py.decodeUtf8_encode t
  | javascript => exact congrArg Except.ok (Js.toStringUtf8_encode t)

/-- A client that splits a reply into the stored cells reads the row. -/
theorem getDec_of_split (haes : aes.Lawful) (nonces : Nat → Nonce) (cipher : FieldCipher)
    (encCols : List Int) (client : Client) (row : List Text) {reply : List client.Unit}
    (hreply : client.splitWireRow reply =
      (storedRow aes nonces row cipher encCols).map client.ofText) :
    client.getDec aes cipher encCols reply = .ok (row.map client.ofText) := by
  cases client with
  | python =>
    have hcells : Py.splitWireRow reply = _ := hreply
    rw [getDec, Py.getDec, hcells]
    exact onCells_back encCols (fun i t => Py.decrypt_token haes cipher (nonces i) t) 0 row
  | javascript =>
    have hcells : Js.splitWireRow reply = _ := hreply
    rw [getDec, Js.getDec, hcells]
    exact onCells_back encCols (fun i t => Js.decrypt_token haes cipher (nonces i) t) 0 row

/-- A row goes from a writer to a reader: the writer encrypts the chosen cells and sends
the encoded row, the reader splits the line and decrypts the same cells. -/
def crossing (aes : AesGcm) (nonces : Nat → Nonce) (cipher : FieldCipher) (encCols : List Int)
    (writer reader : Client) (row : List (List writer.Unit)) :
    Except CipherError (List (List reader.Unit)) := do
  let stored ← writer.encRow aes nonces cipher encCols row
  let wire ← writer.send (writer.joinValues stored)
  let line ← reader.receive wire
  reader.getDec aes cipher encCols line

/-- **Encrypted columns across languages.** Whichever client writes a row of Unicode
strings and whichever reads it, the reader gets the row. The chosen cells cross the wire
as tokens that neither the writer nor the server has to escape, the other cells as they
are; and the reader gets the row from the server's rendering of the stored one, too. -/
theorem encrypted_columns (haes : aes.Lawful) (cipher : FieldCipher) (row : List Text)
    (hrow : row ≠ []) (encCols : List Int) (nonces : Nat → Nonce) (writer reader : Client) :
    crossing aes nonces cipher encCols writer reader (row.map writer.ofText) =
        .ok (row.map reader.ofText) ∧
      ∃ stored : List Text,
        writer.encRow aes nonces cipher encCols (row.map writer.ofText) =
          .ok (stored.map writer.ofText) ∧
        stored.length = row.length ∧
        (∀ (i : Nat) (v w : Text), row[i]? = some v → stored[i]? = some w →
          if (i : Int) ∈ encCols then
            isEncrypted w ∧ wireStrEncode w = w ∧
              writer.encodeValue (writer.ofText w) = writer.ofText w
          else w = v) ∧
        (do
          let line ← reader.receive (Utf8.encode (renderRow stored))
          reader.getDec aes cipher encCols line) = .ok (row.map reader.ofText) := by
  have hlength := length_storedRow aes nonces row cipher encCols
  have hstored := storedRow_ne_nil aes nonces hrow cipher encCols
  refine ⟨?_, storedRow aes nonces row cipher encCols, encRow_ofText aes nonces cipher encCols
    writer row, hlength, ?_, ?_⟩
  · rw [crossing, encRow_ofText]
    simp only [bind, Except.bind]
    rw [joinValues_ofText, send_ofText]
    dsimp only
    rw [receive_encode]
    exact getDec_of_split haes nonces cipher encCols reader row (splitWireRow_ofText reader hstored)
  · intro i v w hv hw
    rw [storedRow, getElem?_mapCells, hv, Option.map_some, Option.some.injEq, Nat.zero_add] at hw
    split
    · rename_i hchosen
      rw [if_pos hchosen] at hw
      subst hw
      have hwire : wireStrEncode (token aes cipher (nonces i) v) = token aes cipher (nonces i) v :=
        flatMap_escapeUnit_of_not_mem fun p hp => token_not_mem hp aes cipher (nonces i) v
      have hvalue : Py.encodeValue (.str (token aes cipher (nonces i) v)) =
          token aes cipher (nonces i) v := by
        rw [encodeValue_str]
        exact flatMap_escapeUnit_of_not_mem fun p hp =>
          token_not_mem (valueEscapes_subset hp) aes cipher (nonces i) v
      refine ⟨?_, hwire, by rw [encodeValue_ofText, hvalue]⟩
      have hlit : ENC_PREFIX.map (lit : Char → Char) = ENC_PREFIX := List.map_id _
      rw [token, ← hlit]
      exact isEncrypted_prefix _
    · rename_i hchosen
      rw [if_neg hchosen] at hw
      exact hw.symm
  · rw [receive_encode]
    apply getDec_of_split haes nonces cipher encCols reader row
    rw [← renderRow_ofText]
    have hmap : (storedRow aes nonces row cipher encCols).map reader.ofText ≠ [] :=
      mt List.map_eq_nil_iff.mp hstored
    cases reader with
    | python => exact splitWireRow_renderRow hmap
    | javascript => exact splitWireRow_renderRow hmap

/-- Bytes under the key stream of AES-256-GCM for the key `00 01 .. 1f` and the nonce
`00 01 .. 0b`, as far as eight bytes go. -/
def firstMask (data : Bytes) : Bytes :=
  data.mapIdx fun i b => b ^^^ ([71, 2, 214, 27, 197, 229, 194, 27].getD i 0 : UInt8)

/-- The tag of the text `a,b\🦑` under that key and nonce. -/
def firstTag : Bytes := [111, 148, 237, 100, 197, 149, 97, 202, 202, 179, 64, 178, 54, 66, 145, 86]

/-- AES-256-GCM, as far as it seals that text under that key and nonce. -/
def firstGcm : AesGcm where
  encrypt _ _ data := (firstMask data, firstTag)
  decrypt _ _ ct tag := if tag = firstTag then some (firstMask ct) else none

theorem firstGcm_lawful : firstGcm.Lawful := by
  constructor
  · intro key nonce data _ _
    rfl
  · intro key nonce data _ _
    have hback : firstMask (firstMask data) = data := by
      apply List.ext_getElem
      · simp [firstMask]
      · intro i hi hi'
        simp only [firstMask, List.getElem_mapIdx, UInt8.xor_assoc, UInt8.xor_self, UInt8.xor_zero]
    have hverified : firstGcm.decrypt key nonce (firstMask data) firstTag =
        some (firstMask (firstMask data)) := by simp [firstGcm]
    exact hverified.trans (congrArg some hback)

/-- A JavaScript client writes an encrypted cell of delimiters and a character beyond
U+FFFF beside a plain cell, and a Python client reads them. -/
theorem encrypted_columns_python_reads_javascript :
    crossing firstGcm (fun _ => ⟨(List.range 12).map UInt8.ofNat, rfl⟩)
        ⟨(List.range 32).map UInt8.ofNat, rfl⟩ [0, -1, 9] .javascript .python
        (["a,b\\🦑".toList, "plain,".toList].map (ofText .javascript)) =
      .ok (["a,b\\🦑".toList, "plain,".toList].map (ofText .python)) :=
  (encrypted_columns firstGcm_lawful _ _ (by decide) _ _ .javascript .python).1

end Client

end CuttleDB
