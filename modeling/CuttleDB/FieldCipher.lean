import CuttleDB.Lib.Base64
import CuttleDB.Lib.Utf16
import CuttleDB.Lib.Utf8
import CuttleDB.RowCodec
import CuttleDB.ServerLines

/-!
# Field encryption

A cell is encrypted before it goes on the wire and decrypted after it came back. The
token of a cell is `enc:v1:` and the base64 of nonce, ciphertext and tag; the Python
client leaves ciphertext and tag in one piece, as its library has them, and the
JavaScript client takes them apart. Each client works on strings of its own units, with
its runtime's readings of UTF-8 and base64. AES-256-GCM is a parameter.
-/

namespace CuttleDB

/-- AES-256-GCM without associated data, as `cryptography` and `node:crypto` have it. -/
structure AesGcm where
  /-- ciphertext and tag of `encrypt key nonce data` -/
  encrypt : Bytes → Bytes → Bytes → Bytes × Bytes
  /-- `decrypt key nonce ciphertext tag`; `none` if the tag does not verify -/
  decrypt : Bytes → Bytes → Bytes → Bytes → Option Bytes

/-- What the clients rely on: under a key of 32 bytes and a nonce of 12, a tag of 16
bytes, and decryption that inverts encryption. -/
structure AesGcm.Lawful (aes : AesGcm) : Prop where
  length_tag : ∀ key nonce data : Bytes, key.length = 32 → nonce.length = 12 →
    (aes.encrypt key nonce data).2.length = 16
  decrypt_encrypt : ∀ key nonce data : Bytes, key.length = 32 → nonce.length = 12 →
    aes.decrypt key nonce (aes.encrypt key nonce data).1 (aes.encrypt key nonce data).2 = some data

/-- What the constructors, the encrypters and the decrypters raise. -/
inductive CipherError where
  | keyLength (got : Nat) -- `key must be 32 bytes for AES-256, got ...`
  | tooShort -- `ciphertext token too short`
  | surrogate -- `UnicodeEncodeError`
  | notUtf8 -- `UnicodeDecodeError`
  | notBase64 -- `ValueError` or `binascii.Error`
  | invalidTag -- `InvalidTag`, or the error of `final()`
deriving DecidableEq, Repr

/-- A cipher of either client, with the key that its constructor has checked. -/
structure FieldCipher where
  key : Bytes
  length_key : key.length = 32

/-- The constructor of both clients. -/
def FieldCipher.create (key : Bytes) : Except CipherError FieldCipher :=
  if h : key.length = 32 then .ok ⟨key, h⟩ else .error (.keyLength key.length)

/-- What `os.urandom(12)` and `randomBytes(12)` return. -/
structure Nonce where
  bytes : Bytes
  length_bytes : bytes.length = 12

/-- `ENC_PREFIX` -/
def ENC_PREFIX : Text := "enc:v1:".toList

variable {α : Type} [DecidableEq α] [Alphabet α]

/-- `is_encrypted`, `isEncrypted` -/
def isEncrypted (token : List α) : Bool := (ENC_PREFIX.map lit).isPrefixOf token

/-- The character that a code point is, unless it is a surrogate. -/
def scalar? (c : CodePoint) : Option Char :=
  if Utf16.IsSurrogate c then none else some (Char.ofNat c.val)

/-! ### The Python client -/

namespace Py

/-- `s.encode("utf-8")` -/
def encodeUtf8 (s : List CodePoint) : Except CipherError Bytes :=
  match s.mapM scalar? with
  | some t => .ok (Utf8.encode t)
  | none => .error .surrogate

/-- `data.decode("utf-8")` -/
def decodeUtf8 (data : Bytes) : Except CipherError (List CodePoint) :=
  match Utf8.decode? data with
  | some t => .ok (t.map lit)
  | none => .error .notUtf8

/-- The loop of `b64decode` over a text, with the number of values in the open group and
the number of `=` after them. What is not in the alphabet is skipped; the padding of an
open group ends the text; an end inside a group is an error. -/
def base64Loop : Nat → Nat → List Char → Option (List (Fin 64))
  | quad, _, [] => if quad = 0 then some [] else none
  | quad, pads, c :: s =>
    if c = '=' then
      if 2 ≤ quad then
        if 4 ≤ quad + (pads + 1) then some [] else base64Loop quad (pads + 1) s
      else base64Loop quad pads s
    else
      match Base64.value? c with
      | none => base64Loop quad pads s
      | some v => (base64Loop ((quad + 1) % 4) 0 s).map (v :: ·)

/-- `base64.b64decode(s)`: the text must be ASCII. -/
def b64decode (s : List CodePoint) : Except CipherError Bytes :=
  if ∀ c ∈ s, c.val < 128 then
    match base64Loop 0 0 (s.map fun c => Char.ofNat c.val) with
    | some values => .ok (Base64.bytes values)
    | none => .error .notBase64
  else .error .notBase64

/-- `AESGCM.encrypt(nonce, data, None)`: the tag follows the ciphertext. -/
def aesEncrypt (aes : AesGcm) (key nonce data : Bytes) : Bytes :=
  (aes.encrypt key nonce data).1 ++ (aes.encrypt key nonce data).2

/-- `AESGCM.decrypt(nonce, data, None)`: the last 16 bytes are the tag. -/
def aesDecrypt (aes : AesGcm) (key nonce data : Bytes) : Except CipherError Bytes :=
  if data.length < 16 then .error .invalidTag
  else
    match aes.decrypt key nonce (data.take (data.length - 16)) (data.drop (data.length - 16)) with
    | some plain => .ok plain
    | none => .error .invalidTag

/-- `FieldCipher.encrypt` of a string -/
def encrypt (aes : AesGcm) (cipher : FieldCipher) (nonce : Nonce) (plaintext : List CodePoint) :
    Except CipherError (List CodePoint) := do
  let data ← encodeUtf8 plaintext
  let ct := aesEncrypt aes cipher.key nonce.bytes data
  .ok (ENC_PREFIX.map lit ++ (Base64.encode (nonce.bytes ++ ct)).map lit)

/-- `FieldCipher.decrypt` -/
def decrypt (aes : AesGcm) (cipher : FieldCipher) (token : List CodePoint) :
    Except CipherError (List CodePoint) := do
  if ¬ isEncrypted token then return token
  let raw ← b64decode (token.drop ENC_PREFIX.length)
  if raw.length < 12 + 16 then throw .tooShort
  let nonce := raw.take 12
  let ct := raw.drop 12
  let data ← aesDecrypt aes cipher.key nonce ct
  decodeUtf8 data

end Py

/-! ### The JavaScript client -/

namespace Js

/-- `Buffer.from(s, "utf8")`: a lone surrogate becomes U+FFFD. -/
def bufferFromUtf8 (s : List UInt16) : Bytes :=
  Utf8.encode ((Utf16.decode s).map fun c => (scalar? c).getD '\uFFFD')

/-- `buffer.toString("utf8")` -/
def toStringUtf8 (data : Bytes) : List UInt16 :=
  Utf16.encode ((Utf8.decodeReplacing data).map lit)

/-- The value of a unit in base64 or its URL-safe form. -/
def base64Value? (u : UInt16) : Option (Fin 64) :=
  if u = lit '-' then some ⟨62, by decide⟩
  else if u = lit '_' then some ⟨63, by decide⟩
  else if u.toNat < 128 then Base64.value? (Char.ofNat u.toNat)
  else none

/-- `Buffer.from(s, "base64")`: of each unit the low byte is read, the text ends at the first
`=`, and what is in neither alphabet is skipped. -/
def bufferFromBase64 (s : List UInt16) : Bytes :=
  Base64.bytes (((s.map (· % 256)).takeWhile (· ≠ lit '=')).filterMap base64Value?)

/-- `FieldCipher.encrypt` of a string -/
def encrypt (aes : AesGcm) (cipher : FieldCipher) (iv : Nonce) (plaintext : List UInt16) :
    List UInt16 :=
  let (ct, tag) := aes.encrypt cipher.key iv.bytes (bufferFromUtf8 plaintext)
  ENC_PREFIX.map lit ++ (Base64.encode (iv.bytes ++ ct ++ tag)).map lit

/-- `FieldCipher.decrypt` -/
def decrypt (aes : AesGcm) (cipher : FieldCipher) (token : List UInt16) :
    Except CipherError (List UInt16) := do
  if ¬ isEncrypted token then return token
  let raw := bufferFromBase64 (token.drop ENC_PREFIX.length)
  if raw.length < 12 + 16 then throw .tooShort
  let iv := raw.take 12
  let tag := raw.drop (raw.length - 16)
  let ct := (raw.take (raw.length - 16)).drop 12
  match aes.decrypt cipher.key iv ct tag with
  | some data => return toStringUtf8 data
  | none => throw .invalidTag

end Js

/-! ### Unicode strings -/

/-- A Unicode string as the Python client has it. -/
def codePoints (t : Text) : List CodePoint := t.map lit

/-- A Unicode string as the JavaScript client has it. -/
def utf16 (t : Text) : List UInt16 := Utf16.encode (codePoints t)

theorem not_isSurrogate_lit (c : Char) : ¬ Utf16.IsSurrogate (lit c : CodePoint) := by
  have hvalid : c.toNat < 0xD800 ∨ (0xDFFF < c.toNat ∧ c.toNat < 0x110000) := c.valid
  have hval : (lit c : CodePoint).val = c.toNat := rfl
  rintro ⟨hlow, hhigh⟩
  omega

theorem scalar?_lit (c : Char) : scalar? (lit c : CodePoint) = some c := by
  have hval : (lit c : CodePoint).val = c.toNat := rfl
  rw [scalar?, if_neg (not_isSurrogate_lit c), hval, Char.ofNat_toNat]

theorem decode_utf16 (t : Text) : Utf16.decode (utf16 t) = codePoints t := by
  apply Utf16.decode_encode
  intro c hc
  obtain ⟨a, -, rfl⟩ := List.mem_map.mp hc
  exact not_isSurrogate_lit a

theorem Py.encodeUtf8_codePoints (t : Text) :
    Py.encodeUtf8 (codePoints t) = .ok (Utf8.encode t) := by
  have hmap : (codePoints t).mapM scalar? = some t := by
    induction t with
    | nil => rfl
    | cons c t ih =>
      have htail : (t.map lit).mapM scalar? = some t := ih
      simp [codePoints, scalar?_lit, htail]
  rw [Py.encodeUtf8, hmap]

theorem Py.decodeUtf8_encode (t : Text) :
    Py.decodeUtf8 (Utf8.encode t) = .ok (codePoints t) := by
  rw [Py.decodeUtf8, Utf8.decode?_encode]
  rfl

theorem Js.bufferFromUtf8_utf16 (t : Text) : Js.bufferFromUtf8 (utf16 t) = Utf8.encode t := by
  have hback : (fun c => (scalar? c).getD '\uFFFD') ∘ (lit : Char → CodePoint) = id :=
    funext fun c => by simp [scalar?_lit]
  rw [Js.bufferFromUtf8, decode_utf16, codePoints, List.map_map, hback, List.map_id]

theorem Js.toStringUtf8_encode (t : Text) : Js.toStringUtf8 (Utf8.encode t) = utf16 t := by
  rw [Js.toStringUtf8, Utf8.decodeReplacing_encode]
  rfl

/-! ### Base64 -/

theorem base64_ascii {c : Char} {b : Bytes} (hc : c ∈ Base64.encode b) : c.toNat < 128 := by
  have hchar : ∀ v : Fin 64, (Base64.char v).toNat < 128 := by decide +kernel
  rcases List.mem_append.mp hc with hvalue | hpad
  · obtain ⟨v, -, rfl⟩ := List.mem_map.mp hvalue
    exact hchar v
  · rw [List.eq_of_mem_replicate hpad]
    decide

namespace Py

theorem base64Loop_values {quad : Nat} (hquad : quad < 4) (vs : List (Fin 64)) (rest : List Char) :
    base64Loop quad 0 (vs.map Base64.char ++ rest) =
      (base64Loop ((quad + vs.length) % 4) 0 rest).map (vs ++ ·) := by
  induction vs generalizing quad with
  | nil =>
    rw [List.length_nil, Nat.add_zero, Nat.mod_eq_of_lt hquad]
    simp
  | cons v vs ih =>
    rw [List.map_cons, List.cons_append, base64Loop, if_neg (Base64.char_ne_pad v),
      Base64.value?_char]
    dsimp only
    rw [ih (Nat.mod_lt _ (by decide)), Option.map_map, List.length_cons, Nat.mod_add_mod,
      Nat.add_right_comm, Nat.add_assoc]
    rfl

theorem base64Loop_padding {n : Nat} (hn : n % 4 ≠ 1) :
    base64Loop (n % 4) 0 (Base64.padding n) = some [] := by
  have hlt : n % 4 < 4 := Nat.mod_lt _ (by decide)
  rw [Base64.padding]
  generalize n % 4 = r at hn hlt
  match r, hn, hlt with
  | 0, _, _ => rfl
  | 2, _, _ => rfl
  | 3, _, _ => rfl

theorem b64decode_encode (b : Bytes) : b64decode ((Base64.encode b).map lit) = .ok b := by
  have hascii : ∀ c ∈ (Base64.encode b).map (lit : Char → CodePoint), c.val < 128 := by
    intro c hc
    obtain ⟨a, ha, rfl⟩ := List.mem_map.mp hc
    exact base64_ascii ha
  have hback : ((Base64.encode b).map (lit : Char → CodePoint)).map (fun c => Char.ofNat c.val) =
      Base64.encode b := by
    rw [List.map_map]
    conv_rhs => rw [← List.map_id (Base64.encode b)]
    exact List.map_congr_left fun a _ => Char.ofNat_toNat a
  rw [b64decode, if_pos hascii, hback, Base64.encode, base64Loop_values (by decide), Nat.zero_add,
    base64Loop_padding (Base64.length_values_mod b)]
  simp [Base64.bytes_values]

end Py

namespace Js

theorem base64Value?_char (v : Fin 64) : base64Value? (lit (Base64.char v)) = some v := by
  revert v
  decide +kernel

theorem lit_char_ne_pad (v : Fin 64) : (lit (Base64.char v) : UInt16) ≠ lit '=' := by
  revert v
  decide +kernel

/-- A character of ASCII is its own low byte. -/
theorem lit_mod {c : Char} (hc : c.toNat < 128) : (lit c : UInt16) % 256 = lit c := by
  have hval : (lit c : UInt16).toNat = c.toNat :=
    UInt16.toNat_ofNat_of_lt (hc.trans (by decide))
  apply UInt16.toNat_inj.mp
  rw [UInt16.toNat_mod, hval]
  exact Nat.mod_eq_of_lt (hc.trans (by decide))

theorem bufferFromBase64_encode (b : Bytes) :
    bufferFromBase64 ((Base64.encode b).map lit) = b := by
  have hlow : ((Base64.encode b).map (lit : Char → UInt16)).map (· % 256) =
      (Base64.encode b).map lit := by
    rw [List.map_map]
    exact List.map_congr_left fun c hc => lit_mod (base64_ascii hc)
  have htext : (Base64.encode b).map (lit : Char → UInt16) =
      (Base64.values b).map (fun v => lit (Base64.char v)) ++
        (Base64.padding (Base64.values b).length).map lit := by
    rw [Base64.encode, List.map_append, List.map_map]
    rfl
  have hend : ((Base64.padding (Base64.values b).length).map (lit : Char → UInt16)).takeWhile
      (· ≠ lit '=') = [] := by
    rw [Base64.padding, List.map_replicate]
    cases (4 - (Base64.values b).length % 4) % 4 with
    | zero => rfl
    | succ n => simp [List.replicate_succ]
  have hstop : ∀ u ∈ (Base64.values b).map (fun v => (lit (Base64.char v) : UInt16)),
      decide (u ≠ lit '=') = true := by
    intro u hu
    obtain ⟨v, -, rfl⟩ := List.mem_map.mp hu
    exact decide_eq_true (lit_char_ne_pad v)
  rw [bufferFromBase64, hlow, htext, List.takeWhile_append_of_pos hstop, hend, List.append_nil,
    List.filterMap_map]
  have hsome : (base64Value? ∘ fun v => (lit (Base64.char v) : UInt16)) = some :=
    funext base64Value?_char
  rw [hsome, List.filterMap_some, Base64.bytes_values]

end Js

/-! ### Tokens -/

/-- The token of a Unicode string: the format that both clients keep to. -/
def token (aes : AesGcm) (cipher : FieldCipher) (nonce : Nonce) (t : Text) : Text :=
  let sealed := aes.encrypt cipher.key nonce.bytes (Utf8.encode t)
  ENC_PREFIX ++ Base64.encode (nonce.bytes ++ (sealed.1 ++ sealed.2))

theorem token_ascii {aes : AesGcm} {cipher : FieldCipher} {nonce : Nonce} {t : Text} {c : Char}
    (hc : c ∈ token aes cipher nonce t) : c.toNat < 128 := by
  have henc : ENC_PREFIX.all (·.toNat < 128) = true := by decide
  rcases List.mem_append.mp hc with hhead | hrest
  · exact of_decide_eq_true (List.all_eq_true.mp henc c hhead)
  · exact base64_ascii hrest

theorem utf16_of_ascii {t : Text} (ht : ∀ c ∈ t, c.toNat < 128) : utf16 t = t.map lit :=
  encode_lits ht

theorem isEncrypted_prefix (rest : List α) : isEncrypted (ENC_PREFIX.map lit ++ rest) = true :=
  List.isPrefixOf_iff_prefix.mpr (List.prefix_append _ _)

omit [DecidableEq α] in
/-- Both clients take the prefix off by its length. -/
theorem drop_prefix (rest : List α) :
    (ENC_PREFIX.map lit ++ rest).drop ENC_PREFIX.length = rest := by
  have hlength : (ENC_PREFIX.map (lit : Char → α)).length = ENC_PREFIX.length :=
    List.length_map _
  rw [← hlength, List.drop_left]

theorem Py.encrypt_codePoints (aes : AesGcm) (cipher : FieldCipher) (nonce : Nonce) (t : Text) :
    Py.encrypt aes cipher nonce (codePoints t) = .ok (codePoints (token aes cipher nonce t)) := by
  rw [Py.encrypt, Py.encodeUtf8_codePoints]
  simp only [token, codePoints, List.map_append]
  rfl

theorem Js.encrypt_utf16 (aes : AesGcm) (cipher : FieldCipher) (iv : Nonce) (t : Text) :
    Js.encrypt aes cipher iv (utf16 t) = utf16 (token aes cipher iv t) := by
  rw [utf16_of_ascii fun c hc => token_ascii hc]
  simp only [Js.encrypt, Js.bufferFromUtf8_utf16, token, List.map_append, List.append_assoc]

theorem Py.aesDecrypt_append (aes : AesGcm) (key nonce ct : Bytes) {tag : Bytes}
    (htag : tag.length = 16) :
    Py.aesDecrypt aes key nonce (ct ++ tag) =
      match aes.decrypt key nonce ct tag with
      | some plain => .ok plain
      | none => .error .invalidTag := by
  have hlength : (ct ++ tag).length - 16 = ct.length := by
    rw [List.length_append, htag, Nat.add_sub_cancel]
  have hlong : ¬ (ct ++ tag).length < 16 := by
    rw [List.length_append]
    omega
  rw [Py.aesDecrypt, if_neg hlong, hlength, List.take_left, List.drop_left]

/-- **The Python client reads the token of a string,** whichever client wrote it. -/
theorem Py.decrypt_token {aes : AesGcm} (haes : aes.Lawful) (cipher : FieldCipher) (nonce : Nonce)
    (t : Text) :
    Py.decrypt aes cipher (codePoints (token aes cipher nonce t)) = .ok (codePoints t) := by
  have htag := haes.length_tag cipher.key nonce.bytes (Utf8.encode t) cipher.length_key
    nonce.length_bytes
  have hback := haes.decrypt_encrypt cipher.key nonce.bytes (Utf8.encode t) cipher.length_key
    nonce.length_bytes
  have hnonce := nonce.length_bytes
  rw [token, codePoints, List.map_append, Py.decrypt, isEncrypted_prefix, drop_prefix]
  dsimp only
  generalize aes.encrypt cipher.key nonce.bytes (Utf8.encode t) = sealed at htag hback ⊢
  have hlong : ¬ (nonce.bytes ++ (sealed.1 ++ sealed.2)).length < 12 + 16 := by
    simp only [List.length_append]
    omega
  have htake : (nonce.bytes ++ (sealed.1 ++ sealed.2)).take 12 = nonce.bytes :=
    List.take_left' hnonce
  have hdrop : (nonce.bytes ++ (sealed.1 ++ sealed.2)).drop 12 = sealed.1 ++ sealed.2 :=
    List.drop_left' hnonce
  rw [Py.b64decode_encode]
  simp only [not_true_eq_false, if_false, bind, Except.bind, hlong, htake, hdrop,
    Py.aesDecrypt_append _ _ _ _ htag, hback]
  exact Py.decodeUtf8_encode t

/-- **The JavaScript client reads the token of a string,** whichever client wrote it. -/
theorem Js.decrypt_token {aes : AesGcm} (haes : aes.Lawful) (cipher : FieldCipher) (nonce : Nonce)
    (t : Text) :
    Js.decrypt aes cipher (utf16 (token aes cipher nonce t)) = .ok (utf16 t) := by
  have htag := haes.length_tag cipher.key nonce.bytes (Utf8.encode t) cipher.length_key
    nonce.length_bytes
  have hback := haes.decrypt_encrypt cipher.key nonce.bytes (Utf8.encode t) cipher.length_key
    nonce.length_bytes
  have hnonce := nonce.length_bytes
  rw [utf16_of_ascii fun c hc => token_ascii hc, token, List.map_append, Js.decrypt,
    isEncrypted_prefix, drop_prefix, Js.bufferFromBase64_encode]
  dsimp only
  generalize aes.encrypt cipher.key nonce.bytes (Utf8.encode t) = sealed at htag hback ⊢
  have hlength : (nonce.bytes ++ (sealed.1 ++ sealed.2)).length =
      nonce.bytes.length + sealed.1.length + 16 := by
    simp only [List.length_append, htag, Nat.add_assoc]
  have hlong : ¬ (nonce.bytes ++ (sealed.1 ++ sealed.2)).length < 12 + 16 := by omega
  have htake : (nonce.bytes ++ (sealed.1 ++ sealed.2)).take 12 = nonce.bytes :=
    List.take_left' hnonce
  have hsplit : (nonce.bytes ++ (sealed.1 ++ sealed.2)).length - 16 =
      (nonce.bytes ++ sealed.1).length := by
    rw [hlength, List.length_append, Nat.add_sub_cancel]
  have htag' : (nonce.bytes ++ (sealed.1 ++ sealed.2)).drop
      ((nonce.bytes ++ (sealed.1 ++ sealed.2)).length - 16) = sealed.2 := by
    rw [hsplit, ← List.append_assoc, List.drop_left]
  have hct : ((nonce.bytes ++ (sealed.1 ++ sealed.2)).take
      ((nonce.bytes ++ (sealed.1 ++ sealed.2)).length - 16)).drop 12 = sealed.1 := by
    rw [hsplit, ← List.append_assoc, List.take_left]
    exact List.drop_left' hnonce
  simp only [not_true_eq_false, if_false, hlong, htake, htag', hct, hback,
    Js.toStringUtf8_encode]
  rfl

end CuttleDB
