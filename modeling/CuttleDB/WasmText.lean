import CuttleDB.FieldCipher
import CuttleDB.SearchClient

/-!
# Texts in the memory of the engine

The loader of the in-process engine passes a command line as UTF-8 that ends with NUL,
and reads a reply back from a buffer that also has whatever was in it before. Lengths,
encoder and decoder are its own, unit by unit; a longer reply goes through `TextDecoder`.
Every Unicode text without NUL comes through unharmed in both directions.
-/

namespace CuttleDB.Wasm

/-! ### The loader -/

/-- `codePointAt` at the unit `u`, where `rest` comes after it -/
def codePointAt (u : UInt16) : List UInt16 → Nat
  | [] => u.toNat
  | v :: _ =>
    if Utf16.IsPair u v then 0x10000 + (u.toNat - 0xD800) * 0x400 + (v.toNat - 0xDC00)
    else u.toNat

def lengthBytesUTF8 : List UInt16 → Nat
  | [] => 0
  | c :: str =>
    if c ≤ 127 then 1 + lengthBytesUTF8 str
    else if c ≤ 2047 then 2 + lengthBytesUTF8 str
    else if 55296 ≤ c ∧ c ≤ 57343 then 4 + lengthBytesUTF8 str.tail
    else 3 + lengthBytesUTF8 str
termination_by str => str.length

/-- `stringToUTF8Array`, with `room` for that many bytes up to the place of the NUL. A
character that does not fit ends the text. -/
def stringToUTF8Array : List UInt16 → Nat → Bytes
  | [], _ => []
  | c :: str, room =>
    let u := codePointAt c str
    if u ≤ 127 then
      if room < 1 then [] else UInt8.ofNat u :: stringToUTF8Array str (room - 1)
    else if u ≤ 2047 then
      if room < 2 then []
      else UInt8.ofNat (192 ||| u >>> 6) :: UInt8.ofNat (128 ||| u &&& 63) ::
        stringToUTF8Array str (room - 2)
    else if u ≤ 65535 then
      if room < 3 then []
      else UInt8.ofNat (224 ||| u >>> 12) :: UInt8.ofNat (128 ||| u >>> 6 &&& 63) ::
        UInt8.ofNat (128 ||| u &&& 63) :: stringToUTF8Array str (room - 3)
    else
      if room < 4 then []
      else UInt8.ofNat (240 ||| u >>> 18) :: UInt8.ofNat (128 ||| u >>> 12 &&& 63) ::
        UInt8.ofNat (128 ||| u >>> 6 &&& 63) :: UInt8.ofNat (128 ||| u &&& 63) ::
        stringToUTF8Array str.tail (room - 4)
termination_by str => str.length

/-- `stringToUTF8OnStack` -/
def stringToUTF8OnStack (str : List UInt16) : Bytes := stringToUTF8Array str (lengthBytesUTF8 str)

/-- What the engine reads: the bytes up to the NUL. -/
def cString (bytes : Bytes) : Bytes := bytes.takeWhile (· ≠ 0)

abbrev Heap := Nat → UInt8

def findStringEnd (heap : Heap) (idx maxIdx : Nat) : Nat :=
  if heap idx ≠ 0 ∧ idx < maxIdx then findStringEnd heap (idx + 1) maxIdx else idx
termination_by maxIdx - idx

/-- One unit, or a pair -/
def fromCodePoint (u : Nat) : List UInt16 :=
  if u < 65536 then [UInt16.ofNat u]
  else
    let ch := u - 65536
    [UInt16.ofNat (55296 ||| ch >>> 10), UInt16.ofNat (56320 ||| ch &&& 1023)]

/-- The loop of `UTF8ArrayToString`. A character that is cut off at `endPtr` takes in what
is behind it. -/
def decodeLoop (heap : Heap) (idx endPtr : Nat) : List UInt16 :=
  if idx < endPtr then
    let u0 := (heap idx).toNat
    if u0 &&& 128 = 0 then UInt16.ofNat u0 :: decodeLoop heap (idx + 1) endPtr
    else
      let u1 := (heap (idx + 1)).toNat &&& 63
      if u0 &&& 224 = 192 then
        UInt16.ofNat ((u0 &&& 31) <<< 6 ||| u1) :: decodeLoop heap (idx + 2) endPtr
      else
        let u2 := (heap (idx + 2)).toNat &&& 63
        if u0 &&& 240 = 224 then
          fromCodePoint ((u0 &&& 15) <<< 12 ||| u1 <<< 6 ||| u2) ++ decodeLoop heap (idx + 3) endPtr
        else
          let u3 := (heap (idx + 3)).toNat &&& 63
          fromCodePoint ((u0 &&& 7) <<< 18 ||| u1 <<< 12 ||| u2 <<< 6 ||| u3) ++
            decodeLoop heap (idx + 4) endPtr
  else []
termination_by endPtr - idx

def subarray (heap : Heap) (idx endPtr : Nat) : Bytes :=
  (List.range (endPtr - idx)).map fun i => heap (idx + i)

/-- `UTF8ArrayToString`. `textDecoder` says whether the platform has one. -/
def UTF8ArrayToString (textDecoder : Bool) (heap : Heap) (idx maxBytesToRead : Nat) :
    List UInt16 :=
  let endPtr := findStringEnd heap idx (idx + maxBytesToRead)
  if endPtr - idx > 16 ∧ textDecoder then utf16 (Js.bodyText (subarray heap idx endPtr))
  else decodeLoop heap idx endPtr

def UTF8ToString (textDecoder : Bool) (heap : Heap) (ptr maxBytesToRead : Nat) : List UInt16 :=
  if ptr ≠ 0 then UTF8ArrayToString textDecoder heap ptr maxBytesToRead else []

/-! ### Bits -/

theorem and_mask (x k : Nat) : x &&& (2 ^ k - 1) = x % 2 ^ k := Nat.and_two_pow_sub_one_eq_mod x k

theorem lead_two {x : Nat} (h : x < 32) : 192 ||| x = 192 + x := by
  have hall : ∀ x < 32, 192 ||| x = 192 + x := by decide
  exact hall x h

theorem lead_three {x : Nat} (h : x < 16) : 224 ||| x = 224 + x := by
  have hall : ∀ x < 16, 224 ||| x = 224 + x := by decide
  exact hall x h

theorem lead_four {x : Nat} (h : x < 8) : 240 ||| x = 240 + x := by
  have hall : ∀ x < 8, 240 ||| x = 240 + x := by decide
  exact hall x h

theorem tail_byte (x : Nat) : 128 ||| x &&& 63 = x % 64 + 128 := by
  have hall : ∀ y < 64, 128 ||| y = y + 128 := by decide
  have hmask : x &&& 63 = x % 64 := and_mask x 6
  rw [hmask]
  exact hall _ (Nat.mod_lt _ (by decide))

/-! ### Writing -/

/-- The units of a character, at the head of a text. -/
theorem units_cases (c : Char) :
    (c.toNat < 0x10000 ∧ Utf16.units (lit c) = [UInt16.ofNat c.toNat] ∧
      ¬ (0xD800 ≤ c.toNat ∧ c.toNat < 0xE000)) ∨
    ∃ u v : UInt16, 0x10000 ≤ c.toNat ∧ Utf16.units (lit c) = [u, v] ∧ Utf16.IsPair u v ∧
      0x10000 + (u.toNat - 0xD800) * 0x400 + (v.toNat - 0xDC00) = c.toNat := by
  have hval : (lit c : CodePoint).val = c.toNat := rfl
  by_cases hbmp : c.toNat < 0x10000
  · left
    exact ⟨hbmp, by rw [Utf16.units, hval, if_pos hbmp], not_isSurrogate_lit c⟩
  · right
    have hlt := toNat_lt_codePoints c
    have hhigh : (UInt16.ofNat (0xD800 + (c.toNat - 0x10000) / 0x400)).toNat =
        0xD800 + (c.toNat - 0x10000) / 0x400 := by
      rw [UInt16.toNat_ofNat', Nat.mod_eq_of_lt (by omega)]
    have hlow : (UInt16.ofNat (0xDC00 + (c.toNat - 0x10000) % 0x400)).toNat =
        0xDC00 + (c.toNat - 0x10000) % 0x400 := by
      rw [UInt16.toNat_ofNat', Nat.mod_eq_of_lt (by omega)]
    refine ⟨_, _, by omega, by rw [Utf16.units, hval, if_neg hbmp], ?_, ?_⟩
    · simp only [Utf16.IsPair, UInt16.le_iff_toNat_le, UInt16.lt_iff_toNat_lt, hhigh, hlow,
        UInt16.reduceToNat]
      omega
    · rw [hhigh, hlow]
      omega

theorem toNat_unit {n : Nat} (h : n < 0x10000) : (UInt16.ofNat n).toNat = n := by
  rw [UInt16.toNat_ofNat', Nat.mod_eq_of_lt h]

theorem lengthBytesUTF8_units (c : Char) (str : List UInt16) :
    lengthBytesUTF8 (Utf16.units (lit c) ++ str) =
      (String.utf8EncodeChar c).length + lengthBytesUTF8 str := by
  have hc : c.val.toNat = c.toNat := rfl
  rcases units_cases c with ⟨hbmp, hunits, hnot⟩ | ⟨u, v, hsup, hunits, hpair, -⟩
  · rw [hunits, List.singleton_append, lengthBytesUTF8]
    simp only [UInt16.le_iff_toNat_le, toNat_unit hbmp, UInt16.reduceToNat]
    fun_cases String.utf8EncodeChar c with
    | case1 x h1 => rw [if_pos (by omega)]; rfl
    | case2 x h1 h2 => rw [if_neg (by omega), if_pos (by omega)]; rfl
    | case3 x h1 h2 h3 =>
      rw [if_neg (by omega), if_neg (by omega), if_neg (by omega)]
      rfl
    | case4 x h1 h2 h3 => omega
  · have hlow := UInt16.le_iff_toNat_le.mp hpair.1.1
    have hhigh := UInt16.lt_iff_toNat_lt.mp hpair.1.2
    simp only [UInt16.reduceToNat] at hlow hhigh
    rw [hunits, List.cons_append, lengthBytesUTF8]
    simp only [UInt16.le_iff_toNat_le, UInt16.reduceToNat]
    rw [if_neg (by omega), if_neg (by omega), if_pos (by omega)]
    fun_cases String.utf8EncodeChar c with
    | case1 x h1 => omega
    | case2 x h1 h2 => omega
    | case3 x h1 h2 h3 => omega
    | case4 x h1 h2 h3 => rfl

/-- A character that fits is written as its UTF-8. -/
theorem stringToUTF8Array_units (c : Char) (str : List UInt16) (room : Nat) :
    stringToUTF8Array (Utf16.units (lit c) ++ str)
        ((String.utf8EncodeChar c).length + room) =
      String.utf8EncodeChar c ++ stringToUTF8Array str room := by
  have hc : c.val.toNat = c.toNat := rfl
  have hlead : ∀ x k, x >>> k = x / 2 ^ k := Nat.shiftRight_eq_div_pow
  rcases units_cases c with ⟨hbmp, hunits, hnot⟩ | ⟨u, v, hsup, hunits, hpair, hcode⟩
  · have hpoint : codePointAt (UInt16.ofNat c.toNat) str = c.toNat := by
      cases str with
      | nil => exact toNat_unit hbmp
      | cons v str =>
        rw [codePointAt, if_neg, toNat_unit hbmp]
        rintro ⟨⟨hlow, hhigh⟩, -⟩
        rw [UInt16.le_iff_toNat_le, toNat_unit hbmp] at hlow
        rw [UInt16.lt_iff_toNat_lt, toNat_unit hbmp] at hhigh
        simp only [UInt16.reduceToNat] at hlow hhigh
        omega
    rw [hunits, List.singleton_append, stringToUTF8Array, hpoint]
    fun_cases String.utf8EncodeChar c with
    | case1 x h1 =>
      rw [if_pos (by omega), if_neg (by simp)]
      simp [x, hc]
    | case2 x h1 h2 =>
      rw [if_neg (by omega), if_pos (by omega), if_neg (by simp only [List.length_cons]; omega),
        hlead, lead_two (by omega), tail_byte]
      have hmod : c.toNat / 64 % 32 = c.toNat / 64 := Nat.mod_eq_of_lt (by omega)
      simp [x, hc, Nat.add_comm, hmod]
    | case3 x h1 h2 h3 =>
      rw [if_neg (by omega), if_neg (by omega), if_pos (by omega), if_neg (by simp), hlead,
        lead_three (by omega), tail_byte, tail_byte, hlead]
      have hmod : c.toNat / 4096 % 16 = c.toNat / 4096 := Nat.mod_eq_of_lt (by omega)
      simp [x, hc, Nat.add_comm, hmod]
    | case4 x h1 h2 h3 => omega
  · have hpoint : codePointAt u ([v] ++ str) = c.toNat := by
      rw [List.singleton_append, codePointAt, if_pos hpair, hcode]
    have hlt := toNat_lt_codePoints c
    rw [hunits, List.cons_append, stringToUTF8Array, hpoint]
    fun_cases String.utf8EncodeChar c with
    | case1 x h1 => omega
    | case2 x h1 h2 => omega
    | case3 x h1 h2 h3 => omega
    | case4 x h1 h2 h3 =>
      rw [if_neg (by omega), if_neg (by omega), if_neg (by omega), if_neg (by simp), hlead,
        lead_four (by omega), tail_byte, tail_byte, tail_byte, hlead, hlead]
      have hmod : c.toNat / 262144 % 8 = c.toNat / 262144 := Nat.mod_eq_of_lt (by omega)
      simp [x, hc, Nat.add_comm, hmod]

theorem utf16_cons_units (c : Char) (t : Text) :
    utf16 (c :: t) = Utf16.units (lit c) ++ utf16 t := rfl

/-- The bytes on the stack are the text in UTF-8: nothing is cut off. -/
theorem stringToUTF8OnStack_utf16 (t : Text) : stringToUTF8OnStack (utf16 t) = Utf8.encode t := by
  rw [stringToUTF8OnStack]
  induction t with
  | nil => exact stringToUTF8Array.eq_1 _
  | cons c t ih =>
    rw [utf16_cons_units, lengthBytesUTF8_units, stringToUTF8Array_units, ih, Utf8.encode_cons]

theorem zero_not_mem_encode {t : Text} (hnul : '\x00' ∉ t) : (0 : UInt8) ∉ Utf8.encode t := by
  have hcount := Utf8.count_encode (c := '\x00') (by decide) t
  rw [List.count_eq_zero_of_not_mem hnul] at hcount
  exact List.count_eq_zero.mp hcount

/-- **The engine reads the command line.** -/
theorem cString_utf16 {t : Text} (hnul : '\x00' ∉ t) :
    cString (stringToUTF8OnStack (utf16 t)) = Utf8.encode t := by
  rw [stringToUTF8OnStack_utf16, cString, List.takeWhile_eq_self_iff]
  intro b hb
  exact decide_eq_true fun hzero => zero_not_mem_encode hnul (hzero ▸ hb)

/-! ### Reading -/

/-- The bytes lie in memory from `ptr` on. -/
def Holds (heap : Heap) : Nat → Bytes → Prop
  | _, [] => True
  | ptr, b :: bytes => heap ptr = b ∧ Holds heap (ptr + 1) bytes

theorem holds_append {heap : Heap} {bs cs : Bytes} {ptr : Nat} :
    Holds heap ptr (bs ++ cs) ↔ Holds heap ptr bs ∧ Holds heap (ptr + bs.length) cs := by
  induction bs generalizing ptr with
  | nil => simp [Holds]
  | cons b bs ih =>
    rw [List.cons_append, Holds, ih, Holds, List.length_cons, and_assoc, Nat.add_assoc,
      Nat.add_comm 1]

theorem findStringEnd_of_holds {heap : Heap} {bytes : Bytes} (hnul : 0 ∉ bytes) :
    ∀ {idx : Nat}, Holds heap idx bytes →
      findStringEnd heap idx (idx + bytes.length) = idx + bytes.length := by
  induction bytes with
  | nil =>
    intro idx _
    rw [findStringEnd, List.length_nil, Nat.add_zero, if_neg (fun h => Nat.lt_irrefl _ h.2)]
  | cons b bytes ih =>
    intro idx h
    obtain ⟨hb, hrest⟩ := h
    obtain ⟨hne, hrestnul⟩ : b ≠ 0 ∧ 0 ∉ bytes := by
      simpa [eq_comm] using hnul
    have htail := ih hrestnul hrest
    rw [findStringEnd, if_pos ⟨hb ▸ hne, by rw [List.length_cons]; omega⟩, List.length_cons,
      ← Nat.add_assoc, Nat.add_right_comm, htail]

theorem subarray_of_holds {heap : Heap} {bytes : Bytes} :
    ∀ {idx : Nat}, Holds heap idx bytes → subarray heap idx (idx + bytes.length) = bytes := by
  induction bytes with
  | nil =>
    intro idx _
    simp [subarray]
  | cons b bytes ih =>
    intro idx h
    have htail := ih h.2
    rw [subarray, Nat.add_sub_cancel_left] at htail ⊢
    rw [List.length_cons, List.range_succ_eq_map, List.map_cons, List.map_map, Nat.add_zero, h.1]
    congr 1
    refine (List.map_congr_left fun i _ => ?_).trans htail
    rw [Function.comp_apply, Nat.succ_eq_add_one, Nat.add_right_comm, Nat.add_assoc]

theorem or_shift {b k : Nat} (a : Nat) (h : b < 2 ^ k) : a <<< k ||| b = a * 2 ^ k + b := by
  rw [← Nat.shiftLeft_add_eq_or_of_lt h, Nat.shiftLeft_eq]

theorem fromCodePoint_eq {n : Nat} (h : n < 0x110000) :
    fromCodePoint n = Utf16.units ⟨n, h⟩ := by
  rw [fromCodePoint, Utf16.units]
  split
  · rfl
  · have hhigh : 55296 ||| (n - 65536) >>> 10 = 0xD800 + (n - 0x10000) / 0x400 := by
      rw [Nat.shiftRight_eq_div_pow]
      exact or_shift 54 (k := 10) (by omega)
    have hlow : 56320 ||| n - 65536 &&& 1023 = 0xDC00 + (n - 0x10000) % 0x400 := by
      have hmask : n - 65536 &&& 1023 = (n - 65536) % 1024 := and_mask _ 10
      rw [hmask]
      exact or_shift 55 (k := 10) (Nat.mod_lt _ (by decide))
    dsimp only
    rw [hhigh, hlow]

theorem tail_bits {x : UInt8} {n : Nat} (h : x = UInt8.ofNat (n % 64 + 128)) :
    x.toNat &&& 63 = n % 64 := by
  have hmask : x.toNat &&& 63 = x.toNat % 64 := and_mask _ 6
  rw [hmask, h, UInt8.toNat_ofNat']
  omega

/-- The lead byte tells the length of a character. -/
theorem lead_bits_one {x : UInt8} {y : Nat} (h : x = UInt8.ofNat y) (hy : y < 128) :
    x.toNat = y ∧ x.toNat &&& 128 = 0 := by
  have hall : ∀ y < 128, y &&& 128 = 0 := by decide
  have hx : x.toNat = y := by rw [h, UInt8.toNat_ofNat', Nat.mod_eq_of_lt (by omega)]
  exact ⟨hx, hx ▸ hall y hy⟩

theorem lead_bits_two {x : UInt8} {y : Nat} (h : x = UInt8.ofNat (y + 192)) (hy : y < 32) :
    x.toNat &&& 128 ≠ 0 ∧ x.toNat &&& 224 = 192 ∧ x.toNat &&& 31 = y := by
  have hall : ∀ y < 32, (y + 192) &&& 128 ≠ 0 ∧ (y + 192) &&& 224 = 192 ∧
      (y + 192) &&& 31 = y := by decide
  have hx : x.toNat = y + 192 := by rw [h, UInt8.toNat_ofNat', Nat.mod_eq_of_lt (by omega)]
  exact hx ▸ hall y hy

theorem lead_bits_three {x : UInt8} {y : Nat} (h : x = UInt8.ofNat (y + 224)) (hy : y < 16) :
    x.toNat &&& 128 ≠ 0 ∧ x.toNat &&& 224 ≠ 192 ∧ x.toNat &&& 240 = 224 ∧
      x.toNat &&& 15 = y := by
  have hall : ∀ y < 16, (y + 224) &&& 128 ≠ 0 ∧ (y + 224) &&& 224 ≠ 192 ∧
      (y + 224) &&& 240 = 224 ∧ (y + 224) &&& 15 = y := by decide
  have hx : x.toNat = y + 224 := by rw [h, UInt8.toNat_ofNat', Nat.mod_eq_of_lt (by omega)]
  exact hx ▸ hall y hy

theorem lead_bits_four {x : UInt8} {y : Nat} (h : x = UInt8.ofNat (y + 240)) (hy : y < 8) :
    x.toNat &&& 128 ≠ 0 ∧ x.toNat &&& 224 ≠ 192 ∧ x.toNat &&& 240 ≠ 224 ∧
      x.toNat &&& 7 = y := by
  have hall : ∀ y < 8, (y + 240) &&& 128 ≠ 0 ∧ (y + 240) &&& 224 ≠ 192 ∧
      (y + 240) &&& 240 ≠ 224 ∧ (y + 240) &&& 7 = y := by decide
  have hx : x.toNat = y + 240 := by rw [h, UInt8.toNat_ofNat', Nat.mod_eq_of_lt (by omega)]
  exact hx ▸ hall y hy

theorem decodeLoop_char {heap : Heap} {idx endPtr : Nat} {c : Char}
    (h : Holds heap idx (String.utf8EncodeChar c))
    (hend : idx + (String.utf8EncodeChar c).length ≤ endPtr) :
    decodeLoop heap idx endPtr = Utf16.units (lit c) ++
      decodeLoop heap (idx + (String.utf8EncodeChar c).length) endPtr := by
  have hc : c.val.toNat = c.toNat := rfl
  have hlt := toNat_lt_codePoints c
  have hpos : 0 < (String.utf8EncodeChar c).length :=
    List.length_pos_of_ne_nil String.utf8EncodeChar_ne_nil
  have hunits : fromCodePoint c.toNat = Utf16.units (lit c) := fromCodePoint_eq hlt
  have hone (hbmp : c.toNat < 65536) : Utf16.units (lit c) = [UInt16.ofNat c.toNat] := by
    rw [← hunits, fromCodePoint, if_pos hbmp]
  rw [decodeLoop, if_pos (by omega)]
  dsimp only
  fun_cases String.utf8EncodeChar c with
  | case1 x h1 =>
    rw [String.utf8EncodeChar, if_pos h1] at h
    obtain ⟨hvalue, hbit⟩ := lead_bits_one h.1 (by omega)
    rw [if_pos hbit, hvalue, hone (by omega)]
    rfl
  | case2 x h1 h2 =>
    rw [String.utf8EncodeChar, if_neg h1, if_pos h2] at h
    obtain ⟨hbit, hlead, hvalue⟩ := lead_bits_two h.1 (Nat.mod_lt _ (by decide))
    have hsix : c.val.toNat % 64 < 2 ^ 6 := Nat.mod_lt _ (by decide)
    rw [if_neg hbit, if_pos hlead, hvalue, tail_bits h.2.1, or_shift _ hsix, hone (by omega)]
    have hjoin : x / 64 % 32 * 2 ^ 6 + x % 64 = c.toNat := by omega
    rw [hjoin]
    rfl
  | case3 x h1 h2 h3 =>
    rw [String.utf8EncodeChar, if_neg h1, if_neg h2, if_pos h3] at h
    obtain ⟨hbit, htwo, hlead, hvalue⟩ := lead_bits_three h.1 (Nat.mod_lt _ (by decide))
    have hsix : c.val.toNat % 64 < 2 ^ 6 := Nat.mod_lt _ (by decide)
    have htwelve : c.val.toNat / 64 % 64 * 2 ^ 6 + c.val.toNat % 64 < 2 ^ 12 := by omega
    rw [if_neg hbit, if_neg htwo, if_pos hlead, hvalue, tail_bits h.2.1, tail_bits h.2.2.1,
      Nat.or_assoc, or_shift _ hsix, or_shift _ htwelve]
    have hjoin : x / 4096 % 16 * 2 ^ 12 + (x / 64 % 64 * 2 ^ 6 + x % 64) = c.toNat := by omega
    rw [hjoin, hunits]
    rfl
  | case4 x h1 h2 h3 =>
    rw [String.utf8EncodeChar, if_neg h1, if_neg h2, if_neg h3] at h
    obtain ⟨hbit, htwo, hthree, hvalue⟩ := lead_bits_four h.1 (Nat.mod_lt _ (by decide))
    have hsix : c.val.toNat % 64 < 2 ^ 6 := Nat.mod_lt _ (by decide)
    have htwelve : c.val.toNat / 64 % 64 * 2 ^ 6 + c.val.toNat % 64 < 2 ^ 12 := by omega
    have heighteen : c.val.toNat / 4096 % 64 * 2 ^ 12 +
        (c.val.toNat / 64 % 64 * 2 ^ 6 + c.val.toNat % 64) < 2 ^ 18 := by omega
    rw [if_neg hbit, if_neg htwo, if_neg hthree, hvalue, tail_bits h.2.1, tail_bits h.2.2.1,
      tail_bits h.2.2.2.1, Nat.or_assoc, Nat.or_assoc, or_shift _ hsix, or_shift _ htwelve,
      or_shift _ heighteen]
    have hjoin : x / 262144 % 8 * 2 ^ 18 +
        (x / 4096 % 64 * 2 ^ 12 + (x / 64 % 64 * 2 ^ 6 + x % 64)) = c.toNat := by omega
    rw [hjoin, hunits]
    rfl

theorem decodeLoop_encode {heap : Heap} {t : Text} :
    ∀ {idx : Nat}, Holds heap idx (Utf8.encode t) →
      decodeLoop heap idx (idx + (Utf8.encode t).length) = utf16 t := by
  induction t with
  | nil =>
    intro idx _
    rw [decodeLoop, Utf8.encode_nil, List.length_nil, if_neg (by omega)]
    rfl
  | cons c t ih =>
    intro idx h
    rw [Utf8.encode_cons, holds_append] at h
    rw [Utf8.encode_cons, List.length_append, ← Nat.add_assoc,
      decodeLoop_char h.1 (Nat.le_add_right _ _), ih h.2, utf16_cons_units]

/-- A text that begins with a byte order mark. -/
theorem head_of_bom {t : Text} (h : (Utf8.encode t).take 3 = [0xEF, 0xBB, 0xBF]) :
    t.head? = some '\uFEFF' := by
  cases t with
  | nil => exact absurd h (by decide)
  | cons c t =>
    have hc : c.val.toNat = c.toNat := rfl
    have hbyte {n m : Nat} (heq : UInt8.ofNat n = UInt8.ofNat m) : n % 256 = m % 256 := by
      have hnat := congrArg UInt8.toNat heq
      rwa [UInt8.toNat_ofNat', UInt8.toNat_ofNat'] at hnat
    have hlead : (String.utf8EncodeChar c).head? = some (UInt8.ofNat 0xEF) := by
      have hhead := congrArg List.head? h
      rw [List.head?_take, if_neg (by decide), Utf8.encode_cons,
        List.head?_append_of_ne_nil _ String.utf8EncodeChar_ne_nil] at hhead
      exact hhead
    rw [List.head?_cons, Option.some.injEq, ← Char.toNat_inj]
    have hmark : ('\uFEFF' : Char).toNat = 0xFEFF := rfl
    rw [Utf8.encode_cons] at h
    revert h hlead
    fun_cases String.utf8EncodeChar c with
    | case1 x h1 =>
      intro _ hlead
      have hone := hbyte (Option.some.inj hlead)
      omega
    | case2 x h1 h2 =>
      intro _ hlead
      have hone := hbyte (Option.some.inj hlead)
      omega
    | case3 x h1 h2 h3 =>
      intro h _
      obtain ⟨hone, htwo, hthree⟩ : UInt8.ofNat (x / 4096 % 16 + 224) = UInt8.ofNat 0xEF ∧
          UInt8.ofNat (x / 64 % 64 + 128) = UInt8.ofNat 0xBB ∧
          UInt8.ofNat (x % 64 + 128) = UInt8.ofNat 0xBF := by
        simpa [x] using h
      have hone := hbyte hone
      have htwo := hbyte htwo
      have hthree := hbyte hthree
      omega
    | case4 x h1 h2 h3 =>
      intro _ hlead
      have hone := hbyte (Option.some.inj hlead)
      omega

/-- What is read back from memory, whatever is behind it: short texts go through the loop,
long ones through `TextDecoder`, which takes a byte order mark off. -/
theorem UTF8ToString_encode (textDecoder : Bool) {heap : Heap} {ptr : Nat} {t : Text}
    (hptr : ptr ≠ 0) (hheap : Holds heap ptr (Utf8.encode t)) (hnul : '\x00' ∉ t) :
    UTF8ToString textDecoder heap ptr (Utf8.encode t).length =
      if (16 < (Utf8.encode t).length ∧ textDecoder) ∧ t.head? = some '\uFEFF' then utf16 t.tail
      else utf16 t := by
  rw [UTF8ToString, if_pos hptr, UTF8ArrayToString,
    findStringEnd_of_holds (zero_not_mem_encode hnul) hheap, subarray_of_holds hheap,
    decodeLoop_encode hheap, Nat.add_sub_cancel_left]
  by_cases hlong : 16 < (Utf8.encode t).length ∧ textDecoder
  · rw [if_pos hlong]
    by_cases hbom : t.head? = some '\uFEFF'
    · obtain ⟨rest, rfl⟩ : ∃ rest, t = '\uFEFF' :: rest := ⟨_, List.eq_cons_of_mem_head? hbom⟩
      have hmark : Utf8.encode ('\uFEFF' :: rest) = [0xEF, 0xBB, 0xBF] ++ Utf8.encode rest := by
        rw [Utf8.encode_cons]
        congr 1
      have hbody : Js.bodyText (Utf8.encode ('\uFEFF' :: rest)) = rest := by
        have htake : ([0xEF, 0xBB, 0xBF] ++ Utf8.encode rest).take 3 = [0xEF, 0xBB, 0xBF] := rfl
        rw [Js.bodyText, hmark, if_pos htake]
        exact Utf8.decodeReplacing_encode rest
      rw [hbody, if_pos ⟨hlong, hbom⟩, List.tail_cons]
    · rw [Js.bodyText, if_neg fun h => hbom (head_of_bom h), Utf8.decodeReplacing_encode,
        if_neg fun h => hbom h.2]
  · rw [if_neg hlong, if_neg fun h => hlong h.1]

end CuttleDB.Wasm
