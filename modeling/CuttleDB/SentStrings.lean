import CuttleDB.EncryptedColumns

/-!
# The text that is sent for a string

A string of either client may hold surrogates that are no pair. The Python client does
not send such a string, the JavaScript client sends U+FFFD for each of them. What a
client sends for a row is the row of what it sends for the cells: the replacement neither
makes nor breaks a separator, an escape or a pair of surrogates.
-/

namespace CuttleDB

/-! ### Code points -/

/-- The character that is sent for a code point: U+FFFD for a surrogate. -/
def sentChar (c : CodePoint) : Char := (scalar? c).getD '\uFFFD'

theorem sentChar_lit (c : Char) : sentChar (lit c) = c := by simp [sentChar, scalar?_lit]

/-- The Unicode string that is sent for a string of code points. -/
def sentText (s : List CodePoint) : Text := s.map sentChar

theorem sentText_codePoints (t : Text) : sentText (codePoints t) = t := by
  have hback : sentChar ∘ (lit : Char → CodePoint) = id := funext sentChar_lit
  rw [sentText, codePoints, List.map_map, hback, List.map_id]

theorem sentChar_of_surrogate {c : CodePoint} (hc : Utf16.IsSurrogate c) :
    sentChar c = '\uFFFD' := by
  rw [sentChar, scalar?, if_pos hc]
  rfl

/-- A code point that is no surrogate is a character. -/
theorem lit_sentChar {c : CodePoint} (hc : ¬ Utf16.IsSurrogate c) : lit (sentChar c) = c := by
  have hlt := c.isLt
  have hvalid : c.val.isValidChar := by
    simp only [Utf16.IsSurrogate, not_and, Nat.not_lt] at hc
    rcases Nat.lt_or_ge c.val 0xD800 with hlow | hhigh
    · exact Or.inl hlow
    · exact Or.inr ⟨hc hhigh, hlt⟩
  rw [sentChar, scalar?, if_neg hc, Option.getD_some, Char.ofNat, dif_pos hvalid]
  rfl

theorem eq_lit_or_surrogate (c : CodePoint) :
    (∃ a : Char, c = lit a) ∨ Utf16.IsSurrogate c := by
  by_cases hc : Utf16.IsSurrogate c
  · exact Or.inr hc
  · exact Or.inl ⟨sentChar c, (lit_sentChar hc).symm⟩

/-- A replaced code point has as many units as before. -/
theorem length_units_sentChar (c : CodePoint) :
    (Utf16.units (lit (sentChar c))).length = (Utf16.units c).length := by
  rcases eq_lit_or_surrogate c with ⟨a, rfl⟩ | hc
  · rw [sentChar_lit]
  · rw [sentChar_of_surrogate hc, Utf16.units_of_lt (Nat.lt_trans hc.2 (by decide)),
      Utf16.units_of_lt (by decide)]
    rfl

theorem escapeUnit_of_le {table : List (Char × Char)} (htable : IsAscii table) {c : CodePoint}
    (hc : 128 ≤ c.val) : escapeUnit table c = [c] := by
  have hnone : table.find? (fun p => c = lit p.1) = none := by
    rw [List.find?_eq_none]
    intro p hp heq
    have hval : c.val = p.1.toNat := congrArg Fin.val (of_decide_eq_true heq)
    have hlt := (htable p hp).1
    omega
  rw [escapeUnit, hnone]

/-- What an escape table makes of a code point is sent as what it makes of the
character. -/
theorem map_sentChar_escapeUnit {table : List (Char × Char)} (htable : IsAscii table)
    (c : CodePoint) :
    (escapeUnit table c).map sentChar = escapeUnit table (sentChar c) := by
  rcases eq_lit_or_surrogate c with ⟨a, rfl⟩ | hc
  · rw [escapeUnit_codePoint, sentChar_lit]
    exact sentText_codePoints (escapeUnit table a)
  · have hplain : escapeUnit table c = [c] :=
      escapeUnit_of_le htable (Nat.le_trans (by decide) hc.1)
    have hreplaced : escapeUnit table '\uFFFD' = ['\uFFFD'] := by
      have hnone : table.find? (fun p => '\uFFFD' = lit p.1) = none := by
        rw [List.find?_eq_none]
        intro p hp heq
        have hlt := (htable p hp).1
        rw [← show '\uFFFD' = p.1 from of_decide_eq_true heq] at hlt
        exact absurd hlt (by decide)
      rw [escapeUnit, hnone]
    rw [sentChar_of_surrogate hc, hplain, hreplaced, List.map_singleton,
      sentChar_of_surrogate hc]

theorem sentText_escape {table : List (Char × Char)} (htable : IsAscii table)
    (s : List CodePoint) :
    sentText (s.flatMap (escapeUnit table)) = (sentText s).flatMap (escapeUnit table) := by
  rw [sentText, sentText, List.map_flatMap, List.flatMap_map]
  simp only [map_sentChar_escapeUnit htable]

theorem sentText_join (ps : List (List CodePoint)) :
    sentText ([lit ','].intercalate ps) = [lit ','].intercalate (ps.map sentText) := by
  have hsingle : sentText = List.flatMap fun c => [sentChar c] :=
    funext fun _ => List.map_eq_flatMap
  have hcomma : [lit ','].flatMap (fun c : CodePoint => [sentChar c]) = [lit ','] := by
    rw [List.flatMap_singleton, sentChar_lit]
    rfl
  rw [hsingle, Escape.flatMap_intercalate, hcomma]

/-! ### Escaping behind lone surrogates -/

theorem escapeUnit_cases {α : Type} [DecidableEq α] [Alphabet α] (table : List (Char × Char))
    (c : α) :
    escapeUnit table c = [c] ∨
      ∃ p ∈ table, c = lit p.1 ∧ escapeUnit table c = [lit '\\', lit p.2] := by
  unfold escapeUnit
  cases hfind : table.find? (fun p => c = lit p.1) with
  | none => exact Or.inl rfl
  | some p =>
    have hc : c = lit p.1 := by simpa using List.find?_some hfind
    exact Or.inr ⟨p, List.mem_of_find?_eq_some hfind, hc, rfl⟩

/-- No half of a pair is an ASCII unit. -/
theorem lit_not_surrogate {a : Char} (ha : a.toNat < 128) :
    ¬ (0xD800 ≤ (lit a : UInt16) ∧ (lit a : UInt16) < 0xE000) := by
  have hval : (lit a : UInt16).toNat = a.toNat := by
    rw [show (lit a : UInt16) = UInt16.ofNat a.toNat from rfl, UInt16.toNat_ofNat',
      Nat.mod_eq_of_lt (by omega)]
  rw [UInt16.le_iff_toNat_le, hval]
  intro h
  have hlow : (0xD800 : UInt16).toNat = 0xD800 := by decide
  omega

theorem not_isPair_lit_left {a : Char} (ha : a.toNat < 128) (v : UInt16) :
    ¬ Utf16.IsPair (lit a) v :=
  fun h => lit_not_surrogate ha ⟨h.1.1, UInt16.lt_trans h.1.2 (by decide)⟩

theorem not_isPair_lit_right {a : Char} (ha : a.toNat < 128) (u : UInt16) :
    ¬ Utf16.IsPair u (lit a) :=
  fun h => lit_not_surrogate ha ⟨UInt16.le_trans (by decide) h.2.1, h.2.2⟩

/-- What escapes leave of two units is a pair only if they are one. -/
theorem isPair_of_escaped {table : List (Char × Char)} (htable : IsAscii table) {u v x y : UInt16}
    (hx : x ∈ (escapeUnit table u).getLast?) (hy : y ∈ (escapeUnit table v).head?)
    (hpair : Utf16.IsPair x y) : Utf16.IsPair u v := by
  rcases escapeUnit_cases table u with hu | ⟨p, hp, -, hu⟩
  · rcases escapeUnit_cases table v with hv | ⟨q, -, -, hv⟩
    · rw [hu] at hx
      rw [hv] at hy
      cases hx
      cases hy
      exact hpair
    · rw [hv] at hy
      cases hy
      exact absurd hpair (not_isPair_lit_right (by decide) x)
  · rw [hu] at hx
    cases hx
    exact absurd hpair (not_isPair_lit_left (htable p hp).2 y)

theorem decode_escapeUnit {table : List (Char × Char)} (htable : IsAscii table) (u : UInt16) :
    Utf16.decode (escapeUnit table u) = (Utf16.decode [u]).flatMap (escapeUnit table) := by
  have hu : u.toNat < 0x10000 := u.toNat_lt
  obtain ⟨c, hc⟩ : ∃ c : CodePoint, Utf16.decode [u] = [c] := ⟨_, rfl⟩
  have hencode : Utf16.encode [c] = [u] := by
    rw [← hc, Utf16.decode, Utf16.encode_cons, Utf16.units_of_lt hu, UInt16.ofNat_toNat]
    rfl
  have hcode := encode_escape htable [c]
  rw [hencode, List.flatMap_singleton, List.flatMap_singleton] at hcode
  rw [← hcode, hc, List.flatMap_singleton]
  rcases escapeUnit_cases table c with hplain | ⟨p, -, -, hlisted⟩
  · rw [hplain, hencode, hc]
  · rw [hlisted]
    apply Utf16.decode_encode
    intro d hd
    simp only [List.mem_cons, List.not_mem_nil, or_false] at hd
    rcases hd with rfl | rfl
    · exact not_isSurrogate_lit _
    · exact not_isSurrogate_lit _

/-- **Escaping ASCII units neither makes nor breaks a pair.** -/
theorem decode_escape {table : List (Char × Char)} (htable : IsAscii table) (s : List UInt16) :
    Utf16.decode (s.flatMap (escapeUnit table)) =
      (Utf16.decode s).flatMap (escapeUnit table) := by
  induction s using Utf16.decode.induct with
  | case1 => rfl
  | case2 u =>
    rw [List.flatMap_singleton]
    exact decode_escapeUnit htable u
  | case3 u v rest hpair ih =>
    have hplain : ∀ w : UInt16, 0xD800 ≤ w ∧ w < 0xE000 → escapeUnit table w = [w] := by
      intro w hw
      rcases escapeUnit_cases table w with h | ⟨p, hp, rfl, -⟩
      · exact h
      · exact absurd hw (lit_not_surrogate (htable p hp).1)
    have hu := hplain u ⟨hpair.1.1, UInt16.lt_trans hpair.1.2 (by decide)⟩
    have hv := hplain v ⟨UInt16.le_trans (by decide) hpair.2.1, hpair.2.2⟩
    rw [List.flatMap_cons, List.flatMap_cons, hu, hv, List.singleton_append, List.singleton_append,
      Utf16.decode, dif_pos hpair, ih, Utf16.decode, dif_pos hpair, List.flatMap_cons,
      escapeUnit_of_le htable (by simp only; omega)]
    rfl
  | case4 u v rest hpair ih =>
    have hcut : ∀ x ∈ (escapeUnit table u).getLast?,
        ∀ y ∈ ((v :: rest).flatMap (escapeUnit table)).head?, ¬ Utf16.IsPair x y := by
      intro x hx y hy hxy
      have hhead : y ∈ (escapeUnit table v).head? := by
        rw [List.flatMap_cons] at hy
        rcases escapeUnit_cases table v with hv | ⟨p, -, -, hv⟩
        all_goals
          rw [hv] at hy ⊢
          exact hy
      exact hpair (isPair_of_escaped htable hx hhead hxy)
    rw [List.flatMap_cons, Utf16.decode_append hcut, decode_escapeUnit htable, ih,
      ← List.flatMap_append]
    congr 1
    conv_rhs => rw [Utf16.decode, dif_neg hpair]
    rfl

theorem decode_join (ps : List (List UInt16)) :
    Utf16.decode ([lit ','].intercalate ps) = [lit ','].intercalate (ps.map Utf16.decode) := by
  induction ps with
  | nil => rfl
  | cons s ps ih =>
    cases ps with
    | nil => simp
    | cons t ps =>
      have hbefore : ∀ u ∈ s.getLast?, ∀ v ∈ ([lit ','] ++ [lit ','].intercalate (t :: ps)).head?,
          ¬ Utf16.IsPair u v := by
        intro u _ v hv
        cases hv
        exact not_isPair_lit_right (by decide) u
      have hbehind : ∀ u ∈ ([lit ','] : List UInt16).getLast?,
          ∀ v ∈ ([lit ','].intercalate (t :: ps)).head?, ¬ Utf16.IsPair u v := by
        intro u hu v _
        cases hu
        exact not_isPair_lit_left (by decide) v
      rw [List.intercalate_cons_cons, List.append_assoc, Utf16.decode_append hbefore,
        Utf16.decode_append hbehind, ih, List.map_cons, List.map_cons, List.map_cons,
        List.intercalate_cons_cons, List.append_assoc]
      rfl

/-! ### Strings of either client -/

namespace Client

/-- The Unicode string that a client sends for a string of its own, if it sends it. -/
def toText : (client : Client) → List client.Unit → Text
  | python, s => sentText s
  | javascript, s => sentText (Utf16.decode s)

/-- A string as the JavaScript client has it. Strings of different clients are the same
if they agree here. -/
def toUtf16 : (client : Client) → List client.Unit → List UInt16
  | python, s => Utf16.encode s
  | javascript, s => s

/-- The string is a Unicode string: it has no lone surrogate. -/
def IsWellFormed (client : Client) (s : List client.Unit) : Prop := ∃ t : Text, s = client.ofText t

theorem toText_ofText (client : Client) (t : Text) : client.toText (client.ofText t) = t := by
  cases client with
  | python => exact sentText_codePoints t
  | javascript => exact (congrArg sentText (decode_utf16 t)).trans (sentText_codePoints t)

theorem toUtf16_ofText (client : Client) (t : Text) : client.toUtf16 (client.ofText t) = utf16 t := by
  cases client <;> rfl

theorem length_encode_sentText (s : List CodePoint) :
    (utf16 (sentText s)).length = (Utf16.encode s).length := by
  induction s with
  | nil => rfl
  | cons c s ih =>
    have hcons : utf16 (sentText (c :: s)) =
        Utf16.units (lit (sentChar c)) ++ utf16 (sentText s) := rfl
    rw [hcons, Utf16.encode_cons, List.length_append, List.length_append, ih,
      length_units_sentChar]

/-- What is sent has as many units of UTF-16 as the string. -/
theorem length_toText (client : Client) (s : List client.Unit) :
    (utf16 (client.toText s)).length = (client.toUtf16 s).length := by
  cases client with
  | python => exact length_encode_sentText s
  | javascript =>
    have hlength := length_encode_sentText (Utf16.decode s)
    rw [Utf16.encode_decode] at hlength
    exact hlength

/-- A string that is sent as it is has no lone surrogate. -/
theorem eq_codePoints_of_sent {s : List CodePoint} (h : utf16 (sentText s) = Utf16.encode s) :
    s = codePoints (sentText s) := by
  induction s with
  | nil => rfl
  | cons c s ih =>
    have hcons : Utf16.units (lit (sentChar c)) ++ utf16 (sentText s) =
        Utf16.units c ++ Utf16.encode s := h
    obtain ⟨hunits, hrest⟩ := List.append_inj hcons (length_units_sentChar c)
    have hc : ¬ Utf16.IsSurrogate c := by
      intro hsurrogate
      have hval : c.val < 0x10000 := Nat.lt_trans hsurrogate.2 (by decide)
      rw [sentChar_of_surrogate hsurrogate, Utf16.units_of_lt hval,
        Utf16.units_of_lt (by decide)] at hunits
      have hnat := congrArg UInt16.toNat (List.singleton_inj.mp hunits)
      rw [UInt16.toNat_ofNat', UInt16.toNat_ofNat', Nat.mod_eq_of_lt hval] at hnat
      have hlt := hsurrogate.2
      rw [← hnat] at hlt
      exact absurd hlt (by decide)
    have hhead : c = lit (sentChar c) := (lit_sentChar hc).symm
    exact List.cons_eq_cons.mpr ⟨hhead, ih hrest⟩

/-- Just the well-formed strings are sent as they are. -/
theorem toUtf16_eq_iff (client : Client) (s : List client.Unit) :
    utf16 (client.toText s) = client.toUtf16 s ↔ client.IsWellFormed s := by
  constructor
  · intro h
    cases client with
    | python => exact ⟨_, eq_codePoints_of_sent h⟩
    | javascript =>
      have hunits : s = Utf16.encode (Utf16.decode s) := (Utf16.encode_decode s).symm
      have hsent := eq_codePoints_of_sent (h.trans hunits)
      exact ⟨_, hunits.trans (congrArg Utf16.encode hsent)⟩
  · rintro ⟨t, rfl⟩
    rw [toText_ofText, toUtf16_ofText]

/-! ### Sending -/

theorem codePoints_of_mapM {s : List CodePoint} {t : Text} (h : s.mapM scalar? = some t) :
    s = codePoints t := by
  induction s generalizing t with
  | nil =>
    obtain rfl : [] = t := by simpa using h
    rfl
  | cons c s ih =>
    obtain ⟨a, ha, t', ht', rfl⟩ : ∃ a, scalar? c = some a ∧ ∃ t', s.mapM scalar? = some t' ∧
        a :: t' = t := by simpa [List.mapM_cons, Option.bind_eq_some_iff] using h
    have hc : ¬ Utf16.IsSurrogate c := by
      intro hsurrogate
      rw [scalar?, if_pos hsurrogate] at ha
      cases ha
    have hsent : sentChar c = a := by rw [sentChar, ha]; rfl
    rw [codePoints, List.map_cons, ← hsent, lit_sentChar hc]
    exact congrArg (c :: ·) (ih ht')

/-- What a client sends for a string is the UTF-8 of its text. -/
theorem eq_encode_of_send {client : Client} {s : List client.Unit} {wire : Bytes}
    (h : client.send s = .ok wire) : wire = Utf8.encode (client.toText s) := by
  cases client with
  | python =>
    have hsend : Py.encodeUtf8 s = .ok wire := h
    unfold Py.encodeUtf8 at hsend
    cases hmap : s.mapM scalar? with
    | none =>
      rw [hmap] at hsend
      cases hsend
    | some t =>
      rw [hmap] at hsend
      cases hsend
      rw [codePoints_of_mapM hmap]
      exact congrArg Utf8.encode (sentText_codePoints t).symm
  | javascript => exact (Except.ok.inj h).symm

theorem toText_escape {table : List (Char × Char)} (htable : IsAscii table) (client : Client)
    (s : List client.Unit) :
    client.toText (s.flatMap (escapeUnit table)) =
      (client.toText s).flatMap (escapeUnit table) := by
  cases client with
  | python => exact sentText_escape htable s
  | javascript =>
    exact (congrArg sentText (decode_escape htable s)).trans (sentText_escape htable _)

theorem toText_joinValues (client : Client) (cells : List (List client.Unit)) :
    client.toText (client.joinValues cells) = Py.joinValues (cells.map client.toText) := by
  have hjoin : client.joinValues cells = [lit ','].intercalate
      (cells.map fun s => s.flatMap (escapeUnit valueEscapes)) := by
    simp only [← encodeValue_str]
    cases client <;> rfl
  have htext : ∀ ps : List (List client.Unit),
      client.toText ([lit ','].intercalate ps) = [lit ','].intercalate (ps.map client.toText) := by
    intro ps
    cases client with
    | python => exact sentText_join ps
    | javascript =>
      have hunits := sentText_join (ps.map Utf16.decode)
      rw [List.map_map, ← decode_join] at hunits
      exact hunits
  rw [hjoin, htext, Py.joinValues, List.map_map, List.map_map]
  congr 1
  apply List.map_congr_left
  intro s _
  exact (toText_escape (by decide) client s).trans (encodeValue_str _).symm

end Client

end CuttleDB
