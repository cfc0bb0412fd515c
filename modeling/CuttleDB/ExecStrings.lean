import CuttleDB.RowCodec

/-!
# Strings as arguments of EXEC

A string kernel takes its arguments in one line, `EXEC name a;b`, and the server cuts
them apart at the first `;` that is not escaped. `_encode_exec_str` writes an argument,
`_decode_exec_str` reads an argument or the result, which the server writes with its own
table: that one escapes the comma as well.
-/

namespace CuttleDB

open Escape

variable {α : Type} [DecidableEq α] [Alphabet α]

namespace Py

/-- `_encode_exec_str` -/
def encodeExecStr (s : List α) : List α :=
  let out := replace (lit '\\') [lit '\\', lit '\\'] s
  let out := replace (lit ';') [lit '\\', lit ';'] out
  let out := replace (lit '\r') [lit '\\', lit 'r'] out
  let out := replace (lit '\n') [lit '\\', lit 'n'] out
  out

/-- `_decode_exec_str`. A backslash with nothing behind it stands for itself. -/
def decodeExecStr : List α → List α
  | [] => []
  | [c] => [c]
  | c :: x :: rest =>
    if c = lit '\\' then unescape x :: decodeExecStr rest
    else c :: decodeExecStr (x :: rest)

end Py

/-- The server's cut of the arguments, at the first `;` that no backslash escapes. -/
def splitExecArgs (s : List α) : Option (List α × List α) :=
  cutUnescaped (lit '\\') (lit ';') s

/-! ### One escape for each unit -/

/-- The four characters that `_encode_exec_str` escapes. -/
def execEscapes : List (Char × Char) := [('\\', '\\'), (';', ';'), ('\r', 'r'), ('\n', 'n')]

theorem execEscapes_inPasses : InPasses execEscapes := by
  unfold InPasses execEscapes
  exact ⟨by decide, by decide⟩

theorem execEscapes_invertible : Invertible α execEscapes := by
  intro p hp
  apply wireEscapes_invertible p
  simp only [execEscapes, wireEscapes, List.mem_cons, List.not_mem_nil, or_false] at hp ⊢
  tauto

theorem encodeExecStr_eq (s : List α) :
    Py.encodeExecStr s = s.flatMap (escapeUnit execEscapes) :=
  replaceEach_eq execEscapes_inPasses s

theorem encodeExecStr_toks (s : List α) :
    Py.encodeExecStr s = (s.map (escapeTok execEscapes)).flatMap (Tok.raw (lit '\\')) := by
  rw [encodeExecStr_eq, flatMap_escapeTok_raw]

theorem lit_not_mem_encodeExecStr {a : Char} (ha : a ∈ execEscapes.map Prod.fst)
    (hcodes : ∀ b ∈ '\\' :: execEscapes.map Prod.snd, a ≠ b ∧ a.toNat < 128 ∧ b.toNat < 128)
    (s : List α) : lit a ∉ Py.encodeExecStr s := by
  rw [encodeExecStr_eq, List.mem_flatMap]
  rintro ⟨c, -, hc⟩
  exact lit_not_mem_escapeUnit ha hcodes c hc

/-! ### The cut -/

omit [DecidableEq α] in
theorem semicolon_ne_backslash : (lit ';' : α) ≠ lit '\\' := lit_ne (by decide)

theorem execSemicolon_mem : (';', ';') ∈ execEscapes := by decide

theorem execBackslash_mem : ('\\', '\\') ∈ execEscapes := by decide

theorem splitExecArgs_encodeExecStr_append (a t : List α) :
    splitExecArgs (Py.encodeExecStr a ++ t) =
      (splitExecArgs t).map fun (p, q) => (Py.encodeExecStr a ++ p, q) := by
  rw [encodeExecStr_toks]
  exact cutUnescaped_flatMap_raw (plain_not_mem_escapeTok execSemicolon_mem a)
    (plain_not_mem_escapeTok execBackslash_mem a) t

theorem not_unescapedAt_encodeExecStr (a : List α) (i : Nat) :
    ¬ UnescapedAt (lit '\\') (lit ';') (Py.encodeExecStr a) i := by
  have hcut := splitExecArgs_encodeExecStr_append a []
  have hspec := cutUnescaped_spec semicolon_ne_backslash (Py.encodeExecStr a)
  rw [List.append_nil] at hcut
  rw [splitExecArgs, splitExecArgs, cutUnescaped, Option.map_none] at hcut
  rw [hcut] at hspec
  exact hspec i

theorem splitExecArgs_cons (t : List α) : splitExecArgs (lit ';' :: t) = some ([], t) := by
  cases t with
  | nil => simp [splitExecArgs, cutUnescaped]
  | cons x rest => simp [splitExecArgs, cutUnescaped, semicolon_ne_backslash]

theorem splitExecArgs_encodeExecStr (a b : List α) :
    splitExecArgs (Py.encodeExecStr a ++ lit ';' :: Py.encodeExecStr b) =
      some (Py.encodeExecStr a, Py.encodeExecStr b) := by
  simp [splitExecArgs_encodeExecStr_append, splitExecArgs_cons]

/-! ### Decoding -/

theorem decodeExecStr_eq (s : List α) :
    Py.decodeExecStr s =
      (tokenize (lit '\\') s).flatMap (Tok.kept fun x => [unescape x]) := by
  induction s using tokenize.induct (lit '\\' : α) with
  | case1 => rfl
  | case2 c => rfl
  | case3 x rest ih => simp [Py.decodeExecStr, tokenize, ih]
  | case4 c x rest hc ih => simp [Py.decodeExecStr, tokenize, hc, ih]

/-- A table that covers the backslash and keeps its codes apart is decoded. -/
theorem decodeExecStr_escaped {table : List (Char × Char)} (htable : Invertible α table)
    (hbackslash : ('\\', '\\') ∈ table) (s : List α) :
    Py.decodeExecStr (s.flatMap (escapeUnit table)) = s := by
  have hfree : Tok.plain (lit '\\') ∉ s.map (escapeTok table) :=
    plain_not_mem_escapeTok hbackslash s
  rw [decodeExecStr_eq, ← flatMap_escapeTok_raw, tokenize_flatMap_raw hfree,
    flatMap_escapeTok_kept htable]

/-- **The codec of EXEC strings.** An encoded argument is part of one line and holds no
bare `;`; two of them are cut apart exactly where they were joined; and the decoder
inverts the client's encoder as well as the server's. -/
theorem execStr_codec (a b : List α) :
    (∀ s ∈ [a, b], lit '\r' ∉ Py.encodeExecStr s ∧ lit '\n' ∉ Py.encodeExecStr s ∧
      ∀ i, ¬ UnescapedAt (lit '\\') (lit ';') (Py.encodeExecStr s) i) ∧
    splitExecArgs (Py.encodeExecStr a ++ lit ';' :: Py.encodeExecStr b) =
      some (Py.encodeExecStr a, Py.encodeExecStr b) ∧
    Py.decodeExecStr (Py.encodeExecStr a) = a ∧ Py.decodeExecStr (wireStrEncode a) = a := by
  have hcr : ∀ c ∈ '\\' :: execEscapes.map Prod.snd,
      '\r' ≠ c ∧ '\r'.toNat < 128 ∧ c.toNat < 128 := by simp [execEscapes]
  have hlf : ∀ c ∈ '\\' :: execEscapes.map Prod.snd,
      '\n' ≠ c ∧ '\n'.toNat < 128 ∧ c.toNat < 128 := by simp [execEscapes]
  refine ⟨fun s _ => ⟨?_, ?_, not_unescapedAt_encodeExecStr s⟩,
    splitExecArgs_encodeExecStr a b, ?_, ?_⟩
  · exact lit_not_mem_encodeExecStr (by decide) hcr s
  · exact lit_not_mem_encodeExecStr (by decide) hlf s
  · rw [encodeExecStr_eq]
    exact decodeExecStr_escaped execEscapes_invertible execBackslash_mem a
  · exact decodeExecStr_escaped wireEscapes_invertible backslash_mem a

end CuttleDB
