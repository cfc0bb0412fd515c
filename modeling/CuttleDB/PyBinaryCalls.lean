import CuttleDB.PyArrivals
import CuttleDB.PyCommands
import CuttleDB.PyDemultiplexing

/-!
# Binary calls

`matmul_f32_b` and `flash_attn_f32` write a command line and the raw arrays, read one
header line and then, off the same buffer and socket, as many bytes as the header
announces. They read the header with `_readline`, not with `_read_response`: an event in
front of it is taken for the header, is not queued, and the call raises with the header and
the payload still unread.
-/

namespace CuttleDB.Py

open Framing

/-! ### Requests -/

/-- A C-contiguous FP32 array. Its dimensions are 64-bit signed numbers to numpy. -/
structure Tensor where
  shape : List Nat
  dims : ∀ d ∈ shape, d < 2 ^ 63
  bytes : Bytes
  size : bytes.length = 4 * shape.prod

inductive BinaryError where
  | py (e : PyError)
  | server (message : Text)             -- header[5:], decoded and stripped
  | unexpectedHeader (header : Text)    -- "unexpected matmul_f32_b header: {header!r}"
  | malformedHeader (header : Text)     -- "malformed +OK_B header: {header!r}"
  | shapeMismatch (expected response : Int × Int)
  | closedMidPayload                    -- "connection closed mid-payload"
  | valueError
  | zeroDivisionError
deriving DecidableEq

/-- What a method writes, and the header that it waits for. -/
structure BinaryRequest where
  line : Text
  arrays : List Bytes
  tag : Text
  rows : Nat
  cols : Nat

/-- `matmul_f32_b`, up to its writes. -/
def matmulF32B (a b : Tensor) : Except BinaryError BinaryRequest :=
  match a.shape, b.shape with
  | [m, k], [k2, n] =>
    if k ≠ k2 then .error .valueError
    else
      let line := words ["MATMUL_B".toList, intText m, intText n, intText k]
      .ok ⟨line, [a.bytes, b.bytes], "+OK_B ".toList, m, n⟩
  | _, _ => .error .valueError

/-- `flash_attn_f32`, up to its writes. A scale is given by its text, `defaultScale` is the
text of `1.0 / sqrt(d)`. -/
def flashAttnF32 (defaultScale : Nat → NumberText) (q k v : Tensor) (scale : Option NumberText)
    (causal : Bool) : Except BinaryError BinaryRequest :=
  match q.shape, k.shape, v.shape with
  | [seqQ, d], [seqKv, d2], [seqKvV, d3] =>
    if d ≠ d2 ∨ d ≠ d3 then .error .valueError
    else if seqKv ≠ seqKvV then .error .valueError
    else if scale = none ∧ d = 0 then .error .zeroDivisionError
    else
      let sc := scale.getD (defaultScale d)
      let line := words ["FLASH_ATTN_B".toList, intText seqQ, intText seqKv, intText d, sc.1,
        if causal then ['1'] else ['0']]
      .ok ⟨line, [q.bytes, k.bytes, v.bytes], "+OK_FA ".toList, seqQ, d⟩
  | _, _, _ => .error .valueError

/-! ### Reading the answer -/

/-- Bytes as text, one character for each. -/
def latin1 (b : Bytes) : Text := b.map fun u => Char.ofNat u.toNat

/-- `bytes.decode("ascii", errors="replace")` -/
def decodeAscii (t : Text) : Text := t.map fun c => if c.toNat < 128 then c else '\uFFFD'

/-- `bytes.isspace` for one byte. -/
def isByteSpace (c : Char) : Bool := c == ' ' || (9 ≤ c.toNat && c.toNat ≤ 13)

/-- `bytes.split()` -/
def splitBytes (t : Text) : List Text := (t.splitOnP isByteSpace).filter (· ≠ [])

/-- `int` of bytes. White space that only `str` knows is not stripped. -/
def intBytes? (t : Text) : Option Int := if t.any isSpace then none else int? t

/-- `while len(buf) < need`, from `buf = read`. -/
def readPayload (need : Nat) (s : Sock) (read : Bytes) : Except BinaryError Bytes × Sock :=
  if _hneed : read.length < need then
    match _hrecv : s.recv (need - read.length) with
    | (.error e, s') => (.error (.py e), s')
    | (.ok [], s') => (.error .closedMidPayload, s')
    | (.ok (b :: bs), s') => readPayload need s' (read ++ b :: bs)
  else (.ok read, s)
termination_by s.weight
decreasing_by
  rcases s.recv_cases (n := need - read.length) (by omega) with
    ⟨_, _, _, heq, -, hlt⟩ | ⟨_, heq, -⟩ | ⟨_, heq, -⟩
  · rw [_hrecv] at heq
    obtain ⟨-, rfl⟩ := Prod.mk.inj heq
    exact hlt
  · rw [_hrecv] at heq
    cases heq
  · rw [_hrecv] at heq
    cases heq

/-- The payload behind the header: first what `_readline` left in the buffer, then more from
the socket. -/
def takePayload (need : Nat) (c : Conn) : Except BinaryError Bytes × Conn :=
  match c.sock with
  | none => (.error (.py (.cuttleDBError .notConnected)), c)
  | some s =>
    match readPayload need s (c.buf.take need) with
    | (r, s) => (r, { c with sock := some s, buf := c.buf.drop need })

/-- An array that a call returns. -/
structure FloatArray where
  rows : Nat
  cols : Nat
  bytes : Bytes
deriving DecidableEq

/-- What the header says of the shape. -/
def parseHeader (tag header : Text) : Except BinaryError (Int × Int) :=
  if "-ERR".toList <+: header then .error (.server (strip (decodeAscii (header.drop 5))))
  else if ¬ tag <+: header then .error (.unexpectedHeader header)
  else
    match splitBytes (header.drop tag.length) with
    | [r, n] =>
      match intBytes? r, intBytes? n with
      | some r, some n => .ok (r, n)
      | _, _ => .error .valueError
    | _ => .error (.malformedHeader header)

/-- Both methods behind their writes. -/
def binaryResponse (r : BinaryRequest) (c : Conn) : Except BinaryError FloatArray × Conn :=
  match readline c with
  | (.error e, c) => (.error (.py e), c)
  | (.ok header, c) =>
    match parseHeader r.tag (latin1 header) with
    | .error e => (.error e, c)
    | .ok shape =>
      if shape ≠ ((r.rows : Int), (r.cols : Int)) then
        (.error (.shapeMismatch (r.rows, r.cols) shape), c)
      else
        match takePayload (r.rows * r.cols * 4) c with
        | (.error e, c) => (.error e, c)
        | (.ok payload, c) => (.ok ⟨r.rows, r.cols, payload⟩, c)

/-- `_write` of one piece after the other. -/
def writeAll : List Bytes → Conn → Except PyError Unit × Conn
  | [], c => (.ok (), c)
  | data :: rest, c =>
    match write data c with
    | (.error e, c) => (.error e, c)
    | (.ok (), c) => writeAll rest c

def BinaryRequest.run (r : BinaryRequest) (c : Conn) : Except BinaryError FloatArray × Conn :=
  match writeAll (Utf8.encode (r.line ++ ['\n']) :: r.arrays) c with
  | (.error e, c) => (.error (.py e), c)
  | (.ok (), c) => binaryResponse r c

/-- A call of one of the two methods. -/
inductive BinaryCall where
  | matmul (a b : Tensor)
  | flashAttn (defaultScale : Nat → NumberText) (q k v : Tensor) (scale : Option NumberText)
      (causal : Bool)

def BinaryCall.request : BinaryCall → Except BinaryError BinaryRequest
  | .matmul a b => matmulF32B a b
  | .flashAttn defaultScale q k v scale causal => flashAttnF32 defaultScale q k v scale causal

def BinaryCall.run (call : BinaryCall) (c : Conn) : Except BinaryError FloatArray × Conn :=
  match call.request with
  | .error e => (.error e, c)
  | .ok r => r.run c

/-! ### The payload -/

/-- **The payload is read to its last byte, and no further.** -/
theorem readPayload_supplies {payload tail front : Bytes} {rest : List Arrival} {s : Sock}
    {read : Bytes} (hfront : s.Supplies front rest) (hle : read.length ≤ payload.length)
    (hbytes : read ++ front = payload ++ tail) :
    ∃ s', readPayload payload.length s read = (.ok payload, s') ∧ s'.Supplies tail rest := by
  -- on the bytes that are still to come: each read takes some
  induction hlength : front.length using Nat.strong_induction_on generalizing s front read with
  | _ k ih =>
    rw [readPayload]
    by_cases hlt : read.length < payload.length
    · rw [dif_pos hlt]
      have hne : front ≠ [] := by
        rintro rfl
        have hlengths := congrArg List.length hbytes
        simp only [List.append_nil, List.length_append] at hlengths
        omega
      obtain ⟨b, bs, front', s', hrecv, hmost, rfl, hfront'⟩ :=
        hfront.recv hne (n := payload.length - read.length) (by omega)
      have hbytes' : (read ++ b :: bs) ++ front' = payload ++ tail := by
        rw [← hbytes, List.append_assoc]
      have hless : front'.length < k := by
        rw [← hlength, List.length_append, List.length_cons]
        omega
      obtain ⟨s'', hread, htail⟩ := ih front'.length hless hfront'
        (by rw [List.length_append]; omega) hbytes' rfl
      refine ⟨s'', ?_, htail⟩
      split <;> rename_i heq <;> rw [hrecv] at heq <;> cases heq
      exact hread
    · rw [dif_neg hlt]
      obtain ⟨rfl, rfl⟩ := List.append_inj hbytes (by omega)
      exact ⟨s, rfl, hfront⟩

/-- **A payload that the end of the stream cuts off is not returned.** -/
theorem readPayload_closed {need : Nat} {front : Bytes} {rest : List Arrival} {s : Sock}
    {read : Bytes} (hfront : s.Supplies front (.eof :: rest))
    (hshort : (read ++ front).length < need) :
    ∃ s', readPayload need s read = (.error .closedMidPayload, s') := by
  induction hlength : front.length using Nat.strong_induction_on generalizing s front read with
  | _ k ih =>
    rw [List.length_append] at hshort
    rw [readPayload, dif_pos (by omega)]
    cases front with
    | nil =>
      have hrecv := hfront.recv_eof (need - read.length)
      refine ⟨s, ?_⟩
      split <;> rename_i heq <;> rw [hrecv] at heq <;> cases heq
      rfl
    | cons b₀ bs₀ =>
      obtain ⟨b, bs, front', s', hrecv, -, heq, hfront'⟩ :=
        hfront.recv (List.cons_ne_nil _ _) (n := need - read.length) (by omega)
      have hlengths : (b₀ :: bs₀).length = (b :: bs).length + front'.length := by
        rw [heq, List.length_append]
      have hpos : 0 < (b :: bs).length := List.length_pos_of_ne_nil (List.cons_ne_nil _ _)
      have hshort' : ((read ++ b :: bs) ++ front').length < need := by
        rw [List.length_append, List.length_append]
        omega
      obtain ⟨s'', hread⟩ := ih front'.length (by omega) hfront' hshort' rfl
      refine ⟨s'', ?_⟩
      split <;> rename_i heq <;> rw [hrecv] at heq <;> cases heq
      exact hread

theorem takePayload_supplies {c : Conn} {payload tail : Bytes} {rest : List Arrival}
    (h : c.Supplies (payload ++ tail) rest) :
    ∃ c', takePayload payload.length c = (.ok payload, c') ∧ c'.Supplies tail rest ∧
      c'.pendingEvents = c.pendingEvents := by
  obtain ⟨s, front, hsock, hbytes, hfront⟩ := h
  rw [takePayload, hsock]
  dsimp only
  rcases Nat.le_total c.buf.length payload.length with hle | hle
  · -- all of the buffer, and then from the socket
    rw [List.take_of_length_le hle, List.drop_of_length_le hle]
    obtain ⟨s', hread, htail⟩ := readPayload_supplies hfront hle hbytes
    rw [hread]
    exact ⟨_, rfl, ⟨s', tail, rfl, rfl, htail⟩, rfl⟩
  · -- the buffer holds the payload
    have htake : c.buf.take payload.length = payload := by
      rw [← List.take_append_of_le_length hle, hbytes, List.take_left]
    have hdrop : c.buf.drop payload.length ++ front = tail := by
      rw [← List.drop_append_of_le_length hle, hbytes, List.drop_left]
    rw [htake, readPayload, dif_neg (by omega)]
    exact ⟨_, rfl, ⟨s, front, rfl, hdrop, hfront⟩, rfl⟩

theorem takePayload_closed {need : Nat} {c : Conn} {got : Bytes} {rest : List Arrival}
    (h : c.Supplies got (.eof :: rest)) (hshort : got.length < need) :
    ∃ c', takePayload need c = (.error .closedMidPayload, c') := by
  obtain ⟨s, front, hsock, rfl, hfront⟩ := h
  have hall : c.buf.take need = c.buf :=
    List.take_of_length_le (by rw [List.length_append] at hshort; omega)
  obtain ⟨s', hread⟩ := readPayload_closed hfront hshort
  rw [takePayload, hsock]
  dsimp only
  rw [hall, hread]
  exact ⟨_, rfl⟩

/-! ### The header -/

theorem readline_flowing {c : Conn} {line tail : Bytes} (hflow : c.Flowing) (hlf : LF ∉ line)
    (h : c.stream = line ++ LF :: tail) :
    ∃ c', readline c = (.ok (chomp CR line), c') ∧ c'.Flowing ∧ c'.stream = tail ∧
      c'.pendingEvents = c.pendingEvents := by
  obtain ⟨c', hread, hsupplies, hpending⟩ := readline_supplies hlf (h ▸ hflow.supplies)
  have htail := hsupplies.stream
  rw [List.flatMap_nil, List.append_nil] at htail
  exact ⟨c', hread, hsupplies.flowing, htail, hpending⟩

theorem latin1_encode {t : Text} (ht : ∀ c ∈ t, c.toNat < 128) : latin1 (Utf8.encode t) = t := by
  induction t with
  | nil => rfl
  | cons c t ih =>
    have hc : c.toNat < 128 := ht c (by simp)
    have hback : Char.ofNat (UInt8.ofNat c.toNat).toNat = c := by
      rw [UInt8.toNat_ofNat', Nat.mod_eq_of_lt (by omega), Char.ofNat_toNat]
    rw [Utf8.encode_cons, Utf8.utf8EncodeChar_ascii hc, latin1, List.map_append, List.map_singleton,
      hback]
    exact congrArg (c :: ·) (ih fun d hd => ht d (by simp [hd]))

/-- The header that a server sends for a request. -/
def BinaryRequest.header (r : BinaryRequest) : Text :=
  r.tag ++ (intText r.rows ++ ' ' :: intText r.cols)

/-- The tags of the two methods. -/
def IsTag (tag : Text) : Prop := tag = "+OK_B ".toList ∨ tag = "+OK_FA ".toList

/-- A dimension of an array -/
theorem Tensor.fits {a : Tensor} {d : Nat} (h : d ∈ a.shape) : Fits d := by
  have hbound : (d : Int).natAbs < 10 ^ 19 := by
    have hdim := a.dims d h
    omega
  exact fits_of_lt (by decide) (by decide) hbound

/-- What the client can read the header of. -/
structure BinaryRequest.Readable (r : BinaryRequest) : Prop where
  tag : IsTag r.tag
  rows : Fits r.rows
  cols : Fits r.cols

/-- The shape that a call waits for has dimensions of its arrays. -/
theorem BinaryCall.readable {call : BinaryCall} {r : BinaryRequest} (h : call.request = .ok r) :
    r.Readable := by
  cases call with
  | matmul a b =>
    rw [BinaryCall.request, matmulF32B] at h
    split at h
    · rename_i m k k2 n ha hb
      split at h
      · cases h
      · cases h
        exact ⟨Or.inl rfl, Tensor.fits (a := a) (by simp [ha]), Tensor.fits (a := b) (by simp [hb])⟩
    · cases h
  | flashAttn defaultScale q k v scale causal =>
    rw [BinaryCall.request, flashAttnF32] at h
    split at h
    · rename_i seqQ d seqKv d2 seqKvV d3 hq hk hv
      split at h
      · cases h
      · split at h
        · cases h
        · split at h
          · cases h
          · cases h
            exact ⟨Or.inr rfl, Tensor.fits (a := q) (by simp [hq]),
              Tensor.fits (a := q) (by simp [hq])⟩
    · cases h

theorem BinaryRequest.header_ascii {r : BinaryRequest} (htag : IsTag r.tag) :
    ∀ c ∈ r.header, c.toNat < 128 ∧ c ≠ '\n' ∧ c ≠ '\r' := by
  have hint : ∀ i : Int, ∀ c ∈ intText i, c.toNat < 128 ∧ c ≠ '\n' ∧ c ≠ '\r' := by
    intro i c hc
    refine ⟨toNat_lt_of_mem_intText hc, ?_, ?_⟩
    · rintro rfl
      exact not_mem_intText (by decide) (by decide) i hc
    · rintro rfl
      exact not_mem_intText (by decide) (by decide) i hc
  have hall : r.tag.all (fun c => c.toNat < 128 ∧ c ≠ '\n' ∧ c ≠ '\r') = true := by
    rcases htag with heq | heq <;> rw [heq] <;> decide
  intro c hc
  rcases List.mem_append.mp hc with hc | hc
  · exact of_decide_eq_true (List.all_eq_true.mp hall c hc)
  · rcases List.mem_append.mp hc with hc | hc
    · exact hint _ c hc
    · rcases List.mem_cons.mp hc with rfl | hc
      · decide
      · exact hint _ c hc

theorem isByteSpace_of_mem_intText {i : Int} {c : Char} (hc : c ∈ intText i) :
    isByteSpace c = false := by
  have hspace := isSpace_of_mem_intText hc
  simp only [isSpace, isByteSpace, Bool.or_eq_false_iff, Bool.and_eq_false_iff,
    decide_eq_false_iff_not, beq_eq_false_iff_ne, ne_eq] at hspace ⊢
  refine ⟨?_, by omega⟩
  rintro rfl
  exact absurd hspace.1 (by decide)

theorem intBytes?_intText {i : Int} (hi : Fits i) : intBytes? (intText i) = some i := by
  have hspace : (intText i).any isSpace = false := by
    simpa using fun c hc => isSpace_of_mem_intText hc
  rw [intBytes?, hspace, int?_intText hi]
  rfl

/-- **The header of a request is read as its shape.** -/
theorem parseHeader_header {r : BinaryRequest} (h : r.Readable) :
    parseHeader r.tag r.header = .ok ((r.rows : Int), (r.cols : Int)) := by
  have hsplit : splitBytes (intText r.rows ++ ' ' :: intText r.cols) =
      [intText r.rows, intText r.cols] := by
    have hword : ∀ i : Int, ∀ c ∈ intText i, isByteSpace c = false := fun i c hc =>
      isByteSpace_of_mem_intText hc
    rw [splitBytes, List.splitOnP_append_cons_of_forall_mem (hword _) ' ' (by decide),
      List.splitOnP_eq_singleton (hword _)]
    simp [(intText_isWord _).1]
  have herr : ¬ "-ERR".toList <+: r.header := by
    unfold BinaryRequest.header
    rcases h.tag with heq | heq <;> rw [heq] <;> simp [List.cons_prefix_cons]
  have hprefixed : r.tag <+: r.header := List.prefix_append _ _
  have hdrop : r.header.drop r.tag.length = intText r.rows ++ ' ' :: intText r.cols := by
    rw [BinaryRequest.header, List.drop_left]
  rw [parseHeader, if_neg herr, if_neg (not_not.mpr hprefixed), hdrop, hsplit]
  simp only [intBytes?_intText h.rows, intBytes?_intText h.cols]

/-- An event is no header. -/
theorem parseHeader_event {tag : Text} (htag : IsTag tag) (e : WireEvent) :
    ∃ error, parseHeader tag (latin1 (Utf8.encode e.1.text)) = .error error := by
  have hhead : ∃ t, latin1 (Utf8.encode e.1.text) = '>' :: t := by
    refine ⟨latin1 (Utf8.encode (e.1.text.drop 1)), ?_⟩
    have htext : e.1.text = '>' :: e.1.text.drop 1 := by simp [Event.text, evtTag]
    conv_lhs => rw [htext, Utf8.encode_cons, latin1, List.map_append]
    rfl
  obtain ⟨t, ht⟩ := hhead
  refine ⟨.unexpectedHeader (latin1 (Utf8.encode e.1.text)), ?_⟩
  have herr : ¬ "-ERR".toList <+: '>' :: t := by simp [List.cons_prefix_cons]
  have hother : ¬ tag <+: '>' :: t := by
    rcases htag with rfl | rfl <;> simp [List.cons_prefix_cons]
  rw [parseHeader, ht, if_neg herr, if_pos hother]

/-! ### One call -/

theorem writeAll_open (pieces : List Bytes) :
    ∀ {c : Conn}, c.sock ≠ none → ∃ c', writeAll pieces c = (.ok (), c') ∧ c'.sock ≠ none ∧
      c'.stream = c.stream ∧ c'.faults = c.faults ∧ c'.pendingEvents = c.pendingEvents := by
  induction pieces with
  | nil => exact fun hopen => ⟨_, rfl, hopen, rfl, rfl, rfl⟩
  | cons data pieces ih =>
    intro c hopen
    obtain ⟨c₁, hwrite, hopen₁, -, hstream₁, hfaults₁, hpending₁, -⟩ := write_open hopen data
    obtain ⟨c', hrest, hopen', hstream', hfaults', hpending'⟩ := ih hopen₁
    refine ⟨c', ?_, hopen', hstream'.trans hstream₁, hfaults'.trans hfaults₁,
      hpending'.trans hpending₁⟩
    rw [writeAll, hwrite]
    exact hrest

/-- What the server sends for a request: the events `es`, the header, with a carriage return
or without one, and the payload; `tail` is what follows. It arrives in any chunks. -/
structure Answered (r : BinaryRequest) (es : List WireEvent) (cr : Bool) (payload tail : Bytes)
    (c : Conn) : Prop where
  flowing : c.Flowing
  size : payload.length = r.rows * r.cols * 4
  stream : c.stream = render (es.map .evt) ++
    (Utf8.encode r.header ++ (if cr then [CR, LF] else [LF]) ++ payload ++ tail)

/-- The header line, without its line feed, announces the shape that the request expects. -/
def Announces (r : BinaryRequest) (line : Bytes) : Prop :=
  LF ∉ line ∧ parseHeader r.tag (latin1 (chomp CR line)) = .ok ((r.rows : Int), (r.cols : Int))

theorem announces_header {r : BinaryRequest} (h : r.Readable) (cr : Bool) :
    Announces r (Utf8.encode r.header ++ if cr then [CR] else []) := by
  have hchars := BinaryRequest.header_ascii h.tag
  have hlf : LF ∉ Utf8.encode r.header := lf_not_mem_encode fun hmem => (hchars _ hmem).2.1 rfl
  have hcr : CR ∉ Utf8.encode r.header := cr_not_mem_encode fun hmem => (hchars _ hmem).2.2 rfl
  have hparse : parseHeader r.tag (latin1 (Utf8.encode r.header)) =
      .ok ((r.rows : Int), (r.cols : Int)) := by
    rw [latin1_encode fun c hc => (hchars c hc).1, parseHeader_header h]
  cases cr with
  | true =>
    refine ⟨by simpa [hlf] using (by decide : LF ≠ CR), ?_⟩
    rw [if_pos rfl, chomp_concat, hparse]
  | false =>
    refine ⟨by simpa using hlf, ?_⟩
    rw [if_neg Bool.false_ne_true, List.append_nil, chomp,
      if_neg fun hlast => hcr (List.mem_of_getLast? hlast), hparse]

/-- **The answer to a binary request, in any chunks.** -/
theorem binaryResponse_supplies {r : BinaryRequest} {line payload tail : Bytes}
    {rest : List Arrival} {c : Conn} (hline : Announces r line)
    (hsize : payload.length = r.rows * r.cols * 4)
    (h : c.Supplies (line ++ LF :: (payload ++ tail)) rest) :
    ∃ c', binaryResponse r c = (.ok ⟨r.rows, r.cols, payload⟩, c') ∧ c'.Supplies tail rest ∧
      c'.pendingEvents = c.pendingEvents := by
  obtain ⟨c₁, hread, hsupplies, hpending⟩ := readline_supplies hline.1 h
  obtain ⟨c', htake, hsupplies', hpending'⟩ := takePayload_supplies hsupplies
  refine ⟨c', ?_, hsupplies', hpending'.trans hpending⟩
  rw [hsize] at htake
  rw [binaryResponse, hread]
  simp only [hline.2, htake, ne_eq, not_true_eq_false, if_false]

/-- The peer closes before the answer is complete. -/
theorem binaryResponse_closed {r : BinaryRequest} {line payload got missing : Bytes}
    {rest : List Arrival} {c : Conn} (hline : Announces r line)
    (hsize : payload.length = r.rows * r.cols * 4)
    (hcut : line ++ LF :: payload = got ++ missing) (hmissing : missing ≠ [])
    (h : c.Supplies got (.eof :: rest)) :
    ∃ error c', binaryResponse r c = (.error error, c') ∧
      (error = .py (.cuttleDBError .connectionClosed) ∨ error = .closedMidPayload) := by
  by_cases hlf : LF ∈ got
  · -- the header is complete
    obtain ⟨line', part, rfl, hlf'⟩ := List.eq_append_cons_of_mem hlf
    obtain ⟨rfl, hpayload⟩ := line_of_prefix hlf' hline.1 rfl hcut.symm
    have hpos := List.length_pos_of_ne_nil hmissing
    have hshort : part.length < r.rows * r.cols * 4 := by
      rw [← hsize, ← hpayload, List.length_append]
      omega
    obtain ⟨c₁, hread, hsupplies, -⟩ := readline_supplies hlf' h
    obtain ⟨c', htake⟩ := takePayload_closed hsupplies hshort
    refine ⟨_, c', ?_, Or.inr rfl⟩
    rw [binaryResponse, hread]
    simp only [hline.2, htake, ne_eq, not_true_eq_false, if_false]
  · obtain ⟨c', hread⟩ := readline_closed hlf h
    refine ⟨_, c', ?_, Or.inl rfl⟩
    rw [binaryResponse, hread]

theorem binaryResponse_header {r : BinaryRequest} {cr : Bool} {payload tail : Bytes} {c : Conn}
    (hread : r.Readable) (h : Answered r [] cr payload tail c) :
    ∃ c', binaryResponse r c = (.ok ⟨r.rows, r.cols, payload⟩, c') ∧ c'.stream = tail ∧
      c'.pendingEvents = c.pendingEvents := by
  have hstream : c.stream =
      (Utf8.encode r.header ++ if cr then [CR] else []) ++ LF :: (payload ++ tail) := by
    rw [h.stream]
    cases cr <;> simp
  obtain ⟨c', hok, hsupplies, hpending⟩ :=
    binaryResponse_supplies (announces_header hread cr) h.size (hstream ▸ h.flowing.supplies)
  refine ⟨c', hok, ?_, hpending⟩
  rw [hsupplies.stream, List.flatMap_nil, List.append_nil]

/-- **The first event is taken for the header.** The call raises, the event is lost, and
everything behind it is left unread. -/
theorem binaryResponse_event {r : BinaryRequest} {e : WireEvent} {es : List WireEvent} {cr : Bool}
    {payload tail : Bytes} {c : Conn} (htag : IsTag r.tag)
    (h : Answered r (e :: es) cr payload tail c) :
    ∃ error c', binaryResponse r c = (.error error, c') ∧
      c'.pendingEvents = c.pendingEvents ∧ (ServerLine.evt e).bytes ++ c'.stream = c.stream := by
  have hstream := h.stream
  rw [List.map_cons, render_cons, ServerLine.bytes_eq, List.append_assoc, List.append_assoc,
    List.singleton_append] at hstream
  obtain ⟨c', hread, -, hrest, hpending⟩ := readline_flowing h.flowing
    (ServerLine.evt e).lf_not_mem_raw hstream
  obtain ⟨error, herror⟩ := parseHeader_event htag e
  refine ⟨error, c', ?_, hpending, ?_⟩
  · rw [binaryResponse, hread, ServerLine.chomp_raw]
    have htext : (ServerLine.evt e).text = e.1.text := rfl
    simp only [htext, herror]
  · rw [hrest, hstream, ServerLine.bytes_eq, List.append_assoc, List.singleton_append]

/-- The call in `c` does what it does where there are no events, queues the events and stops
right behind the payload. -/
structure Undisturbed (call : BinaryCall) (r : BinaryRequest) (es : List WireEvent)
    (payload tail : Bytes) (c : Conn) : Prop where
  result : ∀ cr c₀, Answered r [] cr payload tail c₀ → (call.run c).1 = (call.run c₀).1
  pending : (call.run c).2.pendingEvents = c.pendingEvents ++ es.map Subtype.val
  stream : (call.run c).2.stream = tail

theorem BinaryCall.run_eq {call : BinaryCall} {r : BinaryRequest} {es : List WireEvent} {cr : Bool}
    {payload tail : Bytes} {c : Conn} (hrequest : call.request = .ok r)
    (h : Answered r es cr payload tail c) :
    ∃ c₁, call.run c = binaryResponse r c₁ ∧ Answered r es cr payload tail c₁ ∧
      c₁.pendingEvents = c.pendingEvents := by
  obtain ⟨c₁, hwrite, hopen, hstream, hfaults, hpending⟩ :=
    writeAll_open (Utf8.encode (r.line ++ ['\n']) :: r.arrays) h.flowing.open_
  refine ⟨c₁, ?_, ⟨⟨hopen, hfaults.trans h.flowing.faults⟩, h.size, hstream.trans h.stream⟩,
    hpending⟩
  rw [BinaryCall.run, hrequest]
  dsimp only
  rw [BinaryRequest.run, hwrite]

/-- **A binary call is undisturbed if and only if no event is ahead of its header.** -/
theorem binaryCall_undisturbed_iff (call : BinaryCall) (r : BinaryRequest) (es : List WireEvent)
    (cr : Bool) (payload tail : Bytes) (c : Conn) (hrequest : call.request = .ok r)
    (h : Answered r es cr payload tail c) :
    Undisturbed call r es payload tail c ↔ es = [] := by
  have hread := BinaryCall.readable hrequest
  obtain ⟨c₁, hrun, hanswered, hpending⟩ := BinaryCall.run_eq hrequest h
  cases es with
  | nil =>
    refine iff_of_true ?_ rfl
    obtain ⟨c', hok, hstream, hpending'⟩ := binaryResponse_header hread hanswered
    refine ⟨fun cr₀ c₀ h₀ => ?_, ?_, ?_⟩
    · obtain ⟨d, hrun₀, hanswered₀, -⟩ := BinaryCall.run_eq hrequest h₀
      obtain ⟨d', hok₀, -⟩ := binaryResponse_header hread hanswered₀
      rw [hrun, hok, hrun₀, hok₀]
    · rw [hrun, hok, hpending', hpending, List.map_nil, List.append_nil]
    · rw [hrun, hok, hstream]
  | cons e es =>
    refine iff_of_false (fun hundisturbed => ?_) (List.cons_ne_nil _ _)
    obtain ⟨error, c', hraise, hpending', -⟩ := binaryResponse_event hread.tag hanswered
    have hqueued := hundisturbed.pending
    rw [hrun, hraise, hpending', hpending] at hqueued
    simp at hqueued

theorem writeAll_supplies (pieces : List Bytes) :
    ∀ {c : Conn} {bytes : Bytes} {rest : List Arrival}, c.Supplies bytes rest →
      ∃ c', writeAll pieces c = (.ok (), c') ∧ c'.Supplies bytes rest := by
  induction pieces with
  | nil => exact fun h => ⟨_, rfl, h⟩
  | cons data pieces ih =>
    intro c bytes rest h
    obtain ⟨c₁, hwrite, h₁, -⟩ := write_supplies h data
    obtain ⟨c', hrest, h'⟩ := ih h₁
    refine ⟨c', ?_, h'⟩
    rw [writeAll, hwrite]
    exact hrest

theorem BinaryCall.run_supplies {call : BinaryCall} {r : BinaryRequest} {bytes : Bytes}
    {rest : List Arrival} {c : Conn} (hrequest : call.request = .ok r) (h : c.Supplies bytes rest) :
    ∃ c₁, call.run c = binaryResponse r c₁ ∧ c₁.Supplies bytes rest := by
  obtain ⟨c₁, hwrite, h₁⟩ := writeAll_supplies (Utf8.encode (r.line ++ ['\n']) :: r.arrays) h
  refine ⟨c₁, ?_, h₁⟩
  rw [BinaryCall.run, hrequest]
  dsimp only
  rw [BinaryRequest.run, hwrite]

/-- **The payload is framed by its length.** A call returns exactly the bytes behind the
header and leaves what follows them; when the peer closes before the last of them it
raises. -/
theorem binaryCall_framing (call : BinaryCall) (r : BinaryRequest) (line payload : Bytes)
    (c : Conn) (hrequest : call.request = .ok r) (hline : Announces r line)
    (hsize : payload.length = r.rows * r.cols * 4) :
    (∀ tail rest, c.Supplies (line ++ LF :: (payload ++ tail)) rest →
      ∃ c', call.run c = (.ok ⟨r.rows, r.cols, payload⟩, c') ∧
        c'.stream = tail ++ rest.flatMap Arrival.bytes) ∧
    (∀ got missing rest, line ++ LF :: payload = got ++ missing → missing ≠ [] →
      c.Supplies got (.eof :: rest) →
      ∃ error c', call.run c = (.error error, c') ∧
        (error = .py (.cuttleDBError .connectionClosed) ∨ error = .closedMidPayload)) := by
  constructor
  · intro tail rest h
    obtain ⟨c₁, hrun, h₁⟩ := BinaryCall.run_supplies hrequest h
    obtain ⟨c', hok, hsupplies, -⟩ := binaryResponse_supplies hline hsize h₁
    exact ⟨c', hrun.trans hok, hsupplies.stream⟩
  · intro got missing rest hcut hmissing h
    obtain ⟨c₁, hrun, h₁⟩ := BinaryCall.run_supplies hrequest h
    obtain ⟨error, c', hraise, herror⟩ := binaryResponse_closed hline hsize hcut hmissing h₁
    exact ⟨error, c', hrun.trans hraise, herror⟩

/-- The 1 by 1 array of 1.0. -/
def scalarOne : Tensor := ⟨[1, 1], by simp, [0, 0, 128, 63], rfl⟩

/-- Its product with itself, as a request. -/
def scalarProduct : BinaryRequest :=
  ⟨"MATMUL_B 1 1 1".toList, [[0, 0, 128, 63], [0, 0, 128, 63]], "+OK_B ".toList, 1, 1⟩

/-- An open connection on which `bytes` arrive in two chunks. -/
def Conn.receivingBytes (first second : Bytes) (h : first ≠ []) (h' : second ≠ []) : Conn :=
  ⟨30, none, some ⟨[.data ⟨first, h⟩, .data ⟨second, h'⟩], 30, []⟩, [], []⟩

/-- A header with its payload and the start of the next reply in two chunks, and a payload
that the peer leaves unfinished. -/
theorem binaryCall_framing_scalar :
    (∃ c', BinaryCall.run (.matmul scalarOne scalarOne)
        (.receivingBytes (Utf8.encode "+OK_B 1 1\n".toList ++ [0, 10]) [128, 63, 13] (by decide)
          (by decide)) = (.ok ⟨1, 1, [0, 10, 128, 63]⟩, c') ∧ c'.stream = [13]) ∧
      ∃ error c', BinaryCall.run (.matmul scalarOne scalarOne)
        ⟨30, none, some ⟨[.eof], 30, []⟩, Utf8.encode "+OK_B 1 1\n".toList ++ [0, 10], []⟩ =
          (.error error, c') := by
  have hline : Announces scalarProduct (Utf8.encode "+OK_B 1 1".toList) :=
    announces_header (r := scalarProduct) ⟨Or.inl rfl, rfl, rfl⟩ false
  have hflow : (Conn.receivingBytes (Utf8.encode "+OK_B 1 1\n".toList ++ [0, 10]) [128, 63, 13]
      (by decide) (by decide)).Flowing := ⟨by decide, by decide +kernel⟩
  have hstream : (Conn.receivingBytes (Utf8.encode "+OK_B 1 1\n".toList ++ [0, 10]) [128, 63, 13]
      (by decide) (by decide)).stream =
        Utf8.encode "+OK_B 1 1".toList ++ LF :: ([0, 10, 128, 63] ++ [13]) := by decide +kernel
  constructor
  · exact (binaryCall_framing (.matmul scalarOne scalarOne) scalarProduct _ [0, 10, 128, 63] _ rfl
      hline rfl).1 [13] [] (hstream ▸ hflow.supplies)
  · obtain ⟨error, c', hraise, -⟩ := (binaryCall_framing (.matmul scalarOne scalarOne) scalarProduct
      _ [0, 10, 128, 63] ⟨30, none, some ⟨[.eof], 30, []⟩,
        Utf8.encode "+OK_B 1 1\n".toList ++ [0, 10], []⟩ rfl hline rfl).2
      (Utf8.encode "+OK_B 1 1\n".toList ++ [0, 10]) [128, 63] [] (by decide +kernel) (by decide)
      ⟨_, [], rfl, by decide +kernel, [], rfl, rfl⟩
    exact ⟨error, c', hraise⟩

/-- A payload with a line feed, in two chunks, is read whole. -/
theorem binaryCall_undisturbed_scalar :
    Undisturbed (.matmul scalarOne scalarOne) scalarProduct [] [0, 10, 128, 63] [13]
      (.receivingBytes (Utf8.encode "+OK_B 1 1\n".toList ++ [0, 10]) [128, 63, 13] (by decide)
        (by decide)) :=
  (binaryCall_undisturbed_iff (.matmul scalarOne scalarOne) scalarProduct [] false
    [0, 10, 128, 63] [13] _ rfl ⟨⟨by decide, by decide +kernel⟩, rfl, by decide +kernel⟩).mpr rfl

/-- With an event in front of the header the event is dropped. -/
theorem event_disturbs_binaryCall :
    ¬ Undisturbed (.matmul scalarOne scalarOne) scalarProduct
      [⟨⟨0, 0, 3, "INS".toList⟩, by decide⟩] [0, 0, 128, 63] []
      (.receivingBytes (Utf8.encode ">EVT 0 0 3 INS\r\n+OK_B 1 1\n".toList) [0, 0, 128, 63]
        (by decide) (by decide)) := by
  intro h
  exact absurd h.pending (by decide +kernel)

end CuttleDB.Py
