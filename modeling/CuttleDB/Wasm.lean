import CuttleDB.JsLockStep
import CuttleDB.WasmText

/-!
# The in-process engine

`WasmTransport` runs each command in the engine that is loaded into the page or the
process: the reply comes from the buffer of one `_exec`, at once, so there are no waiters.
Where the engine answers as a server that runs it would, a call gets in-process what its
promise is resolved with on TCP or a WebSocket.
-/

namespace CuttleDB.Wasm

open Framing Pipeline
open Js (Call Settlement TcpMove TcpNet WsMove WsNet NoEmptyBatch)

variable {σ : Type}

/-! ### The transport -/

/-- `cuttledb_exec_line`: what it makes of a command line, in at most `cap` bytes. -/
structure Engine (σ : Type) where
  execLine : σ → Bytes → (cap : Nat) → { out : Bytes // out.length ≤ cap } × σ

def OUT_CAP : Nat := 1 <<< 16

/-- What `_malloc` gives, and what else is in memory when the engine is done. -/
structure Room where
  heap : Heap
  outPtr : Nat
  ne_zero : outPtr ≠ 0

def Heap.write (heap : Heap) (ptr : Nat) (bytes : Bytes) : Heap := fun i =>
  if ptr ≤ i then (bytes[i - ptr]?).getD (heap i) else heap i

/-- `.replace(/\r?\n$/, "")` -/
def trimLineEnd (s : List UInt16) : List UInt16 :=
  if s.getLast? = some (lit '\n') then chomp (lit '\r') s.dropLast else s

/-- The state of the engine, and how many times `_exec` has run. -/
structure InProcess (σ : Type) where
  engine : σ
  execs : Nat

section Transport

variable (engine : Engine σ) (textDecoder : Bool) (rooms : Nat → Room)

/-- `_exec` -/
def exec (line : List UInt16) (w : InProcess σ) : List UInt16 × InProcess σ :=
  let room := rooms w.execs
  let (out, state) := engine.execLine w.engine (cString (stringToUTF8OnStack line)) OUT_CAP
  let n := out.1.length
  let w := ⟨state, w.execs + 1⟩
  if n = 0 then ([], w)
  else
    (trimLineEnd (UTF8ToString textDecoder (room.heap.write room.outPtr out.1) room.outPtr n), w)

/-- `cmds.map((c) => this._exec(c))` -/
def execAll : List (List UInt16) → InProcess σ → List (List UInt16) × InProcess σ
  | [], w => ([], w)
  | cmd :: cmds, w =>
    let (line, w) := exec engine textDecoder rooms cmd w
    let (lines, w) := execAll cmds w
    (line :: lines, w)

/-- `send` and `sendBatch`, with what their promises are resolved with -/
def call (c : Call UInt16) (w : InProcess σ) : Settlement UInt16 × InProcess σ :=
  match c with
  | .send cmd =>
    let (line, w) := exec engine textDecoder rooms cmd.1 w
    (.line line, w)
  | .sendBatch cmds =>
    let (lines, w) := execAll engine textDecoder rooms (cmds.map Subtype.val) w
    (.lines lines, w)

def run : List (Call UInt16) → InProcess σ → List (Settlement UInt16) × InProcess σ
  | [], w => ([], w)
  | c :: calls, w =>
    let (settlement, w) := call engine textDecoder rooms c w
    let (settlements, w) := run calls w
    (settlement :: settlements, w)

end Transport

/-! ### Replies -/

/-- A reply of one line, without the line's end. -/
structure IsReply (t : Text) : Prop where
  ne_nil : t ≠ []
  lf_not_mem : '\n' ∉ t
  cr_not_last : t.getLast? ≠ some '\r'
  nul_not_mem : '\x00' ∉ t
  no_bom : t.head? ≠ some '\uFEFF'

def lineEnds : List Text := [[], ['\n'], ['\r', '\n']]

/-- The engine answers the commands `cmds` with `ts`, one after the other. -/
def Answers (engine : Engine σ) : σ → List Text → List Text → Prop
  | _, [], [] => True
  | s, cmd :: cmds, t :: ts =>
    IsReply t ∧
      (∃ eol ∈ lineEnds, (engine.execLine s (Utf8.encode cmd) OUT_CAP).1.1 =
        Utf8.encode (t ++ eol)) ∧
      Answers engine (engine.execLine s (Utf8.encode cmd) OUT_CAP).2 cmds ts
  | _, _, _ => False

def after (engine : Engine σ) (s : σ) (cmds : List Text) : σ :=
  cmds.foldl (fun s cmd => (engine.execLine s (Utf8.encode cmd) OUT_CAP).2) s

theorem Answers.append {engine : Engine σ} {s : σ} {cmds cmds' ts : List Text}
    (h : Answers engine s (cmds ++ cmds') ts) :
    ∃ ts₁ ts₂, ts = ts₁ ++ ts₂ ∧ Answers engine s cmds ts₁ ∧
      Answers engine (after engine s cmds) cmds' ts₂ := by
  induction cmds generalizing s ts with
  | nil => exact ⟨[], ts, rfl, trivial, h⟩
  | cons cmd cmds ih =>
    cases ts with
    | nil => exact h.elim
    | cons t ts =>
      obtain ⟨hreply, hout, hrest⟩ := h
      obtain ⟨ts₁, ts₂, rfl, h₁, h₂⟩ := ih hrest
      exact ⟨t :: ts₁, ts₂, rfl, ⟨hreply, hout, h₁⟩, h₂⟩

theorem Answers.length {engine : Engine σ} {s : σ} {cmds ts : List Text}
    (h : Answers engine s cmds ts) : ts.length = cmds.length := by
  induction cmds generalizing s ts with
  | nil =>
    cases ts with
    | nil => rfl
    | cons t ts => exact h.elim
  | cons cmd cmds ih =>
    cases ts with
    | nil => exact h.elim
    | cons t ts => rw [List.length_cons, List.length_cons, ih h.2.2]

/-! ### One command -/

theorem holds_of_forall {heap : Heap} {bytes : Bytes} :
    ∀ {ptr : Nat}, (∀ i b, bytes[i]? = some b → heap (ptr + i) = b) → Holds heap ptr bytes := by
  induction bytes with
  | nil => exact fun _ => trivial
  | cons b bytes ih =>
    intro ptr h
    refine ⟨h 0 b rfl, ih fun i b' hb' => ?_⟩
    rw [Nat.add_right_comm, Nat.add_assoc]
    exact h (i + 1) b' hb'

theorem holds_write (heap : Heap) (ptr : Nat) (bytes : Bytes) :
    Holds (heap.write ptr bytes) ptr bytes := by
  apply holds_of_forall
  intro i b hb
  rw [Heap.write, if_pos (Nat.le_add_right _ _), Nat.add_sub_cancel_left, hb, Option.getD_some]

theorem utf16_append (s t : Text) : utf16 (s ++ t) = utf16 s ++ utf16 t := by
  rw [utf16, codePoints, List.map_append, Utf16.encode_append]
  rfl

/-- An ASCII unit is in the units of a text only as that character. -/
theorem lit_mem_utf16 {a : Char} (ha : a.toNat < 128) {t : Text} :
    (lit a : UInt16) ∈ utf16 t ↔ a ∈ t := by
  rw [utf16, Utf16.encode, List.mem_flatMap, codePoints]
  simp only [List.mem_map, exists_exists_and_eq_and]
  constructor
  · rintro ⟨c, hc, hunit⟩
    have hsame : c.toNat = a.toNat := (Utf16.ofNat_mem_units ha _).mp hunit
    exact Char.toNat_inj.mp hsame ▸ hc
  · exact fun h => ⟨a, h, (Utf16.ofNat_mem_units ha _).mpr rfl⟩

theorem getLast?_utf16 {a : Char} (ha : a.toNat < 128) {t : Text}
    (h : (utf16 t).getLast? = some (lit a)) : t.getLast? = some a := by
  rcases List.eq_nil_or_concat t with rfl | ⟨init, c, rfl⟩
  · cases h
  · rw [List.concat_eq_append, utf16_append] at h
    have hunits : utf16 [c] ≠ [] := by
      have hlen := Utf16.length_units_pos (lit c)
      exact List.ne_nil_of_length_pos (by simpa [utf16, codePoints, Utf16.encode] using hlen)
    rw [List.getLast?_append_of_ne_nil _ hunits] at h
    have hmem := (lit_mem_utf16 ha).mp (List.mem_of_getLast? h)
    rw [List.concat_eq_append, List.getLast?_append_of_ne_nil _ (List.cons_ne_nil _ _)]
    rw [List.mem_singleton.mp hmem]
    rfl

theorem trimLineEnd_reply {t eol : Text} (ht : IsReply t) (heol : eol ∈ lineEnds) :
    trimLineEnd (utf16 (t ++ eol)) = utf16 t := by
  have hlf : (utf16 t).getLast? ≠ some (lit '\n') := fun h =>
    ht.lf_not_mem (List.mem_of_getLast? (getLast?_utf16 (by decide) h))
  have hcr : (utf16 t).getLast? ≠ some (lit '\r') := fun h =>
    ht.cr_not_last (getLast?_utf16 (by decide) h)
  rw [utf16_append]
  rcases (by simpa [lineEnds] using heol : eol = [] ∨ eol = ['\n'] ∨ eol = ['\r', '\n']) with
    rfl | rfl | rfl
  · have hend : utf16 [] = [] := rfl
    rw [hend, List.append_nil, trimLineEnd, if_neg hlf]
  · have hend : utf16 ['\n'] = [lit '\n'] := by decide
    rw [hend, trimLineEnd, List.getLast?_concat, if_pos rfl, List.dropLast_concat, chomp, if_neg hcr]
  · have hend : utf16 ['\r', '\n'] = [lit '\r'] ++ [lit '\n'] := by decide
    rw [hend, ← List.append_assoc, trimLineEnd, List.getLast?_concat, if_pos rfl,
      List.dropLast_concat, chomp_concat]

section Runs

variable {engine : Engine σ} (textDecoder : Bool) (rooms : Nat → Room)

/-- **One command in-process.** -/
theorem exec_reply {w : InProcess σ} {cmd t eol : Text} (hcmd : '\x00' ∉ cmd) (ht : IsReply t)
    (heol : eol ∈ lineEnds)
    (hout : (engine.execLine w.engine (Utf8.encode cmd) OUT_CAP).1.1 = Utf8.encode (t ++ eol)) :
    exec engine textDecoder rooms (utf16 cmd) w =
      (utf16 t, ⟨(engine.execLine w.engine (Utf8.encode cmd) OUT_CAP).2, w.execs + 1⟩) := by
  have hnul : '\x00' ∉ t ++ eol := by
    have hends : ∀ eol ∈ lineEnds, '\x00' ∉ eol := by decide
    rw [List.mem_append]
    exact fun h => h.elim ht.nul_not_mem (hends eol heol)
  have hbom : (t ++ eol).head? ≠ some '\uFEFF' := by
    rw [List.head?_append_of_ne_nil _ ht.ne_nil]
    exact ht.no_bom
  have hpos : (Utf8.encode (t ++ eol)).length ≠ 0 := by
    have hle := Utf8.length_le_encode (t ++ eol)
    have htpos := List.length_pos_of_ne_nil ht.ne_nil
    rw [List.length_append] at hle
    omega
  rw [exec, cString_utf16 hcmd]
  dsimp only
  rw [hout, if_neg hpos, UTF8ToString_encode textDecoder (rooms w.execs).ne_zero
    (holds_write _ _ _) hnul, if_neg fun h => hbom h.2, trimLineEnd_reply ht heol]

theorem execAll_answers {cmds ts : List Text} (hcmds : ∀ cmd ∈ cmds, '\x00' ∉ cmd) :
    ∀ {w : InProcess σ}, Answers engine w.engine cmds ts →
      execAll engine textDecoder rooms (cmds.map utf16) w =
        (ts.map utf16, ⟨after engine w.engine cmds, w.execs + cmds.length⟩) := by
  induction cmds generalizing ts with
  | nil =>
    intro w h
    cases ts with
    | nil => rfl
    | cons t ts => exact h.elim
  | cons cmd cmds ih =>
    intro w h
    cases ts with
    | nil => exact h.elim
    | cons t ts =>
      obtain ⟨hreply, ⟨eol, heol, hout⟩, hrest⟩ := h
      rw [List.map_cons, execAll, exec_reply textDecoder rooms (hcmds cmd List.mem_cons_self)
        hreply heol hout]
      dsimp only
      rw [ih (fun cmd' hcmd' => hcmds cmd' (List.mem_cons_of_mem _ hcmd')) hrest, List.length_cons,
        Nat.add_assoc, Nat.add_comm 1]
      rfl

theorem call_answers {c : Call UInt16} {cmds ts : List Text} {w : InProcess σ}
    (hc : c.commands.map Subtype.val = cmds.map utf16) (hcmds : ∀ cmd ∈ cmds, '\x00' ∉ cmd)
    (h : Answers engine w.engine cmds ts) :
    call engine textDecoder rooms c w =
      (c.settlement (ts.map utf16), ⟨after engine w.engine cmds, w.execs + cmds.length⟩) := by
  cases c with
  | send cmd =>
    obtain ⟨t, rfl⟩ : ∃ t, cmds = [t] := by
      rw [← List.length_eq_one_iff, ← List.length_map utf16, ← hc]
      rfl
    have hcmd : cmd.1 = utf16 t := (List.cons.inj hc).1
    have hall := execAll_answers textDecoder rooms hcmds h
    simp only [List.map_cons, List.map_nil, execAll] at hall
    rw [call, hcmd]
    obtain ⟨hlines, hstate⟩ := Prod.mk.inj hall
    dsimp only
    rw [hstate, ← hlines]
    rfl
  | sendBatch sent =>
    have hsent : sent.map Subtype.val = cmds.map utf16 := hc
    rw [call, hsent, execAll_answers textDecoder rooms hcmds h]
    rfl

/-- What the promises of `calls` are to be resolved with, when the replies are `answers`. -/
def settle : List (Call UInt16) → List (List UInt16) → List (Settlement UInt16)
  | [], _ => []
  | c :: calls, answers =>
    c.settlement (answers.take c.size) :: settle calls (answers.drop c.size)

theorem settle_getElem? {calls : List (Call UInt16)} {i : Nat} {c : Call UInt16}
    (h : calls[i]? = some c) (answers : List (List UInt16)) :
    (settle calls answers)[i]? =
      some (c.settlement (share answers (offset (calls.map Call.size) i) c.size)) := by
  induction calls generalizing i answers with
  | nil => cases h
  | cons d calls ih =>
    cases i with
    | zero =>
      obtain rfl : d = c := Option.some.inj h
      simp [settle, share, offset]
    | succ i =>
      have hrest := ih h (answers.drop d.size)
      rw [share, List.drop_drop] at hrest
      simpa [settle, share, offset] using hrest

/-- The commands of a list of calls. -/
def commandTexts (calls : List (Call UInt16)) : List (List UInt16) :=
  calls.flatMap fun c => c.commands.map Subtype.val

/-- **Every call in-process gets the replies to its own commands**, an empty batch among
them, whatever is in memory. -/
theorem run_answers {calls : List (Call UInt16)} {cmds ts : List Text} {w : InProcess σ}
    (hcalls : commandTexts calls = cmds.map utf16) (hcmds : ∀ cmd ∈ cmds, '\x00' ∉ cmd)
    (h : Answers engine w.engine cmds ts) :
    (run engine textDecoder rooms calls w).1 = settle calls (ts.map utf16) := by
  induction calls generalizing cmds ts w with
  | nil => rfl
  | cons c calls ih =>
    rw [commandTexts, List.flatMap_cons] at hcalls
    obtain ⟨own, others, rfl, hown, hothers⟩ := List.map_eq_append_iff.mp hcalls.symm
    obtain ⟨ts₁, ts₂, rfl, h₁, h₂⟩ := h.append
    have hcall := call_answers textDecoder rooms hown.symm
      (fun cmd hcmd => hcmds cmd (List.mem_append_left _ hcmd)) h₁
    have hsize : (ts₁.map utf16).length = c.size := by
      rw [List.length_map, h₁.length, Call.size, ← List.length_map Subtype.val, ← hown,
        List.length_map]
    rw [run, hcall]
    dsimp only
    rw [ih hothers.symm (fun cmd hcmd => hcmds cmd (List.mem_append_right _ hcmd)) h₂, settle,
      List.map_append, ← hsize, List.take_left, List.drop_left]

end Runs

/-! ### The other transports -/

/-- What is settled on a connection in lock step is what the call gets in-process. -/
theorem settled_of_matched {ω : Type} {write : Call UInt16 → List ω}
    {t : Js.Transport UInt16 ω} {done rest : List (Js.Line UInt16)}
    {answers : List (List UInt16)} (h : Js.Matched write t done)
    (hserver : Js.replies (done ++ rest) <+: answers) {p : Nat} {v : Settlement UInt16}
    (hv : (p, v) ∈ t.settled) : (settle t.calls answers)[p]? = some v := by
  obtain ⟨c, hcall⟩ : ∃ c, t.calls[p]? = some c :=
    ⟨_, List.getElem?_eq_getElem (h.known (p, v) hv)⟩
  have hmem : v ∈ t.settlementsOf p :=
    List.mem_map.mpr ⟨(p, v), List.mem_filter.mpr ⟨hv, by simp⟩, rfl⟩
  rw [h.settled p _ hcall, Call.settlements] at hmem
  split at hmem
  · rename_i hfull
    obtain ⟨later, hlater⟩ := hserver
    have hreplies : Js.replies (done ++ rest) = Js.replies done ++ Js.replies rest := by
      simp [Js.replies]
    rw [settle_getElem? hcall, List.mem_singleton.mp hmem, ← hlater, hreplies,
      List.append_assoc, ← Js.Transport.sizes, share_append hfull]
  · cases hmem

/-- **In-process as on a connection.** Every call in-process gets the replies to its own
commands at once, whatever is in memory; and where the server at the other end of the
line answers as the engine does, that is what its promise is resolved with on TCP or a
WebSocket, if it has been. -/
theorem inProcess_agrees (engine : Engine σ) (textDecoder : Bool) (rooms : Nat → Room)
    (w : InProcess σ) (react : Nat → List (Call UInt16)) {cmds ts : List Text}
    (hcmds : ∀ cmd ∈ cmds, '\x00' ∉ cmd) (h : Answers engine w.engine cmds ts) :
    (∀ calls, commandTexts calls = cmds.map utf16 →
      (run engine textDecoder rooms calls w).1 = settle calls (ts.map utf16)) ∧
    (∀ moves : List (TcpMove UInt16), ∀ net, TcpNet.run react moves = net →
      NoEmptyBatch net.transport.toTransport →
      commandTexts net.transport.calls = cmds.map utf16 →
      Js.replies net.lines <+: ts.map utf16 →
      ∀ p v, (p, v) ∈ net.transport.settled →
        (run engine textDecoder rooms net.transport.calls w).1[p]? = some v) ∧
    (∀ moves : List (WsMove UInt16), ∀ net, WsNet.run react moves = net →
      NoEmptyBatch net.transport →
      commandTexts net.transport.calls = cmds.map utf16 →
      Js.replies net.lines <+: ts.map utf16 →
      ∀ p v, (p, v) ∈ net.transport.settled →
        (run engine textDecoder rooms net.transport.calls w).1[p]? = some v) := by
  refine ⟨fun calls hcalls => run_answers textDecoder rooms hcalls hcmds h, ?_, ?_⟩
  · rintro moves net rfl hnone hcalls hserver p v hv
    obtain ⟨done, rest, hlines, -, -, hmatched⟩ := (TcpNet.run_matched react moves hnone).dispatched
    rw [hlines] at hserver
    rw [run_answers textDecoder rooms hcalls hcmds h]
    exact settled_of_matched hmatched hserver hv
  · rintro moves net rfl hnone hcalls hserver p v hv
    have hmatched := (WsNet.run_matched react moves hnone).dispatched
    rw [← List.take_append_drop (WsNet.run react moves).arrived (WsNet.run react moves).lines]
      at hserver
    rw [run_answers textDecoder rooms hcalls hcmds h]
    exact settled_of_matched hmatched hserver hv

/-- An engine that knows `PING`, and has seven rows. -/
def smallEngine : Engine Nat where
  execLine n line cap :=
    (⟨(if line = Utf8.encode "PING".toList then Utf8.encode "+OK PONG\r\n".toList
      else Utf8.encode "+OK 7\r\n".toList).take cap, List.length_take_le _ _⟩, n + 1)

def twoCalls : List (Call UInt16) :=
  [.send ⟨Js.text "PING", by decide⟩,
    .sendBatch [⟨Js.text "COUNT 0 0", by decide⟩, ⟨Js.text "PING", by decide⟩]]

theorem inProcess_agrees_twoCalls :
    let rooms : Nat → Room := fun k => ⟨fun _ => 65, 8 + k, by omega⟩
    (run smallEngine true rooms twoCalls ⟨0, 0⟩).1 =
      [.line (Js.text "+OK PONG"), .lines [Js.text "+OK 7", Js.text "+OK PONG"]] := by
  intro rooms
  have hpong : IsReply "+OK PONG".toList := by
    constructor <;> decide
  have hseven : IsReply "+OK 7".toList := by
    constructor <;> decide
  have hanswers : Answers smallEngine 0 ["PING".toList, "COUNT 0 0".toList, "PING".toList]
      ["+OK PONG".toList, "+OK 7".toList, "+OK PONG".toList] :=
    ⟨hpong, ⟨['\r', '\n'], by decide, by decide +kernel⟩, hseven,
      ⟨['\r', '\n'], by decide, by decide +kernel⟩, hpong,
      ⟨['\r', '\n'], by decide, by decide +kernel⟩, trivial⟩
  have hagrees := inProcess_agrees smallEngine true rooms ⟨0, 0⟩ (fun _ => []) (by decide) hanswers
  exact (hagrees.1 twoCalls (by decide +kernel)).trans (by decide +kernel)

end CuttleDB.Wasm
