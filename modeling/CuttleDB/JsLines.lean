import CuttleDB.JsLockStep

/-!
# What the transports find in their input

`_onData` goes through the complete lines of the buffer and leaves the rest in it;
`_onMessage` goes through the lines of one frame and leaves nothing. Each is a fold
of `dispatch` over a list of lines.
-/

namespace CuttleDB.Js

open Framing

variable {α : Type} [DecidableEq α] [Alphabet α]

/-! ### Complete lines -/

/-- The complete lines of a text, a carriage return at their end included. -/
def rawLines (s : List α) : List (List α) := (s.splitOn (lit '\n')).dropLast

theorem rawLines_of_not_mem {s : List α} (h : lit '\n' ∉ s) : rawLines s = [] := by
  rw [rawLines, List.splitOn_eq_singleton h]
  rfl

theorem rawLines_line {line : List α} (h : lit '\n' ∉ line) (rest : List α) :
    rawLines (line ++ lit '\n' :: rest) = line :: rawLines rest := by
  rw [rawLines, List.splitOn_append_cons_self_of_not_mem h,
    List.dropLast_cons_of_ne_nil (List.splitOn_ne_nil _ _)]
  rfl

theorem completeLines_eq (s : List α) : completeLines s = (rawLines s).map (chomp (lit '\r')) := rfl

/-- What stands behind the last line feed. -/
def remainder (s : List α) : List α := (s.splitOn (lit '\n')).getLastD []

theorem remainder_of_not_mem {s : List α} (h : lit '\n' ∉ s) : remainder s = s := by
  rw [remainder, List.splitOn_eq_singleton h]
  rfl

theorem remainder_line {line : List α} (h : lit '\n' ∉ line) (rest : List α) :
    remainder (line ++ lit '\n' :: rest) = remainder rest := by
  rw [remainder, List.splitOn_append_cons_self_of_not_mem h, List.getLastD_cons, remainder]
  rcases hsplit : rest.splitOn (lit '\n') with _ | ⟨first, others⟩
  · exact absurd hsplit (List.splitOn_ne_nil _ _)
  · rfl

theorem completeLines_line {line : List α} (h : lit '\n' ∉ line) (rest : List α) :
    completeLines (line ++ lit '\n' :: rest) = chomp (lit '\r') line :: completeLines rest := by
  rw [completeLines_eq, rawLines_line h, List.map_cons, completeLines_eq]

theorem completeLines_of_not_mem {s : List α} (h : lit '\n' ∉ s) : completeLines s = [] := by
  rw [completeLines_eq, rawLines_of_not_mem h]
  rfl

/-- **The loop of `_onData` dispatches the complete lines and keeps the remainder.** -/
theorem TcpTransport.drain_lines (react : Nat → List (Call α)) (t : TcpTransport α) :
    t.drain react =
      ⟨(completeLines t.buf).foldl (Transport.dispatch tcpWrite react) t.toTransport,
        remainder t.buf⟩ := by
  generalize hbuf : t.buf = buf
  induction buf using line_induction (lit '\n' : α) generalizing t with
  | last buf h =>
    rw [TcpTransport.drain_eq, hbuf, cutLine_eq_none.mpr h, completeLines_of_not_mem h,
      remainder_of_not_mem h, ← hbuf]
    rfl
  | line raw rest hraw ih =>
    rw [TcpTransport.drain_eq, hbuf, cutLine_line hraw, completeLines_line hraw,
      remainder_line hraw]
    exact ih _ rfl

theorem TcpTransport.onData_lines (react : Nat → List (Call α)) (chunk : List α)
    (t : TcpTransport α) :
    t.onData react chunk =
      ⟨(completeLines (t.buf ++ chunk)).foldl (Transport.dispatch tcpWrite react) t.toTransport,
        remainder (t.buf ++ chunk)⟩ :=
  TcpTransport.drain_lines react _

/-! ### Frames -/

/-- The lines of a frame that are not empty. -/
def frameLines (text : List α) : List (List α) :=
  ((text.splitOn (lit '\n')).map (chomp (lit '\r'))).filter (· ≠ [])

/-- **`_onMessage` dispatches the lines of its frame.** -/
theorem WsTransport.onMessage_lines (react : Nat → List (Call α)) (text : List α)
    (t : WsTransport α) :
    t.onMessage react text = (frameLines text).foldl (Transport.dispatch wsWrite react) t := by
  rw [WsTransport.onMessage, frameLines]
  generalize text.splitOn (lit '\n') = raws
  induction raws generalizing t with
  | nil => rfl
  | cons raw raws ih =>
    rw [List.foldl_cons, List.map_cons, ih]
    dsimp only
    by_cases hline : chomp (lit '\r') raw = []
    · rw [if_pos hline, List.filter_cons_of_neg (by simp [hline])]
    · rw [if_neg hline, List.filter_cons_of_pos (by simp [hline]), List.foldl_cons]

end CuttleDB.Js
