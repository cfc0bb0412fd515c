import CuttleDB.JsDisconnection
import Mathlib.Algebra.Order.Group.Nat

/-!
# One output through two transports

`TcpTransport` buffers what arrives, so that its lines do not depend on how the output
was cut into chunks. `WsTransport` takes the lines of each frame for themselves: a
line that a frame boundary cuts is delivered as two, or loses a carriage return that
the boundary has made the last character of a piece.
-/

namespace CuttleDB.Js

open Framing

variable {α ω : Type} [DecidableEq α] [Alphabet α]

/-! ### Chunks -/

theorem remainder_not_mem (s : List α) : lit '\n' ∉ remainder s := by
  induction s using line_induction (lit '\n' : α) with
  | last s h => rwa [remainder_of_not_mem h]
  | line raw rest hraw ih => rwa [remainder_line hraw]

/-- The lines of a text that comes in two parts. -/
theorem lines_append (s s' : List α) :
    completeLines (s ++ s') = completeLines s ++ completeLines (remainder s ++ s') ∧
      remainder (s ++ s') = remainder (remainder s ++ s') := by
  induction s using line_induction (lit '\n' : α) with
  | last s h =>
    rw [remainder_of_not_mem h, completeLines_of_not_mem h]
    exact ⟨rfl, rfl⟩
  | line raw rest hraw ih =>
    obtain ⟨hlines, hremainder⟩ := ih
    rw [List.append_assoc, List.cons_append, completeLines_line hraw, completeLines_line hraw,
      remainder_line hraw, remainder_line hraw, hlines]
    exact ⟨rfl, hremainder⟩

/-- The chunks that arrive one after the other. -/
def TcpTransport.onChunks (react : Nat → List (Call α)) (chunks : List (List α))
    (t : TcpTransport α) : TcpTransport α :=
  chunks.foldl (fun t chunk => t.onData react chunk) t

/-- **The chunks do not matter:** what TCP dispatches are the lines of the whole output. -/
theorem TcpTransport.onChunks_lines (react : Nat → List (Call α)) (chunks : List (List α)) :
    ∀ {t : TcpTransport α}, lit '\n' ∉ t.buf →
      (t.onChunks react chunks).toTransport =
        (completeLines (t.buf ++ chunks.flatten)).foldl (Transport.dispatch tcpWrite react)
          t.toTransport := by
  induction chunks with
  | nil =>
    intro t h
    rw [List.flatten_nil, List.append_nil, completeLines_of_not_mem h]
    rfl
  | cons chunk chunks ih =>
    intro t h
    have hnext := ih (t := t.onData react chunk)
      (by rw [TcpTransport.onData_lines]; exact remainder_not_mem _)
    obtain ⟨hlines, -⟩ := lines_append (t.buf ++ chunk) chunks.flatten
    have hcons : t.onChunks react (chunk :: chunks) = (t.onData react chunk).onChunks react chunks :=
      rfl
    rw [hcons, hnext, TcpTransport.onData_lines, List.flatten_cons, ← List.append_assoc,
      hlines, List.foldl_append]

/-! ### Pieces of a line -/

/-- What a frame without a line feed delivers. -/
def piece (f : List α) : List (List α) :=
  if chomp (lit '\r') f = [] then [] else [chomp (lit '\r') f]

/-- The boundary `n` within a line changes what is delivered: it does not stand between
the text and the carriage return that ends the line. -/
def Breaks (raw : List α) (n : Nat) : Prop :=
  0 < n ∧ n < raw.length ∧
    ¬ (n = (chomp (lit '\r') raw).length ∧ (chomp (lit '\r') raw).getLast? ≠ some (lit '\r'))

instance (raw : List α) (n : Nat) : Decidable (Breaks raw n) := inferInstanceAs (Decidable (_ ∧ _))

theorem chomp_append {s : List α} (f : List α) (hs : s ≠ []) :
    chomp (lit '\r') (f ++ s) = f ++ chomp (lit '\r') s := by
  rw [chomp, List.getLast?_append_of_ne_nil _ hs, chomp]
  split
  · rw [List.dropLast_append_of_ne_nil hs]
  · rfl

/-- A text is chomped to nothing only if it is empty or one carriage return. -/
theorem eq_cr_of_chomp {s : List α} (hs : s ≠ []) (h : chomp (lit '\r') s = []) :
    s = [lit '\r'] := by
  rw [chomp] at h
  split at h
  · rename_i hlast
    obtain ⟨init, rfl⟩ := List.getLast?_eq_some_iff.mp hlast
    rw [List.dropLast_concat] at h
    rw [h]
    rfl
  · exact absurd h hs

/-- The units that are delivered. -/
def total (delivered : List (List α)) : Nat := (delivered.map List.length).sum

omit [DecidableEq α] [Alphabet α] in
theorem total_append (d d' : List (List α)) : total (d ++ d') = total d + total d' := by
  simp [total]

theorem total_piece (f : List α) : total (piece f) = (chomp (lit '\r') f).length := by
  unfold piece
  split <;> rename_i h <;> simp [total, h]

theorem length_piece_of_ne {f : List α} (h : chomp (lit '\r') f ≠ []) : (piece f).length = 1 := by
  rw [piece, if_neg h]
  rfl

theorem piece_nil : piece ([] : List α) = [] := rfl

theorem forall_prefix_cons {β : Type} {x : β} {xs : List β} {P : List β → Prop} :
    (∀ pre, pre <+: x :: xs → P pre) ↔ P [] ∧ ∀ pre, pre <+: xs → P (x :: pre) := by
  constructor
  · intro h
    exact ⟨h [] List.nil_prefix, fun pre hpre => h _ (List.cons_prefix_cons.mpr ⟨rfl, hpre⟩)⟩
  · rintro ⟨hnil, hcons⟩ pre hpre
    cases pre with
    | nil => exact hnil
    | cons y pre =>
      obtain ⟨rfl, htail⟩ := List.cons_prefix_cons.mp hpre
      exact hcons pre htail

theorem not_breaks_zero (raw : List α) : ¬ Breaks raw 0 := fun h => absurd h.1 (Nat.lt_irrefl 0)

theorem not_breaks_length (raw : List α) : ¬ Breaks raw raw.length :=
  fun h => absurd h.2.1 (Nat.lt_irrefl _)

/-- The pieces of a line hold at most its text. If they hold all of it in one line, no
boundary breaks the line. -/
theorem pieces_total (pieces : List (List α)) :
    total (pieces.flatMap piece) ≤ (chomp (lit '\r') pieces.flatten).length ∧
      (total (pieces.flatMap piece) = (chomp (lit '\r') pieces.flatten).length →
        chomp (lit '\r') pieces.flatten ≠ [] →
        1 ≤ (pieces.flatMap piece).length ∧
          ((pieces.flatMap piece).length = 1 →
            ∀ pre, pre <+: pieces → ¬ Breaks pieces.flatten pre.flatten.length)) := by
  induction pieces with
  | nil => exact ⟨Nat.le_refl _, fun _ hne => absurd rfl hne⟩
  | cons f pieces ih =>
    obtain ⟨hle, hall⟩ := ih
    have hlength : ((f :: pieces).flatMap piece).length =
        (piece f).length + (pieces.flatMap piece).length := by
      rw [List.flatMap_cons, List.length_append]
    have htotal : total ((f :: pieces).flatMap piece) =
        (chomp (lit '\r') f).length + total (pieces.flatMap piece) := by
      rw [List.flatMap_cons, total_append, total_piece]
    rw [hlength, htotal, List.flatten_cons, forall_prefix_cons]
    by_cases hf : f = []
    · subst hf
      have hnil : chomp (lit '\r') ([] : List α) = [] := rfl
      simp only [piece_nil, hnil, List.length_nil, Nat.zero_add, List.nil_append]
      refine ⟨hle, fun heq hne => ⟨(hall heq hne).1, fun hone => ⟨not_breaks_zero _, ?_⟩⟩⟩
      intro pre hpre
      rw [List.flatten_cons, List.nil_append]
      exact (hall heq hne).2 hone pre hpre
    by_cases hs : pieces.flatten = []
    · -- the rest is empty
      have hzero : total (pieces.flatMap piece) = 0 := by
        rw [hs] at hle
        exact Nat.le_zero.mp hle
      rw [hs, List.append_nil, hzero, Nat.add_zero]
      refine ⟨Nat.le_refl _, fun _ hne => ⟨?_, fun _ => ⟨not_breaks_zero _, ?_⟩⟩⟩
      · rw [length_piece_of_ne hne]
        exact Nat.le_add_right _ _
      · rintro pre ⟨rest, rfl⟩
        rw [List.flatten_append, List.append_eq_nil_iff] at hs
        rw [List.flatten_cons, hs.1, List.append_nil]
        exact not_breaks_length f
    · have hfle := length_chomp_le (lit '\r') f
      have hchomp := chomp_append f hs
      rw [hchomp, List.length_append]
      refine ⟨by omega, fun heq hne => ?_⟩
      -- nothing is lost from `f`, so it is a line of its own
      have hlast : f.getLast? ≠ some (lit '\r') := getLast?_ne_of_length_chomp (by omega)
      have hwhole : chomp (lit '\r') f = f := if_neg hlast
      rw [length_piece_of_ne (by rwa [hwhole])]
      refine ⟨Nat.le_add_right _ _, fun honly => ⟨not_breaks_zero _, ?_⟩⟩
      have hnone : pieces.flatMap piece = [] := List.length_eq_zero_iff.mp (by omega)
      have hempty : chomp (lit '\r') pieces.flatten = [] := by
        rw [← List.length_eq_zero_iff]
        rw [hnone] at heq hle
        have hzero : total ([] : List (List α)) = 0 := rfl
        omega
      have hcr := eq_cr_of_chomp hs hempty
      intro pre hpre hbreaks
      rw [hcr, List.flatten_cons] at hbreaks
      have hshort : pre.flatten.length ≤ 1 := by
        obtain ⟨rest, rfl⟩ := hpre
        have hlen := congrArg List.length hcr
        rw [List.flatten_append, List.length_append, List.length_singleton] at hlen
        omega
      obtain ⟨-, hlt, hnot⟩ := hbreaks
      rw [List.length_append, List.length_append, List.length_singleton] at hlt
      refine hnot ⟨?_, ?_⟩ <;> rw [chomp_concat]
      · rw [List.length_append]
        omega
      · exact hlast

theorem flatMap_piece_eq_nil {pieces : List (List α)} (h : total (pieces.flatMap piece) = 0) :
    pieces.flatMap piece = [] := by
  rcases hdelivered : pieces.flatMap piece with _ | ⟨line, delivered⟩
  · rfl
  · have hmem : line ∈ pieces.flatMap piece := by rw [hdelivered]; exact List.mem_cons_self
    obtain ⟨f, -, hline⟩ := List.mem_flatMap.mp hmem
    rw [hdelivered, total, List.map_cons, List.sum_cons] at h
    have hnil : line = [] := List.length_eq_zero_iff.mp (by omega)
    unfold piece at hline
    split at hline
    · cases hline
    · rename_i hne
      exact absurd ((List.mem_singleton.mp hline).symm.trans hnil) hne

/-- What no boundary breaks is delivered as it is. -/
theorem pieces_of_not_breaks (pieces : List (List α)) :
    chomp (lit '\r') pieces.flatten ≠ [] →
    (∀ pre, pre <+: pieces → ¬ Breaks pieces.flatten pre.flatten.length) →
    pieces.flatMap piece = [chomp (lit '\r') pieces.flatten] := by
  induction pieces with
  | nil => exact fun hne => absurd rfl hne
  | cons f pieces ih =>
    have hnone : chomp (lit '\r') pieces.flatten = [] → pieces.flatMap piece = [] := by
      intro hempty
      have hzero := (pieces_total pieces).1
      rw [hempty] at hzero
      exact flatMap_piece_eq_nil (Nat.le_zero.mp hzero)
    intro hne hwhole
    rw [forall_prefix_cons] at hwhole
    rw [List.flatMap_cons]
    rw [List.flatten_cons] at hne hwhole ⊢
    by_cases hf : f = []
    · subst hf
      rw [List.nil_append] at hne hwhole ⊢
      rw [piece_nil, List.nil_append]
      exact ih hne fun pre hpre => by simpa using hwhole.2 pre hpre
    by_cases hs : pieces.flatten = []
    · rw [hs, List.append_nil] at hne ⊢
      rw [hnone (by rw [hs]; rfl), piece, if_neg hne, List.append_nil]
    · -- the boundary behind `f` does not break the line
      have hfirst := hwhole.2 [] List.nil_prefix
      rw [List.flatten_cons, List.flatten_nil, List.append_nil] at hfirst
      obtain ⟨hlength, hlast⟩ : f.length = (chomp (lit '\r') (f ++ pieces.flatten)).length ∧
          (chomp (lit '\r') (f ++ pieces.flatten)).getLast? ≠ some (lit '\r') := by
        by_contra hnot
        refine hfirst ⟨List.length_pos_iff.mpr hf, ?_, hnot⟩
        have hpos := List.length_pos_iff.mpr hs
        rw [List.length_append]
        omega
      rw [chomp_append f hs] at hlength hlast ⊢
      rw [List.length_append] at hlength
      have hempty : chomp (lit '\r') pieces.flatten = [] := List.length_eq_zero_iff.mp (by omega)
      rw [hempty, List.append_nil] at hlast ⊢
      have hwholeLine : chomp (lit '\r') f = f := if_neg hlast
      rw [hnone hempty, piece, hwholeLine, if_neg hf, List.append_nil]

/-! ### Frames -/

/-- A line as the server writes it, without its line feed. -/
abbrev RawLine (α : Type) [DecidableEq α] [Alphabet α] :=
  { raw : List α // lit '\n' ∉ raw ∧ chomp (lit '\r') raw ≠ [] }

def RawLine.text (l : RawLine α) : List α := chomp (lit '\r') l.1

def output (lines : List (RawLine α)) : List α := lines.flatMap fun l => l.1 ++ [lit '\n']

theorem output_cons (l : RawLine α) (lines : List (RawLine α)) :
    output (l :: lines) = l.1 ++ lit '\n' :: output lines := by
  simp [output]

theorem completeLines_output (lines : List (RawLine α)) :
    completeLines (output lines) = lines.map RawLine.text := by
  induction lines with
  | nil => rfl
  | cons l lines ih =>
    rw [output_cons, completeLines_line l.2.1, ih]
    rfl

/-- The boundary `n` of the output breaks one of the lines. -/
def BreaksLine : List (RawLine α) → Nat → Prop
  | [], _ => False
  | l :: lines, n =>
    Breaks l.1 n ∨ (l.1.length + 1 ≤ n ∧ BreaksLine lines (n - (l.1.length + 1)))

/-- No boundary between frames breaks a line. -/
def WholeLines (lines : List (RawLine α)) (frames : List (List α)) : Prop :=
  ∀ pre, pre <+: frames → ¬ BreaksLine lines pre.flatten.length

instance decidableBreaksLine : ∀ (lines : List (RawLine α)) (n : Nat),
    Decidable (BreaksLine lines n)
  | [], _ => isFalse id
  | _ :: lines, _ =>
    have := decidableBreaksLine lines
    inferInstanceAs (Decidable (_ ∨ (_ ∧ BreaksLine lines _)))

instance (lines : List (RawLine α)) (frames : List (List α)) : Decidable (WholeLines lines frames) :=
  decidable_of_iff (∀ pre ∈ frames.inits, ¬ BreaksLine lines pre.flatten.length)
    (forall_congr' fun pre => by rw [List.mem_inits])

theorem breaksLine_within {l : RawLine α} (lines : List (RawLine α)) {n : Nat}
    (h : n ≤ l.1.length) : BreaksLine (l :: lines) n ↔ Breaks l.1 n := by
  rw [BreaksLine]
  exact or_iff_left fun hnext => absurd hnext.1 (by omega)

theorem breaksLine_behind (l : RawLine α) (lines : List (RawLine α)) (n : Nat) :
    BreaksLine (l :: lines) (l.1.length + 1 + n) ↔ BreaksLine lines n := by
  rw [BreaksLine, Nat.add_sub_cancel_left]
  constructor
  · rintro (⟨-, hlt, -⟩ | ⟨-, hnext⟩)
    · omega
    · exact hnext
  · exact fun h => Or.inr ⟨Nat.le_add_right _ _, h⟩

theorem not_breaksLine_zero (lines : List (RawLine α)) : ¬ BreaksLine lines 0 := by
  cases lines with
  | nil => exact id
  | cons l lines =>
    rw [breaksLine_within lines (Nat.zero_le _)]
    exact not_breaks_zero _

theorem forall_prefix_append {β : Type} {xs ys : List β} :
    ∀ {P : List β → Prop}, (∀ pre, pre <+: xs ++ ys → P pre) ↔
      (∀ pre, pre <+: xs → P pre) ∧ ∀ pre, pre <+: ys → P (xs ++ pre) := by
  induction xs with
  | nil =>
    intro P
    constructor
    · intro h
      refine ⟨fun pre hpre => ?_, h⟩
      obtain rfl := List.prefix_nil.mp hpre
      exact h [] List.nil_prefix
    · exact fun h => h.2
  | cons x xs ih =>
    intro P
    rw [List.cons_append, forall_prefix_cons, ih, forall_prefix_cons, and_assoc]
    rfl

theorem frameLines_of_not_mem {f : List α} (h : lit '\n' ∉ f) : frameLines f = piece f := by
  rw [frameLines, List.splitOn_eq_singleton h, piece]
  split <;> rename_i hline <;> simp [hline]

theorem frameLines_line {f : List α} (h : lit '\n' ∉ f) (rest : List α) :
    frameLines (f ++ lit '\n' :: rest) = piece f ++ frameLines rest := by
  rw [frameLines, List.splitOn_append_cons_self_of_not_mem h, List.map_cons, piece]
  split <;> rename_i hline <;> simp [hline, frameLines]

/-- The frame that the first line ends in. -/
theorem exists_last_frame {rest : List α} :
    ∀ {frames : List (List α)} {raw : List α}, lit '\n' ∉ raw →
      frames.flatten = raw ++ lit '\n' :: rest →
    ∃ before last behind frames', frames = before ++ (last ++ lit '\n' :: behind) :: frames' ∧
      before.flatten ++ last = raw ∧ behind ++ frames'.flatten = rest := by
  intro frames
  induction frames with
  | nil =>
    intro raw _ h
    cases raw <;> cases h
  | cons f frames ih =>
    intro raw hraw h
    rw [List.flatten_cons] at h
    by_cases hf : lit '\n' ∈ f
    · obtain ⟨last, behind, rfl, hlast⟩ := List.eq_append_cons_of_mem hf
      rw [List.append_assoc, List.cons_append] at h
      obtain ⟨rfl, hrest⟩ := line_unique hlast hraw h
      exact ⟨[], last, behind, frames, rfl, rfl, hrest⟩
    · rcases List.append_eq_append_iff.mp h with ⟨raw', rfl, hframes⟩ | ⟨tail, rfl, hbehind⟩
      · obtain ⟨before, last, behind, frames', rfl, hfirst, hrest⟩ :=
          ih (fun hmem => hraw (List.mem_append_right _ hmem)) hframes
        refine ⟨f :: before, last, behind, frames', rfl, ?_, hrest⟩
        rw [List.flatten_cons, List.append_assoc, hfirst]
      · cases tail with
        | nil =>
          obtain ⟨before, last, behind, frames', rfl, hfirst, hrest⟩ :=
            ih List.not_mem_nil hbehind.symm
          refine ⟨(raw ++ []) :: before, last, behind, frames', rfl, ?_, hrest⟩
          rw [List.flatten_cons, List.append_assoc, hfirst, List.append_nil, List.append_nil]
        | cons c tail =>
          obtain ⟨rfl, -⟩ := List.cons.inj hbehind
          exact absurd (by simp) hf

/-- The frames up to the end of the first line, and the rest of the output. -/
theorem first_line {l : RawLine α} {rest : List α} {frames : List (List α)}
    (h : frames.flatten = l.1 ++ lit '\n' :: rest) :
    ∃ pieces frames', pieces.flatten = l.1 ∧ frames'.flatten = rest ∧
      frames.flatMap frameLines = pieces.flatMap piece ++ frames'.flatMap frameLines ∧
      ∀ lines, WholeLines (l :: lines) frames ↔
        (∀ pre, pre <+: pieces → ¬ Breaks l.1 pre.flatten.length) ∧ WholeLines lines frames' := by
  obtain ⟨before, last, behind, frames', rfl, hfirst, hrest⟩ := exists_last_frame l.2.1 h
  have hnot : lit '\n' ∉ before.flatten ++ last := by
    rw [hfirst]
    exact l.2.1
  rw [List.mem_append, not_or] at hnot
  have hlength : before.flatten.length + last.length = l.1.length := by
    rw [← List.length_append, hfirst]
  refine ⟨before ++ [last], behind :: frames', ?_, hrest, ?_, fun lines => ?_⟩
  · rw [List.flatten_append, ← hfirst]
    simp
  · have hpieces : before.flatMap frameLines = before.flatMap piece := by
      refine List.flatMap_congr fun f hf => ?_
      exact frameLines_of_not_mem fun hmem => hnot.1 (List.mem_flatten.mpr ⟨f, hf, hmem⟩)
    rw [List.flatMap_append, List.flatMap_cons, frameLines_line hnot.2, hpieces,
      List.flatMap_append, List.flatMap_cons, List.flatMap_nil, List.flatMap_cons]
    simp only [List.append_assoc, List.append_nil]
  · -- a boundary ahead of the line feed, or one behind it
    have hbefore : ∀ pre, pre <+: before → pre.flatten.length ≤ l.1.length := by
      rintro pre ⟨rest, rfl⟩
      rw [List.flatten_append, List.length_append] at hlength
      omega
    rw [WholeLines, forall_prefix_append, forall_prefix_cons, forall_prefix_append,
      forall_prefix_cons, WholeLines, forall_prefix_cons]
    have hahead : (∀ pre, pre <+: before → ¬ BreaksLine (l :: lines) pre.flatten.length) ↔
        ∀ pre, pre <+: before → ¬ Breaks l.1 pre.flatten.length :=
      forall₂_congr fun pre hpre => not_congr (breaksLine_within lines (hbefore pre hpre))
    have hbehind : ∀ pre : List (List α),
        (before ++ (last ++ lit '\n' :: behind) :: pre).flatten.length =
          l.1.length + 1 + (behind :: pre).flatten.length := by
      intro pre
      simp only [List.flatten_append, List.flatten_cons, List.length_append, List.length_cons]
      omega
    have hend : ¬ Breaks l.1 (before ++ [last]).flatten.length := by
      have hall : (before ++ [last]).flatten.length = l.1.length := by
        rw [List.flatten_append, List.length_append, ← hlength]
        simp
      rw [hall]
      exact not_breaks_length l.1
    rw [hahead, breaksLine_within lines (by rw [List.append_nil]; exact hbefore _ List.prefix_rfl)]
    constructor
    · rintro ⟨hfirst, hsecond, hrest⟩
      refine ⟨⟨hfirst, hsecond, fun pre hpre => ?_⟩, not_breaksLine_zero lines, fun pre hpre => ?_⟩
      · obtain rfl := List.prefix_nil.mp hpre
        exact hend
      · rw [← breaksLine_behind l, ← hbehind]
        exact hrest pre hpre
    · rintro ⟨⟨hfirst, hsecond, -⟩, -, hrest⟩
      refine ⟨hfirst, hsecond, fun pre hpre => ?_⟩
      rw [hbehind, breaksLine_behind]
      exact hrest pre hpre

theorem flatMap_frameLines_nil {frames : List (List α)} (h : frames.flatten = []) :
    frames.flatMap frameLines = [] := by
  rw [List.flatMap_eq_nil_iff]
  intro f hf
  rw [List.flatten_eq_nil_iff.mp h f hf, frameLines_of_not_mem List.not_mem_nil, piece_nil]

/-- The frames deliver the lines of the output if no boundary breaks a line. -/
theorem frames_of_wholeLines {lines : List (RawLine α)} :
    ∀ {frames : List (List α)}, frames.flatten = output lines → WholeLines lines frames →
      frames.flatMap frameLines = lines.map RawLine.text := by
  induction lines with
  | nil => exact fun h _ => flatMap_frameLines_nil h
  | cons l lines ih =>
    intro frames h hwhole
    obtain ⟨pieces, frames', hpieces, hframes', hdelivered, hwholeIff⟩ :=
      first_line (h.trans (output_cons l lines))
    obtain ⟨hfirst, hrest⟩ := (hwholeIff lines).mp hwhole
    rw [← hpieces] at hfirst
    have hline := pieces_of_not_breaks pieces (by rw [hpieces]; exact l.2.2) hfirst
    rw [hdelivered, hline, ih hframes' hrest, hpieces]
    rfl

/-- They deliver no more units than the lines have. If they deliver as many, in as many
lines, no boundary breaks a line. -/
theorem wholeLines_of_total {lines : List (RawLine α)} :
    ∀ {frames : List (List α)}, frames.flatten = output lines →
      total (frames.flatMap frameLines) ≤ total (lines.map RawLine.text) ∧
        (total (frames.flatMap frameLines) = total (lines.map RawLine.text) →
          lines.length ≤ (frames.flatMap frameLines).length ∧
            ((frames.flatMap frameLines).length = lines.length → WholeLines lines frames)) := by
  induction lines with
  | nil =>
    intro frames h
    rw [flatMap_frameLines_nil h]
    refine ⟨Nat.le_refl _, fun _ => ⟨Nat.le_refl _, fun _ pre _ => ?_⟩⟩
    exact id
  | cons l lines ih =>
    intro frames h
    obtain ⟨pieces, frames', hpieces, hframes', hdelivered, hwholeIff⟩ :=
      first_line (h.trans (output_cons l lines))
    obtain ⟨hle, hall⟩ := ih hframes'
    have hline := pieces_total pieces
    rw [hpieces] at hline
    obtain ⟨hlineLe, hlineAll⟩ := hline
    have htexts : total ((l :: lines).map RawLine.text) =
        (chomp (lit '\r') l.1).length + total (lines.map RawLine.text) := rfl
    rw [hdelivered, total_append, htexts, List.length_append, List.length_cons]
    refine ⟨by omega, fun heq => ?_⟩
    obtain ⟨hone, hfirst⟩ := hlineAll (by omega) l.2.2
    obtain ⟨hmore, hrest⟩ := hall (by omega)
    refine ⟨by omega, fun hlength => (hwholeIff lines).mpr ⟨?_, ?_⟩⟩
    · exact hfirst (by omega)
    · exact hrest (by omega)

/-! ### What the callers see -/

/-- A transport without what it has written. -/
def Transport.view (t : Transport α ω) : Transport α Unit :=
  { connected := t.connected, calls := t.calls, waiters := t.waiters, outs := t.outs
    settled := t.settled, events := t.events, sent := [] }

omit [DecidableEq α] in
theorem Transport.view_call (write : Call α → List ω) (t : Transport α ω) (c : Call α) :
    (t.call write c).view = t.view.call (fun _ => []) c := by
  cases hconnected : t.connected with
  | true => cases c <;> simp [Transport.call, Transport.view, hconnected]
  | false => simp [Transport.call, Transport.view, hconnected]

omit [DecidableEq α] in
theorem Transport.view_foldl_call (write : Call α → List ω) (cs : List (Call α)) :
    ∀ t : Transport α ω, (cs.foldl (Transport.call write) t).view =
      cs.foldl (Transport.call fun _ => []) t.view := by
  induction cs with
  | nil => exact fun t => rfl
  | cons c cs ih =>
    intro t
    rw [List.foldl_cons, List.foldl_cons, ih, Transport.view_call]

omit [DecidableEq α] in
theorem Transport.view_resolve (w : Waiter) (line : List α) (t : Transport α ω) :
    (t.resolve w line).view = t.view.resolve w line := by
  unfold Transport.resolve
  cases w.batch with
  | none => rfl
  | some length =>
    dsimp only [Transport.view]
    split <;> rfl

/-- What a line does for the callers does not depend on how requests are written. -/
theorem Transport.view_dispatch (write : Call α → List ω) (react : Nat → List (Call α))
    (t : Transport α ω) (line : List α) :
    (t.dispatch write react line).view = t.view.dispatch (fun _ => []) react line := by
  unfold Transport.dispatch
  by_cases hevent : evtTag <+: line
  · rw [if_pos hevent, if_pos hevent, Transport.view_foldl_call]
    rfl
  · rw [if_neg hevent, if_neg hevent]
    have hwaiters : t.view.waiters = t.waiters := rfl
    rw [hwaiters]
    cases t.waiters with
    | nil => rfl
    | cons w ws => exact Transport.view_resolve w line { t with waiters := ws }

theorem Transport.view_foldl_dispatch (write : Call α → List ω) (react : Nat → List (Call α))
    (lines : List (List α)) :
    ∀ t : Transport α ω, (lines.foldl (Transport.dispatch write react) t).view =
      lines.foldl (Transport.dispatch (fun _ => []) react) t.view := by
  induction lines with
  | nil => exact fun t => rfl
  | cons line lines ih =>
    intro t
    rw [List.foldl_cons, List.foldl_cons, ih, Transport.view_dispatch]

/-- The lines that have reached a listener or a caller of `send`. -/
def Transport.heard (t : Transport α ω) : List (List α) :=
  t.events ++ t.settled.filterMap fun s =>
    match s.2 with
    | .line line => some line
    | .lines _ => none
    | .rejected _ => none

theorem heard_foldl_dispatch (write : Call α → List ω) (lines : List (List α)) :
    ∀ {t : Transport α ω}, (∀ w ∈ t.waiters, w.batch = none) → lines.length ≤ t.waiters.length →
      (lines.foldl (Transport.dispatch write fun _ => []) t).heard.Perm (t.heard ++ lines) := by
  induction lines with
  | nil =>
    intro t _ _
    rw [List.append_nil]
    exact List.Perm.refl _
  | cons line lines ih =>
    intro t hsends hlength
    rw [List.foldl_cons]
    rw [List.length_cons] at hlength
    by_cases hevent : evtTag <+: line
    · have hdispatch : t.dispatch write (fun _ => []) line =
          { t with events := t.events ++ [line] } := if_pos hevent
      have hheard : (t.dispatch write (fun _ => []) line).heard.Perm (t.heard ++ [line]) := by
        rw [hdispatch, Transport.heard, Transport.heard, List.append_assoc, List.append_assoc]
        exact List.perm_append_comm.append_left t.events
      have hwaiters : (t.dispatch write (fun _ => []) line).waiters = t.waiters := by
        rw [hdispatch]
      have hrest := ih (t := t.dispatch write (fun _ => []) line)
        (fun v hv => hsends v (hwaiters ▸ hv)) (by rw [hwaiters]; omega)
      have hlines := hrest.trans (hheard.append_right lines)
      rwa [List.append_assoc, List.singleton_append] at hlines
    · obtain ⟨w, ws, hw⟩ := List.exists_cons_of_length_pos (l := t.waiters) (by omega)
      have hsend : w.batch = none := hsends w (by simp [hw])
      have hdispatch : t.dispatch write (fun _ => []) line =
          { t with waiters := ws, settled := t.settled ++ [(w.promise, .line line)] } := by
        rw [Transport.dispatch, if_neg hevent, hw]
        dsimp only
        rw [Transport.resolve, hsend]
      have hheard : (t.dispatch write (fun _ => []) line).heard = t.heard ++ [line] := by
        rw [hdispatch]
        simp [Transport.heard]
      have hwaiters : (t.dispatch write (fun _ => []) line).waiters = ws := by rw [hdispatch]
      have hrest := ih (t := t.dispatch write (fun _ => []) line)
        (fun v hv => hsends v (by rw [hw]; exact List.mem_cons_of_mem _ (hwaiters ▸ hv)))
        (by rw [hw, List.length_cons] at hlength; rw [hwaiters]; omega)
      rwa [hheard, List.append_assoc, List.singleton_append] at hrest

/-- A transport on which `n` requests have been sent. -/
def Transport.asked (write : Call α → List ω) (n : Nat) : Transport α ω :=
  (List.replicate n (.send ⟨[], List.not_mem_nil⟩)).foldl (Transport.call write) Transport.opened

omit [DecidableEq α] in
theorem Transport.asked_spec (write : Call α → List ω) (n : Nat) :
    (∀ w ∈ (Transport.asked write n).waiters, w.batch = none) ∧
      (Transport.asked write n).waiters.length = n ∧
      (Transport.asked write n).connected = true ∧ (Transport.asked write n).heard = [] := by
  induction n with
  | zero => exact ⟨fun w hw => (by cases hw), rfl, rfl, rfl⟩
  | succ n ih =>
    obtain ⟨hsends, hlength, hconnected, hheard⟩ := ih
    have hnext : Transport.asked write (n + 1) =
        (Transport.asked write n).call write (.send ⟨[], List.not_mem_nil⟩) := by
      rw [Transport.asked, List.replicate_succ', List.foldl_append]
      rfl
    obtain ⟨⟨hconnected', -, hevents, hsettled⟩, -, hwaiters, -⟩ :=
      Transport.call_spec write hconnected (.send ⟨[], List.not_mem_nil⟩)
    rw [hnext]
    refine ⟨fun w hw => ?_, ?_, hconnected', ?_⟩
    · rw [hwaiters] at hw
      rcases List.mem_append.mp hw with hw | hw
      · exact hsends w hw
      · rw [List.eq_of_mem_replicate hw]
        rfl
    · rw [hwaiters, List.length_append, hlength, List.length_replicate]
      rfl
    · rw [Transport.heard, hevents, hsettled, ← Transport.heard, hheard]

omit [DecidableEq α] in
theorem Transport.asked_view (write : Call α → List ω) (n : Nat) :
    (Transport.asked write n).view = Transport.asked (fun _ => []) n :=
  Transport.view_foldl_call write _ Transport.opened

/-- The frames that arrive one after the other. -/
def WsTransport.onFrames (react : Nat → List (Call α)) (frames : List (List α))
    (t : WsTransport α) : WsTransport α :=
  frames.foldl (fun t text => WsTransport.onMessage react text t) t

theorem WsTransport.onFrames_lines (react : Nat → List (Call α)) (frames : List (List α))
    (t : WsTransport α) :
    WsTransport.onFrames react frames t =
      (frames.flatMap frameLines).foldl (Transport.dispatch wsWrite react) t := by
  rw [WsTransport.onFrames, List.foldl_flatMap]
  simp only [WsTransport.onMessage_lines]

/-- **The transports agree exactly when no frame boundary breaks a line.** From any state in
which their callers see the same, the output in any chunks and in these frames settles the
same promises with the same lines and calls the listeners on the same events, in order. -/
theorem transports_agree_iff (lines : List (RawLine α)) (frames chunks : List (List α))
    (hframes : frames.flatten = output lines) (hchunks : chunks.flatten = output lines) :
    (∀ (react : Nat → List (Call α)) (tcp : TcpTransport α) (ws : WsTransport α),
      tcp.buf = [] → tcp.toTransport.view = ws.view →
      (tcp.onChunks react chunks).toTransport.view =
        (WsTransport.onFrames react frames ws).view) ↔
    WholeLines lines frames := by
  have htcp : ∀ (react : Nat → List (Call α)) (tcp : TcpTransport α), tcp.buf = [] →
      (tcp.onChunks react chunks).toTransport.view =
        (lines.map RawLine.text).foldl (Transport.dispatch (fun _ => []) react)
          tcp.toTransport.view := by
    intro react tcp hbuf
    rw [TcpTransport.onChunks_lines react chunks (by simp [hbuf]), hbuf, List.nil_append, hchunks,
      completeLines_output, Transport.view_foldl_dispatch]
  have hws : ∀ (react : Nat → List (Call α)) (ws : WsTransport α),
      (WsTransport.onFrames react frames ws).view =
        (frames.flatMap frameLines).foldl (Transport.dispatch (fun _ => []) react) ws.view := by
    intro react ws
    rw [WsTransport.onFrames_lines, Transport.view_foldl_dispatch]
  constructor
  · intro hagree
    -- requests enough for every line that either delivers
    let n := lines.length + (frames.flatMap frameLines).length
    have heq := hagree (fun _ => []) ⟨Transport.asked tcpWrite n, []⟩ (Transport.asked wsWrite n)
      rfl (by rw [Transport.asked_view, Transport.asked_view])
    rw [htcp _ _ rfl, hws, Transport.asked_view, Transport.asked_view] at heq
    obtain ⟨hsends, hlength, -, hnone⟩ :=
      Transport.asked_spec (α := α) (ω := Unit) (fun _ => []) n
    have hlines := heard_foldl_dispatch (fun _ : Call α => ([] : List Unit)) (lines.map RawLine.text)
      hsends (by rw [hlength, List.length_map]; exact Nat.le_add_right _ _)
    have hdelivered := heard_foldl_dispatch (fun _ : Call α => ([] : List Unit))
      (frames.flatMap frameLines) hsends (by rw [hlength]; exact Nat.le_add_left _ _)
    rw [heq] at hlines
    have hperm := hdelivered.symm.trans hlines
    rw [hnone, List.nil_append, List.nil_append] at hperm
    have htotal : total (frames.flatMap frameLines) = total (lines.map RawLine.text) :=
      (hperm.map List.length).sum_eq
    have hcount := hperm.length_eq
    rw [List.length_map] at hcount
    exact ((wholeLines_of_total hframes).2 htotal).2 hcount
  · intro hwhole react tcp ws hbuf hview
    rw [htcp react tcp hbuf, hws, hview, frames_of_wholeLines hframes hwhole]

/-- Frames that end between lines, and between the characters that end a line. -/
theorem transports_agree_between_lines :
    let chunks := [text "+O", text "K 1\r\n>EVT 0 0 1 INS\r\n"]
    let frames := [text "+OK 1\r\n>EVT 0 0 1 INS\r", text "\n"]
    ∀ calls : List (Call UInt16),
      (TcpTransport.onChunks (fun _ => []) chunks
        ⟨calls.foldl (Transport.call tcpWrite) Transport.opened, []⟩).toTransport.view =
      (WsTransport.onFrames (fun _ => []) frames
        (calls.foldl (Transport.call wsWrite) Transport.opened)).view := by
  intro chunks frames calls
  refine (transports_agree_iff [⟨text "+OK 1\r", by decide +kernel⟩,
    ⟨text ">EVT 0 0 1 INS\r", by decide +kernel⟩] frames chunks (by decide +kernel)
    (by decide +kernel)).mpr (by decide +kernel) (fun _ => []) _ _ rfl ?_
  exact (Transport.view_foldl_call tcpWrite calls Transport.opened).trans
    (Transport.view_foldl_call wsWrite calls Transport.opened).symm

/-- A large result is flushed in the middle of its line: on a WebSocket the second half
answers the next request. -/
theorem flushed_line_answers_twice :
    let calls : List (Call UInt16) :=
      [.send ⟨text "SELGT 0 0 0 0", by decide⟩, .send ⟨text "PING", by decide⟩]
    let parts := [text "+OK [1;", text "2]\r\n"]
    let tcp := TcpTransport.onChunks (fun _ => []) parts
      ⟨calls.foldl (Transport.call tcpWrite) Transport.opened, []⟩
    let ws := WsTransport.onFrames (fun _ => []) parts
      (calls.foldl (Transport.call wsWrite) Transport.opened)
    parts.flatten = output [⟨text "+OK [1;2]\r", by decide +kernel⟩] ∧
      tcp.settled = [(0, .line (text "+OK [1;2]"))] ∧
      ws.settled = [(0, .line (text "+OK [1;")), (1, .line (text "2]"))] ∧
      tcp.toTransport.view ≠ ws.view := by
  intro calls parts tcp ws
  have htcp : tcp.settled = [(0, .line (text "+OK [1;2]"))] := by decide +kernel
  have hws : ws.settled = [(0, .line (text "+OK [1;")), (1, .line (text "2]"))] := by
    decide +kernel
  refine ⟨by decide +kernel, htcp, hws, fun hview => ?_⟩
  have hsettled : tcp.settled = ws.settled := congrArg Transport.settled hview
  rw [htcp, hws] at hsettled
  exact absurd hsettled (by decide)

end CuttleDB.Js
