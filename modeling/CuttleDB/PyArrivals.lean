import CuttleDB.PyReplies

/-!
# Chunks ahead of a fault

A connection on which some chunks have come or will come before anything else: a pause, the
end of the stream, or further data. How the bytes are cut into chunks is never visible in
what `_readline` returns, and a line that the end of the stream cuts off is not returned.
-/

namespace CuttleDB.Py

open Framing

/-- The chunks that are met first carry `front`; behind them comes `rest`. -/
def Sock.Supplies (s : Sock) (front : Bytes) (rest : List Arrival) : Prop :=
  ∃ chunks : List { b : Bytes // b ≠ [] },
    s.arrivals = chunks.map .data ++ rest ∧ chunks.flatMap Subtype.val = front

theorem Sock.supplies_unread {s : Sock} (hfaults : s.faults = []) : s.Supplies s.unread [] := by
  obtain ⟨arrivals, timeout, sent⟩ := s
  induction arrivals with
  | nil => exact ⟨[], rfl, rfl⟩
  | cons a arrivals ih =>
    cases a with
    | data chunk =>
      obtain ⟨chunks, harrivals, hfront⟩ := ih (by simpa [Sock.faults, Arrival.isData] using hfaults)
      refine ⟨chunk :: chunks, ?_, ?_⟩
      · simp_all
      · simp_all [Sock.unread, Arrival.bytes]
    | silence => simp [Sock.faults, Arrival.isData] at hfaults
    | eof => simp [Sock.faults, Arrival.isData] at hfaults

theorem Sock.Supplies.unread {s : Sock} {front : Bytes} {rest : List Arrival}
    (h : s.Supplies front rest) : s.unread = front ++ rest.flatMap Arrival.bytes := by
  obtain ⟨chunks, harrivals, rfl⟩ := h
  simp [Sock.unread, harrivals, List.flatMap_map, Arrival.bytes]

theorem Sock.Supplies.faults {s : Sock} {front : Bytes} (h : s.Supplies front []) :
    s.faults = [] := by
  obtain ⟨chunks, harrivals, -⟩ := h
  rw [Sock.faults, harrivals, List.append_nil, List.filter_eq_nil_iff]
  intro a ha
  obtain ⟨chunk, -, rfl⟩ := List.mem_map.mp ha
  simp [Arrival.isData]

/-- A read takes bytes off the front, and at most as many as were asked for. -/
theorem Sock.Supplies.recv {s : Sock} {front : Bytes} {rest : List Arrival}
    (h : s.Supplies front rest) (hne : front ≠ []) {n : Nat} (hn : 0 < n) :
    ∃ b bs front' s', s.recv n = (.ok (b :: bs), s') ∧ (b :: bs).length ≤ n ∧
      front = (b :: bs) ++ front' ∧ s'.Supplies front' rest := by
  obtain ⟨arrivals, timeout, sent⟩ := s
  obtain ⟨chunks, rfl, rfl⟩ := h
  obtain ⟨m, rfl⟩ := Nat.exists_eq_succ_of_ne_zero (Nat.ne_of_gt hn)
  cases chunks with
  | nil => exact absurd rfl hne
  | cons chunk chunks =>
    obtain ⟨bytes, hbytes⟩ := chunk
    obtain ⟨b, bs, rfl⟩ := List.exists_cons_of_ne_nil hbytes
    by_cases hdrop : (b :: bs).drop (m + 1) = []
    · refine ⟨b, bs, chunks.flatMap Subtype.val, ⟨chunks.map .data ++ rest, timeout, sent⟩, ?_,
        List.drop_eq_nil_iff.mp hdrop, rfl, chunks, rfl, rfl⟩
      simp only [Sock.recv, List.map_cons, List.cons_append]
      exact dif_pos hdrop
    · refine ⟨b, bs.take m, bs.drop m ++ chunks.flatMap Subtype.val,
        ⟨.data ⟨_, hdrop⟩ :: (chunks.map .data ++ rest), timeout, sent⟩, ?_, ?_, ?_,
        ⟨_, hdrop⟩ :: chunks, rfl, rfl⟩
      · simp only [Sock.recv, List.map_cons, List.cons_append]
        exact dif_neg hdrop
      · simp
      · simp [← List.append_assoc]

theorem Sock.Supplies.recv_eof {s : Sock} {rest : List Arrival}
    (h : s.Supplies [] (.eof :: rest)) (n : Nat) : s.recv n = (.ok [], s) := by
  obtain ⟨arrivals, timeout, sent⟩ := s
  obtain ⟨chunks, rfl, hfront⟩ := h
  cases chunks with
  | nil => rfl
  | cons chunk chunks =>
    rw [List.flatMap_cons, List.append_eq_nil_iff] at hfront
    exact absurd hfront.1 chunk.2

/-- The buffer and the chunks that are met first carry `bytes`; behind them comes `rest`. -/
def Conn.Supplies (c : Conn) (bytes : Bytes) (rest : List Arrival) : Prop :=
  ∃ s front, c.sock = some s ∧ c.buf ++ front = bytes ∧ s.Supplies front rest

theorem Conn.Supplies.stream {c : Conn} {bytes : Bytes} {rest : List Arrival}
    (h : c.Supplies bytes rest) : c.stream = bytes ++ rest.flatMap Arrival.bytes := by
  obtain ⟨s, front, hsock, rfl, hfront⟩ := h
  rw [Conn.stream, hsock]
  dsimp only
  rw [hfront.unread, List.append_assoc]

theorem Conn.Flowing.supplies {c : Conn} (h : c.Flowing) : c.Supplies c.stream [] := by
  obtain ⟨s, hsock⟩ := Option.ne_none_iff_exists'.mp h.open_
  have hfaults : s.faults = [] := by simpa [Conn.faults, hsock] using h.faults
  exact ⟨s, s.unread, hsock, by simp [Conn.stream, hsock], Sock.supplies_unread hfaults⟩

theorem Conn.Supplies.flowing {c : Conn} {bytes : Bytes} (h : c.Supplies bytes []) :
    c.Flowing := by
  obtain ⟨s, front, hsock, -, hfront⟩ := h
  constructor
  · rw [hsock]
    exact Option.some_ne_none s
  · rw [Conn.faults, hsock]
    exact hfront.faults

/-- What is written leaves what is to be read as it was. -/
theorem write_supplies {c : Conn} {bytes : Bytes} {rest : List Arrival} (h : c.Supplies bytes rest)
    (data : Bytes) :
    ∃ c', write data c = (.ok (), c') ∧ c'.Supplies bytes rest ∧
      c'.pendingEvents = c.pendingEvents := by
  obtain ⟨s, front, hsock, hbytes, hfront⟩ := h
  refine ⟨{ c with sock := some { s with sent := s.sent ++ data } }, ?_, ?_, rfl⟩
  · rw [write, hsock]
  · exact ⟨_, front, rfl, hbytes, hfront⟩

/-- **A line is read as it was sent, in whatever chunks it comes.** -/
theorem readline_supplies {line tail : Bytes} {rest : List Arrival} (hlf : LF ∉ line) {c : Conn}
    (h : c.Supplies (line ++ LF :: tail) rest) :
    ∃ c', readline c = (.ok (chomp CR line), c') ∧ c'.Supplies tail rest ∧
      c'.pendingEvents = c.pendingEvents := by
  obtain ⟨s, front, hsock, hbytes, hfront⟩ := h
  -- on the bytes that are still to come: each read takes some
  induction hlength : front.length using Nat.strong_induction_on generalizing c s front with
  | _ k ih =>
    cases hcut : cutLine LF c.buf with
    | some p =>
      obtain ⟨line', rest'⟩ := p
      obtain ⟨hbuf, hlf'⟩ := eq_of_cutLine hcut
      have hboth : line' ++ LF :: (rest' ++ front) = line ++ LF :: tail := by
        rw [← hbytes, hbuf]
        simp
      obtain ⟨rfl, htail⟩ := line_unique hlf' hlf hboth
      exact ⟨_, readline_of_line hsock hcut, ⟨s, front, hsock, htail, hfront⟩, rfl⟩
    | none =>
      have hbuf : LF ∉ c.buf := cutLine_eq_none.mp hcut
      have hne : front ≠ [] := by
        rintro rfl
        rw [List.append_nil] at hbytes
        exact hbuf (by simp [hbytes])
      obtain ⟨b, bs, front', s', hrecv, -, rfl, hfront'⟩ := hfront.recv hne (by decide : 0 < 8192)
      obtain ⟨c', hread, hsupplies, hpending⟩ := ih front'.length
        (by rw [← hlength, List.length_append, List.length_cons]; omega)
        (c := { c with sock := some s', buf := c.buf ++ b :: bs }) s' front' rfl
        (by rw [← hbytes, List.append_assoc]) hfront' rfl
      refine ⟨c', ?_, hsupplies, hpending⟩
      rw [readline_of_recv hsock hcut, hrecv]
      exact hread

/-- Without a line feed ahead of what comes behind them, all the bytes go to the buffer. -/
theorem readline_gathers {bytes : Bytes} {rest : List Arrival} (hlf : LF ∉ bytes) {c : Conn}
    (h : c.Supplies bytes rest) :
    ∃ s, s.Supplies [] rest ∧ readline c = readline { c with sock := some s, buf := bytes } := by
  obtain ⟨s, front, hsock, rfl, hfront⟩ := h
  induction hlength : front.length using Nat.strong_induction_on generalizing c s front with
  | _ k ih =>
    by_cases hnil : front = []
    · subst hnil
      refine ⟨s, hfront, ?_⟩
      rw [List.append_nil, ← hsock]
    · have hcut : cutLine LF c.buf = none := by
        rw [cutLine_eq_none]
        intro hmem
        exact hlf (List.mem_append_left front hmem)
      obtain ⟨b, bs, front', s', hrecv, -, rfl, hfront'⟩ := hfront.recv hnil (by decide : 0 < 8192)
      have hbytes : c.buf ++ (b :: bs ++ front') = (c.buf ++ b :: bs) ++ front' :=
        (List.append_assoc _ _ _).symm
      have hlt : front'.length < k := by
        rw [← hlength, List.length_append, List.length_cons]
        omega
      rw [hbytes] at hlf ⊢
      rw [readline_of_recv hsock hcut, hrecv]
      exact ih front'.length hlt (c := { c with sock := some s', buf := c.buf ++ b :: bs }) s'
        front' rfl hfront' hlf rfl

theorem readline_closed {bytes : Bytes} {rest : List Arrival} (hlf : LF ∉ bytes) {c : Conn}
    (h : c.Supplies bytes (.eof :: rest)) :
    ∃ c', readline c = (.error (.cuttleDBError .connectionClosed), c') := by
  obtain ⟨s, hs, hread⟩ := readline_gathers hlf h
  rw [hread, readline_of_recv rfl (cutLine_eq_none.mpr hlf), hs.recv_eof]
  exact ⟨_, rfl⟩

end CuttleDB.Py
