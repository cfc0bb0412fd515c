import CuttleDB.PyDemultiplexing

/-!
# Late replies on the Python connection

Replies are matched to commands by position only, and a `send` that raises before its
reply has come leaves that reply to the next one. A run is any sequence of `send` calls
on one connection, with lines of any kind from the server and pauses anywhere: a reply
may come after its `send` has given up, and an event may be malformed.
-/

namespace CuttleDB.Py

open Framing

/-! ### What is at hand -/

/-- The bytes that arrive before the next pause. -/
def Sock.prompt (s : Sock) : Bytes :=
  (s.arrivals.takeWhile Arrival.isData).flatMap Arrival.bytes

def Conn.prompt (c : Conn) : Bytes :=
  c.buf ++ match c.sock with
    | none => []
    | some s => s.prompt

/-- The first line behind well-formed events. -/
def firstReply (b : Bytes) : Option Text :=
  match _hcut : cutLine LF b with
  | none => none
  | some (raw, rest) =>
    match Utf8.decode? (chomp CR raw) with
    | none => none
    | some line =>
      if evtTag <+: line then
        match parseEvent line with
        | .error _ => none
        | .ok _ => firstReply rest
      else some line
termination_by b.length
decreasing_by
  rw [(eq_of_cutLine _hcut).1]
  simp
  omega

theorem firstReply_of_line {b raw rest : Bytes} (h : cutLine LF b = some (raw, rest)) :
    firstReply b =
      match Utf8.decode? (chomp CR raw) with
      | none => none
      | some line =>
        if evtTag <+: line then
          match parseEvent line with
          | .error _ => none
          | .ok _ => firstReply rest
        else some line := by
  rw [firstReply]
  split <;> rename_i heq <;> rw [h] at heq
  · cases heq
  · cases heq
    rfl

theorem Sock.prompt_of_recv {n : Nat} {s s' : Sock} {b : UInt8} {bs : Bytes}
    (h : s.recv n = (.ok (b :: bs), s')) : s.prompt = (b :: bs) ++ s'.prompt := by
  obtain ⟨arrivals, timeout, sent⟩ := s
  cases arrivals with
  | nil => cases h
  | cons a rest =>
    cases a with
    | silence => cases h
    | eof => cases h
    | data chunk =>
      have hprompt : Sock.prompt ⟨.data chunk :: rest, timeout, sent⟩ =
          chunk.1 ++ Sock.prompt ⟨rest, timeout, sent⟩ := rfl
      dsimp only [Sock.recv] at h
      by_cases hrest : chunk.1.drop n = []
      · have heq : chunk.1 = b :: bs ∧ ⟨rest, timeout, sent⟩ = s' := by
          rw [dif_pos hrest] at h
          exact ⟨Except.ok.inj (Prod.mk.inj h).1, (Prod.mk.inj h).2⟩
        rw [hprompt, heq.1, ← heq.2]
      · have heq : chunk.1.take n = b :: bs ∧
            ⟨.data ⟨chunk.1.drop n, hrest⟩ :: rest, timeout, sent⟩ = s' := by
          rw [dif_neg hrest] at h
          exact ⟨Except.ok.inj (Prod.mk.inj h).1, (Prod.mk.inj h).2⟩
        rw [hprompt, ← heq.1, ← heq.2]
        change chunk.1 ++ _ = chunk.1.take n ++ (chunk.1.drop n ++ Sock.prompt ⟨rest, timeout, sent⟩)
        rw [← List.append_assoc, List.take_append_drop]

/-- A line that is read was at hand. -/
theorem readline_prompt {c c' : Conn} {raw : Bytes} (h : readline c = (.ok raw, c')) :
    ∃ line, raw = chomp CR line ∧ cutLine LF c.prompt = some (line, c'.prompt) := by
  induction hw : c.weight using Nat.strong_induction_on generalizing c with
  | _ w ih =>
    cases hsock : c.sock with
    | none =>
      rw [readline_of_none hsock] at h
      cases h
    | some s =>
      cases hline : cutLine LF c.buf with
      | some p =>
        obtain ⟨line, rest⟩ := p
        rw [readline_of_line hsock hline] at h
        obtain ⟨hraw, rfl⟩ := Prod.mk.inj h
        obtain ⟨hbuf, hlf⟩ := eq_of_cutLine hline
        refine ⟨line, (Except.ok.inj hraw).symm, ?_⟩
        rw [Conn.prompt, hbuf, List.append_assoc, List.cons_append, cutLine_line hlf]
        rfl
      | none =>
        rw [readline_of_recv hsock hline] at h
        rcases s.recv_cases (n := 8192) (by decide) with
          ⟨b, bs, s', hrecv, -, hlt⟩ | ⟨s', hrecv, -⟩ | ⟨s', hrecv, -⟩ <;> rw [hrecv] at h
        · have hweight :
              ({ c with sock := some s', buf := c.buf ++ b :: bs } : Conn).weight < w := by
            rw [← hw]
            simpa [Conn.weight, hsock] using hlt
          obtain ⟨line, hraw, hcut⟩ := ih _ hweight h rfl
          refine ⟨line, hraw, ?_⟩
          rw [← hcut]
          simp only [Conn.prompt, hsock, Sock.prompt_of_recv hrecv, List.append_assoc]
        · cases h
        · cases h

/-- **The reply that is returned is the first one at hand.** -/
theorem readResponse_prompt {c c' : Conn} {t : Text} (h : readResponse c = (.ok t, c')) :
    firstReply c.prompt = some t := by
  induction hn : c.stream.length using Nat.strong_induction_on generalizing c with
  | _ n ih =>
    rcases readline_cases c with ⟨line, c₁, hread, -, hreads, -⟩ | ⟨e, c₁, hread, -⟩
    · obtain ⟨line', hraw, hcut⟩ := readline_prompt hread
      rw [firstReply_of_line hcut, ← hraw]
      rw [readResponse] at h
      split at h <;> rename_i heq <;> rw [hread] at heq
      · cases heq
      · obtain ⟨hok, rfl⟩ := Prod.mk.inj heq
        obtain rfl := Except.ok.inj hok
        cases hdecode : Utf8.decode? (chomp CR line) with
        | none =>
          rw [hdecode] at h
          cases h
        | some text =>
          rw [hdecode] at h
          dsimp only at h ⊢
          split at h
          · rename_i htag
            rw [if_pos htag]
            cases hparse : parseEvent text with
            | error e =>
              rw [hparse] at h
              cases h
            | ok event =>
              rw [hparse] at h
              have hlt := hreads.stream_length_lt
              exact ih _ (by rw [← hn]; exact hlt)
                (c := { c₁ with pendingEvents := c₁.pendingEvents ++ [event] }) h rfl
          · rename_i htag
            rw [if_neg htag]
            obtain ⟨hok, -⟩ := Prod.mk.inj h
            rw [Except.ok.inj hok]
    · rw [readResponse_of_error hread] at h
      cases h

/-! ### One call -/

/-- What a read takes off a stream of lines: events, then perhaps one reply. -/
theorem readResponse_texts {rest : List LineText} {future : Bytes} :
    ∀ {c : Conn}, c.stream ++ future = renderTexts rest →
    ∃ taken left, rest = taken ++ left ∧
      (readResponse c).2.stream ++ future = renderTexts left ∧
      c.stream = renderTexts taken ++ (readResponse c).2.stream ∧
      (repliesAmong taken).length ≤ 1 ∧
      ∀ t, (readResponse c).1 = .ok t →
        ∃ events reply, taken = events ++ [reply] ∧ (∀ e ∈ events, evtTag <+: e.1) ∧
          ¬ evtTag <+: reply.1 ∧ reply.1 = t := by
  induction rest with
  | nil =>
    intro c h
    have hstream : c.stream = [] := (List.append_eq_nil_iff.mp h).1
    rcases readline_cases c with ⟨line, c', -, -, hreads, -⟩ | ⟨e, c', hread, -, hreads, -⟩
    · have hlt := hreads.stream_length_lt
      rw [hstream] at hlt
      exact absurd hlt (Nat.not_lt_zero _)
    · rw [readResponse_of_error hread]
      have hsame := hreads.stream
      rw [List.nil_append] at hsame
      exact ⟨[], [], rfl, by rw [← hsame]; exact h, hsame, Nat.zero_le _, fun t ht => by cases ht⟩
  | cons t rest ih =>
    intro c h
    rw [renderTexts_cons] at h
    rcases readline_text h with ⟨c', hread, hreads, htail, -⟩ | ⟨e, c', hread, -, hreads, -⟩
    · rw [readResponse_of_line hread]
      split
      · rename_i htag
        split
        · refine ⟨[t], rest, rfl, htail, by simpa using hreads.stream, ?_, fun t ht => by cases ht⟩
          exact List.length_filter_le _ _
        · rename_i event _
          obtain ⟨taken, left, hrest, hleft, hstream, hone, hok⟩ :=
            ih (c := { c' with pendingEvents := c'.pendingEvents ++ [event] }) htail
          refine ⟨t :: taken, left, by rw [hrest]; rfl, hleft, ?_, ?_, ?_⟩
          · rw [hreads.stream, renderTexts_cons, List.append_assoc, ← hstream]
            rfl
          · rwa [repliesAmong_event htag]
          · intro v hv
            obtain ⟨events, reply, rfl, hevents, hreply⟩ := hok v hv
            refine ⟨t :: events, reply, rfl, ?_, hreply⟩
            intro e he
            rcases List.mem_cons.mp he with rfl | he
            · exact htag
            · exact hevents e he
      · rename_i htag
        refine ⟨[t], rest, rfl, htail, by simpa using hreads.stream, List.length_filter_le _ _, ?_⟩
        intro v hv
        exact ⟨[], t, rfl, fun e he => absurd he List.not_mem_nil, htag, Except.ok.inj hv⟩
    · rw [readResponse_of_error hread]
      have hsame := hreads.stream
      rw [List.nil_append] at hsame
      exact ⟨[], t :: rest, rfl, by rw [← hsame]; exact h, hsame, Nat.zero_le _,
        fun t ht => by cases ht⟩

theorem unwrap_ok {t v : Text} (h : unwrap t = .ok v) : "+OK".toList <+: t := by
  unfold unwrap at h
  split at h
  · assumption
  · split at h <;> cases h

theorem write_prompt {c c' : Conn} {data : Bytes} (h : write data c = (.ok (), c')) :
    c'.prompt = c.prompt := by
  unfold write at h
  split at h
  · cases h
  · rename_i s hsock
    obtain ⟨-, rfl⟩ := Prod.mk.inj h
    simp [Conn.prompt, hsock, Sock.prompt]

/-- What `send` takes off a stream of lines, and when it returns. -/
theorem send_texts {c : Conn} (hopen : c.sock ≠ none) (command : Text) {rest : List LineText}
    {future : Bytes} (h : c.stream ++ future = renderTexts rest) :
    (send command c).2.sock ≠ none ∧
    ∃ taken left, rest = taken ++ left ∧
      (send command c).2.stream ++ future = renderTexts left ∧
      c.stream = renderTexts taken ++ (send command c).2.stream ∧
      (repliesAmong taken).length ≤ 1 ∧
      ∀ v, (send command c).1 = .ok v →
        ∃ events reply, taken = events ++ [reply] ∧ (∀ e ∈ events, evtTag <+: e.1) ∧
          ¬ evtTag <+: reply.1 ∧ unwrap reply.1 = .ok v ∧ firstReply c.prompt = some reply.1 := by
  obtain ⟨c₁, hwrite, hopen₁, -, hstream₁, -⟩ :=
    write_open hopen (Utf8.encode (command ++ ['\n']))
  obtain ⟨taken, left, hrest, hleft, hstream, hone, hok⟩ :=
    readResponse_texts (c := c₁) (by rw [hstream₁]; exact h)
  obtain ⟨d, hreads⟩ := readResponse_reads c₁
  have hopen₂ : (readResponse c₁).2.sock ≠ none := by
    intro hnone
    have hmap := hreads.sockTimeout
    rw [hnone] at hmap
    exact hopen₁ (Option.map_eq_none_iff.mp hmap.symm)
  have hsnd : (send command c).2 = (readResponse c₁).2 := by
    rw [send, hwrite]
    dsimp only
    split <;> rename_i heq <;> rw [heq]
  rw [hsnd]
  refine ⟨hopen₂, taken, left, hrest, hleft, by rw [← hstream₁]; exact hstream, hone, ?_⟩
  intro v hv
  rw [send, hwrite] at hv
  dsimp only at hv
  split at hv
  · cases hv
  · rename_i t c₂ hread
    obtain ⟨events, reply, htaken, hevents, hreply, rfl⟩ := hok t (by rw [hread])
    refine ⟨events, reply, htaken, hevents, hreply, hv, ?_⟩
    rw [← write_prompt hwrite]
    exact readResponse_prompt hread

/-! ### Runs -/

/-- The network of a run: no byte is lost or made up. -/
def Delivers : List Step → Conn → Prop
  | [], _ => True
  | st :: steps, c =>
    st.chunks.flatMap Arrival.bytes = (c.sock.map Sock.unread).getD [] ++ st.fresh ∧
      Delivers steps (st.run c).2

def isReplyLine (raw : Bytes) : Bool :=
  match Utf8.decode? (chomp CR raw) with
  | some t => ¬ evtTag <+: t
  | none => false

/-- The number of reply lines in `b`. -/
def replyCount (b : Bytes) : Nat := (b.splitOn LF).dropLast.countP isReplyLine

/-- The reply lines that a call has taken off the stream. -/
def Step.repliesTaken (st : Step) (c : Conn) : Nat :=
  let stream := (c.deliver st.chunks).stream
  replyCount (stream.take (stream.length - (st.run c).2.stream.length))

/-- Whenever a send has a `+OK` at hand, no reply to a send before it is owed. -/
def CaughtUp : Nat → List Step → Conn → Prop
  | _, [], _ => True
  | owed, st :: steps, c =>
    (∀ t, firstReply (c.deliver st.chunks).prompt = some t → "+OK".toList <+: t → owed = 0) ∧
    CaughtUp (owed + 1 - st.repliesTaken c) steps (st.run c).2

theorem replyCount_renderTexts (lines : List LineText) :
    replyCount (renderTexts lines) = (repliesAmong lines).length := by
  have hsplit : (renderTexts lines).splitOn LF =
      lines.map (fun t => Utf8.encode t.1 ++ [CR]) ++ [[]] := by
    induction lines with
    | nil => rfl
    | cons t lines ih =>
      rw [renderTexts_cons, lineBytes_append,
        List.splitOn_append_cons_self_of_not_mem (lf_not_mem_lineRaw t), ih]
      rfl
  rw [replyCount, hsplit, List.dropLast_concat, List.countP_map, repliesAmong,
    List.countP_eq_length_filter]
  congr 1
  apply List.filter_congr
  intro t _
  simp [isReplyLine]

theorem stream_deliver {c : Conn} (hopen : c.sock ≠ none) {chunks : List Arrival} {fresh : Bytes}
    (h : chunks.flatMap Arrival.bytes = (c.sock.map Sock.unread).getD [] ++ fresh) :
    (c.deliver chunks).sock ≠ none ∧ (c.deliver chunks).stream = c.stream ++ fresh := by
  cases hsock : c.sock with
  | none => exact absurd hsock hopen
  | some s =>
    have hunread : chunks.flatMap Arrival.bytes = s.unread ++ fresh := by simpa [hsock] using h
    refine ⟨by simp [Conn.deliver, hsock], ?_⟩
    simp only [Conn.stream, Conn.deliver, hsock, Option.map_some, Sock.unread]
    rw [hunread, List.append_assoc, Sock.unread]

theorem replyCount_taken {stream left : Bytes} {taken : List LineText}
    (h : stream = renderTexts taken ++ left) :
    replyCount (stream.take (stream.length - left.length)) = (repliesAmong taken).length := by
  rw [h, List.length_append, Nat.add_sub_cancel, List.take_left' rfl, replyCount_renderTexts]

/-- The run from a state in which the lines `done` have been consumed, the replies to the last
`owed` sends not among them. -/
theorem own_replies_from {lines : List LineText} {future : Bytes} :
    ∀ {steps : List Step} {c : Conn} (done rest : List LineText) {owed : Nat},
    c.sock ≠ none → lines = done ++ rest →
    c.stream ++ (arrived steps ++ future) = renderTexts rest →
    (∀ st ∈ steps, ∃ command, '\n' ∉ command ∧ st.call = .send command) →
    Delivers steps c → CaughtUp owed steps c →
    ∀ (i : Nat) (v : Text), (run steps c).1[i]? = some (.response (.ok v)) →
      ∃ reply, (repliesAmong lines)[(repliesAmong done).length + owed + i]? = some reply ∧
        unwrap reply.1 = .ok v := by
  intro steps
  induction steps with
  | nil =>
    intro c done rest owed _ _ _ _ _ _ i v hi
    cases hi
  | cons st steps ih =>
    rintro c done rest owed hopen hlines hfuture hsends ⟨hchunks, hdelivers⟩ ⟨hcaught, hcaughts⟩
      i v hi
    obtain ⟨command, -, hcall⟩ := hsends st List.mem_cons_self
    obtain ⟨hopen', hstream'⟩ := stream_deliver hopen hchunks
    have hstep : st.run c = (.response (send command (c.deliver st.chunks)).1,
        (send command (c.deliver st.chunks)).2) := by
      rw [Step.run, hcall]
      rfl
    have harrived : arrived (st :: steps) = st.fresh ++ arrived steps := rfl
    have hfuture' : (c.deliver st.chunks).stream ++ (arrived steps ++ future) =
        renderTexts rest := by
      rw [hstream', List.append_assoc, ← hfuture, harrived, List.append_assoc]
    obtain ⟨hopen'', taken, left, hrest, hleft, hconsumed, hone, hok⟩ :=
      send_texts hopen' command hfuture'
    cases i with
    | zero =>
      have hv : (send command (c.deliver st.chunks)).1 = .ok v := by
        simpa [run, hstep] using hi
      obtain ⟨events, reply, htaken, hevents, hreply, hunwrap, hprompt⟩ := hok v hv
      have hnone : owed = 0 := hcaught reply.1 hprompt (unwrap_ok hunwrap)
      refine ⟨reply, ?_, hunwrap⟩
      rw [hlines, hrest, htaken, repliesAmong_append, repliesAmong_append, repliesAmong_append,
        repliesAmong_events hevents, repliesAmong_reply hreply, hnone]
      simp
    | succ i =>
      have hi' : (run steps (st.run c).2).1[i]? = some (.response (.ok v)) := by
        simpa [run] using hi
      have htaken : st.repliesTaken c = (repliesAmong taken).length := by
        rw [Step.repliesTaken, hstep]
        exact replyCount_taken hconsumed
      rw [htaken] at hcaughts
      rw [hstep] at hi' hdelivers hcaughts
      obtain ⟨reply, hreply, hunwrap⟩ := ih (done ++ taken) left hopen''
        (by rw [hlines, hrest, List.append_assoc]) hleft
        (fun st' hst' => hsends st' (List.mem_cons_of_mem _ hst')) hdelivers hcaughts i v hi'
      have hindex : (repliesAmong (done ++ taken)).length +
          (owed + 1 - (repliesAmong taken).length) + i =
            (repliesAmong done).length + owed + (i + 1) := by
        rw [repliesAmong_append, List.length_append]
        omega
      rw [hindex] at hreply
      exact ⟨reply, hreply, hunwrap⟩

/-- **No stale reply.** Every send that returns gives the reply to its own command, as long
as no send has a `+OK` at hand while the reply to an earlier one is still to be read. -/
theorem run_own_replies (timeout : Rat) (lines : List LineText) (steps : List Step)
    (future : Bytes) (hsends : ∀ st ∈ steps, ∃ command, '\n' ∉ command ∧ st.call = .send command)
    (hdelivers : Delivers steps (Conn.opened timeout))
    (hfuture : arrived steps ++ future = renderTexts lines)
    (hcaught : CaughtUp 0 steps (Conn.opened timeout)) (i : Nat) (v : Text)
    (hi : (run steps (Conn.opened timeout)).1[i]? = some (.response (.ok v))) :
    ∃ reply, (repliesAmong lines)[i]? = some reply ∧ unwrap reply.1 = .ok v := by
  have hopen : (Conn.opened timeout).sock ≠ none := by simp [Conn.opened, connect]
  have hstream : (Conn.opened timeout).stream = [] := rfl
  have hown := own_replies_from [] lines hopen rfl (by rw [hstream]; exact hfuture) hsends
    hdelivers hcaught i v hi
  rwa [show (repliesAmong []).length + 0 + i = i from Nat.zero_add i] at hown

/-- A reply, then one that comes too late and is an error, then a malformed event. -/
theorem run_own_replies_error :
    let first := Utf8.encode "+OK 1\r\n".toList
    let third := Utf8.encode "-ERR busy\r\n>EVT 0\r\n".toList
    let steps : List Step :=
      [⟨first, [.data ⟨first, by decide⟩], .send "COUNT 0 0".toList⟩,
        ⟨[], [.silence], .send "COUNT 0 1".toList⟩,
        ⟨third, [.data ⟨third, by decide⟩], .send "COUNT 0 0".toList⟩,
        ⟨[], [], .send "PING".toList⟩]
    (run steps (Conn.opened 30)).1[0]? = some (.response (.ok "1".toList)) ∧
      ∃ reply : LineText, reply.1 = "+OK 1".toList ∧ unwrap reply.1 = .ok "1".toList := by
  intro first third steps
  have hfirst : (run steps (Conn.opened 30)).1[0]? = some (.response (.ok "1".toList)) := by
    decide +kernel
  obtain ⟨reply, hreply, hunwrap⟩ := run_own_replies 30
    [⟨"+OK 1".toList, by decide⟩, ⟨"-ERR busy".toList, by decide⟩, ⟨">EVT 0".toList, by decide⟩]
    steps [] (by simp [steps]) (by
      refine ⟨?_, ?_, ?_, ?_, trivial⟩ <;> decide +kernel) (by decide +kernel)
    (by
      refine ⟨fun _ _ _ => rfl, ?_, ?_, ?_, trivial⟩
      · intro t ht
        rw [show firstReply _ = none by decide +kernel] at ht
        cases ht
      · intro t ht hok
        rw [show firstReply _ = some "-ERR busy".toList by decide +kernel] at ht
        obtain rfl := Option.some.inj ht
        exact absurd hok (by decide)
      · intro t ht
        rw [show firstReply _ = none by decide +kernel] at ht
        cases ht)
    0 "1".toList hfirst
  refine ⟨hfirst, reply, ?_, hunwrap⟩
  have hfront : (repliesAmong [⟨"+OK 1".toList, by decide⟩, ⟨"-ERR busy".toList, by decide⟩,
      ⟨">EVT 0".toList, by decide⟩])[0]? = some ⟨"+OK 1".toList, by decide⟩ := by
    decide
  rw [hfront] at hreply
  rw [← Option.some.inj hreply]

/-- A send times out and its reply comes later, or a malformed event is in front of it: the
next send returns it. -/
theorem late_reply_shifts :
    let replies := Utf8.encode "+OK 1\r\n+OK 2\r\n".toList
    let malformed := Utf8.encode ">EVT 0\r\n+OK 1\r\n".toList
    let late : List Step :=
      [⟨[], [.silence], .send "COUNT 0 0".toList⟩,
        ⟨replies, [.data ⟨replies, by decide⟩], .send "COUNT 0 1".toList⟩]
    let behind : List Step :=
      [⟨malformed, [.data ⟨malformed, by decide⟩], .send "COUNT 0 0".toList⟩,
        ⟨[], [], .send "COUNT 0 1".toList⟩]
    ((run late (Conn.opened 30)).1 = [.response (.error .socketTimeout), .response (.ok "1".toList)] ∧
      arrived late = renderTexts [⟨"+OK 1".toList, by decide⟩, ⟨"+OK 2".toList, by decide⟩]) ∧
    ((run behind (Conn.opened 30)).1 =
        [.response (.error (.cuttleDBError (.malformedEvent ">EVT 0".toList))),
          .response (.ok "1".toList)] ∧
      arrived behind = renderTexts [⟨">EVT 0".toList, by decide⟩, ⟨"+OK 1".toList, by decide⟩]) := by
  decide +kernel

end CuttleDB.Py
