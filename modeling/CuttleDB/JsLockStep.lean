import CuttleDB.JsPipelining

/-!
# Lock step of the JavaScript transports

The server answers the command lines one by one and may push events at any time;
what it sends arrives in any pieces on TCP, and in frames of whole lines on a
WebSocket. A run is any sequence of calls, answers, events and arrivals. The
transports stay in lock step in exactly the runs without an empty batch.
-/

namespace CuttleDB.Js

open Framing Pipeline

variable {α : Type} [DecidableEq α] [Alphabet α]

/-! ### The TCP network -/

structure TcpNet (α : Type) [DecidableEq α] [Alphabet α] where
  transport : TcpTransport α
  served : Nat
  lines : List (Line α)
  arrived : List α

inductive TcpMove (α : Type) [DecidableEq α] [Alphabet α] where
  | call (c : Call α)
  | answer (reply : ReplyLine α)
  | push (event : EventLine α)
  | data (n : Nat)

/-- One move. The server reads the next line of what was written, if there is a whole
one; the next `n` units of what it has sent arrive in one chunk. -/
def TcpNet.step (react : Nat → List (Call α)) (net : TcpNet α) : TcpMove α → TcpNet α
  | .call c => { net with transport := net.transport.call c }
  | .answer reply =>
    match cutLine (lit '\n') (net.transport.sent.drop net.served) with
    | none => net
    | some (line, _) =>
      { net with
        served := net.served + line.length + 1
        lines := net.lines ++ [(answerTo line reply).1] }
  | .push event => { net with lines := net.lines ++ [event.1] }
  | .data n =>
    let chunk := ((render net.lines).drop net.arrived.length).take n
    { net with transport := net.transport.onData react chunk, arrived := net.arrived ++ chunk }

def TcpNet.initial : TcpNet α := ⟨⟨⟨true, [], [], [], [], [], []⟩, []⟩, 0, [], []⟩

def TcpNet.run (react : Nat → List (Call α)) (moves : List (TcpMove α)) : TcpNet α :=
  moves.foldl (TcpNet.step react) TcpNet.initial

/-- The complete lines of a text. -/
def completeLines (s : List α) : List (List α) :=
  (s.splitOn (lit '\n')).dropLast.map (chomp (lit '\r'))

def TcpNet.LockStep (net : TcpNet α) : Prop :=
  Js.LockStep net.transport.toTransport (fun c => (tcpWrite c).count (lit '\n'))
    (net.transport.sent.count (lit '\n')) (completeLines net.arrived) (replies net.lines)

/-! ### The WebSocket network -/

structure WsNet (α : Type) [DecidableEq α] [Alphabet α] where
  transport : WsTransport α
  served : Nat
  lines : List (Line α)
  arrived : Nat

inductive WsMove (α : Type) [DecidableEq α] [Alphabet α] where
  | call (c : Call α)
  | answer (reply : ReplyLine α)
  | push (event : EventLine α)
  | frame (n : Nat) (terminated : Bool)

/-- One move. A frame carries the next `n` lines, the last of them with or without its
line feed. -/
def WsNet.step (react : Nat → List (Call α)) (net : WsNet α) : WsMove α → WsNet α
  | .call c => { net with transport := net.transport.call wsWrite c }
  | .answer reply =>
    match net.transport.sent[net.served]? with
    | none => net
    | some command =>
      { net with
        served := net.served + 1
        lines := net.lines ++ [(answerTo command reply).1] }
  | .push event => { net with lines := net.lines ++ [event.1] }
  | .frame n terminated =>
    let ls := (net.lines.drop net.arrived).take n
    let text := if terminated then render ls else (render ls).dropLast
    { net with
      transport := net.transport.onMessage react text
      arrived := net.arrived + ls.length }

def WsNet.initial : WsNet α := ⟨⟨true, [], [], [], [], [], []⟩, 0, [], 0⟩

def WsNet.run (react : Nat → List (Call α)) (moves : List (WsMove α)) : WsNet α :=
  moves.foldl (WsNet.step react) WsNet.initial

def WsNet.LockStep (net : WsNet α) : Prop :=
  Js.LockStep net.transport (fun c => (wsWrite c).length) net.transport.sent.length
    ((net.lines.take net.arrived).map Line.text) (replies net.lines)

/-! ### Lines in a text -/

theorem Line.chomp_raw (l : Line α) : chomp (lit '\r') l.raw = l.text := by
  unfold Line.raw
  split
  · exact chomp_concat _ _
  · rw [List.append_nil, chomp, if_neg l.cr_not_last]

omit [DecidableEq α] in
theorem Line.lf_not_mem_raw (l : Line α) : lit '\n' ∉ l.raw := by
  have hcr : (lit '\n' : α) ≠ lit '\r' := lit_ne (by decide)
  unfold Line.raw
  split <;> simp [l.lf_not_mem, hcr]

omit [DecidableEq α] in
@[simp] theorem render_nil : render ([] : List (Line α)) = [] := rfl

omit [DecidableEq α] in
theorem render_cons (l : Line α) (ls : List (Line α)) :
    render (l :: ls) = l.raw ++ lit '\n' :: render ls := by
  simp [render]

omit [DecidableEq α] in
@[simp] theorem render_append (ls ms : List (Line α)) :
    render (ls ++ ms) = render ls ++ render ms := List.flatMap_append

theorem splitOn_render_append (ls : List (Line α)) (s : List α) :
    (render ls ++ s).splitOn (lit '\n') = ls.map Line.raw ++ s.splitOn (lit '\n') := by
  induction ls with
  | nil => rfl
  | cons l ls ih =>
    rw [render_cons, List.append_assoc, List.cons_append,
      List.splitOn_append_cons_self_of_not_mem l.lf_not_mem_raw, ih]
    rfl

theorem completeLines_render_append (ls : List (Line α)) {buf : List α}
    (hbuf : lit '\n' ∉ buf) : completeLines (render ls ++ buf) = ls.map Line.text := by
  rw [completeLines, splitOn_render_append, List.splitOn_eq_singleton hbuf, List.dropLast_concat,
    List.map_map]
  exact List.map_congr_left fun l _ => l.chomp_raw

/-! ### TCP -/

theorem tcpWrite_count {c : Call α} (h : c.commands ≠ []) :
    (tcpWrite c).count (lit '\n') = c.size := by
  have hcount : ∀ cmd : Command α, cmd.1.count (lit '\n') = 0 :=
    fun cmd => List.count_eq_zero_of_not_mem cmd.2
  cases c with
  | send cmd => simp [tcpWrite, Call.size, Call.commands, hcount]
  | sendBatch cmds =>
    replace h : cmds ≠ [] := h
    have hsize : (Call.sendBatch cmds).size = cmds.length := rfl
    rw [hsize, tcpWrite]
    induction cmds with
    | nil => exact absurd rfl h
    | cons cmd cmds ih =>
      cases cmds with
      | nil => simp [hcount]
      | cons next cmds =>
        have ih := ih (by simp) rfl
        rw [List.map_cons] at ih
        rw [List.map_cons, List.map_cons, List.intercalate_cons_cons, List.append_assoc,
          List.append_assoc, List.count_append, List.count_append, ih, hcount]
        simp
        omega

theorem tcpWrite_widths {t : Transport α α} (h : NoEmptyBatch t) :
    t.calls.map (fun c => (tcpWrite c).count (lit '\n')) = t.sizes :=
  List.map_congr_left fun c hc => tcpWrite_count (h c hc)

theorem TcpTransport.drain_eq (react : Nat → List (Call α)) (t : TcpTransport α) :
    t.drain react =
      match cutLine (lit '\n') t.buf with
      | none => t
      | some (line, rest) =>
        TcpTransport.drain react
          { toTransport := t.toTransport.dispatch tcpWrite react (chomp (lit '\r') line)
            buf := rest } := by
  rw [TcpTransport.drain]
  split <;> rename_i heq <;> rw [heq]

/-- The rule for the loop of `_onData`: what each line keeps, the loop keeps, and it
ends without a complete line in the buffer. -/
theorem TcpTransport.drain_rule {P : TcpTransport α → Prop} (react : Nat → List (Call α))
    (hline : ∀ (t : TcpTransport α) (line rest : List α), P t →
      cutLine (lit '\n') t.buf = some (line, rest) →
      P { toTransport := t.toTransport.dispatch tcpWrite react (chomp (lit '\r') line)
          buf := rest })
    (t : TcpTransport α) (h : P t) : P (t.drain react) ∧ lit '\n' ∉ (t.drain react).buf := by
  induction hn : t.buf.length using Nat.strong_induction_on generalizing t with
  | _ n ih =>
    rw [TcpTransport.drain_eq]
    cases hcut : cutLine (lit '\n') t.buf with
    | none => exact ⟨h, cutLine_eq_none.mp hcut⟩
    | some p =>
      obtain ⟨line, rest⟩ := p
      have hlt : rest.length < n := by
        rw [← hn, (eq_of_cutLine hcut).1, List.length_append, List.length_cons]
        omega
      exact ih rest.length hlt _ (hline t line rest h hcut) rfl

theorem TcpTransport.drain_calls (react : Nat → List (Call α)) (t : TcpTransport α) :
    ∃ cs, (t.drain react).calls = t.calls ++ cs := by
  refine (TcpTransport.drain_rule (P := fun t' => ∃ cs, t'.calls = t.calls ++ cs) react ?_ t
    ⟨[], by simp⟩).1
  rintro t' line rest ⟨cs, hcs⟩ -
  obtain ⟨cs', hcs'⟩ :=
    Transport.dispatch_calls tcpWrite react t'.toTransport (chomp (lit '\r') line)
  exact ⟨cs ++ cs', by rw [hcs', hcs, List.append_assoc]⟩

theorem TcpTransport.drain_owned (react : Nat → List (Call α)) {t : TcpTransport α}
    (h : Owned t.toTransport) : Owned (t.drain react).toTransport :=
  (TcpTransport.drain_rule (P := fun t' => Owned t'.toTransport) react
    (fun _ _ _ h _ => h.dispatch react _) t h).1

/-- The loop dispatches the lines that are complete. -/
theorem TcpTransport.drain_matched (react : Nat → List (Call α)) {t : TcpTransport α}
    {done rest : List (Line α)} {future : List α} (h : Matched tcpWrite t.toTransport done)
    (hstream : t.buf ++ future = render rest)
    (hbound : (replies (done ++ rest)).length ≤ t.sizes.sum)
    (hnone : NoEmptyBatch (t.drain react).toTransport) :
    ∃ taken left, rest = taken ++ left ∧ t.buf = render taken ++ (t.drain react).buf ∧
      lit '\n' ∉ (t.drain react).buf ∧
      Matched tcpWrite (t.drain react).toTransport (done ++ taken) := by
  have hrule := TcpTransport.drain_rule
    (P := fun t' => NoEmptyBatch t'.toTransport → ∃ taken left, rest = taken ++ left ∧
      t.buf = render taken ++ t'.buf ∧ t'.buf ++ future = render left ∧
      (replies (done ++ rest)).length ≤ t'.sizes.sum ∧
      Matched tcpWrite t'.toTransport (done ++ taken)) react ?_ t
    (fun _ => ⟨[], rest, rfl, rfl, hstream, hbound, by rwa [List.append_nil]⟩)
  · obtain ⟨taken, left, hsplit, hbuf, -, -, hmatched⟩ := hrule.1 hnone
    exact ⟨taken, left, hsplit, hbuf, hrule.2, hmatched⟩
  · intro t' line r hbefore hcut hnone'
    obtain ⟨cs, hcs⟩ :=
      Transport.dispatch_calls tcpWrite react t'.toTransport (chomp (lit '\r') line)
    obtain ⟨taken, left, rfl, hbuf, hstream', hbound', hmatched⟩ :=
      hbefore (hnone'.of_append hcs)
    obtain ⟨hline, hlf⟩ := eq_of_cutLine hcut
    cases left with
    | nil =>
      rw [hline] at hstream'
      simp at hstream'
    | cons l left =>
      rw [render_cons] at hstream'
      obtain ⟨rfl, htail⟩ := line_of_prefix hlf l.lf_not_mem_raw hline hstream'
      rw [l.chomp_raw] at hnone' hcs ⊢
      refine ⟨taken ++ [l], left, by simp, ?_, htail, hbound'.trans (sizes_sum_mono hcs), ?_⟩
      · rw [hbuf, hline, render_append, render_cons]
        simp
      · rw [← List.append_assoc]
        apply hmatched.dispatch react ?_ hnone'
        by_cases hevent : l.IsEvent
        · exact Or.inl hevent
        · right
          refine Nat.lt_of_lt_of_le ?_ hbound'
          simp [replies, hevent]

/-- The lines `done` of the server have arrived and been dispatched, of the others at
most a part of the first has arrived; and the server has sent one reply for each line
that it has read. -/
structure TcpNet.Matched (net : TcpNet α) : Prop where
  dispatched : ∃ done rest, net.lines = done ++ rest ∧
    net.arrived = render done ++ net.transport.buf ∧ lit '\n' ∉ net.transport.buf ∧
    Js.Matched tcpWrite net.transport.toTransport done
  arrived : net.arrived <+: render net.lines
  served : net.served ≤ net.transport.sent.length
  answered : (replies net.lines).length =
    (net.transport.sent.take net.served).count (lit '\n')

theorem Matched.sizes_sum {t : Transport α α} {done : List (Line α)}
    (h : Matched tcpWrite t done) : t.sizes.sum = t.sent.count (lit '\n') := by
  rw [h.sent, List.count_flatMap, ← tcpWrite_widths h.noEmptyBatch]
  rfl

theorem TcpNet.step_calls (react : Nat → List (Call α)) (net : TcpNet α) (m : TcpMove α) :
    ∃ cs, (net.step react m).transport.calls = net.transport.calls ++ cs := by
  cases m with
  | call c => exact ⟨[c], Transport.call_calls tcpWrite _ c⟩
  | answer reply =>
    rw [TcpNet.step]
    split <;> exact ⟨[], by simp⟩
  | push event => exact ⟨[], by simp [TcpNet.step]⟩
  | data n => exact TcpTransport.drain_calls react _

theorem replies_concat_reply' (ls : List (Line α)) (reply : ReplyLine α) :
    (replies (ls ++ [reply.1])).length = (replies ls).length + 1 := by
  rw [replies_concat_reply reply.2, List.length_append, List.length_singleton]

theorem replies_concat_event' (ls : List (Line α)) (event : EventLine α) :
    replies (ls ++ [event.1]) = replies ls := replies_concat_event event.2

theorem TcpNet.Matched.step (react : Nat → List (Call α)) {net : TcpNet α} {m : TcpMove α}
    (h : net.Matched) (hnone : NoEmptyBatch (net.step react m).transport.toTransport) :
    (net.step react m).Matched := by
  obtain ⟨done, rest, hlines, harrived, hlf, hmatched⟩ := h.dispatched
  cases m with
  | call c =>
    have hcalls : (net.transport.call c).calls = net.transport.calls ++ [c] :=
      Transport.call_calls tcpWrite _ c
    have hc : c.commands ≠ [] := by
      apply hnone
      rw [TcpNet.step, hcalls]
      simp
    have hsent : (net.transport.call c).sent = net.transport.sent ++ tcpWrite c :=
      (Transport.call_spec tcpWrite hmatched.connected c).2.2.2
    refine ⟨⟨done, rest, hlines, harrived, hlf, hmatched.call hc⟩, h.arrived, ?_, ?_⟩
    · rw [TcpNet.step, hsent, List.length_append]
      exact Nat.le_add_right_of_le h.served
    · rw [TcpNet.step, hsent, List.take_append_of_le_length h.served]
      exact h.answered
  | answer reply =>
    rw [TcpNet.step]
    cases hcut : cutLine (lit '\n') (net.transport.sent.drop net.served) with
    | none => exact h
    | some p =>
      obtain ⟨line, r⟩ := p
      obtain ⟨hsent, hline⟩ := eq_of_cutLine hcut
      have hlen : net.served + line.length + 1 ≤ net.transport.sent.length := by
        have hdrop := congrArg List.length hsent
        simp only [List.length_drop, List.length_append, List.length_cons] at hdrop
        omega
      dsimp only
      refine ⟨⟨done, rest ++ [(answerTo line reply).1], ?_, harrived, hlf, hmatched⟩, ?_, hlen, ?_⟩
      · rw [hlines, List.append_assoc]
      · rw [render_append]
        exact h.arrived.trans (List.prefix_append _ _)
      · have htake : (line ++ lit '\n' :: r).take (line.length + 1) = line ++ [lit '\n'] := by
          rw [List.take_append, List.take_of_length_le (Nat.le_succ _)]
          simp
        rw [replies_concat_reply', h.answered, Nat.add_assoc, List.take_add, hsent, htake,
          List.count_append, List.count_append, List.count_eq_zero_of_not_mem hline]
        simp
  | push event =>
    refine ⟨⟨done, rest ++ [event.1], ?_, harrived, hlf, hmatched⟩, ?_, h.served, ?_⟩
    · rw [TcpNet.step, hlines, List.append_assoc]
    · rw [TcpNet.step, render_append]
      exact h.arrived.trans (List.prefix_append _ _)
    · rw [TcpNet.step, replies_concat_event']
      exact h.answered
  | data n =>
    obtain ⟨coming, hcoming⟩ := h.arrived
    have hdrop : (render net.lines).drop net.arrived.length = coming := by
      rw [← hcoming, List.drop_left]
    rw [TcpNet.step, hdrop] at hnone ⊢
    dsimp only at hnone ⊢
    have hstream : (net.transport.buf ++ coming.take n) ++ coming.drop n = render rest := by
      rw [List.append_assoc, List.take_append_drop]
      rw [harrived, hlines, render_append, List.append_assoc] at hcoming
      exact List.append_cancel_left hcoming
    have hbound : (replies (done ++ rest)).length ≤ net.transport.sizes.sum := by
      rw [← hlines, h.answered, hmatched.sizes_sum]
      exact (List.take_sublist _ _).count_le _
    obtain ⟨taken, left, rfl, hbuf, hlf', hmatched'⟩ :=
      TcpTransport.drain_matched react
        (t := { net.transport with buf := net.transport.buf ++ coming.take n }) hmatched hstream
        hbound hnone
    obtain ⟨cs, hcs⟩ := TcpTransport.drain_calls react
      { net.transport with buf := net.transport.buf ++ coming.take n }
    have hsent : (net.transport.onData react (coming.take n)).sent =
        net.transport.sent ++ cs.flatMap tcpWrite := by
      rw [TcpTransport.onData, hmatched'.sent, hcs, List.flatMap_append, ← hmatched.sent]
    refine ⟨⟨done ++ taken, left, ?_, ?_, hlf', hmatched'⟩, ?_, ?_, ?_⟩
    · rw [hlines, List.append_assoc]
    · rw [harrived, List.append_assoc]
      dsimp only at hbuf
      rw [hbuf, render_append, List.append_assoc]
      rfl
    · rw [← hcoming, List.prefix_append_right_inj]
      exact List.take_prefix n coming
    · rw [hsent, List.length_append]
      exact Nat.le_add_right_of_le h.served
    · rw [hsent, List.take_append_of_le_length h.served]
      exact h.answered

theorem TcpNet.run_concat (react : Nat → List (Call α)) (moves : List (TcpMove α))
    (m : TcpMove α) :
    TcpNet.run react (moves ++ [m]) = (TcpNet.run react moves).step react m := by
  simp [TcpNet.run]

theorem TcpNet.run_matched (react : Nat → List (Call α)) (moves : List (TcpMove α))
    (hnone : NoEmptyBatch (TcpNet.run react moves).transport.toTransport) :
    (TcpNet.run react moves).Matched := by
  induction moves using List.reverseRecOn with
  | nil =>
    refine ⟨⟨[], [], rfl, rfl, by simp [TcpNet.run, TcpNet.initial], ?_⟩, List.nil_prefix,
      Nat.le_refl _, rfl⟩
    constructor <;>
      simp [TcpNet.run, TcpNet.initial, NoEmptyBatch, Transport.sizes, events, replies]
  | append_singleton moves m ih =>
    rw [TcpNet.run_concat] at hnone ⊢
    obtain ⟨cs, hcs⟩ := TcpNet.step_calls react (TcpNet.run react moves) m
    exact (ih (hnone.of_append hcs)).step react hnone

theorem TcpNet.run_owned (react : Nat → List (Call α)) (moves : List (TcpMove α)) :
    Owned (TcpNet.run react moves).transport.toTransport := by
  induction moves using List.reverseRecOn with
  | nil => constructor <;> simp [TcpNet.run, TcpNet.initial]
  | append_singleton moves m ih =>
    rw [TcpNet.run_concat]
    generalize TcpNet.run react moves = net at ih ⊢
    cases m with
    | call c => exact ih.call c
    | answer reply =>
      rw [TcpNet.step]
      split <;> exact ih
    | push event => exact ih
    | data n => exact TcpTransport.drain_owned react ih

theorem TcpNet.run_lockStep_iff (react : Nat → List (Call α)) (moves : List (TcpMove α)) :
    (TcpNet.run react moves).LockStep ↔
      NoEmptyBatch (TcpNet.run react moves).transport.toTransport := by
  constructor
  · exact (TcpNet.run_owned react moves).noEmptyBatch
  · intro hnone
    have hnet := TcpNet.run_matched react moves hnone
    generalize TcpNet.run react moves = net at hnone hnet ⊢
    obtain ⟨done, rest, hlines, harrived, hlf, hmatched⟩ := hnet.dispatched
    have hlock := hmatched.lockStep (tcpWrite_widths hnone) rest
    rw [TcpNet.LockStep, harrived, completeLines_render_append done hlf, hlines,
      ← hmatched.sizes_sum]
    exact hlock

/-! ### WebSocket -/

theorem splitOn_render_dropLast {ls : List (Line α)} (h : ls ≠ []) :
    ((render ls).dropLast).splitOn (lit '\n') = ls.map Line.raw := by
  obtain ⟨init, l, rfl⟩ : ∃ init l, ls = init ++ [l] :=
    ⟨ls.dropLast, ls.getLast h, (List.dropLast_append_getLast h).symm⟩
  have hrender : render (init ++ [l]) = (render init ++ l.raw) ++ [lit '\n'] := by
    rw [render_append, render_cons, render_nil, List.append_assoc]
  rw [hrender, List.dropLast_concat, splitOn_render_append,
    List.splitOn_eq_singleton l.lf_not_mem_raw, List.map_append]
  rfl

theorem foldl_onMessage_raw (react : Nat → List (Call α)) (ls : List (Line α)) :
    ∀ t : WsTransport α,
      (ls.map Line.raw).foldl (fun t raw =>
        let line := chomp (lit '\r') raw
        if line = [] then t else t.dispatch wsWrite react line) t =
      ls.foldl (fun t l => t.dispatch wsWrite react l.text) t := by
  induction ls with
  | nil => exact fun t => rfl
  | cons l ls ih =>
    intro t
    rw [List.map_cons, List.foldl_cons, List.foldl_cons, ← ih, l.chomp_raw]
    dsimp only
    rw [if_neg l.ne_nil]

/-- A frame of whole lines is dispatched line by line. -/
theorem WsTransport.onMessage_render (react : Nat → List (Call α)) (ls : List (Line α))
    (terminated : Bool) (t : WsTransport α) :
    t.onMessage react (if terminated then render ls else (render ls).dropLast) =
      ls.foldl (fun t l => t.dispatch wsWrite react l.text) t := by
  have hskip : ∀ t : WsTransport α, ([[]] : List (List α)).foldl (fun t raw =>
      let line := chomp (lit '\r') raw
      if line = [] then t else t.dispatch wsWrite react line) t = t := by
    intro t
    simp [chomp]
  unfold WsTransport.onMessage
  cases terminated with
  | true =>
    have hsplit : (render ls).splitOn (lit '\n') = ls.map Line.raw ++ [[]] := by
      have hnil := splitOn_render_append ls []
      rwa [List.append_nil] at hnil
    rw [if_pos rfl, hsplit, List.foldl_append, foldl_onMessage_raw, hskip]
  | false =>
    rw [if_neg (by simp)]
    by_cases hls : ls = []
    · subst hls
      exact hskip t
    · rw [splitOn_render_dropLast hls, foldl_onMessage_raw]

theorem foldl_dispatch_calls (react : Nat → List (Call α)) (ls : List (Line α)) :
    ∀ t : WsTransport α,
      ∃ cs, (ls.foldl (fun t l => t.dispatch wsWrite react l.text) t).calls = t.calls ++ cs := by
  induction ls with
  | nil => exact fun t => ⟨[], by simp⟩
  | cons l ls ih =>
    intro t
    obtain ⟨cs, hcs⟩ := Transport.dispatch_calls wsWrite react t l.text
    obtain ⟨cs', hcs'⟩ := ih (t.dispatch wsWrite react l.text)
    exact ⟨cs ++ cs', by rw [List.foldl_cons, hcs', hcs, List.append_assoc]⟩

theorem foldl_dispatch_owned (react : Nat → List (Call α)) (ls : List (Line α)) :
    ∀ {t : WsTransport α}, Owned t →
      Owned (ls.foldl (fun t l => t.dispatch wsWrite react l.text) t) := by
  induction ls with
  | nil => exact fun h => h
  | cons l ls ih => exact fun h => ih (h.dispatch react l.text)

theorem foldl_dispatch_matched (react : Nat → List (Call α)) (ls : List (Line α)) :
    ∀ {t : WsTransport α} {done : List (Line α)}, Matched wsWrite t done →
      (replies (done ++ ls)).length ≤ t.sizes.sum →
      NoEmptyBatch (ls.foldl (fun t l => t.dispatch wsWrite react l.text) t) →
      Matched wsWrite (ls.foldl (fun t l => t.dispatch wsWrite react l.text) t) (done ++ ls) := by
  induction ls with
  | nil =>
    intro t done h _ _
    rwa [List.append_nil]
  | cons l ls ih =>
    intro t done h hbound hnone
    obtain ⟨cs, hcs⟩ := Transport.dispatch_calls wsWrite react t l.text
    obtain ⟨cs', hcs'⟩ := foldl_dispatch_calls react ls (t.dispatch wsWrite react l.text)
    rw [List.foldl_cons] at hnone ⊢
    have hnext : Matched wsWrite (t.dispatch wsWrite react l.text) (done ++ [l]) := by
      apply h.dispatch react ?_ (hnone.of_append hcs')
      by_cases hevent : l.IsEvent
      · exact Or.inl hevent
      · right
        refine Nat.lt_of_lt_of_le ?_ hbound
        simp [replies, hevent]
    rw [List.append_cons] at hbound ⊢
    exact ih hnext (hbound.trans (sizes_sum_mono hcs)) hnone

/-- The lines in the frames that have come are dispatched; and the server has sent one
reply for each command it has read. -/
structure WsNet.Matched (net : WsNet α) : Prop where
  dispatched : Js.Matched wsWrite net.transport (net.lines.take net.arrived)
  arrived : net.arrived ≤ net.lines.length
  served : net.served ≤ net.transport.sent.length
  answered : (replies net.lines).length = net.served

omit [DecidableEq α] in
theorem wsWrite_length (c : Call α) : (wsWrite c).length = c.size := by
  cases c with
  | send cmd => rfl
  | sendBatch cmds => exact List.length_map _

theorem Matched.sizes_sum_ws {t : WsTransport α} {done : List (Line α)}
    (h : Js.Matched wsWrite t done) : t.sizes.sum = t.sent.length := by
  rw [h.sent, List.length_flatMap, Transport.sizes]
  exact congrArg List.sum (List.map_congr_left fun c _ => (wsWrite_length c).symm)

theorem WsNet.step_calls (react : Nat → List (Call α)) (net : WsNet α) (m : WsMove α) :
    ∃ cs, (net.step react m).transport.calls = net.transport.calls ++ cs := by
  cases m with
  | call c => exact ⟨[c], Transport.call_calls wsWrite _ c⟩
  | answer reply =>
    rw [WsNet.step]
    split <;> exact ⟨[], by simp⟩
  | push event => exact ⟨[], by simp [WsNet.step]⟩
  | frame n terminated =>
    rw [WsNet.step]
    dsimp only
    rw [WsTransport.onMessage_render]
    exact foldl_dispatch_calls react _ _

theorem WsNet.Matched.step (react : Nat → List (Call α)) {net : WsNet α} {m : WsMove α}
    (h : net.Matched) (hnone : NoEmptyBatch (net.step react m).transport) :
    (net.step react m).Matched := by
  cases m with
  | call c =>
    have hc : c.commands ≠ [] := by
      apply hnone
      rw [WsNet.step, Transport.call_calls]
      simp
    have hsent : (net.transport.call wsWrite c).sent = net.transport.sent ++ wsWrite c :=
      (Transport.call_spec wsWrite h.dispatched.connected c).2.2.2
    refine ⟨h.dispatched.call hc, h.arrived, ?_, h.answered⟩
    rw [WsNet.step, hsent, List.length_append]
    exact Nat.le_add_right_of_le h.served
  | answer reply =>
    rw [WsNet.step]
    cases hnext : net.transport.sent[net.served]? with
    | none => exact h
    | some command =>
      have hlt := (List.getElem?_eq_some_iff.mp hnext).1
      refine ⟨?_, ?_, hlt, ?_⟩
      · dsimp only
        rw [List.take_append_of_le_length h.arrived]
        exact h.dispatched
      · rw [List.length_append]
        exact Nat.le_add_right_of_le h.arrived
      · rw [replies_concat_reply', h.answered]
  | push event =>
    refine ⟨?_, ?_, h.served, ?_⟩
    · rw [WsNet.step]
      dsimp only
      rw [List.take_append_of_le_length h.arrived]
      exact h.dispatched
    · rw [WsNet.step, List.length_append]
      exact Nat.le_add_right_of_le h.arrived
    · rw [WsNet.step, replies_concat_event']
      exact h.answered
  | frame n terminated =>
    rw [WsNet.step] at hnone ⊢
    dsimp only at hnone ⊢
    rw [WsTransport.onMessage_render] at hnone ⊢
    have hls : (net.lines.drop net.arrived).take n = (net.lines.drop net.arrived).take
        ((net.lines.drop net.arrived).take n).length :=
      List.prefix_iff_eq_take.mp (List.take_prefix _ _)
    have htake : net.lines.take (net.arrived + ((net.lines.drop net.arrived).take n).length) =
        net.lines.take net.arrived ++ (net.lines.drop net.arrived).take n := by
      rw [List.take_add, ← hls]
    have hbound : (replies (net.lines.take net.arrived ++
        (net.lines.drop net.arrived).take n)).length ≤ net.transport.sizes.sum := by
      rw [← htake, h.dispatched.sizes_sum_ws]
      refine Nat.le_trans ?_ h.served
      rw [← h.answered]
      conv_rhs => rw [← List.take_append_drop
        (net.arrived + ((net.lines.drop net.arrived).take n).length) net.lines]
      exact replies_length_mono _ _
    have hmatched := foldl_dispatch_matched react _ h.dispatched hbound hnone
    obtain ⟨cs, hcs⟩ := foldl_dispatch_calls react ((net.lines.drop net.arrived).take n)
      net.transport
    refine ⟨?_, ?_, ?_, h.answered⟩
    · dsimp only
      rw [htake]
      exact hmatched
    · have harrived := h.arrived
      simp only [List.length_take, List.length_drop]
      omega
    · dsimp only
      rw [hmatched.sent, hcs, List.flatMap_append, ← h.dispatched.sent, List.length_append]
      exact Nat.le_add_right_of_le h.served

theorem WsNet.run_concat (react : Nat → List (Call α)) (moves : List (WsMove α)) (m : WsMove α) :
    WsNet.run react (moves ++ [m]) = (WsNet.run react moves).step react m := by
  simp [WsNet.run]

theorem WsNet.run_matched (react : Nat → List (Call α)) (moves : List (WsMove α))
    (hnone : NoEmptyBatch (WsNet.run react moves).transport) :
    (WsNet.run react moves).Matched := by
  induction moves using List.reverseRecOn with
  | nil =>
    refine ⟨?_, Nat.le_refl _, Nat.le_refl _, rfl⟩
    constructor <;> simp [WsNet.run, WsNet.initial, NoEmptyBatch, Transport.sizes, events, replies]
  | append_singleton moves m ih =>
    rw [WsNet.run_concat] at hnone ⊢
    obtain ⟨cs, hcs⟩ := WsNet.step_calls react (WsNet.run react moves) m
    exact (ih (hnone.of_append hcs)).step react hnone

theorem WsNet.run_owned (react : Nat → List (Call α)) (moves : List (WsMove α)) :
    Owned (WsNet.run react moves).transport := by
  induction moves using List.reverseRecOn with
  | nil => constructor <;> simp [WsNet.run, WsNet.initial]
  | append_singleton moves m ih =>
    rw [WsNet.run_concat]
    generalize WsNet.run react moves = net at ih ⊢
    cases m with
    | call c => exact ih.call c
    | answer reply =>
      rw [WsNet.step]
      split <;> exact ih
    | push event => exact ih
    | frame n terminated =>
      rw [WsNet.step]
      dsimp only
      rw [WsTransport.onMessage_render]
      exact foldl_dispatch_owned react _ ih

theorem WsNet.run_lockStep_iff (react : Nat → List (Call α)) (moves : List (WsMove α)) :
    (WsNet.run react moves).LockStep ↔ NoEmptyBatch (WsNet.run react moves).transport := by
  constructor
  · exact (WsNet.run_owned react moves).noEmptyBatch
  · intro hnone
    have hnet := WsNet.run_matched react moves hnone
    generalize WsNet.run react moves = net at hnone hnet ⊢
    have hwidths : net.transport.calls.map (fun c => (wsWrite c).length) = net.transport.sizes :=
      List.map_congr_left fun c _ => wsWrite_length c
    have hlock := hnet.dispatched.lockStep hwidths (net.lines.drop net.arrived)
    rw [List.take_append_drop, hnet.dispatched.sizes_sum_ws] at hlock
    exact hlock

/-- **Lock step.** Whatever the listeners do on events, a run of either transport is in
lock step if and only if no batch without commands has been sent. -/
theorem run_lockStep (react : Nat → List (Call α)) :
    (∀ moves : List (TcpMove α), (TcpNet.run react moves).LockStep ↔
      NoEmptyBatch (TcpNet.run react moves).transport.toTransport) ∧
    (∀ moves : List (WsMove α), (WsNet.run react moves).LockStep ↔
      NoEmptyBatch (WsNet.run react moves).transport) :=
  ⟨TcpNet.run_lockStep_iff react, WsNet.run_lockStep_iff react⟩

def text (s : String) : List UInt16 := s.toList.map lit

/-- An empty batch on TCP writes an empty line. The server answers it, and the answer
goes to the next command; the batch itself is never settled, nor is it on a WebSocket. -/
theorem emptyBatch_shifts_replies :
    let pong : ReplyLine UInt16 :=
      ⟨⟨text "+OK PONG", true, by decide, by decide, by decide⟩, by decide⟩
    let tcp := TcpNet.run (fun _ => []) [.call (.sendBatch []),
      .call (.send ⟨text "PING", by decide⟩), .answer pong, .answer pong, .data 100]
    let ws := WsNet.run (fun _ => []) [.call (.sendBatch ([] : List (Command UInt16)))]
    (tcp.transport.settled = [(1, .line (text "-ERR empty"))] ∧ ¬ tcp.LockStep) ∧
      (ws.transport.settled = [] ∧ ¬ ws.LockStep) := by
  intro pong tcp ws
  have htcp : Call.sendBatch [] ∈ tcp.transport.calls := by decide +kernel
  have hws : Call.sendBatch [] ∈ ws.transport.calls := by decide +kernel
  refine ⟨⟨by decide +kernel, fun hlock => ?_⟩, by decide +kernel, fun hlock => ?_⟩
  · exact (TcpNet.run_owned _ _).noEmptyBatch hlock _ htcp rfl
  · exact (WsNet.run_owned _ _).noEmptyBatch hlock _ hws rfl

end CuttleDB.Js
