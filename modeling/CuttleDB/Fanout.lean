import CuttleDB.PyText
import CuttleDB.Transactions

/-!
# Fan-out writes

`write_to_all` and `writeToAll` run a write function against every node and put what
failed into one error. Python invokes it inside a `try ... except Exception`; JavaScript
hands it to `nodes.map`, waits for what the promises come to with `Promise.allSettled`, and
has no `try`: a function that throws before it returns a promise ends the `map`.
-/

namespace CuttleDB

variable {σ τ ν ρ ε o : Type}

/-- What a write function does with a node, in a state of the world. -/
abbrev WriteFn (σ ν o : Type) := ν → σ → o × σ

/-- The outcomes of a write function that is invoked on one node after the other. -/
def WriteFn.outcomes (write : WriteFn σ ν o) : List ν → σ → List o
  | [], _ => []
  | node :: nodes, s => (write node s).1 :: outcomes write nodes (write node s).2

inductive FanOutError (ε : Type) where
  | partialFailure (message : Text)
  | escaped (e : ε) -- what an invocation raised, as it was raised
  | unprintable (e : ε) -- raised by the conversion of `e` to text

/-- A call that has ended, and the nodes that the write function was invoked on. -/
structure FanOut (ν ρ ε : Type) where
  result : Except (FanOutError ε) (List (Option ρ))
  invoked : List ν

/-- `node[{i}]: {e}`. The conversion of an error to text, `str`, may raise. -/
def nodeMessage (str : ε → Option Text) (p : Nat × ε) : Except (FanOutError ε) Text :=
  match str p.2 with
  | some text => .ok ("node[".toList ++ intText p.1 ++ "]: ".toList ++ text)
  | none => .error (.unprintable p.2)

namespace Py

inductive Invocation (ρ : Type) where
  | returned (value : ρ)
  | raised (e : Raised)

/-- The loop of `write_to_all`, from the node with the number `i` on -/
def writeEach (write : WriteFn σ ν (Invocation ρ)) :
    Nat → List ν → σ → List (Option ρ) → List (Nat × Raised) →
      Except Raised (List (Option ρ) × List (Nat × Raised)) × List ν
  | _, [], _, results, errors => (.ok (results, errors), [])
  | i, node :: nodes, s, results, errors =>
    match write node s with
    | (.returned value, s) =>
      let (r, invoked) := writeEach write (i + 1) nodes s (results ++ [some value]) errors
      (r, node :: invoked)
    | (.raised e, s) =>
      if e.isException then
        let (r, invoked) := writeEach write (i + 1) nodes s (results ++ [none]) (errors ++ [(i, e)])
        (r, node :: invoked)
      else (.error e, [node])

def writeToAll (str : Raised → Option Text) (write : WriteFn σ ν (Invocation ρ)) (nodes : List ν)
    (s : σ) : FanOut ν ρ Raised :=
  match writeEach write 0 nodes s [] [] with
  | (.error e, invoked) => ⟨.error (.escaped e), invoked⟩
  | (.ok (results, errors), invoked) =>
    if errors = [] then ⟨.ok results, invoked⟩
    else
      match errors.mapM (nodeMessage str) with
      | .error e => ⟨.error e, invoked⟩
      | .ok msgs =>
        ⟨.error (.partialFailure ("write_to_all partial failure: ".toList ++
          "; ".toList.intercalate msgs)), invoked⟩

end Py

namespace Js

/-- What an invocation does. A promise is given by what it comes to. -/
inductive Invocation (ρ ε : Type) where
  | returned (value : ρ) -- a value, or a promise that is fulfilled
  | rejecting (reason : ε)
  | threw (e : ε)

/-- An element of what `Promise.allSettled` yields -/
inductive Settled (ρ ε : Type) where
  | fulfilled (value : ρ)
  | rejected (reason : ε)

/-- `Promise.allSettled(this.nodes.map(writeFn))` -/
def settleAll (write : WriteFn σ ν (Invocation ρ ε)) :
    List ν → σ → Except ε (List (Settled ρ ε)) × List ν
  | [], _ => (.ok [], [])
  | node :: nodes, s =>
    match write node s with
    | (.threw e, _) => (.error e, [node])
    | (.returned value, s) =>
      let (r, invoked) := settleAll write nodes s
      (r.map (.fulfilled value :: ·), node :: invoked)
    | (.rejecting reason, s) =>
      let (r, invoked) := settleAll write nodes s
      (r.map (.rejected reason :: ·), node :: invoked)

/-- `settled.map`, from the index `i` on: the results and the messages in `errors` -/
def collect (str : ε → Option Text) :
    Nat → List (Settled ρ ε) → Except (FanOutError ε) (List (Option ρ) × List Text)
  | _, [] => .ok ([], [])
  | i, .fulfilled value :: rest => do
    let (results, errors) ← collect str (i + 1) rest
    .ok (some value :: results, errors)
  | i, .rejected reason :: rest => do
    let message ← nodeMessage str (i, reason)
    let (results, errors) ← collect str (i + 1) rest
    .ok (none :: results, message :: errors)

/-- `str` is the text of `reason?.message ?? reason` in a template. -/
def writeToAll (str : ε → Option Text) (write : WriteFn σ ν (Invocation ρ ε)) (nodes : List ν)
    (s : σ) : FanOut ν ρ ε :=
  match settleAll write nodes s with
  | (.error e, invoked) => ⟨.error (.escaped e), invoked⟩
  | (.ok settled, invoked) =>
    match collect str 0 settled with
    | .error e => ⟨.error e, invoked⟩
    | .ok (results, errors) =>
      if errors = [] then ⟨.ok results, invoked⟩
      else
        ⟨.error (.partialFailure ("writeToAll partial failure: ".toList ++
          "; ".toList.intercalate errors)), invoked⟩

end Js

/-! ### What a fan-out is to do -/

/-- The two readings of an outcome: the value that was returned, the error of a failure. -/
structure OutcomeReading (o ρ ε : Type) where
  value? : o → Option ρ
  failure? : o → Option ε

/-- The failures among outcomes, with the numbers of their nodes from `i` on. -/
def OutcomeReading.failures (reading : OutcomeReading o ρ ε) : Nat → List o → List (Nat × ε)
  | _, [] => []
  | i, out :: outs =>
    match reading.failure? out with
    | some e => (i, e) :: reading.failures (i + 1) outs
    | none => reading.failures (i + 1) outs

/-- A call invoked the function once on every node, and raises if and only if one of the
invocations failed: one error that names exactly the nodes that failed. -/
structure FansOut (reading : OutcomeReading o ρ ε) (title : Text) (str : ε → Option Text)
    (nodes : List ν) (outs : List o) (call : FanOut ν ρ ε) : Prop where
  invoked : call.invoked = nodes
  raises : (∃ e, call.result = .error e) ↔ ∃ out ∈ outs, (reading.failure? out).isSome
  names : ∀ e, call.result = .error e → ∃ msgs,
    (reading.failures 0 outs).mapM (nodeMessage str) = .ok msgs ∧
      e = .partialFailure (title ++ "; ".toList.intercalate msgs)
  returns : ∀ values, call.result = .ok values → values = outs.map reading.value?

/-- The call that fans out, as far as the errors have a text -/
def aggregated (reading : OutcomeReading o ρ ε) (title : Text) (str : ε → Option Text)
    (nodes : List ν) (outs : List o) : FanOut ν ρ ε :=
  if reading.failures 0 outs = [] then ⟨.ok (outs.map reading.value?), nodes⟩
  else
    match (reading.failures 0 outs).mapM (nodeMessage str) with
    | .error e => ⟨.error e, nodes⟩
    | .ok msgs => ⟨.error (.partialFailure (title ++ "; ".toList.intercalate msgs)), nodes⟩

/-- Every failure has a text. -/
def Printable (reading : OutcomeReading o ρ ε) (str : ε → Option Text) (outs : List o) : Prop :=
  ∀ out ∈ outs, ∀ e, reading.failure? out = some e → (str e).isSome

theorem OutcomeReading.failures_eq_nil_iff {reading : OutcomeReading o ρ ε} {i : Nat} {outs : List o} :
    reading.failures i outs = [] ↔ ¬ ∃ out ∈ outs, (reading.failure? out).isSome := by
  induction outs generalizing i with
  | nil => simp [failures]
  | cons out outs ih =>
    cases hfailure : reading.failure? out with
    | some e => simp [failures, hfailure]
    | none => simp [failures, hfailure, ih]

theorem printable_iff_failures {reading : OutcomeReading o ρ ε} {str : ε → Option Text} {outs : List o}
    (i : Nat) :
    Printable reading str outs ↔ ∀ p ∈ reading.failures i outs, (str p.2).isSome := by
  induction outs generalizing i with
  | nil => simp [Printable, OutcomeReading.failures]
  | cons out outs ih =>
    have hcons : Printable reading str (out :: outs) ↔
        (∀ e, reading.failure? out = some e → (str e).isSome) ∧ Printable reading str outs :=
      List.forall_mem_cons
    rw [hcons, ih (i + 1)]
    cases hfailure : reading.failure? out with
    | some e => simp [OutcomeReading.failures, hfailure]
    | none => simp [OutcomeReading.failures, hfailure]

/-- All messages can be made if and only if every error has a text. -/
theorem exists_mapM_nodeMessage_iff {str : ε → Option Text} {errors : List (Nat × ε)} :
    (∃ msgs, errors.mapM (nodeMessage str) = .ok msgs) ↔ ∀ p ∈ errors, (str p.2).isSome := by
  induction errors with
  | nil => simp [pure, Except.pure]
  | cons p errors ih =>
    rw [List.forall_mem_cons, ← ih]
    cases hstr : str p.2 with
    | none => simp [List.mapM_cons, nodeMessage, hstr, bind, Except.bind]
    | some text =>
      cases hrest : errors.mapM (nodeMessage str) with
      | error e => simp [List.mapM_cons, nodeMessage, hstr, hrest, bind, Except.bind]
      | ok msgs =>
        simp [List.mapM_cons, nodeMessage, hstr, hrest, bind, Except.bind, pure, Except.pure]

theorem mapM_nodeMessage_eq_nil {str : ε → Option Text} {errors : List (Nat × ε)}
    (h : errors.mapM (nodeMessage str) = .ok []) : errors = [] := by
  cases errors with
  | nil => rfl
  | cons p errors =>
    rw [List.mapM_cons] at h
    cases hfirst : nodeMessage str p with
    | error e => simp [hfirst, bind, Except.bind] at h
    | ok message =>
      cases hrest : errors.mapM (nodeMessage str) <;>
        simp [hfirst, hrest, bind, Except.bind, pure, Except.pure] at h

theorem fansOut_aggregated_iff (reading : OutcomeReading o ρ ε) (title : Text) (str : ε → Option Text)
    (nodes : List ν) (outs : List o) :
    FansOut reading title str nodes outs (aggregated reading title str nodes outs) ↔
      Printable reading str outs := by
  rw [printable_iff_failures 0, ← exists_mapM_nodeMessage_iff]
  by_cases hnil : reading.failures 0 outs = []
  · have hnone := OutcomeReading.failures_eq_nil_iff.mp hnil
    rw [aggregated, if_pos hnil]
    refine iff_of_true ⟨rfl, iff_of_false ?_ hnone, fun e h => ?_, fun values h => ?_⟩
      ⟨[], by rw [hnil]; rfl⟩
    · rintro ⟨e, h⟩
      cases h
    · cases h
    · cases h
      rfl
  · have hsome := not_not.mp (mt OutcomeReading.failures_eq_nil_iff.mpr hnil)
    rw [aggregated, if_neg hnil]
    cases hmsgs : (reading.failures 0 outs).mapM (nodeMessage str) with
    | error e =>
      refine iff_of_false (fun h => ?_) ?_
      · obtain ⟨msgs, hok, -⟩ := h.names e rfl
        rw [hmsgs] at hok
        cases hok
      · rintro ⟨msgs, hok⟩
        cases hok
    | ok msgs =>
      refine iff_of_true ⟨rfl, iff_of_true ⟨_, rfl⟩ hsome, fun e h => ?_, fun values h => ?_⟩
        ⟨msgs, rfl⟩
      · cases h
        exact ⟨msgs, hmsgs, rfl⟩
      · cases h

/-- An error that leaves the call as it was raised names no node. -/
theorem FansOut.not_escaped {reading : OutcomeReading o ρ ε} {title : Text} {str : ε → Option Text}
    {nodes : List ν} {outs : List o} {call : FanOut ν ρ ε}
    (h : FansOut reading title str nodes outs call) (e : ε) : call.result ≠ .error (.escaped e) := by
  intro hescaped
  obtain ⟨msgs, -, heq⟩ := h.names _ hescaped
  cases heq

/-! ### Python -/

namespace Py

def writeReading : OutcomeReading (Invocation ρ) ρ Raised where
  value?
    | .returned value => some value
    | .raised _ => none
  failure?
    | .returned _ => none
    | .raised e => some e

/-- The class that an invocation raises, if it raises, is inside `Exception`. -/
def Caught (outs : List (Invocation ρ)) : Prop := ∀ out ∈ outs, ∀ e, out = .raised e → e.isException

theorem writeEach_caught {write : WriteFn σ ν (Invocation ρ)} {nodes : List ν} {s : σ}
    (h : Caught (write.outcomes nodes s)) (i : Nat) (results : List (Option ρ))
    (errors : List (Nat × Raised)) :
    writeEach write i nodes s results errors =
      (.ok (results ++ (write.outcomes nodes s).map writeReading.value?,
        errors ++ writeReading.failures i (write.outcomes nodes s)), nodes) := by
  induction nodes generalizing i s results errors with
  | nil => simp [writeEach, WriteFn.outcomes, OutcomeReading.failures]
  | cons node nodes ih =>
    obtain ⟨hhead, htail⟩ := List.forall_mem_cons.mp h
    cases hout : write node s with
    | mk out s' =>
      rw [hout] at hhead htail
      cases out with
      | returned value =>
        simp only [writeEach, hout, ih htail, WriteFn.outcomes]
        simp [writeReading, OutcomeReading.failures]
      | raised e =>
        simp only [writeEach, hout, hhead e rfl, if_true, ih htail, WriteFn.outcomes]
        simp [writeReading, OutcomeReading.failures]

theorem writeEach_escapes {write : WriteFn σ ν (Invocation ρ)} {nodes : List ν} {s : σ}
    (h : ¬ Caught (write.outcomes nodes s)) (i : Nat) (results : List (Option ρ))
    (errors : List (Nat × Raised)) :
    ∃ e invoked, writeEach write i nodes s results errors = (.error e, invoked) := by
  induction nodes generalizing i s results errors with
  | nil => exact absurd (by simp [Caught, WriteFn.outcomes]) h
  | cons node nodes ih =>
    have hcons : ¬ ((∀ e, (write node s).1 = .raised e → e.isException) ∧
        Caught (write.outcomes nodes (write node s).2)) :=
      fun hall => h (List.forall_mem_cons.mpr hall)
    cases hout : write node s with
    | mk out s' =>
      rw [hout] at hcons
      cases out with
      | returned value =>
        have hrest : ¬ Caught (write.outcomes nodes s') := by
          refine fun hrest => hcons ⟨fun e he => ?_, hrest⟩
          cases he
        obtain ⟨e, invoked, heq⟩ := ih hrest (i + 1) (results ++ [some value]) errors
        exact ⟨e, node :: invoked, by simp only [writeEach, hout, heq]⟩
      | raised e =>
        by_cases hexception : e.isException
        · have hrest : ¬ Caught (write.outcomes nodes s') := by
            refine fun hrest => hcons ⟨fun e' he => ?_, hrest⟩
            cases he
            exact hexception
          obtain ⟨e', invoked, heq⟩ := ih hrest (i + 1) (results ++ [none]) (errors ++ [(i, e)])
          exact ⟨e', node :: invoked, by simp only [writeEach, hout, hexception, if_true, heq]⟩
        · exact ⟨e, [node], by simp [writeEach, hout, hexception]⟩

theorem writeToAll_fansOut_iff (str : Raised → Option Text) (write : WriteFn σ ν (Invocation ρ))
    (nodes : List ν) (s : σ) :
    FansOut writeReading "write_to_all partial failure: ".toList str nodes (write.outcomes nodes s)
        (writeToAll str write nodes s) ↔
      Caught (write.outcomes nodes s) ∧ Printable writeReading str (write.outcomes nodes s) := by
  by_cases hcaught : Caught (write.outcomes nodes s)
  · have hcall : writeToAll str write nodes s = aggregated writeReading
        "write_to_all partial failure: ".toList str nodes (write.outcomes nodes s) := by
      rw [writeToAll, writeEach_caught hcaught, aggregated]
      simp only [List.nil_append]
      by_cases hnil : writeReading.failures 0 (write.outcomes nodes s) = []
      · rw [if_pos hnil, if_pos hnil]
      · rw [if_neg hnil, if_neg hnil]
        cases (writeReading.failures 0 (write.outcomes nodes s)).mapM (nodeMessage str) <;> rfl
    rw [hcall, fansOut_aggregated_iff, and_iff_right hcaught]
  · obtain ⟨e, invoked, heq⟩ := writeEach_escapes hcaught 0 [] []
    refine iff_of_false (fun h => h.not_escaped e ?_) fun h => hcaught h.1
    rw [writeToAll, heq]

end Py

/-! ### JavaScript -/

namespace Js

def writeReading : OutcomeReading (Invocation ρ ε) ρ ε where
  value?
    | .returned value => some value
    | .rejecting _ => none
    | .threw _ => none
  failure?
    | .returned _ => none
    | .rejecting reason => some reason
    | .threw e => some e

@[simp] theorem failures_returned (i : Nat) (value : ρ) (outs : List (Invocation ρ ε)) :
    writeReading.failures i (.returned value :: outs) = writeReading.failures (i + 1) outs := rfl

@[simp] theorem failures_rejecting (i : Nat) (reason : ε) (outs : List (Invocation ρ ε)) :
    writeReading.failures i (.rejecting reason :: outs) =
      (i, reason) :: writeReading.failures (i + 1) outs := rfl

/-- No invocation throws before it returns. -/
def Returning (outs : List (Invocation ρ ε)) : Prop := ∀ out ∈ outs, ∀ e, out ≠ .threw e

theorem settleAll_returning {write : WriteFn σ ν (Invocation ρ ε)} {nodes : List ν} {s : σ}
    (h : Returning (write.outcomes nodes s)) (str : ε → Option Text) :
    ∃ settled, settleAll write nodes s = (.ok settled, nodes) ∧ ∀ i, collect str i settled =
      ((writeReading.failures i (write.outcomes nodes s)).mapM (nodeMessage str)).map
        fun msgs => ((write.outcomes nodes s).map writeReading.value?, msgs) := by
  induction nodes generalizing s with
  | nil => exact ⟨[], rfl, fun i => rfl⟩
  | cons node nodes ih =>
    obtain ⟨hhead, htail⟩ := List.forall_mem_cons.mp h
    cases hout : write node s with
    | mk out s' =>
      rw [hout] at hhead htail
      obtain ⟨settled, hsettled, hcollect⟩ := ih htail
      cases out with
      | returned value =>
        refine ⟨.fulfilled value :: settled, by simp [settleAll, hout, hsettled, Except.map], ?_⟩
        intro i
        simp only [collect, hcollect, WriteFn.outcomes, hout, failures_returned, List.map_cons]
        cases (writeReading.failures (i + 1) (write.outcomes nodes s')).mapM (nodeMessage str) <;> rfl
      | rejecting reason =>
        refine ⟨.rejected reason :: settled, by simp [settleAll, hout, hsettled, Except.map], ?_⟩
        intro i
        simp only [collect, hcollect, WriteFn.outcomes, hout, failures_rejecting, List.map_cons,
          List.mapM_cons]
        cases nodeMessage str (i, reason) with
        | error e => rfl
        | ok message =>
          cases (writeReading.failures (i + 1) (write.outcomes nodes s')).mapM (nodeMessage str) <;> rfl
      | threw e => exact absurd rfl (hhead e)

theorem settleAll_throws {write : WriteFn σ ν (Invocation ρ ε)} {nodes : List ν} {s : σ}
    (h : ¬ Returning (write.outcomes nodes s)) :
    ∃ e invoked, settleAll write nodes s = (.error e, invoked) := by
  induction nodes generalizing s with
  | nil => exact absurd (by simp [Returning, WriteFn.outcomes]) h
  | cons node nodes ih =>
    have hcons : ¬ ((∀ e, (write node s).1 ≠ .threw e) ∧
        Returning (write.outcomes nodes (write node s).2)) :=
      fun hall => h (List.forall_mem_cons.mpr hall)
    cases hout : write node s with
    | mk out s' =>
      rw [hout] at hcons
      cases out with
      | threw e => exact ⟨e, [node], by simp [settleAll, hout]⟩
      | returned value =>
        obtain ⟨e, invoked, heq⟩ := ih fun hrest => hcons ⟨by simp, hrest⟩
        exact ⟨e, node :: invoked, by simp [settleAll, hout, heq, Except.map]⟩
      | rejecting reason =>
        obtain ⟨e, invoked, heq⟩ := ih fun hrest => hcons ⟨by simp, hrest⟩
        exact ⟨e, node :: invoked, by simp [settleAll, hout, heq, Except.map]⟩

theorem writeToAll_fansOut_iff (str : ε → Option Text) (write : WriteFn σ ν (Invocation ρ ε))
    (nodes : List ν) (s : σ) :
    FansOut writeReading "writeToAll partial failure: ".toList str nodes (write.outcomes nodes s)
        (writeToAll str write nodes s) ↔
      Returning (write.outcomes nodes s) ∧ Printable writeReading str (write.outcomes nodes s) := by
  by_cases hreturning : Returning (write.outcomes nodes s)
  · obtain ⟨settled, hsettled, hcollect⟩ := settleAll_returning hreturning str
    have hcall : writeToAll str write nodes s = aggregated writeReading
        "writeToAll partial failure: ".toList str nodes (write.outcomes nodes s) := by
      rw [writeToAll, hsettled]
      dsimp only
      rw [hcollect 0, aggregated]
      by_cases hnil : writeReading.failures 0 (write.outcomes nodes s) = []
      · rw [if_pos hnil, hnil]
        rfl
      · rw [if_neg hnil]
        cases hmsgs : (writeReading.failures 0 (write.outcomes nodes s)).mapM (nodeMessage str) with
        | error e => rfl
        | ok msgs =>
          have hne : msgs ≠ [] := by
            rintro rfl
            exact hnil (mapM_nodeMessage_eq_nil hmsgs)
          simp only [Except.map, if_neg hne]
    rw [hcall, fansOut_aggregated_iff, and_iff_right hreturning]
  · obtain ⟨e, invoked, heq⟩ := settleAll_throws hreturning
    refine iff_of_false (fun h => h.not_escaped e ?_) fun h => hreturning h.1
    rw [writeToAll, heq]

end Js

/-- **Both fan-outs, for every write function.** -/
theorem fanOut_iff (pyStr : Raised → Option Text) (pyWrite : WriteFn σ ν (Py.Invocation ρ)) (s : σ)
    (jsStr : ε → Option Text) (jsWrite : WriteFn τ ν (Js.Invocation ρ ε)) (t : τ) (nodes : List ν) :
    (FansOut Py.writeReading "write_to_all partial failure: ".toList pyStr nodes
        (pyWrite.outcomes nodes s) (Py.writeToAll pyStr pyWrite nodes s) ↔
      Py.Caught (pyWrite.outcomes nodes s) ∧
        Printable Py.writeReading pyStr (pyWrite.outcomes nodes s)) ∧
    (FansOut Js.writeReading "writeToAll partial failure: ".toList jsStr nodes
        (jsWrite.outcomes nodes t) (Js.writeToAll jsStr jsWrite nodes t) ↔
      Js.Returning (jsWrite.outcomes nodes t) ∧
        Printable Js.writeReading jsStr (jsWrite.outcomes nodes t)) :=
  ⟨Py.writeToAll_fansOut_iff pyStr pyWrite nodes s, Js.writeToAll_fansOut_iff jsStr jsWrite nodes t⟩

/-- A write function that throws on the first of three nodes, at once and not in a promise:
the two others are not written, and no node is named. -/
theorem throwing_write_stops_fanOut :
    let write : WriteFn Unit Nat (Js.Invocation Unit Text) := fun node _ =>
      (if node = 0 then .threw "row is not an array".toList else .returned (), ())
    (Js.writeToAll some write [0, 1, 2] ()).invoked = [0] ∧
      ¬ FansOut Js.writeReading "writeToAll partial failure: ".toList some [0, 1, 2]
        (write.outcomes [0, 1, 2] ()) (Js.writeToAll some write [0, 1, 2] ()) := by
  intro write
  refine ⟨by decide, fun h => ?_⟩
  exact absurd h.invoked (by decide)

end CuttleDB
