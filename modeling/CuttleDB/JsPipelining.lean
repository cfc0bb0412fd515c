import CuttleDB.JsTransport

/-!
# Replies and waiters of the JavaScript transports

Lock step says what a transport owes to its callers, in terms of what has been
written and received. The invariant behind it, for either transport: the waiters
are the owners of the replies still to come, the `out` array of a batch is what has
come of its stretch, and a promise is settled when its own replies are there. It is
kept by every call but an empty batch, and by every line that is dispatched. The
promise of an empty batch stays pending, since no waiter belongs to it.
-/

namespace CuttleDB.Js

open Framing Pipeline

variable {α ω : Type} [DecidableEq α] [Alphabet α]

/-! ### What lock step is -/

/-- The number of replies a call waits for. -/
def Call.size (c : Call α) : Nat := c.commands.length

/-- What a call's promise is to be resolved with, given the replies to its commands. -/
def Call.settlement (c : Call α) (own : List (List α)) : Settlement α :=
  match c with
  | .send _ => .line (own.headD [])
  | .sendBatch _ => .lines own

def Transport.settlementsOf (t : Transport α ω) (p : Nat) : List (Settlement α) :=
  (t.settled.filter fun s => s.1 = p).map Prod.snd

/-- The state of a transport that has written `written` lines, `width` of them for each
call, and has received the lines `received`, when `answers` are all the replies the
server has sent. A waiter waits for each line not yet answered, every event has gone
to the listeners, and a promise has been settled once, with the replies to its own
commands, if all of these are there, and not at all otherwise. -/
structure LockStep (t : Transport α ω) (width : Call α → Nat) (written : Nat)
    (received : List (List α)) (answers : List (List α)) : Prop where
  waiters : t.waiters.length + (received.filter fun l => ¬ evtTag <+: l).length = written
  events : t.events = received.filter fun l => evtTag <+: l
  settled : ∀ i c, t.calls[i]? = some c →
    t.settlementsOf i =
      if ∀ j < c.size, offset (t.calls.map width) i + j <
          (received.filter fun l => ¬ evtTag <+: l).length then
        [c.settlement (share answers (offset (t.calls.map width) i) c.size)]
      else []

/-! ### Calls -/

section Calls

variable (write : Call α → List ω)

omit [DecidableEq α] in
theorem Transport.call_calls (t : Transport α ω) (c : Call α) :
    (t.call write c).calls = t.calls ++ [c] := by
  unfold Transport.call
  dsimp only
  split
  · rfl
  · cases c <;> rfl

omit [DecidableEq α] in
theorem Transport.resolve_calls (w : Waiter) (line : List α) (t : Transport α ω) :
    (t.resolve w line).calls = t.calls := by
  unfold Transport.resolve
  split
  · rfl
  · dsimp only
    split <;> rfl

omit [DecidableEq α] in
theorem Transport.foldl_call_calls (cs : List (Call α)) (t : Transport α ω) :
    (cs.foldl (Transport.call write) t).calls = t.calls ++ cs := by
  induction cs generalizing t with
  | nil => simp
  | cons c cs ih =>
    rw [List.foldl_cons, ih, t.call_calls write]
    simp

theorem Transport.dispatch_calls (react : Nat → List (Call α)) (t : Transport α ω)
    (line : List α) : ∃ cs, (t.dispatch write react line).calls = t.calls ++ cs := by
  unfold Transport.dispatch
  split
  · exact ⟨_, foldl_call_calls write _ _⟩
  · split
    · exact ⟨[], by simp⟩
    · exact ⟨[], by rw [resolve_calls]; simp⟩

end Calls

/-- No call is a batch of no commands. -/
def NoEmptyBatch (t : Transport α ω) : Prop := ∀ c ∈ t.calls, c.commands ≠ []

omit [DecidableEq α] in
theorem NoEmptyBatch.of_append {t t' : Transport α ω} {cs : List (Call α)}
    (h : NoEmptyBatch t') (hcalls : t'.calls = t.calls ++ cs) : NoEmptyBatch t := by
  intro c hc
  apply h
  rw [hcalls]
  exact List.mem_append_left _ hc

/-! ### Matching by position -/

def Call.batch : Call α → Option Nat
  | .send _ => none
  | .sendBatch cmds => some cmds.length

/-- How often and with what `c` is settled when its replies are the stretch from `k`. -/
def Call.settlements (c : Call α) (replies : List (List α)) (k : Nat) : List (Settlement α) :=
  if k + c.size ≤ replies.length then [c.settlement (share replies k c.size)] else []

def Transport.sizes (t : Transport α ω) : List Nat := t.calls.map Call.size

/-- The transport has dispatched the lines `done`. -/
structure Matched (write : Call α → List ω) (t : Transport α ω) (done : List (Line α)) :
    Prop where
  noEmptyBatch : NoEmptyBatch t
  connected : t.connected = true
  sent : t.sent = t.calls.flatMap write
  events : t.events = events done
  outs_length : t.outs.length = t.calls.length
  bound : (replies done).length ≤ t.sizes.sum
  promises : t.waiters.map Waiter.promise = (owners t.sizes).drop (replies done).length
  batches : ∀ w ∈ t.waiters, ∃ c, t.calls[w.promise]? = some c ∧ w.batch = c.batch
  outs : ∀ i cmds, t.calls[i]? = some (.sendBatch cmds) →
    t.outs[i]? = some (share (replies done) (offset t.sizes i) cmds.length)
  known : ∀ s ∈ t.settled, s.1 < t.calls.length
  settled : ∀ i c, t.calls[i]? = some c →
    t.settlementsOf i = c.settlements (replies done) (offset t.sizes i)

section Matched

variable {write : Call α → List ω} {t : Transport α ω} {done : List (Line α)}

omit [DecidableEq α] in
theorem settlementsOf_concat (t : Transport α ω) (p q : Nat) (v : Settlement α) :
    ({ t with settled := t.settled ++ [(q, v)] } : Transport α ω).settlementsOf p =
      t.settlementsOf p ++ if q = p then [v] else [] := by
  unfold Transport.settlementsOf
  by_cases h : q = p <;> simp [List.filter_append, h]

omit [DecidableEq α] in
theorem settlementsOf_eq_nil {t : Transport α ω} {p : Nat} (h : ∀ s ∈ t.settled, s.1 < p) :
    t.settlementsOf p = [] := by
  unfold Transport.settlementsOf
  rw [List.map_eq_nil_iff, List.filter_eq_nil_iff]
  intro s hs
  simpa using Nat.ne_of_lt (h s hs)

omit [DecidableEq α] in
theorem Call.size_pos {c : Call α} (h : c.commands ≠ []) : 0 < c.size :=
  List.length_pos_of_ne_nil h

omit [DecidableEq α] in
/-- A connected transport queues a waiter for each command of a call. -/
theorem Transport.call_spec (write : Call α → List ω) {t : Transport α ω}
    (h : t.connected = true) (c : Call α) :
    let t' := t.call write c
    (t'.connected = true ∧ t'.calls = t.calls ++ [c] ∧ t'.events = t.events ∧
      t'.settled = t.settled) ∧
    t'.outs = t.outs ++ [[]] ∧
    t'.waiters = t.waiters ++ List.replicate c.size ⟨t.calls.length, c.batch⟩ ∧
    t'.sent = t.sent ++ write c := by
  unfold Transport.call
  dsimp only
  rw [if_neg (by simp [h])]
  cases c with
  | send cmd => exact ⟨⟨h, rfl, rfl, rfl⟩, rfl, rfl, rfl⟩
  | sendBatch cmds => exact ⟨⟨h, rfl, rfl, rfl⟩, rfl, rfl, rfl⟩

omit [DecidableEq α] in
/-- A transport that is not connected rejects a call at once. -/
theorem Transport.call_rejected (write : Call α → List ω) {t : Transport α ω}
    (h : t.connected = false) (c : Call α) :
    let t' := t.call write c
    (t'.connected = false ∧ t'.calls = t.calls ++ [c] ∧ t'.events = t.events ∧
      t'.settled = t.settled ++ [(t.calls.length, .rejected .notConnected)]) ∧
    t'.outs = t.outs ++ [[]] ∧ t'.waiters = t.waiters := by
  unfold Transport.call
  dsimp only
  rw [if_pos (by simp [h])]
  exact ⟨⟨h, rfl, rfl, rfl⟩, rfl, rfl⟩

theorem getElem?_concat_cases {β : Type} {xs : List β} {x y : β} {i : Nat}
    (h : (xs ++ [x])[i]? = some y) :
    (i < xs.length ∧ xs[i]? = some y) ∨ (i = xs.length ∧ y = x) := by
  rcases Nat.lt_trichotomy i xs.length with hlt | rfl | hgt
  · rw [List.getElem?_append_left hlt] at h
    exact Or.inl ⟨hlt, h⟩
  · exact Or.inr ⟨rfl, by simpa using h.symm⟩
  · have hlen := (List.getElem?_eq_some_iff.mp h).1
    rw [List.length_append, List.length_singleton] at hlen
    omega

theorem Matched.call (h : Matched write t done) {c : Call α} (hc : c.commands ≠ []) :
    Matched write (t.call write c) done := by
  have hlen : t.sizes.length = t.calls.length := List.length_map _
  obtain ⟨⟨hconnected, hcalls, hevents, hsettled⟩, houts, hwaiters, hsent⟩ :=
    Transport.call_spec write h.connected c
  have hsizes : (t.call write c).sizes = t.sizes ++ [c.size] := by
    simp [Transport.sizes, hcalls]
  have hbefore : ∀ {i : Nat}, i < t.calls.length →
      offset (t.call write c).sizes i = offset t.sizes i := by
    intro i hi
    rw [hsizes, offset_concat (by omega)]
  have hown : offset (t.call write c).sizes t.calls.length = t.sizes.sum := by
    rw [hsizes, ← hlen, offset_concat (Nat.le_refl _), offset_length]
  have hbound := h.bound
  generalize t.call write c = t' at *
  constructor
  · intro d hd
    rw [hcalls] at hd
    rcases List.mem_append.mp hd with hd | hd
    · exact h.noEmptyBatch d hd
    · rwa [List.mem_singleton.mp hd]
  · exact hconnected
  · rw [hsent, hcalls, h.sent, List.flatMap_append, List.flatMap_singleton]
  · rw [hevents, h.events]
  · rw [houts, hcalls, List.length_append, List.length_append, h.outs_length]
    rfl
  · rw [hsizes, List.sum_append]
    exact Nat.le_add_right_of_le hbound
  · rw [hwaiters, hsizes, owners_concat, List.map_append, h.promises,
      List.drop_append_of_le_length (by rwa [length_owners]), List.map_replicate, hlen]
  · intro w hw
    rw [hwaiters] at hw
    rw [hcalls]
    rcases List.mem_append.mp hw with hw | hw
    · obtain ⟨d, hd, hbatch⟩ := h.batches w hw
      have hlt := (List.getElem?_eq_some_iff.mp hd).1
      exact ⟨d, by rw [List.getElem?_append_left hlt, hd], hbatch⟩
    · obtain rfl := List.eq_of_mem_replicate hw
      exact ⟨c, by simp, rfl⟩
  · intro i cmds hi
    rw [hcalls] at hi
    rw [houts]
    rcases getElem?_concat_cases hi with ⟨hlt, hi⟩ | ⟨rfl, -⟩
    · rw [List.getElem?_append_left (h.outs_length ▸ hlt), hbefore hlt]
      exact h.outs i cmds hi
    · rw [hown, share, List.drop_eq_nil_of_le hbound, ← h.outs_length]
      simp
  · intro s hs
    rw [hsettled] at hs
    have hlt := h.known s hs
    rw [hcalls, List.length_append, List.length_singleton]
    omega
  · intro i d hd
    rw [hcalls] at hd
    have hsame : t'.settlementsOf i = t.settlementsOf i := by
      unfold Transport.settlementsOf
      rw [hsettled]
    rw [hsame]
    rcases getElem?_concat_cases hd with ⟨hlt, hd⟩ | ⟨rfl, rfl⟩
    · rw [hbefore hlt]
      exact h.settled i d hd
    · have hpos := Call.size_pos hc
      rw [settlementsOf_eq_nil h.known, hown, Call.settlements, if_neg (by omega)]

theorem Matched.foldl_call {cs : List (Call α)} (hcs : ∀ c ∈ cs, c.commands ≠ []) :
    ∀ {t : Transport α ω}, Matched write t done →
      Matched write (cs.foldl (Transport.call write) t) done := by
  induction cs with
  | nil => exact fun h => h
  | cons c cs ih =>
    intro t h
    rw [List.foldl_cons]
    apply ih (fun d hd => hcs d (List.mem_cons_of_mem _ hd))
    exact h.call (hcs c (by simp))

theorem replies_concat_event {l : Line α} (h : l.IsEvent) :
    replies (done ++ [l]) = replies done := by
  simp [replies, h]

theorem replies_concat_reply {l : Line α} (h : ¬ l.IsEvent) :
    replies (done ++ [l]) = replies done ++ [l.text] := by
  simp [replies, h]

theorem events_concat_event {l : Line α} (h : l.IsEvent) :
    events (done ++ [l]) = events done ++ [l.text] := by
  simp [events, h]

theorem events_concat_reply {l : Line α} (h : ¬ l.IsEvent) :
    events (done ++ [l]) = events done := by
  simp [events, h]

omit [DecidableEq α] in
theorem Call.settlements_of_other {c : Call α} (hpos : 0 < c.size) {replies : List (List α)}
    {k : Nat} (r : List α) (h : k + c.size ≤ replies.length ∨ replies.length < k) :
    c.settlements (replies ++ [r]) k = c.settlements replies k := by
  unfold Call.settlements
  rcases h with hfull | hbefore
  · rw [if_pos hfull, if_pos (by rw [List.length_append]; omega), share_append hfull]
  · have hnot : ¬ k + c.size ≤ (replies ++ [r]).length := by
      rw [List.length_append, List.length_singleton]
      omega
    rw [if_neg hnot, if_neg (by omega)]

omit [DecidableEq α] in
/-- The owner of the next reply, and what its call is settled with. -/
theorem Call.settlements_of_owner {c : Call α} {replies : List (List α)} {k : Nat} (r : List α)
    (hle : k ≤ replies.length) (hlt : replies.length < k + c.size) :
    c.settlements replies k = [] ∧
      c.settlements (replies ++ [r]) k =
        if (share replies k c.size ++ [r]).length = c.size then
          [c.settlement (share replies k c.size ++ [r])]
        else [] := by
  have hlength : (share replies k c.size).length = replies.length - k := by
    rw [share, List.length_take, List.length_drop]
    omega
  unfold Call.settlements
  rw [if_neg (by omega), share_concat_of_mem r hle hlt]
  refine ⟨rfl, ?_⟩
  simp only [List.length_append, List.length_singleton, hlength]
  by_cases hfull : k + c.size ≤ replies.length + 1
  · rw [if_pos hfull, if_pos (by omega)]
  · rw [if_neg hfull, if_neg (by omega)]

omit [DecidableEq α] in
theorem Transport.resolve_spec (w : Waiter) (line : List α) (t : Transport α ω) :
    let t' := t.resolve w line
    t'.connected = t.connected ∧ t'.calls = t.calls ∧ t'.waiters = t.waiters ∧
      t'.events = t.events ∧ t'.sent = t.sent := by
  unfold Transport.resolve
  dsimp only
  split
  · exact ⟨rfl, rfl, rfl, rfl, rfl⟩
  · split <;> exact ⟨rfl, rfl, rfl, rfl, rfl⟩

omit [DecidableEq α] in
/-- What `resolve` does for the owner of a reply, when `out` has the replies before. -/
theorem Transport.resolve_owner {w : Waiter} {t : Transport α ω} {c : Call α}
    {out : List (List α)} (line : List α) (hbatch : w.batch = c.batch)
    (hout : ∀ cmds, c = .sendBatch cmds → t.outs[w.promise]? = some out)
    (hsend : c.size = 1 → out = []) :
    (∀ p, (t.resolve w line).settlementsOf p =
        t.settlementsOf p ++
          if w.promise = p ∧ (out ++ [line]).length = c.size then [c.settlement (out ++ [line])]
          else []) ∧
      (t.resolve w line).outs.length = t.outs.length ∧
      (∀ p, p ≠ w.promise → (t.resolve w line).outs[p]? = t.outs[p]?) ∧
      (∀ cmds, c = .sendBatch cmds → (t.resolve w line).outs[w.promise]? = some (out ++ [line])) ∧
      (∀ s ∈ (t.resolve w line).settled, s ∈ t.settled ∨ s.1 = w.promise) := by
  cases c with
  | send cmd =>
    obtain rfl := hsend rfl
    have hresolve : t.resolve w line =
        { t with settled := t.settled ++ [(w.promise, .line line)] } := by
      rw [Transport.resolve, hbatch]
      rfl
    rw [hresolve]
    refine ⟨fun p => ?_, rfl, fun _ _ => rfl, ?_, ?_⟩
    · rw [settlementsOf_concat]
      simp [Call.size, Call.commands, Call.settlement]
    · intro cmds heq
      cases heq
    · intro s hs
      rcases List.mem_append.mp hs with hs | hs
      · exact Or.inl hs
      · exact Or.inr (by rw [List.mem_singleton.mp hs])
  | sendBatch cmds =>
    have hget := hout cmds rfl
    have hlt : w.promise < t.outs.length := (List.getElem?_eq_some_iff.mp hget).1
    have hresolve : t.resolve w line =
        if (out ++ [line]).length = cmds.length then
          { t with
            outs := t.outs.set w.promise (out ++ [line])
            settled := t.settled ++ [(w.promise, .lines (out ++ [line]))] }
        else { t with outs := t.outs.set w.promise (out ++ [line]) } := by
      rw [Transport.resolve, hbatch]
      dsimp only [Call.batch]
      rw [hget]
      rfl
    rw [hresolve]
    have hsize : (Call.sendBatch cmds).size = cmds.length := rfl
    rw [hsize]
    by_cases hfull : (out ++ [line]).length = cmds.length
    · rw [if_pos hfull]
      refine ⟨fun p => ?_, List.length_set, fun p hp => ?_, fun _ _ => ?_, ?_⟩
      · simp only [hfull, and_true]
        exact settlementsOf_concat { t with outs := t.outs.set w.promise (out ++ [line]) } p
          w.promise _
      · exact List.getElem?_set_ne (Ne.symm hp)
      · exact List.getElem?_set_self hlt
      · intro s hs
        rcases List.mem_append.mp hs with hs | hs
        · exact Or.inl hs
        · exact Or.inr (by rw [List.mem_singleton.mp hs])
    · rw [if_neg hfull]
      refine ⟨fun p => ?_, List.length_set, fun p hp => ?_, fun _ _ => ?_, fun s hs => Or.inl hs⟩
      · rw [if_neg (fun h => hfull h.2), List.append_nil]
        rfl
      · exact List.getElem?_set_ne (Ne.symm hp)
      · exact List.getElem?_set_self hlt

omit [DecidableEq α] in
theorem Transport.getElem?_sizes {t : Transport α ω} {j : Nat} {c : Call α}
    (h : t.calls[j]? = some c) : t.sizes[j]? = some c.size := by
  rw [Transport.sizes, List.getElem?_map, h]
  rfl

/-- The first waiter is the owner of the next reply. -/
theorem Matched.front (h : Matched write t done) (hlt : (replies done).length < t.sizes.sum) :
    ∃ w ws c, t.waiters = w :: ws ∧
      ws.map Waiter.promise = (owners t.sizes).drop ((replies done).length + 1) ∧
      (owners t.sizes)[(replies done).length]? = some w.promise ∧
      t.calls[w.promise]? = some c ∧ w.batch = c.batch ∧
      offset t.sizes w.promise ≤ (replies done).length ∧
      (replies done).length < offset t.sizes w.promise + c.size := by
  have hpromises := h.promises
  have hne : t.waiters ≠ [] := by
    intro hnil
    rw [hnil, List.map_nil, eq_comm, List.drop_eq_nil_iff, length_owners] at hpromises
    omega
  obtain ⟨w, ws, hwaiters⟩ := List.exists_cons_of_ne_nil hne
  rw [hwaiters, List.map_cons] at hpromises
  have howner : (owners t.sizes)[(replies done).length]? = some w.promise := by
    rw [← List.head?_drop, ← hpromises]
    rfl
  obtain ⟨c, hc, hbatch⟩ := h.batches w (by rw [hwaiters]; simp)
  obtain ⟨n, hn, hle, hlt'⟩ := owner_stretch howner
  obtain rfl : n = c.size := Option.some.inj (hn.symm.trans (Transport.getElem?_sizes hc))
  refine ⟨w, ws, c, hwaiters, ?_, howner, hc, hbatch, hle, hlt'⟩
  rw [← List.drop_drop, ← hpromises]
  rfl

/-- **A reply settles what its owner waits for,** and changes nothing for the others. -/
theorem Matched.reply (h : Matched write t done) {l : Line α} (hl : ¬ l.IsEvent)
    (hlt : (replies done).length < t.sizes.sum) :
    ∃ w ws, t.waiters = w :: ws ∧
      Matched write (Transport.resolve w l.text { t with waiters := ws }) (done ++ [l]) := by
  obtain ⟨w, ws, c, hwaiters, hpromises, howner, hc, hbatch, hle, hlt'⟩ := h.front hlt
  refine ⟨w, ws, hwaiters, ?_⟩
  -- the batch's `out` array is what has come of its stretch
  have hout : ∀ cmds, c = .sendBatch cmds → t.outs[w.promise]? =
      some (share (replies done) (offset t.sizes w.promise) c.size) := by
    rintro cmds rfl
    exact h.outs _ cmds hc
  have hsend : c.size = 1 → share (replies done) (offset t.sizes w.promise) c.size = [] := by
    intro hone
    rw [share, List.drop_eq_nil_of_le (by omega), List.take_nil]
  obtain ⟨hconnected, hcalls, hwaiters', hevents, hsent⟩ :=
    Transport.resolve_spec w l.text { t with waiters := ws }
  obtain ⟨hsettled, houtsLen, houtsNe, houts, hknown⟩ :=
    Transport.resolve_owner (t := { t with waiters := ws }) l.text hbatch hout hsend
  have hsizes : (Transport.resolve w l.text { t with waiters := ws }).sizes = t.sizes := by
    rw [Transport.sizes, hcalls, Transport.sizes]
  generalize Transport.resolve w l.text { t with waiters := ws } = t' at *
  have hother : ∀ {j : Nat} {d : Call α}, t.calls[j]? = some d → j ≠ w.promise →
      offset t.sizes j + d.size ≤ (replies done).length ∨
        (replies done).length < offset t.sizes j :=
    fun hd hne => other_stretch howner (Transport.getElem?_sizes hd) hne
  have hpos : ∀ {j : Nat} {d : Call α}, t.calls[j]? = some d → 0 < d.size :=
    fun hd => Call.size_pos (h.noEmptyBatch _ (List.mem_of_getElem? hd))
  constructor
  · intro d hd
    rw [hcalls] at hd
    exact h.noEmptyBatch d hd
  · rw [hconnected]
    exact h.connected
  · rw [hsent, hcalls]
    exact h.sent
  · rw [hevents, events_concat_reply hl]
    exact h.events
  · rw [houtsLen, hcalls]
    exact h.outs_length
  · rw [hsizes, replies_concat_reply hl, List.length_append]
    exact hlt
  · rw [hwaiters', hsizes, replies_concat_reply hl, List.length_append, List.length_singleton]
    exact hpromises
  · intro v hv
    rw [hwaiters'] at hv
    rw [hcalls]
    exact h.batches v (by rw [hwaiters]; exact List.mem_cons_of_mem _ hv)
  · intro j cmds hj
    rw [hcalls] at hj
    rw [hsizes, replies_concat_reply hl]
    by_cases hne : j = w.promise
    · subst hne
      obtain rfl : c = .sendBatch cmds := Option.some.inj (hc.symm.trans hj)
      rw [houts cmds rfl, ← share_concat_of_mem _ hle hlt']
      rfl
    · have hshare : share (replies done ++ [l.text]) (offset t.sizes j) cmds.length =
          share (replies done) (offset t.sizes j) cmds.length :=
        share_concat_of_other _ (hother hj hne)
      rw [houtsNe j hne, hshare]
      exact h.outs j cmds hj
  · intro s hs
    rw [hcalls]
    rcases hknown s hs with hs | hs
    · exact h.known s hs
    · rw [hs]
      exact (List.getElem?_eq_some_iff.mp hc).1
  · intro j d hj
    rw [hcalls] at hj
    rw [hsettled, hsizes, replies_concat_reply hl]
    have hbefore := h.settled j d hj
    by_cases hne : j = w.promise
    · subst hne
      obtain rfl : c = d := Option.some.inj (hc.symm.trans hj)
      obtain ⟨hnone, hnext⟩ := Call.settlements_of_owner l.text hle hlt'
      rw [hnone] at hbefore
      rw [hnext]
      simp only [true_and]
      exact congrArg (· ++ _) hbefore
    · rw [Call.settlements_of_other (hpos hj) _ (hother hj hne), if_neg (fun h => hne h.1.symm),
        List.append_nil]
      exact hbefore

theorem Matched.dispatch (react : Nat → List (Call α)) (h : Matched write t done)
    {l : Line α} (hl : l.IsEvent ∨ (replies done).length < t.sizes.sum)
    (hnone : NoEmptyBatch (t.dispatch write react l.text)) :
    Matched write (t.dispatch write react l.text) (done ++ [l]) := by
  unfold Transport.dispatch at hnone ⊢
  by_cases hevent : evtTag <+: l.text
  · rw [if_pos hevent] at hnone ⊢
    have hqueued : Matched write { t with events := t.events ++ [l.text] } (done ++ [l]) := by
      have hreplies : replies (done ++ [l]) = replies done := replies_concat_event hevent
      constructor
      · exact h.noEmptyBatch
      · exact h.connected
      · exact h.sent
      · rw [events_concat_event hevent, ← h.events]
      · exact h.outs_length
      · exact hreplies ▸ h.bound
      · exact hreplies ▸ h.promises
      · exact h.batches
      · exact hreplies ▸ h.outs
      · exact h.known
      · exact hreplies ▸ h.settled
    apply hqueued.foldl_call
    intro c hc
    apply hnone
    rw [Transport.foldl_call_calls]
    exact List.mem_append_right _ hc
  · rw [if_neg hevent] at hnone ⊢
    obtain ⟨w, ws, hwaiters, hmatched⟩ := h.reply hevent (hl.resolve_left hevent)
    rw [hwaiters]
    exact hmatched

theorem replies_length_mono (done rest : List (Line α)) :
    (replies done).length ≤ (replies (done ++ rest)).length := by
  simp [replies]

omit [DecidableEq α] in
theorem sizes_sum_mono {t t' : Transport α ω} {cs : List (Call α)}
    (h : t'.calls = t.calls ++ cs) : t.sizes.sum ≤ t'.sizes.sum := by
  simp [Transport.sizes, h]

theorem Matched.length_waiters (h : Matched write t done) :
    t.waiters.length + (replies done).length = t.sizes.sum := by
  have hlen := congrArg List.length h.promises
  have hbound := h.bound
  rw [List.length_map, List.length_drop, length_owners] at hlen
  omega

theorem filter_text_not_isEvent (ls : List (Line α)) :
    (ls.map Line.text).filter (fun s => ¬ evtTag <+: s) = replies ls := by
  rw [List.filter_map]
  rfl

theorem filter_text_isEvent (ls : List (Line α)) :
    (ls.map Line.text).filter (fun s => evtTag <+: s) = events ls := by
  rw [List.filter_map]
  rfl

/-- A matched transport is in lock step. -/
theorem Matched.lockStep (h : Matched write t done) {width : Call α → Nat}
    (hwidth : t.calls.map width = t.sizes) (rest : List (Line α)) :
    LockStep t width t.sizes.sum (done.map Line.text) (replies (done ++ rest)) := by
  have hanswers : replies (done ++ rest) = replies done ++ replies rest := by simp [replies]
  constructor
  · rw [filter_text_not_isEvent]
    exact h.length_waiters
  · rw [filter_text_isEvent]
    exact h.events
  · intro i c hc
    have hpos := Call.size_pos (h.noEmptyBatch c (List.mem_of_getElem? hc))
    rw [h.settled i c hc, hwidth, filter_text_not_isEvent, Call.settlements, hanswers]
    by_cases hfull : offset t.sizes i + c.size ≤ (replies done).length
    · rw [if_pos hfull, if_pos (fun j hj => by omega), share_append hfull]
    · rw [if_neg hfull, if_neg]
      intro hall
      have hlast := hall (c.size - 1) (by omega)
      omega

end Matched

/-! ### Rejection -/

omit [DecidableEq α] in
theorem Transport.foldl_reject_spec (err : TransportError) (ws : List Waiter) :
    ∀ t : Transport α ω,
      (ws.foldl (Transport.reject err) t).connected = t.connected ∧
      (ws.foldl (Transport.reject err) t).calls = t.calls ∧
      (ws.foldl (Transport.reject err) t).waiters = t.waiters ∧
      (ws.foldl (Transport.reject err) t).outs = t.outs ∧
      ∀ v ∈ (ws.foldl (Transport.reject err) t).settled,
        v ∈ t.settled ∨ v.1 ∈ ws.map Waiter.promise := by
  induction ws with
  | nil => exact fun t => ⟨rfl, rfl, rfl, rfl, fun v hv => Or.inl hv⟩
  | cons w ws ih =>
    intro t
    obtain ⟨hconnected, hcalls, hwaiters, houts, hsettled⟩ := ih (t.reject err w)
    have hreject : (t.reject err w).connected = t.connected ∧ (t.reject err w).calls = t.calls ∧
        (t.reject err w).waiters = t.waiters ∧ (t.reject err w).outs = t.outs ∧
        ∀ v ∈ (t.reject err w).settled, v ∈ t.settled ∨ v.1 = w.promise := by
      unfold Transport.reject
      split
      · exact ⟨rfl, rfl, rfl, rfl, fun v hv => Or.inl hv⟩
      · refine ⟨rfl, rfl, rfl, rfl, fun v hv => ?_⟩
        rcases List.mem_append.mp hv with hv | hv
        · exact Or.inl hv
        · exact Or.inr (by rw [List.mem_singleton.mp hv])
    obtain ⟨hconnected', hcalls', hwaiters', houts', hsettled'⟩ := hreject
    refine ⟨hconnected.trans hconnected', hcalls.trans hcalls', hwaiters.trans hwaiters',
      houts.trans houts', fun v hv => ?_⟩
    rcases hsettled v hv with hv | hv
    · rcases hsettled' v hv with hv | hv
      · exact Or.inl hv
      · exact Or.inr (by rw [hv, List.map_cons]; exact List.mem_cons_self)
    · exact Or.inr (by rw [List.map_cons]; exact List.mem_cons_of_mem _ hv)

/-! ### Promises that are never settled -/

/-- Only calls with commands have waiters or have been settled. -/
structure Owned (t : Transport α ω) : Prop where
  connected : t.connected = true
  waiters : ∀ w ∈ t.waiters, ∃ c, t.calls[w.promise]? = some c ∧ c.commands ≠ []
  settled : ∀ s ∈ t.settled, ∃ c, t.calls[s.1]? = some c ∧ c.commands ≠ []

section Owned

variable {write : Call α → List ω} {t : Transport α ω}

omit [DecidableEq α] in
theorem Owned.call (h : Owned t) (c : Call α) : Owned (t.call write c) := by
  obtain ⟨⟨hconnected, hcalls, -, hsettled⟩, -, hwaiters, -⟩ :=
    Transport.call_spec write h.connected c
  have hold : ∀ {i : Nat}, (∃ d, t.calls[i]? = some d ∧ d.commands ≠ []) →
      ∃ d, (t.call write c).calls[i]? = some d ∧ d.commands ≠ [] := by
    rintro i ⟨d, hd, hne⟩
    have hlt := (List.getElem?_eq_some_iff.mp hd).1
    exact ⟨d, by rw [hcalls, List.getElem?_append_left hlt, hd], hne⟩
  refine ⟨hconnected, fun w hw => ?_, fun s hs => ?_⟩
  · rw [hwaiters] at hw
    rcases List.mem_append.mp hw with hw | hw
    · exact hold (h.waiters w hw)
    · obtain ⟨hsize, rfl⟩ := List.mem_replicate.mp hw
      refine ⟨c, by simp [hcalls], fun hnil => hsize ?_⟩
      rw [Call.size, hnil, List.length_nil]
  · rw [hsettled] at hs
    exact hold (h.settled s hs)

omit [DecidableEq α] in
theorem Transport.resolve_settled (w : Waiter) (line : List α) (t : Transport α ω) :
    ∀ s ∈ (t.resolve w line).settled, s ∈ t.settled ∨ s.1 = w.promise := by
  unfold Transport.resolve
  dsimp only
  intro s hs
  split at hs
  · rcases List.mem_append.mp hs with hs | hs
    · exact Or.inl hs
    · exact Or.inr (by rw [List.mem_singleton.mp hs])
  · split at hs
    · rcases List.mem_append.mp hs with hs | hs
      · exact Or.inl hs
      · exact Or.inr (by rw [List.mem_singleton.mp hs])
    · exact Or.inl hs

omit [DecidableEq α] in
theorem Owned.resolve {w : Waiter} {ws : List Waiter} (h : Owned t) (hw : t.waiters = w :: ws)
    (line : List α) : Owned (Transport.resolve w line { t with waiters := ws }) := by
  obtain ⟨hconnected, hcalls, hwaiters, -, -⟩ :=
    Transport.resolve_spec w line { t with waiters := ws }
  have howner := h.waiters w (by rw [hw]; simp)
  have hsettled := Transport.resolve_settled w line { t with waiters := ws }
  refine ⟨hconnected.trans h.connected, fun v hv => ?_, fun s hs => ?_⟩
  · rw [hwaiters] at hv
    rw [hcalls]
    exact h.waiters v (by rw [hw]; exact List.mem_cons_of_mem _ hv)
  · rw [hcalls]
    rcases hsettled s hs with hs | hs
    · exact h.settled s hs
    · rw [hs]
      exact howner

omit [DecidableEq α] in
theorem Owned.foldl_call (cs : List (Call α)) :
    ∀ {t : Transport α ω}, Owned t → Owned (cs.foldl (Transport.call write) t) := by
  induction cs with
  | nil => exact fun h => h
  | cons c cs ih => exact fun h => ih (h.call c)

theorem Owned.dispatch (h : Owned t) (react : Nat → List (Call α)) (line : List α) :
    Owned (t.dispatch write react line) := by
  unfold Transport.dispatch
  split
  · apply Owned.foldl_call
    exact ⟨h.connected, h.waiters, h.settled⟩
  · split
    · exact h
    · rename_i w ws hw
      exact h.resolve hw line

/-- The promise of an empty batch stays pending. -/
theorem Owned.noEmptyBatch (h : Owned t) {width : Call α → Nat} {written : Nat}
    {received answers : List (List α)} (hlock : LockStep t width written received answers) :
    NoEmptyBatch t := by
  intro c hc hnil
  obtain ⟨i, hi⟩ := List.mem_iff_getElem?.mp hc
  have hnone : t.settlementsOf i = [] := by
    unfold Transport.settlementsOf
    rw [List.map_eq_nil_iff, List.filter_eq_nil_iff]
    intro s hs
    obtain ⟨d, hd, hne⟩ := h.settled s hs
    simp only [decide_eq_true_eq]
    rintro rfl
    exact hne (by rw [← Option.some.inj (hi.symm.trans hd), hnil])
  have hsize : c.size = 0 := by rw [Call.size, hnil, List.length_nil]
  have hone := hlock.settled i c hi
  rw [hnone, if_pos (fun j hj => absurd hj (by omega))] at hone
  cases hone

end Owned

end CuttleDB.Js
