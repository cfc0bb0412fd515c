import CuttleDB.PyText
import Mathlib.Data.List.Nodup

/-!
# The JavaScript cluster and its sockets

`Cluster.connect` makes one `CuttleDB` object for each of its options, puts the list of them
in place of `nodes`, and awaits all their connections at once; then it looks for the primary
among the options, and makes one more object where none of them has its endpoint. Between
two awaits anything may happen: other calls of `connect` and of `close`, and what the network
does with every object. `close` ends the sockets of the objects that the cluster still knows,
and only the sockets that are there already: an object that is still dialing gets its socket
afterwards. The file says for all runs which objects the cluster knows, what a call that
returned has got connected, and which runs leave a socket behind that no call ever ends.
-/

namespace CuttleDB

namespace JsCluster

/-! ### Objects -/

/-- The options of one node, and what the two factories spread over them. -/
structure Options where
  transport : Option Text
  host : Option Text
  port : Option Int
  url : Option Text
  auth : Option Text
deriving DecidableEq, Repr

/-- `sameEndpoint` -/
def sameEndpoint (a b : Options) : Bool :=
  if a.transport ≠ b.transport then false
  else if a.transport = some "tcp".toList then decide (a.host = b.host ∧ a.port = b.port)
  else if a.transport = some "ws".toList then decide (a.url = b.url)
  else false

inductive ConnectError (ε : Type) where
  | error (message : Text)
  | network (e : ε) -- what `connect` of an object rejects with
deriving DecidableEq, Repr

/-- The promise of an object's `connect`. -/
inductive Pledge where
  | pending
  | fulfilled
  | rejected
deriving DecidableEq, Repr

/-- What has become of an object since its `connect` was called. -/
inductive Phase where
  | dialing -- there is no `socket` yet
  | up (connected : Pledge)
  | gone (connected : Pledge) -- refused, lost or ended
deriving DecidableEq, Repr

namespace Phase

def connected : Phase → Pledge
  | dialing => .pending
  | up connected => connected
  | gone connected => connected

/-- The connection is there, or may still come to be. -/
def live : Phase → Bool
  | dialing => true
  | up _ => true
  | gone _ => false

/-- The socket is there. The object is connected, or it sends its token. -/
def reached (authenticates : Bool) : Phase → Phase
  | dialing => up (if authenticates then .pending else .fulfilled)
  | phase => phase

/-- The socket has gone: the peer has closed it, or `close` has ended it. -/
def ended : Phase → Phase
  | up connected => gone connected
  | phase => phase

/-- There was a socket, and `AUTH` is not replied to. -/
def waits : Phase → Bool
  | up .pending => true
  | gone .pending => true
  | _ => false

def replied (connected : Pledge) : Phase → Phase
  | up _ => up connected
  | gone _ => gone connected
  | dialing => dialing

end Phase

/-- A `CuttleDB` object whose `connect` has been called. -/
structure Client where
  opts : Options
  phase : Phase
deriving DecidableEq, Repr

/-- `opts.transport || "tcp"` -/
def Options.kind (opts : Options) : Text :=
  match opts.transport with
  | none | some [] => "tcp".toList
  | some transport => transport

/-- `opts.auth || null` is not null. -/
def Options.authenticates (opts : Options) : Bool :=
  match opts.auth with
  | none | some [] => false
  | some _ => true

/-- `new CuttleDB(opts)`, and the start of its `connect` -/
def newClient {ε : Type} (opts : Options) : Except (ConnectError ε) Client :=
  if opts.kind = "tcp".toList then .ok ⟨opts, .dialing⟩
  else if opts.kind = "ws".toList then
    match opts.url with
    | none | some [] => .error (.error "WsTransport: pass url (e.g. ws://host:7780)".toList)
    | some _ => .ok ⟨opts, .dialing⟩
  else .error (.error ("unknown transport: ".toList ++ opts.kind))

def Client.reached (o : Client) : Client :=
  { o with phase := o.phase.reached o.opts.authenticates }

/-- `close`, which does nothing without a `socket`, and what is left when the peer has closed -/
def Client.ended (o : Client) : Client := { o with phase := o.phase.ended }

/-! ### The cluster -/

/-- A call of `connect`, with the objects that it has made. -/
inductive Attempt (ε : Type) where
  | awaitingNodes (own : List Nat)
  | awaitingPrimary (own : List Nat) (primary : Nat)
  | returned (own : List Nat)
  | thrown (e : ConnectError ε)
deriving DecidableEq, Repr

/-- A `Cluster`, with all objects that it has made, by their numbers. -/
structure Cluster (ε : Type) where
  nodeOpts : List Options
  primaryOpts : Option Options
  nodes : List Nat
  /-- `_primary`, where it is neither `null` nor `undefined` -/
  designated : Option Nat
  clients : List Client
  /-- the objects whose `connect` was rejected, in the order of time -/
  rejections : List (Nat × ε)
  attempts : List (Attempt ε)
deriving DecidableEq, Repr

namespace Cluster

variable {ε : Type}

/-- `constructor` -/
def create (opts : List Options) (primaryOpts : Option Options) :
    Except (ConnectError ε) (Cluster ε) :=
  if opts = [] then .error (.error "Cluster requires at least one node".toList)
  else .ok ⟨opts, primaryOpts, [], none, [], [], []⟩

/-- `({ auth, ...o })` -/
def withAuth (auth : Option Text) (o : Options) : Options := { o with auth := o.auth.or auth }

/-- The cluster of `withPrimaryAndReplicas`, before its `connect`. -/
def withPrimaryAndReplicas (primary : Options) (replicas : List Options) (auth : Option Text) :
    Except (ConnectError ε) (Cluster ε) :=
  create ((primary :: replicas).map (withAuth auth)) (some (withAuth auth primary))

/-- The cluster of `sharded`, before its `connect`. -/
def sharded (shards : List Options) (auth : Option Text) :
    Except (ConnectError ε) (Cluster ε) :=
  create (shards.map (withAuth auth)) none

/-- `connect` up to its first `await` -/
def connect (c : Cluster ε) : Cluster ε :=
  match c.nodeOpts.mapM newClient with
  | .error e => { c with attempts := c.attempts ++ [.thrown e] }
  | .ok objects =>
    let own := List.range' c.clients.length objects.length
    { c with
      nodes := own
      clients := c.clients ++ objects
      attempts := c.attempts ++ [.awaitingNodes own] }

/-- What has become of the connections of some objects: that of all is there, one was the
first to be rejected, or neither so far. -/
def settledAll (c : Cluster ε) (own : List Nat) : Option (Except ε Unit) :=
  match c.rejections.find? (·.1 ∈ own) with
  | some (_, e) => some (.error e)
  | none =>
    if ∀ i ∈ own, (c.clients[i]?).map (·.phase.connected) = some .fulfilled then some (.ok ())
    else none

/-- A call of `connect` is at another stage. -/
def setAttempt (c : Cluster ε) (k : Nat) (attempt : Attempt ε) : Cluster ε :=
  { c with attempts := c.attempts.set k attempt }

/-- `connect` behind `Promise.all` -/
def choosePrimary (c : Cluster ε) (k : Nat) (own : List Nat) : Cluster ε :=
  match c.primaryOpts with
  | none => c.setAttempt k (.returned own)
  | some primaryOpts =>
    match c.nodeOpts.findIdx? (sameEndpoint · primaryOpts) with
    | some i => { c with designated := c.nodes[i]? }.setAttempt k (.returned own)
    | none =>
      match newClient primaryOpts with
      | .error e => c.setAttempt k (.thrown e)
      | .ok object =>
        { c with
          designated := some c.clients.length
          clients := c.clients ++ [object] }.setAttempt k (.awaitingPrimary own c.clients.length)

/-- The `k`-th call of `connect` goes on, if what it awaits is settled. -/
def resume (c : Cluster ε) (k : Nat) : Cluster ε :=
  match c.attempts[k]? with
  | some (.awaitingNodes own) =>
    match c.settledAll own with
    | some (.ok ()) => c.choosePrimary k own
    | some (.error e) => c.setAttempt k (.thrown (.network e))
    | none => c
  | some (.awaitingPrimary own primary) =>
    match c.settledAll [primary] with
    | some (.ok ()) => c.setAttempt k (.returned own)
    | some (.error e) => c.setAttempt k (.thrown (.network e))
    | none => c
  | _ => c

/-- The objects that `close` goes through. -/
def known (c : Cluster ε) : List Nat :=
  c.nodes ++ c.designated.toList.filter (· ∉ c.nodes)

/-- `close` -/
def close (c : Cluster ε) : Cluster ε :=
  { c with
    nodes := []
    designated := none
    clients := c.known.foldl (fun clients i => clients.modify i Client.ended) c.clients }

/-! ### Runs -/

/-- A call on the cluster, the rest of a call, or what the network does. -/
inductive Move (ε : Type) where
  | connect
  | close
  | resume (k : Nat)
  | reached (i : Nat)
  | unreachable (i : Nat) (e : ε)
  | answered (i : Nat) (reply : Except ε Unit)
  | lost (i : Nat)

/-- An object takes a step, and its promise is rejected. -/
def reject (c : Cluster ε) (i : Nat) (phase : Phase → Phase) (e : ε) : Cluster ε :=
  { c with
    clients := c.clients.modify i fun o => { o with phase := phase o.phase }
    rejections := c.rejections ++ [(i, e)] }

/-- Dialing has failed. -/
def unreachable (c : Cluster ε) (i : Nat) (e : ε) : Cluster ε :=
  if (c.clients[i]?).map Client.phase = some .dialing then
    c.reject i (fun _ => .gone .rejected) e
  else c

/-- The reply to `AUTH`, or what becomes of it on a socket that has gone. -/
def answered (c : Cluster ε) (i : Nat) (reply : Except ε Unit) : Cluster ε :=
  if (c.clients[i]?).map (·.phase.waits) = some true then
    match reply with
    | .ok () =>
      { c with
        clients := c.clients.modify i fun o => { o with phase := o.phase.replied .fulfilled } }
    | .error e => c.reject i (Phase.replied .rejected) e
  else c

def move (c : Cluster ε) : Move ε → Cluster ε
  | .connect => c.connect
  | .close => c.close
  | .resume k => c.resume k
  | .reached i => { c with clients := c.clients.modify i Client.reached }
  | .unreachable i e => c.unreachable i e
  | .answered i reply => c.answered i reply
  | .lost i => { c with clients := c.clients.modify i Client.ended }

def run (c : Cluster ε) (moves : List (Move ε)) : Cluster ε := moves.foldl move c

end Cluster

/-! ### One object -/

/-- What an object can become. -/
structure Phase.Leads (p q : Phase) : Prop where
  live : q.live = true → p.live = true
  fulfilled : p.connected = .fulfilled → q.connected = .fulfilled

theorem Phase.Leads.refl (p : Phase) : p.Leads p := ⟨id, id⟩

theorem Phase.leads_reached (authenticates : Bool) (p : Phase) :
    p.Leads (p.reached authenticates) := by
  cases p with
  | dialing => exact ⟨fun _ => rfl, fun h => by cases h⟩
  | up _ => exact .refl _
  | gone _ => exact .refl _

theorem Phase.leads_ended (p : Phase) : p.Leads p.ended := by
  cases p with
  | dialing => exact .refl _
  | up _ => exact ⟨fun _ => rfl, id⟩
  | gone _ => exact .refl _

theorem Phase.leads_replied {p : Phase} (hwaits : p.waits = true) (connected : Pledge) :
    p.Leads (p.replied connected) := by
  cases p with
  | dialing => cases hwaits
  | up q =>
    cases q with
    | pending => exact ⟨id, fun h => by cases h⟩
    | fulfilled => cases hwaits
    | rejected => cases hwaits
  | gone q =>
    cases q with
    | pending => exact ⟨id, fun h => by cases h⟩
    | fulfilled => cases hwaits
    | rejected => cases hwaits

theorem Phase.live_replied (connected : Pledge) (p : Phase) :
    (p.replied connected).live = p.live := by
  cases p <;> rfl

theorem Phase.live_reached {p : Phase} (h : p.live = true) (authenticates : Bool) :
    (p.reached authenticates).live = true := by
  cases p with
  | dialing => rfl
  | up _ => rfl
  | gone _ => cases h

/-- An object has been replaced by what it can become. -/
structure Client.Leads (o o' : Client) : Prop where
  opts : o'.opts = o.opts
  phase : o.phase.Leads o'.phase

theorem Client.Leads.refl (o : Client) : o.Leads o := ⟨rfl, .refl _⟩

theorem Client.ended_ended (o : Client) : o.ended.ended = o.ended := by
  obtain ⟨opts, phase⟩ := o
  cases phase <;> rfl

theorem Client.live_ended (o : Client) : o.ended.phase.live = true ↔ o.phase = .dialing := by
  obtain ⟨opts, phase⟩ := o
  cases phase <;> simp [Client.ended, Phase.ended, Phase.live]

namespace Cluster

variable {ε : Type}

/-! ### The objects of a cluster -/

/-- Its connection is there, or may still come to be. -/
def LiveAt (c : Cluster ε) (i : Nat) : Prop := ∃ o, c.clients[i]? = some o ∧ o.phase.live = true

/-- The cluster can get at an object. -/
def Kept (c : Cluster ε) (i : Nat) : Prop := i ∈ c.nodes ∨ c.designated = some i

/-- Every object that has or may get a connection is one that `close` goes through. -/
def Tidy (c : Cluster ε) : Prop := ∀ i, c.LiveAt i → c.Kept i

/-- No call on the cluster will end the connection of this object. -/
def Stray (c : Cluster ε) (i : Nat) : Prop := c.LiveAt i ∧ ¬ c.Kept i

theorem LiveAt.lt {c : Cluster ε} {i : Nat} (h : c.LiveAt i) : i < c.clients.length := by
  obtain ⟨o, ho, -⟩ := h
  exact (List.getElem?_eq_some_iff.mp ho).1

/-- The objects that were there are still there, and have gone on. -/
def Grown (c c' : Cluster ε) : Prop :=
  ∀ (i : Nat) (o : Client), c.clients[i]? = some o →
    ∃ o', c'.clients[i]? = some o' ∧ o.Leads o'

theorem grown_append {c c' : Cluster ε} {objects : List Client}
    (h : c'.clients = c.clients ++ objects) : Grown c c' := by
  intro i o ho
  refine ⟨o, ?_, .refl o⟩
  rw [h, List.getElem?_append_left (List.getElem?_eq_some_iff.mp ho).1, ho]

theorem grown_of_eq {c c' : Cluster ε} (h : c'.clients = c.clients) : Grown c c' :=
  grown_append (h.trans (List.append_nil _).symm)

theorem grown_modify {c c' : Cluster ε} {i : Nat} {f : Client → Client}
    (h : c'.clients = c.clients.modify i f)
    (hleads : ∀ o, c.clients[i]? = some o → o.Leads (f o)) : Grown c c' := by
  intro j o ho
  rw [h, List.getElem?_modify, ho]
  by_cases hij : i = j
  · subst hij
    exact ⟨f o, by simp, hleads o ho⟩
  · exact ⟨o, by simp [hij], .refl o⟩

/-- What `close` does to an object. -/
theorem getElem?_foldl_ended (ks : List Nat) (clients : List Client) (j : Nat) :
    (ks.foldl (fun clients i => clients.modify i Client.ended) clients)[j]? =
      clients[j]?.map fun o => if j ∈ ks then o.ended else o := by
  induction ks generalizing clients with
  | nil => simp
  | cons k ks ih =>
    rw [List.foldl_cons, ih, List.getElem?_modify]
    cases hj : clients[j]? with
    | none => simp
    | some o =>
      by_cases hk : k = j
      · subst hk
        by_cases hks : k ∈ ks <;> simp [hks, Client.ended_ended]
      · have hjk : j ≠ k := fun h => hk h.symm
        simp [hk, hjk]

theorem mem_known {c : Cluster ε} {i : Nat} : i ∈ c.known ↔ c.Kept i := by
  simp only [known, Kept, List.mem_append, List.mem_filter, Option.mem_toList, decide_eq_true_eq]
  by_cases hi : i ∈ c.nodes <;> simp [hi]

theorem getElem?_close (c : Cluster ε) (j : Nat) [Decidable (c.Kept j)] :
    c.close.clients[j]? = c.clients[j]?.map fun o => if c.Kept j then o.ended else o := by
  rw [close, getElem?_foldl_ended]
  congr 1
  funext o
  exact if_congr mem_known rfl rfl

/-! ### One move -/

/-- What the network does with the objects leaves the cluster as it is. -/
structure Aside (c c' : Cluster ε) : Prop where
  opts : c'.nodeOpts = c.nodeOpts ∧ c'.primaryOpts = c.primaryOpts
  kept : c'.nodes = c.nodes ∧ c'.designated = c.designated
  attempts : c'.attempts = c.attempts
  length : c'.clients.length = c.clients.length
  grown : c.Grown c'

theorem Aside.refl (c : Cluster ε) : Aside c c :=
  ⟨⟨rfl, rfl⟩, ⟨rfl, rfl⟩, rfl, rfl, grown_of_eq rfl⟩

theorem aside_modify (c : Cluster ε) {i : Nat} (f : Client → Client)
    (hleads : ∀ o, c.clients[i]? = some o → o.Leads (f o)) (rejections : List (Nat × ε)) :
    Aside c { c with clients := c.clients.modify i f, rejections } :=
  ⟨⟨rfl, rfl⟩, ⟨rfl, rfl⟩, rfl, List.length_modify .., grown_modify rfl hleads⟩

theorem unreachable_aside (c : Cluster ε) (i : Nat) (e : ε) : Aside c (c.unreachable i e) := by
  rw [unreachable]
  split
  · rename_i hdialing
    refine aside_modify c (fun o => { o with phase := .gone .rejected }) (fun o ho => ⟨rfl, ?_⟩) _
    rw [ho, Option.map_some, Option.some.injEq] at hdialing
    rw [hdialing]
    exact ⟨fun _ => rfl, fun h => by cases h⟩
  · exact .refl c

theorem answered_aside (c : Cluster ε) (i : Nat) (reply : Except ε Unit) :
    Aside c (c.answered i reply) := by
  unfold answered
  split
  · rename_i hwaits
    have hleads : ∀ connected : Pledge, ∀ o, c.clients[i]? = some o →
        o.Leads { o with phase := o.phase.replied connected } := by
      intro connected o ho
      rw [ho, Option.map_some, Option.some.injEq] at hwaits
      exact ⟨rfl, Phase.leads_replied hwaits connected⟩
    cases reply with
    | ok _ => exact aside_modify c _ (hleads .fulfilled) _
    | error e => exact aside_modify c _ (hleads .rejected) _
  · exact .refl c

/-- A move of the network. -/
def Move.IsNetwork : Move ε → Prop
  | .connect | .close | .resume _ => False
  | _ => True

theorem move_aside (c : Cluster ε) {m : Move ε} (hm : m.IsNetwork) : Aside c (c.move m) := by
  cases m with
  | connect => exact hm.elim
  | close => exact hm.elim
  | resume k => exact hm.elim
  | reached i => exact aside_modify c Client.reached (fun o _ => ⟨rfl, Phase.leads_reached _ _⟩) _
  | unreachable i e => exact unreachable_aside c i e
  | answered i reply => exact answered_aside c i reply
  | lost i => exact aside_modify c Client.ended (fun o _ => ⟨rfl, Phase.leads_ended _⟩) _

theorem connect_cases (c : Cluster ε) :
    (∃ e : ConnectError ε, c.nodeOpts.mapM newClient = .error e ∧
      c.connect = { c with attempts := c.attempts ++ [.thrown e] }) ∨
    ∃ objects, c.nodeOpts.mapM (newClient (ε := ε)) = .ok objects ∧
      c.connect = { c with
        nodes := List.range' c.clients.length objects.length
        clients := c.clients ++ objects
        attempts := c.attempts ++
          [.awaitingNodes (List.range' c.clients.length objects.length)] } := by
  rw [connect]
  cases c.nodeOpts.mapM newClient with
  | error e => exact Or.inl ⟨e, rfl, rfl⟩
  | ok objects => exact Or.inr ⟨objects, rfl, rfl⟩

/-- All of these objects have been connected. -/
def AllConnected (c : Cluster ε) (own : List Nat) : Prop :=
  ∀ i ∈ own, (c.clients[i]?).map (·.phase.connected) = some .fulfilled

theorem allConnected_of_settledAll {c : Cluster ε} {own : List Nat}
    (h : c.settledAll own = some (.ok ())) : c.AllConnected own := by
  rw [settledAll] at h
  split at h
  · cases h
  · split at h
    · assumption
    · cases h

/-- Behind `Promise.all`, a call of `connect` sets `_primary`. -/
def SetsPrimary (c : Cluster ε) : Prop :=
  ∃ primaryOpts, c.primaryOpts = some primaryOpts ∧
    ((∃ o ∈ c.nodeOpts, sameEndpoint o primaryOpts) ∨
      ∃ object, newClient (ε := ε) primaryOpts = .ok object)

/-- What a call of `connect` with the objects `own` does when it sets `_primary`. -/
inductive Sets (c : Cluster ε) (k : Nat) (own : List Nat) (primaryOpts : Options) :
    Cluster ε → Prop where
  | node (j : Nat) (hfind : c.nodeOpts.findIdx? (sameEndpoint · primaryOpts) = some j) :
    Sets c k own primaryOpts
      ({ c with designated := c.nodes[j]? }.setAttempt k (.returned own))
  | object (object : Client)
      (hfind : c.nodeOpts.findIdx? (sameEndpoint · primaryOpts) = none)
      (hnew : newClient (ε := ε) primaryOpts = .ok object) :
    Sets c k own primaryOpts
      ({ c with
        designated := some c.clients.length
        clients := c.clients ++ [object] }.setAttempt k (.awaitingPrimary own c.clients.length))

theorem choosePrimary_cases (c : Cluster ε) (k : Nat) (own : List Nat) :
    ¬ c.SetsPrimary ∧ c.primaryOpts = none ∧
        c.choosePrimary k own = c.setAttempt k (.returned own) ∨
      ¬ c.SetsPrimary ∧ (∃ e, c.choosePrimary k own = c.setAttempt k (.thrown e)) ∨
      c.SetsPrimary ∧ ∃ primaryOpts, c.primaryOpts = some primaryOpts ∧
        c.Sets k own primaryOpts (c.choosePrimary k own) := by
  rcases Option.eq_none_or_eq_some c.primaryOpts with hprimary | ⟨primaryOpts, hprimary⟩
  · have hset : c.choosePrimary k own = c.setAttempt k (.returned own) := by
      simp only [choosePrimary, hprimary]
    refine Or.inl ⟨?_, hprimary, hset⟩
    rintro ⟨_, hsome, _⟩
    cases hprimary.symm.trans hsome
  · right
    cases hfind : c.nodeOpts.findIdx? (sameEndpoint · primaryOpts) with
    | some j =>
      obtain ⟨hlt, hsame, -⟩ := List.findIdx?_eq_some_iff_getElem.mp hfind
      have hset : c.choosePrimary k own =
          { c with designated := c.nodes[j]? }.setAttempt k (.returned own) := by
        simp only [choosePrimary, hprimary, hfind]
      rw [hset]
      exact Or.inr ⟨⟨primaryOpts, hprimary, Or.inl ⟨_, List.getElem_mem hlt, hsame⟩⟩, primaryOpts,
        hprimary, .node j hfind⟩
    | none =>
      cases hnew : newClient (ε := ε) primaryOpts with
      | ok object =>
        have hset : c.choosePrimary k own = { c with
            designated := some c.clients.length
            clients := c.clients ++ [object] }.setAttempt k
              (.awaitingPrimary own c.clients.length) := by
          simp only [choosePrimary, hprimary, hfind, hnew]
        rw [hset]
        exact Or.inr ⟨⟨primaryOpts, hprimary, Or.inr ⟨object, hnew⟩⟩, primaryOpts, hprimary,
          .object object hfind hnew⟩
      | error e =>
        have hset : c.choosePrimary k own = c.setAttempt k (.thrown e) := by
          simp only [choosePrimary, hprimary, hfind, hnew]
        refine Or.inl ⟨?_, e, hset⟩
        rintro ⟨p, hsome, hor⟩
        cases hprimary.symm.trans hsome
        rcases hor with ⟨o, ho, hsame⟩ | ⟨object, hok⟩
        · exact absurd hsame (by simpa using List.findIdx?_eq_none_iff.mp hfind o ho)
        · cases hnew.symm.trans hok

/-- The `k`-th call of `connect` can go on, and sets `_primary` then. -/
def Chooses (c : Cluster ε) (k : Nat) : Prop :=
  (∃ own, c.attempts[k]? = some (.awaitingNodes own) ∧ c.settledAll own = some (.ok ())) ∧
    c.SetsPrimary

/-- What becomes of a call of `connect` that does not set `_primary` when it goes on. -/
inductive Turns (c : Cluster ε) : Attempt ε → Attempt ε → Prop where
  | noPrimary (own : List Nat) (hnone : c.primaryOpts = none) (hall : c.AllConnected own) :
    Turns c (.awaitingNodes own) (.returned own)
  | ready (own : List Nat) (primary : Nat) (hall : c.AllConnected [primary]) :
    Turns c (.awaitingPrimary own primary) (.returned own)
  | thrown (attempt : Attempt ε) (e : ConnectError ε) : Turns c attempt (.thrown e)

/-- **What `connect` does behind its awaits.** -/
theorem resume_cases (c : Cluster ε) (k : Nat) :
    ¬ c.Chooses k ∧ c.resume k = c ∨
      ¬ c.Chooses k ∧ (∃ old new, c.attempts[k]? = some old ∧ c.Turns old new ∧
        c.resume k = c.setAttempt k new) ∨
      c.Chooses k ∧ ∃ own primaryOpts, c.attempts[k]? = some (.awaitingNodes own) ∧
        c.AllConnected own ∧ c.primaryOpts = some primaryOpts ∧
        c.Sets k own primaryOpts (c.resume k) := by
  have hnot : ∀ attempt, c.attempts[k]? = some attempt →
      (∀ own, attempt = .awaitingNodes own → c.settledAll own ≠ some (.ok ())) →
      ¬ c.Chooses k := by
    rintro attempt hk hne ⟨⟨own, hk', hall⟩, -⟩
    exact hne own (Option.some.inj (hk.symm.trans hk')) hall
  rw [resume]
  cases hk : c.attempts[k]? with
  | none =>
    refine Or.inl ⟨?_, rfl⟩
    rintro ⟨⟨own, hk', -⟩, -⟩
    cases hk.symm.trans hk'
  | some attempt =>
    cases attempt with
    | returned own => exact Or.inl ⟨hnot _ hk (by simp), rfl⟩
    | thrown e => exact Or.inl ⟨hnot _ hk (by simp), rfl⟩
    | awaitingPrimary own primary =>
      dsimp only
      cases hsettled : c.settledAll [primary] with
      | none => exact Or.inl ⟨hnot _ hk (by simp), rfl⟩
      | some result =>
        cases result with
        | ok u =>
          exact Or.inr (Or.inl ⟨hnot _ hk (by simp), _, _, rfl,
            .ready own primary (allConnected_of_settledAll hsettled), rfl⟩)
        | error e =>
          exact Or.inr (Or.inl ⟨hnot _ hk (by simp), _, _, rfl, .thrown _ (.network e), rfl⟩)
    | awaitingNodes own =>
      dsimp only
      cases hsettled : c.settledAll own with
      | none => exact Or.inl ⟨hnot _ hk (by simp [hsettled]), rfl⟩
      | some result =>
        cases result with
        | error e =>
          exact Or.inr (Or.inl ⟨hnot _ hk (by simp [hsettled]), _, _, rfl,
            .thrown _ (.network e), rfl⟩)
        | ok u =>
          have hall := allConnected_of_settledAll hsettled
          rcases c.choosePrimary_cases k own with ⟨hnone, hprimary, heq⟩ | ⟨hnone, e, heq⟩ |
            ⟨hsets, primaryOpts, hprimary, hset⟩
          · exact Or.inr (Or.inl ⟨fun h => hnone h.2, _, _, rfl, .noPrimary own hprimary hall, heq⟩)
          · exact Or.inr (Or.inl ⟨fun h => hnone h.2, _, _, rfl, .thrown _ e, heq⟩)
          · exact Or.inr (Or.inr ⟨⟨⟨own, hk, hsettled⟩, hsets⟩, own, primaryOpts, rfl, hall,
              hprimary, hset⟩)

/-! ### What is kept -/

/-- A call may be made, or go on, without leaving a connection behind: `connect` when no node
but the primary is alive, `close` when none that the cluster knows is still dialing, and a
call of `connect` sets `_primary` when the one before is a node or is not alive. -/
def Admits (c : Cluster ε) : Move ε → Prop
  | .connect =>
    (∃ e : ConnectError ε, c.nodeOpts.mapM newClient = .error e) ∨
      ∀ i ∈ c.nodes, c.designated ≠ some i → ¬ c.LiveAt i
  | .close => ∀ i, c.Kept i → (c.clients[i]?).map Client.phase ≠ some .dialing
  | .resume k => c.Chooses k → ∀ i, c.designated = some i → i ∉ c.nodes → ¬ c.LiveAt i
  | _ => True

theorem Aside.liveAt {c c' : Cluster ε} (h : Aside c c') {i : Nat} (hlive : c'.LiveAt i) :
    c.LiveAt i := by
  have hlt : i < c.clients.length := h.length ▸ hlive.lt
  obtain ⟨o', ho', hphase⟩ := hlive
  obtain ⟨o'', ho'', hleads⟩ := h.grown i _ (List.getElem?_eq_getElem hlt)
  cases ho'.symm.trans ho''
  exact ⟨_, List.getElem?_eq_getElem hlt, hleads.phase.live hphase⟩

theorem Aside.kept_iff {c c' : Cluster ε} (h : Aside c c') (i : Nat) : c'.Kept i ↔ c.Kept i := by
  rw [Kept, Kept, h.kept.1, h.kept.2]

theorem Aside.tidy {c c' : Cluster ε} (h : Aside c c') (htidy : c.Tidy) : c'.Tidy :=
  fun i hlive => (h.kept_iff i).mpr (htidy i (h.liveAt hlive))

theorem liveAt_append {c c' : Cluster ε} {objects : List Client}
    (h : c'.clients = c.clients ++ objects) {i : Nat} (hi : i < c.clients.length) :
    c'.LiveAt i ↔ c.LiveAt i := by
  rw [LiveAt, LiveAt, h, List.getElem?_append_left hi]

/-- New objects have been made, and the cluster keeps them. -/
theorem tidy_append {c c' : Cluster ε} {objects : List Client}
    (h : c'.clients = c.clients ++ objects)
    (hnew : ∀ i, c.clients.length ≤ i → i < c'.clients.length → c'.Kept i) :
    c'.Tidy ↔ ∀ i, c.LiveAt i → c'.Kept i := by
  constructor
  · intro htidy i hlive
    exact htidy i ((liveAt_append h hlive.lt).mpr hlive)
  · intro hkept i hlive
    rcases Nat.lt_or_ge i c.clients.length with hold | hge
    · exact hkept i ((liveAt_append h hold).mp hlive)
    · exact hnew i hge hlive.lt

theorem Tidy.connect_iff {c : Cluster ε} (h : c.Tidy) : c.connect.Tidy ↔ c.Admits .connect := by
  rcases c.connect_cases with ⟨e, hmap, heq⟩ | ⟨objects, hmap, heq⟩
  · rw [heq]
    exact iff_of_true h (Or.inl ⟨e, hmap⟩)
  · have hkept : ∀ i, c.connect.Kept i ↔
        (c.clients.length ≤ i ∧ i < c.clients.length + objects.length) ∨
          c.designated = some i := by
      intro i
      rw [heq, Kept]
      simp only [List.mem_range'_1]
    have hclients : c.connect.clients = c.clients ++ objects := by rw [heq]
    rw [tidy_append hclients fun i hge hlt => by
      rw [hclients, List.length_append] at hlt
      exact (hkept i).mpr (Or.inl ⟨hge, hlt⟩)]
    have hno : ¬ ∃ e : ConnectError ε, c.nodeOpts.mapM newClient = .error e := by
      rintro ⟨e, he⟩
      cases hmap.symm.trans he
    rw [Admits, or_iff_right hno]
    constructor
    · intro hall i hnode hother hlive
      rcases (hkept i).mp (hall i hlive) with ⟨hge, -⟩ | hdesignated
      · exact absurd hlive.lt (Nat.not_lt.mpr hge)
      · exact hother hdesignated
    · intro hover i hlive
      refine (hkept i).mpr (Or.inr ?_)
      rcases h i hlive with hnode | hdesignated
      · exact not_not.mp fun hother => hover i hnode hother hlive
      · exact hdesignated

theorem Tidy.close_iff {c : Cluster ε} (h : c.Tidy) : c.close.Tidy ↔ c.Admits .close := by
  classical
  have hnone : ∀ i, ¬ c.close.Kept i := fun i hkept => by
    rcases hkept with hnode | hdesignated
    · cases hnode
    · cases hdesignated
  have hlive : ∀ i, c.close.LiveAt i ↔ (c.clients[i]?).map Client.phase = some .dialing := by
    intro i
    rw [LiveAt, getElem?_close]
    cases ho : c.clients[i]? with
    | none => simp
    | some o =>
      by_cases hkept : c.Kept i
      · simp [hkept, Client.live_ended]
      · have hover : o.phase.live ≠ true := fun hlive => hkept (h i ⟨o, ho, hlive⟩)
        have hdialing : o.phase ≠ .dialing := fun hphase => hover (by rw [hphase]; rfl)
        simp [hkept, hover, hdialing]
  constructor
  · intro htidy i _ hdialing
    exact hnone i (htidy i ((hlive i).mpr hdialing))
  · intro hadmits i hclose
    have hdialing := (hlive i).mp hclose
    obtain ⟨o, ho, hphase⟩ := Option.map_eq_some_iff.mp hdialing
    exact absurd hdialing (hadmits i (h i ⟨o, ho, by rw [hphase]; rfl⟩))

/-- After a `close`, nothing is left of a tidy cluster. -/
theorem Tidy.not_liveAt_close {c : Cluster ε} (h : c.close.Tidy) (i : Nat) :
    ¬ c.close.LiveAt i := by
  intro hlive
  rcases h i hlive with hnode | hdesignated
  · cases hnode
  · cases hdesignated

/-- `_primary` is set to a node or to a new object. -/
theorem Sets.kept {c c' : Cluster ε} {k : Nat} {own : List Nat} {primaryOpts : Options}
    (h : c.Sets k own primaryOpts c') :
    c'.nodes = c.nodes ∧ (∃ objects, c'.clients = c.clients ++ objects) ∧
      (∀ i, c.clients.length ≤ i → i < c'.clients.length → c'.Kept i) ∧
      ∀ i, i < c.clients.length → (c'.Kept i ↔ i ∈ c.nodes) := by
  cases h with
  | node j hfind =>
    refine ⟨rfl, ⟨[], (List.append_nil _).symm⟩, fun i hge hlt => absurd hlt (Nat.not_lt.mpr hge),
      fun i _ => ?_⟩
    show i ∈ c.nodes ∨ c.nodes[j]? = some i ↔ i ∈ c.nodes
    exact or_iff_left_of_imp List.mem_of_getElem?
  | object object hfind hnew =>
    refine ⟨rfl, ⟨[object], rfl⟩, fun i hge hlt => Or.inr ?_, fun i hi => ?_⟩
    · have hlength : i < (c.clients ++ [object]).length := hlt
      rw [List.length_append, List.length_singleton] at hlength
      exact congrArg some (by omega)
    · show i ∈ c.nodes ∨ some c.clients.length = some i ↔ i ∈ c.nodes
      refine or_iff_left fun heq => ?_
      exact absurd (Option.some.inj heq) (by omega)

theorem Tidy.resume_iff {c : Cluster ε} (h : c.Tidy) (k : Nat) :
    (c.resume k).Tidy ↔ c.Admits (.resume k) := by
  rcases c.resume_cases k with ⟨hnot, heq⟩ | ⟨hnot, _, _, -, -, heq⟩ |
    ⟨hchooses, own, primaryOpts, -, -, -, hsets⟩
  · rw [heq]
    exact iff_of_true h fun hchooses => absurd hchooses hnot
  · rw [heq]
    exact iff_of_true h fun hchooses => absurd hchooses hnot
  · obtain ⟨-, ⟨objects, hclients⟩, hnew, hold⟩ := hsets.kept
    rw [tidy_append hclients hnew]
    constructor
    · intro hall _ i _ hother hlive
      exact hother ((hold i hlive.lt).mp (hall i hlive))
    · intro hover i hlive
      rw [hold i hlive.lt]
      rcases h i hlive with hnode | hdesignated
      · exact hnode
      · exact not_not.mp fun hother => hover hchooses i hdesignated hother hlive

/-- **One move keeps a cluster tidy if and only if it is admitted.** -/
theorem Tidy.move_iff {c : Cluster ε} (h : c.Tidy) (m : Move ε) :
    (c.move m).Tidy ↔ c.Admits m := by
  cases m with
  | connect => exact h.connect_iff
  | close => exact h.close_iff
  | resume k => exact h.resume_iff k
  | reached i => exact iff_of_true ((c.move_aside (m := .reached i) trivial).tidy h) trivial
  | unreachable i e =>
    exact iff_of_true ((c.move_aside (m := .unreachable i e) trivial).tidy h) trivial
  | answered i reply =>
    exact iff_of_true ((c.move_aside (m := .answered i reply) trivial).tidy h) trivial
  | lost i => exact iff_of_true ((c.move_aside (m := .lost i) trivial).tidy h) trivial

def RunTidy : List (Move ε) → Cluster ε → Prop
  | [], c => c.Tidy
  | m :: moves, c => c.Tidy ∧ RunTidy moves (c.move m)

def RunAdmits : List (Move ε) → Cluster ε → Prop
  | [], _ => True
  | m :: moves, c => c.Admits m ∧ RunAdmits moves (c.move m)

theorem RunTidy.head {moves : List (Move ε)} {c : Cluster ε} (h : RunTidy moves c) : c.Tidy := by
  cases moves with
  | nil => exact h
  | cons m moves => exact h.1

theorem Tidy.run_iff {c : Cluster ε} (h : c.Tidy) (moves : List (Move ε)) :
    RunTidy moves c ↔ RunAdmits moves c := by
  induction moves generalizing c with
  | nil => exact iff_of_true h trivial
  | cons m moves ih =>
    constructor
    · rintro ⟨-, htidy⟩
      exact ⟨(h.move_iff m).mp htidy.head, (ih htidy.head).mp htidy⟩
    · rintro ⟨hadmits, hrest⟩
      exact ⟨h, (ih ((h.move_iff m).mpr hadmits)).mpr hrest⟩

/-! ### What is left behind -/

/-- The network ends the connection of this object. -/
def Move.Ends (i : Nat) : Move ε → Prop
  | .unreachable j _ => i = j
  | .lost j => i = j
  | _ => False

theorem LiveAt.modify {c c' : Cluster ε} {i j : Nat} {f : Client → Client} (h : c.LiveAt i)
    (hclients : c'.clients = c.clients.modify j f)
    (hlive : j = i → ∀ o, o.phase.live = true → (f o).phase.live = true) : c'.LiveAt i := by
  obtain ⟨o, ho, hphase⟩ := h
  rw [LiveAt, hclients, List.getElem?_modify, ho]
  by_cases hji : j = i
  · exact ⟨f o, by simp [hji], hlive hji o hphase⟩
  · exact ⟨o, by simp [hji], hphase⟩

/-- Only the network ends the connection of an object that the cluster has lost sight of. -/
theorem Stray.liveAt_move {c : Cluster ε} {i : Nat} (h : c.Stray i) {m : Move ε}
    (hends : ¬ m.Ends i) : (c.move m).LiveAt i := by
  classical
  have hlive := h.1
  cases m with
  | connect =>
    rcases c.connect_cases with ⟨e, -, heq⟩ | ⟨objects, -, heq⟩
    · rw [move, heq]
      exact hlive
    · have hclients : c.connect.clients = c.clients ++ objects := by rw [heq]
      exact (liveAt_append hclients hlive.lt).mpr hlive
  | close =>
    obtain ⟨o, ho, hphase⟩ := hlive
    exact ⟨o, by rw [move, getElem?_close, ho, Option.map_some, if_neg h.2], hphase⟩
  | resume k =>
    rw [move]
    rcases c.resume_cases k with ⟨-, heq⟩ | ⟨-, _, _, -, -, heq⟩ | ⟨-, _, _, -, -, -, hsets⟩
    · rw [heq]
      exact hlive
    · rw [heq]
      exact hlive
    · obtain ⟨-, ⟨objects, hclients⟩, -, -⟩ := hsets.kept
      exact (liveAt_append hclients hlive.lt).mpr hlive
  | reached j => exact hlive.modify rfl fun _ o ho => Phase.live_reached ho _
  | lost j => exact hlive.modify rfl fun hji => absurd hji.symm hends
  | unreachable j e =>
    rw [move, unreachable]
    split
    · exact hlive.modify rfl fun hji => absurd hji.symm hends
    · exact hlive
  | answered j reply =>
    rw [move]
    unfold answered
    have hreplied : ∀ connected : Pledge, ∀ o : Client, o.phase.live = true →
        (o.phase.replied connected).live = true :=
      fun connected o ho => (Phase.live_replied connected o.phase).trans ho
    split
    · cases reply with
      | ok _ => exact hlive.modify rfl fun _ => hreplied .fulfilled
      | error e => exact hlive.modify rfl fun _ => hreplied .rejected
    · exact hlive

theorem Stray.move {c : Cluster ε} {i : Nat} (h : c.Stray i) {m : Move ε} (hends : ¬ m.Ends i) :
    (c.move m).Stray i := by
  refine ⟨h.liveAt_move hends, fun hkept => h.2 ?_⟩
  by_cases hnetwork : m.IsNetwork
  · exact ((c.move_aside hnetwork).kept_iff i).mp hkept
  · cases m with
    | connect =>
      rcases c.connect_cases with ⟨e, -, heq⟩ | ⟨objects, -, heq⟩
      · rw [Cluster.move, heq] at hkept
        exact hkept
      · rw [Cluster.move, heq] at hkept
        rcases hkept with hnode | hdesignated
        · exact absurd (List.mem_range'_1.mp hnode).1 (Nat.not_le.mpr h.1.lt)
        · exact Or.inr hdesignated
    | close =>
      rcases hkept with hnode | hdesignated
      · cases hnode
      · cases hdesignated
    | resume k =>
      rw [Cluster.move] at hkept
      rcases c.resume_cases k with ⟨-, heq⟩ | ⟨-, _, _, -, -, heq⟩ | ⟨-, _, _, -, -, -, hsets⟩
      · rw [heq] at hkept
        exact hkept
      · rw [heq] at hkept
        exact hkept
      · obtain ⟨-, -, -, hold⟩ := hsets.kept
        exact Or.inl ((hold i h.1.lt).mp hkept)
    | reached j => exact absurd trivial hnetwork
    | unreachable j e => exact absurd trivial hnetwork
    | answered j reply => exact absurd trivial hnetwork
    | lost j => exact absurd trivial hnetwork

theorem Stray.run {c : Cluster ε} {i : Nat} (h : c.Stray i) {moves : List (Move ε)}
    (hends : ∀ m ∈ moves, ¬ m.Ends i) : (c.run moves).Stray i := by
  induction moves generalizing c with
  | nil => exact h
  | cons m moves ih =>
    exact ih (h.move (hends m (by simp))) fun m' hm' => hends m' (by simp [hm'])

/-! ### What is connected -/

/-- The options of these objects are those of the nodes, one by one. -/
def Backed (c : Cluster ε) (own : List Nat) : Prop :=
  own.map (fun i => (c.clients[i]?).map Client.opts) = c.nodeOpts.map some

/-- The options that the primary is connected with. -/
def target (c : Cluster ε) : Option Options :=
  c.primaryOpts.map fun p => (c.nodeOpts.find? (sameEndpoint · p)).getD p

/-- What a call of `connect` has done so far. -/
def Holds (c : Cluster ε) : Attempt ε → Prop
  | .awaitingNodes own => c.Backed own
  | .awaitingPrimary own _ =>
    c.Backed own ∧ c.AllConnected own ∧ (c.nodes = own → c.designated ≠ none)
  | .returned own =>
    c.Backed own ∧ c.AllConnected own ∧
      (c.nodes = own → c.primaryOpts ≠ none → c.designated ≠ none)
  | .thrown _ => True

/-- **What holds of a cluster after any calls.** -/
structure Wired (c : Cluster ε) : Prop where
  opts : c.nodeOpts ≠ []
  nodes : c.nodes = [] ∨ c.Backed c.nodes
  designated : ∀ i, c.designated = some i → ∃ o, c.clients[i]? = some o ∧ c.target = some o.opts
  attempts : ∀ attempt ∈ c.attempts, c.Holds attempt

theorem Backed.grown {c c' : Cluster ε} {own : List Nat} (h : c.Backed own)
    (hopts : c'.nodeOpts = c.nodeOpts) (hgrown : c.Grown c') : c'.Backed own := by
  rw [Backed, hopts, ← h]
  refine List.map_congr_left fun i hi => ?_
  have hsome : (c.clients[i]?).map Client.opts ∈ c.nodeOpts.map some :=
    h ▸ List.mem_map_of_mem hi
  obtain ⟨opts, -, heq⟩ := List.mem_map.mp hsome
  obtain ⟨o, ho, -⟩ := Option.map_eq_some_iff.mp heq.symm
  obtain ⟨o', ho', hleads⟩ := hgrown i o ho
  rw [ho, ho', Option.map_some, Option.map_some, hleads.opts]

theorem AllConnected.grown {c c' : Cluster ε} {own : List Nat} (h : c.AllConnected own)
    (hgrown : c.Grown c') : c'.AllConnected own := by
  intro i hi
  obtain ⟨o, ho, hconnected⟩ := Option.map_eq_some_iff.mp (h i hi)
  obtain ⟨o', ho', hleads⟩ := hgrown i o ho
  rw [ho', Option.map_some, hleads.phase.fulfilled hconnected]

theorem Backed.length {c : Cluster ε} {own : List Nat} (h : c.Backed own) :
    own.length = c.nodeOpts.length := by
  simpa using congrArg List.length h

theorem Backed.lt {c : Cluster ε} {own : List Nat} (h : c.Backed own) {i : Nat} (hi : i ∈ own) :
    i < c.clients.length := by
  have hsome : (c.clients[i]?).map Client.opts ∈ c.nodeOpts.map some :=
    h ▸ List.mem_map_of_mem hi
  obtain ⟨opts, -, heq⟩ := List.mem_map.mp hsome
  obtain ⟨o, ho, -⟩ := Option.map_eq_some_iff.mp heq.symm
  exact (List.getElem?_eq_some_iff.mp ho).1

theorem Backed.ne_nil {c : Cluster ε} {own : List Nat} (h : c.Backed own)
    (hopts : c.nodeOpts ≠ []) : own ≠ [] := by
  rintro rfl
  exact hopts (List.length_eq_zero_iff.mp h.length.symm)

/-- A call of `connect` keeps what it has, while others go on. -/
theorem Holds.grown {c c' : Cluster ε} {attempt : Attempt ε} (h : c.Holds attempt)
    (hopts : c'.nodeOpts = c.nodeOpts ∧ c'.primaryOpts = c.primaryOpts) (hgrown : c.Grown c')
    (hprimary : ∀ own, c.Backed own → c'.nodes = own →
      c.nodes = own ∧ (c.designated ≠ none → c'.designated ≠ none)) : c'.Holds attempt := by
  cases attempt with
  | awaitingNodes own => exact Backed.grown h hopts.1 hgrown
  | awaitingPrimary own primary =>
    obtain ⟨hbacked, hall, hset⟩ := h
    refine ⟨hbacked.grown hopts.1 hgrown, hall.grown hgrown, fun hnodes => ?_⟩
    obtain ⟨hown, hkeeps⟩ := hprimary own hbacked hnodes
    exact hkeeps (hset hown)
  | returned own =>
    obtain ⟨hbacked, hall, hset⟩ := h
    refine ⟨hbacked.grown hopts.1 hgrown, hall.grown hgrown, fun hnodes hsome => ?_⟩
    obtain ⟨hown, hkeeps⟩ := hprimary own hbacked hnodes
    exact hkeeps (hset hown (hopts.2 ▸ hsome))
  | thrown e => exact trivial

theorem target_congr {c c' : Cluster ε}
    (hopts : c'.nodeOpts = c.nodeOpts ∧ c'.primaryOpts = c.primaryOpts) :
    c'.target = c.target := by
  rw [target, target, hopts.1, hopts.2]

theorem designated_grown {c c' : Cluster ε}
    (hopts : c'.nodeOpts = c.nodeOpts ∧ c'.primaryOpts = c.primaryOpts) (hgrown : c.Grown c')
    {i : Nat} (h : ∃ o, c.clients[i]? = some o ∧ c.target = some o.opts) :
    ∃ o, c'.clients[i]? = some o ∧ c'.target = some o.opts := by
  obtain ⟨o, ho, htarget⟩ := h
  obtain ⟨o', ho', hleads⟩ := hgrown i o ho
  exact ⟨o', ho', by rw [target_congr hopts, htarget, hleads.opts]⟩

/-- A move that leaves `nodes` and `_primary` as they are. -/
theorem Wired.grown {c c' : Cluster ε} (h : c.Wired)
    (hopts : c'.nodeOpts = c.nodeOpts ∧ c'.primaryOpts = c.primaryOpts) (hgrown : c.Grown c')
    (hkept : c'.nodes = c.nodes ∧ c'.designated = c.designated)
    (hattempts : ∀ attempt ∈ c'.attempts, attempt ∈ c.attempts ∨ c'.Holds attempt) :
    c'.Wired where
  opts := by rw [hopts.1]; exact h.opts
  nodes := by
    rw [hkept.1]
    exact h.nodes.imp id fun hbacked => hbacked.grown hopts.1 hgrown
  designated := by
    intro i hi
    exact designated_grown hopts hgrown (h.designated i (hkept.2 ▸ hi))
  attempts := by
    intro attempt hattempt
    rcases hattempts attempt hattempt with hold | hnew
    · refine (h.attempts attempt hold).grown hopts hgrown fun own _ hnodes => ?_
      exact ⟨hkept.1 ▸ hnodes, fun hne => hkept.2 ▸ hne⟩
    · exact hnew

/-- What `mapM` makes of the options. -/
theorem newClient_opts {opts : Options} {o : Client} (h : newClient (ε := ε) opts = .ok o) :
    o.opts = opts := by
  rw [newClient] at h
  split at h
  · cases h
    rfl
  · split at h
    · split at h
      · cases h
      · cases h
      · cases h
        rfl
    · cases h

theorem mapM_newClient_opts {opts : List Options} {objects : List Client}
    (h : opts.mapM (newClient (ε := ε)) = .ok objects) : objects.map Client.opts = opts := by
  induction opts generalizing objects with
  | nil =>
    cases h
    rfl
  | cons o opts ih =>
    rw [List.mapM_cons] at h
    cases ho : newClient (ε := ε) o with
    | error e =>
      rw [ho] at h
      cases h
    | ok object =>
      rw [ho] at h
      cases hrest : opts.mapM (newClient (ε := ε)) with
      | error e =>
        rw [hrest] at h
        cases h
      | ok rest =>
        rw [hrest] at h
        cases h
        rw [List.map_cons, newClient_opts ho, ih hrest]

/-- The objects that `connect` makes. -/
theorem backed_connect {c c' : Cluster ε} {objects : List Client}
    (hmap : c.nodeOpts.mapM (newClient (ε := ε)) = .ok objects)
    (hopts : c'.nodeOpts = c.nodeOpts) (hclients : c'.clients = c.clients ++ objects) :
    c'.Backed (List.range' c.clients.length objects.length) := by
  rw [Backed, hopts, ← mapM_newClient_opts hmap, hclients]
  refine List.ext_getElem (by simp) fun j h₁ h₂ => ?_
  have hj : j < objects.length := by simpa using h₂
  have hat : (c.clients ++ objects)[c.clients.length + j]? = some objects[j] := by
    rw [List.getElem?_append_right (Nat.le_add_right _ _), Nat.add_sub_cancel_left,
      List.getElem?_eq_getElem hj]
  simp [hat]

theorem Wired.connect {c : Cluster ε} (h : c.Wired) : c.connect.Wired := by
  rcases c.connect_cases with ⟨e, -, heq⟩ | ⟨objects, hmap, heq⟩
  · refine h.grown (by rw [heq]; exact ⟨rfl, rfl⟩) (grown_of_eq (by rw [heq]))
      (by rw [heq]; exact ⟨rfl, rfl⟩) fun attempt hattempt => ?_
    rw [heq] at hattempt
    rcases List.mem_append.mp hattempt with hold | hnew
    · exact Or.inl hold
    · rw [List.mem_singleton.mp hnew]
      exact Or.inr trivial
  · have hopts : c.connect.nodeOpts = c.nodeOpts ∧ c.connect.primaryOpts = c.primaryOpts := by
      rw [heq]
      exact ⟨rfl, rfl⟩
    have hclients : c.connect.clients = c.clients ++ objects := by rw [heq]
    have hnodes : c.connect.nodes = List.range' c.clients.length objects.length := by rw [heq]
    have hbacked : c.connect.Backed (List.range' c.clients.length objects.length) :=
      backed_connect hmap hopts.1 hclients
    have hgrown : c.Grown c.connect := grown_append hclients
    constructor
    · rw [hopts.1]
      exact h.opts
    · exact Or.inr (hnodes ▸ hbacked)
    · intro i hi
      rw [heq] at hi
      exact designated_grown hopts hgrown (h.designated i hi)
    · intro attempt hattempt
      have hmem : attempt ∈ c.attempts ++
          [.awaitingNodes (List.range' c.clients.length objects.length)] := by
        rw [heq] at hattempt
        exact hattempt
      rcases List.mem_append.mp hmem with hold | hnew
      · refine (h.attempts attempt hold).grown hopts hgrown fun own hown hsame => ?_
        -- the new objects are none of those of an earlier call
        exfalso
        obtain ⟨i, hi⟩ := List.exists_mem_of_ne_nil own (hown.ne_nil h.opts)
        have hlt := hown.lt hi
        rw [← hsame, hnodes, List.mem_range'_1] at hi
        omega
      · rw [List.mem_singleton.mp hnew]
        exact hbacked

theorem Wired.close {c : Cluster ε} (h : c.Wired) : c.close.Wired := by
  classical
  have hgrown : c.Grown c.close := by
    intro i o ho
    rw [getElem?_close, ho, Option.map_some]
    by_cases hkept : c.Kept i
    · exact ⟨o.ended, by rw [if_pos hkept], rfl, Phase.leads_ended _⟩
    · exact ⟨o, by rw [if_neg hkept], .refl o⟩
  constructor
  · exact h.opts
  · exact Or.inl rfl
  · intro i hi
    cases hi
  · intro attempt hattempt
    refine (h.attempts attempt hattempt).grown ⟨rfl, rfl⟩ hgrown fun own hown hnil => ?_
    exact absurd hnil.symm (hown.ne_nil h.opts)

theorem mem_setAttempt {c : Cluster ε} {k : Nat} {new attempt : Attempt ε}
    (h : attempt ∈ (c.setAttempt k new).attempts) : attempt ∈ c.attempts ∨ attempt = new :=
  List.mem_or_eq_of_mem_set h

/-- A call of `connect` that sets no primary has done what it stands for. -/
theorem Turns.holds {c : Cluster ε} {old new : Attempt ε} (h : c.Turns old new)
    (hold : c.Holds old) : c.Holds new := by
  cases h with
  | noPrimary own hnone hall => exact ⟨hold, hall, fun _ hsome => absurd hnone hsome⟩
  | ready own primary _ => exact ⟨hold.1, hold.2.1, fun hnodes _ => hold.2.2 hnodes⟩
  | thrown attempt e => exact trivial

/-- The node that is found is connected with the options of the primary. -/
theorem target_of_findIdx? {c : Cluster ε} {primaryOpts : Options} {j : Nat}
    (hprimary : c.primaryOpts = some primaryOpts)
    (hfind : c.nodeOpts.findIdx? (sameEndpoint · primaryOpts) = some j) :
    j < c.nodeOpts.length ∧ c.target = c.nodeOpts[j]? := by
  obtain ⟨hlt, hindex⟩ := List.findIdx?_eq_some_iff_findIdx_eq.mp hfind
  refine ⟨hlt, ?_⟩
  rw [target, hprimary, Option.map_some, List.find?_eq_getElem?_findIdx, hindex,
    List.getElem?_eq_getElem hlt, Option.getD_some]

theorem Backed.getElem? {c : Cluster ε} {own : List Nat} (h : c.Backed own) {i j : Nat}
    (hi : own[j]? = some i) : ∃ o, c.clients[i]? = some o ∧ c.nodeOpts[j]? = some o.opts := by
  have hat := congrArg (·[j]?) h
  simp only [List.getElem?_map, hi, Option.map_some] at hat
  obtain ⟨opts, hopts, heq⟩ := Option.map_eq_some_iff.mp hat.symm
  obtain ⟨o, ho, rfl⟩ := Option.map_eq_some_iff.mp heq.symm
  exact ⟨o, ho, hopts⟩

theorem Sets.wired {c c' : Cluster ε} {k : Nat} {own : List Nat} {primaryOpts : Options}
    (hsets : c.Sets k own primaryOpts c') (h : c.Wired)
    (hprimary : c.primaryOpts = some primaryOpts) (hown : c.Backed own)
    (hall : c.AllConnected own) : c'.Wired := by
  cases hsets with
  | node j hfind =>
    obtain ⟨hlt, htarget⟩ := target_of_findIdx? hprimary hfind
    have hset : ∀ own, c.Backed own → c.nodes = own → c.nodes[j]? ≠ none := by
      rintro own hbacked rfl
      rw [List.getElem?_eq_getElem (hbacked.length ▸ hlt)]
      exact Option.some_ne_none _
    constructor
    · exact h.opts
    · exact h.nodes
    · intro i hi
      have hi : c.nodes[j]? = some i := hi
      rcases h.nodes with hnil | hbacked
      · rw [hnil] at hi
        cases hi
      · obtain ⟨o, ho, hopts⟩ := hbacked.getElem? hi
        exact ⟨o, ho, htarget.trans hopts⟩
    · intro attempt hattempt
      rcases mem_setAttempt hattempt with hold | rfl
      · refine (h.attempts attempt hold).grown ⟨rfl, rfl⟩ (grown_of_eq rfl) ?_
        exact fun own hbacked hnodes => ⟨hnodes, fun _ => hset own hbacked hnodes⟩
      · exact ⟨hown, hall, fun hnodes _ => hset own hown hnodes⟩
  | object object hfind hnew =>
    have hgrown : c.Grown ({ c with
        designated := some c.clients.length
        clients := c.clients ++ [object] }.setAttempt k (.awaitingPrimary own c.clients.length)) :=
      grown_append rfl
    constructor
    · exact h.opts
    · exact h.nodes.imp id fun hbacked => hbacked.grown rfl hgrown
    · intro i hi
      cases hi
      have hnone : c.nodeOpts.find? (sameEndpoint · primaryOpts) = none :=
        List.find?_eq_none.mpr fun o ho => by
          simpa using List.findIdx?_eq_none_iff.mp hfind o ho
      have htarget : c.target = some object.opts := by
        rw [target, hprimary, Option.map_some, hnone, Option.getD_none, newClient_opts hnew]
      exact ⟨object, List.getElem?_concat_length, htarget⟩
    · intro attempt hattempt
      rcases mem_setAttempt hattempt with hold | rfl
      · refine (h.attempts attempt hold).grown ⟨rfl, rfl⟩ hgrown ?_
        exact fun own _ hnodes => ⟨hnodes, fun _ => Option.some_ne_none _⟩
      · exact ⟨hown.grown rfl hgrown, hall.grown hgrown, fun _ => Option.some_ne_none _⟩

theorem Wired.resume {c : Cluster ε} (h : c.Wired) (k : Nat) : (c.resume k).Wired := by
  rcases c.resume_cases k with ⟨-, heq⟩ | ⟨-, old, new, hk, hturns, heq⟩ |
    ⟨-, own, primaryOpts, hk, hall, hprimary, hsets⟩
  · rw [heq]
    exact h
  · rw [heq]
    have hnew : c.Holds new := hturns.holds (h.attempts old (List.mem_of_getElem? hk))
    refine h.grown ⟨rfl, rfl⟩ (grown_of_eq rfl) ⟨rfl, rfl⟩ fun attempt hattempt => ?_
    rcases mem_setAttempt hattempt with hold | hlast
    · exact Or.inl hold
    · rw [hlast]
      exact Or.inr (hnew.grown ⟨rfl, rfl⟩ (grown_of_eq rfl) fun _ _ hnodes => ⟨hnodes, id⟩)
  · exact hsets.wired h hprimary (h.attempts _ (List.mem_of_getElem? hk)) hall

theorem Wired.move {c : Cluster ε} (h : c.Wired) (m : Move ε) : (c.move m).Wired := by
  have haside : m.IsNetwork → (c.move m).Wired := fun hm => by
    have haside := c.move_aside hm
    exact h.grown haside.opts haside.grown haside.kept fun attempt hattempt =>
      Or.inl (haside.attempts ▸ hattempt)
  cases m with
  | connect => exact h.connect
  | close => exact h.close
  | resume k => exact h.resume k
  | reached i => exact haside trivial
  | unreachable i e => exact haside trivial
  | answered i reply => exact haside trivial
  | lost i => exact haside trivial

theorem Wired.run {c : Cluster ε} (h : c.Wired) (moves : List (Move ε)) : (c.run moves).Wired := by
  induction moves generalizing c with
  | nil => exact h
  | cons m moves ih => exact ih (h.move m)

theorem create_spec {opts : List Options} {primaryOpts : Option Options} {c : Cluster ε}
    (h : create opts primaryOpts = .ok c) : c.Wired ∧ c.Tidy := by
  rw [create] at h
  split at h
  · cases h
  · rename_i hne
    cases h
    refine ⟨⟨hne, Or.inl rfl, ?_, ?_⟩, ?_⟩
    · intro i hi
      cases hi
    · intro attempt hattempt
      cases hattempt
    · rintro i ⟨o, ho, -⟩
      cases ho

theorem sameEndpoint_self_of_same {a b : Options} (h : sameEndpoint a b) : sameEndpoint b b := by
  rw [sameEndpoint] at h
  split at h
  · cases h
  · rename_i htransport
    rw [not_not.mp htransport] at h
    rw [sameEndpoint, if_neg (by simp)]
    split
    · simp
    · rename_i htcp
      rw [if_neg htcp] at h
      split at h
      · rename_i hws
        rw [if_pos hws]
        simp
      · cases h

/-- The primary of `withPrimaryAndReplicas` is connected with its own options. -/
theorem withPrimaryAndReplicas_target {primary : Options} {replicas : List Options}
    {auth : Option Text} {c : Cluster ε}
    (h : withPrimaryAndReplicas primary replicas auth = .ok c) :
    c.target = some (withAuth auth primary) := by
  cases h
  rw [target, Option.map_some, Option.some.injEq, List.map_cons, List.find?_cons]
  split
  · rfl
  · rename_i hself
    have hnone : (replicas.map (withAuth auth)).find?
        (sameEndpoint · (withAuth auth primary)) = none :=
      List.find?_eq_none.mpr fun o _ hsame => by
        rw [sameEndpoint_self_of_same hsame] at hself
        cases hself
    rw [hnone, Option.getD_none]

/-- Shards have no primary. -/
theorem sharded_target {shards : List Options} {auth : Option Text} {c : Cluster ε}
    (h : sharded shards auth = .ok c) : c.target = none := by
  rw [sharded, create] at h
  split at h
  · cases h
  · cases h
    rfl

theorem RunTidy.last {moves : List (Move ε)} {c : Cluster ε} (h : RunTidy moves c) :
    (c.run moves).Tidy := by
  induction moves generalizing c with
  | nil => exact h
  | cons m moves ih => exact ih h.2

/-- **The life of a cluster.** After any calls of `connect` and `close`, wherever they are, and
whatever the network does: the nodes are one object for each of the options, in their order, or
none; the primary has the options of the first node at its endpoint, or its own; and a `connect`
that returned has connected every one of its nodes. The cluster keeps all its connections if and
only if every call is admitted; then a `close` leaves none, and one that it does not keep stays
until the network ends it. -/
theorem lifecycle {opts : List Options} {primaryOpts : Option Options} {c : Cluster ε}
    (h : create opts primaryOpts = .ok c) (moves : List (Move ε)) :
    (c.run moves).Wired ∧ (RunTidy moves c ↔ RunAdmits moves c) ∧
      (RunAdmits (moves ++ [.close]) c → ∀ i, ¬ (c.run (moves ++ [.close])).LiveAt i) ∧
      ∀ i, (c.run moves).Stray i → ∀ later : List (Move ε), (∀ m ∈ later, ¬ m.Ends i) →
        ((c.run moves).run later).Stray i := by
  obtain ⟨hwired, htidy⟩ := create_spec h
  refine ⟨hwired.run moves, htidy.run_iff moves, fun hadmits i => ?_,
    fun i hstray later hlater => hstray.run hlater⟩
  have hlast := ((htidy.run_iff _).mpr hadmits).last
  have hclose : c.run (moves ++ [.close]) = (c.run moves).close := by
    rw [run, List.foldl_append]
    rfl
  rw [hclose] at hlast ⊢
  exact hlast.not_liveAt_close i

/-- Two nodes, the first of them the primary -/
def twoServers (ε : Type) : Cluster ε where
  nodeOpts :=
    [⟨some "tcp".toList, some "a".toList, some 7780, none, none⟩,
      ⟨some "tcp".toList, some "b".toList, some 7780, none, none⟩]
  primaryOpts := some ⟨some "tcp".toList, some "a".toList, some 7780, none, none⟩
  nodes := []
  designated := none
  clients := []
  rejections := []
  attempts := []

/-- One server is away, so `connect` rejects, and the caller closes the cluster before the
other one has answered. -/
theorem lifecycle_slowServer :
    let moves : List (Move Unit) := [.connect, .unreachable 1 (), .resume 0, .close, .reached 0]
    ¬ RunAdmits moves (twoServers Unit) ∧ ∀ later : List (Move Unit),
      (∀ m ∈ later, ¬ m.Ends 0) → (((twoServers Unit).run moves).run later).Stray 0 := by
  intro moves
  have hcreate : create (twoServers Unit).nodeOpts (twoServers Unit).primaryOpts =
      .ok (twoServers Unit) := rfl
  obtain ⟨-, htidy, -, hstays⟩ := lifecycle hcreate moves
  have hstray : ((twoServers Unit).run moves).Stray 0 := by
    refine ⟨⟨_, rfl, rfl⟩, ?_⟩
    rintro (hnode | hdesignated)
    · cases hnode
    · cases hdesignated
  exact ⟨fun hadmits => hstray.2 ((htidy.mpr hadmits).last 0 hstray.1), hstays 0 hstray⟩

end Cluster

end JsCluster

end CuttleDB
