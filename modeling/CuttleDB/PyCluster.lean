import CuttleDB.PyText
import Mathlib.Data.List.Nodup

/-!
# The wiring of a cluster

`Cluster.connect` opens one connection per endpoint and appends it to `nodes`; the list
is shared by all attempts. It then pairs the endpoints with `nodes` by position to find
the connection to the primary endpoint, and opens one when no pair matches. Which of the
connections of an attempt succeed is up to the network. The file settles for every
sequence of calls when a failed attempt changes nothing and a finished one has wired the
whole cluster.
-/

namespace CuttleDB

/-- host and port -/
abbrev Endpoint := Text × Int

/-- An address as the constructor takes it. -/
inductive Address where
  | text (addr : Text)
  | endpoint (endpoint : Endpoint)
deriving DecidableEq, Repr

/-- A connected `CuttleDB` object, by the number of connections opened before it. -/
structure Connection where
  id : Nat
  endpoint : Endpoint
deriving DecidableEq, Repr

inductive ClusterError where
  | noNodes -- `Cluster requires at least one node`
  | badPort (addr : Text) -- the `ValueError` of `int`
  | connection (endpoint : Endpoint) -- what `CuttleDB.connect` raises
  | noPrimary -- `no primary configured ...`
  | noConnection -- the `ZeroDivisionError` of `% len(nodes)`
deriving DecidableEq, Repr

/-- A `Cluster`, with the connections it has opened and closed. -/
structure Cluster where
  endpoints : List Endpoint
  primaryEndpoint : Option Endpoint
  nodes : List Connection
  /-- `_primary` -/
  designated : Option Connection
  rrIdx : Nat
  opened : Nat
  closed : List Connection
deriving DecidableEq, Repr

namespace Cluster

/-- `_parse` -/
def parse : Address → Except ClusterError Endpoint
  | .endpoint endpoint => .ok endpoint
  | .text addr =>
    let host := addr.takeWhile (· ≠ ':')
    let port := (addr.dropWhile (· ≠ ':')).drop 1
    match Py.int? (if port = [] then "7780".toList else port) with
    | some port => .ok (host, port)
    | none => .error (.badPort addr)

/-- `_parse(primary) if primary else None` -/
def parsePrimary : Option Address → Except ClusterError (Option Endpoint)
  | none => .ok none
  | some (.text []) => .ok none
  | some addr => some <$> parse addr

/-- `__init__` -/
def create (nodes : List Address) (primary : Option Address) : Except ClusterError Cluster :=
  if nodes = [] then .error .noNodes
  else do
    let endpoints ← nodes.mapM parse
    let primaryEndpoint ← parsePrimary primary
    .ok ⟨endpoints, primaryEndpoint, [], none, 0, 0, []⟩

/-! ### Lifecycle -/

/-- `self.nodes.append(CuttleDB.connect(host, port, ..))` -/
def append (c : Cluster) (endpoint : Endpoint) : Cluster :=
  { c with nodes := c.nodes ++ [⟨c.opened, endpoint⟩], opened := c.opened + 1 }

/-- The loop of `connect` over the endpoints. `reach k` says whether the connection that
the attempt opens as its `k`-th succeeds. -/
def connectNodes (reach : Nat → Bool) :
    Nat → List Endpoint → Cluster → Except ClusterError Unit × Cluster
  | _, [], c => (.ok (), c)
  | k, endpoint :: rest, c =>
    if reach k then connectNodes reach (k + 1) rest (c.append endpoint)
    else (.error (.connection endpoint), c)

/-- The connection that is paired with the primary endpoint. -/
def paired (c : Cluster) (target : Endpoint) : Option Connection :=
  ((c.endpoints.zip c.nodes).find? (·.1 = target)).map Prod.snd

/-- The second half of `connect`. `_primary` keeps its value where no pair matches. -/
def connectPrimary (reach : Nat → Bool) (c : Cluster) : Except ClusterError Unit × Cluster :=
  match c.primaryEndpoint with
  | none => (.ok (), c)
  | some target =>
    match (c.paired target).or c.designated with
    | some node => (.ok (), { c with designated := some node })
    | none =>
      if reach c.endpoints.length then
        (.ok (), { c with designated := some ⟨c.opened, target⟩, opened := c.opened + 1 })
      else (.error (.connection target), c)

def connect (reach : Nat → Bool) (c : Cluster) : Except ClusterError Unit × Cluster :=
  match connectNodes reach 0 c.endpoints c with
  | (.ok (), c) => connectPrimary reach c
  | (.error e, c) => (.error e, c)

/-- `close`, also the work of `__exit__` -/
def close (c : Cluster) : Cluster :=
  { c with
    nodes := []
    designated := none
    closed := c.closed ++ c.nodes ++ c.designated.toList.filter (· ∉ c.nodes) }

/-- `__enter__` -/
def enter (reach : Nat → Bool) (c : Cluster) : Except ClusterError Unit × Cluster :=
  if c.nodes = [] then connect reach c else (.ok (), c)

/-! ### Access -/

/-- The property `primary` -/
def primary (c : Cluster) : Except ClusterError Connection :=
  match c.designated with
  | some node => .ok node
  | none => .error .noPrimary

def readRoundRobin (c : Cluster) : Except ClusterError Connection × Cluster :=
  match c.nodes[c.rrIdx % c.nodes.length]? with
  | some node => (.ok node, { c with rrIdx := c.rrIdx + 1 })
  | none => (.error .noConnection, c)

/-- `shard_by`, for the hash or the `fn` that is given the number of nodes -/
def shardBy (c : Cluster) (fn : Nat → Int) : Except ClusterError Connection :=
  match c.nodes[(fn c.nodes.length % c.nodes.length).toNat]? with
  | some node => .ok node
  | none => .error .noConnection

/-! ### Connections -/

/-- What holds of the connections of a cluster after any calls. -/
structure Tracked (c : Cluster) : Prop where
  old : ∀ n ∈ c.nodes ++ c.designated.toList ++ c.closed, n.id < c.opened
  distinct : c.nodes.Nodup
  live : ∀ n ∈ c.nodes ++ c.designated.toList, n ∉ c.closed
  idle : c.nodes = [] → c.designated = none

/-- The whole cluster is wired: one open connection for each endpoint, at its place, and
an open connection to the primary endpoint if there is one. -/
structure Wired (c : Cluster) : Prop where
  nodes : c.nodes.map Connection.endpoint = c.endpoints
  primary : c.designated.map Connection.endpoint = c.primaryEndpoint
  distinct : c.nodes.Nodup
  live : ∀ n ∈ c.nodes ++ c.designated.toList, n ∉ c.closed

theorem Tracked.wired {c : Cluster} (h : Tracked c)
    (hnodes : c.nodes.map Connection.endpoint = c.endpoints)
    (hprimary : c.designated.map Connection.endpoint = c.primaryEndpoint) : Wired c :=
  ⟨hnodes, hprimary, h.distinct, h.live⟩

/-- The next connection is a new one. -/
theorem Tracked.fresh {c : Cluster} (h : Tracked c) (endpoint : Endpoint) :
    (⟨c.opened, endpoint⟩ : Connection) ∉ c.nodes ++ c.designated.toList ++ c.closed :=
  fun hmem => absurd (h.old _ hmem) (Nat.lt_irrefl _)

theorem Tracked.append {c : Cluster} (h : Tracked c) (endpoint : Endpoint) :
    Tracked (c.append endpoint) := by
  have hnew := h.fresh endpoint
  obtain ⟨hold, hdistinct, hlive, hidle⟩ := h
  simp only [List.mem_append, not_or] at hnew
  constructor
  · intro n hn
    simp only [Cluster.append, List.mem_append, List.mem_singleton] at hn hold ⊢
    rcases hn with ((hn | rfl) | hn) | hn
    · exact Nat.lt_succ_of_lt (hold n (Or.inl (Or.inl hn)))
    · exact Nat.lt_succ_self _
    · exact Nat.lt_succ_of_lt (hold n (Or.inl (Or.inr hn)))
    · exact Nat.lt_succ_of_lt (hold n (Or.inr hn))
  · refine List.nodup_append.mpr ⟨hdistinct, List.nodup_singleton _, ?_⟩
    intro n hn m hm heq
    rw [heq, List.mem_singleton.mp hm] at hn
    exact hnew.1.1 hn
  · intro n hn hclosed
    simp only [Cluster.append, List.mem_append, List.mem_singleton] at hn hclosed
    rcases hn with (hn | rfl) | hn
    · exact hlive n (List.mem_append_left _ hn) hclosed
    · exact hnew.2 hclosed
    · exact hlive n (List.mem_append_right _ hn) hclosed
  · intro hnil
    simp [Cluster.append] at hnil

/-- One of the nodes becomes the primary connection. -/
theorem Tracked.reuse {c : Cluster} (h : Tracked c) {node : Connection} (hmem : node ∈ c.nodes) :
    Tracked { c with designated := some node } := by
  obtain ⟨hold, hdistinct, hlive, hidle⟩ := h
  constructor
  · intro n hn
    simp only [Option.toList_some, List.mem_append, List.mem_singleton] at hn hold
    rcases hn with (hn | rfl) | hn
    · exact hold n (Or.inl (Or.inl hn))
    · exact hold n (Or.inl (Or.inl hmem))
    · exact hold n (Or.inr hn)
  · exact hdistinct
  · intro n hn
    simp only [Option.toList_some, List.mem_append, List.mem_singleton] at hn
    rcases hn with hn | rfl
    · exact hlive n (List.mem_append_left _ hn)
    · exact hlive n (List.mem_append_left _ hmem)
  · exact fun hnil => absurd (hnil ▸ hmem) List.not_mem_nil

/-- A new connection becomes the primary one. -/
theorem Tracked.dial {c : Cluster} (h : Tracked c) (hne : c.nodes ≠ []) (target : Endpoint) :
    Tracked { c with designated := some ⟨c.opened, target⟩, opened := c.opened + 1 } := by
  have hnew := h.fresh target
  obtain ⟨hold, hdistinct, hlive, hidle⟩ := h
  constructor
  · intro n hn
    simp only [Option.toList_some, List.mem_append, List.mem_singleton] at hn hold
    rcases hn with (hn | rfl) | hn
    · exact Nat.lt_succ_of_lt (hold n (Or.inl (Or.inl hn)))
    · exact Nat.lt_succ_self _
    · exact Nat.lt_succ_of_lt (hold n (Or.inr hn))
  · exact hdistinct
  · intro n hn hclosed
    simp only [Option.toList_some, List.mem_append, List.mem_singleton] at hn
    rcases hn with hn | rfl
    · exact hlive n (List.mem_append_left _ hn) hclosed
    · exact hnew (List.mem_append_right _ hclosed)
  · exact fun hnil => absurd hnil hne

/-- A connection to the endpoints, one after the other. -/
def appendAll (endpoints : List Endpoint) (c : Cluster) : Cluster :=
  endpoints.foldl Cluster.append c

theorem Tracked.appendAll {c : Cluster} (h : Tracked c) (endpoints : List Endpoint) :
    Tracked (c.appendAll endpoints) := by
  induction endpoints generalizing c with
  | nil => exact h
  | cons endpoint rest ih => exact ih (h.append endpoint)

/-- `appendAll` adds a connection to each endpoint, and touches nothing else. -/
theorem appendAll_spec (endpoints : List Endpoint) (c : Cluster) :
    (∃ made, (c.appendAll endpoints).nodes = c.nodes ++ made ∧
      made.map Connection.endpoint = endpoints) ∧
    (c.appendAll endpoints).endpoints = c.endpoints ∧
    (c.appendAll endpoints).primaryEndpoint = c.primaryEndpoint ∧
    (c.appendAll endpoints).designated = c.designated := by
  induction endpoints generalizing c with
  | nil => exact ⟨⟨[], (List.append_nil _).symm, rfl⟩, rfl, rfl, rfl⟩
  | cons endpoint rest ih =>
    obtain ⟨⟨made, hnodes, hmade⟩, hends, htarget, hprimary⟩ := ih (c.append endpoint)
    refine ⟨⟨⟨c.opened, endpoint⟩ :: made, ?_, ?_⟩, hends, htarget, hprimary⟩
    · have hconcat : (c.append endpoint).nodes = c.nodes ++ [⟨c.opened, endpoint⟩] := rfl
      rw [hconcat, List.append_assoc] at hnodes
      exact hnodes
    · rw [List.map_cons, hmade]

/-- The loop stops at the first connection that fails. -/
theorem connectNodes_cases (reach : Nat → Bool) (k : Nat) (endpoints : List Endpoint)
    (c : Cluster) :
    ((∀ i < endpoints.length, reach (k + i) = true) ∧
      connectNodes reach k endpoints c = (.ok (), c.appendAll endpoints)) ∨
    ∃ j < endpoints.length, (∀ i < j, reach (k + i) = true) ∧ reach (k + j) = false ∧
      ∃ e, connectNodes reach k endpoints c = (.error e, c.appendAll (endpoints.take j)) := by
  induction endpoints generalizing k c with
  | nil => exact Or.inl ⟨fun i hi => absurd hi (Nat.not_lt_zero i), rfl⟩
  | cons endpoint rest ih =>
    cases hreach : reach k with
    | false =>
      refine Or.inr ⟨0, Nat.succ_pos _, fun i hi => absurd hi (Nat.not_lt_zero i), hreach,
        .connection endpoint, ?_⟩
      rw [connectNodes, hreach]
      rfl
    | true =>
      have hstep : connectNodes reach k (endpoint :: rest) c =
          connectNodes reach (k + 1) rest (c.append endpoint) := by
        rw [connectNodes, if_pos hreach]
      have hshift : ∀ i, reach (k + (i + 1)) = reach (k + 1 + i) := fun i => by
        rw [Nat.add_comm i 1, Nat.add_assoc]
      rcases ih (k + 1) (c.append endpoint) with ⟨hall, hrun⟩ | ⟨j, hj, hbefore, hfail, e, hrun⟩
      · refine Or.inl ⟨fun i hi => ?_, hstep.trans hrun⟩
        cases i with
        | zero => exact hreach
        | succ i => exact (hshift i).trans (hall i (Nat.lt_of_succ_lt_succ hi))
      · refine Or.inr ⟨j + 1, Nat.succ_lt_succ hj, fun i hi => ?_, (hshift j).trans hfail, e,
          hstep.trans hrun⟩
        cases i with
        | zero => exact hreach
        | succ i => exact (hshift i).trans (hbefore i (Nat.lt_of_succ_lt_succ hi))

/-- Pairing by position finds a connection to the target, when each node is connected to
the endpoint at its place. -/
theorem paired_eq {c : Cluster} (hnodes : c.nodes.map Connection.endpoint = c.endpoints)
    (target : Endpoint) : c.paired target = c.nodes.find? (·.endpoint = target) := by
  have hzip : c.endpoints.zip c.nodes = c.nodes.map fun n => (n.endpoint, n) := by
    rw [← hnodes, List.zip_map_left, List.zip_eq_zipWith, List.zipWith_self, List.map_map]
    rfl
  rw [paired, hzip, List.find?_map, Option.map_map]
  exact congrFun Option.map_id _

/-! ### Attempts -/

/-- How many connections an attempt opens when all of them succeed. -/
def connections (c : Cluster) : Nat :=
  match c.primaryEndpoint with
  | some target => if target ∈ c.endpoints then c.endpoints.length else c.endpoints.length + 1
  | none => c.endpoints.length

theorem length_le_connections (c : Cluster) : c.endpoints.length ≤ c.connections := by
  unfold connections
  split
  · split
    · exact Nat.le_refl _
    · exact Nat.le_succ _
  · exact Nat.le_refl _

/-- The second half of `connect`, after one connection to each endpoint was opened. -/
theorem connectPrimary_cases (reach : Nat → Bool) {c : Cluster} (h : Tracked c)
    (hne : c.nodes ≠ []) (hnodes : c.nodes.map Connection.endpoint = c.endpoints)
    (hnone : c.designated = none) (hall : ∀ i < c.endpoints.length, reach i = true) :
    ((∀ i < c.connections, reach i = true) ∧
      ∃ c', connectPrimary reach c = (.ok (), c') ∧ Tracked c' ∧ Wired c') ∨
    ((∃ i < c.connections, reach i = false) ∧
      ∃ e, connectPrimary reach c = (.error e, c)) := by
  unfold connectPrimary connections
  cases htarget : c.primaryEndpoint with
  | none =>
    refine Or.inl ⟨hall, c, rfl, h, h.wired hnodes ?_⟩
    rw [hnone, htarget]
    rfl
  | some target =>
    dsimp only
    rw [paired_eq hnodes, hnone, Option.or_none]
    cases hfind : c.nodes.find? (·.endpoint = target) with
    | some node =>
      have hnode : node.endpoint = target := by simpa using List.find?_some hfind
      have hmem : node ∈ c.nodes := List.mem_of_find?_eq_some hfind
      have hlisted : target ∈ c.endpoints := by
        rw [← hnodes, ← hnode]
        exact List.mem_map_of_mem hmem
      have htracked := h.reuse hmem
      rw [htarget] at htracked
      rw [if_pos hlisted]
      exact Or.inl ⟨hall, _, rfl, htracked, htracked.wired hnodes (congrArg some hnode)⟩
    | none =>
      have hunlisted : target ∉ c.endpoints := by
        rw [← hnodes]
        intro hmem
        obtain ⟨n, hn, heq⟩ := List.mem_map.mp hmem
        exact List.find?_eq_none.mp hfind n hn (decide_eq_true heq)
      rw [if_neg hunlisted]
      cases hreach : reach c.endpoints.length with
      | false => exact Or.inr ⟨⟨_, Nat.lt_succ_self _, hreach⟩, _, rfl⟩
      | true =>
        have htracked := h.dial hne target
        rw [htarget] at htracked
        refine Or.inl ⟨fun i hi => ?_, _, rfl, htracked, htracked.wired hnodes rfl⟩
        rcases Nat.lt_succ_iff_lt_or_eq.mp hi with hlt | rfl
        · exact hall i hlt
        · exact hreach

theorem connectPrimary_frame (reach : Nat → Bool) (c : Cluster) :
    (connectPrimary reach c).2.nodes = c.nodes ∧
      (connectPrimary reach c).2.endpoints = c.endpoints := by
  unfold connectPrimary
  split
  · exact ⟨rfl, rfl⟩
  · split
    · exact ⟨rfl, rfl⟩
    · split
      · exact ⟨rfl, rfl⟩
      · exact ⟨rfl, rfl⟩

/-- An attempt only adds to `nodes`: at least one connection if its first one succeeds, and
one for each endpoint if it returns. -/
theorem connect_frame (reach : Nat → Bool) {c : Cluster} (hne : c.endpoints ≠ []) :
    (connect reach c).2.endpoints = c.endpoints ∧
    ∃ made, (connect reach c).2.nodes = c.nodes ++ made ∧ (reach 0 = true → made ≠ []) ∧
      ((connect reach c).1 = .ok () → made.length = c.endpoints.length) := by
  have hpos : 0 < c.endpoints.length := List.length_pos_of_ne_nil hne
  unfold connect
  rcases connectNodes_cases reach 0 c.endpoints c with
    ⟨-, hrun⟩ | ⟨j, hj, -, hfail, e, hrun⟩
  · obtain ⟨⟨made, hnodes, hmade⟩, hends, -, -⟩ := appendAll_spec c.endpoints c
    obtain ⟨hsame, hsameEnds⟩ := connectPrimary_frame reach (c.appendAll c.endpoints)
    have hlength : made.length = c.endpoints.length := by rw [← hmade, List.length_map]
    rw [hrun]
    refine ⟨hsameEnds.trans hends, made, hsame.trans hnodes, fun _ hnil => ?_, fun _ => hlength⟩
    rw [hnil, List.length_nil] at hlength
    omega
  · obtain ⟨⟨made, hnodes, hmade⟩, hends, -, -⟩ := appendAll_spec (c.endpoints.take j) c
    have hlength : made.length = j := by
      have hcount := congrArg List.length hmade
      rw [List.length_map, List.length_take] at hcount
      omega
    rw [hrun]
    refine ⟨hends, made, hnodes, fun hfirst hnil => ?_, fun hok => nomatch hok⟩
    rw [hnil, List.length_nil] at hlength
    rw [← hlength, hfirst] at hfail
    cases hfail

theorem connect_first_fails {reach : Nat → Bool} {c : Cluster} (hne : c.endpoints ≠ [])
    (hfirst : reach 0 = false) : ∃ e, connect reach c = (.error e, c) := by
  obtain ⟨endpoint, rest, hcons⟩ := List.exists_cons_of_ne_nil hne
  refine ⟨.connection endpoint, ?_⟩
  rw [connect, hcons, connectNodes, if_neg (by simp [hfirst])]

/-- An attempt without earlier nodes: it returns if all its connections succeed, and
otherwise it raises. -/
theorem connect_cases {reach : Nat → Bool} {c : Cluster} (h : Tracked c)
    (hne : c.endpoints ≠ []) (hnil : c.nodes = []) :
    ((∀ i < c.connections, reach i = true) ∧
      ∃ c', connect reach c = (.ok (), c') ∧ Tracked c' ∧ Wired c') ∨
    ((∃ i < c.connections, reach i = false) ∧ ∃ e, (connect reach c).1 = .error e) := by
  rcases connectNodes_cases reach 0 c.endpoints c with
    ⟨hall, hrun⟩ | ⟨j, hj, -, hfail, e, hrun⟩
  · obtain ⟨⟨made, hnodes, hmade⟩, hends, htarget, hsame⟩ := appendAll_spec c.endpoints c
    rw [hnil, List.nil_append] at hnodes
    have hmap : (c.appendAll c.endpoints).nodes.map Connection.endpoint =
        (c.appendAll c.endpoints).endpoints := by
      rw [hnodes, hmade, hends]
    have hsome : (c.appendAll c.endpoints).nodes ≠ [] := by
      intro hnone
      rw [hnone, hends] at hmap
      exact hne hmap.symm
    have hcount : (c.appendAll c.endpoints).connections = c.connections := by
      rw [connections, htarget, hends, connections]
    have hreach : ∀ i < (c.appendAll c.endpoints).endpoints.length, reach i = true := by
      intro i hi
      rw [hends] at hi
      simpa using hall i hi
    have hconnect : connect reach c = connectPrimary reach (c.appendAll c.endpoints) := by
      rw [connect, hrun]
    rw [hconnect, ← hcount]
    rcases connectPrimary_cases reach (h.appendAll c.endpoints) hsome hmap
        (hsame.trans (h.idle hnil)) hreach with hok | ⟨hfail, e, herror⟩
    · exact Or.inl hok
    · exact Or.inr ⟨hfail, e, by rw [herror]⟩
  · rw [Nat.zero_add] at hfail
    refine Or.inr ⟨⟨j, Nat.lt_of_lt_of_le hj (length_le_connections c), hfail⟩, e, ?_⟩
    rw [connect, hrun]

/-! ### Runs -/

/-- A call on a cluster; `reach` says which connections of an attempt succeed. -/
inductive Call where
  | connect (reach : Nat → Bool)
  | enter (reach : Nat → Bool)
  | close

def call : Call → Cluster → Except ClusterError Unit × Cluster
  | .connect reach, c => connect reach c
  | .enter reach, c => enter reach c
  | .close, c => (.ok (), close c)

/-- A call that returns has wired the whole cluster, and one that raises has left `nodes`
and `_primary` as they were. -/
def Sound (next : Call) (c : Cluster) : Prop :=
  match next with
  | .close => True
  | .connect _ | .enter _ =>
    match call next c with
    | (.ok (), c') => Wired c'
    | (.error _, c') => c'.nodes = c.nodes ∧ c'.designated = c.designated

def RunSound : List Call → Cluster → Prop
  | [], _ => True
  | next :: calls, c => Sound next c ∧ RunSound calls (call next c).2

/-- An attempt fails at its first connection, or it begins without nodes and all its
connections succeed. `__enter__` makes an attempt only without nodes. -/
def Admits (next : Call) (c : Cluster) : Prop :=
  match next with
  | .close => True
  | .connect reach => reach 0 = false ∨ (c.nodes = [] ∧ ∀ i < c.connections, reach i = true)
  | .enter reach => c.nodes ≠ [] ∨ reach 0 = false ∨ ∀ i < c.connections, reach i = true

def RunAdmits : List Call → Cluster → Prop
  | [], _ => True
  | next :: calls, c => Admits next c ∧ RunAdmits calls (call next c).2

/-- A cluster on which every call so far was sound. -/
structure Settled (c : Cluster) : Prop where
  endpoints : c.endpoints ≠ []
  tracked : Tracked c
  wired : c.nodes ≠ [] → Wired c

theorem Settled.connect_sound_iff {c : Cluster} (h : Settled c) (reach : Nat → Bool) :
    Sound (.connect reach) c ↔ Admits (.connect reach) c := by
  have hcall : call (.connect reach) c = connect reach c := rfl
  unfold Sound Admits
  dsimp only
  rw [hcall]
  cases hfirst : reach 0 with
  | false =>
    obtain ⟨e, hrun⟩ := connect_first_fails h.endpoints hfirst
    rw [hrun]
    exact iff_of_true ⟨rfl, rfl⟩ (Or.inl rfl)
  | true =>
    obtain ⟨hends, made, hnodes, hmade, hlength⟩ := connect_frame reach h.endpoints
    have hgrown : (connect reach c).2.nodes ≠ c.nodes := by
      rw [hnodes]
      exact fun heq => hmade hfirst (List.append_right_eq_self.mp heq)
    by_cases hnil : c.nodes = []
    · rcases connect_cases h.tracked h.endpoints hnil with
        ⟨hall, c', hrun, -, hwired⟩ | ⟨⟨i, hi, hfail⟩, e, herror⟩
      · rw [hrun]
        exact iff_of_true hwired (Or.inr ⟨hnil, hall⟩)
      · generalize connect reach c = result at herror hgrown ⊢
        obtain ⟨r, c'⟩ := result
        obtain rfl : r = .error e := herror
        refine iff_of_false (fun hsound => hgrown hsound.1) ?_
        rintro (hno | ⟨-, hall⟩)
        · cases hno
        · rw [hall i hi] at hfail
          cases hfail
    · generalize connect reach c = result at hends hnodes hlength hgrown ⊢
      obtain ⟨r, c'⟩ := result
      refine iff_of_false ?_ ?_
      · cases r with
        | error e => exact fun hsound => hgrown hsound.1
        | ok u =>
          intro hsound
          have hwired : Wired c' := hsound
          have hnodes' : c'.nodes = c.nodes ++ made := hnodes
          have hends' : c'.endpoints = c.endpoints := hends
          have hcount := congrArg List.length hwired.nodes
          rw [List.length_map, hnodes', List.length_append, hlength rfl, hends'] at hcount
          exact hnil (List.eq_nil_of_length_eq_zero (by omega))
      · rintro (hno | ⟨hnone, -⟩)
        · cases hno
        · exact hnil hnone

theorem Settled.enter_sound_iff {c : Cluster} (h : Settled c) (reach : Nat → Bool) :
    Sound (.enter reach) c ↔ Admits (.enter reach) c := by
  by_cases hnil : c.nodes = []
  · have hsame : Sound (.enter reach) c ↔ Sound (.connect reach) c := by
      have hcall : call (.enter reach) c = call (.connect reach) c := if_pos hnil
      unfold Sound
      dsimp only
      rw [hcall]
    rw [hsame, h.connect_sound_iff]
    simp [Admits, hnil]
  · have hcall : call (.enter reach) c = (.ok (), c) := if_neg hnil
    unfold Sound Admits
    dsimp only
    rw [hcall]
    exact iff_of_true (h.wired hnil) (Or.inl hnil)

theorem Settled.sound_iff {c : Cluster} (h : Settled c) (next : Call) :
    Sound next c ↔ Admits next c := by
  cases next with
  | connect reach => exact h.connect_sound_iff reach
  | enter reach => exact h.enter_sound_iff reach
  | close => exact Iff.rfl

theorem Settled.close {c : Cluster} (h : Settled c) : Settled c.close := by
  refine ⟨h.endpoints, ⟨?_, List.nodup_nil, ?_, fun _ => rfl⟩, fun hne => absurd rfl hne⟩
  · intro n hn
    apply h.tracked.old
    simp only [Cluster.close, List.nil_append, Option.toList_none, List.mem_append,
      List.mem_filter] at hn ⊢
    rcases hn with (hn | hn) | hn
    · exact Or.inr hn
    · exact Or.inl (Or.inl hn)
    · exact Or.inl (Or.inr hn.1)
  · intro n hn
    cases hn

theorem Settled.connect {c : Cluster} (h : Settled c) {reach : Nat → Bool}
    (hadmits : Admits (.connect reach) c) : Settled (call (.connect reach) c).2 := by
  rcases hadmits with hfirst | ⟨hnil, hall⟩
  · obtain ⟨e, hrun⟩ := connect_first_fails h.endpoints hfirst
    have hcall : call (.connect reach) c = (.error e, c) := hrun
    rw [hcall]
    exact h
  · rcases connect_cases h.tracked h.endpoints hnil with
      ⟨-, c', hrun, htracked, hwired⟩ | ⟨⟨i, hi, hfail⟩, -⟩
    · have hends := (connect_frame reach h.endpoints).1
      have hcall : call (.connect reach) c = (.ok (), c') := hrun
      rw [hrun] at hends
      rw [hcall]
      exact ⟨hends ▸ h.endpoints, htracked, fun _ => hwired⟩
    · rw [hall i hi] at hfail
      cases hfail

theorem Settled.step {c : Cluster} (h : Settled c) {next : Call} (hadmits : Admits next c) :
    Settled (call next c).2 := by
  cases next with
  | connect reach => exact h.connect hadmits
  | close => exact h.close
  | enter reach =>
    by_cases hnil : c.nodes = []
    · have hcall : call (.enter reach) c = call (.connect reach) c := if_pos hnil
      have hconnect : Admits (.connect reach) c := by
        rcases hadmits with hne | hattempt
        · exact absurd hnil hne
        · exact hattempt.imp_right fun hall => ⟨hnil, hall⟩
      rw [hcall]
      exact h.connect hconnect
    · have hcall : call (.enter reach) c = (.ok (), c) := if_neg hnil
      rw [hcall]
      exact h

theorem Settled.run_sound_iff {c : Cluster} (h : Settled c) (calls : List Call) :
    RunSound calls c ↔ RunAdmits calls c := by
  induction calls generalizing c with
  | nil => exact Iff.rfl
  | cons next calls ih =>
    constructor
    · rintro ⟨hsound, hrest⟩
      have hadmits := (h.sound_iff next).mp hsound
      exact ⟨hadmits, (ih (h.step hadmits)).mp hrest⟩
    · rintro ⟨hadmits, hrest⟩
      exact ⟨(h.sound_iff next).mpr hadmits, (ih (h.step hadmits)).mpr hrest⟩

theorem mapM_parse_ne_nil {nodes : List Address} {endpoints : List Endpoint}
    (hne : nodes ≠ []) (h : nodes.mapM parse = .ok endpoints) : endpoints ≠ [] := by
  obtain ⟨addr, rest, rfl⟩ := List.exists_cons_of_ne_nil hne
  rw [List.mapM_cons] at h
  rintro rfl
  cases haddr : parse addr with
  | error e =>
    rw [haddr] at h
    cases h
  | ok endpoint =>
    rw [haddr] at h
    cases hrest : rest.mapM parse with
    | error e =>
      rw [hrest] at h
      cases h
    | ok endpoints =>
      rw [hrest] at h
      cases h

theorem create_settled {nodes : List Address} {primary : Option Address} {c : Cluster}
    (hc : create nodes primary = .ok c) : Settled c := by
  have hfresh : ∃ endpoints primaryEndpoint, endpoints ≠ [] ∧
      c = ⟨endpoints, primaryEndpoint, [], none, 0, 0, []⟩ := by
    unfold create at hc
    split at hc
    · cases hc
    · rename_i hne
      cases hparse : nodes.mapM parse with
      | error e =>
        rw [hparse] at hc
        cases hc
      | ok endpoints =>
        cases hprimary : parsePrimary primary with
        | error e =>
          rw [hparse, hprimary] at hc
          cases hc
        | ok primaryEndpoint =>
          rw [hparse, hprimary] at hc
          exact ⟨endpoints, primaryEndpoint, mapM_parse_ne_nil hne hparse, (Except.ok.inj hc).symm⟩
  obtain ⟨endpoints, primaryEndpoint, hends, rfl⟩ := hfresh
  refine ⟨hends, ⟨?_, List.nodup_nil, ?_, fun _ => rfl⟩, fun hno => absurd rfl hno⟩
  · intro n hn
    cases hn
  · intro n hn
    cases hn

/-- **The wiring of a cluster.** In every run of calls on a new cluster, whichever
connections succeed, every call that returns has wired the whole cluster and every call
that raises has left it as it was, exactly if every attempt fails at its first connection
or begins without nodes and completes. -/
theorem wiring_iff {nodes : List Address} {primary : Option Address} {c : Cluster}
    (hc : create nodes primary = .ok c) (calls : List Call) :
    RunSound calls c ↔ RunAdmits calls c :=
  (create_settled hc).run_sound_iff calls

/-- An attempt that fails at once, a retry, and a second session. -/
theorem wiring_iff_sessions :
    RunSound [.connect fun _ => false, .enter fun _ => true, .close, .connect fun _ => true]
      ⟨[("a".toList, 7780), ("b".toList, 7781)], some ("b".toList, 7781), [], none, 0, 0, []⟩ :=
  (@wiring_iff [.text "a".toList, .text "b:7781".toList] (some (.text "b:7781".toList)) _ rfl
    _).mpr ⟨Or.inl rfl, Or.inr (Or.inr fun _ _ => rfl), trivial,
      Or.inr ⟨rfl, fun _ _ => rfl⟩, trivial⟩

/-- The second node refuses the first attempt. The retry returns with three nodes, the
endpoint `b` is paired with a connection to `a`, and that one is the primary connection;
entering the cluster instead returns with one node. -/
theorem retry_miswires :
    let a : Endpoint := ("a".toList, 7780)
    let b : Endpoint := ("b".toList, 7780)
    let c : Cluster := ⟨[a, b], some b, [], none, 0, 0, []⟩
    let refused := connect (fun k => k ≠ 1) c
    let retried := connect (fun _ => true) refused.2
    let entered := enter (fun _ => true) refused.2
    create [.endpoint a, .endpoint b] (some (.endpoint b)) = .ok c ∧
      (refused.1 = .error (.connection b) ∧ refused.2.nodes = [⟨0, a⟩]) ∧
      (retried.1 = .ok () ∧ retried.2.nodes = [⟨0, a⟩, ⟨1, a⟩, ⟨2, b⟩] ∧
        retried.2.primary = .ok ⟨1, a⟩) ∧
      (entered.1 = .ok () ∧ entered.2.nodes = [⟨0, a⟩]) ∧
      ¬ RunSound [.connect fun k => k ≠ 1, .connect fun _ => true] c := by
  refine ⟨rfl, ⟨rfl, rfl⟩, ⟨rfl, rfl, rfl⟩, ⟨rfl, rfl⟩, ?_⟩
  rintro ⟨⟨hnodes, -⟩, -⟩
  cases hnodes

/-! ### Routing -/

/-- In a wired cluster the primary connection is one to the primary endpoint. -/
theorem Wired.primary_endpoint {c : Cluster} (h : Wired c) {target : Endpoint}
    (htarget : c.primaryEndpoint = some target) :
    ∃ node, c.primary = .ok node ∧ node.endpoint = target := by
  have hmap := h.primary
  rw [htarget] at hmap
  obtain ⟨node, hnode, hend⟩ := Option.map_eq_some_iff.mp hmap
  exact ⟨node, by rw [Cluster.primary, hnode], hend⟩

/-- In a wired cluster a key goes to the endpoint at its index. -/
theorem Wired.shardBy_endpoint {c : Cluster} (h : Wired c) (hne : c.endpoints ≠ [])
    (fn : Nat → Int) :
    ∃ node, c.shardBy fn = .ok node ∧
      c.endpoints[(fn c.endpoints.length % c.endpoints.length).toNat]? = some node.endpoint := by
  have hlength : c.nodes.length = c.endpoints.length := by rw [← h.nodes, List.length_map]
  have hpos : 0 < c.endpoints.length := List.length_pos_of_ne_nil hne
  have hindex : (fn c.endpoints.length % c.endpoints.length).toNat < c.nodes.length := by
    have hlow := Int.emod_nonneg (fn c.endpoints.length)
      (show (c.endpoints.length : Int) ≠ 0 by omega)
    have hhigh := Int.emod_lt_of_pos (fn c.endpoints.length)
      (show (0 : Int) < c.endpoints.length by omega)
    omega
  refine ⟨c.nodes[(fn c.endpoints.length % c.endpoints.length).toNat], ?_, ?_⟩
  · rw [shardBy, hlength, List.getElem?_eq_getElem hindex]
  · conv_lhs => rw [← h.nodes]
    rw [List.getElem?_map, h.nodes, List.getElem?_eq_getElem hindex]
    rfl

/-- In a wired cluster the reads go round the endpoints. -/
theorem Wired.readRoundRobin_endpoint {c : Cluster} (h : Wired c) (hne : c.endpoints ≠ []) :
    ∃ node, c.readRoundRobin = (.ok node, { c with rrIdx := c.rrIdx + 1 }) ∧
      c.endpoints[c.rrIdx % c.endpoints.length]? = some node.endpoint := by
  have hlength : c.nodes.length = c.endpoints.length := by rw [← h.nodes, List.length_map]
  have hindex : c.rrIdx % c.endpoints.length < c.nodes.length := by
    rw [hlength]
    exact Nat.mod_lt _ (List.length_pos_of_ne_nil hne)
  refine ⟨c.nodes[c.rrIdx % c.endpoints.length], ?_, ?_⟩
  · rw [readRoundRobin, hlength, List.getElem?_eq_getElem hindex]
  · conv_lhs => rw [← h.nodes]
    rw [List.getElem?_map, h.nodes, List.getElem?_eq_getElem hindex]
    rfl

end Cluster

end CuttleDB
