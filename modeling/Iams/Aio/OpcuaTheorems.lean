/-
Iams.Aio.OpcuaTheorems — the calls of an OPC-UA coroutine, however they
interleave and whatever the server refuses.

The caches are written after an `await`, when they may no longer be as the
call has seen them, so that two calls for one path may both ask the server.
`calls_coherent` says that this does no harm: what is cached or returned for a path
is the node of that path, and what a name stands for is the node of a path
that has been given with this name. `asked_later` says what the caches are
for: once a path, an interval or the end is stored, nobody asks again.

A subscription by names is made of coroutines that never run: such a call
asks for no node (`May`).

No `sorry`, no `axiom`, no `native_decide`.
-/
import Iams.Aio.Opcua

namespace Iams.Aio.Opcua

open Iams.Lib Iams.Lib.Interleaving

variable {Node Value VariantType Subscription : Type}

/-! ## The server -/

/-- What the server answers: the children of its object folder, the values
that it reads and those that it takes, and the interval of a subscription. -/
structure Server (Node Value VariantType Subscription : Type) where
  child : List String → Option Node
  reads : List Node → List Value → Prop
  writes : List Node → List (DataValue Value VariantType) → Prop
  interval : Subscription → Nat

variable (server : Server Node Value VariantType Subscription) (client : Client Node)

/-- An exception that is not raised by a dictionary. -/
def Raised.Foreign (raised : Raised) : Prop := ∀ key, raised ≠ .keyError key

/-- A request returns what the server says, or it fails or is cancelled. -/
def Server.Answers :
    (request : Request Node Value VariantType Subscription) → Except Raised request.Reply → Prop
  | .getChild path, .ok node => server.child path = some node
  | .readValues nodes, .ok values => server.reads nodes values
  | .writeValues nodes values, .ok _ => server.writes nodes values
  | .createSubscription interval, .ok subscription => server.interval subscription = interval
  | .subscribeDataChange _ _, .ok _ => True
  | .disconnect, .ok _ => True
  | _, .error raised => raised.Foreign

/-- The node of a path. -/
def Resolves : Path → Node → Prop
  | .browse path, node => server.child path = some node
  | .nodeid id, node => client.getNode id = .ok node

/-! ## The contract -/

variable (calls : Call Node Value VariantType → Prop)

/-- The path has been given with the name. -/
def Named (name : Option String) (path : Path) : Prop :=
  name ≠ none ∧ calls (.getNode name (some path))

/-- The caches say what the server says. -/
structure Coherent (s : OPCUACoroutine Node Subscription) : Prop where
  paths : ∀ path node, s.paths.get? path = some node → server.child path = some node
  nodes : ∀ name node, s.nodes.get? name = some node →
    ∃ path, Named calls name path ∧ Resolves server client path node
  subscriptions : ∀ interval subscription, s.subscriptions.get? interval = some subscription →
    server.interval subscription = interval

/-- The caches only grow, and the coroutine stays stopped. -/
structure Follows (s t : OPCUACoroutine Node Subscription) : Prop where
  paths : ∀ path node, s.paths.get? path = some node → t.paths.get? path = some node
  nodes : ∀ name, (s.nodes.get? name).isSome → (t.nodes.get? name).isSome
  subscriptions : ∀ interval, (s.subscriptions.get? interval).isSome →
    (t.subscriptions.get? interval).isSome
  stopped : s.stopped = true → t.stopped = true

/-- What a call may ask the server for, and when. -/
def May : Call Node Value VariantType → OPCUACoroutine Node Subscription →
    Request Node Value VariantType Subscription → Prop
  | call, s, .getChild path => s.paths.get? path = none ∧
      ((∃ name, call = .getNode name (some (.browse path)) ∧ s.nodes.get? name = none) ∨
        ∃ paths, call = .readMany paths ∧ .browse path ∈ paths)
  | call, _, .readValues nodes => ∃ paths, call = .readMany paths ∧ paths ≠ [] ∧
      List.Forall₂ (Resolves server client) paths nodes
  | call, _, .writeValues nodes values => ∃ data, call = .writeMany data ∧ data ≠ [] ∧
      nodes = data.map (·.1) ∧ values = data.map fun item => ⟨item.2.1, item.2.2⟩
  | call, s, .createSubscription interval => s.subscriptions.get? interval = none ∧
      ∃ nodes, call = .subscribe nodes interval
  | call, _, .subscribeDataChange subscription targets => ∃ nodes : OPCUACoroutine.Nodes Node,
      call = .subscribe nodes (server.interval subscription) ∧ targets = nodes.targets
  | call, s, .disconnect => call = .stop ∧ s.stopped = false

/-- What a call may return or raise. -/
def Result : (call : Call Node Value VariantType) → Except Raised call.Result → Prop
  | .getNode name path, .ok node => ∃ path', (path = some path' ∨ Named calls name path') ∧
      Resolves server client path' node
  | .getNode _ path, .error raised => ∀ key, raised = .keyError key → path = none
  | .readMany paths, .ok values => (paths = [] ∧ values = []) ∨
      ∃ nodes, List.Forall₂ (Resolves server client) paths nodes ∧ server.reads nodes values
  | .writeMany data, .ok written => written = true → data = [] ∨
      server.writes (data.map (·.1)) (data.map fun item => ⟨item.2.1, item.2.2⟩)
  | .subscribe _ _, .ok _ => True
  | .stop, .ok _ => True
  | .readMany _, .error raised => raised.Foreign
  | .subscribe _ _, .error raised => raised.Foreign
  | .writeMany _, .error raised => raised = .cancelled
  | .stop, .error raised => raised = .cancelled

/-- The contract of the calls. -/
def contract : Contract (OPCUACoroutine Node Subscription)
    (@Request.Reply Node Value VariantType Subscription) Raised (Call Node Value VariantType) where
  inv := Coherent server client calls
  rel := Follows
  may := May server client
  answers := server.Answers
  refl _ := ⟨fun _ _ h => h, fun _ h => h, fun _ h => h, fun h => h⟩
  trans h h' := ⟨fun path node hp => h'.paths path node (h.paths path node hp),
    fun name hn => h'.nodes name (h.nodes name hn),
    fun interval hi => h'.subscriptions interval (h.subscriptions interval hi),
    fun hs => h'.stopped (h.stopped hs)⟩

/-- Between two `await`s: the state is coherent, and follows the one in which
the call went on. -/
def Kept (start s : OPCUACoroutine Node Subscription) : Prop :=
  Coherent server client calls s ∧ Follows start s

variable {server client calls} {start s : OPCUACoroutine Node Subscription}

/-! ### Entries of the caches -/

theorem Kept.storePath (h : Kept server client calls start s) {path : List String} {node : Node}
    (hnode : server.child path = some node) :
    Kept server client calls start { s with paths := s.paths.set path node } := by
  obtain ⟨⟨hpaths, hnodes, hsubs⟩, hrel⟩ := h
  refine ⟨⟨fun p n hp => ?_, hnodes, hsubs⟩,
    ⟨fun p n hp => ?_, hrel.nodes, hrel.subscriptions, hrel.stopped⟩⟩
  · rw [Dict.get?_set] at hp
    split at hp
    · next heq => rw [heq, hnode, hp]
    · exact hpaths p n hp
  · -- another call may have stored the path meanwhile: with the same node
    have hold := hrel.paths p n hp
    rw [Dict.get?_set]
    split
    · next heq => rw [← hnode, ← heq, hpaths p n hold]
    · exact hold

theorem Kept.storeNode (h : Kept server client calls start s) {name : Option String} {path : Path}
    {node : Node} (hname : Named calls name path) (hnode : Resolves server client path node) :
    Kept server client calls start { s with nodes := s.nodes.set name node } := by
  obtain ⟨⟨hpaths, hnodes, hsubs⟩, hrel⟩ := h
  refine ⟨⟨hpaths, fun a n ha => ?_, hsubs⟩,
    ⟨hrel.paths, fun a ha => ?_, hrel.subscriptions, hrel.stopped⟩⟩
  · rw [Dict.get?_set] at ha
    split at ha
    · next heq => exact ⟨path, heq ▸ hname, Option.some.inj ha ▸ hnode⟩
    · exact hnodes a n ha
  · rw [Dict.get?_set]
    split
    · rfl
    · exact hrel.nodes a ha

theorem Kept.storeSubscription (h : Kept server client calls start s) {interval : Nat}
    {subscription : Subscription} (hsub : server.interval subscription = interval) :
    Kept server client calls start
      { s with subscriptions := s.subscriptions.set interval subscription } := by
  obtain ⟨⟨hpaths, hnodes, hsubs⟩, hrel⟩ := h
  refine ⟨⟨hpaths, hnodes, fun i n hi => ?_⟩,
    ⟨hrel.paths, hrel.nodes, fun i hi => ?_, hrel.stopped⟩⟩
  · rw [Dict.get?_set] at hi
    split at hi
    · next heq => rw [heq, ← hsub, Option.some.inj hi]
    · exact hsubs i n hi
  · rw [Dict.get?_set]
    split
    · rfl
    · exact hrel.subscriptions i hi

theorem Kept.report (h : Kept server client calls start s) (stats : List Stats) :
    Kept server client calls start { s with stats := stats } :=
  ⟨⟨h.1.paths, h.1.nodes, h.1.subscriptions⟩,
    ⟨h.2.paths, h.2.nodes, h.2.subscriptions, h.2.stopped⟩⟩

theorem Kept.halt (h : Kept server client calls start s) :
    Kept server client calls start { s with stopped := true } :=
  ⟨⟨h.1.paths, h.1.nodes, h.1.subscriptions⟩,
    ⟨h.2.paths, h.2.nodes, h.2.subscriptions, fun _ => rfl⟩⟩

/-! ## The methods -/

variable {call : Call Node Value VariantType}

/-- Await an answer, as the contract has it. -/
theorem ask_spec {request : Request Node Value VariantType Subscription}
    {Q : OPCUACoroutine Node Subscription → OPCUACoroutine Node Subscription →
      Except Raised request.Reply → Prop}
    (h : Kept server client calls start s) (hmay : May server client call s request)
    (hanswer : ∀ t r, Kept server client calls t t → server.Answers request r → Q t t r) :
    (contract server client calls).wp call (OPCUACoroutine.ask request) Q start s :=
  ⟨h.1, h.2, hmay, fun r hr t ht _ =>
    hanswer t r ⟨ht, (contract server client calls).refl t⟩ hr⟩

theorem getPath_spec {path : List String} (h : Kept server client calls start s)
    (hmay : s.paths.get? path = none → May server client call s (.getChild path)) :
    (contract server client calls).wp call (OPCUACoroutine.getPath path) (fun start s r =>
      Kept server client calls start s ∧
        Ending (Resolves server client (.browse path)) Raised.Foreign r) start s := by
  rw [OPCUACoroutine.getPath, Contract.wp_read_bind]
  split
  · next node hnode => exact ⟨h, h.1.paths path node hnode⟩
  · next hnone =>
    rw [Contract.wp_bind]
    refine ask_spec h (hmay hnone) ?_
    rintro t (raised | node) ht hr
    · exact ⟨ht, hr⟩
    · exact Contract.wp_bind.mpr ⟨ht.storePath hr, hr⟩

theorem resolve_spec {path : Path} (h : Kept server client calls start s)
    (hmay : ∀ names, path = .browse names → s.paths.get? names = none →
      May server client call s (.getChild names)) :
    (contract server client calls).wp call (OPCUACoroutine.resolve client path) (fun start s r =>
      Kept server client calls start s ∧
        Ending (Resolves server client path) Raised.Foreign r) start s := by
  cases path with
  | browse names => exact getPath_spec h (hmay names rfl)
  | nodeid id =>
    rw [OPCUACoroutine.resolve]
    cases hid : client.getNode id with
    | ok node => exact ⟨h, hid⟩
    | error message => exact ⟨h, fun key => by simp⟩

theorem getNode_spec {name : Option String} {path : Option Path}
    (h : Kept server client calls start s)
    (hname : ∀ p, path = some p → name ≠ none → Named calls name p)
    (hmay : ∀ names, path = some (.browse names) → s.nodes.get? name = none →
      s.paths.get? names = none → May server client call s (.getChild names)) :
    (contract server client calls).wp call (OPCUACoroutine.getNode client name path)
      (fun start s r => Kept server client calls start s ∧
        Result server client calls (.getNode name path) r) start s := by
  unfold OPCUACoroutine.getNode
  rw [Contract.wp_read_bind]
  split
  · next node hnode =>
    obtain ⟨p, hp, hres⟩ := h.1.nodes name node hnode
    exact ⟨h, p, .inr hp, hres⟩
  · next hnone =>
    match path with
    | none => exact ⟨h, fun _ _ => rfl⟩
    | some p =>
      refine Contract.wp_bind.mpr (Contract.wp_mono ?_
        (resolve_spec h fun names hp => hmay names (hp ▸ rfl) hnone))
      rintro start t (raised | node) ⟨ht, hr⟩
      · exact ⟨ht, fun key hkey => absurd hkey (hr key)⟩
      · dsimp only
        split
        · next hsome => exact ⟨ht.storeNode (hname p rfl hsome) hr, p, .inl rfl, hr⟩
        · exact ⟨ht, p, .inl rfl, hr⟩

/-- Without a name a node is the one of its path. -/
theorem getNode_unnamed {paths : List Path} {path : Path} (hpath : path ∈ paths)
    (h : Kept server client calls start s) :
    (contract server client calls).wp (.readMany paths)
      (OPCUACoroutine.getNode client none (some path)) (fun start s r =>
        Kept server client calls start s ∧
          Ending (Resolves server client path) Raised.Foreign r) start s := by
  refine Contract.wp_mono ?_ (getNode_spec h (fun _ _ hname => absurd rfl hname)
    fun names hp _ hnone => ⟨hnone, .inr ⟨paths, rfl, Option.some.inj hp ▸ hpath⟩⟩)
  rintro start t (raised | node) ⟨ht, hr⟩
  · exact ⟨ht, fun key hkey => Option.some_ne_none _ (hr key hkey)⟩
  · obtain ⟨p, hp | hp, hres⟩ := hr
    · exact ⟨ht, Option.some.inj hp ▸ hres⟩
    · exact absurd rfl hp.1

theorem readMany_spec {paths : List Path} (h : Kept server client calls start s) :
    (contract server client calls).wp (.readMany paths) (OPCUACoroutine.readMany client paths)
      (fun start s r => Kept server client calls start s ∧
        Result server client calls (.readMany paths) r) start s := by
  rw [OPCUACoroutine.readMany]
  split
  · next hnil => exact ⟨h, .inl ⟨hnil, rfl⟩⟩
  · next hne =>
    rw [Contract.wp_bind]
    refine Contract.wp_mono ?_ (Contract.wp_mapM'
      (fun path hpath start s hs => getNode_unnamed hpath hs) h)
    rintro start t (raised | nodes) ⟨ht, hr⟩
    · exact ⟨ht, hr⟩
    · refine Contract.wp_bind.mpr (ask_spec ht ⟨paths, rfl, hne, hr⟩ ?_)
      rintro u (raised | values) hu hvalues
      · exact ⟨hu, hvalues⟩
      · exact ⟨hu.report _, .inr ⟨nodes, hr, hvalues⟩⟩

theorem writeMany_spec {data : List (Node × Value × VariantType)}
    (h : Kept server client calls start s) :
    (contract server client calls).wp (.writeMany data) (OPCUACoroutine.writeMany data)
      (fun start s r => Kept server client calls start s ∧
        Result server client calls (.writeMany data) r) start s := by
  rw [OPCUACoroutine.writeMany]
  split
  · next hnil => exact ⟨h, fun _ => .inl (List.map_eq_nil_iff.mp hnil)⟩
  · next hne =>
    have hdata : data ≠ [] := fun hnil => hne (by rw [hnil, List.map_nil])
    rw [Contract.wp_bind, Contract.wp_tryCatch, Contract.wp_bind]
    refine ask_spec h ⟨data, rfl, hdata, rfl, rfl⟩ ?_
    rintro t (raised | u) ht hr
    · cases raised with
      | cancelled => exact ⟨ht, rfl⟩
      | keyError key => exact absurd rfl (hr key)
      | client message => exact ⟨ht, fun htrue => absurd htrue Bool.false_ne_true⟩
    · exact ⟨ht.report _, fun _ => .inr hr⟩

theorem subscription_spec {nodes : OPCUACoroutine.Nodes Node} {interval : Nat}
    (h : Kept server client calls start s) :
    (contract server client calls).wp (.subscribe nodes interval)
      (OPCUACoroutine.subscription interval) (fun start s r => Kept server client calls start s ∧
        Ending (fun subscription => server.interval subscription = interval) Raised.Foreign r)
      start s := by
  rw [OPCUACoroutine.subscription, Contract.wp_read_bind]
  split
  · next subscription hsub =>
    exact ⟨h, h.1.subscriptions _ _ hsub⟩
  · next hnone =>
    rw [Contract.wp_bind]
    refine ask_spec h ⟨hnone, nodes, rfl⟩ ?_
    rintro t (raised | subscription) ht hr
    · exact ⟨ht, hr⟩
    · exact Contract.wp_bind.mpr ⟨ht.storeSubscription hr, hr⟩

theorem subscribe_spec {nodes : OPCUACoroutine.Nodes Node} {interval : Nat}
    (h : Kept server client calls start s) :
    (contract server client calls).wp (.subscribe nodes interval)
      (OPCUACoroutine.subscribe nodes interval) (fun start s r =>
        Kept server client calls start s ∧
          Result server client calls (.subscribe nodes interval) r) start s := by
  rw [OPCUACoroutine.subscribe, Contract.wp_bind]
  refine Contract.wp_mono ?_ (subscription_spec h)
  rintro start t (raised | subscription) ⟨ht, hr⟩
  · exact ⟨ht, hr⟩
  · refine ask_spec ht ⟨nodes, by rw [hr], rfl⟩ ?_
    rintro u (raised | v) hu hr
    · exact ⟨hu, hr⟩
    · exact ⟨hu, trivial⟩

theorem stop_spec (h : Kept server client calls start s) :
    (contract server client calls).wp .stop OPCUACoroutine.stop (fun start s r =>
      Kept server client calls start s ∧ Result server client calls .stop r) start s := by
  rw [OPCUACoroutine.stop, Contract.wp_read_bind]
  split
  · exact ⟨h, trivial⟩
  · next hgo =>
    rw [Contract.wp_bind, Contract.wp_tryCatch]
    refine ask_spec h ⟨rfl, by simpa using hgo⟩ ?_
    rintro t (raised | u) ht hr
    · cases raised with
      | cancelled => exact ⟨ht, rfl⟩
      | keyError key => exact absurd rfl (hr key)
      | client message => exact ⟨ht.halt, trivial⟩
    · exact ⟨ht.halt, trivial⟩

/-- Every call keeps the contract. -/
theorem call_keeps (call : Call Node Value VariantType) (hcall : calls call) :
    (contract server client calls).Keeps (Result server client calls) call (call.code client) := by
  intro s hs
  have h : Kept server client calls s s := ⟨hs, (contract server client calls).refl s⟩
  refine Contract.wp_mono (fun _ _ _ h => and_assoc.mp h) ?_
  cases call with
  | getNode name path =>
    exact getNode_spec h (fun p hp hname => ⟨hname, hp ▸ hcall⟩)
      fun names hp hname hpath => ⟨hpath, .inl ⟨name, hp ▸ rfl, hname⟩⟩
  | readMany paths => exact readMany_spec h
  | writeMany data => exact writeMany_spec h
  | subscribe nodes interval => exact subscribe_spec h
  | stop => exact stop_spec h

/-! ## Runs -/

theorem coherent_setup : Coherent server client calls (OPCUACoroutine.setup) :=
  ⟨fun _ _ h => absurd h (by simp [OPCUACoroutine.setup]),
    fun _ _ h => absurd h (by simp [OPCUACoroutine.setup]),
    fun _ _ h => absurd h (by simp [OPCUACoroutine.setup])⟩

variable (server client) in
/-- A run of a coroutine after its `setup`. -/
abbrev Reached (s : Loop Node Value VariantType Subscription) : Prop :=
  Run (Call.code client) server.Answers (fun _ => True) (.init OPCUACoroutine.setup) s

section Run

variable {s s' : Loop Node Value VariantType Subscription}

/-- The contract holds with the calls that have been made so far. -/
theorem sound_of_reached (h : Reached server client s) :
    (contract server client (· ∈ s.calls)).Sound (Result server client (· ∈ s.calls)) s :=
  Contract.sound call_keeps (Contract.sound_init coherent_setup) h.made

/-- A call returns what its paths stand for, where a name may also stand for
a path that another call has given with it. -/
theorem result_of_reached (h : Reached server client s) {call : Call Node Value VariantType}
    {r : Except Raised call.Result} (hr : ⟨call, .finished r⟩ ∈ s.tasks) :
    Result server client (· ∈ s.calls) call r :=
  (sound_of_reached h).tasks _ hr

/-- Where no call gives its name with another path, `get_node` returns the
node of the path that it is given. -/
theorem getNode_own (h : Reached server client s) {name : Option String} {path : Path}
    {node : Node}
    (hname : name ≠ none → ∀ path', .getNode name (some path') ∈ s.calls → path' = path)
    (hr : ⟨.getNode name (some path), .finished (.ok node)⟩ ∈ s.tasks) :
    Resolves server client path node := by
  obtain ⟨path', hpath, hres⟩ := result_of_reached h hr
  rcases hpath with heq | ⟨hsome, hcall⟩
  · exact Option.some.inj heq ▸ hres
  · exact hname hsome path' hcall ▸ hres

/-- However the calls interleave and whatever fails: the caches agree with
the server, a call asks for nothing but what it needs, and it returns what
its paths stand for; a name stands for a path that has been given with it,
and for the call's own path where no other has. -/
theorem calls_coherent (h : Reached server client s) :
    Coherent server client (· ∈ s.calls) s.state ∧
      (∀ call r, ⟨call, .finished r⟩ ∈ s.tasks → Result server client (· ∈ s.calls) call r) ∧
      (∀ call t request, (call, t, request) ∈ s.asked → May server client call t request) ∧
      ∀ name path node, (name ≠ none → ∀ path', .getNode name (some path') ∈ s.calls →
          path' = path) →
        ⟨.getNode name (some path), .finished (.ok node)⟩ ∈ s.tasks →
          Resolves server client path node := by
  obtain ⟨hinv, -, hasked⟩ := sound_of_reached h
  exact ⟨hinv, fun call r => result_of_reached h, fun call t request he => (hasked _ he).1,
    fun name path node hname => getNode_own h hname⟩

/-- What is cached is not asked for again, in no later interleaving. -/
theorem asked_later (h : Reached server client s)
    (h' : Run (Call.code client) server.Answers (fun _ => True) s s') :
    Follows s.state s'.state ∧ ∃ new, s'.asked = s.asked ++ new ∧
      ∀ call t request, (call, t, request) ∈ new →
        (∀ path node, s.state.paths.get? path = some node → request ≠ .getChild path) ∧
        (∀ interval subscription, s.state.subscriptions.get? interval = some subscription →
          request ≠ .createSubscription interval) ∧
        (s.state.stopped = true → request ≠ .disconnect) := by
  have hsound := Contract.sound (@call_keeps _ _ _ _ server client fun _ => True)
    (Contract.sound_init coherent_setup) h
  obtain ⟨hrel, new, hnew, hall⟩ := Contract.later call_keeps hsound h'
  have hmay := (Contract.sound call_keeps hsound h').asked
  refine ⟨hrel, new, hnew, fun call t request he => ?_⟩
  have hrel' : Follows s.state t := hall _ he
  have hcall : May server client call t request :=
    (hmay (call, t, request) (hnew ▸ List.mem_append_right _ he)).1
  refine ⟨?_, ?_, ?_⟩
  · rintro path node hpath rfl
    have hnone : t.paths.get? path = none := hcall.1
    exact Option.some_ne_none _ ((hrel'.paths path node hpath).symm.trans hnone)
  · rintro interval subscription hsub rfl
    have hnone : t.subscriptions.get? interval = none := hcall.1
    have hsome := hrel'.subscriptions interval (by rw [hsub]; rfl)
    rw [hnone] at hsome
    exact Bool.false_ne_true hsome
  · rintro hstop rfl
    have hgo : t.stopped = false := hcall.2
    exact Bool.false_ne_true (hgo.symm.trans (hrel'.stopped hstop))

end Run

/-! ## Two calls for one path -/

/-- A server that answers everything. -/
def openServer : Server Nat Nat Unit Nat where
  child path := some path.length
  reads nodes values := values = nodes.map (· + 10)
  writes _ _ := True
  interval subscription := subscription

def openReply : (request : Request Nat Nat Unit Nat) → Except Raised request.Reply
  | .getChild path => .ok path.length
  | .readValues nodes => .ok (nodes.map (· + 10))
  | .writeValues _ _ => .ok ()
  | .createSubscription interval => .ok interval
  | .subscribeDataChange _ _ => .ok ()
  | .disconnect => .ok ()

theorem openReply_answers (request : Request Nat Nat Unit Nat) :
    openServer.Answers request (openReply request) := by
  cases request <;> simp [Server.Answers, openServer, openReply]

def openClient : Client Nat := ⟨fun id => .ok id.length⟩

def openPlay : Loop Nat Nat Unit Nat → Event (Call Nat Nat Unit) → Loop Nat Nat Unit Nat :=
  play (Call.code openClient) openReply

/-- Both calls wait for the same path. -/
def race : Loop Nat Nat Unit Nat :=
  [.call (.getNode (some "a") (some (.browse ["a"]))), .call (.readMany [.browse ["a"]]),
    .answer 0, .answer 1, .answer 1].foldl openPlay (.init OPCUACoroutine.setup)

theorem reached_race : Reached openServer openClient race :=
  run_play openReply_answers (fun _ _ => trivial) _

theorem calls_race : race.calls =
    [.getNode (some "a") (some (.browse ["a"])), .readMany [.browse ["a"]]] := rfl

theorem calls_coherent_race :
    race.asked.length = 3 ∧ race.state.paths.get? ["a"] = some 1 ∧
      Coherent openServer openClient (· ∈ race.calls) race.state ∧
      (∀ call r, ⟨call, .finished r⟩ ∈ race.tasks →
        Result openServer openClient (· ∈ race.calls) call r) ∧
      Resolves openServer openClient (.browse ["a"]) 1 := by
  obtain ⟨hcoherent, hresult, -, hown⟩ := calls_coherent reached_race
  refine ⟨by decide, by decide, hcoherent, hresult, hown (some "a") _ _ ?_ (List.Mem.head _)⟩
  intro _ path hpath
  simp only [calls_race, List.mem_cons, Call.getNode.injEq, Option.some.injEq, reduceCtorEq,
    List.not_mem_nil, or_false] at hpath
  exact hpath.2

/-- The path, an interval and the end are stored. -/
def stored : Loop Nat Nat Unit Nat :=
  [.call (.subscribe (.list [1]) 5), .answer 2, .answer 2, .call .stop, .answer 3].foldl openPlay
    race

/-- The same is asked for again, with a path that is new. -/
def again : Loop Nat Nat Unit Nat :=
  [.call (.readMany [.browse ["a"], .browse ["b"]]), .call (.subscribe (.list [2]) 5), .call .stop,
    .answer 4, .answer 4, .answer 5].foldl openPlay stored

theorem asked_later_race :
    stored.state.stopped = true ∧ again.asked.length = stored.asked.length + 3 ∧
      ∃ new, again.asked = stored.asked ++ new ∧ ∀ call t, (call, t, .getChild ["a"]) ∉ new ∧
        (call, t, .createSubscription 5) ∉ new ∧ (call, t, .disconnect) ∉ new := by
  have hstored : Reached openServer openClient stored :=
    reached_race.trans (run_play openReply_answers (fun _ _ => trivial) _)
  have hagain : Run (Call.code openClient) openServer.Answers (fun _ => True) stored again :=
    run_play openReply_answers (fun _ _ => trivial) _
  obtain ⟨-, new, hnew, hall⟩ := asked_later hstored hagain
  refine ⟨by decide, by decide, new, hnew, fun call t => ⟨fun he => ?_, fun he => ?_, fun he => ?_⟩⟩
  · exact (hall call t _ he).1 ["a"] 1 (by decide) rfl
  · exact (hall call t _ he).2.1 5 5 (by decide) rfl
  · exact (hall call t _ he).2.2 (by decide) rfl

end Iams.Aio.Opcua
