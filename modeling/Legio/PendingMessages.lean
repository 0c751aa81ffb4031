import Legio.NodeLocks
import Legio.SignedProvenance

set_option linter.style.header false

/-! Which threads block on a lock of their own. Messages may already be pending on a
channel when it is added; they are handled before `addChannel` gives its lock back. -/
namespace PendingMessages

open LegioBinary LegioCrypto LegioMessage LegioNode Containers ExceptionStates LockedPrograms
open NodeLocks (Mutex ThreadM flush)
open GraphUpdates LinkStateStore NodeRuns TransportSteps

variable {Id Pair Ecdh Chan : Type}

inductive EntryPoint (Id Chan : Type) where
  | addChannel (channel : Chan) (pending : List Binary)
  | removeChannel (channel : Chan) (pending : List Binary)
  | addNeighbor (remoteId : Id) (channel : Chan)
  | removeNeighbor (remoteId : Id) (channel : Chan)
  | send (port : Port) (remoteId : Id) (payload : Binary) (random : Iv)
  | broadcast (port : Port) (payload : Binary)
  | update
  | received (channel : Chan) (data : Binary)
  | neighborEvent

section Entries
variable [LinearOrder Id] [DecidableEq Chan] (K : CryptoPP Id Pair Ecdh) (H : Host Id)

def EntryPoint.run : EntryPoint Id Chan → ThreadM Id Pair Ecdh Chan Unit
  | .addChannel channel pending => NodeLocks.Routing.addChannel K H channel pending
  | .removeChannel channel pending => NodeLocks.Routing.removeChannel channel pending
  | .addNeighbor remoteId channel => NodeLocks.Routing.addNeighbor K H remoteId channel
  | .removeNeighbor remoteId channel => NodeLocks.Routing.removeNeighbor K H remoteId channel
  | .send port remoteId payload random =>
    NodeLocks.Transport.send K H port remoteId payload random
  | .broadcast port payload => NodeLocks.Transport.broadcast K H port payload
  | .update => NodeLocks.Graph.update K H
  | .received channel data => NodeLocks.Routing.onMessage K H channel data
  | .neighborEvent => NodeLocks.Graph.notifyNeighbor K H

/-- Nodes as threads leave them that did not block, one after the other. -/
inductive Reachable : Node Id Pair Ecdh Chan → Prop where
  | created {n} : Created K H n → Reachable n
  | status {n} (isOpen : Chan → Bool) : Reachable n →
      Reachable { n with wire := { n.wire with isOpen } }
  | entered {n} (entry : EntryPoint Id Chan) : Reachable n → ¬ Blocks ∅ (entry.run K H) n →
      Reachable (final (entry.run K H ⟨∅, n⟩)).memory

def EntryPoint.effect (n : Node Id Pair Ecdh Chan) : EntryPoint Id Chan → Node Id Pair Ecdh Chan
  | .addChannel channel pending => NodeRuns.run K H n
      (pending.map (NodeEvent.received channel) ++ [.addChannel channel])
  | .removeChannel channel _ => final (Node.removeChannel channel n)
  | .addNeighbor remoteId channel => final (Node.addNeighbor K H remoteId channel n)
  | .removeNeighbor remoteId channel => final (Node.removeNeighbor K H remoteId channel n)
  | .send port remoteId payload random => final (Transport.send K H port remoteId payload random n)
  | .broadcast port payload => final (Transport.broadcast K H port payload n)
  | .update => final (Graph.update K H n)
  | .received channel data => Node.onMessage K H n channel data
  | .neighborEvent => final (Graph.notifyNeighbor K H n)

def Stale [DecidableEq Id] (n : Node Id Pair Ecdh Chan) (s : State Id) : Prop :=
  ∃ current, n.graph.stateOf s.id = some current ∧
    compareSequence s.sequence current.sequence ≤ 0

/-- What the message makes the graph and the user's transport do needs no lock of Routing;
`t` is the transport by then. -/
structure Local (n : Node Id Pair Ecdh Chan) (t : Transport Id) (m : Message Id) (source : Id) :
    Prop where
  here : ∀ destination, m.destination = some destination → destination = n.id K
  hello : m.type ≠ MessageType.Hello
  state : m.type = MessageType.State → ∀ s, State.fromMessage K m = .ok s → Stale n s
  user : m.type = MessageType.User → m.destination = none →
    (t.checkSequence source m.sequence).1 = false

def Harmless (n : Node Id Pair Ecdh Chan) (t : Transport Id) (data : Binary) : Prop :=
  ∀ m source, Message.parse K H.byteOrder data = .ok m → m.source = some source →
    Local K n t m source

def noted (t : Transport Id) (data : Binary) : Transport Id :=
  match Message.parse K H.byteOrder data with
  | .error _ => t
  | .ok m =>
    match m.source with
    | none => t
    | some source =>
      if m.type = MessageType.User then (t.checkSequence source m.sequence).2 else t

def HarmlessInTurn (n : Node Id Pair Ecdh Chan) : Transport Id → List Binary → Prop
  | _, [] => True
  | t, data :: pending => Harmless K H n t data ∧ HarmlessInTurn n (noted K H t data) pending

def EntryPoint.Clear (n : Node Id Pair Ecdh Chan) : EntryPoint Id Chan → Prop
  | .addChannel _ pending => HarmlessInTurn K H n n.userTransport pending
  | _ => True

end Entries

section Holding
variable [LinearOrder Id] [DecidableEq Chan] {K : CryptoPP Id Pair Ecdh} (H : Host Id)
  {n n' : Node Id Pair Ecdh Chan} {held : Finset Mutex} (hheld : Mutex.routing ∈ held)

omit [DecidableEq Chan] in
include hheld in
theorem computeRoutingTable_blocks
    (hrun : Graph.computeRoutingTable K H n = .ok () n') :
    Blocks held (NodeLocks.Graph.computeRoutingTable K H) n := by
  set n₁ : Node Id Pair Ecdh Chan := { n with
    graph := { n.graph with heap := n.graph.resetSearch H } } with hn₁
  rw [Graph.computeRoutingTable, modifyGraph, modify_bind_run, get_bind_run, ← hn₁] at hrun
  refine blocks_after (u := n₁) (a := ()) rfl (blocks_after (u := n₁) (a := n₁) rfl ?_)
  cases hroot : n₁.graph.findVertice (n₁.id K) with
  | none =>
    simp only [hroot] at hrun
    cases hrun
  | some localVertice =>
    simp only [hroot] at hrun
    dsimp only
    generalize searchLoop H _ _ = result at hrun
    cases result with
    | none => cases hrun
    | some s =>
      exact blocks_after (a := ()) rfl (blocks_locked hheld)

omit [DecidableEq Chan] in
include hheld in
theorem updateEdges_passes {id : Id} {neighbors : Finset Id} {changed : Bool}
    (hrun : Graph.updateEdges K H id neighbors n = .ok changed n') :
    Passes held (NodeLocks.Graph.updateEdges K H id neighbors) n changed n' := by
  rw [Graph.updateEdges, get_bind_run] at hrun
  refine passes_bind (u := n) (Or.inl rfl) ?_
  cases hp : n.graph.findVertice id with
  | none =>
    simp only [hp] at hrun
    cases hrun
  | some vertice =>
    simp only [hp] at hrun ⊢
    split_ifs at hrun ⊢
    · cases hrun
      exact Or.inl rfl
    · right
      rw [modifyGraph, modify_bind_run] at hrun
      cases hcompute : Graph.computeRoutingTable K H { n with
          graph := (iterate (neighbors \ keySet (n.graph.heap vertice).edges)).foldl
            (Graph.link vertice)
            ((iterate (keySet (n.graph.heap vertice).edges \ neighbors)).foldl
              (Graph.unlink vertice) n.graph) } with
      | error e n₂ =>
        rw [bind_error hcompute] at hrun
        cases hrun
      | ok _ n₂ =>
        exact blocks_after (a := ()) rfl
          (blocks_bind (computeRoutingTable_blocks H hheld hcompute) _)

omit [DecidableEq Chan] in
include hheld in
theorem updateStoredEdges_passes {vertice : Ptr}
    (hrun : Graph.updateVertice.updateStoredEdges K H vertice n = .ok true n') :
    Passes held (NodeLocks.Graph.updateVertice.updateStoredEdges K H vertice) n true n' := by
  rw [Graph.updateVertice.updateStoredEdges, get_bind_run] at hrun
  refine passes_bind (u := n) (Or.inl rfl) ?_
  cases hstate : (n.graph.heap vertice).state with
  | none =>
    simp only [hstate] at hrun ⊢
    cases hrun
    exact Or.inl rfl
  | some state =>
    simp only [hstate] at hrun ⊢
    cases hedges : Graph.updateEdges K H (n.graph.heap vertice).mIdentifier state.neighbors n with
    | error e n₁ =>
      rw [bind_error hedges] at hrun
      cases hrun
    | ok changed n₁ =>
      rw [bind_ok hedges] at hrun
      cases hrun
      exact passes_bind (updateEdges_passes H hheld hedges) (Or.inl rfl)

include hheld in
theorem broadcastStateWith_blocks (update : State Id → ThreadM Id Pair Ecdh Chan Bool) :
    Blocks held (NodeLocks.Graph.broadcastStateWith K H update) n :=
  blocks_after (a := n) rfl (blocks_after (a := ()) rfl (blocks_bind (blocks_locked hheld) _))

theorem updateVertice_stale_run {s : State Id} (h : Stale n s) (depth : ℕ) :
    NodeLocks.Graph.updateVertice K H (depth + 1) s ⟨held, n⟩ = .ok false ⟨held, n⟩ := by
  obtain ⟨current, hcurrent, hstale⟩ := h
  cases hp : n.graph.mVertices.lookup s.id with
  | none =>
    rw [stateOf_of_notMem hp] at hcurrent
    cases hcurrent
  | some p =>
    rw [stateOf_of_lookup hp] at hcurrent
    rw [NodeLocks.Graph.updateVertice, memory_bind]
    simp only [Graph.findVertice, hp, hcurrent, if_pos hstale]
    rfl

include hheld in
theorem updateVertice_passes (hn : Rooted K n) {s : State Id} (h : ¬ Stale n s) (depth : ℕ) :
    ∃ n', Passes held (NodeLocks.Graph.updateVertice K H (depth + 1) s) n true n' := by
  have hannounce : ∀ n : Node Id Pair Ecdh Chan, Blocks held
      (NodeLocks.Graph.broadcastStateWith K H (NodeLocks.Graph.updateVertice K H depth)) n :=
    fun _ => broadcastStateWith_blocks H hheld _
  cases hp : n.graph.mVertices.lookup s.id with
  | none =>
    refine ⟨n, passes_bind (u := n) (Or.inl rfl) (Or.inr ?_)⟩
    simp only [Graph.findVertice, hp]
    exact blocks_after (a := ()) rfl (blocks_bind (hannounce _) _)
  | some p =>
    cases hstate : (n.graph.heap p).state with
    | none =>
      refine ⟨n, passes_bind (u := n) (Or.inl rfl) (Or.inr ?_)⟩
      simp only [Graph.findVertice, hp, hstate]
      exact blocks_bind (hannounce n) _
    | some current =>
      have hnewer : ¬ compareSequence s.sequence current.sequence ≤ 0 := fun hle =>
        h ⟨current, (stateOf_of_lookup hp).trans hstate, hle⟩
      by_cases hkey : current.ecdhPublic = s.ecdhPublic
      · obtain ⟨hput, hstored⟩ := storeState_spec hn hp
        obtain ⟨n', hrun, _⟩ := updateStoredEdges_spec H hput.rooted (hput.pointers hp) hstored
        refine ⟨n', passes_bind (u := n) (Or.inl rfl) ?_⟩
        simp only [Graph.findVertice, hp, hstate, if_neg hnewer, ne_eq, hkey, not_true_eq_false,
          if_false]
        exact passes_bind (a := ()) (Or.inl rfl) (updateStoredEdges_passes H hheld hrun)
      · refine ⟨n, passes_bind (u := n) (Or.inl rfl) (Or.inr ?_)⟩
        simp only [Graph.findVertice, hp, hstate, if_neg hnewer, ne_eq, hkey, not_false_eq_true,
          if_true]
        exact blocks_bind (hannounce n) _

end Holding

section Message
variable [LinearOrder Id] [DecidableEq Chan] {K : CryptoPP Id Pair Ecdh} (H : Host Id)
  {n n' : Node Id Pair Ecdh Chan} {m : Message Id} {source : Id} (channel : Option Chan)

theorem graph_free : Mutex.graph ∉ ({Mutex.routing} : Finset Mutex) := by decide

theorem routing_held : Mutex.routing ∈ ({Mutex.routing} : Finset Mutex) := by decide

theorem insert_stale {s : State Id} (h : Stale n s) :
    NodeLocks.Graph.insert K H s ⟨{Mutex.routing}, n⟩ = .ok false ⟨{Mutex.routing}, n⟩ := by
  obtain ⟨depth, hdepth⟩ := H.stack_succ
  rw [NodeLocks.Graph.insert, hdepth]
  exact locked_ok graph_free (updateVertice_stale_run H h depth)

theorem insert_passes (hn : Rooted K n) {s : State Id} (h : ¬ Stale n s) :
    ∃ n', Passes {Mutex.routing} (NodeLocks.Graph.insert K H s) n true n' := by
  obtain ⟨depth, hdepth⟩ := H.stack_succ
  have hheld : Mutex.routing ∈ insert Mutex.graph ({Mutex.routing} : Finset Mutex) := by decide
  obtain ⟨n', hpasses⟩ := updateVertice_passes H hheld hn h depth
  refine ⟨n', ?_⟩
  rw [NodeLocks.Graph.insert, hdepth]
  exact passes_locked graph_free hpasses

theorem graphMessage_local {t : Transport Id} (h : Local K n t m source) :
    NodeLocks.Graph.notifyMessage K H m channel ⟨{Mutex.routing}, n⟩ =
        under {Mutex.routing} (Graph.notifyMessage K H m channel n) ∧
      final (Graph.notifyMessage K H m channel n) = n := by
  rw [NodeLocks.Graph.notifyMessage, Graph.notifyMessage, if_neg h.hello, if_neg h.hello]
  split_ifs with htype
  · rw [NodeLocks.Graph.notifyState, Graph.notifyState]
    cases hstate : State.fromMessage K m with
    | error e => exact ⟨rfl, rfl⟩
    | ok s =>
      have hstale := h.state htype s hstate
      have hlocked : NodeLocks.Graph.insert K H s ⟨{Mutex.routing}, n⟩ =
          .ok false ⟨{Mutex.routing}, n⟩ := insert_stale H hstale
      have hmodel : Graph.insert K H s n = .ok false n :=
        insert_notFresh H (not_fresh_iff.mpr hstale)
      dsimp only
      rw [bind_of_ok hlocked, bind_ok hmodel]
      exact ⟨rfl, rfl⟩
  · exact ⟨rfl, rfl⟩

theorem transportMessage_local (port : Port)
    (hport : m.source = some source) (hstale : port = .user → m.type = (n.transport port).mType →
      m.destination = none → (n.userTransport.checkSequence source m.sequence).1 = false) :
    NodeLocks.Transport.notifyMessage K H port m channel ⟨{Mutex.routing}, n⟩ =
      under {Mutex.routing} (Transport.notifyMessage K H port m channel n) := by
  refine under_bind rfl fun a s' hread => ?_
  cases hread
  simp only [hport]
  split_ifs with htype
  · rfl
  · rw [ne_eq, not_not] at htype
    cases port with
    | signaling => rfl
    | user =>
      dsimp only
      rw [NodeLocks.BroadcastableTransport.incoming, BroadcastableTransport.incoming]
      cases hto : m.destination with
      | some destination => rfl
      | none =>
        have hcheck := checkSequence_run n .user source m.sequence
        have hfalse : (n.transport .user).checkSequence source m.sequence =
            (false, ((n.transport .user).checkSequence source m.sequence).2) :=
          Prod.ext (hstale rfl htype hto) rfl
        refine under_bind rfl fun fresh s' hfresh => ?_
        rw [hcheck, hfalse] at hfresh
        cases hfresh
        rfl

theorem signaling_keeps (t : Transport Id)
    (core : Pair × Routing Id Chan × LegioNode.Graph Id Ecdh) :
    Keeps (fun n : Node Id Pair Ecdh Chan => Typed n ∧ n.core = core ∧ n.userTransport = t)
      (Transport.notifyMessage K H .signaling m channel) := by
  refine keeps_get_bind fun n hn => ?_
  cases m.source with
  | none => exact hn
  | some remoteId =>
    dsimp only
    split_ifs
    · exact hn
    · have hcheck : Keeps (fun n : Node Id Pair Ecdh Chan =>
          Typed n ∧ n.core = core ∧ n.userTransport = t)
          (Node.checkSequence .signaling remoteId m.sequence) := fun n hn =>
        ⟨⟨(checkSequence_mType _ remoteId m.sequence).trans hn.1.signaling, hn.1.user⟩, hn.2⟩
      have hcallback : ∀ payload, Keeps (fun n : Node Id Pair Ecdh Chan =>
          Typed n ∧ n.core = core ∧ n.userTransport = t)
          (Node.callback .signaling m remoteId payload) := fun _ n hn =>
        ⟨⟨hn.1.signaling, hn.1.user⟩, hn.2⟩
      exact incoming_reaches K hcallback (hcheck n hn)

theorem nodeMessage_local (hn : Typed n) (hsource : m.source = some source)
    (h : Local K n n.userTransport m source) :
    NodeLocks.Node.notifyMessage K H m channel ⟨{Mutex.routing}, n⟩ =
      under {Mutex.routing} (Node.notifyMessage K H m channel n) := by
  obtain ⟨hgraph, hsame⟩ := graphMessage_local H channel h
  refine under_bind hgraph fun _ n₁ hrun => ?_
  rw [hrun] at hsame
  obtain rfl : n = n₁ := hsame.symm
  refine under_bind (transportMessage_local H channel .signaling hsource nofun) fun _ n₂ hrun₂ => ?_
  have hkept := signaling_keeps (K := K) H (m := m) channel n.userTransport n.core n ⟨hn, rfl, rfl⟩
  rw [hrun₂] at hkept
  obtain ⟨htyped, _, huser⟩ := hkept
  refine transportMessage_local H channel .user hsource fun _ htype hto => ?_
  rw [final_ok] at huser
  rw [huser]
  exact h.user (htype.trans htyped.user) hto

theorem route_here (held : Finset Mutex) (hsource : m.source = some source)
    (hhere : ∀ destination, m.destination = some destination → destination = n.id K)
    (from_ : Option Chan) :
    NodeLocks.Routing.route K H m from_ ⟨held, n⟩ =
        NodeLocks.Node.notifyMessage K H m from_ ⟨held, n⟩ ∧
      Node.route K H m from_ n = Node.notifyMessage K H m from_ n := by
  have hsome : ¬ m.source = none := by rw [hsource]; exact Option.some_ne_none source
  rw [NodeLocks.Routing.route, Node.route, get_bind_run, Routing.route, if_neg hsome, if_neg hsome]
  rw [memory_bind]
  cases hto : m.destination with
  | none => exact ⟨rfl, rfl⟩
  | some destination =>
    dsimp only
    rw [if_pos (hhere destination hto), if_pos (hhere destination hto)]
    exact ⟨rfl, rfl⟩

theorem onMessage_harmless (hn : Typed n) {data : Binary} (c : Chan)
    (h : Harmless K H n n.userTransport data) :
    NodeLocks.Routing.onMessage K H c data ⟨{Mutex.routing}, n⟩ =
      .ok () ⟨{Mutex.routing}, Node.onMessage K H n c data⟩ := by
  rw [NodeLocks.Routing.onMessage, Node.onMessage]
  cases hparse : Message.parse K H.byteOrder data with
  | error e => rfl
  | ok m =>
    dsimp only
    cases hsource : m.source with
    | none =>
      rw [NodeLocks.Routing.route, if_pos hsource, Node.route, get_bind_run, Routing.route,
        if_pos hsource]
      rfl
    | some source =>
      have hlocal := h m source hparse hsource
      obtain ⟨hthread, hmodel⟩ := route_here H {Mutex.routing} hsource hlocal.here (some c)
      rw [handled, hthread, nodeMessage_local H (some c) hn hsource hlocal, hmodel]
      cases Node.notifyMessage K H m (some c) n <;> rfl

structure Noted (K : CryptoPP Id Pair Ecdh) (H : Host Id) (n : Node Id Pair Ecdh Chan)
    (data : Binary) (n' : Node Id Pair Ecdh Chan) : Prop where
  typed : Typed n'
  core : n'.core = n.core
  table : n'.userTransport.mSequences = (noted K H n.userTransport data).mSequences

theorem user_skips (hother : m.type ≠ MessageType.User) (t : Transport Id)
    (core : Pair × Routing Id Chan × LegioNode.Graph Id Ecdh) :
    Keeps (fun n : Node Id Pair Ecdh Chan => Typed n ∧ n.core = core ∧ n.userTransport = t)
      (Transport.notifyMessage K H .user m channel) := by
  refine keeps_get_bind fun n hn => ?_
  cases m.source with
  | none => exact hn
  | some remoteId =>
    have hskip : m.type ≠ (n.transport .user).mType := fun htype =>
      hother (htype.trans hn.1.user)
    simp only [if_pos hskip]
    exact hn

theorem onMessage_noted (hn : Typed n) {data : Binary} (c : Chan)
    (h : Harmless K H n n.userTransport data) :
    Noted K H n data (Node.onMessage K H n c data) := by
  have hsilent : noted K H n.userTransport data = n.userTransport → Noted K H n data n :=
    fun hnoted => ⟨hn, rfl, congrArg Transport.mSequences hnoted.symm⟩
  rw [Node.onMessage]
  cases hparse : Message.parse K H.byteOrder data with
  | error e => exact hsilent (by simp only [noted, hparse])
  | ok m =>
    dsimp only
    cases hsource : m.source with
    | none =>
      rw [Node.route, get_bind_run, Routing.route, if_pos hsource]
      exact hsilent (by simp only [noted, hparse, hsource])
    | some source =>
      have hlocal := h m source hparse hsource
      obtain ⟨_, hmodel⟩ := route_here H {Mutex.routing} hsource hlocal.here (some c)
      rw [hmodel]
      by_cases huser : m.type = MessageType.User
      · have hnoted : noted K H n.userTransport data =
            (n.userTransport.checkSequence source m.sequence).2 := by
          simp only [noted, hparse, hsource, if_pos huser]
        have hmType : (n.userTransport.checkSequence source m.sequence).2.mType =
            MessageType.User := (checkSequence_mType _ source m.sequence).trans hn.user
        rw [notifyMessage_user H hn hsource huser]
        cases hto : m.destination with
        | none =>
          have hstale := hlocal.user huser hto
          rw [incoming_broadcast H hto, hstale, if_neg Bool.false_ne_true]
          exact ⟨⟨hn.signaling, hmType⟩, rfl, congrArg Transport.mSequences hnoted.symm⟩
        | some destination =>
          obtain ⟨payloads, hfinal⟩ := incoming_direct (K := K) H (n := n) hto source (some c)
          rw [hfinal]
          exact ⟨⟨hn.signaling, hmType⟩, rfl, by rw [hnoted]⟩
      · have hnoted : noted K H n.userTransport data = n.userTransport := by
          simp only [noted, hparse, hsource, if_neg huser]
        obtain ⟨_, hsame⟩ := graphMessage_local (m := m) H (some c) hlocal
        have hrest := keeps_bind
          (signaling_keeps (K := K) H (m := m) (some c) n.userTransport n.core)
          (fun _ => user_skips (K := K) H (some c) huser n.userTransport n.core) n ⟨hn, rfl, rfl⟩
        rw [Node.notifyMessage]
        cases hgraph : Graph.notifyMessage K H m (some c) n with
        | error e n₁ =>
          rw [hgraph] at hsame
          obtain rfl : n = n₁ := hsame.symm
          rw [bind_error hgraph]
          exact hsilent hnoted
        | ok _ n₁ =>
          rw [hgraph] at hsame
          obtain rfl : n = n₁ := hsame.symm
          rw [bind_ok hgraph]
          obtain ⟨htyped, hcore, hkept⟩ := hrest
          exact ⟨htyped, hcore, by rw [hkept, hnoted]⟩

theorem notifyState_blocks (hn : Rooted K n) {s : State Id}
    (hstate : State.fromMessage K m = .ok s) (h : ¬ Stale n s) :
    Blocks {Mutex.routing} (NodeLocks.Graph.notifyState K H m channel) n := by
  obtain ⟨n', hok | hblocks⟩ := insert_passes H hn h
  · rw [NodeLocks.Graph.notifyState, hstate]
    exact blocks_after hok (blocks_locked routing_held)
  · rw [NodeLocks.Graph.notifyState, hstate]
    exact blocks_bind hblocks _

theorem hello_blocks (hsource : m.source = some source) (hello : m.type = MessageType.Hello)
    (c : Chan) : Blocks {Mutex.routing} (NodeLocks.Graph.notifyMessage K H m (some c)) n := by
  rw [NodeLocks.Graph.notifyMessage, if_pos hello]
  simp only [NodeLocks.Graph.notifyHello, hsource]
  exact blocks_bind (blocks_locked routing_held) _

theorem user_blocks (hn : Typed n) (hsource : m.source = some source)
    (huser : m.type = MessageType.User) (hto : m.destination = none)
    (hfresh : (n.userTransport.checkSequence source m.sequence).1 = true) :
    Blocks {Mutex.routing} (NodeLocks.Node.notifyMessage K H m channel) n := by
  have hhello : m.type ≠ MessageType.Hello := by rw [huser]; decide
  have hstate : m.type ≠ MessageType.State := by rw [huser]; decide
  have hsignaling : m.type ≠ (n.transport .signaling).mType := by
    change m.type ≠ n.signaling.mType
    rw [huser, hn.signaling]
    decide
  have hhere : ¬ m.type ≠ (n.transport .user).mType := not_not.mpr (huser.trans hn.user.symm)
  have hgraph : NodeLocks.Graph.notifyMessage K H m channel ⟨{Mutex.routing}, n⟩ =
      .ok () ⟨{Mutex.routing}, n⟩ := by
    rw [NodeLocks.Graph.notifyMessage, if_neg hhello, if_neg hstate]
    rfl
  have hskip : NodeLocks.Transport.notifyMessage K H .signaling m channel
      ⟨{Mutex.routing}, n⟩ = .ok () ⟨{Mutex.routing}, n⟩ := by
    rw [NodeLocks.Transport.notifyMessage, memory_bind]
    simp only [hsource, if_pos hsignaling]
    rfl
  refine blocks_after hgraph (blocks_after hskip (blocks_after (a := n) rfl ?_))
  simp only [hsource, if_neg hhere, NodeLocks.BroadcastableTransport.incoming, hto]
  have hcheck := checkSequence_run n .user source m.sequence
  have hpassed : (free (Node.checkSequence .user source m.sequence) :
      ThreadM Id Pair Ecdh Chan Bool) ⟨{Mutex.routing}, n⟩ = .ok true ⟨{Mutex.routing},
        n.setTransport .user ((n.transport .user).checkSequence source m.sequence).2⟩ := by
    rw [free, hcheck, ← hfresh]
    rfl
  exact blocks_after hpassed (blocks_bind (blocks_locked routing_held) _)

theorem nodeMessage_blocks (hrooted : Rooted K n) (hn : Typed n) (hsource : m.source = some source)
    (hhere : ∀ destination, m.destination = some destination → destination = n.id K)
    (h : ¬ Local K n n.userTransport m source) (c : Chan) :
    Blocks {Mutex.routing} (NodeLocks.Node.notifyMessage K H m (some c)) n := by
  by_cases hello : m.type = MessageType.Hello
  · exact blocks_bind (hello_blocks H hsource hello c) _
  by_cases hstate : m.type = MessageType.State →
      ∀ s, State.fromMessage K m = .ok s → Stale n s
  · by_cases huser : m.type = MessageType.User → m.destination = none →
        (n.userTransport.checkSequence source m.sequence).1 = false
    · exact absurd ⟨hhere, hello, hstate, huser⟩ h
    · push Not at huser
      obtain ⟨htype, hto, hfresh⟩ := huser
      exact user_blocks H (some c) hn hsource htype hto (Bool.eq_true_of_not_eq_false hfresh)
  · push Not at hstate
    obtain ⟨htype, s, hs, hnews⟩ := hstate
    refine blocks_bind ?_ _
    rw [NodeLocks.Graph.notifyMessage, if_neg hello, if_pos htype]
    exact notifyState_blocks H (some c) hrooted hs hnews

theorem onMessage_blocks (hrooted : Rooted K n) (hn : Typed n) {data : Binary} (c : Chan)
    (h : ¬ Harmless K H n n.userTransport data) :
    Blocks {Mutex.routing} (NodeLocks.Routing.onMessage K H c data) n := by
  rw [Harmless] at h
  push Not at h
  obtain ⟨m, source, hparse, hsource, hnot⟩ := h
  have hsome : ¬ m.source = none := by rw [hsource]; exact Option.some_ne_none source
  rw [NodeLocks.Routing.onMessage, hparse]
  apply blocks_handled
  dsimp only
  by_cases hhere : ∀ destination, m.destination = some destination → destination = n.id K
  · obtain ⟨hthread, _⟩ := route_here H {Mutex.routing} hsource hhere (some c)
    exact blocks_congr hthread (nodeMessage_blocks H hrooted hn hsource hhere hnot c)
  · push Not at hhere
    obtain ⟨destination, hto, hother⟩ := hhere
    rw [NodeLocks.Routing.route, if_neg hsome]
    refine blocks_after (a := n) rfl ?_
    simp only [hto, if_neg hother]
    exact blocks_bind (blocks_locked routing_held) _

end Message

section Pending
variable [LinearOrder Id] [DecidableEq Chan] {K : CryptoPP Id Pair Ecdh} (H : Host Id)
  {n n₀ : Node Id Pair Ecdh Chan}

omit [LinearOrder Id] [DecidableEq Chan] in
theorem checkSequence_congr [DecidableEq Id] {t t' : Transport Id}
    (h : t.mSequences = t'.mSequences) (id : Id) (sequence : UInt32) :
    (t.checkSequence id sequence).1 = (t'.checkSequence id sequence).1 ∧
      (t.checkSequence id sequence).2.mSequences =
        (t'.checkSequence id sequence).2.mSequences := by
  rw [Transport.checkSequence, Transport.checkSequence, h]
  cases t'.mSequences.lookup id with
  | none => exact ⟨rfl, rfl⟩
  | some last =>
    dsimp only
    split_ifs
    · exact ⟨rfl, rfl⟩
    · exact ⟨rfl, h⟩

omit [DecidableEq Chan] in
theorem local_congr (hcore : n.core = n₀.core) {t t' : Transport Id}
    (ht : t.mSequences = t'.mSequences) {m : Message Id} {source : Id}
    (h : Local K n t m source) : Local K n₀ t' m source := by
  have hid : n.id K = n₀.id K := congrArg (K.publicKey ∘ Prod.fst) hcore
  have hgraph : n.graph = n₀.graph := congrArg (fun core => core.2.2) hcore
  refine ⟨fun destination hto => (h.here destination hto).trans hid, h.hello,
    fun htype s hs => ?_, fun htype hto => ?_⟩
  · rw [Stale, ← hgraph]
    exact h.state htype s hs
  · rw [← (checkSequence_congr ht source m.sequence).1]
    exact h.user htype hto

omit [DecidableEq Chan] in
theorem rooted_core (h : Rooted K n₀) (hcore : n.core = n₀.core) : Rooted K n := by
  have hid : n.id K = n₀.id K := congrArg (K.publicKey ∘ Prod.fst) hcore
  have hgraph : n.graph = n₀.graph := congrArg (fun core => core.2.2) hcore
  refine rooted_congr h hid (congrArg _ hgraph) (congrArg _ hgraph) fun p => ?_
  rw [hgraph]

omit [DecidableEq Chan] in
theorem harmless_congr (hcore : n.core = n₀.core) {t t' : Transport Id}
    (ht : t.mSequences = t'.mSequences) {data : Binary} :
    Harmless K H n t data ↔ Harmless K H n₀ t' data :=
  ⟨fun h m source hparse hsource => local_congr hcore ht (h m source hparse hsource),
    fun h m source hparse hsource => local_congr hcore.symm ht.symm (h m source hparse hsource)⟩

theorem noted_congr {t t' : Transport Id} (ht : t.mSequences = t'.mSequences) (data : Binary) :
    (noted K H t data).mSequences = (noted K H t' data).mSequences := by
  rw [noted, noted]
  cases Message.parse K H.byteOrder data with
  | error e => exact ht
  | ok m =>
    cases hsource : m.source with
    | none => simp only [hsource, ht]
    | some source =>
      simp only [hsource]
      split_ifs
      · exact (checkSequence_congr ht source m.sequence).2
      · exact ht

/-- What is pending is handled message by message, up to the first that is not harmless. -/
theorem flush_cases (c : Chan) (pending : List Binary) : ∀ (n : Node Id Pair Ecdh Chan)
    (t : Transport Id), Rooted K n → Typed n → n.core = n₀.core →
    n.userTransport.mSequences = t.mSequences →
    (HarmlessInTurn K H n₀ t pending ∧
      flush (NodeLocks.Routing.onMessage K H c) pending ⟨{Mutex.routing}, n⟩ =
        .ok () ⟨{Mutex.routing}, pending.foldl (fun n data => Node.onMessage K H n c data) n⟩) ∨
    (¬ HarmlessInTurn K H n₀ t pending ∧
      Blocks {Mutex.routing} (flush (NodeLocks.Routing.onMessage K H c) pending) n) := by
  induction pending with
  | nil => exact fun n t _ _ _ _ => Or.inl ⟨trivial, rfl⟩
  | cons data pending ih =>
    intro n t hrooted htyped hcore ht
    by_cases hharmless : Harmless K H n n.userTransport data
    · have hfirst := (harmless_congr H hcore ht).mp hharmless
      have hrun := onMessage_harmless H htyped c hharmless
      have hnoted := onMessage_noted H htyped c hharmless
      have hrest := ih (Node.onMessage K H n c data) (noted K H t data)
        (rooted_core hrooted hnoted.core) hnoted.typed (hnoted.core.trans hcore)
        (hnoted.table.trans (noted_congr H ht data))
      rcases hrest with ⟨hturn, hok⟩ | ⟨hturn, hblocks⟩
      · exact Or.inl ⟨⟨hfirst, hturn⟩, (bind_of_ok hrun).trans hok⟩
      · exact Or.inr ⟨fun h => hturn h.2, blocks_after hrun hblocks⟩
    · exact Or.inr ⟨fun h => hharmless ((harmless_congr H hcore ht).mpr h.1),
        blocks_bind (onMessage_blocks H hrooted htyped c hharmless) _⟩

omit [LinearOrder Id] [DecidableEq Chan] in
theorem flush_nothing (held : Finset Mutex) (pending : List Binary) :
    Follows held (flush (fun _ => pure ()) pending : ThreadM Id Pair Ecdh Chan Unit)
      (pure ()) := by
  induction pending with
  | nil => exact follows_pure held ()
  | cons data pending ih => exact fun n => ih n

omit [LinearOrder Id] in
theorem follows_removeChannel (channel : Chan) (pending : List Binary) :
    Follows ∅ (NodeLocks.Routing.removeChannel channel pending : ThreadM Id Pair Ecdh Chan Unit)
      (Node.removeChannel channel) := by
  refine follows_locked (Finset.notMem_empty _) fun n => ?_
  rw [memory_bind]
  split_ifs
  · exact follows_bind (flush_nothing _ pending) (fun _ => follows_free _ _) n
  · rfl

/-- What a thread does that does not block, and which threads do block. -/
theorem entry_cases (hrooted : Rooted K n) (htyped : Typed n) (entry : EntryPoint Id Chan) :
    (entry.Clear K H n ∧ final (entry.run K H ⟨∅, n⟩) = ⟨∅, entry.effect K H n⟩ ∧
        ¬ Blocks ∅ (entry.run K H) n) ∨
      (¬ entry.Clear K H n ∧ Blocks ∅ (entry.run K H) n) := by
  have hrouting : Mutex.routing ∉ (∅ : Finset Mutex) := Finset.notMem_empty _
  have hgraph : Mutex.graph ∉ (∅ : Finset Mutex) := Finset.notMem_empty _
  have hfollows : ∀ {p : ThreadM Id Pair Ecdh Chan Unit} {m : NodeM Id Pair Ecdh Chan Unit},
      Follows ∅ p m → final (p ⟨∅, n⟩) = ⟨∅, final (m n)⟩ ∧ ¬ Blocks ∅ p n := fun hp =>
    ⟨(congrArg final (hp n)).trans (final_under _), not_blocks hp n⟩
  cases entry with
  | addChannel channel pending =>
    rcases flush_cases H channel pending n n.userTransport hrooted htyped rfl rfl with
      ⟨hturn, hok⟩ | ⟨hturn, hblocks⟩
    · have hrun : (EntryPoint.addChannel channel pending).run K H ⟨∅, n⟩ =
          .ok () ⟨∅, (EntryPoint.addChannel channel pending).effect K H n⟩ := by
        refine locked_ok hrouting ((bind_of_ok hok).trans ?_)
        rw [EntryPoint.effect, NodeRuns.run, List.foldl_append, List.foldl_map]
        rfl
      refine Or.inl ⟨hturn, by rw [hrun]; rfl, ?_⟩
      rintro ⟨lock, t, hblocked⟩
      rw [hrun] at hblocked
      cases hblocked
    · exact Or.inr ⟨hturn, blocks_inside hrouting (blocks_bind hblocks _)⟩
  | removeChannel channel pending =>
    exact Or.inl ⟨trivial, hfollows (follows_removeChannel channel pending)⟩
  | addNeighbor remoteId channel =>
    exact Or.inl ⟨trivial, hfollows (NodeLocks.follows_addNeighbor hrouting remoteId channel)⟩
  | removeNeighbor remoteId channel =>
    exact Or.inl ⟨trivial, hfollows (NodeLocks.follows_removeNeighbor hrouting remoteId channel)⟩
  | send port remoteId payload random =>
    exact Or.inl ⟨trivial, hfollows
      (NodeLocks.follows_transportSend hrouting hgraph port remoteId payload random)⟩
  | broadcast port payload =>
    exact Or.inl ⟨trivial, hfollows (NodeLocks.follows_transportBroadcast hrouting port payload)⟩
  | update => exact Or.inl ⟨trivial, hfollows (NodeLocks.follows_update hrouting hgraph)⟩
  | received channel data =>
    exact Or.inl ⟨trivial, hfollows (NodeLocks.follows_onMessage hrouting hgraph channel data)⟩
  | neighborEvent => exact Or.inl ⟨trivial, hfollows (NodeLocks.follows_notifyNeighbor hrouting)⟩

theorem effect_sound {pair : Pair} {ecdh : Ecdh} {received : List Binary}
    (h : SignedProvenance.Sound K H pair ecdh received n) (entry : EntryPoint Id Chan) :
    ∃ received', SignedProvenance.Sound K H pair ecdh received' (entry.effect K H n) := by
  cases entry with
  | addChannel channel pending => exact ⟨_, SignedProvenance.run_sound _ received n h⟩
  | removeChannel channel pending =>
    exact ⟨_, SignedProvenance.sound_event h (.removeChannel channel)⟩
  | addNeighbor remoteId channel =>
    exact ⟨_, SignedProvenance.sound_event h (.addNeighbor remoteId channel)⟩
  | removeNeighbor remoteId channel =>
    exact ⟨_, SignedProvenance.sound_event h (.removeNeighbor remoteId channel)⟩
  | send port remoteId payload random =>
    exact ⟨_, SignedProvenance.sound_event h (.send port remoteId payload random)⟩
  | broadcast port payload => exact ⟨_, SignedProvenance.sound_event h (.broadcast port payload)⟩
  | update => exact ⟨_, SignedProvenance.sound_event h .update⟩
  | received channel data => exact ⟨_, SignedProvenance.sound_event h (.received channel data)⟩
  | neighborEvent =>
    exact ⟨_, GraphInvariants.keeps_notifyNeighbor SignedProvenance.sound_withstands n h⟩

omit [DecidableEq Chan] in
theorem sound_typed {pair : Pair} {ecdh : Ecdh} {received : List Binary}
    (h : SignedProvenance.Sound K H pair ecdh received n) : Typed n :=
  ⟨(h.transports .signaling).typed, (h.transports .user).typed⟩

theorem reachable_sound (h : Reachable K H n) :
    ∃ pair ecdh received, SignedProvenance.Sound K H pair ecdh received n := by
  induction h with
  | created hcreated => exact ⟨_, _, _, SignedProvenance.created_sound hcreated⟩
  | status isOpen _ ih =>
    obtain ⟨pair, ecdh, received, hsound⟩ := ih
    exact ⟨pair, ecdh, _, SignedProvenance.sound_event hsound (.status isOpen)⟩
  | entered entry _ hpassed ih =>
    obtain ⟨pair, ecdh, received, hsound⟩ := ih
    rcases entry_cases H hsound.rooted (sound_typed H hsound) entry with
      ⟨_, hfinal, _⟩ | ⟨_, hblocks⟩
    · rw [hfinal]
      exact ⟨pair, ecdh, effect_sound H hsound entry⟩
    · exact absurd hblocks hpassed

/-- In every node that threads can leave behind, a thread comes to ask for a lock of its
own exactly when it adds a channel on which a message is pending that is not harmless in
its turn. -/
theorem own_locks (h : Reachable K H n) (entry : EntryPoint Id Chan) :
    ¬ Blocks ∅ (entry.run K H) n ↔ entry.Clear K H n := by
  obtain ⟨_, _, _, hsound⟩ := reachable_sound H h
  rcases entry_cases H hsound.rooted (sound_typed H hsound) entry with
    ⟨hclear, _, hpassed⟩ | ⟨hunclear, hblocks⟩
  · exact iff_of_true hpassed hclear
  · exact iff_of_false (not_not.mpr hblocks) hunclear

end Pending

-- Node 1 adds a channel on which a Hello of node 2 is pending, or its own State.
namespace Sample
open LegioNode.Sample PublishedTable.Sample

def hello : Message (Fin 4) :=
  let unsigned : Message (Fin 4) := ⟨MessageType.Hello, 0, some 2, none, [], []⟩
  { unsigned with
    signature := LegioCrypto.Sample.crypto.sign 2 (unsigned.signedBytes LegioCrypto.Sample.crypto) }

theorem pending_hello_blocks :
    Reachable LegioCrypto.Sample.crypto host (started 1) ∧
      Blocks ∅ ((EntryPoint.addChannel 0 [frame LegioCrypto.Sample.crypto hello]).run
        LegioCrypto.Sample.crypto host) (started 1) := by
  refine ⟨.created (created 1), ?_⟩
  have hsound := SignedProvenance.created_sound (created 1)
  have hparse : Message.parse LegioCrypto.Sample.crypto host.byteOrder
      (frame LegioCrypto.Sample.crypto hello) = .ok hello := by decide +kernel
  refine blocks_inside (Finset.notMem_empty _) (blocks_bind (blocks_bind ?_ _) _)
  exact onMessage_blocks host hsound.rooted (sound_typed host hsound) 0 fun hharmless =>
    (hharmless hello 2 hparse rfl).hello rfl

def ownState : State (Fin 4) := ⟨1, 0, LegioCrypto.Sample.crypto.ecdhPublicKey 1, ∅⟩

def echo : Message (Fin 4) :=
  let unsigned : Message (Fin 4) :=
    ⟨MessageType.State, 0, some 1, none, ownState.body LegioCrypto.Sample.crypto, []⟩
  { unsigned with
    signature := LegioCrypto.Sample.crypto.sign 1 (unsigned.signedBytes LegioCrypto.Sample.crypto) }

theorem pending_echo_passes :
    ¬ Blocks ∅ ((EntryPoint.addChannel 0 [frame LegioCrypto.Sample.crypto echo]).run
      LegioCrypto.Sample.crypto host) (started 1) := by
  have hparse : Message.parse LegioCrypto.Sample.crypto host.byteOrder
      (frame LegioCrypto.Sample.crypto echo) = .ok echo := by decide +kernel
  have hstate : State.fromMessage LegioCrypto.Sample.crypto echo = .ok ownState := by
    decide +kernel
  have hstored : (started 1).graph.stateOf 1 = some ownState := by decide +kernel
  refine (own_locks host (.created (created 1)) _).mpr ⟨fun m source hm _ => ?_, trivial⟩
  rw [hparse] at hm
  cases hm
  refine ⟨nofun, by decide, fun _ s hs => ?_, fun huser => absurd huser (by decide)⟩
  rw [hstate] at hs
  cases hs
  exact ⟨ownState, hstored, by decide⟩

end Sample

end PendingMessages
