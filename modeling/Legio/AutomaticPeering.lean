import Legio.InsertionOrder
import Legio.PublishedTable
import Legio.TransportSteps

set_option linter.style.header false

/-! The nodes that automatic peering picks. The candidates are the nodes of the routing
table, and signaling one takes its State from the graph. Of a Peering only its place in
`mPeerings` is modelled: it is never taken out again, and what it sends afterwards is one
of the events of its node. -/
namespace AutomaticPeering

open LegioBinary LegioCrypto LegioMessage LegioNode Containers
open ExceptionStates LinkStateStore GraphUpdates GraphInvariants NodeRuns NodeInvariants
open PublishedTable (Published created_published published_lasting)
open InsertionOrder (get_toOption)
open TransportSteps (directMessage_cases makeMessage_spec makeMessage_too_long)

structure Networking (Id : Type) where
  mPeerings : Finset Id

def targetPeeringCount : ℕ := 4

section Picking
variable {Id : Type} [DecidableEq Id]

/-- `Networking::createPeering`, which hands out the Peering that exists already if any. -/
def Networking.createPeering (w : Networking Id) (remoteId : Id) : Networking Id :=
  { mPeerings := insert remoteId w.mPeerings }

/-- `Networking::update` on the shuffled nodes; also the identifier it creates a Peering for. -/
def Networking.update (w : Networking Id) (nodes : List Id) : Networking Id × Option Id :=
  if w.mPeerings.card < targetPeeringCount then
    match nodes.find? (· ∉ w.mPeerings) with
    | some id => (w.createPeering id, some id)
    | none => (w, none)
  else (w, none)

theorem update_picks_iff (w : Networking Id) (nodes : List Id) (id : Id) :
    (w.update nodes).2 = some id ↔
      w.mPeerings.card < targetPeeringCount ∧ nodes.find? (· ∉ w.mPeerings) = some id := by
  unfold Networking.update
  split_ifs with hcard
  · cases hfind : nodes.find? (· ∉ w.mPeerings) <;> simp [hcard]
  · simp [hcard]

theorem shuffle_picks {w : Networking Id} {nodes : List Id} {id : Id} (hid : id ∈ nodes)
    (hnew : id ∉ w.mPeerings) (hcard : w.mPeerings.card < targetPeeringCount) :
    ∃ shuffled, shuffled.Perm nodes ∧ (w.update shuffled).2 = some id := by
  refine ⟨id :: nodes.erase id, (List.perm_cons_erase hid).symm, ?_⟩
  rw [update_picks_iff, List.find?_cons_of_pos (by simpa using hnew)]
  exact ⟨hcard, rfl⟩

end Picking

structure World (Id Pair Ecdh Chan : Type) where
  node : Node Id Pair Ecdh Chan
  networking : Networking Id

inductive Event (Id Chan : Type) where
  | node (ev : NodeEvent Id Chan)
  | update (shuffled : List Id)
  | connectPeer (remoteId : Id)
  | receive (remoteId : Id)

variable {Id Pair Ecdh Chan : Type} [LinearOrder Id] [DecidableEq Chan]

/-- What `std::shuffle` can make of the nodes of the current table. -/
def World.Shuffled (w : World Id Pair Ecdh Chan) (shuffled : List Id) : Prop :=
  ∃ table, w.node.routing.mTable = some table ∧ shuffled.Perm table.nodes

def Event.Enabled (w : World Id Pair Ecdh Chan) : Event Id Chan → Prop
  | .update shuffled => w.Shuffled shuffled
  | _ => True

section Steps
variable (K : CryptoPP Id Pair Ecdh) (H : Host Id)

def Event.apply (w : World Id Pair Ecdh Chan) : Event Id Chan → World Id Pair Ecdh Chan
  | .node ev => { w with node := ev.apply K H w.node }
  | .update shuffled => { w with networking := (w.networking.update shuffled).1 }
  | .connectPeer remoteId => { w with networking := w.networking.createPeering remoteId }
  | .receive remoteId => { w with networking := w.networking.createPeering remoteId }

inductive Reachable : World Id Pair Ecdh Chan → Prop where
  | created {n} : Created K H n → Reachable ⟨n, ⟨∅⟩⟩
  | event {w} (ev : Event Id Chan) : Reachable w → ev.Enabled w → Reachable (ev.apply K H w)

/-- The two ways in which `Graph::get` fails. -/
def UnknownNode (e : Error) : Prop :=
  e = .runtimeError "Attempted to get state for unknown node" ∨
    e = .runtimeError "Unknown node state"

/-- A Peering with this node can be signaled from now on, whatever happens meanwhile. -/
def Sendable (n : Node Id Pair Ecdh Chan) (id : Id) : Prop :=
  ∀ events payload random, ThrowsOnly (fun e => ¬ UnknownNode e)
    (Transport.send K H .signaling id payload random) (run K H n events)

structure Signaled (w : World Id Pair Ecdh Chan) (id : Id) : Prop where
  remote : id ≠ w.node.id K
  unpeered : id ∉ w.networking.mPeerings
  known : ∃ state, w.node.graph.get id = .ok state
  sendable : Sendable K H w.node id

/-- There are Peerings enough, or the graph has the State of every direct neighbour that is
left without one. -/
def Covered (w : World Id Pair Ecdh Chan) : Prop :=
  targetPeeringCount ≤ w.networking.mPeerings.card ∨
    ∀ id ∈ w.node.graph.edgesOf (w.node.id K), id ≠ w.node.id K →
      id ∉ w.networking.mPeerings → (w.node.graph.stateOf id).isSome

end Steps

variable {K : CryptoPP Id Pair Ecdh} {H : Host Id}

theorem reachable_published {w : World Id Pair Ecdh Chan} (h : Reachable K H w) :
    Published K w.node := by
  induction h with
  | created h => exact created_published H h
  | event ev _ _ ih =>
    cases ev with
    | node ev => exact lasting_event (published_lasting H) ih ev
    | update _ => exact ih
    | connectPeer _ => exact ih
    | receive _ => exact ih

omit [DecidableEq Chan] in
theorem mem_shuffled_iff {w : World Id Pair Ecdh Chan} (h : Published K w.node)
    {shuffled : List Id} (hs : w.Shuffled shuffled) (id : Id) :
    id ∈ shuffled ↔ id ≠ w.node.id K ∧ id ∈ w.node.graph.edgesOf (w.node.id K) := by
  obtain ⟨table, htable, hperm⟩ := hs
  rw [h.shared] at htable
  cases htable
  rw [hperm.mem_iff, RoutingTable.nodes, ← AList.mem_keys, mem_iff_lookup]
  constructor
  · rintro ⟨hop, hhop⟩
    exact ((h.direct id hop).mp hhop).2
  · exact fun hid => ⟨id, (h.direct id id).mpr ⟨rfl, hid⟩⟩

structure Known (K : CryptoPP Id Pair Ecdh) (localId id : Id) (n : Node Id Pair Ecdh Chan) :
    Prop where
  name : n.id K = localId
  rooted : Rooted K n
  stored : (n.graph.stateOf id).isSome

variable {localId id : Id} {n n' : Node Id Pair Ecdh Chan}

omit [DecidableEq Chan] in
theorem known_change (h : Known K localId id n) {v : View Id} (hc : StoreChange K n n' v)
    (hv : (v.states id).isSome) : Known K localId id n' := by
  refine ⟨(id_congr hc.kept).trans h.name, hc.rooted, ?_⟩
  rw [← view_states, hc.view_eq]
  exact hv

omit [DecidableEq Chan] in
theorem known_put {v : View Id} (h : (v.states id).isSome) (s : State Id) :
    ((v.put s).states id).isSome := by
  rw [put_states]
  by_cases hid : id = s.id
  · rw [hid, Function.update_self]
    rfl
  · rw [Function.update_of_ne hid]
    exact h

omit [DecidableEq Chan] in
theorem known_updateEdges (id' : Id) (neighbors : Finset Id) :
    Keeps (Known K localId id)
      (Graph.updateEdges K H id' neighbors : NodeM Id Pair Ecdh Chan Bool) := by
  intro n hn
  by_cases hid : id' ∈ n.graph.mVertices
  · obtain ⟨n', hrun, hc⟩ := updateEdges_spec H hn.rooted hid neighbors
    rw [hrun]
    exact known_change hn hc hn.stored
  · rw [updateEdges_unknown H hid]
    exact hn

omit [DecidableEq Chan] in
theorem known_congr (h : Known K localId id n) (hid : n'.ecdsaPair = n.ecdsaPair)
    (hg : n'.graph.mVertices = n.graph.mVertices ∧ n'.graph.heap = n.graph.heap ∧
      n'.graph.allocated = n.graph.allocated) : Known K localId id n' := by
  obtain ⟨hvertices, hheap, hallocated⟩ := hg
  have hname : n'.id K = n.id K := congrArg K.publicKey hid
  refine ⟨hname.trans h.name, rooted_congr h.rooted hname hvertices hallocated ?_, ?_⟩
  · exact fun p => by rw [hheap]
  · rw [stateOf_congr hvertices fun p => by rw [hheap]]
    exact h.stored

theorem known_lasting : Lasting K H (Known K localId id : Node Id Pair Ecdh Chan → Prop) where
  withstands := by
    constructor
    · exact fun _ _ => trivial
    · exact fun _ _ _ _ => trivial
    · exact known_updateEdges
    · exact fun n hn => known_congr hn rfl ⟨rfl, rfl, rfl⟩
    · exact fun n s m hn _ => known_congr hn rfl ⟨rfl, rfl, rfl⟩
    · exact fun n s p hn _ hp =>
        known_change hn (storeState_spec hn.rooted hp).1 (known_put hn.stored s)
    · exact fun n s hn _ hp => known_change hn
        (storeNew_spec hn.rooted.linked (Or.inr hn.rooted.root) hp).1 (known_put hn.stored s)
  core h hcore := by
    simp only [Node.core, Prod.mk.injEq] at hcore
    obtain ⟨hpair, _, hgraph⟩ := hcore
    exact known_congr h hpair (by rw [hgraph]; exact ⟨rfl, rfl, rfl⟩)
  routing r h _ := known_congr h rfl ⟨rfl, rfl, rfl⟩
  hello h := known_congr h rfl ⟨rfl, rfl, rfl⟩

theorem get_known_iff (g : LegioNode.Graph Id Ecdh) :
    (∃ state, g.get id = .ok state) ↔ (g.stateOf id).isSome := by
  rw [← get_toOption]
  cases g.get id <;> simp [Except.toOption]

omit [LinearOrder Id] [DecidableEq Chan] in
theorem agree_not_unknown {ecdh : Ecdh} {destination : Binary} {e : Error}
    (h : K.agree ecdh destination = .error e) : ¬ UnknownNode e := by
  unfold CryptoPP.agree at h
  split_ifs at h
  · cases h
    simp [UnknownNode]
  · cases hs : K.ecdhAgree ecdh destination with
    | some secret =>
      rw [hs] at h
      cases h
    | none =>
      rw [hs] at h
      cases h
      simp [UnknownNode]

omit [LinearOrder Id] in
theorem ofKey_not_unknown {key : Binary} {random : Iv} {e : Error}
    (h : AesGcmEncryption.ofKey K key random = .error e) : ¬ UnknownNode e := by
  unfold AesGcmEncryption.ofKey CryptoPP.setKey at h
  split_ifs at h
  · cases h
    simp [UnknownNode]
  · cases hset : K.setKeyWithIV key random.val with
    | none =>
      rw [hset] at h
      cases h
    | some what =>
      rw [hset] at h
      cases h
      simp [UnknownNode]

omit [LinearOrder Id] [DecidableEq Chan] in
theorem encrypt_not_unknown {payload destination : Binary} {ecdh : Ecdh} {random : Iv} {e : Error}
    (h : CipherBody.encrypt K payload ecdh destination random = .error e) :
    ¬ UnknownNode e := by
  unfold CipherBody.encrypt at h
  cases hagree : K.agree ecdh destination with
  | error e' =>
    rw [hagree] at h
    cases h
    exact agree_not_unknown hagree
  | ok secret =>
    rw [hagree] at h
    cases hkey : AesGcmEncryption.ofKey K (K.sha256 secret) random with
    | error e' =>
      simp only [bind, Except.bind, hkey] at h
      cases h
      exact ofKey_not_unknown hkey
    | ok encryption =>
      simp only [bind, Except.bind, hkey] at h
      cases h

omit [LinearOrder Id] [DecidableEq Chan] in
theorem makeMessage_not_unknown (n : Node Id Pair Ecdh Chan) (port : Port) (body : Binary)
    (destination : Option Id) : ThrowsOnly (fun e => ¬ UnknownNode e)
      (Transport.makeMessage K H port body destination) n := by
  rcases Nat.lt_or_ge uint16Max body.length with hlong | hfits
  · intro e n' he
    rw [makeMessage_too_long H n port destination hlong] at he
    cases he
    simp [UnknownNode]
  · obtain ⟨message, hrun, _⟩ := makeMessage_spec (K := K) H n port destination hfits
    exact throwsOnly_ok hrun

/-- A direct message for somebody else is passed on, dropped or refused by its channel. -/
theorem route_not_unknown {message : Message Id} (hto : message.destination = some id)
    (hid : id ≠ n.id K) : ThrowsOnly (fun e => ¬ UnknownNode e)
      (Node.route K H message none) n := by
  intro e n' he
  rw [Node.route, get_bind_run] at he
  unfold Routing.route at he
  simp only [hto, if_neg hid] at he
  split_ifs at he with hsource
  · cases he
    simp [UnknownNode]
  · cases hroute : n.routing.findRoute id with
    | none =>
      rw [hroute] at he
      cases he
    | some channel =>
      rw [hroute] at he
      dsimp only at he
      rcases Nat.lt_or_ge uint16Max message.body.length with hlong | hfits
      · rw [toBinary_too_long K H.byteOrder message hlong] at he
        cases he
        simp [UnknownNode]
      · rw [toBinary_eq K H.byteOrder message hfits] at he
        unfold Wire.send at he
        dsimp only at he
        split_ifs at he
        · cases he
        · cases he
          simp [UnknownNode]

omit [DecidableEq Chan] in
theorem directMessage_not_unknown (hn : Known K localId id n) (port : Port) (payload : Binary)
    (random : Iv) : ThrowsOnly (fun e => ¬ UnknownNode e)
      (Transport.directMessage K H port id payload random) n := by
  obtain ⟨state, hstate⟩ := (get_known_iff n.graph).mpr hn.stored
  intro e n' he
  simp only [Transport.directMessage, get_bind_run, hstate] at he
  cases hencrypt : CipherBody.encrypt K payload n.graph.mEcdh state.ecdhPublic random with
  | error e' =>
    rw [hencrypt] at he
    cases he
    exact encrypt_not_unknown hencrypt
  | ok cipherBody =>
    rw [hencrypt] at he
    exact makeMessage_not_unknown n port cipherBody.toBinary (some id) e n' he

omit [DecidableEq Chan] in
theorem directMessage_to {port : Port} {payload : Binary} {random : Iv} {message : Message Id}
    (h : Transport.directMessage K H port id payload random n = .ok message n') :
    message.destination = some id ∧ n'.id K = n.id K := by
  rcases directMessage_cases (K := K) H n port id payload random with ⟨e, hrun⟩ | ⟨body, hrun⟩
  · rw [hrun] at h
    cases h
  · rw [hrun] at h
    rcases Nat.lt_or_ge uint16Max body.length with hlong | hfits
    · rw [makeMessage_too_long H n port (some id) hlong] at h
      cases h
    · obtain ⟨m, hmade, _, _, _, hto, _⟩ :=
        makeMessage_spec (K := K) H n port (some id) hfits
      rw [hmade] at h
      cases h
      exact ⟨hto, by cases port <;> rfl⟩

theorem send_not_unknown (hn : Known K localId id n) (hid : id ≠ localId) (port : Port)
    (payload : Binary) (random : Iv) : ThrowsOnly (fun e => ¬ UnknownNode e)
      (Transport.send K H port id payload random) n := by
  refine throwsOnly_bind (directMessage_not_unknown hn port payload random)
    fun message n' hmade => ?_
  obtain ⟨hto, hname⟩ := directMessage_to hmade
  rw [← hn.name, ← hname] at hid
  rw [Node.send, if_pos (by rw [hto]; rfl)]
  exact route_not_unknown hto hid

theorem known_sendable (hn : Known K localId id n) (hid : id ≠ localId) : Sendable K H n id :=
  fun events payload random =>
    send_not_unknown (lasting_run known_lasting events n hn) hid .signaling payload random

theorem covered_signaled {w : World Id Pair Ecdh Chan} (h : Published K w.node)
    (hcovered : Covered K w) {shuffled : List Id} (hs : w.Shuffled shuffled)
    (hpick : (w.networking.update shuffled).2 = some id) : Signaled K H w id := by
  obtain ⟨hcard, hfind⟩ := (update_picks_iff w.networking shuffled id).mp hpick
  have hnew : id ∉ w.networking.mPeerings := by simpa using List.find?_some hfind
  obtain ⟨hid, hedge⟩ := (mem_shuffled_iff h hs id).mp (List.mem_of_find?_eq_some hfind)
  have hstored : (w.node.graph.stateOf id).isSome := by
    rcases hcovered with henough | hneighbors
    · exact absurd hcard (Nat.not_lt.mpr henough)
    · exact hneighbors id hedge hid hnew
  exact ⟨hid, hnew, (get_known_iff w.node.graph).mpr hstored,
    known_sendable ⟨rfl, h.rooted, hstored⟩ hid⟩

/-- Every node that `update` can pick is one that can be signaled, exactly where the graph
has the States of the neighbours that are left to pick. -/
theorem automatic_peering_iff {w : World Id Pair Ecdh Chan} (h : Reachable K H w) :
    (∀ shuffled, w.Shuffled shuffled → ∀ id, (w.networking.update shuffled).2 = some id →
      Signaled K H w id) ↔ Covered K w := by
  have hw := reachable_published h
  constructor
  · intro hall
    rw [Covered, or_iff_not_imp_left, Nat.not_le]
    intro hcard id hedge hid hnew
    -- the shuffle that puts this neighbour first
    have hcurrent : w.Shuffled w.node.graph.mRoutingTable.nodes :=
      ⟨_, hw.shared, List.Perm.refl _⟩
    obtain ⟨shuffled, hperm, hpick⟩ :=
      shuffle_picks ((mem_shuffled_iff hw hcurrent id).mpr ⟨hid, hedge⟩) hnew hcard
    have hsignaled := hall shuffled ⟨_, hw.shared, hperm⟩ id hpick
    exact (get_known_iff w.node.graph).mp hsignaled.known
  · intro hcovered shuffled hs id hpick
    exact covered_signaled hw hcovered hs hpick

-- A Hello makes 2 a neighbour of 1 before any State of 2 has arrived.
namespace Sample
open LegioNode.Sample
open PublishedTable.Sample (started created)

def hello : Binary :=
  ((run LegioCrypto.Sample.crypto host (started 2) [.addChannel 3, .update]).wire.outbox 3).headD []

theorem reachable_run (i : Fin 4) (events : List (NodeEvent (Fin 4) ℕ)) :
    Reachable LegioCrypto.Sample.crypto host
      ⟨run LegioCrypto.Sample.crypto host (started i) events, ⟨∅⟩⟩ := by
  induction events using List.reverseRecOn with
  | nil => exact .created (created i)
  | append_singleton events ev ih =>
    rw [run, List.foldl_append]
    exact .event (.node ev) ih trivial

theorem hello_candidate :
    (run LegioCrypto.Sample.crypto host (started 1)
      [.addChannel 0, .received 0 hello]).graph.mRoutingTable.nodes = [2] ∧
    (run LegioCrypto.Sample.crypto host (started 1)
      [.addChannel 0, .received 0 hello]).graph.stateOf 2 = none :=
  ⟨by decide +kernel, by decide +kernel⟩

def state : Binary :=
  ((run LegioCrypto.Sample.crypto host (started 2)
    [.addChannel 3, .addNeighbor 1 3]).wire.outbox 3).headD []

theorem state_candidate :
    (run LegioCrypto.Sample.crypto host (started 1)
      [.addChannel 0, .received 0 hello, .received 0 state]).graph.mRoutingTable.nodes = [2] ∧
    (run LegioCrypto.Sample.crypto host (started 1)
      [.addChannel 0, .received 0 hello, .received 0 state]).id LegioCrypto.Sample.crypto = 1 ∧
    ∀ id : Fin 4, id ∈ (run LegioCrypto.Sample.crypto host (started 1)
      [.addChannel 0, .received 0 hello, .received 0 state]).graph.edgesOf 1 →
      ((run LegioCrypto.Sample.crypto host (started 1)
        [.addChannel 0, .received 0 hello, .received 0 state]).graph.stateOf id).isSome :=
  ⟨by decide +kernel, by decide +kernel, by decide +kernel⟩

theorem picked {n : Node (Fin 4) (Fin 4) (Fin 4) ℕ}
    (hnodes : n.graph.mRoutingTable.nodes = [2])
    (hn : Reachable LegioCrypto.Sample.crypto host ⟨n, ⟨∅⟩⟩) :
    World.Shuffled (⟨n, ⟨∅⟩⟩ : World (Fin 4) (Fin 4) (Fin 4) ℕ) [2] ∧
      (Networking.update (⟨∅⟩ : Networking (Fin 4)) [2]).2 = some 2 :=
  ⟨⟨_, (reachable_published hn).shared, by rw [hnodes]⟩, by decide⟩

theorem covered_known {n : Node (Fin 4) (Fin 4) (Fin 4) ℕ}
    (h : n.id LegioCrypto.Sample.crypto = 1 ∧
      ∀ id : Fin 4, id ∈ n.graph.edgesOf 1 → (n.graph.stateOf id).isSome) :
    Covered LegioCrypto.Sample.crypto ⟨n, ⟨∅⟩⟩ := by
  refine Or.inr fun id hid _ _ => h.2 id ?_
  rwa [h.1] at hid

/-- After the State of 2 the Peering with 2 can be signaled. -/
theorem state_peering_signaled : ∃ w : World (Fin 4) (Fin 4) (Fin 4) ℕ,
    Reachable LegioCrypto.Sample.crypto host w ∧ w.Shuffled [2] ∧
      (w.networking.update [2]).2 = some 2 ∧ Signaled LegioCrypto.Sample.crypto host w 2 := by
  obtain ⟨hnodes, hknown⟩ := state_candidate
  have hreach := reachable_run 1 [.addChannel 0, .received 0 hello, .received 0 state]
  obtain ⟨hshuffled, hpick⟩ := picked hnodes hreach
  exact ⟨_, hreach, hshuffled, hpick,
    (automatic_peering_iff hreach).mpr (covered_known hknown) [2] hshuffled 2 hpick⟩

theorem picked_unsignaled {n : Node (Fin 4) (Fin 4) (Fin 4) ℕ}
    (h : n.graph.mRoutingTable.nodes = [2] ∧ n.graph.stateOf 2 = none)
    (hn : Reachable LegioCrypto.Sample.crypto host ⟨n, ⟨∅⟩⟩) :
    ¬ ∀ w : World (Fin 4) (Fin 4) (Fin 4) ℕ, Reachable LegioCrypto.Sample.crypto host w →
      ∀ shuffled, w.Shuffled shuffled → ∀ id, (w.networking.update shuffled).2 = some id →
        Signaled LegioCrypto.Sample.crypto host w id := by
  intro hall
  obtain ⟨hshuffled, hpick⟩ := picked h.1 hn
  have hknown := (get_known_iff n.graph).mp (hall _ hn [2] hshuffled 2 hpick).known
  rw [h.2] at hknown
  cases hknown

/-- The Peering with 2 is created, and no State says how to reach it. -/
theorem hello_peering_unsignaled :
    ¬ ∀ w : World (Fin 4) (Fin 4) (Fin 4) ℕ, Reachable LegioCrypto.Sample.crypto host w →
      ∀ shuffled, w.Shuffled shuffled → ∀ id, (w.networking.update shuffled).2 = some id →
        Signaled LegioCrypto.Sample.crypto host w id :=
  picked_unsignaled hello_candidate (reachable_run 1 [.addChannel 0, .received 0 hello])

end Sample

end AutomaticPeering
