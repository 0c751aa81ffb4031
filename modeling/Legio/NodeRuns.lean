import Legio.ChannelTopology
import Legio.NodeDispatch

set_option linter.style.header false

/-! Runs of one node, whatever its user, its channels and the network do to it, and nodes joined
by channels. What a node has handed to its side of a channel and the far side has not handled
yet is in flight, in order. -/
namespace NodeRuns

open LegioBinary LegioCrypto LegioMessage LegioNode ExceptionStates

variable {Id Pair Ecdh Chan : Type}

inductive NodeEvent (Id Chan : Type) where
  | addChannel (channel : Chan)
  | removeChannel (channel : Chan)
  | addNeighbor (remoteId : Id) (channel : Chan)
  | removeNeighbor (remoteId : Id) (channel : Chan)
  | status (isOpen : Chan → Bool)
  | update
  | send (port : Port) (remoteId : Id) (payload : Binary) (random : Iv)
  | broadcast (port : Port) (payload : Binary)
  | received (channel : Chan) (data : Binary)

def NodeEvent.data : NodeEvent Id Chan → List Binary
  | .received _ data => [data]
  | _ => []

section Runs
variable [LinearOrder Id] [DecidableEq Chan] (K : CryptoPP Id Pair Ecdh) (H : Host Id)

/-- The state after an event, also where it ends in an exception. -/
def NodeEvent.apply (n : Node Id Pair Ecdh Chan) : NodeEvent Id Chan → Node Id Pair Ecdh Chan
  | .addChannel channel => final (Node.addChannel channel n)
  | .removeChannel channel => final (Node.removeChannel channel n)
  | .addNeighbor remoteId channel => final (Node.addNeighbor K H remoteId channel n)
  | .removeNeighbor remoteId channel => final (Node.removeNeighbor K H remoteId channel n)
  | .status isOpen => { n with wire := { n.wire with isOpen } }
  | .update => final (Graph.update K H n)
  | .send port remoteId payload random => final (Transport.send K H port remoteId payload random n)
  | .broadcast port payload => final (Transport.broadcast K H port payload n)
  | .received channel data => Node.onMessage K H n channel data

def run (n : Node Id Pair Ecdh Chan) (events : List (NodeEvent Id Chan)) :
    Node Id Pair Ecdh Chan :=
  events.foldl (NodeEvent.apply K H) n

def received (events : List (NodeEvent Id Chan)) : List Binary := events.flatMap NodeEvent.data

structure Created (n : Node Id Pair Ecdh Chan) : Prop where
  constructed : ∃ n₀ mEcdh, n₀.routing = Routing.initial ∧
    (∀ channel, n₀.wire.outbox channel = []) ∧
    (∀ port, ∃ mSendSequence, n₀.transport port = .initial port.type mSendSequence) ∧
    Graph.construct K H mEcdh n₀ = .ok () n

end Runs

section Keeping
variable [LinearOrder Id] [DecidableEq Chan] {K : CryptoPP Id Pair Ecdh} {H : Host Id}
  {I : Node Id Pair Ecdh Chan → Prop} (hfree : TransportFree I)
  (hwire : ∀ n wire, I n → I { n with wire })
include hfree hwire

omit hfree in
theorem route_keeps {channel : Option Chan}
    (hmessage : ∀ message, Keeps I (Node.notifyMessage K H message channel))
    (message : Message Id) : Keeps I (Node.route K H message channel) := by
  refine keeps_get_bind fun n hn => ?_
  cases hroute : n.routing.route (n.id K) message channel with
  | error e => exact hn
  | ok outcome =>
    cases outcome with
    | emit m c =>
      obtain ⟨rfl, rfl⟩ := route_emit hroute
      exact hmessage m n hn
    | drop => exact hn
    | send c m =>
      dsimp only
      cases m.toBinary K H.byteOrder with
      | error e => exact hn
      | ok data =>
        dsimp only
        cases n.wire.send c data with
        | error e => exact hn
        | ok wire => exact hwire n wire hn

omit [LinearOrder Id] [DecidableEq Chan] hwire in
theorem keeps_makeMessage (port : Port) (body : Binary) (destination : Option Id) :
    Keeps I (Transport.makeMessage K H port body destination) := by
  refine keeps_get_bind fun n hn => ?_
  have hcount : I (n.setTransport port { n.transport port with
      mSendSequence := (n.transport port).mSendSequence + 1 }) := hfree n port _ rfl hn
  refine keeps_bind (fun _ _ => hcount) (fun _ => ?_) n hn
  cases Message.create K H.byteOrder (n.transport port).mType (n.transport port).mSendSequence body
      (some n.ecdsaPair) destination with
  | error e => exact keeps_throw e
  | ok message =>
    exact keeps_bind (keeps_modify fun n hn => hfree n port _ rfl hn) fun _ => keeps_pure message

omit [LinearOrder Id] in
theorem keeps_broadcast (port : Port) (payload : Binary) :
    Keeps I (Transport.broadcast K H port payload) := by
  cases port with
  | signaling => exact keeps_throw _
  | user =>
    exact keeps_bind (keeps_makeMessage hfree .user payload none) fun message =>
      keeps_modify fun n hn => hwire n _ hn

section Messages
variable {channel : Option Chan}
  (hgraph : ∀ message, Keeps I (Graph.notifyMessage K H message channel))
include hgraph

theorem keeps_nodeMessage (message : Message Id) :
    Keeps I (Node.notifyMessage K H message channel) :=
  keeps_bind (hgraph message) fun _ =>
    keeps_bind (keeps_notifyMessage K H hfree hwire .signaling message channel) fun _ =>
      keeps_notifyMessage K H hfree hwire .user message channel

theorem keeps_route (message : Message Id) : Keeps I (Node.route K H message channel) :=
  route_keeps hwire (fun m => keeps_nodeMessage hfree hwire hgraph m) message

end Messages

theorem keeps_onMessage {channel : Chan}
    (hgraph : ∀ message, Keeps I (Graph.notifyMessage K H message (some channel)))
    {n : Node Id Pair Ecdh Chan} (hn : I n) (data : Binary) :
    I (Node.onMessage K H n channel data) := by
  rw [Node.onMessage]
  cases Message.parse K H.byteOrder data with
  | error e => exact hn
  | ok message => exact keeps_route hfree hwire hgraph message n hn

theorem keeps_send (hgraph : ∀ message, Keeps I (Graph.notifyMessage K H message none))
    (port : Port) (remoteId : Id) (payload : Binary) (random : Iv) :
    Keeps I (Transport.send K H port remoteId payload random) := by
  refine keeps_bind (keeps_get_bind fun n hn => ?_) fun message => ?_
  · cases n.graph.get remoteId with
    | error e => exact hn
    | ok remoteState =>
      dsimp only
      cases CipherBody.encrypt K payload n.graph.mEcdh remoteState.ecdhPublic random with
      | error e => exact hn
      | ok cipherBody => exact keeps_makeMessage hfree port cipherBody.toBinary (some remoteId) n hn
  · rw [Node.send]
    split_ifs
    · exact keeps_route hfree hwire hgraph message
    · exact keeps_modify fun n hn => hwire n _ hn

end Keeping

end NodeRuns

namespace NodeNetwork

open LegioBinary LegioCrypto LegioNode ChannelTopology

variable {V Id Pair Ecdh Chan : Type} [DecidableEq V] [LinearOrder Id] [DecidableEq Chan]

structure Network (V Id Chan : Type) extends Cabling V Chan where
  host : V → Host Id

abbrev Nodes (V Id Pair Ecdh Chan : Type) := V → Node Id Pair Ecdh Chan

def inFlight (net : Network V Id Chan) (σ : Nodes V Id Pair Ecdh Chan) (channel : Chan) :
    List Binary :=
  (σ (net.owner channel)).wire.outbox channel

def Quiescent (net : Network V Id Chan) (σ : Nodes V Id Pair Ecdh Chan) : Prop :=
  ∀ channel, inFlight net σ channel = []

def arrive (K : CryptoPP Id Pair Ecdh) (H : Host Id) (n : Node Id Pair Ecdh Chan)
    (channel : Chan) (data : Binary) : Node Id Pair Ecdh Chan :=
  if channel ∈ n.routing.mChannels then Node.onMessage K H n channel data else n

def popAt (net : Network V Id Chan) (σ : Nodes V Id Pair Ecdh Chan) (channel : Chan) :
    Nodes V Id Pair Ecdh Chan :=
  Function.update σ (net.owner channel) { σ (net.owner channel) with
    wire := (σ (net.owner channel)).wire.pop channel }

/-- The far side handles the first message in flight on a channel, which is then gone. -/
def deliver (K : CryptoPP Id Pair Ecdh) (net : Network V Id Chan)
    (σ : Nodes V Id Pair Ecdh Chan) (channel : Chan) : Nodes V Id Pair Ecdh Chan :=
  match inFlight net σ channel with
  | [] => σ
  | data :: _ =>
    popAt net (Function.update σ (net.remote channel)
      (arrive K (net.host (net.remote channel)) (σ (net.remote channel)) (net.peer channel)
        data)) channel

omit [DecidableEq Chan] [LinearOrder Id] in
theorem read_update {α : Type} (f : Node Id Pair Ecdh Chan → α)
    {σ : Nodes V Id Pair Ecdh Chan} {x : V} {n' : Node Id Pair Ecdh Chan}
    (h : f n' = f (σ x)) (v : V) : f (Function.update σ x n' v) = f (σ v) := by
  by_cases hv : v = x
  · subst hv
    rw [Function.update_self, h]
  · rw [Function.update_of_ne hv]

omit [LinearOrder Id] in
theorem read_popAt {α : Type} (net : Network V Id Chan) (σ : Nodes V Id Pair Ecdh Chan)
    (c : Chan) (f : Node Id Pair Ecdh Chan → α)
    (hf : ∀ n : Node Id Pair Ecdh Chan, f { n with wire := n.wire.pop c } = f n) (v : V) :
    f (popAt net σ c v) = f (σ v) :=
  read_update f (hf _) v

end NodeNetwork
