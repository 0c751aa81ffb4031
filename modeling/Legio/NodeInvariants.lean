import Legio.GraphInvariants
import Legio.NodeRuns

set_option linter.style.header false

/-! Invariants of a node that hold along every run, given that the operations of its graph
keep them and that nothing but the graph and the shared table matters to them. -/
namespace NodeInvariants

open LegioBinary LegioCrypto LegioMessage LegioNode Containers
open ExceptionStates GraphInvariants NodeRuns

variable {Id Pair Ecdh Chan : Type} [LinearOrder Id] [DecidableEq Chan]

/-- What an invariant has to withstand to hold along every run of a node. -/
structure Lasting (K : CryptoPP Id Pair Ecdh) (H : Host Id)
    (I : Node Id Pair Ecdh Chan → Prop) : Prop where
  withstands : Withstands K H I (fun _ => True) (fun _ => True)
  core : ∀ {n n'}, I n → n'.core = n.core → I n'
  routing : ∀ {n} (r : Routing Id Chan), I n → r.mTable = n.routing.mTable →
    I { n with routing := r }
  hello : ∀ {n}, I n →
    I { n with graph := { n.graph with mHelloSequence := n.graph.mHelloSequence + 1 } }

theorem addNeighbor_mTable (remoteId : Id) (channel : Chan) (r : Routing Id Chan) :
    (r.addNeighbor remoteId channel).1.mTable = r.mTable := by
  unfold Routing.addNeighbor
  split_ifs <;> rfl

theorem removeNeighbor_mTable (remoteId : Id) (channel : Chan) (r : Routing Id Chan) :
    (r.removeNeighbor remoteId channel).1.mTable = r.mTable := by
  unfold Routing.removeNeighbor
  split_ifs <;> rfl

section Events
variable {K : CryptoPP Id Pair Ecdh} {H : Host Id} {I : Node Id Pair Ecdh Chan → Prop}
  (h : Lasting K H I)
include h

theorem lasting_free : TransportFree I :=
  fun n port t _ hn => h.core hn (core_setTransport n port t)

theorem lasting_wire (n : Node Id Pair Ecdh Chan) (wire : Wire Chan) (hn : I n) :
    I { n with wire } := h.core hn rfl

theorem lasting_changeNeighbors {change : Routing Id Chan → Routing Id Chan × Bool}
    (hchange : ∀ r, (change r).1.mTable = r.mTable) :
    Keeps I (Node.changeNeighbors K H change) := by
  intro n hn
  have hrouting := h.routing (change n.routing).1 hn (hchange n.routing)
  simp only [Node.changeNeighbors, get_bind_run]
  cases (change n.routing).2 with
  | true => exact keeps_notifyNeighbor h.withstands _ hrouting
  | false => exact hrouting

theorem lasting_notifyMessage (message : Message Id) (channel : Option Chan) :
    Keeps I (Graph.notifyMessage K H message channel) := by
  intro n hn
  rw [Graph.notifyMessage]
  split_ifs
  · simp only [Graph.notifyHello, get_bind_run]
    cases message.source with
    | none => exact hn
    | some source =>
      cases channel with
      | none => exact hn
      | some channel =>
        dsimp only
        split_ifs
        · exact hn
        · exact lasting_changeNeighbors h (addNeighbor_mTable source channel) n hn
  · rw [Graph.notifyState]
    cases State.fromMessage K message with
    | error e => exact hn
    | ok s =>
      refine keeps_bind (keeps_insert h.withstands trivial) (fun accepted => ?_) n hn
      cases accepted with
      | true => exact keeps_modify fun n hn => lasting_wire h n _ hn
      | false => exact keeps_pure _
  · exact hn

theorem lasting_update : Keeps I (Graph.update K H : NodeM Id Pair Ecdh Chan Unit) := by
  refine keeps_get_bind fun n hn => ?_
  have hcount : Keeps I (modifyGraph fun g =>
      { g with mHelloSequence := g.mHelloSequence + 1 } : NodeM Id Pair Ecdh Chan Unit) :=
    keeps_modify fun n hn => h.hello hn
  refine keeps_bind hcount (fun _ => ?_) n hn
  cases Message.create K H.byteOrder MessageType.Hello n.graph.mHelloSequence []
      (some n.ecdsaPair) none with
  | error e => exact keeps_throw e
  | ok message => exact keeps_modify fun n hn => lasting_wire h n _ hn

theorem lasting_event {n : Node Id Pair Ecdh Chan} (hn : I n) (ev : NodeEvent Id Chan) :
    I (ev.apply K H n) := by
  have hfree := lasting_free h
  have hwire := lasting_wire h
  cases ev with
  | addChannel channel => exact h.routing _ hn rfl
  | removeChannel channel => exact h.routing _ hn rfl
  | addNeighbor remoteId channel =>
    exact lasting_changeNeighbors h (addNeighbor_mTable remoteId channel) n hn
  | removeNeighbor remoteId channel =>
    exact lasting_changeNeighbors h (removeNeighbor_mTable remoteId channel) n hn
  | status isOpen => exact h.core hn rfl
  | update => exact lasting_update h n hn
  | send port remoteId payload random =>
    exact keeps_send hfree hwire (fun message => lasting_notifyMessage h message none) port
      remoteId payload random n hn
  | broadcast port payload => exact keeps_broadcast hfree hwire port payload n hn
  | received channel data =>
    exact keeps_onMessage hfree hwire (fun message => lasting_notifyMessage h message channel)
      hn data

theorem lasting_run (events : List (NodeEvent Id Chan)) :
    ∀ n : Node Id Pair Ecdh Chan, I n → I (run K H n events) := by
  induction events with
  | nil => exact fun n hn => hn
  | cons ev events ih => exact fun n hn => ih _ (lasting_event h hn ev)

end Events

omit [LinearOrder Id] [DecidableEq Chan] in
/-- Nothing but the transports matters to a property of nodes. -/
def OfTransports (I : Node Id Pair Ecdh Chan → Prop) : Prop :=
  ∀ {n n'}, n'.transport = n.transport → I n → I n'

section Transports
variable {K : CryptoPP Id Pair Ecdh} {H : Host Id} {I : Node Id Pair Ecdh Chan → Prop}
  (h : OfTransports I)
include h

omit [LinearOrder Id] [DecidableEq Chan] in
theorem transports_free : GraphFree I := fun _ _ _ _ hn => h (by rfl) hn

theorem transports_withstands : Withstands K H I (fun _ => True) (fun _ => True) :=
  free_withstands (transports_free h) (fun _ _ _ _ => trivial) fun _ _ hn _ => h (by rfl) hn

theorem transports_changeNeighbors (change : Routing Id Chan → Routing Id Chan × Bool) :
    Keeps I (Node.changeNeighbors K H change) := by
  intro n hn
  have hrouting : I { n with routing := (change n.routing).1 } := h (by rfl) hn
  simp only [Node.changeNeighbors, get_bind_run]
  cases (change n.routing).2 with
  | true => exact keeps_notifyNeighbor (transports_withstands h) _ hrouting
  | false => exact hrouting

theorem transports_graphMessage (m : Message Id) (channel : Option Chan) :
    Keeps I (Graph.notifyMessage K H m channel) := by
  intro n hn
  rw [Graph.notifyMessage]
  split_ifs
  · simp only [Graph.notifyHello, get_bind_run]
    cases m.source with
    | none => exact hn
    | some source =>
      cases channel with
      | none => exact hn
      | some channel =>
        dsimp only
        split_ifs
        · exact hn
        · exact transports_changeNeighbors h _ n hn
  · rw [Graph.notifyState]
    cases State.fromMessage K m with
    | error e => exact hn
    | ok s =>
      refine keeps_bind (keeps_insert (transports_withstands h) trivial) (fun accepted => ?_) n hn
      cases accepted with
      | true => exact keeps_modify fun n hn => h (by rfl) hn
      | false => exact keeps_pure _
  · exact hn

omit [LinearOrder Id] in
theorem transports_update : Keeps I (Graph.update K H : NodeM Id Pair Ecdh Chan Unit) := by
  refine keeps_get_bind fun n hn => ?_
  refine keeps_bind (free_modifyGraph (transports_free h) (by exact fun _ => rfl))
    (fun _ => ?_) n hn
  cases Message.create K H.byteOrder MessageType.Hello n.graph.mHelloSequence []
      (some n.ecdsaPair) none with
  | error e => exact keeps_throw e
  | ok message => exact keeps_modify fun n hn => h (by rfl) hn

end Transports

end NodeInvariants
