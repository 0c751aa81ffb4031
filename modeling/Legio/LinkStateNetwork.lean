import Legio.LinkStateSteps
import Legio.NodeRuns
import Legio.VersionedFlooding
import Mathlib.Data.Fintype.Basic

set_option linter.style.header false

/-! Networks in which channels open and close. A channel object opens once at each of its
sides. History variables say which sides have handled a Hello and, for every node, which
channels have been open from before its last announcement until now. -/
namespace LinkStateNetwork

open LegioBinary LegioCrypto LegioMessage LegioNode Containers RoutingTableSearch
open ExceptionStates LinkStateStore GraphUpdates GraphRuns ChannelTopology NodeNetwork
open TransportSteps

variable {V Id Pair Ecdh Chan : Type}

structure World (V Id Pair Ecdh Chan : Type) where
  nodes : Nodes V Id Pair Ecdh Chan
  opened : Chan → Bool
  greeted : Chan → Bool
  since : V → Chan → Bool

def World.initial (σ : Nodes V Id Pair Ecdh Chan) : World V Id Pair Ecdh Chan :=
  ⟨σ, fun _ => false, fun _ => false, fun _ _ => false⟩

inductive Event (V Id Chan : Type) where
  | connect (channel : Chan)
  | disconnect (channel : Chan)
  | removeChannel (channel : Chan)
  | lose (channel : Chan)
  | update (v : V)
  | broadcast (v : V) (port : Port) (payload : Binary)
  | send (v : V) (port : Port) (remoteId : Id) (payload : Binary) (random : Iv)
  | deliver (channel : Chan)

def Event.closes : Event V Id Chan → Bool
  | .disconnect _ => true
  | .removeChannel _ => true
  | _ => false

def setOpen [DecidableEq Chan] (w : Wire Chan) (channel : Chan) (on : Bool) : Wire Chan :=
  { w with isOpen := Function.update w.isOpen channel on }

section Network
variable [DecidableEq Chan]

def up (net : Network V Id Chan) (σ : Nodes V Id Pair Ecdh Chan) (channel : Chan) : Bool :=
  decide (channel ∈ (σ (net.owner channel)).routing.mChannels) &&
    (σ (net.owner channel)).wire.isOpen channel

def live (net : Network V Id Chan) (σ : Nodes V Id Pair Ecdh Chan) (channel : Chan) : Bool :=
  up net σ channel && up net σ (net.peer channel)

def World.sinceAfter (w : World V Id Pair Ecdh Chan) (net : Network V Id Chan)
    (nodes : Nodes V Id Pair Ecdh Chan) : V → Chan → Bool :=
  fun v channel =>
    (if (nodes v).graph.announced.length = (w.nodes v).graph.announced.length then
      w.since v channel
    else live net w.nodes channel) && live net nodes channel

variable [DecidableEq V] [LinearOrder Id]

def carriesType (K : CryptoPP Id Pair Ecdh) (o : ByteOrder) (type : UInt8) (data : Binary) :
    Bool :=
  match Message.parse K o data with
  | .ok message => decide (message.type = type)
  | .error _ => false

def greets (K : CryptoPP Id Pair Ecdh) (net : Network V Id Chan)
    (σ : Nodes V Id Pair Ecdh Chan) (channel : Chan) : Bool :=
  decide (net.peer channel ∈ (σ (net.remote channel)).routing.mChannels) &&
    match inFlight net σ channel with
    | [] => false
    | data :: _ =>
      carriesType K (net.host (net.remote channel)).byteOrder MessageType.Hello data

/-- What an event does to the nodes. A message is only lost on a channel that is not open. -/
def Event.act (K : CryptoPP Id Pair Ecdh) (net : Network V Id Chan)
    (w : World V Id Pair Ecdh Chan) : Event V Id Chan → Nodes V Id Pair Ecdh Chan
  | .connect channel =>
    if w.opened channel then w.nodes
    else
      let n := w.nodes (net.owner channel)
      Function.update w.nodes (net.owner channel)
        (final (Node.addChannel channel { n with wire := setOpen n.wire channel true }))
  | .disconnect channel =>
    let n := w.nodes (net.owner channel)
    Function.update w.nodes (net.owner channel)
      { n with wire := setOpen n.wire channel false }
  | .removeChannel channel =>
    Function.update w.nodes (net.owner channel)
      (final (Node.removeChannel channel (w.nodes (net.owner channel))))
  | .lose channel => if live net w.nodes channel then w.nodes else popAt net w.nodes channel
  | .update v => Function.update w.nodes v (final (Graph.update K (net.host v) (w.nodes v)))
  | .broadcast v port payload =>
    Function.update w.nodes v
      (final (Transport.broadcast K (net.host v) port payload (w.nodes v)))
  | .send v port remoteId payload random =>
    Function.update w.nodes v
      (final (Transport.send K (net.host v) port remoteId payload random (w.nodes v)))
  | .deliver channel => NodeNetwork.deliver K net w.nodes channel

def Event.openedAfter (w : World V Id Pair Ecdh Chan) : Event V Id Chan → Chan → Bool
  | .connect channel => Function.update w.opened channel true
  | _ => w.opened

def Event.greetedAfter (K : CryptoPP Id Pair Ecdh) (net : Network V Id Chan)
    (w : World V Id Pair Ecdh Chan) : Event V Id Chan → Chan → Bool
  | .deliver channel =>
    if greets K net w.nodes channel then Function.update w.greeted (net.peer channel) true
    else w.greeted
  | _ => w.greeted

def Event.apply (K : CryptoPP Id Pair Ecdh) (net : Network V Id Chan)
    (w : World V Id Pair Ecdh Chan) (ev : Event V Id Chan) : World V Id Pair Ecdh Chan where
  nodes := ev.act K net w
  opened := ev.openedAfter w
  greeted := ev.greetedAfter K net w
  since := w.sinceAfter net (ev.act K net w)

def run (K : CryptoPP Id Pair Ecdh) (net : Network V Id Chan) (w : World V Id Pair Ecdh Chan)
    (events : List (Event V Id Chan)) : World V Id Pair Ecdh Chan :=
  events.foldl (Event.apply K net) w

/-- Constructed nodes with identities of their own, before any channel is open. -/
structure Started (K : CryptoPP Id Pair Ecdh) (net : Network V Id Chan)
    (σ : Nodes V Id Pair Ecdh Chan) : Prop where
  identities : Function.Injective fun v => (σ v).id K
  constructed : ∀ v, LocalLinks.Started K (net.host v) (σ v)
  typed : ∀ v, Typed (σ v)
  closed : ∀ channel, (σ (net.owner channel)).wire.isOpen channel = false
  quiet : Quiescent net σ

/-- The neighbours fit into a State, and State numbers have not wrapped around. -/
def Within (n : Node Id Pair Ecdh Chan) : Prop :=
  n.routing.neighbors.card ≤ neighborLimit ∧ n.graph.announced.length < broadcastLimit

instance (n : Node Id Pair Ecdh Chan) : Decidable (Within n) :=
  inferInstanceAs (Decidable (_ ∧ _))

def Guarded (K : CryptoPP Id Pair Ecdh) (net : Network V Id Chan) :
    World V Id Pair Ecdh Chan → List (Event V Id Chan) → Prop
  | _, [] => True
  | w, ev :: events =>
    (∀ v, Within ((ev.apply K net w).nodes v)) ∧ Guarded K net (ev.apply K net w) events

instance decidableGuarded [Fintype V] (K : CryptoPP Id Pair Ecdh) (net : Network V Id Chan) :
    (w : World V Id Pair Ecdh Chan) → (events : List (Event V Id Chan)) →
      Decidable (Guarded K net w events)
  | _, [] => .isTrue trivial
  | w, ev :: events =>
    have := decidableGuarded K net (ev.apply K net w) events
    inferInstanceAs (Decidable (_ ∧ _))

def Quiet (K : CryptoPP Id Pair Ecdh) (net : Network V Id Chan)
    (w : World V Id Pair Ecdh Chan) : Prop :=
  ∀ channel, live net w.nodes channel = true → ∀ data ∈ inFlight net w.nodes channel,
    carriesType K (net.host (net.remote channel)).byteOrder MessageType.State data = false

/-- In addition, both ends of every open channel have handled a Hello of the other end. -/
structure Settled (K : CryptoPP Id Pair Ecdh) (net : Network V Id Chan)
    (w : World V Id Pair Ecdh Chan) : Prop where
  quiet : Quiet K net w
  greeted : ∀ channel, live net w.nodes channel = true → w.greeted channel = true

def AgreeOn (K : CryptoPP Id Pair Ecdh) (σ : Nodes V Id Pair Ecdh Chan) (u v : V) : Prop :=
  ∃ s t, (σ u).graph.stateOf ((σ v).id K) = some s ∧ (σ v).graph.stateOf ((σ v).id K) = some t ∧
    s.sequence = t.sequence ∧ s.neighbors = t.neighbors

section Changes
variable {net : Network V Id Chan} {w : World V Id Pair Ecdh Chan}
  {σ nodes : Nodes V Id Pair Ecdh Chan} {x : V} {n' : Node Id Pair Ecdh Chan}

omit [LinearOrder Id] in
theorem up_update (hchannels : n'.routing.mChannels = (σ x).routing.mChannels)
    (hopen : n'.wire.isOpen = (σ x).wire.isOpen) :
    up net (Function.update σ x n') = up net σ := by
  funext c
  have h₁ := read_update (fun n => n.routing.mChannels) hchannels (net.owner c)
  have h₂ := read_update (fun n => n.wire.isOpen) hopen (net.owner c)
  rw [up, up, h₁, h₂]

omit [LinearOrder Id] in
theorem up_popAt (c : Chan) : up net (popAt net σ c) = up net σ := up_update rfl rfl

omit [LinearOrder Id] [DecidableEq V] in
theorem live_congr (h : up net nodes = up net σ) : live net nodes = live net σ := by
  funext c
  rw [live, live, h]

omit [LinearOrder Id] [DecidableEq V] in
theorem sinceAfter_silent
    (h : ∀ v, (nodes v).graph.announced = (w.nodes v).graph.announced) :
    w.sinceAfter net nodes = fun v c => w.since v c && live net nodes c := by
  funext v c
  rw [World.sinceAfter, if_pos (congrArg List.length (h v))]

omit [LinearOrder Id] [DecidableEq V] in
theorem sinceAfter_kept
    (h : ∀ v, (nodes v).graph.announced = (w.nodes v).graph.announced)
    (hup : up net nodes = up net w.nodes)
    (hlive : ∀ v c, w.since v c = true → live net w.nodes c = true) :
    w.sinceAfter net nodes = w.since := by
  rw [sinceAfter_silent h, live_congr hup]
  funext v c
  cases hc : w.since v c with
  | false => rfl
  | true => rw [hlive v c hc, Bool.and_self]

omit [LinearOrder Id] in
theorem sinceAfter_announced {s : State Id}
    (hx : (nodes x).graph.announced = (w.nodes x).graph.announced ++ [s])
    (h : ∀ v, v ≠ x → (nodes v).graph.announced = (w.nodes v).graph.announced)
    (hup : up net nodes = up net w.nodes)
    (hlive : ∀ v c, w.since v c = true → live net w.nodes c = true) :
    w.sinceAfter net nodes = Function.update w.since x (live net w.nodes) := by
  funext v c
  rw [World.sinceAfter, live_congr hup]
  by_cases hv : v = x
  · subst hv
    have hlength : ¬ (nodes v).graph.announced.length = (w.nodes v).graph.announced.length := by
      rw [hx, List.length_append, List.length_singleton]
      omega
    rw [if_neg hlength, Function.update_self, Bool.and_self]
  · rw [if_pos (congrArg List.length (h v hv)), Function.update_of_ne hv]
    cases hc : w.since v c with
    | false => rfl
    | true => rw [hlive v c hc, Bool.and_self]

end Changes

end Network

end LinkStateNetwork
