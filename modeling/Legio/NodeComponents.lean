import Legio.Containers
import Legio.MessageFormat
import Mathlib.Logic.Function.Basic

set_option linter.style.header false

/-! The components of a node and their data. `Chan` names the channel objects of
libdatachannel, a node's side of them being `Wire`. Vertices live in a heap because the
code shares them by pointer. Fields called announced, issued and delivered are history
variables: no function of the model reads them. -/
namespace LegioNode

open LegioBinary LegioCrypto LegioMessage Containers

abbrev Ptr := ℕ

/-- What the language and the machine leave open: byte order, addresses of allocated
vertices, iteration order of hash maps, and how many nested updates the stack holds. -/
structure Host (Id : Type) where
  byteOrder : ByteOrder
  address : Ptr → ℕ
  address_injective : Function.Injective address
  enumerate : UnorderedMap Id Ptr → List (Id × Ptr)
  enumerate_perm : ∀ m, (enumerate m).Perm (m.entries.map fun e => (e.1, e.2))
  stack : ℕ
  stack_nested : 2 ≤ stack

theorem Host.stack_succ_succ {Id : Type} (H : Host Id) : ∃ depth, H.stack = depth + 2 :=
  Nat.exists_eq_add_of_le' H.stack_nested

theorem Host.stack_succ {Id : Type} (H : Host Id) : ∃ depth, H.stack = depth + 1 :=
  Nat.exists_eq_add_of_le' (Nat.le_of_succ_le H.stack_nested)

structure State (Id : Type) where
  ecdsaPublic : Id
  sequence : UInt32
  ecdhPublic : Binary
  neighbors : Finset Id
  deriving DecidableEq

def State.id {Id : Type} (s : State Id) : Id := s.ecdsaPublic

structure RoutingTable (Id : Type) where
  mNextHops : UnorderedMap Id Id

structure Routing (Id Chan : Type) where
  mTable : Option (RoutingTable Id)
  mChannels : Finset Chan
  mNeighbors : UnorderedMap Id Chan

/-- The channel objects as one node sees them: their status and what was handed to them. -/
structure Wire (Chan : Type) where
  isOpen : Chan → Bool
  outbox : Chan → List Binary

structure Vertice (Id : Type) where
  mIdentifier : Id
  state : Option (State Id)
  edges : UnorderedMap Id Ptr
  nextHop : Option Ptr
  distance : Int
  visited : Bool

structure Graph (Id Ecdh : Type) where
  mRoutingTable : RoutingTable Id
  mVertices : UnorderedMap Id Ptr
  heap : Ptr → Vertice Id
  allocated : Ptr
  mEcdh : Ecdh
  mHelloSequence : UInt32
  mStateSequence : UInt32
  announced : List (State Id)

/-- One call of a transport's receive callback, with the message that caused it. -/
structure Delivery (Id : Type) where
  message : Message Id
  remoteId : Id
  payload : Binary
  deriving DecidableEq

structure Transport (Id : Type) where
  mType : UInt8
  mSendSequence : UInt32
  mSequences : UnorderedMap Id UInt32
  issued : List (Message Id)
  delivered : List (Delivery Id)

structure Node (Id Pair Ecdh Chan : Type) where
  ecdsaPair : Pair
  wire : Wire Chan
  routing : Routing Id Chan
  graph : Graph Id Ecdh
  signaling : Transport Id
  userTransport : Transport Id

/-- Code that runs on a node: changes made before an exception stay. -/
abbrev NodeM (Id Pair Ecdh Chan : Type) := EStateM Error (Node Id Pair Ecdh Chan)

variable {Id Pair Ecdh Chan : Type}

def Node.id (n : Node Id Pair Ecdh Chan) (K : CryptoPP Id Pair Ecdh) : Id :=
  K.publicKey n.ecdsaPair

section Tables
variable [DecidableEq Id]

def RoutingTable.empty : RoutingTable Id := ⟨∅⟩

def RoutingTable.add (t : RoutingTable Id) (node nextHop : Id) : RoutingTable Id :=
  ⟨emplace node nextHop t.mNextHops⟩

def RoutingTable.findNextHop (t : RoutingTable Id) (id : Id) : Option Id :=
  t.mNextHops.lookup id

def RoutingTable.nodes (t : RoutingTable Id) : List Id := t.mNextHops.keys

end Tables

section Messages
variable (K : CryptoPP Id Pair Ecdh) (o : ByteOrder)

/-- The body of a State message: the ECDH key, then every neighbour in set order. -/
def State.body [LinearOrder Id] (s : State Id) : Binary :=
  let writer := BinaryWriter.empty.write s.ecdhPublic
  ((iterate s.neighbors).foldl (fun w id => w.write (K.encodePoint id)) writer).data

def State.toMessage [LinearOrder Id] (s : State Id) (pair : Pair) :
    Except Error (Message Id) :=
  Message.create K o MessageType.State s.sequence (s.body K) (some pair) none

/-- The loop of `State::FromMessage`; the reader's size bounds its iterations. -/
def readNeighbors [DecidableEq Id] : ℕ → BinaryReader → Finset Id → Except Error (Finset Id)
  | 0, _, neighbors => .ok neighbors
  | fuel + 1, reader, neighbors =>
    if identifierSize ≤ reader.size then do
      let (bin, reader) ← reader.read identifierSize
      let id ← K.ecdsaPublic bin
      readNeighbors fuel reader (insert id neighbors)
    else .ok neighbors

def State.fromMessage [DecidableEq Id] (m : Message Id) : Except Error (State Id) :=
  match m.source with
  | none => .error (.invalidArgument "Not a State message")
  | some source =>
    if m.type ≠ MessageType.State then
      .error (.invalidArgument "Not a State message")
    else
      let reader := BinaryReader.ofBinary m.body
      if reader.size < ecdhKeySize then
        .error (.invalidArgument "Truncated State message")
      else do
        let (ecdhPublic, reader) ← reader.read ecdhKeySize
        let neighbors ← readNeighbors K reader.size reader ∅
        return ⟨source, m.sequence, ecdhPublic, neighbors⟩

end Messages

inductive RouteOutcome (Id Chan : Type) where
  | emit (message : Message Id) (channel : Option Chan)
  | send (channel : Chan) (message : Message Id)
  | drop

section Routing
variable [DecidableEq Id] [DecidableEq Chan]

def Routing.initial : Routing Id Chan := ⟨some .empty, ∅, ∅⟩

def Routing.addChannel (r : Routing Id Chan) (channel : Chan) : Routing Id Chan :=
  { r with mChannels := insert channel r.mChannels }

def Routing.removeChannel (r : Routing Id Chan) (channel : Chan) : Routing Id Chan :=
  { r with
    mChannels := r.mChannels.erase channel
    mNeighbors := eraseIf (fun _ c => c = channel) r.mNeighbors }

def Routing.addNeighbor (r : Routing Id Chan) (remoteId : Id) (channel : Chan) :
    Routing Id Chan × Bool :=
  if channel ∈ r.mChannels then
    if remoteId ∉ r.mNeighbors then
      ({ r with mNeighbors := emplace remoteId channel r.mNeighbors }, true)
    else (r, false)
  else (r, false)

def Routing.removeNeighbor (r : Routing Id Chan) (remoteId : Id) (channel : Chan) :
    Routing Id Chan × Bool :=
  if r.mNeighbors.lookup remoteId = some channel then
    ({ r with mNeighbors := r.mNeighbors.erase remoteId }, true)
  else (r, false)

def Routing.hasNeighbor (r : Routing Id Chan) (remoteId : Id) : Bool := remoteId ∈ r.mNeighbors

omit [DecidableEq Id] [DecidableEq Chan] in
def Routing.neighbors (r : Routing Id Chan) : Finset Id := keySet r.mNeighbors

def Routing.setTable (r : Routing Id Chan) (table : Option (RoutingTable Id)) :
    Routing Id Chan := { r with mTable := table }

/-- The channel is looked up under the destination; the next hop found in the table
only decides whether there is a route at all. -/
def Routing.findRoute (r : Routing Id Chan) (remoteId : Id) : Option Chan :=
  match r.mTable with
  | none => none
  | some table =>
    match table.findNextHop remoteId with
    | none => none
    | some _nextHop => r.mNeighbors.lookup remoteId

def Routing.route (r : Routing Id Chan) (localId : Id) (message : Message Id)
    (from_ : Option Chan) : Except Error (RouteOutcome Id Chan) :=
  if message.source = none then
    .error (.runtimeError "Missing message source")
  else
    match message.destination with
    | none => .ok (.emit message from_)
    | some destination =>
      if destination = localId then .ok (.emit message from_)
      else
        match r.findRoute destination with
        | some channel => .ok (.send channel message)
        | none => .ok .drop

/-- `Channel::send`; a channel that is not open throws. -/
def Wire.send (w : Wire Chan) (channel : Chan) (data : Binary) : Except Error (Wire Chan) :=
  if w.isOpen channel then
    .ok { w with outbox := Function.update w.outbox channel (w.outbox channel ++ [data]) }
  else .error (.runtimeError "channel is not open")

def Wire.pop (w : Wire Chan) (channel : Chan) : Wire Chan :=
  { w with outbox := Function.update w.outbox channel (w.outbox channel).tail }

/-- `Routing::broadcast`: every open channel but the one the message came from. A message
that cannot be serialised is sent nowhere, its exception being caught. -/
def Routing.broadcast (r : Routing Id Chan) (K : CryptoPP Id Pair Ecdh) (o : ByteOrder)
    (w : Wire Chan) (message : Message Id) (from_ : Option Chan) : Wire Chan :=
  { w with
    outbox := fun channel =>
      if channel ∈ r.mChannels ∧ some channel ≠ from_ ∧ w.isOpen channel then
        match message.toBinary K o with
        | .ok data => w.outbox channel ++ [data]
        | .error _ => w.outbox channel
      else w.outbox channel }

end Routing

section Transports
variable [DecidableEq Id]

/-- A transport as constructed; the code leaves the send counter uninitialised. -/
def Transport.initial (mType : UInt8) (mSendSequence : UInt32) : Transport Id :=
  ⟨mType, mSendSequence, ∅, [], []⟩

def Transport.checkSequence (t : Transport Id) (id : Id) (sequence : UInt32) :
    Bool × Transport Id :=
  match t.mSequences.lookup id with
  | none => (true, { t with mSequences := emplace id sequence t.mSequences })
  | some last =>
    if compareSequence sequence last > 0 then
      (true, { t with mSequences := t.mSequences.insert id sequence })
    else (false, t)

end Transports

end LegioNode
