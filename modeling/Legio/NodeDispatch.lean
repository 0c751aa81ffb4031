import Legio.CipherBody
import Legio.ExceptionStates
import Legio.GraphComponent

set_option linter.style.header false

/-! How the components of a node work together: Routing emits events, the graph and the
transports are notified of them in the order in which they attached. What a receive
callback does is up to the user; here its call is recorded. -/
namespace LegioNode

open LegioBinary LegioCrypto LegioMessage Containers ExceptionStates

variable {Id Pair Ecdh Chan : Type}

inductive Port where
  | signaling
  | user
  deriving DecidableEq

/-- The message type that a node's constructor gives each of them. -/
def Port.type : Port → UInt8
  | .signaling => MessageType.Signaling
  | .user => MessageType.User

def Node.transport (n : Node Id Pair Ecdh Chan) : Port → Transport Id
  | .signaling => n.signaling
  | .user => n.userTransport

def Node.setTransport (n : Node Id Pair Ecdh Chan) (port : Port) (t : Transport Id) :
    Node Id Pair Ecdh Chan :=
  match port with
  | .signaling => { n with signaling := t }
  | .user => { n with userTransport := t }

@[simp] theorem transport_setTransport (n : Node Id Pair Ecdh Chan) (port : Port)
    (t : Transport Id) : (n.setTransport port t).transport port = t := by
  cases port <;> rfl

@[simp] theorem setTransport_setTransport (n : Node Id Pair Ecdh Chan) (port : Port)
    (t t' : Transport Id) : (n.setTransport port t).setTransport port t' =
      n.setTransport port t' := by
  cases port <;> rfl

@[simp] theorem graph_setTransport (n : Node Id Pair Ecdh Chan) (port : Port)
    (t : Transport Id) : (n.setTransport port t).graph = n.graph := by
  cases port <;> rfl

section Dispatch
variable [LinearOrder Id] [DecidableEq Chan] (K : CryptoPP Id Pair Ecdh) (H : Host Id)

def Node.addChannel (channel : Chan) : NodeM Id Pair Ecdh Chan Unit :=
  modify fun n => { n with routing := n.routing.addChannel channel }

def Node.removeChannel (channel : Chan) : NodeM Id Pair Ecdh Chan Unit :=
  modify fun n => { n with routing := n.routing.removeChannel channel }

/-- A change of the neighbours, with the event it emits. -/
def Node.changeNeighbors (change : Routing Id Chan → Routing Id Chan × Bool) :
    NodeM Id Pair Ecdh Chan Unit := do
  let n ← get
  set { n with routing := (change n.routing).1 }
  if (change n.routing).2 then Graph.notifyNeighbor K H

def Node.addNeighbor (remoteId : Id) (channel : Chan) : NodeM Id Pair Ecdh Chan Unit :=
  Node.changeNeighbors K H fun r => r.addNeighbor remoteId channel

def Node.removeNeighbor (remoteId : Id) (channel : Chan) : NodeM Id Pair Ecdh Chan Unit :=
  Node.changeNeighbors K H fun r => r.removeNeighbor remoteId channel

def Graph.notifyHello (message : Message Id) (channel : Option Chan) :
    NodeM Id Pair Ecdh Chan Unit := do
  let n ← MonadState.get
  match message.source, channel with
  | some source, some channel =>
    if n.routing.hasNeighbor source then pure ()
    else Node.addNeighbor K H source channel
  | _, _ => pure ()

def Graph.notifyMessage (message : Message Id) (channel : Option Chan) :
    NodeM Id Pair Ecdh Chan Unit :=
  if message.type = MessageType.Hello then Graph.notifyHello K H message channel
  else if message.type = MessageType.State then Graph.notifyState K H message channel
  else pure ()

theorem notifyHello_run {message : Message Id} {source : Id}
    (hsource : message.source = some source) (channel : Chan) (n : Node Id Pair Ecdh Chan) :
    Graph.notifyHello K H message (some channel) n =
      if n.routing.hasNeighbor source then .ok () n
      else Node.addNeighbor K H source channel n := by
  simp only [Graph.notifyHello, hsource, get_bind_run]
  split_ifs <;> rfl

def Node.checkSequence (port : Port) (id : Id) (sequence : UInt32) :
    NodeM Id Pair Ecdh Chan Bool := do
  let n ← get
  let (fresh, t) := (n.transport port).checkSequence id sequence
  set (n.setTransport port t)
  return fresh

omit [DecidableEq Chan] in
theorem checkSequence_run (n : Node Id Pair Ecdh Chan) (port : Port) (id : Id)
    (sequence : UInt32) : Node.checkSequence port id sequence n =
      .ok ((n.transport port).checkSequence id sequence).1
        (n.setTransport port ((n.transport port).checkSequence id sequence).2) := rfl

theorem checkSequence_delivered (t : Transport Id) (id : Id) (sequence : UInt32) :
    (t.checkSequence id sequence).2.delivered = t.delivered := by
  unfold Transport.checkSequence
  split
  · rfl
  · split_ifs <;> rfl

def Node.callback (port : Port) (message : Message Id) (remoteId : Id) (payload : Binary) :
    NodeM Id Pair Ecdh Chan Unit :=
  modify fun n =>
    let t := n.transport port
    n.setTransport port { t with delivered := t.delivered ++ [⟨message, remoteId, payload⟩] }

def Transport.incoming (port : Port) (message : Message Id) (remoteId : Id) :
    NodeM Id Pair Ecdh Chan Unit := do
  if ← Node.checkSequence port remoteId message.sequence then
    match message.destination with
    | none => pure ()
    | some _ =>
      match CipherBody.parse message.body with
      | .error e => throw e
      | .ok cipherBody =>
        let n ← get
        if cipherBody.destination ≠ K.ecdhPublicKey n.graph.mEcdh then pure ()
        else
          match cipherBody.decrypt K n.graph.mEcdh with
          | .error e => throw e
          | .ok payload => Node.callback port message remoteId payload

def BroadcastableTransport.incoming (message : Message Id) (remoteId : Id)
    (channel : Option Chan) : NodeM Id Pair Ecdh Chan Unit :=
  match message.destination with
  | some _ => Transport.incoming K .user message remoteId
  | none => do
    if ← Node.checkSequence .user remoteId message.sequence then
      modify fun n => { n with
        wire := n.routing.broadcast K H.byteOrder n.wire message channel }
      Node.callback .user message remoteId message.body

def Transport.notifyMessage (port : Port) (message : Message Id) (channel : Option Chan) :
    NodeM Id Pair Ecdh Chan Unit := do
  let n ← get
  match message.source with
  | none => pure ()
  | some remoteId =>
    if message.type ≠ (n.transport port).mType then pure ()
    else
      match port with
      | .signaling => Transport.incoming K .signaling message remoteId
      | .user => BroadcastableTransport.incoming K H message remoteId channel

def Node.notifyMessage (message : Message Id) (channel : Option Chan) :
    NodeM Id Pair Ecdh Chan Unit := do
  Graph.notifyMessage K H message channel
  Transport.notifyMessage K H .signaling message channel
  Transport.notifyMessage K H .user message channel

def Node.route (message : Message Id) (from_ : Option Chan) : NodeM Id Pair Ecdh Chan Unit := do
  let n ← get
  match n.routing.route (n.id K) message from_ with
  | .error e => throw e
  | .ok (.emit message channel) => Node.notifyMessage K H message channel
  | .ok (.send channel message) =>
    match message.toBinary K H.byteOrder with
    | .error e => throw e
    | .ok data =>
      match n.wire.send channel data with
      | .error e => throw e
      | .ok wire => set { n with wire }
  | .ok .drop => pure ()

/-- The callback that `Routing::addChannel` installs; it catches every exception. -/
def Node.onMessage (n : Node Id Pair Ecdh Chan) (channel : Chan) (data : Binary) :
    Node Id Pair Ecdh Chan :=
  match Message.parse K H.byteOrder data with
  | .error _ => n
  | .ok message => final (Node.route K H message (some channel) n)

def Node.send (message : Message Id) : NodeM Id Pair Ecdh Chan Unit :=
  if message.destination.isSome then Node.route K H message none
  else
    modify fun n => { n with
      wire := n.routing.broadcast K H.byteOrder n.wire message none }

/-- `make_message` under the next number of a transport. -/
def Transport.makeMessage (port : Port) (body : Binary) (destination : Option Id) :
    NodeM Id Pair Ecdh Chan (Message Id) := do
  let n ← get
  let t := n.transport port
  set (n.setTransport port { t with mSendSequence := t.mSendSequence + 1 })
  match Message.create K H.byteOrder t.mType t.mSendSequence body (some n.ecdsaPair)
      destination with
  | .error e => throw e
  | .ok message =>
    modify fun n =>
      let t := n.transport port
      n.setTransport port { t with issued := t.issued ++ [message] }
    return message

/-- The message that `Transport::send` builds. -/
def Transport.directMessage (port : Port) (remoteId : Id) (payload : Binary) (random : Iv) :
    NodeM Id Pair Ecdh Chan (Message Id) := do
  let n ← get
  match n.graph.get remoteId with
  | .error e => throw e
  | .ok remoteState =>
    match CipherBody.encrypt K payload n.graph.mEcdh remoteState.ecdhPublic random with
    | .error e => throw e
    | .ok cipherBody =>
      Transport.makeMessage K H port cipherBody.toBinary (some remoteId)

def Transport.send (port : Port) (remoteId : Id) (payload : Binary) (random : Iv) :
    NodeM Id Pair Ecdh Chan Unit := do
  let message ← Transport.directMessage K H port remoteId payload random
  Node.send K H message

/-- `Transport::broadcast`, which only the broadcastable transport supports. -/
def Transport.broadcast (port : Port) (payload : Binary) : NodeM Id Pair Ecdh Chan Unit :=
  match port with
  | .signaling => throw (.logicError "Transport does not support broadcasting")
  | .user => do
    let message ← Transport.makeMessage K H .user payload none
    modify fun n => { n with
      wire := n.routing.broadcast K H.byteOrder n.wire message none }

/-- `Graph::update`, that is `Graph::broadcastHello`. -/
def Graph.update : NodeM Id Pair Ecdh Chan Unit := do
  let n ← MonadState.get
  modifyGraph fun g => { g with mHelloSequence := g.mHelloSequence + 1 }
  match Message.create K H.byteOrder MessageType.Hello n.graph.mHelloSequence []
      (some n.ecdsaPair) none with
  | .error e => throw e
  | .ok message =>
    modify fun n => { n with
      wire := n.routing.broadcast K H.byteOrder n.wire message none }

/-- No number and no delivery of a transport matters to a property of nodes. -/
def TransportFree (I : Node Id Pair Ecdh Chan → Prop) : Prop :=
  ∀ n port t, t.mType = (n.transport port).mType → I n → I (n.setTransport port t)

theorem checkSequence_mType (t : Transport Id) (id : Id) (sequence : UInt32) :
    (t.checkSequence id sequence).2.mType = t.mType := by
  unfold Transport.checkSequence
  split
  · rfl
  · split_ifs <;> rfl

omit [DecidableEq Chan] in
theorem incoming_reaches {I : Node Id Pair Ecdh Chan → Prop} {port : Port} {message : Message Id}
    {remoteId : Id} (hcallback : ∀ payload, Keeps I (Node.callback port message remoteId payload))
    {n : Node Id Pair Ecdh Chan}
    (hchecked : I (final (Node.checkSequence port remoteId message.sequence n))) :
    I (final (Transport.incoming K port message remoteId n)) := by
  rw [checkSequence_run, final_ok] at hchecked
  rw [Transport.incoming, bind_ok (checkSequence_run n port remoteId message.sequence)]
  generalize ((n.transport port).checkSequence remoteId message.sequence).1 = fresh
  generalize n.setTransport port _ = checked at hchecked ⊢
  cases fresh with
  | false => exact hchecked
  | true =>
    cases message.destination with
    | none => exact hchecked
    | some _ =>
      cases CipherBody.parse message.body with
      | error e => exact hchecked
      | ok cipherBody =>
        refine keeps_get_bind (fun n hn => ?_) checked hchecked
        split_ifs
        · exact hn
        · cases cipherBody.decrypt K n.graph.mEcdh with
          | error e => exact hn
          | ok payload => exact hcallback payload n hn

section Keeping
variable {I : Node Id Pair Ecdh Chan → Prop} (hI : TransportFree I)
include hI

omit [DecidableEq Chan] in
theorem keeps_checkSequence (port : Port) (id : Id) (sequence : UInt32) :
    Keeps I (Node.checkSequence port id sequence) := by
  intro n hn
  rw [checkSequence_run, final_ok]
  exact hI n port _ (checkSequence_mType _ id sequence) hn

omit [LinearOrder Id] [DecidableEq Chan] in
theorem keeps_callback (port : Port) (message : Message Id) (remoteId : Id)
    (payload : Binary) : Keeps I (Node.callback port message remoteId payload) :=
  keeps_modify fun n hn => hI n port _ rfl hn

omit [DecidableEq Chan] in
theorem keeps_incoming (port : Port) (message : Message Id) (remoteId : Id) :
    Keeps I (Transport.incoming K port message remoteId) := by
  intro n hn
  refine incoming_reaches K (keeps_callback hI port message remoteId) ?_
  exact keeps_checkSequence hI port remoteId message.sequence n hn

variable (hwire : ∀ n wire, I n → I { n with wire })
include hwire

theorem keeps_broadcastable (message : Message Id) (remoteId : Id) (channel : Option Chan) :
    Keeps I (BroadcastableTransport.incoming K H message remoteId channel) := by
  unfold BroadcastableTransport.incoming
  cases message.destination with
  | some _ => exact keeps_incoming K hI .user message remoteId
  | none =>
    refine keeps_bind (keeps_checkSequence hI .user remoteId message.sequence) fun fresh => ?_
    cases fresh with
    | false => exact keeps_pure _
    | true =>
      exact keeps_bind (keeps_modify fun n hn => hwire n _ hn) fun _ =>
        keeps_callback hI .user message remoteId message.body

theorem keeps_notifyMessage (port : Port) (message : Message Id) (channel : Option Chan) :
    Keeps I (Transport.notifyMessage K H port message channel) := by
  refine keeps_get_bind fun n hn => ?_
  cases message.source with
  | none => exact hn
  | some remoteId =>
    dsimp only
    split_ifs
    · exact hn
    · cases port with
      | signaling => exact keeps_incoming K hI .signaling message remoteId n hn
      | user => exact keeps_broadcastable K H hI hwire message remoteId channel n hn

end Keeping

/-- The part of a node that no transport writes to. -/
def Node.core (n : Node Id Pair Ecdh Chan) : Pair × Routing Id Chan × Graph Id Ecdh :=
  (n.ecdsaPair, n.routing, n.graph)

omit [LinearOrder Id] [DecidableEq Chan] in
@[simp] theorem core_setTransport (n : Node Id Pair Ecdh Chan) (port : Port)
    (t : Transport Id) : (n.setTransport port t).core = n.core := by
  cases port <;> rfl

omit [LinearOrder Id] [DecidableEq Chan] in
theorem transportFree_core (c : Pair × Routing Id Chan × Graph Id Ecdh) :
    TransportFree fun n : Node Id Pair Ecdh Chan => n.core = c := by
  intro n port t _ hn
  rw [core_setTransport]
  exact hn

theorem core_notifyMessage (message : Message Id) (channel : Option Chan)
    (n : Node Id Pair Ecdh Chan) : (final (Node.notifyMessage K H message channel n)).core =
      (final (Graph.notifyMessage K H message channel n)).core := by
  cases h : Graph.notifyMessage K H message channel n with
  | error e n' => rw [Node.notifyMessage, bind_error h]
  | ok _ n' =>
    rw [Node.notifyMessage, bind_ok h]
    have hkeeps := keeps_notifyMessage K H (transportFree_core n'.core) fun _ _ hn => hn
    exact keeps_bind (hkeeps .signaling message channel)
      (fun _ => hkeeps .user message channel) n' rfl

omit [DecidableEq Chan] in
theorem route_emit {r : Routing Id Chan} {localId : Id} {message m : Message Id}
    {from_ c : Option Chan} (h : r.route localId message from_ = .ok (.emit m c)) :
    m = message ∧ c = from_ := by
  rw [Routing.route] at h
  split_ifs at h
  cases hd : message.destination with
  | none =>
    rw [hd] at h
    cases h
    exact ⟨rfl, rfl⟩
  | some destination =>
    rw [hd] at h
    dsimp only at h
    split_ifs at h
    · cases h
      exact ⟨rfl, rfl⟩
    · cases hf : r.findRoute destination <;> rw [hf] at h <;> cases h

/-- What reception of any bytes can do to a node beside its wire and its transports. -/
theorem core_onMessage (n : Node Id Pair Ecdh Chan) (channel : Chan) (data : Binary) :
    (Node.onMessage K H n channel data).core = n.core ∨
      ∃ message, Message.parse K H.byteOrder data = .ok message ∧
        (Node.onMessage K H n channel data).core =
          (final (Graph.notifyMessage K H message (some channel) n)).core := by
  unfold Node.onMessage
  cases hparse : Message.parse K H.byteOrder data with
  | error e => exact Or.inl rfl
  | ok message =>
    dsimp only
    unfold Node.route
    rw [get_bind_run]
    cases hroute : n.routing.route (n.id K) message (some channel) with
    | error e => exact Or.inl rfl
    | ok outcome =>
      cases outcome with
      | drop => exact Or.inl rfl
      | send channel' message' =>
        left
        dsimp only
        cases message'.toBinary K H.byteOrder with
        | error e => rfl
        | ok data' =>
          dsimp only
          cases n.wire.send channel' data' with
          | error e => rfl
          | ok wire => rfl
      | emit message' channel' =>
        have hemit := route_emit hroute
        obtain ⟨rfl, rfl⟩ := hemit
        exact Or.inr ⟨message', rfl, core_notifyMessage K H message' (some channel) n⟩

end Dispatch

end LegioNode
