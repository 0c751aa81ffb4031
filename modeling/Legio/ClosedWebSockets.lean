import Legio.NodeRuns
import Legio.RoutingLinks

set_option linter.style.header false

/-! WebSockets that open and close, accepted by `Server` or opened by `Networking`, and what
Routing keeps of them. A channel of the node is a WebSocket or a data channel. Only the
callbacks of `Networking::connectWebSocket` unregister a WebSocket that has closed. -/
namespace ClosedWebSockets

open LegioBinary LegioCrypto LegioMessage LegioNode Containers ExceptionStates
open NodeRuns LocalLinks RoutingLinks
open NodeNetwork (arrive)

variable {W D Id Pair Ecdh : Type}

/-- Who created a WebSocket, and thereby which callbacks it has. -/
inductive Origin where
  | server
  | networking
  deriving DecidableEq

inductive Phase where
  | connecting
  | opened
  | closed
  deriving DecidableEq

structure Endpoint (W D Id Pair Ecdh : Type) where
  node : Node Id Pair Ecdh (W ⊕ D)
  sockets : W → Option (Origin × Phase)

inductive Event (W D Id : Type) where
  | onClient (w : W)
  | connectWebSocket (w : W)
  | opened (w : W)
  | closed (w : W)
  | received (channel : W ⊕ D) (data : Binary)
  | act (event : NodeEvent Id (W ⊕ D))

section Model
variable [DecidableEq W] [DecidableEq D] [LinearOrder Id]
variable (K : CryptoPP Id Pair Ecdh) (H : Host Id)

def Endpoint.enter (e : Endpoint W D Id Pair Ecdh) (w : W) (origin : Origin) (phase : Phase) :
    Endpoint W D Id Pair Ecdh :=
  { e with sockets := Function.update e.sockets w (some (origin, phase)) }

def Endpoint.onOpen (e : Endpoint W D Id Pair Ecdh) (w : W) : Endpoint W D Id Pair Ecdh :=
  { e with node := final (Node.addChannel (.inl w) e.node) }

/-- The `onClosed` callback, which `Server` does not set. -/
def Endpoint.onClosed (e : Endpoint W D Id Pair Ecdh) (w : W) :
    Origin → Endpoint W D Id Pair Ecdh
  | .server => e
  | .networking => { e with node := final (Node.removeChannel (.inl w) e.node) }

def Endpoint.step (e : Endpoint W D Id Pair Ecdh) : Event W D Id → Endpoint W D Id Pair Ecdh
  | .onClient w => e.enter w .server .connecting
  | .connectWebSocket w => e.enter w .networking .connecting
  | .opened w =>
    match e.sockets w with
    | some (origin, .connecting) => (e.onOpen w).enter w origin .opened
    | _ => e
  | .closed w =>
    match e.sockets w with
    | some (_, .closed) => e
    | some (origin, _) => (e.onClosed w origin).enter w origin .closed
    | none => e
  | .received channel data => { e with node := arrive K H e.node channel data }
  | .act event => { e with node := event.apply K H e.node }

/-- Each WebSocket is created once, and apart from the callbacks only data channels are
registered and removed. -/
def Endpoint.Possible (e : Endpoint W D Id Pair Ecdh) : Event W D Id → Prop
  | .onClient w | .connectWebSocket w => e.sockets w = none
  | .opened _ | .closed _ | .received _ _ => True
  | .act event => event.data = [] ∧ ∀ w,
      .addChannel (.inl w) ∉ calls event ∧ .removeChannel (.inl w) ∉ calls event

def Endpoint.Closed (e : Endpoint W D Id Pair Ecdh) (w : W) : Prop :=
  ∃ origin, e.sockets w = some (origin, .closed)

def Greets (n : Node Id Pair Ecdh (W ⊕ D)) (id : Id) (data : Binary) : Prop :=
  ∃ m, Message.parse K H.byteOrder data = .ok m ∧ m.type = MessageType.Hello ∧
    m.source = some id ∧ (m.destination = none ∨ m.destination = some (n.id K))

/-- Routing holds no WebSocket that has closed, and a neighbour that had one greets again
over a new channel and is bound to it. -/
structure Unlinked (e : Endpoint W D Id Pair Ecdh) : Prop where
  channels : ∀ w, e.Closed w → .inl w ∉ e.node.routing.mChannels
  neighbors : ∀ w, e.Closed w → ∀ id, e.node.routing.mNeighbors.lookup id ≠ some (.inl w)
  rebound : ∀ id channel data, Greets K H e.node id data →
    channel ∈ e.node.routing.mChannels →
    (∀ old, e.node.routing.mNeighbors.lookup id = some old → ∃ w, old = .inl w ∧ e.Closed w) →
    (arrive K H e.node channel data).routing.mNeighbors.lookup id = some channel

def Endpoint.Abandons (e : Endpoint W D Id Pair Ecdh) : Event W D Id → Prop
  | .closed w => e.sockets w = some (.server, .opened)
  | _ => False

def PossibleRun : Endpoint W D Id Pair Ecdh → List (Event W D Id) → Prop
  | _, [] => True
  | e, event :: events => e.Possible event ∧ PossibleRun (e.step K H event) events

/-- The property holds at the start of a run and after each of its events. -/
def UnlinkedThroughout : Endpoint W D Id Pair Ecdh → List (Event W D Id) → Prop
  | e, [] => Unlinked K H e
  | e, event :: events => Unlinked K H e ∧ UnlinkedThroughout (e.step K H event) events

def NeverAbandons : Endpoint W D Id Pair Ecdh → List (Event W D Id) → Prop
  | _, [] => True
  | e, event :: events => ¬ e.Abandons event ∧ NeverAbandons (e.step K H event) events

structure Start (e : Endpoint W D Id Pair Ecdh) : Prop where
  routing : e.node.routing.mChannels = ∅ ∧ e.node.routing.neighbors = ∅
  sockets : ∀ w, e.sockets w = none

end Model

section Invariant
variable [DecidableEq W] [DecidableEq D] [LinearOrder Id]
variable {K : CryptoPP Id Pair Ecdh} (H : Host Id) {e : Endpoint W D Id Pair Ecdh}

/-- Neighbours are bound to registered channels, and of the WebSockets exactly the open ones
are registered. -/
structure Tidy (e : Endpoint W D Id Pair Ecdh) : Prop where
  bound : Bound e.node.routing
  registered : ∀ w, .inl w ∈ e.node.routing.mChannels ↔ ∃ o, e.sockets w = some (o, .opened)

omit [DecidableEq W] [DecidableEq D] in
theorem tidy_start (h : Start e) : Tidy e := by
  constructor
  · intro id c hc
    have hmem : id ∈ e.node.routing.neighbors := mem_iff_lookup.mpr ⟨c, hc⟩
    rw [h.routing.2] at hmem
    exact absurd hmem (Finset.notMem_empty id)
  · intro w
    rw [h.routing.1, h.sockets w]
    simp

omit [DecidableEq W] [DecidableEq D] in
theorem not_registered (h : Tidy e) {w : W} (hw : e.Closed w) :
    .inl w ∉ e.node.routing.mChannels := by
  obtain ⟨origin, hclosed⟩ := hw
  intro hmem
  obtain ⟨origin', hopened⟩ := (h.registered w).mp hmem
  rw [hclosed] at hopened
  cases hopened

theorem unlinked_of_tidy (h : Tidy e) : Unlinked K H e := by
  refine ⟨fun w hw => not_registered h hw, ?_, ?_⟩
  · intro w hw id hid
    exact not_registered h hw (h.bound id _ hid)
  · rintro id channel data ⟨m, hparse, hhello, hsource, hdestination⟩ hmem hold
    have hfree : e.node.routing.mNeighbors.lookup id = none := by
      cases hlookup : e.node.routing.mNeighbors.lookup id with
      | none => rfl
      | some old =>
        obtain ⟨w, rfl, hw⟩ := hold old hlookup
        exact absurd (h.bound id _ hlookup) (not_registered h hw)
    have hlinks := links_hello H hparse hhello hsource hdestination channel
    have hneighbors := congrArg Prod.snd hlinks
    have hframe := apply_frame (K := K) H e.node (.addNeighbor id channel)
    rw [arrive, if_pos hmem]
    change (Node.onMessage K H e.node channel data).routing.mNeighbors = _ at hneighbors
    rw [hneighbors]
    exact (hframe.2 id).trans (if_pos ⟨rfl, hfree, hmem⟩)

theorem tidy_links (h : Tidy e) {n : Node Id Pair Ecdh (W ⊕ D)} (made : List (Call Id (W ⊕ D)))
    (hcalls : ∀ w, .addChannel (.inl w) ∉ made ∧ .removeChannel (.inl w) ∉ made)
    (hlinks : links n = links (run K H e.node made)) : Tidy { e with node := n } := by
  have hchannels : n.routing.mChannels = (run K H e.node made).routing.mChannels :=
    congrArg Prod.fst hlinks
  have hneighbors : n.routing.mNeighbors = (run K H e.node made).routing.mNeighbors :=
    congrArg Prod.snd hlinks
  constructor
  · intro id c hc
    rw [hneighbors] at hc
    rw [hchannels]
    exact bound_run H h.bound made id c hc
  · intro w
    obtain ⟨hadd, hremove⟩ := hcalls w
    rw [← h.registered w, hchannels, mem_run H made hadd hremove]

omit [DecidableEq D] in
theorem tidy_enter (hbound : Bound e.node.routing) {w : W} {origin : Origin} {phase : Phase}
    (hself : .inl w ∈ e.node.routing.mChannels ↔ phase = .opened)
    (hother : ∀ v, v ≠ w →
      (.inl v ∈ e.node.routing.mChannels ↔ ∃ o, e.sockets v = some (o, .opened))) :
    Tidy (e.enter w origin phase) := by
  refine ⟨hbound, fun v => ?_⟩
  by_cases hv : v = w
  · subst hv
    simp only [Endpoint.enter, Function.update_self, Option.some.injEq, Prod.mk.injEq]
    rw [hself]
    simp
  · simp only [Endpoint.enter, Function.update_of_ne hv]
    exact hother v hv

theorem tidy_opened (h : Tidy e) (w : W) : Tidy (e.step K H (.opened w)) := by
  rw [Endpoint.step]
  split
  · refine tidy_enter (e := e.onOpen w)
      (bound_frame h.bound (apply_frame (K := K) H e.node (.addChannel (.inl w)))) ?_ ?_
    · exact iff_of_true (Finset.mem_insert_self ..) rfl
    · intro v hv
      refine Iff.trans ?_ (h.registered v)
      exact Finset.mem_insert.trans (or_iff_right fun heq => hv (Sum.inl.inj heq))
  · exact h

theorem tidy_closed (h : Tidy e) {w : W} (hkept : e.sockets w ≠ some (.server, .opened)) :
    Tidy (e.step K H (.closed w)) := by
  rw [Endpoint.step]
  split
  · exact h
  · rename_i origin phase hphase hsocket
    cases origin with
    | server =>
      -- not open yet, so not registered
      refine tidy_enter (e := e) h.bound ?_ fun v _ => h.registered v
      refine iff_of_false (fun hmem => ?_) (by decide)
      obtain ⟨o, hopened⟩ := (h.registered w).mp hmem
      rw [hsocket] at hopened
      cases hopened
      exact hkept hsocket
    | networking =>
      have hgone : .inl w ∉ (e.onClosed w .networking).node.routing.mChannels :=
        Finset.notMem_erase (.inl w) e.node.routing.mChannels
      refine tidy_enter (e := e.onClosed w .networking)
        (bound_frame h.bound (apply_frame (K := K) H e.node (.removeChannel (.inl w)))) ?_ ?_
      · refine iff_of_false hgone fun heq => ?_
        cases heq
      · intro v hv
        refine Iff.trans ?_ (h.registered v)
        exact Finset.mem_erase.trans (and_iff_right fun heq => hv (Sum.inl.inj heq))
  · exact h

theorem tidy_received (h : Tidy e) (channel : W ⊕ D) (data : Binary) :
    Tidy (e.step K H (.received channel data)) := by
  have hnone : ∀ w : W, Call.addChannel (.inl w) ∉ ([] : List (Call Id (W ⊕ D))) ∧
      Call.removeChannel (.inl w) ∉ ([] : List (Call Id (W ⊕ D))) := by simp
  rw [Endpoint.step, arrive]
  split_ifs
  · rcases links_onMessage (K := K) H e.node channel data with hsame | ⟨_, source, -, -, -, hlinks⟩
    · exact tidy_links (K := K) H h [] hnone hsame
    · exact tidy_links H h [.addNeighbor source channel] (by simp) hlinks
  · exact h

theorem tidy_step (h : Tidy e) {event : Event W D Id} (hp : e.Possible event)
    (hkept : ¬ e.Abandons event) : Tidy (e.step K H event) := by
  have hcreate : ∀ {w : W} (origin : Origin), e.sockets w = none →
      Tidy (e.enter w origin .connecting) := by
    intro w origin hw
    refine tidy_enter h.bound (iff_of_false (fun hmem => ?_) (by decide)) fun v _ => h.registered v
    obtain ⟨o, hopened⟩ := (h.registered w).mp hmem
    rw [hw] at hopened
    cases hopened
  cases event with
  | onClient w => exact hcreate .server hp
  | connectWebSocket w => exact hcreate .networking hp
  | opened w => exact tidy_opened H h w
  | closed w => exact tidy_closed H h hkept
  | received channel data => exact tidy_received H h channel data
  | act event => exact tidy_links H h (calls event) hp.2 (links_act H e.node hp.1)

/-- The one event: the WebSocket stays registered. -/
theorem abandoned_linked (h : Tidy e) {event : Event W D Id} (habandons : e.Abandons event) :
    ¬ Unlinked K H (e.step K H event) := by
  cases event with
  | closed w =>
    have hsocket : e.sockets w = some (.server, .opened) := habandons
    have hregistered := (h.registered w).mpr ⟨_, hsocket⟩
    have hstep : e.step K H (.closed w) = e.enter w .server .closed := by
      simp only [Endpoint.step, hsocket, Endpoint.onClosed]
    rw [hstep]
    intro hunlinked
    exact hunlinked.channels w ⟨.server, Function.update_self ..⟩ hregistered
  | onClient | connectWebSocket | opened | received | act => cases habandons

theorem throughout_head {events : List (Event W D Id)} (h : UnlinkedThroughout K H e events) :
    Unlinked K H e := by
  cases events with
  | nil => exact h
  | cons event events => exact h.1

theorem run_unlinked_iff (events : List (Event W D Id)) : ∀ e : Endpoint W D Id Pair Ecdh,
    Tidy e → PossibleRun K H e events →
    (UnlinkedThroughout K H e events ↔ NeverAbandons K H e events) := by
  induction events with
  | nil =>
    intro e h _
    exact ⟨fun _ => trivial, fun _ => unlinked_of_tidy H h⟩
  | cons event events ih =>
    intro e h hp
    obtain ⟨hp, hrest⟩ := hp
    constructor
    · rintro ⟨-, hunlinked⟩
      have hkept : ¬ e.Abandons event := fun habandons =>
        abandoned_linked H h habandons (throughout_head H hunlinked)
      exact ⟨hkept, (ih _ (tidy_step H h hp hkept) hrest).mp hunlinked⟩
    · rintro ⟨hkept, hnever⟩
      exact ⟨unlinked_of_tidy H h, (ih _ (tidy_step H h hp hkept) hrest).mpr hnever⟩

/-- Over any run, closed WebSockets leave no link behind exactly as long as no accepted
WebSocket closes that had opened. -/
theorem closed_webSockets_iff (h : Start e) (events : List (Event W D Id))
    (hp : PossibleRun K H e events) :
    UnlinkedThroughout K H e events ↔ NeverAbandons K H e events :=
  run_unlinked_iff H events e (tidy_start h) hp

end Invariant

-- Node 2 connects to node 1, loses the WebSocket and connects again.
namespace Sample

abbrev crypto := LegioCrypto.Sample.crypto

abbrev host := LegioNode.Sample.host

def node : Node (Fin 4) (Fin 4) (Fin 4) (ℕ ⊕ ℕ) where
  ecdsaPair := 1
  wire := ⟨fun _ => true, fun _ => []⟩
  routing := .initial
  graph := emptyGraph 1 1
  signaling := .initial MessageType.Signaling 0
  userTransport := .initial MessageType.User 0

def before : Endpoint ℕ ℕ (Fin 4) (Fin 4) (Fin 4) :=
  ⟨final (Graph.construct crypto host 1 node), fun _ => none⟩

def hello : Binary :=
  match Message.create crypto .little MessageType.Hello 0 [] (some 2) none with
  | .ok m => (m.toBinary crypto .little).toOption.getD []
  | .error _ => []

def reconnecting (create : ℕ → Event ℕ ℕ (Fin 4)) : List (Event ℕ ℕ (Fin 4)) :=
  [create 0, .opened 0, .received (.inl 0) hello, .closed 0,
    create 1, .opened 1, .received (.inl 1) hello]

def after (events : List (Event ℕ ℕ (Fin 4))) : Endpoint ℕ ℕ (Fin 4) (Fin 4) (Fin 4) :=
  events.foldl (Endpoint.step crypto host) before

theorem start_before : Start before where
  routing := by decide +kernel
  sockets _ := rfl

/-- What `Networking` connects is unregistered, and node 2 is bound to the second one. -/
theorem networking_unlinked :
    UnlinkedThroughout crypto host before (reconnecting .connectWebSocket) ∧
      (after (reconnecting .connectWebSocket)).node.routing.mNeighbors.lookup 2 =
        some (.inl 1) := by
  refine ⟨(closed_webSockets_iff host start_before _ ?_).mpr ?_, by decide +kernel⟩
  · exact ⟨rfl, trivial, trivial, trivial, rfl, trivial, trivial, trivial⟩
  · refine ⟨fun h => h, fun h => h, fun h => h, fun h => ?_, fun h => h, fun h => h, fun h => h,
      trivial⟩
    have hsocket : some (Origin.networking, Phase.opened) = some (.server, .opened) := h
    cases hsocket

/-- What `Server` accepts stays registered, and node 2 bound to the first one. -/
theorem server_linked : (¬ ∀ events : List (Event ℕ ℕ (Fin 4)),
      PossibleRun crypto host before events → UnlinkedThroughout crypto host before events) ∧
    (after (reconnecting .onClient)).node.routing.mNeighbors.lookup 2 = some (.inl 0) := by
  refine ⟨fun h => ?_, by decide +kernel⟩
  obtain ⟨-, -, -, -, hunlinked, -⟩ := h (reconnecting .onClient)
    ⟨rfl, trivial, trivial, trivial, rfl, trivial, trivial, trivial⟩
  refine hunlinked.channels 0 ⟨.server, rfl⟩ ?_
  decide +kernel

end Sample

end ClosedWebSockets
