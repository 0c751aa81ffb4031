import Legio.GraphInvariants
import Legio.GraphRuns
import Legio.NodeDispatch

set_option linter.style.header false

/-! The local links as Routing and the graph know them, over any sequence of operations of
a node. Every operation but one keeps them equal: `removeChannel` drops the neighbours of
the channel without an event. -/
namespace LocalLinks

open LegioBinary LegioCrypto LegioMessage LegioNode Containers RoutingTableSearch
open ExceptionStates LinkStateStore GraphUpdates GraphRuns GraphInvariants

variable {Id Pair Ecdh Chan : Type} [LinearOrder Id] [DecidableEq Chan]

inductive Operation (Id Chan : Type) where
  | addChannel (channel : Chan)
  | removeChannel (channel : Chan)
  | addNeighbor (remoteId : Id) (channel : Chan)
  | removeNeighbor (remoteId : Id) (channel : Chan)
  | received (channel : Chan) (data : Binary)

/-- The state after an operation, also where it ends in an exception. -/
def Operation.apply (K : CryptoPP Id Pair Ecdh) (H : Host Id) (n : Node Id Pair Ecdh Chan) :
    Operation Id Chan → Node Id Pair Ecdh Chan
  | .addChannel channel => final (Node.addChannel channel n)
  | .removeChannel channel => final (Node.removeChannel channel n)
  | .addNeighbor remoteId channel => final (Node.addNeighbor K H remoteId channel n)
  | .removeNeighbor remoteId channel => final (Node.removeNeighbor K H remoteId channel n)
  | .received channel data => Node.onMessage K H n channel data

/-- Edges of the local vertex, neighbours in its State and neighbours in Routing. -/
def Agrees (K : CryptoPP Id Pair Ecdh) (n : Node Id Pair Ecdh Chan) : Prop :=
  n.graph.edgesOf (n.id K) = n.routing.neighbors ∧
    ∃ s, n.graph.stateOf (n.id K) = some s ∧ s.neighbors = n.routing.neighbors

variable {K : CryptoPP Id Pair Ecdh} (H : Host Id)

def links (n : Node Id Pair Ecdh Chan) : Finset Chan × UnorderedMap Id Chan :=
  (n.routing.mChannels, n.routing.mNeighbors)

section Links
variable {l : Finset Chan × UnorderedMap Id Chan}

abbrev KeepsLinks {α : Type} (l : Finset Chan × UnorderedMap Id Chan)
    (m : NodeM Id Pair Ecdh Chan α) : Prop := Keeps (fun n => links n = l) m

omit [LinearOrder Id] [DecidableEq Chan] in
theorem links_modifyGraph (f : LegioNode.Graph Id Ecdh → LegioNode.Graph Id Ecdh) :
    KeepsLinks l (modifyGraph f : NodeM Id Pair Ecdh Chan Unit) := keeps_modify fun _ hn => hn

omit [DecidableEq Chan] in
theorem links_computeRoutingTable : KeepsLinks l (Graph.computeRoutingTable K H) := by
  refine keeps_bind (links_modifyGraph _) fun _ => keeps_get_bind fun n hn => ?_
  cases n.graph.findVertice (n.id K) with
  | none => exact hn
  | some localVertice =>
    dsimp only
    generalize searchLoop H _ _ = result
    cases result with
    | none => exact hn
    | some s => exact hn

omit [DecidableEq Chan] in
theorem links_updateEdges (id : Id) (neighbors : Finset Id) :
    KeepsLinks l (Graph.updateEdges K H id neighbors) := by
  refine keeps_get_bind fun n hn => ?_
  cases n.graph.findVertice id with
  | none => exact hn
  | some vertice =>
    dsimp only
    split_ifs
    · exact hn
    · exact keeps_bind (links_modifyGraph _)
        (fun _ => keeps_bind (links_computeRoutingTable H) fun _ => keeps_pure _) n hn

theorem links_withstands : Withstands K H (fun n : Node Id Pair Ecdh Chan => links n = l)
    (fun _ => True) (fun _ => True) where
  own _ _ := trivial
  signed _ _ _ _ := trivial
  edges := links_updateEdges H
  counted _ hn := hn
  announced _ _ _ hn _ := hn
  stored _ _ _ hn _ _ := hn
  entered _ _ hn _ _ := hn

theorem links_notifyNeighbor : KeepsLinks l (Graph.notifyNeighbor K H) :=
  keeps_notifyNeighbor (links_withstands H)

theorem changeNeighbors_links {n : Node Id Pair Ecdh Chan}
    (change : Routing Id Chan → Routing Id Chan × Bool) :
    links (final (Node.changeNeighbors K H change n)) =
      ((change n.routing).1.mChannels, (change n.routing).1.mNeighbors) := by
  simp only [Node.changeNeighbors, get_bind_run]
  cases (change n.routing).2 with
  | true => exact links_notifyNeighbor H _ rfl
  | false => rfl

theorem links_notifyState (m : Message Id) (channel : Option Chan) :
    KeepsLinks l (Graph.notifyState K H m channel) := by
  rw [Graph.notifyState]
  cases State.fromMessage K m with
  | error e => exact keeps_throw e
  | ok s =>
    refine keeps_bind (keeps_insert (links_withstands H) trivial)
      fun accepted => ?_
    cases accepted with
    | true => exact keeps_modify fun _ hn => hn
    | false => exact keeps_pure _

theorem links_notifyMessage (m : Message Id) :
    KeepsLinks l (Graph.notifyMessage K H m none) := by
  rw [Graph.notifyMessage]
  split_ifs
  · refine keeps_get_bind fun n hn => ?_
    cases m.source <;> exact hn
  · exact links_notifyState H m none
  · exact keeps_pure _

end Links

/-- The two components are in step, given that the store is consistent. -/
def InStep (K : CryptoPP Id Pair Ecdh) (n : Node Id Pair Ecdh Chan) : Prop :=
  n.graph.edgesOf (n.id K) = n.routing.neighbors

omit [DecidableEq Chan] in
theorem agrees_iff {n : Node Id Pair Ecdh Chan} (h : Invariant K n) :
    Agrees K n ↔ InStep K n := by
  constructor
  · intro ha
    exact ha.1
  · intro hs
    refine ⟨hs, ?_⟩
    obtain ⟨c, hc, _⟩ := h.current
    have hfollows := h.follows (n.id K)
    rw [view_edges, view_states, hc] at hfollows
    exact ⟨c, hc, hfollows.symm.trans hs⟩

omit [DecidableEq Chan] in
theorem invariant_core {n n' : Node Id Pair Ecdh Chan} (h : Invariant K n)
    (hc : n'.core = n.core) : Invariant K n' := by
  simp only [Node.core, Prod.mk.injEq] at hc
  apply invariant_environment h hc.2.2 hc.1
  rw [Bounded, hc.2.1]
  exact h.bounded

omit [DecidableEq Chan] in
theorem inStep_core {n n' : Node Id Pair Ecdh Chan} (h : InStep K n)
    (hc : n'.core = n.core) : InStep K n' := by
  simp only [Node.core, Prod.mk.injEq] at hc
  rw [InStep, hc.2.1, hc.2.2, Node.id, hc.1]
  exact h

section Laws
variable (hK : EcdsaLaws K) (hE : EcdhLaws K)
include hK hE

/-- A Neighbor event puts the components in step, whatever they were before. -/
theorem notifyNeighbor_inStep {n : Node Id Pair Ecdh Chan} (h : Invariant K n) :
    ∃ n', Graph.notifyNeighbor K H n = .ok () n' ∧ Invariant K n' ∧ InStep K n' := by
  obtain ⟨n', hrun, hrooted, hlocal, hn⟩ :=
    notifyNeighbor_spec H hK hE h.rooted h.current h.bounded
  refine ⟨n', hrun, invariant_notified H h hrooted hlocal hn, ?_⟩
  cases hn with
  | unchanged heq hview hkept =>
    have hid : n'.id K = n.id K := id_congr hkept
    rw [InStep, hid, neighbors_congr hkept, ← heq, ← view_edges, hview, view_edges]
  | announced _ hview hann =>
    have hneighbors : n'.routing.neighbors = n.routing.neighbors :=
      congrArg (fun s : Surroundings Id Pair Ecdh Chan => keySet s.mNeighbors) hann.kept
    rw [InStep, announced_id H hann, hneighbors, ← view_edges, hview, accept_edges]
    exact Function.update_self ..

omit hK hE in
theorem bounded_emitted {n : Node Id Pair Ecdh Chan} (routing : Routing Id Chan)
    (hb : Bounded (final (Graph.notifyNeighbor K H { n with routing }))) :
    Bounded { n with routing } := by
  have hlinks : links (final (Graph.notifyNeighbor K H { n with routing })) =
      links { n with routing } := links_notifyNeighbor H _ rfl
  have hneighbors : (final (Graph.notifyNeighbor K H { n with routing })).routing.neighbors =
      routing.neighbors :=
    congrArg (fun l : Finset Chan × UnorderedMap Id Chan => keySet l.2) hlinks
  rw [Bounded, hneighbors] at hb
  exact hb

omit hK hE in
theorem emitted_invariant {n : Node Id Pair Ecdh Chan} (h : Invariant K n)
    (routing : Routing Id Chan)
    (hb : Bounded (final (Graph.notifyNeighbor K H { n with routing }))) :
    Invariant K { n with routing } :=
  invariant_environment h rfl rfl (bounded_emitted H routing hb)

theorem emitted_inStep {n : Node Id Pair Ecdh Chan} (h : Invariant K n)
    (routing : Routing Id Chan)
    (hb : Bounded (final (Graph.notifyNeighbor K H { n with routing }))) :
    Invariant K (final (Graph.notifyNeighbor K H { n with routing })) ∧
      InStep K (final (Graph.notifyNeighbor K H { n with routing })) := by
  obtain ⟨n', hrun, hinv, hstep⟩ :=
    notifyNeighbor_inStep H hK hE (emitted_invariant H h routing hb)
  rw [hrun]
  exact ⟨hinv, hstep⟩

theorem changeNeighbors_inStep {n : Node Id Pair Ecdh Chan} (h : Invariant K n)
    {change : Routing Id Chan → Routing Id Chan × Bool}
    (hsilent : ∀ r, (change r).2 = false → (change r).1 = r)
    (hb : Bounded (final (Node.changeNeighbors K H change n))) :
    Invariant K (final (Node.changeNeighbors K H change n)) ∧
      (InStep K n → InStep K (final (Node.changeNeighbors K H change n))) := by
  have hrun : Node.changeNeighbors K H change n =
      (if (change n.routing).2 then Graph.notifyNeighbor K H else pure () :
        NodeM Id Pair Ecdh Chan Unit) { n with routing := (change n.routing).1 } := rfl
  rw [hrun] at hb ⊢
  cases hemitted : (change n.routing).2 with
  | true =>
    rw [hemitted, if_pos rfl] at hb
    rw [if_pos rfl]
    obtain ⟨hinv, hstep⟩ := emitted_inStep H hK hE h _ hb
    exact ⟨hinv, fun _ => hstep⟩
  | false =>
    rw [hsilent n.routing hemitted]
    exact ⟨h, fun hstep => hstep⟩

theorem insert_inStep {n : Node Id Pair Ecdh Chan} (h : Invariant K n) {s : State Id}
    (hs : s.id = n.id K → ∀ c, n.graph.stateOf (n.id K) = some c →
      compareSequence s.sequence c.sequence ≤ 0) :
    ∃ accepted n', Graph.insert K H s n = .ok accepted n' ∧ Invariant K n' ∧
      (InStep K n → InStep K n') := by
  by_cases hid : s.id = n.id K
  · obtain ⟨c, hc, _⟩ := h.current
    have hstale : ¬ Fresh n s := not_fresh_iff.mpr ⟨c, hid ▸ hc, hs hid c hc⟩
    exact ⟨false, n, insert_notFresh H hstale, h, fun hstep => hstep⟩
  · obtain ⟨depth, hdepth⟩ := H.stack_succ_succ
    obtain ⟨accepted, n', hrun, hrooted, hlocal, hu⟩ :=
      updateVertice_spec H hK hE h.rooted h.current h.bounded hid depth
    rw [← hdepth] at hrun
    refine ⟨accepted, n', hrun, invariant_updated H h hrooted hlocal hu, ?_⟩
    intro hstep
    cases hu with
    | stale _ => exact hstep
    | accepted _ _ hview hkept =>
      have hid' : n'.id K = n.id K := id_congr hkept
      rw [InStep, hid', neighbors_congr hkept, ← view_edges, hview, accept_edges,
        Function.update_of_ne (Ne.symm hid)]
      exact hstep
    | answered _ _ hview hann =>
      have hneighbors : n'.routing.neighbors = n.routing.neighbors :=
        congrArg (fun s : Surroundings Id Pair Ecdh Chan => keySet s.mNeighbors) hann.kept
      rw [InStep, announced_id H hann, hneighbors, ← view_edges, hview, accept_edges,
        Function.update_of_ne (Ne.symm hid), accept_edges]
      exact Function.update_self ..

end Laws

/-- No State in the node's own name is newer than the one the node has announced last.
Only the node itself signs such States. -/
def OwnNotNewer (K : CryptoPP Id Pair Ecdh) (H : Host Id) (n : Node Id Pair Ecdh Chan)
    (data : Binary) : Prop :=
  ∀ message s c, Message.parse K H.byteOrder data = .ok message →
    State.fromMessage K message = .ok s → s.id = n.id K →
    n.graph.stateOf (n.id K) = some c → compareSequence s.sequence c.sequence ≤ 0

omit [DecidableEq Chan] in
/-- A node that has not announced too often never meets a newer State of its own. -/
theorem ownNotNewer_of_announced {n : Node Id Pair Ecdh Chan} (h : Invariant K n)
    (hlimit : n.graph.announced.length < broadcastLimit) {data : Binary}
    (hs : ∀ message s, Message.parse K H.byteOrder data = .ok message →
      State.fromMessage K message = .ok s → s.id = n.id K → s ∈ n.graph.announced) :
    OwnNotNewer K H n data := by
  intro message s c hparse hstate hid hc
  exact announced_stale h hlimit (hs message s hparse hstate hid) hc

def Operation.Orderly (K : CryptoPP Id Pair Ecdh) (H : Host Id) (n : Node Id Pair Ecdh Chan) :
    Operation Id Chan → Prop
  | .received _ data => OwnNotNewer K H n data
  | _ => True

def Operation.DropsNeighbor (n : Node Id Pair Ecdh Chan) : Operation Id Chan → Prop
  | .removeChannel channel => ∃ id, n.routing.mNeighbors.lookup id = some channel
  | _ => False

theorem neighbors_removeChannel_iff {r : Routing Id Chan} {channel : Chan} :
    (r.removeChannel channel).neighbors = r.neighbors ↔
      ¬ ∃ id, r.mNeighbors.lookup id = some channel := by
  have hmem : ∀ id, id ∈ (r.removeChannel channel).neighbors ↔
      ∃ c, r.mNeighbors.lookup id = some c ∧ c ≠ channel := by
    intro id
    simp only [Routing.neighbors, Routing.removeChannel, mem_keySet, mem_iff_lookup,
      lookup_eraseIf, decide_eq_false_iff_not]
  have hmem' : ∀ id, id ∈ r.neighbors ↔ ∃ c, r.mNeighbors.lookup id = some c := by
    intro id
    simp only [Routing.neighbors, mem_keySet, mem_iff_lookup]
  constructor
  · rintro heq ⟨id, hid⟩
    have h₁ : id ∈ (r.removeChannel channel).neighbors := by
      rw [heq, hmem']
      exact ⟨channel, hid⟩
    obtain ⟨c, hc, hne⟩ := (hmem id).mp h₁
    rw [hid, Option.some.injEq] at hc
    exact hne hc.symm
  · intro hnone
    ext id
    rw [hmem, hmem']
    constructor
    · rintro ⟨c, hc, _⟩
      exact ⟨c, hc⟩
    · rintro ⟨c, hc⟩
      exact ⟨c, hc, fun heq => hnone ⟨id, heq ▸ hc⟩⟩

theorem addNeighbor_silent {remoteId : Id} {channel : Chan} (r : Routing Id Chan)
    (h : (r.addNeighbor remoteId channel).2 = false) :
    (r.addNeighbor remoteId channel).1 = r := by
  unfold Routing.addNeighbor at h ⊢
  split_ifs at h ⊢
  · rfl
  · rfl

theorem removeNeighbor_silent {remoteId : Id} {channel : Chan} (r : Routing Id Chan)
    (h : (r.removeNeighbor remoteId channel).2 = false) :
    (r.removeNeighbor remoteId channel).1 = r := by
  unfold Routing.removeNeighbor at h ⊢
  split_ifs at h ⊢
  rfl

section Laws
variable (hK : EcdsaLaws K) (hE : EcdhLaws K)
include hK hE

theorem notifyMessage_inStep {n : Node Id Pair Ecdh Chan} (h : Invariant K n)
    (message : Message Id) (channel : Chan)
    (hs : ∀ s c, State.fromMessage K message = .ok s → s.id = n.id K →
      n.graph.stateOf (n.id K) = some c → compareSequence s.sequence c.sequence ≤ 0)
    (hb : Bounded (final (Graph.notifyMessage K H message (some channel) n))) :
    Invariant K (final (Graph.notifyMessage K H message (some channel) n)) ∧
      (InStep K n → InStep K (final (Graph.notifyMessage K H message (some channel) n))) := by
  unfold Graph.notifyMessage at hb ⊢
  split_ifs at hb ⊢
  · -- Hello
    cases hsource : message.source with
    | none =>
      have hrun : Graph.notifyHello K H message (some channel) n = .ok () n := by
        simp only [Graph.notifyHello, hsource]
        rfl
      rw [hrun]
      exact ⟨h, fun hstep => hstep⟩
    | some source =>
      rw [notifyHello_run K H hsource] at hb ⊢
      split_ifs at hb ⊢
      · exact ⟨h, fun hstep => hstep⟩
      · exact changeNeighbors_inStep H hK hE h addNeighbor_silent hb
  · -- State
    unfold Graph.notifyState
    cases hstate : State.fromMessage K message with
    | error e => exact ⟨h, fun hstep => hstep⟩
    | ok s =>
      obtain ⟨accepted, n', hrun, hinv, hstep⟩ := insert_inStep H hK hE h
        fun hid c hc => hs s c hstate hid hc
      dsimp only
      rw [bind_ok hrun]
      cases accepted with
      | true => exact ⟨invariant_core hinv rfl, hstep⟩
      | false => exact ⟨hinv, hstep⟩
  · exact ⟨h, fun hstep => hstep⟩

/-- What an operation does to the invariant and to the agreement. -/
theorem operation_step {n : Node Id Pair Ecdh Chan} (h : Invariant K n)
    {op : Operation Id Chan} (ho : op.Orderly K H n) (hb : Bounded (op.apply K H n)) :
    Invariant K (op.apply K H n) ∧
      (InStep K n → (InStep K (op.apply K H n) ↔ ¬ op.DropsNeighbor n)) := by
  cases op with
  | addChannel channel =>
    refine ⟨invariant_environment h rfl rfl hb, fun hstep => ⟨fun _ hd => hd, fun _ => hstep⟩⟩
  | removeChannel channel =>
    refine ⟨invariant_environment h rfl rfl hb, fun hstep => ?_⟩
    have hiff : (n.routing.removeChannel channel).neighbors = n.routing.neighbors ↔ _ :=
      neighbors_removeChannel_iff
    rw [InStep] at hstep
    rw [Operation.DropsNeighbor, ← hiff, ← hstep]
    exact eq_comm
  | addNeighbor remoteId channel =>
    obtain ⟨hinv, hstep⟩ := changeNeighbors_inStep H hK hE h addNeighbor_silent hb
    exact ⟨hinv, fun hs => ⟨fun _ hd => hd, fun _ => hstep hs⟩⟩
  | removeNeighbor remoteId channel =>
    obtain ⟨hinv, hstep⟩ := changeNeighbors_inStep H hK hE h removeNeighbor_silent hb
    exact ⟨hinv, fun hs => ⟨fun _ hd => hd, fun _ => hstep hs⟩⟩
  | received channel data =>
    suffices hsuff : Invariant K (Node.onMessage K H n channel data) ∧
        (InStep K n → InStep K (Node.onMessage K H n channel data)) from
      ⟨hsuff.1, fun hs => ⟨fun _ hd => hd, fun _ => hsuff.2 hs⟩⟩
    rcases core_onMessage K H n channel data with hcore | ⟨message, hparse, hcore⟩
    · exact ⟨invariant_core h hcore, fun hs => inStep_core hs hcore⟩
    · have hb' : Bounded (final (Graph.notifyMessage K H message (some channel) n)) := by
        have hrouting : (Node.onMessage K H n channel data).routing =
            (final (Graph.notifyMessage K H message (some channel) n)).routing :=
          congrArg (fun c : Pair × Routing Id Chan × LegioNode.Graph Id Ecdh => c.2.1) hcore
        rw [Bounded, ← hrouting]
        exact hb
      obtain ⟨hinv, hstep⟩ := notifyMessage_inStep H hK hE h message channel
        (fun s c => ho message s c hparse) hb'
      exact ⟨invariant_core hinv hcore, fun hs => inStep_core (hstep hs) hcore⟩

end Laws

/-- Along a run: at most 1983 neighbours after every operation, and no State in the node's
own name that is newer than the one it announced last. -/
def Guarded (K : CryptoPP Id Pair Ecdh) (H : Host Id) :
    Node Id Pair Ecdh Chan → List (Operation Id Chan) → Prop
  | _, [] => True
  | n, op :: ops => op.Orderly K H n ∧ Bounded (op.apply K H n) ∧ Guarded K H (op.apply K H n) ops

def NeverDrops (K : CryptoPP Id Pair Ecdh) (H : Host Id) :
    Node Id Pair Ecdh Chan → List (Operation Id Chan) → Prop
  | _, [] => True
  | n, op :: ops => ¬ op.DropsNeighbor n ∧ NeverDrops K H (op.apply K H n) ops

def AgreesThroughout (K : CryptoPP Id Pair Ecdh) (H : Host Id) :
    Node Id Pair Ecdh Chan → List (Operation Id Chan) → Prop
  | n, [] => Agrees K n
  | n, op :: ops => Agrees K n ∧ AgreesThroughout K H (op.apply K H n) ops

/-- A node whose constructor has just run, over an empty routing component. -/
def Started (K : CryptoPP Id Pair Ecdh) (H : Host Id) (n : Node Id Pair Ecdh Chan) : Prop :=
  ∃ n₀ mEcdh, n₀.routing = Routing.initial ∧ Graph.construct K H mEcdh n₀ = .ok () n

section Laws
variable (hK : EcdsaLaws K) (hE : EcdhLaws K)
include hK hE

theorem started_inStep {n : Node Id Pair Ecdh Chan} (h : Started K H n) :
    Invariant K n ∧ InStep K n := by
  obtain ⟨n₀, mEcdh, hrouting, hrun⟩ := h
  have hb : Bounded n₀ := by
    rw [Bounded, hrouting]
    exact Nat.zero_le _
  obtain ⟨n', hrun', hinv⟩ := construct_step H hK hE n₀ hb mEcdh
  obtain ⟨n'', message, hrun'', _, _, hview, hann⟩ := construct_spec H hK hE n₀ mEcdh hb
  rw [hrun] at hrun' hrun''
  cases hrun'
  cases hrun''
  refine ⟨hinv, ?_⟩
  have hneighbors : n.routing.neighbors = n₀.routing.neighbors :=
    congrArg (fun s : Surroundings Id Pair Ecdh Chan => keySet s.mNeighbors) hann.kept
  have hid : n.id K = n₀.id K :=
    congrArg (fun s : Surroundings Id Pair Ecdh Chan => K.publicKey s.ecdsaPair) hann.kept
  rw [InStep, hid, hneighbors, ← view_edges, hview, accept_edges]
  exact Function.update_self ..

theorem run_agrees_iff (ops : List (Operation Id Chan)) : ∀ n : Node Id Pair Ecdh Chan,
    Invariant K n → InStep K n → Guarded K H n ops →
    (AgreesThroughout K H n ops ↔ NeverDrops K H n ops) := by
  induction ops with
  | nil =>
    intro n hinv hstep _
    exact ⟨fun _ => trivial, fun _ => (agrees_iff hinv).mpr hstep⟩
  | cons op ops ih =>
    intro n hinv hstep hg
    obtain ⟨ho, hb, hg⟩ := hg
    obtain ⟨hinv', hiff⟩ := operation_step H hK hE hinv ho hb
    have hiff := hiff hstep
    constructor
    · rintro ⟨_, hrest⟩
      have hagrees : Agrees K (op.apply K H n) := by
        cases ops with
        | nil => exact hrest
        | cons _ _ => exact hrest.1
      have hstep' := (agrees_iff hinv').mp hagrees
      exact ⟨hiff.mp hstep', (ih _ hinv' hstep' hg).mp hrest⟩
    · rintro ⟨hkeep, hrest⟩
      have hstep' := hiff.mpr hkeep
      exact ⟨(agrees_iff hinv).mpr hstep, (ih _ hinv' hstep' hg).mpr hrest⟩

/-- From a constructed node on, over any sequence of operations: graph and routing agree
after every operation exactly when no removed channel had a neighbour bound to it. -/
theorem local_links_agree_iff {n : Node Id Pair Ecdh Chan} (h : Started K H n)
    (ops : List (Operation Id Chan)) (hg : Guarded K H n ops) :
    AgreesThroughout K H n ops ↔ NeverDrops K H n ops := by
  obtain ⟨hinv, hstep⟩ := started_inStep H hK hE h
  exact run_agrees_iff H hK hE ops n hinv hstep hg

end Laws

-- Node 1 gets neighbour 2 over channel 0 and loses the channel.
namespace Sample
open LegioNode.Sample

def operations : List (Operation (Fin 4) ℕ) := [.addChannel 0, .addNeighbor 2 0, .removeChannel 0]

def started : Node (Fin 4) (Fin 4) (Fin 4) ℕ :=
  final (Graph.construct LegioCrypto.Sample.crypto host 1 (node 1))

def afterwards : Node (Fin 4) (Fin 4) (Fin 4) ℕ :=
  operations.foldl (Operation.apply LegioCrypto.Sample.crypto host) started

theorem is_started : Started LegioCrypto.Sample.crypto host started := by
  have hb : Bounded (node 1) := by
    unfold Bounded
    decide
  obtain ⟨n', hrun, _⟩ := construct_step host LegioCrypto.Sample.ecdsaLaws
    LegioCrypto.Sample.ecdhLaws (node 1) hb 1
  refine ⟨node 1, 1, rfl, ?_⟩
  rw [started, hrun]
  rfl

/-- The graph keeps the edge to node 2 that Routing has dropped. -/
theorem removed_channel_disagrees : Started LegioCrypto.Sample.crypto host started ∧
    Guarded LegioCrypto.Sample.crypto host started operations ∧
    ¬ AgreesThroughout LegioCrypto.Sample.crypto host started operations := by
  refine ⟨is_started, ⟨trivial, ?_, trivial, ?_, trivial, ?_, trivial⟩, ?_⟩
  · unfold Bounded
    decide +kernel
  · unfold Bounded
    decide +kernel
  · unfold Bounded
    decide +kernel
  · rintro ⟨_, _, _, hlast, _⟩
    have hedges : afterwards.graph.edgesOf (afterwards.id LegioCrypto.Sample.crypto) = {2} := by
      decide +kernel
    have hneighbors : afterwards.routing.neighbors = ∅ := by decide +kernel
    have hagrees : ({2} : Finset (Fin 4)) = ∅ := hedges.symm.trans (hlast.trans hneighbors)
    exact absurd hagrees (by decide)

def detached : List (Operation (Fin 4) ℕ) :=
  [.addChannel 0, .addNeighbor 2 0, .removeNeighbor 2 0, .removeChannel 0]

/-- Removing the neighbour first, the components agree all the way. -/
theorem detached_run_agrees :
    AgreesThroughout LegioCrypto.Sample.crypto host started detached := by
  refine (local_links_agree_iff host LegioCrypto.Sample.ecdsaLaws LegioCrypto.Sample.ecdhLaws
    is_started detached ⟨trivial, ?_, trivial, ?_, trivial, ?_, trivial, ?_, trivial⟩).mpr
    ⟨?_, ?_, ?_, ?_, trivial⟩
  · unfold Bounded
    decide +kernel
  · unfold Bounded
    decide +kernel
  · unfold Bounded
    decide +kernel
  · unfold Bounded
    decide +kernel
  · exact fun h => h
  · exact fun h => h
  · exact fun h => h
  · unfold Operation.DropsNeighbor
    decide +kernel

end Sample

end LocalLinks
