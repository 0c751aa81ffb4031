import Legio.GraphUpdates
import Legio.ReplayFilter

set_option linter.style.header false

/-! Runs of the graph component: its constructor, then State messages and Neighbor events
in any order, with arbitrary changes of the other components in between. -/
namespace GraphRuns

open LegioBinary LegioCrypto LegioMessage LegioNode Containers RoutingTableSearch
open ExceptionStates LinkStateStore GraphUpdates ReplayFilter

variable {Id Pair Ecdh Chan : Type} [LinearOrder Id] [DecidableEq Chan]

inductive GraphEvent (Id Chan : Type) where
  | environment (routing : Routing Id Chan) (wire : Wire Chan)
      (signaling userTransport : Transport Id)
  | state (message : Message Id) (channel : Option Chan)
  | neighbor

def GraphEvent.handle (K : CryptoPP Id Pair Ecdh) (H : Host Id) :
    GraphEvent Id Chan → NodeM Id Pair Ecdh Chan Unit
  | .environment routing wire signaling userTransport =>
    modify fun n => { n with routing, wire, signaling, userTransport }
  | .state message channel => Graph.notifyState K H message channel
  | .neighbor => Graph.notifyNeighbor K H

/-- The states of a node along the runs that start and go on as described. -/
inductive Reachable (K : CryptoPP Id Pair Ecdh) (H : Host Id)
    (initial : Node Id Pair Ecdh Chan → Prop)
    (allowed : Node Id Pair Ecdh Chan → GraphEvent Id Chan → Prop) :
    Node Id Pair Ecdh Chan → Prop where
  | construct {n n'} (mEcdh : Ecdh) : initial n → Graph.construct K H mEcdh n = .ok () n' →
      Reachable K H initial allowed n'
  | event {n} (ev : GraphEvent Id Chan) : Reachable K H initial allowed n → allowed n ev →
      Reachable K H initial allowed (final (ev.handle K H n))

variable (K : CryptoPP Id Pair Ecdh) (H : Host Id)

def broadcastLimit : ℕ := 2 ^ 31 - 1

def Bounded (n : Node Id Pair Ecdh Chan) : Prop := n.routing.neighbors.card ≤ neighborLimit

/-- Routing reports no more neighbours than fit into a State, the node has not announced
too often, and a State in its own name is one that it announced. -/
def Allowed (n : Node Id Pair Ecdh Chan) (ev : GraphEvent Id Chan) : Prop :=
  n.graph.announced.length < broadcastLimit ∧
  match ev with
  | .environment routing _ _ _ => routing.neighbors.card ≤ neighborLimit
  | .state message _ => ∀ s, State.fromMessage K message = .ok s → s.id = n.id K →
      s ∈ n.graph.announced
  | .neighbor => True

/-- Edges follow states; a vertex without a state has none. -/
def Follows (v : View Id) : Prop :=
  ∀ id, v.edges id = ((v.states id).map State.neighbors).getD ∅

structure Numbered (n : Node Id Pair Ecdh Chan) : Prop where
  next : n.graph.mStateSequence = UInt32.ofNat n.graph.announced.length
  past : ∀ s ∈ n.graph.announced, ∃ i < n.graph.announced.length, s.sequence = UInt32.ofNat i

structure Invariant (n : Node Id Pair Ecdh Chan) : Prop where
  rooted : Rooted K n
  follows : Follows (view n.graph)
  current : LocalCurrent K n
  bounded : Bounded n
  numbered : Numbered n

variable {K}

omit [LinearOrder Id] [DecidableEq Chan] in
theorem follows_accept [DecidableEq Id] {v : View Id} (h : Follows v) (s : State Id) :
    Follows (v.accept s) := by
  intro id
  rw [accept_states, accept_edges]
  by_cases hid : id = s.id
  · subst hid
    simp
  · rw [Function.update_of_ne hid, Function.update_of_ne hid]
    exact h id

theorem compareSequence_pos_iff {i j : ℕ} (hi : i < broadcastLimit) (hj : j < broadcastLimit) :
    0 < compareSequence (UInt32.ofNat i) (UInt32.ofNat j) ↔ j < i := by
  unfold broadcastLimit at hi hj
  have hij : i ≤ j + sequenceWindow := by unfold sequenceWindow; omega
  have hji : j ≤ i + sequenceWindow := by unfold sequenceWindow; omega
  rw [compareSequence_ofNat hij hji]
  split_ifs with heq hlt
  · constructor
    · intro h
      exact absurd h (by decide)
    · omega
  · exact ⟨fun _ => hlt, fun _ => by decide⟩
  · constructor
    · intro h
      exact absurd h (by decide)
    · exact fun h => absurd h hlt

theorem compareSequence_past {i k : ℕ} (hi : i < k) (hk : k < broadcastLimit) :
    compareSequence (UInt32.ofNat i) (UInt32.ofNat k - 1) ≤ 0 := by
  have hprev : UInt32.ofNat k - 1 = UInt32.ofNat (k - 1) := by
    rw [UInt32.ofNat_sub (by omega : 1 ≤ k)]
    rfl
  rw [hprev, ← Int.not_lt, compareSequence_pos_iff (by omega) (by omega)]
  omega

section Steps
variable {n n' : Node Id Pair Ecdh Chan}

omit [LinearOrder Id] [DecidableEq Chan] in
theorem numbered_congr (h : Numbered n) (hs : n'.graph.mStateSequence = n.graph.mStateSequence)
    (ha : n'.graph.announced = n.graph.announced) : Numbered n' := by
  constructor
  · rw [hs, ha]
    exact h.next
  · rw [ha]
    exact h.past

omit [LinearOrder Id] [DecidableEq Chan] in
theorem numbered_kept (h : Numbered n) (hkept : surroundings n' = surroundings n) :
    Numbered n' := by
  simp only [surroundings, Surroundings.mk.injEq] at hkept
  exact numbered_congr h hkept.2.2.2.2.2.2.1 hkept.2.2.2.2.2.2.2.1

omit [LinearOrder Id] [DecidableEq Chan] in
theorem bounded_congr (h : Bounded n) (hkept : surroundings n' = surroundings n) :
    Bounded n' := by
  rw [Bounded, neighbors_congr hkept]
  exact h

omit [LinearOrder Id] [DecidableEq Chan] in
theorem numbered_append (h : Numbered n) {s : State Id}
    (hs : n'.graph.mStateSequence = n.graph.mStateSequence + 1)
    (ha : n'.graph.announced = n.graph.announced ++ [s])
    (hseq : s.sequence = n.graph.mStateSequence) : Numbered n' := by
  constructor
  · rw [hs, ha, h.next, List.length_append, UInt32.ofNat_add]
    rfl
  · intro s' hs'
    rw [ha] at hs' ⊢
    rw [List.length_append, List.length_singleton]
    rcases List.mem_append.mp hs' with hs' | hs'
    · obtain ⟨i, hi, hi'⟩ := h.past s' hs'
      exact ⟨i, by omega, hi'⟩
    · obtain rfl := List.mem_singleton.mp hs'
      exact ⟨n.graph.announced.length, by omega, by rw [hseq, h.next]⟩

theorem numbered_announced (h : Numbered n) {message : Message Id}
    (ha : Announced H K n n' message) : Numbered n' := by
  have hkept := ha.kept
  simp only [surroundings, Surroundings.mk.injEq] at hkept
  exact numbered_append h hkept.2.2.2.2.2.2.1 hkept.2.2.2.2.2.2.2.1 rfl

theorem bounded_announced (h : Bounded n) {message : Message Id}
    (ha : Announced H K n n' message) : Bounded n' := by
  have hn : n'.routing.neighbors = n.routing.neighbors :=
    congrArg (fun s : Surroundings Id Pair Ecdh Chan => keySet s.mNeighbors) ha.kept
  rw [Bounded, hn]
  exact h

theorem invariant_updated (h : Invariant K n) {s : State Id} {accepted : Bool}
    (hrooted : Rooted K n') (hlocal : LocalCurrent K n') (hu : Updated H K n s accepted n') :
    Invariant K n' := by
  cases hu with
  | stale _ => exact h
  | accepted _ _ hview hkept =>
    refine ⟨hrooted, ?_, hlocal, bounded_congr h.bounded hkept, numbered_kept h.numbered hkept⟩
    rw [hview]
    exact follows_accept h.follows s
  | answered _ _ hview hann =>
    refine ⟨hrooted, ?_, hlocal, bounded_announced H h.bounded hann,
      numbered_announced H h.numbered hann⟩
    rw [hview]
    exact follows_accept (follows_accept h.follows _) s

theorem invariant_notified (h : Invariant K n) (hrooted : Rooted K n')
    (hlocal : LocalCurrent K n') (hn : Notified H K n n') : Invariant K n' := by
  cases hn with
  | unchanged _ hview hkept =>
    refine ⟨hrooted, ?_, hlocal, bounded_congr h.bounded hkept, numbered_kept h.numbered hkept⟩
    rw [hview]
    exact h.follows
  | announced _ hview hann =>
    refine ⟨hrooted, ?_, hlocal, bounded_announced H h.bounded hann,
      numbered_announced H h.numbered hann⟩
    rw [hview]
    exact follows_accept h.follows _

omit [DecidableEq Chan] in
theorem invariant_environment (h : Invariant K n) (hg : n'.graph = n.graph)
    (hid : n'.ecdsaPair = n.ecdsaPair) (hb : Bounded n') : Invariant K n' := by
  have hid' : n'.id K = n.id K := congrArg K.publicKey hid
  obtain ⟨c, hc, hkey, hseq⟩ := h.current
  refine ⟨⟨?_, ?_⟩, ?_, ⟨c, ?_, ?_, ?_⟩, hb, ?_⟩
  · rw [hg]
    exact h.rooted.linked
  · rw [hg, hid']
    exact h.rooted.root
  · rw [hg]
    exact h.follows
  · rw [hg, hid', hc]
  · rw [hkey, hg]
  · rw [hseq, hg]
  · exact numbered_congr h.numbered (by rw [hg]) (by rw [hg])

omit [DecidableEq Chan] in
theorem announced_stale (h : Invariant K n) (hlimit : n.graph.announced.length < broadcastLimit)
    {s c : State Id} (hs : s ∈ n.graph.announced) (hc : n.graph.stateOf (n.id K) = some c) :
    compareSequence s.sequence c.sequence ≤ 0 := by
  obtain ⟨i, hi, hseq⟩ := h.numbered.past s hs
  obtain ⟨c', hc', _, hseq'⟩ := h.current
  rw [hc, Option.some.injEq] at hc'
  subst hc'
  rw [hseq, hseq', h.numbered.next]
  exact compareSequence_past hi hlimit

variable (hK : EcdsaLaws K) (hE : EcdhLaws K)
include hK hE

/-- A State that may arrive is handled within two nested calls. -/
theorem updateVertice_allowed (h : Invariant K n)
    (hlimit : n.graph.announced.length < broadcastLimit) {s : State Id}
    (hs : s.id = n.id K → s ∈ n.graph.announced) (depth : ℕ) :
    ∃ accepted n', Graph.updateVertice K H (depth + 2) s n = .ok accepted n' ∧
      Invariant K n' := by
  by_cases hid : s.id = n.id K
  · -- the node's own State, reflected: the stored one is the latest announced
    obtain ⟨c, hc, _⟩ := h.current
    have hstale := announced_stale h hlimit (hs hid) hc
    exact ⟨false, n, updateVertice_stale H (hid ▸ hc) hstale (depth + 1), h⟩
  · obtain ⟨accepted, n', hrun, hrooted, hlocal, hu⟩ :=
      updateVertice_spec H hK hE h.rooted h.current h.bounded hid depth
    exact ⟨accepted, n', hrun, invariant_updated H h hrooted hlocal hu⟩

theorem insert_allowed (h : Invariant K n)
    (hlimit : n.graph.announced.length < broadcastLimit) {s : State Id}
    (hs : s.id = n.id K → s ∈ n.graph.announced) :
    ∃ accepted n', Graph.insert K H s n = .ok accepted n' ∧ Invariant K n' := by
  obtain ⟨depth, hdepth⟩ := H.stack_succ_succ
  obtain ⟨accepted, n', hrun, hinv⟩ := updateVertice_allowed H hK hE h hlimit hs depth
  rw [← hdepth] at hrun
  exact ⟨accepted, n', hrun, hinv⟩

/-- How an allowed event ends: normally, or by refusing a malformed State message. -/
inductive Completed (K : CryptoPP Id Pair Ecdh) (H : Host Id) (n : Node Id Pair Ecdh Chan) :
    GraphEvent Id Chan → Prop where
  | returned {ev n'} : ev.handle K H n = .ok () n' → Completed K H n ev
  | refused {message channel e} : State.fromMessage K message = .error e →
      (GraphEvent.state message channel).handle K H n = .error e n →
      Completed K H n (.state message channel)

theorem event_step (h : Invariant K n) {ev : GraphEvent Id Chan} (ha : Allowed K n ev) :
    Completed K H n ev ∧ Invariant K (final (ev.handle K H n)) := by
  obtain ⟨hlimit, ha⟩ := ha
  cases ev with
  | environment routing wire signaling userTransport =>
    exact ⟨.returned rfl, invariant_environment h rfl rfl ha⟩
  | state message channel =>
    cases hs : State.fromMessage K message with
    | error e =>
      have hrun : (GraphEvent.state message channel).handle K H n = .error e n := by
        simp only [GraphEvent.handle, Graph.notifyState, hs]
        rfl
      rw [hrun]
      exact ⟨.refused hs hrun, h⟩
    | ok s =>
      obtain ⟨accepted, n₁, hrun, hinv⟩ := insert_allowed H hK hE h hlimit (ha s hs)
      have hhandle : (GraphEvent.state message channel).handle K H n =
          (if accepted then modify fun n => { n with
            wire := n.routing.broadcast K H.byteOrder n.wire message channel }
          else pure () : NodeM Id Pair Ecdh Chan Unit) n₁ := by
        simp only [GraphEvent.handle, Graph.notifyState, hs]
        exact bind_ok hrun
      cases accepted with
      | true => exact ⟨.returned hhandle, hhandle ▸ invariant_environment hinv rfl rfl hinv.bounded⟩
      | false => exact ⟨.returned hhandle, hhandle ▸ hinv⟩
  | neighbor =>
    obtain ⟨n', hrun, hrooted, hlocal, hn⟩ :=
      notifyNeighbor_spec H hK hE h.rooted h.current h.bounded
    have hhandle : (GraphEvent.neighbor : GraphEvent Id Chan).handle K H n = .ok () n' := hrun
    rw [hhandle]
    exact ⟨.returned hhandle, invariant_notified H h hrooted hlocal hn⟩

theorem construct_step (n : Node Id Pair Ecdh Chan) (hb : Bounded n) (mEcdh : Ecdh) :
    ∃ n', Graph.construct K H mEcdh n = .ok () n' ∧ Invariant K n' := by
  obtain ⟨n', message, hrun, hrooted, hlocal, hview, hann⟩ := construct_spec H hK hE n mEcdh hb
  set n₀ : Node Id Pair Ecdh Chan := { n with graph := emptyGraph (n.id K) mEcdh } with hn₀
  have hempty : Follows (view n₀.graph) := fun _ => rfl
  have hnumbered : Numbered n₀ := ⟨rfl, by intro s hs; cases hs⟩
  refine ⟨n', hrun, hrooted, ?_, hlocal, bounded_announced H (n := n₀) hb hann,
    numbered_announced H hnumbered hann⟩
  rw [hview]
  exact follows_accept hempty _

/-- The invariant holds in every state of every run. -/
theorem reachable_invariant (h : Reachable K H Bounded (Allowed K) n) : Invariant K n := by
  induction h with
  | construct mEcdh hb hrun =>
    obtain ⟨n', hrun', hinv⟩ := construct_step H hK hE _ hb mEcdh
    rw [hrun] at hrun'
    cases hrun'
    exact hinv
  | event ev _ ha ih => exact (event_step H hK hE ih ha).2

/-- The store in every reachable state: edges follow states, an edge points to the vertex
stored under its key, the local vertex is current. The constructor and every event
complete, with one nested update at most. -/
theorem link_state_store :
    (∀ (n : Node Id Pair Ecdh Chan) mEcdh, Bounded n →
      ∃ n', Graph.construct K H mEcdh n = .ok () n') ∧
    ∀ n : Node Id Pair Ecdh Chan, Reachable K H Bounded (Allowed K) n →
      (∀ id p, n.graph.mVertices.lookup id = some p → keySet (n.graph.heap p).edges =
        ((n.graph.heap p).state.map State.neighbors).getD ∅) ∧
      (∀ id p t q, n.graph.mVertices.lookup id = some p →
        (n.graph.heap p).edges.lookup t = some q → n.graph.mVertices.lookup t = some q) ∧
      (∃ p s, n.graph.mVertices.lookup (n.id K) = some p ∧ (n.graph.heap p).state = some s ∧
        s.ecdhPublic = K.ecdhPublicKey n.graph.mEcdh ∧
        s.sequence = n.graph.mStateSequence - 1) ∧
      (∀ ev, Allowed K n ev → Completed K H n ev) ∧
      (∀ s : State Id, n.graph.announced.length < broadcastLimit →
        (s.id = n.id K → s ∈ n.graph.announced) →
        ∃ accepted n', Graph.updateVertice K H 2 s n = .ok accepted n') ∧
      (∃ n', Graph.broadcastStateWith K H (Graph.updateVertice K H 1) n = .ok () n') := by
  constructor
  · intro n mEcdh hb
    obtain ⟨n', hrun, _⟩ := construct_step H hK hE n hb mEcdh
    exact ⟨n', hrun⟩
  intro n hn
  have h := reachable_invariant H hK hE hn
  refine ⟨?_, ?_, ?_, ?_, ?_, ?_⟩
  · intro id p hp
    rw [← edgesOf_of_lookup hp, ← stateOf_of_lookup hp]
    exact h.follows id
  · intro id p t q hp hq
    exact h.rooted.linked.edge hp hq
  · obtain ⟨p, hp⟩ := mem_iff_lookup.mp h.rooted.root
    obtain ⟨s, hs, hkey, hseq⟩ := h.current
    rw [stateOf_of_lookup hp] at hs
    exact ⟨p, s, hp, hs, hkey, hseq⟩
  · intro ev ha
    exact (event_step H hK hE h ha).1
  · intro s hlimit hs
    obtain ⟨accepted, n', hrun, _⟩ := updateVertice_allowed H hK hE h hlimit hs 0
    exact ⟨accepted, n', hrun⟩
  · obtain ⟨n', _, hrun, _⟩ :=
      broadcastState_spec H hK hE h.rooted (localCurrent_older h.current) h.bounded 0
    exact ⟨n', hrun⟩

end Steps

/-- Node 1, just constructed, takes a State of node 2 within two nested calls. -/
theorem link_state_store_sample : ∃ n' accepted n'',
    Graph.construct LegioCrypto.Sample.crypto Sample.host 1 (Sample.node 1) = .ok () n' ∧
    (∃ p, n'.graph.mVertices.lookup 1 = some p ∧ keySet (n'.graph.heap p).edges =
      ((n'.graph.heap p).state.map State.neighbors).getD ∅) ∧
    Graph.updateVertice LegioCrypto.Sample.crypto Sample.host 2
      ⟨2, 5, LegioCrypto.Sample.crypto.ecdhPublicKey 2, {1, 3}⟩ n' = .ok accepted n'' := by
  have h := @link_state_store _ _ _ ℕ _ _ _ Sample.host LegioCrypto.Sample.ecdsaLaws
    LegioCrypto.Sample.ecdhLaws
  have hb : Bounded (Sample.node 1) := by
    unfold Bounded
    decide
  obtain ⟨n', hrun⟩ := h.1 (Sample.node 1) 1 hb
  have hid : (final (Graph.construct LegioCrypto.Sample.crypto Sample.host 1
      (Sample.node 1))).id LegioCrypto.Sample.crypto = 1 := by decide +kernel
  have hlength : (final (Graph.construct LegioCrypto.Sample.crypto Sample.host 1
      (Sample.node 1))).graph.announced.length = 1 := by decide +kernel
  rw [hrun, final_ok] at hid hlength
  obtain ⟨hedges, _, ⟨p, _, hp, _⟩, _, hstate, _⟩ := h.2 n' (.construct 1 hb hrun)
  obtain ⟨accepted, n'', hrun'⟩ := hstate
    ⟨2, 5, LegioCrypto.Sample.crypto.ecdhPublicKey 2, {1, 3}⟩
    (by rw [hlength]; decide) (by rw [hid]; intro heq; cases heq)
  exact ⟨n', accepted, n'', hrun, ⟨p, hid ▸ hp, hedges _ p hp⟩, hrun'⟩

end GraphRuns
