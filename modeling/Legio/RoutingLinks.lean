import Legio.LocalLinks
import Legio.NodeRuns

set_option linter.style.header false

/-! The links that Routing keeps, whatever is called on it and in whatever order: every
neighbour is bound to a registered channel, and a call touches no entry but its own. -/
namespace RoutingLinks

open LegioBinary LegioCrypto LegioMessage LegioNode Containers ExceptionStates LocalLinks
open NodeRuns (NodeEvent keeps_send keeps_broadcast)

variable {Id Pair Ecdh Chan : Type} [LinearOrder Id] [DecidableEq Chan]

inductive Call (Id Chan : Type) where
  | addChannel (channel : Chan)
  | removeChannel (channel : Chan)
  | addNeighbor (remoteId : Id) (channel : Chan)
  | removeNeighbor (remoteId : Id) (channel : Chan)
  | setTable (table : Option (RoutingTable Id))
  | broadcast (message : Message Id) (from_ : Option Chan)

/-- The state after a call, what its event sets off included, exceptions or not. -/
def Call.apply (K : CryptoPP Id Pair Ecdh) (H : Host Id) (n : Node Id Pair Ecdh Chan) :
    Call Id Chan → Node Id Pair Ecdh Chan
  | .addChannel channel => final (Node.addChannel channel n)
  | .removeChannel channel => final (Node.removeChannel channel n)
  | .addNeighbor remoteId channel => final (Node.addNeighbor K H remoteId channel n)
  | .removeNeighbor remoteId channel => final (Node.removeNeighbor K H remoteId channel n)
  | .setTable table => { n with routing := n.routing.setTable table }
  | .broadcast message from_ =>
    { n with wire := n.routing.broadcast K H.byteOrder n.wire message from_ }

def run (K : CryptoPP Id Pair Ecdh) (H : Host Id) (n : Node Id Pair Ecdh Chan)
    (calls : List (Call Id Chan)) : Node Id Pair Ecdh Chan :=
  calls.foldl (Call.apply K H) n

/-- Every neighbour is bound to a registered channel. -/
def Bound (r : Routing Id Chan) : Prop :=
  ∀ id c, r.mNeighbors.lookup id = some c → c ∈ r.mChannels

/-- Nothing but the entries of which the call speaks is changed, and these only as it says. -/
def Call.Frame (r r' : Routing Id Chan) : Call Id Chan → Prop
  | .addChannel channel =>
    r'.mChannels = insert channel r.mChannels ∧
      ∀ id, r'.mNeighbors.lookup id = r.mNeighbors.lookup id
  | .removeChannel channel =>
    r'.mChannels = r.mChannels.erase channel ∧
      ∀ id, r'.mNeighbors.lookup id =
        if r.mNeighbors.lookup id = some channel then none else r.mNeighbors.lookup id
  | .addNeighbor remoteId channel =>
    r'.mChannels = r.mChannels ∧
      ∀ id, r'.mNeighbors.lookup id =
        if id = remoteId ∧ r.mNeighbors.lookup remoteId = none ∧ channel ∈ r.mChannels then
          some channel
        else r.mNeighbors.lookup id
  | .removeNeighbor remoteId channel =>
    r'.mChannels = r.mChannels ∧
      ∀ id, r'.mNeighbors.lookup id =
        if id = remoteId ∧ r.mNeighbors.lookup remoteId = some channel then none
        else r.mNeighbors.lookup id
  | .setTable _ | .broadcast _ _ =>
    r'.mChannels = r.mChannels ∧ ∀ id, r'.mNeighbors.lookup id = r.mNeighbors.lookup id

section Calls
variable {K : CryptoPP Id Pair Ecdh} (H : Host Id)

theorem removeChannel_frame (r : Routing Id Chan) (channel : Chan) :
    Call.Frame r (r.removeChannel channel) (.removeChannel channel) := by
  refine ⟨rfl, fun id => Option.ext fun c => ?_⟩
  have herased : (r.removeChannel channel).mNeighbors.lookup id = some c ↔
      r.mNeighbors.lookup id = some c ∧ c ≠ channel := by
    rw [Routing.removeChannel, lookup_eraseIf, decide_eq_false_iff_not]
  rw [herased]
  split_ifs with hbound
  · rw [hbound]
    constructor
    · rintro ⟨heq, hne⟩
      exact absurd (Option.some.inj heq).symm hne
    · intro h
      cases h
  · constructor
    · exact fun h => h.1
    · rintro h
      exact ⟨h, fun heq => hbound (heq ▸ h)⟩

theorem addNeighbor_frame (r : Routing Id Chan) (remoteId : Id) (channel : Chan) :
    Call.Frame r (r.addNeighbor remoteId channel).1 (.addNeighbor remoteId channel) := by
  have hmem : remoteId ∈ r.mNeighbors ↔ r.mNeighbors.lookup remoteId ≠ none := by
    rw [mem_iff_lookup, Option.ne_none_iff_exists']
  rw [Routing.addNeighbor]
  split_ifs with hchannel hnew
  · refine ⟨rfl, fun id => ?_⟩
    rw [if_neg]
    rintro ⟨-, hnone, -⟩
    exact hmem.mp hnew hnone
  · refine ⟨rfl, fun id => ?_⟩
    have hnone : r.mNeighbors.lookup remoteId = none := not_not.mp fun h => hnew (hmem.mpr h)
    simp only [lookup_emplace, hnew, hnone, hchannel, not_false_eq_true, and_true]
  · refine ⟨rfl, fun id => ?_⟩
    rw [if_neg]
    rintro ⟨-, -, hregistered⟩
    exact hchannel hregistered

theorem removeNeighbor_frame (r : Routing Id Chan) (remoteId : Id) (channel : Chan) :
    Call.Frame r (r.removeNeighbor remoteId channel).1 (.removeNeighbor remoteId channel) := by
  rw [Routing.removeNeighbor]
  split_ifs with hbound
  · refine ⟨rfl, fun id => ?_⟩
    by_cases hid : id = remoteId
    · rw [if_pos ⟨hid, hbound⟩, hid]
      exact AList.lookup_erase ..
    · rw [if_neg fun h => hid h.1]
      exact AList.lookup_erase_ne hid
  · exact ⟨rfl, fun id => (if_neg fun h => hbound h.2).symm⟩

theorem frame_links {r : Routing Id Chan} {n : Node Id Pair Ecdh Chan} {call : Call Id Chan}
    {r' : Routing Id Chan} (h : call.Frame r r') (hn : links n = (r'.mChannels, r'.mNeighbors)) :
    call.Frame r n.routing := by
  have hchannels : n.routing.mChannels = r'.mChannels := congrArg Prod.fst hn
  have hneighbors : n.routing.mNeighbors = r'.mNeighbors := congrArg Prod.snd hn
  cases call with
  | addChannel | removeChannel | addNeighbor | removeNeighbor | setTable | broadcast =>
    simp only [Call.Frame, hchannels, hneighbors] at h ⊢
    exact h

theorem apply_frame (n : Node Id Pair Ecdh Chan) (call : Call Id Chan) :
    call.Frame n.routing (call.apply K H n).routing := by
  cases call with
  | addChannel channel => exact ⟨rfl, fun _ => rfl⟩
  | removeChannel channel => exact removeChannel_frame n.routing channel
  | addNeighbor remoteId channel =>
    exact frame_links (addNeighbor_frame n.routing remoteId channel)
      (changeNeighbors_links H fun r => r.addNeighbor remoteId channel)
  | removeNeighbor remoteId channel =>
    exact frame_links (removeNeighbor_frame n.routing remoteId channel)
      (changeNeighbors_links H fun r => r.removeNeighbor remoteId channel)
  | setTable table => exact ⟨rfl, fun _ => rfl⟩
  | broadcast message from_ => exact ⟨rfl, fun _ => rfl⟩

omit [DecidableEq Chan] in
theorem bound_frame [DecidableEq Chan] {r r' : Routing Id Chan} (h : Bound r)
    {call : Call Id Chan} (hframe : call.Frame r r') : Bound r' := by
  intro id c hc
  cases call with
  | addChannel channel =>
    rw [hframe.2] at hc
    rw [hframe.1]
    exact Finset.mem_insert_of_mem (h id c hc)
  | removeChannel channel =>
    rw [hframe.2] at hc
    rw [hframe.1]
    split_ifs at hc with hbound
    exact Finset.mem_erase.mpr ⟨fun heq => hbound (heq ▸ hc), h id c hc⟩
  | addNeighbor remoteId channel =>
    rw [hframe.2] at hc
    rw [hframe.1]
    split_ifs at hc with hnew
    · obtain rfl := Option.some.inj hc
      exact hnew.2.2
    · exact h id c hc
  | removeNeighbor remoteId channel =>
    rw [hframe.2] at hc
    rw [hframe.1]
    split_ifs at hc
    exact h id c hc
  | setTable | broadcast =>
    rw [hframe.2] at hc
    rw [hframe.1]
    exact h id c hc

theorem bound_run {n : Node Id Pair Ecdh Chan} (h : Bound n.routing) (calls : List (Call Id Chan)) :
    Bound (run K H n calls).routing := by
  induction calls generalizing n with
  | nil => exact h
  | cons call calls ih => exact ih (bound_frame h (apply_frame H n call))

theorem mem_run {n : Node Id Pair Ecdh Chan} {c : Chan} (calls : List (Call Id Chan))
    (hadd : .addChannel c ∉ calls) (hremove : .removeChannel c ∉ calls) :
    c ∈ (run K H n calls).routing.mChannels ↔ c ∈ n.routing.mChannels := by
  induction calls generalizing n with
  | nil => exact Iff.rfl
  | cons call calls ih =>
    rw [List.mem_cons, not_or] at hadd hremove
    have hframe := apply_frame (K := K) H n call
    refine (ih hadd.2 hremove.2).trans ?_
    cases call with
    | addChannel channel =>
      have hne : c ≠ channel := fun heq => hadd.1 (heq ▸ rfl)
      rw [hframe.1, Finset.mem_insert, or_iff_right hne]
    | removeChannel channel =>
      have hne : c ≠ channel := fun heq => hremove.1 (heq ▸ rfl)
      rw [hframe.1, Finset.mem_erase, and_iff_right hne]
    | addNeighbor | removeNeighbor | setTable | broadcast => rw [hframe.1]

theorem run_neighbors {n : Node Id Pair Ecdh Chan} {id : Id} {c : Chan}
    (calls : List (Call Id Chan))
    (h : (run K H n calls).routing.mNeighbors.lookup id = some c) :
    n.routing.mNeighbors.lookup id = some c ∨ .addNeighbor id c ∈ calls := by
  induction calls generalizing n with
  | nil => exact Or.inl h
  | cons call calls ih =>
    rcases ih h with hstep | hmem
    · have hframe := apply_frame (K := K) H n call
      cases call with
      | addNeighbor remoteId channel =>
        rw [hframe.2] at hstep
        split_ifs at hstep with hnew
        · obtain rfl := Option.some.inj hstep
          rw [hnew.1]
          exact Or.inr (List.mem_cons_self ..)
        · exact Or.inl hstep
      | removeChannel | removeNeighbor =>
        rw [hframe.2] at hstep
        split_ifs at hstep
        exact Or.inl hstep
      | addChannel | setTable | broadcast =>
        rw [hframe.2] at hstep
        exact Or.inl hstep
    · exact Or.inr (List.mem_cons_of_mem _ hmem)

def calls : NodeEvent Id Chan → List (Call Id Chan)
  | .addChannel channel => [.addChannel channel]
  | .removeChannel channel => [.removeChannel channel]
  | .addNeighbor remoteId channel => [.addNeighbor remoteId channel]
  | .removeNeighbor remoteId channel => [.removeNeighbor remoteId channel]
  | _ => []

omit [LinearOrder Id] [DecidableEq Chan] in
theorem links_free (l : Finset Chan × UnorderedMap Id Chan) :
    TransportFree fun n : Node Id Pair Ecdh Chan => links n = l := by
  intro n port t _ hn
  cases port <;> exact hn

omit [LinearOrder Id] in
theorem links_update (l : Finset Chan × UnorderedMap Id Chan) :
    KeepsLinks l (Graph.update K H) := by
  refine keeps_get_bind fun n hn => ?_
  refine keeps_bind (links_modifyGraph _) (fun _ => ?_) n hn
  cases Message.create K H.byteOrder MessageType.Hello n.graph.mHelloSequence []
      (some n.ecdsaPair) none with
  | error e => exact keeps_throw e
  | ok message => exact keeps_modify fun _ hn => hn

theorem links_act (n : Node Id Pair Ecdh Chan) {event : NodeEvent Id Chan}
    (hevent : event.data = []) : links (event.apply K H n) = links (run K H n (calls event)) := by
  cases event with
  | addChannel | removeChannel | addNeighbor | removeNeighbor | status => rfl
  | update => exact links_update H (links n) n rfl
  | send port remoteId payload random =>
    exact keeps_send (links_free (links n)) (fun _ _ hn => hn) (links_notifyMessage H) port
      remoteId payload random n rfl
  | broadcast port payload =>
    exact keeps_broadcast (links_free (links n)) (fun _ _ hn => hn) port payload n rfl
  | received channel data => cases hevent

theorem links_notifyHello {m : Message Id} {source : Id} (hsource : m.source = some source)
    (channel : Chan) (n : Node Id Pair Ecdh Chan) :
    links (final (Graph.notifyHello K H m (some channel) n)) =
      links (run K H n [.addNeighbor source channel]) := by
  rw [notifyHello_run K H hsource]
  split_ifs with hhas
  · have hmem : ¬ source ∉ n.routing.mNeighbors := not_not.mpr (of_decide_eq_true hhas)
    have hlinks := changeNeighbors_links (K := K) H (n := n) fun r => r.addNeighbor source channel
    have hsame : n.routing.addNeighbor source channel = (n.routing, false) := by
      rw [Routing.addNeighbor, if_neg hmem]
      exact ite_self _
    rw [hsame] at hlinks
    exact hlinks.symm
  · rfl

/-- A message from the network changes the links only if it is a Hello, and then as
`addNeighbor` does. -/
theorem links_onMessage (n : Node Id Pair Ecdh Chan) (channel : Chan) (data : Binary) :
    links (Node.onMessage K H n channel data) = links n ∨
      ∃ m source, Message.parse K H.byteOrder data = .ok m ∧ m.type = MessageType.Hello ∧
        m.source = some source ∧ links (Node.onMessage K H n channel data) =
          links (run K H n [.addNeighbor source channel]) := by
  have hcore : ∀ {n₁ n₂ : Node Id Pair Ecdh Chan}, n₁.core = n₂.core → links n₁ = links n₂ :=
    fun h => congrArg (fun c : Pair × Routing Id Chan × LegioNode.Graph Id Ecdh =>
      (c.2.1.mChannels, c.2.1.mNeighbors)) h
  rcases core_onMessage K H n channel data with hsame | ⟨m, hparse, hgraph⟩
  · exact Or.inl (hcore hsame)
  rw [hcore hgraph, Graph.notifyMessage]
  split_ifs with hhello
  · cases hsource : m.source with
    | none =>
      left
      simp only [Graph.notifyHello, get_bind_run, hsource]
      rfl
    | some source =>
      exact Or.inr ⟨m, source, hparse, hhello, hsource, links_notifyHello H hsource channel n⟩
  · exact Or.inl (links_notifyState H m (some channel) n rfl)
  · exact Or.inl rfl

theorem links_hello {n : Node Id Pair Ecdh Chan} {data : Binary} {m : Message Id} {source : Id}
    (hparse : Message.parse K H.byteOrder data = .ok m) (hhello : m.type = MessageType.Hello)
    (hsource : m.source = some source)
    (hdestination : m.destination = none ∨ m.destination = some (n.id K)) (channel : Chan) :
    links (Node.onMessage K H n channel data) =
      links (run K H n [.addNeighbor source channel]) := by
  have hroute : n.routing.route (n.id K) m (some channel) = .ok (.emit m (some channel)) := by
    rw [Routing.route, if_neg (by rw [hsource]; exact Option.some_ne_none _)]
    rcases hdestination with hd | hd
    · rw [hd]
    · rw [hd]
      exact if_pos rfl
  have hmessage : Node.onMessage K H n channel data =
      final (Node.notifyMessage K H m (some channel) n) := by
    simp only [Node.onMessage, hparse, Node.route, get_bind_run, hroute]
  have hcore := core_notifyMessage K H m (some channel) n
  rw [← hmessage] at hcore
  have hlinks := congrArg (fun c : Pair × Routing Id Chan × LegioNode.Graph Id Ecdh =>
    (c.2.1.mChannels, c.2.1.mNeighbors)) hcore
  refine hlinks.trans ?_
  rw [Graph.notifyMessage, if_pos hhello]
  exact links_notifyHello H hsource channel n

/-- From the initial state on, every neighbour is bound to a registered channel, and the next
call changes the links exactly as its frame says. -/
theorem routing_links {n : Node Id Pair Ecdh Chan} (h : n.routing = .initial)
    (calls : List (Call Id Chan)) :
    Bound (run K H n calls).routing ∧
      ∀ call : Call Id Chan,
        call.Frame (run K H n calls).routing (call.apply K H (run K H n calls)).routing := by
  refine ⟨bound_run H ?_ calls, apply_frame H _⟩
  rw [h]
  intro id c hc
  cases hc

end Calls

/-- Two neighbours share a channel that is then removed. -/
theorem routing_links_sample :
    Bound (run LegioCrypto.Sample.crypto LegioNode.Sample.host (LegioNode.Sample.node 1)
      [.addChannel 0, .addNeighbor 2 0, .addNeighbor 3 0, .removeChannel (0 : ℕ)]).routing :=
  (routing_links LegioNode.Sample.host rfl _).1

end RoutingLinks
