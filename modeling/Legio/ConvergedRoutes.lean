import Legio.HexText
import Legio.LearnedTopology
import Legio.PublishedTable

set_option linter.style.header false

/-! Where messages are routed to once all nodes know their neighbours. The table that a node
publishes names the nodes at the far sides of its open channels and no others, and `findRoute`
gives such a channel for each of them. -/
namespace LegioNode

open Containers

variable {Id Pair Ecdh Chan : Type}

def RoutingTable.count (t : RoutingTable Id) : ℤ := Int.bmod t.mNextHops.keys.length (2 ^ 32)

/-- `Node::isConnected`; it is undefined where no table is set. -/
def Node.isConnected (n : Node Id Pair Ecdh Chan) : Option Bool :=
  n.routing.mTable.map fun table => decide (table.count > 0)

end LegioNode

namespace ConvergedRoutes

open LegioBinary LegioCrypto LegioMessage LegioNode Containers RoutingTableSearch
open ExceptionStates GraphRuns GraphInvariants NodeInvariants NodeNetwork ChannelTopology
open LinkStateNetwork LinkStateRuns QuiescentAgreement PublishedTable
open NodeRuns (NodeEvent)

variable {V Id Pair Ecdh Chan : Type} [DecidableEq V] [LinearOrder Id] [DecidableEq Chan]
  {K : CryptoPP Id Pair Ecdh}

section Networks
variable {net : Network V Id Chan} {I : Node Id Pair Ecdh Chan → Prop}
  (h : ∀ v, Lasting K (net.host v) I)
include h

omit [DecidableEq Chan] [LinearOrder Id] h in
theorem all_update {σ : Nodes V Id Pair Ecdh Chan} (hσ : ∀ v, I (σ v)) {x : V}
    {n' : Node Id Pair Ecdh Chan} (hn : I n') (v : V) : I (Function.update σ x n' v) := by
  by_cases hv : v = x
  · subst hv
    rw [Function.update_self]
    exact hn
  · rw [Function.update_of_ne hv]
    exact hσ v

theorem lasting_act (w : World V Id Pair Ecdh Chan) (hw : ∀ v, I (w.nodes v))
    (ev : LinkStateNetwork.Event V Id Chan) (v : V) : I (ev.act K net w v) := by
  have hown (x : V) (event : NodeEvent Id Chan) :
      I (Function.update w.nodes x (event.apply K (net.host x) (w.nodes x)) v) :=
    all_update hw (lasting_event (h x) (hw x) event) v
  have hwire (x : V) {n : Node Id Pair Ecdh Chan} (hn : I n) (wire : Wire Chan) :
      I { n with wire } := (h x).core hn rfl
  have hpop {σ : Nodes V Id Pair Ecdh Chan} (hσ : ∀ v, I (σ v)) (c : Chan) :
      I (popAt net σ c v) := all_update hσ (hwire (net.owner c) (hσ _) _) v
  cases ev with
  | connect c =>
    rw [LinkStateNetwork.Event.act]
    split_ifs
    · exact hw v
    · have hopened := hwire (net.owner c) (hw (net.owner c))
        (setOpen (w.nodes (net.owner c)).wire c true)
      exact all_update hw (lasting_event (h (net.owner c)) hopened (.addChannel c)) v
  | disconnect c => exact all_update hw (hwire (net.owner c) (hw _) _) v
  | removeChannel c => exact hown (net.owner c) (.removeChannel c)
  | lose c =>
    rw [LinkStateNetwork.Event.act]
    split_ifs
    · exact hw v
    · exact hpop hw c
  | update x => exact hown x .update
  | broadcast x port payload => exact hown x (.broadcast port payload)
  | send x port remoteId payload random => exact hown x (.send port remoteId payload random)
  | deliver c =>
    rw [LinkStateNetwork.Event.act, NodeNetwork.deliver]
    cases inFlight net w.nodes c with
    | nil => exact hw v
    | cons data rest =>
      refine hpop (fun u => all_update hw ?_ u) c
      rw [arrive]
      split_ifs
      · exact lasting_event (h (net.remote c)) (hw _) (.received (net.peer c) data)
      · exact hw _

theorem lasting_world (events : List (LinkStateNetwork.Event V Id Chan)) :
    ∀ w : World V Id Pair Ecdh Chan, (∀ v, I (w.nodes v)) →
      ∀ v, I ((LinkStateNetwork.run K net w events).nodes v) := by
  induction events with
  | nil => exact fun w hw => hw
  | cons ev events ih => exact fun w hw => ih _ (lasting_act h w hw ev)

end Networks

section Tables
variable {n : Node Id Pair Ecdh Chan}

omit [DecidableEq V] [DecidableEq Chan] in
theorem count_pos_iff {table : RoutingTable Id} {g : LegioNode.Graph Id Ecdh} {localId : Id}
    (h : Direct g localId table) (hfits : (g.edgesOf localId).card < 2 ^ 31) :
    table.count > 0 ↔ ∃ b, b ≠ localId ∧ b ∈ g.edgesOf localId := by
  have hmem : ∀ b, b ∈ table.mNextHops ↔ b ≠ localId ∧ b ∈ g.edgesOf localId := by
    intro b
    rw [mem_iff_lookup]
    constructor
    · rintro ⟨hop, hhop⟩
      exact ((h b hop).mp hhop).2
    · intro hb
      exact ⟨b, (h b b).mpr ⟨rfl, hb⟩⟩
  have hlength : table.mNextHops.keys.length < 2 ^ 31 := by
    have hcard : table.mNextHops.keys.length = (keySet table.mNextHops).card := rfl
    rw [hcard]
    exact (Finset.card_le_card fun b hb => ((hmem b).mp hb).2).trans_lt hfits
  have hcount : table.count = table.mNextHops.keys.length := Hex.toInt_small hlength
  rw [hcount]
  constructor
  · intro hpos
    obtain ⟨b, hb⟩ := List.exists_mem_of_length_pos (Int.natCast_pos.mp hpos)
    exact ⟨b, (hmem b).mp hb⟩
  · rintro ⟨b, hb⟩
    exact Int.natCast_pos.mpr (List.length_pos_of_mem ((hmem b).mpr hb))

omit [DecidableEq V] [DecidableEq Chan] in
theorem findRoute_iff (hn : Published K n) (hstep : LocalLinks.InStep K n) {d : Id}
    (hd : d ≠ n.id K) {c : Chan} :
    n.routing.findRoute d = some c ↔ n.routing.mNeighbors.lookup d = some c := by
  rw [Routing.findRoute, hn.shared]
  dsimp only
  constructor
  · intro hroute
    split at hroute
    · cases hroute
    · exact hroute
  · intro hlookup
    have hmem : d ∈ n.graph.edgesOf (n.id K) := by
      rw [hstep, Routing.neighbors, mem_keySet, mem_iff_lookup]
      exact ⟨c, hlookup⟩
    rw [(hn.direct d d).mpr ⟨rfl, hd, hmem⟩]
    exact hlookup

omit [DecidableEq V] [DecidableEq Chan] in
theorem isConnected_iff (hn : Published K n) (hstep : LocalLinks.InStep K n) (hb : Bounded n) :
    ∃ connected, n.isConnected = some connected ∧
      (connected = true ↔ ∃ b c, b ≠ n.id K ∧ n.routing.mNeighbors.lookup b = some c) := by
  have hfits : (n.graph.edgesOf (n.id K)).card < 2 ^ 31 := by
    rw [hstep]
    exact lt_of_le_of_lt hb (by decide)
  refine ⟨_, by rw [Node.isConnected, hn.shared, Option.map_some], ?_⟩
  rw [decide_eq_true_iff, count_pos_iff hn.direct hfits, hstep]
  constructor
  · rintro ⟨b, hne, hb⟩
    rw [Routing.neighbors, mem_keySet, mem_iff_lookup] at hb
    obtain ⟨c, hc⟩ := hb
    exact ⟨b, c, hne, hc⟩
  · rintro ⟨b, c, hne, hc⟩
    refine ⟨b, hne, ?_⟩
    rw [Routing.neighbors, mem_keySet, mem_iff_lookup]
    exact ⟨c, hc⟩

end Tables

section Runs
variable {net : Network V Id Chan} {σ : Nodes V Id Pair Ecdh Chan}

def Leads (net : Network V Id Chan) (w : World V Id Pair Ecdh Chan) (u v : V) (c : Chan) : Prop :=
  live net w.nodes c = true ∧ net.owner c = u ∧ net.remote c = v

/-- Once both ends of all open channels have handled each other's Hello: a node can route to
another one if and only if an open channel joins the two, on such a channel, and it says that it
is connected if and only if it has an open channel to another node at all. -/
theorem settled_routes (hK : EcdsaLaws K) (hE : EcdhLaws K) (h : Started K net σ)
    (events : List (LinkStateNetwork.Event V Id Chan))
    (hg : Guarded K net (World.initial σ) events) (hopens : ∀ ev ∈ events, ev.closes = false) :
    let w := LinkStateNetwork.run K net (World.initial σ) events
    (∀ c, live net w.nodes c = true → w.greeted c = true) → ∀ u,
      (∀ v, v ≠ u →
        ((∃ c, (w.nodes u).routing.findRoute ((σ v).id K) = some c) ↔ ∃ c, Leads net w u v c) ∧
        ∀ c, (w.nodes u).routing.findRoute ((σ v).id K) = some c → Leads net w u v c) ∧
      ∃ connected, (w.nodes u).isConnected = some connected ∧
        (connected = true ↔ ∃ v c, v ≠ u ∧ Leads net w u v c) := by
  intro w hgreeted u
  obtain ⟨items, a, htracks, hfamiliar⟩ := run_tracks hK hE h.identities events _ _ _
    (started_tracks hK hE h) hg
  have hf := hfamiliar hopens (started_familiar hK hE h)
  have hpublished : ∀ v, Published K (w.nodes v) := by
    refine lasting_world (fun v => published_lasting (net.host v)) events _ fun v => ?_
    obtain ⟨n₀, mEcdh, hrouting, hrun⟩ := h.constructed v
    exact constructed_published (net.host v) hrouting hrun
  have hid := htracks.simulates.consistent.identity
  -- bound identifiers and open channels are the same thing here
  have hbound : ∀ b c, (w.nodes u).routing.mNeighbors.lookup b = some c →
      Leads net w u (net.remote c) c ∧ (σ (net.remote c)).id K = b := by
    intro b c hc
    obtain ⟨hleads, hlive⟩ := hf.bound u b c hc
    exact ⟨⟨since_live htracks u c hlive, htracks.simulates.consistent.leads u b c hc, rfl⟩,
      hleads⟩
  have hneighbor : ∀ v c, Leads net w u v c →
      ∃ c', (w.nodes u).routing.mNeighbors.lookup ((σ v).id K) = some c' := by
    rintro v c ⟨hlive, rfl, rfl⟩
    exact mem_iff_lookup.mp (hf.greeted c (hgreeted c hlive))
  constructor
  · intro v hv
    have hother : (σ v).id K ≠ (w.nodes u).id K := by
      rw [hid]
      exact fun heq => hv (h.identities heq)
    have hroute : ∀ c, (w.nodes u).routing.findRoute ((σ v).id K) = some c →
        Leads net w u v c := by
      intro c hc
      obtain ⟨hleads, hsame⟩ := hbound _ c ((findRoute_iff (hpublished u) (hf.inStep u)
        hother).mp hc)
      rwa [h.identities hsame] at hleads
    refine ⟨⟨fun ⟨c, hc⟩ => ⟨c, hroute c hc⟩, fun ⟨c, hc⟩ => ?_⟩, hroute⟩
    obtain ⟨c', hc'⟩ := hneighbor v c hc
    exact ⟨c', (findRoute_iff (hpublished u) (hf.inStep u) hother).mpr hc'⟩
  · obtain ⟨connected, hrun, hconnected⟩ :=
      isConnected_iff (hpublished u) (hf.inStep u) (htracks.valid u).bounded
    refine ⟨connected, hrun, hconnected.trans ?_⟩
    rw [hid]
    constructor
    · rintro ⟨b, c, hne, hc⟩
      obtain ⟨hleads, rfl⟩ := hbound b c hc
      exact ⟨net.remote c, c, fun heq => hne (by rw [heq]), hleads⟩
    · rintro ⟨v, c, hne, hleads⟩
      obtain ⟨c', hc'⟩ := hneighbor v c hleads
      exact ⟨_, c', fun heq => hne (h.identities heq), hc'⟩

end Runs

namespace Sample
open QuiescentAgreement.Sample

/-- After the meeting, node 2 routes to node 0 and to nobody else. -/
theorem meeting_routes :
    let w := LinkStateNetwork.run crypto line (World.initial nodes) meeting
    (∃ c, (w.nodes 2).routing.findRoute ((nodes 0).id crypto) = some c) ∧
      ¬ ∃ c, (w.nodes 2).routing.findRoute ((nodes 1).id crypto) = some c := by
  intro w
  have hgreeted : ∀ c, live line w.nodes c = true → w.greeted c = true := by
    decide +kernel
  have hleads : live line w.nodes 1 = true ∧ ¬ ∃ c, live line w.nodes c = true ∧
      line.owner c = 2 ∧ line.remote c = 1 := by
    decide +kernel
  have hroutes := (settled_routes LegioCrypto.Sample.ecdsaLaws LegioCrypto.Sample.ecdhLaws
    started_nodes meeting (by decide +kernel) (by decide) hgreeted 2).1
  exact ⟨(hroutes 0 (by decide)).1.mpr ⟨1, hleads.1, rfl, rfl⟩,
    fun h => hleads.2 ((hroutes 1 (by decide)).1.mp h)⟩

end Sample

end ConvergedRoutes
