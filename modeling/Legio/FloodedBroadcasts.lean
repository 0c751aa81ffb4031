import Legio.DeliveredMessages
import Legio.DirectTraffic

set_option linter.style.header false

/-! What a node passes on of the broadcasts of others, whatever the network does to it. Each
channel is handed a broadcast at most once, and those of one source in the order of their
numbers, however often and in whatever order they are received. -/
namespace FloodedBroadcasts

open LegioBinary LegioCrypto LegioMessage LegioNode Containers ExceptionStates
open NodeRuns SignedProvenance DeliveredMessages DirectTraffic
open NeighborBindings (parse_toBinary)
open TransportSteps (Typed notifyMessage_user)

variable {Id Pair Ecdh Chan : Type} [LinearOrder Id] (K : CryptoPP Id Pair Ecdh)

def broadcastOf (o : ByteOrder) (own : Id) (data : Binary) : Option (Message Id × Id) :=
  (arrival K o own .user data).filter fun a => a.1.destination = none

variable {K} [DecidableEq Chan] {H : Host Id} {pair : Pair} {ecdh : Ecdh}
  {number : Message Id → ℕ} {n : Node Id Pair Ecdh Chan} {m : Message Id} {id own : Id}
  {o : ByteOrder} {arrived : List (Message Id × Id)} {received : List Binary} {data : Binary}

omit [DecidableEq Chan] in
theorem broadcastOf_spec (h : broadcastOf K o own data = some (m, id)) :
    Message.parse K o data = .ok m ∧ arrival K o own .user data = some (m, id) ∧
      posted own m = some (.user, id) ∧ id ≠ own ∧ m.destination = none := by
  rw [broadcastOf, Option.filter_eq_some_iff] at h
  obtain ⟨hparse, hposted, hother⟩ := arrival_spec h.1
  exact ⟨hparse, h.1, hposted, hother, of_decide_eq_true h.2⟩

theorem received_wire (hsound : Sound K H pair ecdh received n)
    (h : broadcastOf K H.byteOrder (K.publicKey pair) data = some (m, id)) (channel : Chan) :
    (Node.onMessage K H n channel data).wire =
      if (n.userTransport.checkSequence id m.sequence).1
        then n.routing.broadcast K H.byteOrder n.wire m (some channel) else n.wire := by
  obtain ⟨hparse, _, hposted, _, hnone⟩ := broadcastOf_spec h
  obtain ⟨hsource, htype⟩ := posted_spec hposted
  have htyped : Typed n :=
    ⟨(hsound.transports .signaling).typed, (hsound.transports .user).typed⟩
  have hroute : Node.route K H m (some channel) n =
      BroadcastableTransport.incoming K H m id (some channel) n := by
    rw [Node.route, get_bind_run, Routing.route, hsource, if_neg (Option.some_ne_none id), hnone]
    exact notifyMessage_user H htyped hsource htype (some channel)
  rw [Node.onMessage, hparse]
  dsimp only
  rw [hroute, BroadcastableTransport.incoming, hnone]
  dsimp only
  rw [bind_ok (checkSequence_run n .user id m.sequence)]
  change _ = if ((n.transport .user).checkSequence id m.sequence).1 then _ else _
  cases ((n.transport .user).checkSequence id m.sequence).1 with
  | true => rfl
  | false => rfl

omit [DecidableEq Chan] in
theorem broadcastOf_frame (hK : EcdsaLaws K) {a : Message Id × Id}
    (h : broadcastOf K o own data = some (m, id)) {data' : Binary}
    (hbinary : m.toBinary K o = .ok data') (ha : broadcastOf K o own data' = some a) :
    a = (m, id) := by
  obtain ⟨hparse, _, hposted, _⟩ := broadcastOf_spec ha
  have hsame := parse_toBinary hK hbinary hparse
  rw [hsame, (broadcastOf_spec h).2.2.1, Option.some.injEq, Prod.mk.injEq] at hposted
  exact Prod.ext hsame hposted.2.symm

omit [LinearOrder Id] in
theorem broadcast_outbox (r : Routing Id Chan) (wire : Wire Chan) (from_ : Option Chan)
    (channel : Chan) : (r.broadcast K o wire m from_).outbox channel = wire.outbox channel ∨
      ∃ data, m.toBinary K o = .ok data ∧
        (r.broadcast K o wire m from_).outbox channel = wire.outbox channel ++ [data] := by
  simp only [Routing.broadcast]
  split_ifs
  · cases m.toBinary K o with
    | error e => exact Or.inl rfl
    | ok data => exact Or.inr ⟨data, rfl, rfl⟩
  · exact Or.inl rfl

theorem flooded_nothing (hK : EcdsaLaws K) (hsound : Sound K H pair ecdh received n)
    {ev : NodeEvent Id Chan}
    (hnone : ∀ data ∈ ev.data, broadcastOf K H.byteOrder (K.publicKey pair) data = none)
    (channel : Chan) : ∃ fresh,
      (ev.apply K H n).wire.outbox channel = n.wire.outbox channel ++ fresh ∧
      fresh.filterMap (broadcastOf K H.byteOrder (K.publicKey pair)) = [] := by
  have hcaused := event_caused (K := K) (H := H) (fun port => (hsound.transports port).typed) ev
  obtain ⟨fresh, houtbox, hfresh⟩ := hcaused.2 channel
  refine ⟨fresh, houtbox, List.filterMap_eq_nil_iff.mpr fun data hdata => ?_⟩
  rw [Option.eq_none_iff_forall_ne_some]
  rintro ⟨m, id⟩ ha
  obtain ⟨hparse, harrival, hposted, hother, hundirected⟩ := broadcastOf_spec ha
  obtain ⟨hsource, htype⟩ := posted_spec hposted
  obtain ⟨m', hbinary, hcause⟩ := hfresh data hdata
  obtain rfl := parse_toBinary hK hbinary hparse
  have hown : ¬ SignedBy K n.ecdsaPair m := by
    intro hsigned
    rw [hsigned.source, Option.some.injEq, hsound.ecdsaPair] at hsource
    exact hother hsource.symm
  have hdirected {remoteId : Id} (haddressed : m.destination = some remoteId) : False := by
    rw [hundirected] at haddressed
    cases haddressed
  cases hcause with
  | announced announced => exact hown announced.signed
  | asked signed => exact hown signed
  | flooded came _ =>
    obtain ⟨bytes, hbytes, hsame⟩ := came
    have hbroadcast : broadcastOf K H.byteOrder (K.publicKey pair) bytes = some (m, id) := by
      rw [broadcastOf, Option.filter_eq_some_iff]
      refine ⟨?_, decide_eq_true hundirected⟩
      rw [← harrival, arrival, arrival, hsame, hparse]
    rw [hnone bytes hbytes] at hbroadcast
    cases hbroadcast
  | relayed _ _ addressed _ => exact hdirected addressed
  | echoed _ _ addressed => exact hdirected addressed

/-- One event: a channel is handed a broadcast of another node only if it outnumbers what
arrived before. -/
theorem flooded_step (hK : EcdsaLaws K) (hsound : Sound K H pair ecdh received n)
    (h : Follows K ecdh (K.publicKey pair) .user number (inbox n .user) arrived)
    (ev : NodeEvent Id Chan)
    (hnumbered : Numbered number
      (arrived ++ arrivals K H.byteOrder (K.publicKey pair) .user ev.data)) (channel : Chan) :
    ∃ fresh news, (ev.apply K H n).wire.outbox channel = n.wire.outbox channel ++ fresh ∧
      newest number [] (arrived ++ arrivals K H.byteOrder (K.publicKey pair) .user ev.data) =
        newest number [] arrived ++ news ∧
      (fresh.filterMap (broadcastOf K H.byteOrder (K.publicKey pair))).Sublist news := by
  by_cases hbroadcast : ∃ c data a, ev = .received c data ∧
      broadcastOf K H.byteOrder (K.publicKey pair) data = some a
  · obtain ⟨c, data, ⟨m, id⟩, rfl, ha⟩ := hbroadcast
    obtain ⟨_, harrival, _, hother, _⟩ := broadcastOf_spec ha
    have hdata : arrivals K H.byteOrder (K.publicKey pair) .user
        (NodeEvent.received c data : NodeEvent Id Chan).data = [(m, id)] := by
      change arrivals K H.byteOrder (K.publicKey pair) .user [data] = _
      rw [arrivals_singleton, harrival, Option.toList_some]
    rw [hdata] at hnumbered ⊢
    have hchecked := checked_iff h hother hnumbered
    have hwire := received_wire hsound ha c
    rw [newest_concat]
    by_cases hnew : ∀ b ∈ arrived, b.2 = id → number b.1 < number m
    · have hpassed : (n.userTransport.checkSequence id m.sequence).1 = true := hchecked.mpr hnew
      rw [if_pos hpassed] at hwire
      change ∃ fresh news, (Node.onMessage K H n c data).wire.outbox channel = _ ∧ _
      rw [if_pos hnew, hwire]
      rcases broadcast_outbox (K := K) (o := H.byteOrder) (m := m) n.routing n.wire (some c)
        channel with hsame | ⟨data', hbinary, houtbox⟩
      · exact ⟨[], _, by rw [hsame, List.append_nil], rfl, List.nil_sublist _⟩
      · refine ⟨[data'], _, houtbox, rfl, ?_⟩
        rw [List.filterMap_cons, List.filterMap_nil]
        cases hcopy : broadcastOf K H.byteOrder (K.publicKey pair) data' with
        | none => exact List.nil_sublist _
        | some a => rw [broadcastOf_frame hK ha hbinary hcopy]
    · have hstale : ¬ (n.userTransport.checkSequence id m.sequence).1 = true :=
        fun hpassed => hnew (hchecked.mp hpassed)
      rw [if_neg hstale] at hwire
      change ∃ fresh news, (Node.onMessage K H n c data).wire.outbox channel = _ ∧ _
      exact ⟨[], _, by rw [hwire, List.append_nil], rfl, List.nil_sublist _⟩
  · have hnone : ∀ data ∈ ev.data, broadcastOf K H.byteOrder (K.publicKey pair) data = none := by
      intro data hdata
      rw [Option.eq_none_iff_forall_ne_some]
      intro a ha
      cases ev with
      | received c bytes =>
        obtain rfl := List.mem_singleton.mp hdata
        exact hbroadcast ⟨c, data, a, rfl, ha⟩
      | addChannel | removeChannel | addNeighbor | removeNeighbor | status | update | send
      | broadcast => cases hdata
    obtain ⟨fresh, houtbox, hnothing⟩ := flooded_nothing hK hsound hnone channel
    exact ⟨fresh, _, houtbox, newest_append number _ _ _, hnothing ▸ List.nil_sublist _⟩

theorem flooded_run (hK : EcdsaLaws K) (h : Created K H n) (events : List (NodeEvent Id Chan))
    (hnumbered : Numbered number
      (arrivals K H.byteOrder (K.publicKey n.ecdsaPair) .user (NodeRuns.received events)))
    (channel : Chan) : ∃ fresh,
      (run K H n events).wire.outbox channel = n.wire.outbox channel ++ fresh ∧
      (fresh.filterMap (broadcastOf K H.byteOrder (K.publicKey n.ecdsaPair))).Sublist
        (newest number [] (arrivals K H.byteOrder (K.publicKey n.ecdsaPair) .user
          (NodeRuns.received events))) := by
  induction events using List.reverseRecOn with
  | nil => exact ⟨[], (List.append_nil _).symm, List.nil_sublist _⟩
  | append_singleton events ev ih =>
    have hsplit : arrivals K H.byteOrder (K.publicKey n.ecdsaPair) .user
        (NodeRuns.received (events ++ [ev])) =
          arrivals K H.byteOrder (K.publicKey n.ecdsaPair) .user (NodeRuns.received events) ++
            arrivals K H.byteOrder (K.publicKey n.ecdsaPair) .user ev.data := by
      rw [NodeRuns.received, List.flatMap_append, List.flatMap_singleton, arrivals,
        List.filterMap_append]
      rfl
    have hrun : run K H n (events ++ [ev]) = ev.apply K H (run K H n events) := by
      rw [run, List.foldl_append]
      rfl
    rw [hsplit] at hnumbered ⊢
    have hpast := hnumbered.of_sublist (List.sublist_append_left _ _)
    obtain ⟨fresh, houtbox, hsublist⟩ := ih hpast
    have hsound := run_sound events [] n (created_sound h)
    have hfollows := follows_run events n [] [] (created_sound h) (created_follows h .user) hpast
    obtain ⟨fresh', news, houtbox', hnews, hsublist'⟩ :=
      flooded_step hK hsound hfollows ev hnumbered channel
    refine ⟨fresh ++ fresh', by rw [hrun, houtbox', houtbox, List.append_assoc], ?_⟩
    rw [List.filterMap_append]
    exact hnews ▸ hsublist.append hsublist'

/-- Over any run and whatever bytes it receives: of the broadcasts of other nodes, a node hands
to each channel only those that outnumber all that came from their source before. So none is
handed to a channel twice, and the numbers of a source increase. -/
theorem flooded_once (hK : EcdsaLaws K) (h : Created K H n) (events : List (NodeEvent Id Chan)) :
    let arrived := arrivals K H.byteOrder (n.id K) .user (NodeRuns.received events)
    Numbered number arrived → ∀ channel, ∃ fresh,
      (run K H n events).wire.outbox channel = n.wire.outbox channel ++ fresh ∧
      let flooded := fresh.filterMap (broadcastOf K H.byteOrder (n.id K))
      flooded.Sublist (newest number [] arrived) ∧
        (flooded.Pairwise fun a b => a.2 = b.2 → number a.1 < number b.1) ∧
        flooded.length ≤ arrived.dedup.length := by
  intro arrived hnumbered channel
  obtain ⟨fresh, houtbox, hsublist⟩ := flooded_run hK h events hnumbered channel
  have hpairwise := (newest_increasing number arrived []).2.sublist hsublist
  refine ⟨fresh, houtbox, hsublist, hpairwise, ?_⟩
  have hnodup : (fresh.filterMap (broadcastOf K H.byteOrder (n.id K))).Nodup := by
    refine hpairwise.imp fun {a b} hab heq => ?_
    exact Nat.lt_irrefl _ (heq ▸ hab (congrArg Prod.snd heq))
  refine (hnodup.subperm fun a ha => ?_).length_le
  exact List.mem_dedup.mpr ((newest_sublist number arrived []).subset (hsublist.subset ha))

-- The messages come in over channel 0, and go out over channel 1.
namespace Sample
open LegioNode.Sample PublishedTable.Sample DeliveredMessages.Sample

def relayed : List (NodeEvent (Fin 4) ℕ) := .addChannel 1 :: events

theorem replay_not_flooded : ∃ fresh,
    (run crypto host (started 1) relayed).wire.outbox 1 = fresh ∧
      (fresh.filterMap (broadcastOf crypto host.byteOrder ((started 1).id crypto))).Sublist
        [(last, 2), (first, 2)] ∧ fresh ≠ [] := by
  have harrived : arrivals crypto host.byteOrder ((started 1).id crypto) .user
      (NodeRuns.received relayed) = [(last, 2), (first, 2), (last, 2)] := by decide +kernel
  have hnumbered : Numbered number (arrivals crypto host.byteOrder ((started 1).id crypto) .user
      (NodeRuns.received relayed)) := by
    rw [harrived]
    exact ⟨by decide +kernel, by unfold ReplayFilter.sequenceWindow; decide +kernel⟩
  obtain ⟨fresh, houtbox, hsublist, _⟩ :=
    flooded_once LegioCrypto.Sample.ecdsaLaws (created 1) relayed hnumbered 1
  have hempty : (started 1).wire.outbox 1 = [] := by decide +kernel
  have hsome : (run crypto host (started 1) relayed).wire.outbox 1 ≠ [] := by decide +kernel
  rw [hempty, List.nil_append] at houtbox
  rw [harrived] at hsublist
  exact ⟨fresh, houtbox, hsublist, houtbox ▸ hsome⟩

end Sample

end FloodedBroadcasts
