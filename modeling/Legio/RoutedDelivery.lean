import Legio.ChannelTopology
import Legio.NodeComponents
import Mathlib.Data.Fin.VecNotation

set_option linter.style.header false

/-! A message on its way through the routing components of a network. The tables name the
next hop of every destination, but `findRoute` looks the channel up under the destination:
a message gets further than its source only if the destination is a neighbour. -/
namespace RoutedDelivery

open LegioBinary LegioCrypto LegioMessage LegioNode Containers ChannelTopology

variable {Id Pair Ecdh Chan : Type} [DecidableEq Id] [DecidableEq Chan]

/-- The routing components of a network, none of which changes, and the machines. -/
structure Network (Id Chan : Type) extends Cabling Id Chan where
  routing : Id → Routing Id Chan
  byteOrder : Id → ByteOrder

structure Traffic (Id Chan : Type) where
  wire : Id → Wire Chan
  sent : List Chan
  emitted : List (Id × Message Id)

section Steps
variable (K : CryptoPP Id Pair Ecdh) (net : Network Id Chan)

def route (u : Id) (message : Message Id) (from_ : Option Chan) (t : Traffic Id Chan) :
    Traffic Id Chan :=
  match (net.routing u).route u message from_ with
  | .error _ => t
  | .ok (.emit message _) => { t with emitted := t.emitted ++ [(u, message)] }
  | .ok (.send channel message) =>
    match message.toBinary K (net.byteOrder u) with
    | .error _ => t
    | .ok data =>
      match (t.wire u).send channel data with
      | .error _ => t
      | .ok wire => { t with
          wire := Function.update t.wire u wire
          sent := t.sent ++ [channel] }
  | .ok .drop => t

def send (u : Id) (message : Message Id) (t : Traffic Id Chan) : Traffic Id Chan :=
  if message.destination.isSome then route K net u message none t
  else { t with
    wire := Function.update t.wire u
      ((net.routing u).broadcast K (net.byteOrder u) (t.wire u) message none) }

def receive (channel : Chan) (data : Binary) (t : Traffic Id Chan) : Traffic Id Chan :=
  if channel ∈ (net.routing (net.owner channel)).mChannels then
    match Message.parse K (net.byteOrder (net.owner channel)) data with
    | .error _ => t
    | .ok message => route K net (net.owner channel) message (some channel) t
  else t

def deliver (t : Traffic Id Chan) (channel : Chan) : Traffic Id Chan :=
  match (t.wire (net.owner channel)).outbox channel with
  | [] => t
  | data :: _ =>
    receive K net (net.peer channel) data { t with
      wire := Function.update t.wire (net.owner channel)
        ((t.wire (net.owner channel)).pop channel) }

end Steps

structure Leads (net : Network Id Chan) (t : Traffic Id Chan) (u : Id) (channel : Chan)
    (v : Id) : Prop where
  isOpen : (t.wire u).isOpen channel = true
  owner : net.owner channel = u
  remote : net.remote channel = v
  registered : net.peer channel ∈ (net.routing v).mChannels

def Hop (net : Network Id Chan) (u v : Id) : Prop := v ∈ (net.routing u).mNeighbors

/-- The table of `u` sends traffic for `d` to a neighbour that is one hop nearer. -/
def NextHop (net : Network Id Chan) (u d h : Id) : Prop :=
  (∃ table, (net.routing u).mTable = some table ∧ table.findNextHop d = some h) ∧
    Hop net u h ∧ ∃ n, Distance (Hop net) n h d ∧ Distance (Hop net) (n + 1) u d

structure WellRouted (net : Network Id Chan) (t : Traffic Id Chan) : Prop where
  table : ∀ u d, u ≠ d → (∃ n, Walk (Hop net) n u d) → ∃ h, NextHop net u d h
  leads : ∀ u v channel, (net.routing u).mNeighbors.lookup v = some channel →
    Leads net t u channel v

def Quiet (t : Traffic Id Chan) : Prop := ∀ u channel, (t.wire u).outbox channel = []

structure Idle (t : Traffic Id Chan) : Prop where
  quiet : Quiet t
  sent : t.sent = []
  emitted : t.emitted = []

/-- The message comes to rest, and whenever nothing is in flight any more it was sent over
`n` channels and has caused one Message event, at `d`. -/
def Delivers (K : CryptoPP Id Pair Ecdh) (net : Network Id Chan) (t : Traffic Id Chan)
    (s : Id) (message : Message Id) (d : Id) (n : ℕ) : Prop :=
  (∃ arrivals : List Chan, Quiet (arrivals.foldl (deliver K net) (send K net s message t))) ∧
    ∀ arrivals : List Chan,
      Quiet (arrivals.foldl (deliver K net) (send K net s message t)) →
        (arrivals.foldl (deliver K net) (send K net s message t)).sent.length = n ∧
        (arrivals.foldl (deliver K net) (send K net s message t)).emitted = [(d, message)]

/-- `findRoute` yields the channel of the next hop that the table names. -/
def FollowsTable (net : Network Id Chan) (u d : Id) : Prop :=
  ∃ table h channel, (net.routing u).mTable = some table ∧ table.findNextHop d = some h ∧
    (net.routing u).mNeighbors.lookup h = some channel ∧
    (net.routing u).findRoute d = some channel

section Lookup
variable {net : Network Id Chan} {t : Traffic Id Chan} {u d : Id}

omit [DecidableEq Chan] in
/-- With a table entry for the destination, the answer is the neighbour map's. -/
theorem findRoute_eq (h : WellRouted net t) (hne : u ≠ d) (hw : ∃ n, Walk (Hop net) n u d) :
    (net.routing u).findRoute d = (net.routing u).mNeighbors.lookup d := by
  obtain ⟨next, ⟨table, htable, hnext⟩, _⟩ := h.table u d hne hw
  simp only [Routing.findRoute, htable, hnext]

omit [DecidableEq Chan] in
theorem findRoute_far (h : WellRouted net t) (hne : u ≠ d) (hw : ∃ n, Walk (Hop net) n u d)
    (hfar : ¬ Hop net u d) : (net.routing u).findRoute d = none := by
  rw [findRoute_eq h hne hw, AList.lookup_eq_none]
  exact hfar

omit [DecidableEq Chan] in
theorem followsTable_iff {n : ℕ} (h : WellRouted net t) (hne : u ≠ d)
    (hn : Distance (Hop net) n u d) : FollowsTable net u d ↔ n ≤ 1 := by
  rw [hn.le_one_iff]
  constructor
  · rintro ⟨_, _, channel, _, _, _, hroute⟩
    right
    by_contra hfar
    rw [findRoute_far h hne ⟨n, hn.walk⟩ hfar] at hroute
    cases hroute
  · rintro (heq | hhop)
    · exact absurd heq hne
    · obtain ⟨next, ⟨table, htable, hnext⟩, _, k, hk, hk'⟩ := h.table u d hne ⟨n, hn.walk⟩
      -- one hop from the destination there is no nearer node than the destination
      have hzero : k + 1 = 1 := hk'.unique (distance_one hne hhop)
      obtain rfl : next = d := hk.zero_iff.mp (by omega)
      obtain ⟨channel, hchannel⟩ := mem_iff_lookup.mp hhop
      refine ⟨table, next, channel, htable, hnext, hchannel, ?_⟩
      rw [findRoute_eq h hne ⟨n, hn.walk⟩, hchannel]

end Lookup

section Routes
variable {K : CryptoPP Id Pair Ecdh} {net : Network Id Chan} {t : Traffic Id Chan}
  {message : Message Id} {u d : Id}

omit [DecidableEq Id] [DecidableEq Chan] in
theorem source_ne_none {pair : Pair} (hm : SignedBy K pair message) :
    message.source ≠ none := by
  rw [hm.source]
  exact Option.some_ne_none _

theorem route_arrived (hsource : message.source ≠ none) (hd : message.destination = some d)
    (from_ : Option Chan) : route K net d message from_ t =
      { t with emitted := t.emitted ++ [(d, message)] } := by
  simp only [route, Routing.route, if_neg hsource, hd, if_true]

theorem route_dropped (hsource : message.source ≠ none) (hd : message.destination = some d)
    (hne : u ≠ d) (hroute : (net.routing u).findRoute d = none) (from_ : Option Chan) :
    route K net u message from_ t = t := by
  simp only [route, Routing.route, if_neg hsource, hd, if_neg (Ne.symm hne), hroute]

theorem route_forwarded {pair : Pair} (hm : SignedBy K pair message)
    (hd : message.destination = some d) (hne : u ≠ d) {channel : Chan}
    (hroute : (net.routing u).findRoute d = some channel)
    (hopen : (t.wire u).isOpen channel = true) (from_ : Option Chan) :
    route K net u message from_ t = { t with
      wire := Function.update t.wire u { t.wire u with
        outbox := Function.update (t.wire u).outbox channel
          ((t.wire u).outbox channel ++ [message.signedBytes K ++ message.signature]) }
      sent := t.sent ++ [channel] } := by
  simp only [route, Routing.route, if_neg (source_ne_none hm), hd, if_neg (Ne.symm hne), hroute,
    toBinary_eq K _ message hm.body, Wire.send, hopen, if_true]

theorem deliver_empty {channel : Chan}
    (hq : (t.wire (net.owner channel)).outbox channel = []) : deliver K net t channel = t := by
  rw [deliver, hq]

theorem arrivals_quiet (hq : Quiet t) (arrivals : List Chan) :
    arrivals.foldl (deliver K net) t = t := by
  induction arrivals with
  | nil => rfl
  | cons channel arrivals ih => rw [List.foldl_cons, deliver_empty (hq _ channel), ih]

theorem delivers_quiet_iff {s : Id} {n : ℕ} (hq : Quiet (send K net s message t)) :
    Delivers K net t s message d n ↔
      (send K net s message t).sent.length = n ∧
        (send K net s message t).emitted = [(d, message)] := by
  constructor
  · rintro ⟨_, hall⟩
    exact hall [] hq
  · intro h
    refine ⟨⟨[], hq⟩, fun arrivals _ => ?_⟩
    rw [arrivals_quiet hq]
    exact h

structure InTransit (net : Network Id Chan) (t : Traffic Id Chan) (channel : Chan)
    (data : Binary) : Prop where
  here : (t.wire (net.owner channel)).outbox channel = [data]
  elsewhere : ∀ u c, (u, c) ≠ (net.owner channel, channel) → (t.wire u).outbox c = []

theorem pop_inTransit {channel : Chan} {data : Binary} (h : InTransit net t channel data)
    (u : Id) (c : Chan) : (Function.update t.wire (net.owner channel)
      ((t.wire (net.owner channel)).pop channel) u).outbox c = [] := by
  by_cases hu : u = net.owner channel
  · subst hu
    rw [Function.update_self, Wire.pop]
    by_cases hc : c = channel
    · simp only [hc, Function.update_self, h.here, List.tail_cons]
    · simp only [Function.update_of_ne hc]
      exact h.elsewhere _ c fun heq => hc (congrArg Prod.snd heq)
  · rw [Function.update_of_ne hu]
    exact h.elsewhere u c fun heq => hu (congrArg Prod.fst heq)

theorem arrivals_inTransit {channel : Chan} {data : Binary} (h : InTransit net t channel data)
    (hq : Quiet (deliver K net t channel)) (arrivals : List Chan) :
    arrivals.foldl (deliver K net) t = t ∨
      arrivals.foldl (deliver K net) t = deliver K net t channel := by
  induction arrivals with
  | nil => exact Or.inl rfl
  | cons c arrivals ih =>
    by_cases hc : c = channel
    · right
      rw [hc, List.foldl_cons, arrivals_quiet hq]
    · rw [List.foldl_cons, deliver_empty (h.elsewhere _ c fun heq => hc (congrArg Prod.snd heq))]
      exact ih

theorem deliver_arrived {channel : Chan} (hK : EcdsaLaws K) {pair : Pair}
    (hm : SignedBy K pair message) (hd : message.destination = some d)
    (h : InTransit net t channel (message.signedBytes K ++ message.signature))
    (hremote : net.remote channel = d)
    (hregistered : net.peer channel ∈ (net.routing d).mChannels) :
    deliver K net t channel = { t with
      wire := Function.update t.wire (net.owner channel)
        ((t.wire (net.owner channel)).pop channel)
      emitted := t.emitted ++ [(d, message)] } := by
  have hremote' : net.owner (net.peer channel) = d := hremote
  simp only [deliver, h.here, receive, hremote', hregistered, if_true, parse_signed hK _ hm,
    route_arrived (source_ne_none hm) hd]

end Routes

section Delivery
variable {K : CryptoPP Id Pair Ecdh} {net : Network Id Chan} {t : Traffic Id Chan}
  {message : Message Id} {s d : Id}

theorem send_of_destination (hd : message.destination = some d) :
    send K net s message t = route K net s message none t := by
  rw [send, hd]
  rfl

theorem delivers_neighbor (hK : EcdsaLaws K) (h : WellRouted net t) (hi : Idle t) {pair : Pair}
    (hm : SignedBy K pair message) (hd : message.destination = some d) (hne : s ≠ d)
    (hhop : Hop net s d) : Delivers K net t s message d 1 := by
  obtain ⟨channel, hchannel⟩ := mem_iff_lookup.mp hhop
  have hleads := h.leads s d channel hchannel
  have hroute : (net.routing s).findRoute d = some channel := by
    rw [findRoute_eq h hne ⟨1, .cons hhop (.nil d)⟩, hchannel]
  have hsend : send K net s message t = _ :=
    (send_of_destination hd).trans (route_forwarded hm hd hne hroute hleads.isOpen none)
  set t₁ := send K net s message t
  have htransit : InTransit net t₁ channel (message.signedBytes K ++ message.signature) := by
    constructor
    · simp only [hsend, hleads.owner, Function.update_self, hi.quiet s channel,
        List.nil_append]
    · intro u c hne'
      rw [hsend]
      by_cases hu : u = s
      · subst hu
        have hc : c ≠ channel := fun hc => hne' (by rw [hc, hleads.owner])
        simp only [Function.update_self, Function.update_of_ne hc]
        exact hi.quiet u c
      · simp only [Function.update_of_ne hu]
        exact hi.quiet u c
  have harrive := deliver_arrived hK hm hd htransit hleads.remote hleads.registered
  have hquiet : Quiet (deliver K net t₁ channel) := by
    rw [harrive]
    exact pop_inTransit htransit
  have hsent : (deliver K net t₁ channel).sent.length = 1 ∧
      (deliver K net t₁ channel).emitted = [(d, message)] := by
    rw [harrive]
    simp [hsend, hi.sent, hi.emitted]
  refine ⟨⟨[channel], hquiet⟩, fun arrivals hq => ?_⟩
  rcases arrivals_inTransit htransit hquiet arrivals with hrun | hrun
  · have hempty := hq (net.owner channel) channel
    rw [hrun, htransit.here] at hempty
    cases hempty
  · rw [hrun]
    exact hsent

/-- With next hops that are right everywhere, a message is delivered over as many channels
as the distance exactly when there is at most one, and only then does `findRoute` answer
with the next hop's channel. -/
theorem routed_delivery_iff (hK : EcdsaLaws K) (h : WellRouted net t) (hi : Idle t)
    {pair : Pair} (hm : SignedBy K pair message) (hd : message.destination = some d) {n : ℕ}
    (hn : Distance (Hop net) n s d) :
    (Delivers K net t s message d n ↔ n ≤ 1) ∧ (s ≠ d → (FollowsTable net s d ↔ n ≤ 1)) := by
  refine ⟨?_, fun hne => followsTable_iff h hne hn⟩
  rw [hn.le_one_iff]
  constructor
  · intro hdelivers
    by_contra hfar
    rw [not_or] at hfar
    have hstuck : send K net s message t = t :=
      (send_of_destination hd).trans
        (route_dropped (source_ne_none hm) hd hfar.1 (findRoute_far h hfar.1 ⟨n, hn.walk⟩ hfar.2)
          none)
    have hq : Quiet (send K net s message t) := by
      rw [hstuck]
      exact hi.quiet
    obtain ⟨_, hemitted⟩ := (delivers_quiet_iff hq).mp hdelivers
    rw [hstuck, hi.emitted] at hemitted
    cases hemitted
  · intro hnear
    by_cases heq : s = d
    · subst heq
      have hsend : send K net s message t = _ :=
        (send_of_destination hd).trans (route_arrived (source_ne_none hm) hd none)
      have hq : Quiet (send K net s message t) := by
        rw [hsend]
        exact hi.quiet
      rw [delivers_quiet_iff hq, hsend]
      simp [hi.sent, hi.emitted, hn.zero_iff.mpr rfl]
    · have hhop := hnear.resolve_left heq
      rw [hn.unique (distance_one heq hhop)]
      exact delivers_neighbor hK h hi hm hd heq hhop

end Delivery

-- Four nodes in a ring. Sides `2 * u` and `2 * u + 1` belong to node `u`, the first leading to
-- the next node and the second to the previous one.
namespace Sample

abbrev crypto := LegioCrypto.Sample.crypto

def table (u : Fin 4) : RoutingTable (Fin 4) :=
  ((RoutingTable.empty.add (u + 1) (u + 1)).add (u - 1) (u - 1)).add (u + 2) (u + 1)

def ring : Network (Fin 4) (Fin 8) where
  owner := ![0, 0, 1, 1, 2, 2, 3, 3]
  peer := ![3, 6, 5, 0, 7, 2, 1, 4]
  peer_peer := by decide
  routing u := {
    mTable := some (table u)
    mChannels := {![0, 2, 4, 6] u, ![1, 3, 5, 7] u}
    mNeighbors := emplace (u - 1) (![1, 3, 5, 7] u) (emplace (u + 1) (![0, 2, 4, 6] u) ∅) }
  byteOrder _ := .little

def idle : Traffic (Fin 4) (Fin 8) := ⟨fun _ => ⟨fun _ => true, fun _ => []⟩, [], []⟩

theorem idle_ring : Idle idle := ⟨fun _ _ => rfl, rfl, rfl⟩

instance (u v : Fin 4) : Decidable (Hop ring u v) :=
  inferInstanceAs (Decidable (v ∈ (ring.routing u).mNeighbors))

theorem others : ∀ u d : Fin 4, u ≠ d → d = u + 1 ∨ d = u - 1 ∨ d = u + 2 := by decide

theorem hops : ∀ u, Hop ring u (u + 1) ∧ Hop ring u (u - 1) ∧ ¬ Hop ring u (u + 2) ∧
    Hop ring (u + 1) (u + 2) := by decide

theorem next_hops : ∀ u, (table u).findNextHop (u + 1) = some (u + 1) ∧
    (table u).findNextHop (u - 1) = some (u - 1) ∧
    (table u).findNextHop (u + 2) = some (u + 1) := by decide

theorem wellRouted_ring : WellRouted ring idle where
  table u d hne _ := by
    obtain ⟨hnext, hprevious, hopposite, hsecond⟩ := hops u
    obtain ⟨to_next, to_previous, to_opposite⟩ := next_hops u
    rcases others u d hne with rfl | rfl | rfl
    · exact ⟨u + 1, ⟨_, rfl, to_next⟩, hnext, 0, distance_self _, distance_one hne hnext⟩
    · exact ⟨u - 1, ⟨_, rfl, to_previous⟩, hprevious, 0, distance_self _,
        distance_one hne hprevious⟩
    · have hne' : u + 1 ≠ u + 2 := fun heq => hopposite (heq ▸ hnext)
      exact ⟨u + 1, ⟨_, rfl, to_opposite⟩, hnext, 1, distance_one hne' hsecond,
        distance_two hne hopposite hnext hsecond⟩
  leads u v channel h := by
    have hends : ∀ u v channel, (ring.routing u).mNeighbors.lookup v = some channel →
        ring.owner channel = u ∧ ring.remote channel = v ∧
          ring.peer channel ∈ (ring.routing v).mChannels := by decide
    obtain ⟨howner, hremote, hregistered⟩ := hends u v channel h
    exact ⟨rfl, howner, hremote, hregistered⟩

def message (d : Fin 4) : Message (Fin 4) :=
  let unsigned : Message (Fin 4) := ⟨MessageType.User, 7, some 0, some d, [1, 2, 3], []⟩
  { unsigned with signature := crypto.sign 0 (unsigned.signedBytes crypto) }

theorem signed_message (d : Fin 4) : SignedBy crypto 0 (message d) :=
  ⟨rfl, rfl, by simp [message, uint16Max]⟩

/-- From node 0 to the opposite node, two hops away, nothing is ever sent. -/
theorem opposite_node_unreached : WellRouted ring idle ∧ Idle idle ∧
    SignedBy crypto 0 (message 2) ∧ (message 2).destination = some 2 ∧
    Distance (Hop ring) 2 0 2 ∧ ¬ Delivers crypto ring idle 0 (message 2) 2 2 := by
  have hfar : ¬ Hop ring 0 2 := by decide
  refine ⟨wellRouted_ring, idle_ring, signed_message 2, rfl,
    distance_two (v := 1) (by decide) hfar (by decide) (by decide), ?_⟩
  rintro ⟨_, hall⟩
  have hstuck : send crypto ring 0 (message 2) idle = idle := rfl
  have hemitted := (hall [] (by rw [List.foldl_nil, hstuck]; exact idle_ring.quiet)).2
  rw [List.foldl_nil, hstuck] at hemitted
  cases hemitted

/-- The next node in the ring is reached over one channel. -/
theorem next_node_reached : Delivers crypto ring idle 0 (message 1) 1 1 :=
  (routed_delivery_iff LegioCrypto.Sample.ecdsaLaws wellRouted_ring idle_ring
    (signed_message 1) rfl (distance_one (by decide) (by decide))).1.mpr (by decide)

end Sample
end RoutedDelivery
