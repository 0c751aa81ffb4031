import Legio.NodeRuns
import Legio.PublishedTable
import Legio.RoutingLinks
import Legio.SignedProvenance

set_option linter.style.header false

/-! Honest nodes among channels of which some sides belong to an adversary. It sends what it
has received, and anything that carries no honest signature. A Hello is not tied to the
channel it was meant for, so what a received Hello says about a channel of the adversary is
only that the adversary has received it. -/
namespace NeighborBindings

open LegioBinary LegioCrypto LegioMessage LegioNode Containers ExceptionStates
open ChannelTopology NodeRuns SignedProvenance
open NodeNetwork (arrive)
open LocalLinks (links changeNeighbors_links)
open RoutingLinks (calls links_act links_onMessage run_neighbors)

variable {V Id Pair Ecdh Chan : Type}

structure Network (V Id Chan : Type) extends Cabling (Option V) Chan where
  host : V → Host Id

/-- The nodes and what the adversary has received; as history variables the bindings that
calls of `addNeighbor` asked for at each node, and those that a received Hello has made. -/
structure World (V Id Pair Ecdh Chan : Type) where
  nodes : V → Node Id Pair Ecdh Chan
  known : List Binary
  told : V → List (Id × Chan)
  greeted : V → List (Id × Chan)

inductive Event (V Id Chan : Type) where
  | act (v : V) (event : NodeEvent Id Chan)
  | deliver (channel : Chan)
  | inject (channel : Chan) (data : Binary)

section Model
variable [DecidableEq V] [LinearOrder Id] [DecidableEq Chan] (K : CryptoPP Id Pair Ecdh)
  (net : Network V Id Chan)

def tells : NodeEvent Id Chan → List (Id × Chan)
  | .addNeighbor remoteId channel => [(remoteId, channel)]
  | _ => []

def greets (H : Host Id) (n n' : Node Id Pair Ecdh Chan) (data : Binary) : List (Id × Chan) :=
  match Message.parse K H.byteOrder data with
  | .error _ => []
  | .ok m =>
    match m.source with
    | none => []
    | some source =>
      match n.routing.mNeighbors.lookup source, n'.routing.mNeighbors.lookup source with
      | none, some channel => [(source, channel)]
      | _, _ => []

def World.receive (w : World V Id Pair Ecdh Chan) (v : V) (channel : Chan) (data : Binary) :
    World V Id Pair Ecdh Chan :=
  let n' := arrive K (net.host v) (w.nodes v) channel data
  { w with
    nodes := Function.update w.nodes v n'
    greeted := Function.update w.greeted v
      (w.greeted v ++ greets K (net.host v) (w.nodes v) n' data) }

def World.step (w : World V Id Pair Ecdh Chan) : Event V Id Chan → World V Id Pair Ecdh Chan
  | .act v event =>
    { w with
      nodes := Function.update w.nodes v (event.apply K (net.host v) (w.nodes v))
      told := Function.update w.told v (w.told v ++ tells event) }
  | .deliver channel =>
    match net.owner channel with
    | none => w
    | some u =>
      match (w.nodes u).wire.outbox channel with
      | [] => w
      | data :: _ =>
        let w := { w with nodes := Function.update w.nodes u { w.nodes u with
          wire := (w.nodes u).wire.pop channel } }
        match net.remote channel with
        | none => { w with known := w.known ++ [data] }
        | some v => w.receive K net v (net.peer channel) data
  | .inject channel data =>
    match net.remote channel with
    | none => w
    | some v => w.receive K net v (net.peer channel) data

/-- Honest nodes receive through channels only, and the adversary sends on its own sides
only, forging no honest signature. -/
def World.Possible (w : World V Id Pair Ecdh Chan) : Event V Id Chan → Prop
  | .act _ event => event.data = []
  | .deliver _ => True
  | .inject channel data => net.owner channel = none ∧ (data ∈ w.known ∨
    ∀ o m v, Message.parse K o data = .ok m → m.source ≠ some ((w.nodes v).id K))

structure Start (w : World V Id Pair Ecdh Chan) : Prop where
  created : ∀ v, Created K (net.host v) (w.nodes v)
  identities : Function.Injective fun v => (w.nodes v).id K
  known : w.known = []
  told : ∀ v, w.told v = []
  greeted : ∀ v, w.greeted v = []

inductive Reachable (w₀ : World V Id Pair Ecdh Chan) : World V Id Pair Ecdh Chan → Prop where
  | start : Reachable w₀ w₀
  | step {w event} : Reachable w₀ w → w.Possible K net event → Reachable w₀ (w.step K net event)

def HelloOf (id : Id) (data : Binary) : Prop :=
  ∃ o m, Message.parse K o data = .ok m ∧ m.type = MessageType.Hello ∧ m.source = some id

/-- The far side belongs to `x`, or to the adversary, who then has received a Hello of `x`. -/
def BoundTo (id : Id) (x : V) (known : List Binary) (channel : Chan) : Prop :=
  net.remote channel = some x ∨
    net.remote channel = none ∧ ∃ data ∈ known, HelloOf K id data

end Model

section Reception
variable [LinearOrder Id] [DecidableEq Chan] {K : CryptoPP Id Pair Ecdh} (H : Host Id)
  {n : Node Id Pair Ecdh Chan}

theorem act_neighbors {event : NodeEvent Id Chan} (hevent : event.data = []) {id : Id} {c : Chan}
    (h : (event.apply K H n).routing.mNeighbors.lookup id = some c) :
    n.routing.mNeighbors.lookup id = some c ∨ (id, c) ∈ tells event := by
  have hlinks := links_act (K := K) H n hevent
  have hneighbors : (event.apply K H n).routing.mNeighbors =
      (RoutingLinks.run K H n (calls event)).routing.mNeighbors := congrArg Prod.snd hlinks
  rw [hneighbors] at h
  refine (run_neighbors H (calls event) h).imp_right fun hcall => ?_
  cases event with
  | addNeighbor remoteId channel =>
    rw [calls, List.mem_singleton] at hcall
    cases hcall
    exact List.mem_singleton_self _
  | addChannel | removeChannel | removeNeighbor =>
    rw [calls, List.mem_singleton] at hcall
    cases hcall
  | status | update | send | broadcast | received => cases hcall

/-- Only a Hello changes the neighbours: it binds its source to the channel it came by. -/
theorem onMessage_neighbors (n : Node Id Pair Ecdh Chan) (channel : Chan) (data : Binary) :
    (Node.onMessage K H n channel data).routing.mNeighbors = n.routing.mNeighbors ∨
      ∃ m source, Message.parse K H.byteOrder data = .ok m ∧ m.type = MessageType.Hello ∧
        m.source = some source ∧ (Node.onMessage K H n channel data).routing.mNeighbors =
          emplace source channel n.routing.mNeighbors := by
  rcases links_onMessage (K := K) H n channel data with
    hsame | ⟨m, source, hparse, hhello, hsource, hlinks⟩
  · exact Or.inl (congrArg Prod.snd hsame)
  have hadded := changeNeighbors_links (K := K) H (n := n) fun r => r.addNeighbor source channel
  have hneighbors : (Node.onMessage K H n channel data).routing.mNeighbors =
      (n.routing.addNeighbor source channel).1.mNeighbors :=
    congrArg Prod.snd (hlinks.trans hadded)
  rw [hneighbors, Routing.addNeighbor]
  split_ifs
  · exact Or.inl rfl
  · exact Or.inr ⟨m, source, hparse, hhello, hsource, rfl⟩
  · exact Or.inl rfl

theorem greets_hello {channel c : Chan} {data : Binary} {id : Id}
    (h : (id, c) ∈ greets K H n (arrive K H n channel data) data) :
    c = channel ∧ ∃ m, Message.parse K H.byteOrder data = .ok m ∧
      m.type = MessageType.Hello ∧ m.source = some id := by
  rw [greets] at h
  cases hparse : Message.parse K H.byteOrder data with
  | error e =>
    rw [hparse] at h
    cases h
  | ok m =>
    rw [hparse] at h
    dsimp only at h
    cases hsource : m.source with
    | none =>
      rw [hsource] at h
      cases h
    | some source =>
      rw [hsource] at h
      dsimp only at h
      cases hbefore : n.routing.mNeighbors.lookup source with
      | some c₀ =>
        rw [hbefore] at h
        cases h
      | none =>
        rw [arrive] at h
        split_ifs at h
        · rcases onMessage_neighbors (K := K) H n channel data with
            hsame | ⟨m', source', hparse', hhello, hsource', hbound⟩
          · rw [hsame, hbefore] at h
            cases h
          · rw [hparse] at hparse'
            cases hparse'
            rw [hsource] at hsource'
            cases hsource'
            rw [hbound, hbefore, lookup_emplace_of_notMem _ (AList.lookup_eq_none.mp hbefore)] at h
            simp only [List.mem_singleton, Prod.mk.injEq] at h
            obtain ⟨rfl, rfl⟩ := h
            exact ⟨rfl, m, rfl, hhello, hsource⟩
        · rw [hbefore] at h
          cases h

theorem arrive_neighbors {channel c : Chan} {data : Binary} {id : Id}
    (h : (arrive K H n channel data).routing.mNeighbors.lookup id = some c) :
    n.routing.mNeighbors.lookup id = some c ∨
      (id, c) ∈ greets K H n (arrive K H n channel data) data := by
  cases hbefore : n.routing.mNeighbors.lookup id with
  | some c₀ =>
    left
    rw [arrive] at h
    split_ifs at h
    · rcases onMessage_neighbors (K := K) H n channel data with hsame | ⟨_, _, _, _, _, hbound⟩
      · rw [hsame, hbefore] at h
        exact h
      · rw [hbound, lookup_emplace_of_lookup hbefore] at h
        exact h
    · rw [hbefore] at h
      exact h
  | none =>
    right
    have hnew := h
    rw [arrive] at hnew
    split_ifs at hnew
    · rcases onMessage_neighbors (K := K) H n channel data with
        hsame | ⟨m, source, hparse, _, hsource, hbound⟩
      · rw [hsame, hbefore] at hnew
        cases hnew
      · rw [hbound, lookup_emplace, hbefore] at hnew
        split_ifs at hnew with hid
        obtain ⟨rfl, _⟩ := hid
        simp only [greets, hparse, hsource, hbefore, h, List.mem_singleton]
    · rw [hbefore] at hnew
      cases hnew

end Reception

/-- Hellos of honest nodes name no destination. -/
def Vouched (K : CryptoPP Id Pair Ecdh) (id : V → Id) (data : Binary) : Prop :=
  ∀ o m x, Message.parse K o data = .ok m → m.source = some (id x) →
    m.type = MessageType.Hello → m.destination = none

structure Honest [LinearOrder Id] (K : CryptoPP Id Pair Ecdh) (H : Host Id) (id : V → Id) (own : Id)
    (n : Node Id Pair Ecdh Chan) : Prop where
  sound : ∃ received pair ecdh, Sound K H pair ecdh received n ∧ K.publicKey pair = own ∧
    ∀ data ∈ received, Vouched K id data

structure Safe [LinearOrder Id] (K : CryptoPP Id Pair Ecdh) (net : Network V Id Chan) (id : V → Id)
    (w : World V Id Pair Ecdh Chan) : Prop where
  honest : ∀ v, Honest K (net.host v) id (id v) (w.nodes v)
  known : ∀ data ∈ w.known, Vouched K id data
  entries : ∀ v a c, (w.nodes v).routing.mNeighbors.lookup a = some c →
    (a, c) ∈ w.told v ∨ (a, c) ∈ w.greeted v
  greeted : ∀ v x c, (id x, c) ∈ w.greeted v →
    net.owner c = some v ∧ BoundTo K net (id x) x w.known c

section Invariants
variable [DecidableEq V] [LinearOrder Id] [DecidableEq Chan] {K : CryptoPP Id Pair Ecdh}
  {net : Network V Id Chan} {id : V → Id} {w : World V Id Pair Ecdh Chan} {H : Host Id} {own : Id}
  {n : Node Id Pair Ecdh Chan}

omit [DecidableEq V] [DecidableEq Chan] in
theorem honest_id (h : Honest K H id own n) : n.id K = own := by
  obtain ⟨received, pair, ecdh, hsound, hown, _⟩ := h.sound
  rw [Node.id, hsound.ecdsaPair, hown]

omit [DecidableEq V] [LinearOrder Id] [DecidableEq Chan] in
theorem parse_toBinary (hK : EcdsaLaws K) {o o' : ByteOrder} {m m' : Message Id} {data : Binary}
    (hbinary : m.toBinary K o = .ok data) (hparse : Message.parse K o' data = .ok m') : m' = m := by
  obtain ⟨hbody, rfl⟩ := (toBinary_ok_iff K o m data).mp hbinary
  rw [parse_frame hK o' m hbody, Message.checked] at hparse
  cases hsource : m.source with
  | none =>
    rw [hsource] at hparse
    exact (Except.ok.inj hparse).symm
  | some source =>
    rw [hsource] at hparse
    dsimp only at hparse
    split_ifs at hparse
    exact (Except.ok.inj hparse).symm

omit [DecidableEq V] [DecidableEq Chan] in
/-- A Hello of an honest node that an honest node has put on a channel is its own: those of
others are not passed on, naming no destination. -/
theorem honest_outbox (hK : EcdsaLaws K) (h : Honest K H id own n) {channel : Chan} {data : Binary}
    (hdata : data ∈ n.wire.outbox channel) {o : ByteOrder} {m : Message Id} {x : V}
    (hparse : Message.parse K o data = .ok m) (hsource : m.source = some (id x))
    (hhello : m.type = MessageType.Hello) : m.destination = none ∧ id x = own := by
  obtain ⟨received, pair, ecdh, hsound, hown, hvouched⟩ := h.sound
  obtain ⟨m', hbinary, hsendable⟩ := hsound.outbox channel data hdata
  obtain rfl := parse_toBinary hK hbinary hparse
  rcases hsendable with ⟨⟨_, received, hreceived, hauthentic⟩, hpassed⟩ | ⟨hsigned, hto⟩
  · have hnone := hvouched received hreceived _ m x hauthentic.parsed hsource hhello
    have hsome := hpassed hhello
    rw [hnone] at hsome
    cases hsome
  · refine ⟨hto hhello, ?_⟩
    rw [← hown]
    exact Option.some.inj (hsource.symm.trans hsigned.source)

omit [DecidableEq V] in
theorem honest_act (h : Honest K H id own n) {event : NodeEvent Id Chan}
    (hevent : event.data = []) :
    Honest K H id own (event.apply K H n) := by
  obtain ⟨received, pair, ecdh, hsound, hown, hvouched⟩ := h.sound
  refine ⟨received, pair, ecdh, ?_, hown, hvouched⟩
  have hstep := sound_event hsound event
  rw [hevent, List.append_nil] at hstep
  exact hstep

omit [DecidableEq V] in
theorem honest_arrive (h : Honest K H id own n) (channel : Chan) {data : Binary}
    (hdata : Vouched K id data) : Honest K H id own (arrive K H n channel data) := by
  obtain ⟨received, pair, ecdh, hsound, hown, hvouched⟩ := h.sound
  refine ⟨received ++ [data], pair, ecdh, ?_, hown, fun bytes hbytes => ?_⟩
  · rw [arrive]
    split_ifs
    · exact sound_onMessage hsound channel data
    · exact sound_mono data hsound
  · rcases List.mem_append.mp hbytes with hold | hnew
    · exact hvouched bytes hold
    · rw [List.mem_singleton.mp hnew]
      exact hdata

omit [DecidableEq V] in
theorem honest_pop (h : Honest K H id own n) (channel : Chan) :
    Honest K H id own { n with wire := n.wire.pop channel } := by
  obtain ⟨received, pair, ecdh, hsound, hown, hvouched⟩ := h.sound
  refine ⟨received, pair, ecdh, sound_wire hsound fun c data hdata => Or.inl ?_, hown, hvouched⟩
  simp only [Wire.pop, Function.update_apply] at hdata
  split_ifs at hdata with hc
  · subst hc
    exact List.mem_of_mem_tail hdata
  · exact hdata

omit [DecidableEq V] [LinearOrder Id] [DecidableEq Chan] in
theorem boundTo_mono {own : Id} {x : V} {known known' : List Binary} {c : Chan}
    (h : BoundTo K net own x known c) (hle : known ⊆ known') : BoundTo K net own x known' c := by
  rcases h with hremote | ⟨hremote, data, hdata, hhello⟩
  · exact Or.inl hremote
  · exact Or.inr ⟨hremote, data, hle hdata, hhello⟩

omit [DecidableEq Chan] in
theorem safe_update (h : Safe K net id w) (v : V) {n' : Node Id Pair Ecdh Chan}
    (hn : Honest K (net.host v) id (id v) n') (told greeted : List (Id × Chan))
    (hentries : ∀ a c, n'.routing.mNeighbors.lookup a = some c →
      (w.nodes v).routing.mNeighbors.lookup a = some c ∨ (a, c) ∈ told ∨ (a, c) ∈ greeted)
    (hgreeted : ∀ x c, (id x, c) ∈ greeted →
      net.owner c = some v ∧ BoundTo K net (id x) x w.known c) :
    Safe K net id { w with
      nodes := Function.update w.nodes v n'
      told := Function.update w.told v (w.told v ++ told)
      greeted := Function.update w.greeted v (w.greeted v ++ greeted) } := by
  constructor
  · intro u
    dsimp only
    by_cases hu : u = v
    · subst hu
      rw [Function.update_self]
      exact hn
    · rw [Function.update_of_ne hu]
      exact h.honest u
  · exact h.known
  · intro u a c hlookup
    dsimp only at hlookup ⊢
    by_cases hu : u = v
    · subst hu
      rw [Function.update_self] at hlookup
      rw [Function.update_self, Function.update_self, List.mem_append, List.mem_append]
      rcases hentries a c hlookup with hold | htold | hnew
      · exact (h.entries u a c hold).imp Or.inl Or.inl
      · exact Or.inl (Or.inr htold)
      · exact Or.inr (Or.inr hnew)
    · rw [Function.update_of_ne hu] at hlookup
      rw [Function.update_of_ne hu, Function.update_of_ne hu]
      exact h.entries u a c hlookup
  · intro u x c hmem
    dsimp only at hmem
    by_cases hu : u = v
    · subst hu
      rw [Function.update_self] at hmem
      rcases List.mem_append.mp hmem with hold | hnew
      · exact h.greeted u x c hold
      · exact hgreeted x c hnew
    · rw [Function.update_of_ne hu] at hmem
      exact h.greeted u x c hmem

theorem safe_act (h : Safe K net id w) (v : V) {event : NodeEvent Id Chan}
    (hevent : event.data = []) : Safe K net id (w.step K net (.act v event)) := by
  have hsafe := safe_update h v (honest_act (h.honest v) hevent) (tells event) []
    (fun a c hlookup =>
      (act_neighbors (net.host v) hevent hlookup).imp_right Or.inl)
    (fun x c hmem => by cases hmem)
  rw [List.append_nil, Function.update_eq_self] at hsafe
  exact hsafe

theorem safe_pop (h : Safe K net id w) (u : V) (channel : Chan) : Safe K net id { w with
    nodes := Function.update w.nodes u { w.nodes u with
      wire := (w.nodes u).wire.pop channel } } := by
  have hsafe := safe_update h u (honest_pop (h.honest u) channel) [] []
    (fun a c hlookup => Or.inl hlookup) (fun x c hmem => by cases hmem)
  rw [List.append_nil, Function.update_eq_self, List.append_nil, Function.update_eq_self] at hsafe
  exact hsafe

theorem safe_receive (h : Safe K net id w) {v : V} {c : Chan} (hc : net.owner c = some v)
    {data : Binary} (hdata : Vouched K id data)
    (horigin : ∀ x, HelloOf K (id x) data → BoundTo K net (id x) x w.known c) :
    Safe K net id (w.receive K net v c data) := by
  have hsafe := safe_update h v (honest_arrive (h.honest v) c hdata) []
    (greets K (net.host v) (w.nodes v) (arrive K (net.host v) (w.nodes v) c data) data)
    (fun a c' hlookup => (arrive_neighbors (net.host v) hlookup).imp_right Or.inr) ?_
  · rw [List.append_nil, Function.update_eq_self] at hsafe
    exact hsafe
  · intro x c' hmem
    obtain ⟨rfl, m, hparse, hhello, hsource⟩ := greets_hello (net.host v) hmem
    exact ⟨hc, horigin x ⟨_, m, hparse, hhello, hsource⟩⟩

theorem safe_deliver (hK : EcdsaLaws K) (hid : Function.Injective id) (h : Safe K net id w)
    (channel : Chan) : Safe K net id (w.step K net (.deliver channel)) := by
  rw [World.step]
  cases howner : net.owner channel with
  | none => exact h
  | some u =>
    dsimp only
    cases hout : (w.nodes u).wire.outbox channel with
    | nil => exact h
    | cons data rest =>
      have hdata : data ∈ (w.nodes u).wire.outbox channel := by
        rw [hout]
        exact List.mem_cons_self
      have hvouched : Vouched K id data := fun o m x hparse hsource hhello =>
        (honest_outbox hK (h.honest u) hdata hparse hsource hhello).1
      have hpop := safe_pop h u channel
      dsimp only
      cases hremote : net.remote channel with
      | none =>
        refine ⟨hpop.honest, fun bytes hbytes => ?_, hpop.entries, fun v x c hmem => ?_⟩
        · rcases List.mem_append.mp hbytes with hold | hnew
          · exact h.known bytes hold
          · rw [List.mem_singleton.mp hnew]
            exact hvouched
        · obtain ⟨hc, hbound⟩ := h.greeted v x c hmem
          exact ⟨hc, boundTo_mono hbound (List.subset_append_left _ _)⟩
      | some v =>
        refine safe_receive hpop hremote hvouched fun x hhello => Or.inl ?_
        obtain ⟨o, m, hparse, htype, hsource⟩ := hhello
        have hx := hid (honest_outbox hK (h.honest u) hdata hparse hsource htype).2
        rw [net.remote_peer, howner, hx]

theorem safe_step (hK : EcdsaLaws K) (hid : Function.Injective id) (h : Safe K net id w)
    {event : Event V Id Chan} (hevent : w.Possible K net event) :
    Safe K net id (w.step K net event) := by
  cases event with
  | act v event => exact safe_act h v hevent
  | deliver channel => exact safe_deliver hK hid h channel
  | inject channel data =>
    obtain ⟨howner, hdata⟩ := hevent
    rw [World.step]
    cases hremote : net.remote channel with
    | none => exact h
    | some v =>
      have hid : ∀ x, (w.nodes x).id K = id x := fun x => honest_id (h.honest x)
      have hvouched : Vouched K id data := by
        intro o m x hparse hsource hhello
        rcases hdata with hknown | hforeign
        · exact h.known data hknown o m x hparse hsource hhello
        · exact absurd (hid x ▸ hsource) (hforeign o m x hparse)
      refine safe_receive h hremote hvouched fun x hhello => Or.inr ⟨?_, data, ?_, hhello⟩
      · rw [net.remote_peer, howner]
      · rcases hdata with hknown | hforeign
        · exact hknown
        · obtain ⟨o, m, hparse, _, hsource⟩ := hhello
          exact absurd (hid x ▸ hsource) (hforeign o m x hparse)

omit [DecidableEq V] in
theorem created_neighbors (h : Created K H n) : n.routing.mNeighbors = ∅ := by
  obtain ⟨n₀, mEcdh, hrouting, _, _, hrun⟩ := h.constructed
  have hkept : links (final (Graph.construct K H mEcdh n₀)) = links n₀ :=
    GraphInvariants.construct_keeps (LocalLinks.links_withstands H) rfl
  rw [hrun] at hkept
  have hneighbors : n.routing.mNeighbors = n₀.routing.mNeighbors := congrArg Prod.snd hkept
  rw [hneighbors, hrouting]
  rfl

theorem reachable_safe (hK : EcdsaLaws K) {w₀ : World V Id Pair Ecdh Chan} (h₀ : Start K net w₀)
    (h : Reachable K net w₀ w) : Safe K net (fun v => (w₀.nodes v).id K) w := by
  induction h with
  | start =>
    refine ⟨fun v => ⟨[], _, _, created_sound (h₀.created v), rfl, fun data hdata => ?_⟩,
      fun data hdata => ?_, fun v a c hlookup => ?_, fun v x c hmem => ?_⟩
    · cases hdata
    · rw [h₀.known] at hdata
      cases hdata
    · rw [created_neighbors (h₀.created v)] at hlookup
      cases hlookup
    · rw [h₀.greeted] at hmem
      cases hmem
  | step _ hevent ih => exact safe_step hK h₀.identities ih hevent

/-- In every reachable state: the neighbours of an honest node are those that its own calls
of `addNeighbor` asked for and those that a received Hello has made. A binding that a Hello
has made for an honest node is to a channel whose far side is that node, or belongs to the
adversary, who has received a Hello of it. -/
theorem neighbor_bindings (hK : EcdsaLaws K) {w₀ : World V Id Pair Ecdh Chan} (h₀ : Start K net w₀)
    (h : Reachable K net w₀ w) (v : V) :
    (∀ a channel, (w.nodes v).routing.mNeighbors.lookup a = some channel →
      (a, channel) ∈ w.told v ∨ (a, channel) ∈ w.greeted v) ∧
    ∀ x channel, ((w.nodes x).id K, channel) ∈ w.greeted v →
      net.owner channel = some v ∧ BoundTo K net ((w.nodes x).id K) x w.known channel := by
  have hsafe := reachable_safe hK h₀ h
  refine ⟨hsafe.entries v, fun x channel hgreeted => ?_⟩
  have hid : (w.nodes x).id K = (w₀.nodes x).id K := honest_id (hsafe.honest x)
  rw [hid] at hgreeted ⊢
  exact hsafe.greeted v x channel hgreeted

end Invariants

-- Nodes 1 and 2 have one channel each, to the adversary, who passes node 1's Hello on.
namespace Sample
open LegioNode.Sample (host)
open PublishedTable.Sample (started created)

abbrev crypto := LegioCrypto.Sample.crypto

def net : Network Bool (Fin 4) ℕ where
  owner
    | 0 => some false
    | 3 => some true
    | _ => none
  peer c := if c % 2 = 0 then c + 1 else c - 1
  peer_peer c := by
    split_ifs <;> omega
  host _ := host

def before : World Bool (Fin 4) (Fin 4) (Fin 4) ℕ where
  nodes v := started (if v then 2 else 1)
  known := []
  told _ := []
  greeted _ := []

def greeting : List (Event Bool (Fin 4) ℕ) :=
  [.act false (.addChannel 0), .act true (.addChannel 3), .act false .update, .deliver 0]

def overheard : World Bool (Fin 4) (Fin 4) (Fin 4) ℕ :=
  greeting.foldl (World.step crypto net) before

def relayed : World Bool (Fin 4) (Fin 4) (Fin 4) ℕ :=
  overheard.step crypto net (.inject 2 (overheard.known.headD []))

theorem before_start : Start crypto net before where
  created v := by
    cases v with
    | false => exact created 1
    | true => exact created 2
  identities := by decide +kernel
  known := rfl
  told _ := rfl
  greeted _ := rfl

theorem relayed_reachable : Reachable crypto net before relayed := by
  have hlocal : ∀ {w : World Bool (Fin 4) (Fin 4) (Fin 4) ℕ} (v : Bool)
      (event : NodeEvent (Fin 4) ℕ),
      Reachable crypto net before w → event.data = [] →
        Reachable crypto net before (w.step crypto net (.act v event)) :=
    fun v event h hevent => .step h hevent
  have hgreeted := hlocal false .update
    (hlocal true (.addChannel 3) (hlocal false (.addChannel 0) .start rfl) rfl) rfl
  have hdelivered : ∀ {w : World Bool (Fin 4) (Fin 4) (Fin 4) ℕ} (channel : ℕ),
      Reachable crypto net before w →
        Reachable crypto net before (w.step crypto net (.deliver channel)) :=
    fun channel h => .step h trivial
  have hoverheard : Reachable crypto net before overheard := hdelivered 0 hgreeted
  have hknown : overheard.known.headD [] ∈ overheard.known := by decide +kernel
  exact .step hoverheard ⟨rfl, Or.inl hknown⟩

/-- Node 2 takes the adversary's channel for one to node 1. -/
theorem relayed_hello_binds : ∃ w, Reachable crypto net before w ∧ Start crypto net before ∧
    (w.nodes false).id crypto = 1 ∧ (w.nodes true).routing.mNeighbors.lookup 1 = some 3 ∧
      (1, 3) ∈ w.greeted true ∧ w.told true = [] ∧ net.remote 3 ≠ some false := by
  refine ⟨relayed, relayed_reachable, before_start, ?_⟩
  decide +kernel

theorem relayed_binding : BoundTo crypto net 1 false relayed.known 3 := by
  have hgreeted : ((relayed.nodes false).id crypto, 3) ∈ relayed.greeted true := by decide +kernel
  have hid : (relayed.nodes false).id crypto = 1 := by decide +kernel
  have hbound := (neighbor_bindings LegioCrypto.Sample.ecdsaLaws before_start relayed_reachable
    true).2 false 3 hgreeted
  rw [hid] at hbound
  exact hbound.2

end Sample

end NeighborBindings
