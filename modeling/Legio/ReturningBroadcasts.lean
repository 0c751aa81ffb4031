import Legio.BroadcastDelivery
import Legio.FloodingTrails

set_option linter.style.header false

/-! Whether a broadcast comes back to the node that made it. A node has no entry of its own
in its replay filter, so the answer is a matter of the topology alone. -/
namespace ReturningBroadcasts

open LegioBinary LegioCrypto LegioMessage LegioNode Containers ExceptionStates
open ChannelTopology NodeNetwork TransportSteps BroadcastDelivery FloodingTrails
open SequencedFlooding (others)

variable {V Id Pair Ecdh Chan : Type} [DecidableEq V] [LinearOrder Id] [DecidableEq Chan]

/-- Node `x` was not called back with a broadcast of its own, and no copy of one is on a
channel to it, from where alone it could flood it once more. -/
structure NeverBack (K : CryptoPP Id Pair Ecdh) (net : Network V Id Chan) (own : Id) (x : V)
    (σ : Nodes V Id Pair Ecdh Chan) : Prop where
  callback : acceptedFrom (σ x) own = []
  flight : ∀ c, net.remote c = x → ∀ data ∈ inFlight net σ c, ∀ o m,
    Message.parse K o data = .ok m → m.source = some own → m.destination.isSome = true

/-- What `NeverBack` says, of the messages behind the bytes. -/
def Away (net : Network V Id Chan) (own : Id) (x : V) (messages : Chan → List (Message Id)) :
    Prop :=
  ∀ c, net.remote c = x → ∀ m ∈ messages c, m.source = some own → m.destination.isSome = true

/-- Every broadcast of `x` in flight has come on a way from `x` without turning back. -/
def Wandering (net : Network V Id Chan) (own : Id) (x : V) (messages : Chan → List (Message Id)) :
    Prop :=
  ∀ c, ∀ m ∈ messages c, m.source = some own → m.destination = none → Wander net.toCabling x c

section Steps
variable {K : CryptoPP Id Pair Ecdh} {net : Network V Id Chan} {id : V → Id} {x y : V}
  {σ σ' : Nodes V Id Pair Ecdh Chan} {messages messages' : Chan → List (Message Id)}

omit [DecidableEq V] [DecidableEq Chan] in
theorem away_never_back (hK : EcdsaLaws K) (h : Consistent K net id σ messages) {own : Id}
    (haway : Away net own x messages) (hcallback : acceptedFrom (σ x) own = []) :
    NeverBack K net own x σ := by
  refine ⟨hcallback, fun c hc data hdata o m hparse hsource => ?_⟩
  rw [h.outbox, List.mem_map] at hdata
  obtain ⟨m', hm', rfl⟩ := hdata
  obtain ⟨_, pair, _, hsigned⟩ := (h.carried c m' hm').author
  rw [frame, parse_signed hK o hsigned] at hparse
  cases hparse
  exact haway c hc m hm' hsource

omit [DecidableEq Chan] in
theorem acceptedFrom_congr {n n' : Node Id Pair Ecdh Chan}
    (h : n'.userTransport.delivered = n.userTransport.delivered) (a : Id) :
    acceptedFrom n' a = acceptedFrom n a := by
  rw [acceptedFrom, h, acceptedFrom]

theorem broadcast_accepted {H : Host Id} {n n' : Node Id Pair Ecdh Chan}
    (h : TransportSteps.Broadcast K H n n') (a : Id) : acceptedFrom n' a = acceptedFrom n a := by
  cases h with
  | spent => exact acceptedFrom_congr rfl a
  | flooded m made hto => exact acceptedFrom_congr rfl a

theorem sent_accepted {n n' : Node Id Pair Ecdh Chan} (h : Sent K n n') (a : Id) :
    acceptedFrom n' a = acceptedFrom n a := by
  cases h with
  | refused => rfl
  | spent => exact acceptedFrom_congr rfl a
  | dropped m d made hto => exact acceptedFrom_congr rfl a
  | forwarded m d channel made hto hroute hopen => exact acceptedFrom_congr rfl a
  | returned m made hto payloads =>
    refine acceptedFrom_append rfl (Or.inr ?_)
    rw [hto]
    rfl

omit [LinearOrder Id] in
theorem popAt_userTransport (c : Chan) (v : V) :
    (popAt net σ c v).userTransport = (σ v).userTransport := by
  rw [popAt, Function.update_apply]
  split_ifs with hv
  · subst hv
    rfl
  · rfl

theorem delivered_accepted {c : Chan} (haway : Away net (id x) x messages)
    (h : Delivered K net id σ messages c σ' messages') :
    acceptedFrom (σ' x) (id x) = acceptedFrom (σ x) (id x) := by
  cases h with
  | nothing => rfl
  | first m rest y fresh pair n' hhead hpair hm hcarried hr =>
    rw [acceptedFrom_congr (congrArg Transport.delivered (popAt_userTransport c x))]
    by_cases hx : x = net.remote c
    · subst hx
      rw [Function.update_self]
      by_cases hxy : id (net.remote c) = id y
      · have hsome : m.destination.isSome = true := by
          apply haway c rfl m (by rw [hhead]; exact List.mem_cons_self)
          rw [hm.source, hpair, hxy]
        have hdirect : ¬ (fresh = true ∧ m.destination.isNone = true) := by
          rintro ⟨_, hnone⟩
          rw [Option.isNone_iff_eq_none] at hnone
          rw [hnone] at hsome
          cases hsome
        rw [hxy, hr.accepted, if_neg hdirect, List.append_nil]
      · exact hr.accepted_other _ hxy
    · rw [Function.update_of_ne hx]

theorem action_accepted (hK : EcdsaLaws K) (h : Consistent K net id σ messages)
    (haway : Away net (id x) x messages) (action : Action V Id Chan) :
    acceptedFrom (action.apply K net σ x) (id x) = acceptedFrom (σ x) (id x) := by
  cases action with
  | broadcast v payload =>
    rw [Action.apply, Function.update_apply]
    split_ifs with hx
    · subst hx
      exact broadcast_accepted (broadcast_cases (net.host x) (σ x) payload) _
    · rfl
  | send v remoteId payload random =>
    rw [Action.apply, Function.update_apply]
    split_ifs with hx
    · subst hx
      exact sent_accepted (send_cases (net.host x) (h.typed x) remoteId payload random) _
    · rfl
  | deliver c =>
    obtain ⟨messages', hdelivered, _⟩ := deliver_cases hK h c
    exact delivered_accepted haway hdelivered

omit [DecidableEq V] [DecidableEq Chan] in
theorem emission_wandering (h : Consistent K net id σ messages) (hid : Function.Injective id)
    (hw : Wandering net (id x) x messages) {n' : Node Id Pair Ecdh Chan}
    {content : Option (Message Id)} {targets : Chan → Bool} {m : Message Id}
    (he : Emission K net id y (σ y) n' content targets m) :
    Wandering net (id x) x (push messages targets m) := by
  intro c m' hm' hsource hto
  rcases mem_push.mp hm' with hold | ⟨htarget, rfl⟩
  · exact hw c m' hold hsource hto
  · have hauthor := (he.made c htarget).1.signed.source
    rw [hsource, Option.some.injEq] at hauthor
    have hxy : x = y := hid (hauthor.trans (h.identity y))
    exact .start c ((he.own c htarget).trans hxy.symm)

theorem delivered_wandering {c : Chan} (hw : Wandering net (id x) x messages)
    (h : Delivered K net id σ messages c σ' messages') : Wandering net (id x) x messages' := by
  cases h with
  | nothing => exact hw
  | first m rest y fresh pair n' hhead hpair hm hcarried hr =>
    have hpushed : Wandering net (id x) x (push messages (passed net c m fresh) m) := by
      intro c' m' hm' hsource hto
      rcases mem_push.mp hm' with hold | ⟨hpassed, rfl⟩
      · exact hw c' m' hold hsource hto
      · have hway := hw c m' (by rw [hhead]; exact List.mem_cons_self) hsource hto
        simp only [passed, others, Bool.and_eq_true, decide_eq_true_eq] at hpassed
        exact .next c c' hway hpassed.2.1 hpassed.2.2
    intro c' m' hm'
    by_cases hc : c' = c
    · subst hc
      rw [Function.update_self] at hm'
      exact hpushed c' m' (List.mem_of_mem_tail hm')
    · rw [Function.update_of_ne hc] at hm'
      exact hpushed c' m' hm'

theorem action_wandering (hK : EcdsaLaws K) (h : Consistent K net id σ messages)
    (hid : Function.Injective id) (hw : Wandering net (id x) x messages)
    (action : Action V Id Chan) :
    ∃ messages', Consistent K net id (action.apply K net σ) messages' ∧
      Wandering net (id x) x messages' := by
  cases action with
  | broadcast v payload =>
    obtain ⟨content, targets, m, he⟩ :=
      broadcast_emission h (net.host v) (broadcast_cases (net.host v) (σ v) payload)
    exact ⟨_, emission_consistent h he, emission_wandering h hid hw he⟩
  | send v remoteId payload random =>
    rcases sent_emission h (send_cases (net.host v) (h.typed v) remoteId payload random) with
      hrefused | ⟨content, targets, m, he⟩
    · rw [Action.apply, hrefused, Function.update_eq_self]
      exact ⟨messages, h, hw⟩
    · exact ⟨_, emission_consistent h he, emission_wandering h hid hw he⟩
  | deliver c =>
    obtain ⟨messages', hdelivered, hconsistent⟩ := deliver_cases hK h c
    exact ⟨messages', hconsistent, delivered_wandering hw hdelivered⟩

end Steps

section Runs
variable {K : CryptoPP Id Pair Ecdh} {net : Network V Id Chan} {σ : Nodes V Id Pair Ecdh Chan}
  {x : V}

theorem run_append (actions : List (Action V Id Chan)) (action : Action V Id Chan) :
    run K net σ (actions ++ [action]) = action.apply K net (run K net σ actions) := by
  rw [run, List.foldl_append]
  rfl

theorem run_never_back (hK : EcdsaLaws K) (h : Started K net σ) (actions : List (Action V Id Chan))
    (haway : ∀ past, past <+: actions → ∃ messages,
      Consistent K net (fun v => (σ v).id K) (run K net σ past) messages ∧
        Away net ((σ x).id K) x messages) :
    NeverBack K net ((σ x).id K) x (run K net σ actions) := by
  have hcallback : acceptedFrom (run K net σ actions x) ((σ x).id K) = [] := by
    induction actions using List.reverseRecOn with
    | nil =>
      obtain ⟨start, huser⟩ := h.user x
      change acceptedFrom (σ x) _ = []
      rw [acceptedFrom, huser]
      rfl
    | append_singleton actions action ih =>
      have hpast := List.prefix_append actions [action]
      obtain ⟨messages, hc, hpresent⟩ := haway actions hpast
      rw [run_append, action_accepted hK hc hpresent]
      exact ih fun past hp => haway past (hp.trans hpast)
  obtain ⟨messages, hc, hpresent⟩ := haway actions List.prefix_rfl
  exact away_never_back hK hc hpresent hcallback

theorem run_wandering (hK : EcdsaLaws K) (h : Started K net σ)
    (actions : List (Action V Id Chan)) : ∃ messages,
      Consistent K net (fun v => (σ v).id K) (run K net σ actions) messages ∧
        Wandering net ((σ x).id K) x messages := by
  induction actions using List.reverseRecOn with
  | nil => exact ⟨fun _ => [], started_consistent h, fun c m hm => by cases hm⟩
  | append_singleton actions action ih =>
    obtain ⟨messages, hc, hw⟩ := ih
    rw [run_append]
    exact action_wandering hK hc h.identities hw action

/-- Where no way out of `x` leads back, no run of any length brings a broadcast back. -/
theorem no_way_back (hK : EcdsaLaws K) (h : Started K net σ)
    (hx : ∀ c, Wander net.toCabling x c → net.remote c ≠ x) (actions : List (Action V Id Chan)) :
    NeverBack K net ((σ x).id K) x (run K net σ actions) := by
  apply run_never_back hK h actions
  intro past _
  obtain ⟨messages, hc, hw⟩ := run_wandering (x := x) hK h past
  refine ⟨messages, hc, fun c hremote m hm hsource => ?_⟩
  cases hto : m.destination with
  | some d => rfl
  | none => exact absurd hremote (hx c (hw c m hm hsource hto))

omit [LinearOrder Id] [DecidableEq Chan] in
theorem sendsOf_past {past actions : List (Action V Id Chan)} (h : past <+: actions) (y : V) :
    sendsOf y past ≤ sendsOf y actions := h.sublist.countP_le

theorem no_cycle_back (hK : EcdsaLaws K) (h : Started K net σ) (hx : ¬ OnCycle net.toCabling x)
    (actions : List (Action V Id Chan)) (hlimit : ∀ y, sendsOf y actions < sendLimit) :
    NeverBack K net ((σ x).id K) x (run K net σ actions) := by
  apply run_never_back hK h actions
  intro past hpast
  obtain ⟨messages, hc, htracked⟩ := run_refines hK h past
    fun y => Nat.lt_of_le_of_lt (sendsOf_past hpast y) (hlimit y)
  obtain ⟨a, hreach, hs, _⟩ := htracked x
  refine ⟨messages, hc, fun c hremote m hm hsource => ?_⟩
  cases hto : m.destination with
  | some d => rfl
  | none =>
    obtain ⟨_, pair, _, hsigned⟩ := (hc.carried c m hm).author
    have hpair : K.publicKey pair = (σ x).id K :=
      Option.some.inj (hsigned.source.symm.trans hsource)
    have hpacket := packet_own hsigned hpair (σ x).userTransport.mSendSequence
    have hqueued := List.mem_filterMap.mpr ⟨m, hm, hpacket⟩
    rw [← hs.queue] at hqueued
    have hcontent := no_return hreach hx hremote hqueued
    rw [hto] at hcontent
    cases hcontent

/-- Message `m` of node `x` has gone along a trail; the other nodes know nothing yet. -/
structure Underway (K : CryptoPP Id Pair Ecdh) (net : Network V Id Chan)
    (σ₀ : Nodes V Id Pair Ecdh Chan) (x : V) (m : Message Id) (visited : List V)
    (σ : Nodes V Id Pair Ecdh Chan) (messages : Chan → List (Message Id)) : Prop where
  consistent : Consistent K net (fun v => (σ₀ v).id K) σ messages
  unknown : ∀ v, v ∉ visited →
    (σ v).userTransport.mSequences.lookup ((σ₀ x).id K) = none
  empty : ∀ c, net.owner c ≠ x → net.owner c ∉ visited → messages c = []

def along (x : V) (channels : List Chan) : List (Action V Id Chan) :=
  .broadcast x [] :: channels.map .deliver

theorem run_along (channels : List Chan) (c : Chan) :
    run K net σ (along x (channels ++ [c])) =
      NodeNetwork.deliver K net (run K net σ (along x channels)) c := by
  rw [along, List.map_append, ← List.cons_append]
  exact run_append _ _

theorem underway_deliver (hK : EcdsaLaws K) {σ₀ : Nodes V Id Pair Ecdh Chan} {m : Message Id}
    {visited : List V} {messages : Chan → List (Message Id)} {c : Chan}
    (hidentities : Function.Injective fun v => (σ₀ v).id K)
    (h : Underway K net σ₀ x m visited σ messages) (hqueue : messages c = [m])
    (hsource : m.source = some ((σ₀ x).id K)) (hto : m.destination = none)
    (hfresh : net.remote c ∉ visited) :
    ∃ messages', Consistent K net (fun v => (σ₀ v).id K) (NodeNetwork.deliver K net σ c) messages' ∧
      (∀ v, v ≠ net.remote c → (NodeNetwork.deliver K net σ c v).userTransport =
        (σ v).userTransport) ∧
      acceptedFrom (NodeNetwork.deliver K net σ c (net.remote c)) ((σ₀ x).id K) =
        acceptedFrom (σ (net.remote c)) ((σ₀ x).id K) ++ [m] ∧
      ∀ c', c' ≠ c → messages' c' =
        push messages (others net.toCabling (net.remote c) (net.peer c)) m c' := by
  obtain ⟨messages', hdelivered, hc⟩ := deliver_cases hK h.consistent c
  refine ⟨messages', hc, ?_⟩
  generalize NodeNetwork.deliver K net σ c = σ' at hdelivered hc
  cases hdelivered with
  | nothing hempty =>
    rw [hqueue] at hempty
    cases hempty
  | first m' rest y fresh pair n' hhead hpair hm hcarried hr =>
    rw [hqueue, List.cons.injEq] at hhead
    obtain ⟨rfl, rfl⟩ := hhead
    have hxy : x = y := by
      apply hidentities
      exact (Option.some.inj (hsource.symm.trans hm.source)).trans hpair
    subst hxy
    have haccepted : fresh = true := by
      have hcheck := hr.check
      rw [Transport.checkSequence, h.unknown _ hfresh] at hcheck
      exact hcheck.symm
    subst haccepted
    refine ⟨fun v hv => ?_, ?_, fun c' hc' => ?_⟩
    · rw [popAt_userTransport, Function.update_of_ne hv]
    · rw [acceptedFrom_congr (congrArg Transport.delivered (popAt_userTransport c _)),
        Function.update_self, hr.accepted, hto]
      rfl
    · rw [Function.update_of_ne hc']
      have htargets : passed net c m true = others net.toCabling (net.remote c) (net.peer c) := by
        funext c''
        rw [passed, hto]
        rfl
      rw [htargets]

theorem trail_underway (hK : EcdsaLaws K) (h : Started K net σ) {m : Message Id}
    (hsource : m.source = some ((σ x).id K)) (hto : m.destination = none)
    (hfirst : ∃ messages, Underway K net σ x m [] (run K net σ (along x [])) messages ∧
      ∀ c, net.owner c = x → messages c = [m])
    {visited : List V} {c : Chan} (htrail : Trail net.toCabling x visited c) :
    ∃ channels messages, Underway K net σ x m visited (run K net σ (along x channels)) messages ∧
      messages c = [m] := by
  induction htrail with
  | start c owner =>
    obtain ⟨messages, hunderway, hqueues⟩ := hfirst
    exact ⟨[], messages, hunderway, hqueues c owner⟩
  | next visited c c' way away fresh owner turn ih =>
    obtain ⟨channels, messages, hunderway, hqueue⟩ := ih
    obtain ⟨messages', hc, hothers, _, hqueues⟩ :=
      underway_deliver hK h.identities hunderway hqueue hsource hto fresh
    have hpast : net.owner c = x ∨ net.owner c ∈ visited := by
      by_contra hnot
      rw [not_or] at hnot
      have hempty := hunderway.empty c hnot.1 hnot.2
      rw [hqueue] at hempty
      cases hempty
    have hne : ∀ c'', net.owner c'' ≠ x → net.owner c'' ∉ visited → c'' ≠ c := by
      rintro c'' hx hvisited rfl
      exact hpast.elim hx hvisited
    refine ⟨channels ++ [c], messages', ?_, ?_⟩
    · rw [run_along]
      refine ⟨hc, fun v hv => ?_, fun c'' hx hvisited => ?_⟩
      · rw [List.mem_cons, not_or] at hv
        rw [hothers v hv.1]
        exact hunderway.unknown v hv.2
      · rw [List.mem_cons, not_or] at hvisited
        rw [hqueues c'' (hne c'' hx hvisited.2), push_of_not]
        · exact hunderway.empty c'' hx hvisited.2
        · simp [others, hvisited.1]
    · have howner' : net.owner c' ∉ visited := owner ▸ fresh
      have haway' : net.owner c' ≠ x := owner ▸ away
      have htarget : others net.toCabling (net.remote c) (net.peer c) c' = true :=
        decide_eq_true ⟨owner, turn⟩
      rw [hqueues c' (hne c' haway' howner'), push, if_pos htarget,
        hunderway.empty c' haway' howner', List.nil_append]

omit [LinearOrder Id] [DecidableEq Chan] in
theorem sendsOf_along (y : V) (channels : List Chan) :
    sendsOf y (along x channels : List (Action V Id Chan)) ≤ 1 := by
  have hdeliveries : (channels.map Action.deliver : List (Action V Id Chan)).countP
      (Action.sends y) = 0 := by
    rw [List.countP_eq_zero]
    intro action haction
    obtain ⟨c, _, rfl⟩ := List.mem_map.mp haction
    exact Bool.false_ne_true
  rw [sendsOf, along, List.countP_cons, hdeliveries]
  split_ifs
  · exact Nat.le_refl 1
  · exact Nat.zero_le 1

/-- On a cycle, the broadcast may come back and is then handed to its own sender. -/
theorem cycle_returns (hK : EcdsaLaws K) (h : Started K net σ) (hx : OnCycle net.toCabling x) :
    ∃ actions, (∀ y, sendsOf y actions < sendLimit) ∧
      acceptedFrom (run K net σ actions x) ((σ x).id K) ≠ [] := by
  obtain ⟨visited, c, htrail, hremote⟩ := hx
  have hc := started_consistent h
  have hempty : ([] : Binary).length ≤ uint16Max := Nat.zero_le _
  obtain ⟨m, hmade, hto, _, hrun⟩ := broadcast_flooded (K := K) (net.host x) (σ x) hempty
  have hemission := flooded_emission hc (net.host x).byteOrder hmade hto
  have hfirst : ∃ messages, Underway K net σ x m [] (run K net σ (along x [])) messages ∧
      ∀ c, net.owner c = x → messages c = [m] := by
    have hstate : run K net σ (along x []) = Function.update σ x { issue (σ x) m with
        wire := (σ x).routing.broadcast K (net.host x).byteOrder (σ x).wire m none } := by
      change Function.update σ x (final (Transport.broadcast K (net.host x) .user [] (σ x))) = _
      rw [hrun]
    rw [hstate]
    refine ⟨_, ⟨emission_consistent hc hemission, fun v _ => ?_, fun c hne _ => ?_⟩,
      fun c howner => ?_⟩
    · obtain ⟨start, huser⟩ := h.user v
      rw [Function.update_apply]
      split_ifs with hv
      · subst hv
        change (σ v).userTransport.mSequences.lookup _ = none
        rw [huser]
        rfl
      · rw [huser]
        rfl
    · exact push_of_not m (by simp [hne])
    · exact if_pos (decide_eq_true howner)
  obtain ⟨channels, messages, hunderway, hqueue⟩ :=
    trail_underway hK h hmade.signed.source hto hfirst htrail
  refine ⟨along x (channels ++ [c]), fun y => ?_, ?_⟩
  · have hone : sendsOf y (along x (channels ++ [c]) : List (Action V Id Chan)) ≤ 1 :=
      sendsOf_along y (channels ++ [c])
    rw [sendLimit]
    omega
  · obtain ⟨_, _, _, haccepted, _⟩ := underway_deliver hK h.identities hunderway hqueue
      hmade.signed.source hto (hremote ▸ trail_away htrail)
    rw [hremote] at haccepted
    rw [run_along, haccepted]
    exact List.append_ne_nil_of_right_ne_nil _ (List.cons_ne_nil m [])

/-- A network decides by the topology around `x` whether its broadcasts may come back: in all
runs inside the window of the filter they stay away exactly if `x` lies on no cycle, and
without any bound on the run they do if no way out of `x` leads back without turning. -/
theorem returning_broadcasts (hK : EcdsaLaws K) (h : Started K net σ) (x : V) :
    ((∀ actions, (∀ y, sendsOf y actions < sendLimit) →
        NeverBack K net ((σ x).id K) x (run K net σ actions)) ↔ ¬ OnCycle net.toCabling x) ∧
    ((∀ c, Wander net.toCabling x c → net.remote c ≠ x) → ∀ actions,
      NeverBack K net ((σ x).id K) x (run K net σ actions)) := by
  refine ⟨⟨fun hback hx => ?_, fun hx actions hlimit => no_cycle_back hK h hx actions hlimit⟩,
    fun hx actions => no_way_back hK h hx actions⟩
  obtain ⟨actions, hlimit, hreturned⟩ := cycle_returns hK h hx
  exact hreturned (hback actions hlimit).callback

end Runs

-- Node 0 of the triangle gets its own broadcast back and floods it once more. On a line of
-- three nodes it does not.
namespace Sample
open BroadcastDelivery.Sample (crypto triangle started_nodes nodes)

theorem triangle_returns : Started crypto triangle nodes ∧
    (acceptedFrom (run crypto triangle nodes (along 0 [0, 2, 4]) 0) 0).length = 1 ∧
      inFlight triangle (run crypto triangle nodes (along 0 [0, 2])) 0 = [] ∧
      (inFlight triangle (run crypto triangle nodes (along 0 [0, 2, 4])) 0).length = 1 :=
  ⟨started_nodes, by decide +kernel, by decide +kernel, by decide +kernel⟩

def line : Network (Fin 3) (Fin 4) (Fin 4) where
  owner := ![0, 1, 1, 2]
  peer := ![1, 0, 3, 2]
  peer_peer := by decide
  host _ := LegioNode.Sample.host

def lineNodes (v : Fin 3) : Node (Fin 4) (Fin 4) (Fin 4) (Fin 4) where
  ecdsaPair := v.castSucc
  wire := ⟨fun _ => true, fun _ => []⟩
  routing := { Routing.initial with mChannels := ![{0}, {1, 2}, {3}] v }
  graph := emptyGraph v.castSucc v.castSucc
  signaling := .initial MessageType.Signaling 0
  userTransport := .initial MessageType.User 0

theorem started_line : Started crypto line lineNodes where
  identities := Fin.castSucc_injective 3
  channels := by decide
  isOpen _ := rfl
  leads v _ _ h := by cases h
  quiet _ := rfl
  signaling _ := rfl
  user v := ⟨0, rfl⟩

theorem line_ways {c : Fin 4} (h : Wander line.toCabling 0 c) : c = 0 ∨ c = 2 := by
  induction h with
  | start c owner =>
    revert owner
    revert c
    decide
  | next c c' way owner turn ih =>
    rcases ih with rfl | rfl
    · revert owner turn
      revert c'
      decide
    · revert owner turn
      revert c'
      decide

theorem line_stays_away :
    NeverBack crypto line 0 0 (run crypto line lineNodes (along 0 [0, 2])) := by
  refine (returning_broadcasts LegioCrypto.Sample.ecdsaLaws started_line 0).2 (fun c hway => ?_) _
  rcases line_ways hway with rfl | rfl <;> decide

end Sample

end ReturningBroadcasts
