import Legio.FailedInserts
import Legio.LinkStateSteps
import Legio.RoutingLinks

set_option linter.style.header false

/-! What a message of another node does to a node with any number of neighbours. A node with
too many of them does not get its announcements out, and each attempt costs it a number. -/
namespace StateReceptions

open LegioBinary LegioCrypto LegioMessage LegioNode Containers RoutingTableSearch
open ExceptionStates LinkStateStore GraphUpdates GraphRuns LocalLinks
open TransportSteps MessageRelay LinkStateSteps FailedInserts RoutingTableCompleteness
open GraphInvariants (keeps_insert keeps_notifyNeighbor)

variable {Id Pair Ecdh Chan : Type} [LinearOrder Id]

/-- The number of the State that is stored for a node, counted from one; 0 if there is none. -/
def heard (n : Node Id Pair Ecdh Chan) (id : Id) : ℕ :=
  (n.graph.stateOf id).elim 0 fun s => s.sequence.toNat + 1

/-- The State numbers of a node have not wrapped around. -/
def Sparse (n : Node Id Pair Ecdh Chan) : Prop :=
  n.graph.mStateSequence.toNat < broadcastLimit

instance (n : Node Id Pair Ecdh Chan) : Decidable (Sparse n) :=
  inferInstanceAs (Decidable (_ < _))

structure Ready (K : CryptoPP Id Pair Ecdh) (n : Node Id Pair Ecdh Chan) : Prop where
  prepared : Prepared K n
  older : heard n (n.id K) ≤ n.graph.mStateSequence.toNat
  sparse : Sparse n

variable [DecidableEq Chan]

/-- An announcement that did not get out. -/
structure Balks (s : State Id) (n n' : Node Id Pair Ecdh Chan) : Prop where
  kept : Kept n n'
  outbox : n'.wire.outbox = n.wire.outbox
  stored : n'.graph.stateOf = n.graph.stateOf ∨
    n'.graph.stateOf = Function.update n.graph.stateOf s.id (some s)

inductive Outcome (K : CryptoPP Id Pair Ecdh) (n : Node Id Pair Ecdh Chan) (s : State Id)
    (m : Message Id) (channel : Chan) : Node Id Pair Ecdh Chan → Prop where
  | dropped : Outcome K n s m channel n
  | accepted {n'} : s.id ≠ n.id K → heard n s.id < s.sequence.toNat + 1 →
      Accepts K s m channel n n' → Outcome K n s m channel n'
  | answered {n₁ n'} (s₁ : State Id) (m₁ : Message Id) : s.id ≠ n.id K → heard n s.id = 0 →
      Announces K s₁ m₁ n n₁ → Accepts K s m channel n₁ n' → Outcome K n s m channel n'
  | refused {n'} : s.id ≠ n.id K → heard n s.id < s.sequence.toNat + 1 → Balks s n n' →
      Outcome K n s m channel n'

inductive Greeting (K : CryptoPP Id Pair Ecdh) (n : Node Id Pair Ecdh Chan) :
    Node Id Pair Ecdh Chan → Prop where
  | silent {n'} : Kept n n' → n'.wire.outbox = n.wire.outbox →
      n'.graph.stateOf = n.graph.stateOf → Greeting K n n'
  | announced {n'} (s : State Id) (m : Message Id) : Announces K s m n n' → Greeting K n n'

variable {K : CryptoPP Id Pair Ecdh} (H : Host Id) {m : Message Id} {pair : Pair}
  {n n' n₁ : Node Id Pair Ecdh Chan} {s c : State Id} {channel : Chan} {a : Id}

section Numbers

omit [DecidableEq Chan] in
theorem heard_of_stored (hc : n.graph.stateOf a = some c) : heard n a = c.sequence.toNat + 1 := by
  rw [heard, hc]
  rfl

omit [DecidableEq Chan] in
theorem heard_zero_iff : heard n a = 0 ↔ n.graph.stateOf a = none := by
  cases hc : n.graph.stateOf a with
  | none => simp [heard, hc]
  | some c => simp [heard, hc]

omit [DecidableEq Chan] in
theorem heard_congr (h : n'.graph.stateOf a = n.graph.stateOf a) : heard n' a = heard n a := by
  rw [heard, heard, h]

theorem newer_iff {i j : UInt32} (hi : i.toNat < broadcastLimit) (hj : j.toNat < broadcastLimit) :
    0 < compareSequence i j ↔ j.toNat < i.toNat := by
  have h := compareSequence_pos_iff hi hj
  rwa [UInt32.ofNat_toNat, UInt32.ofNat_toNat] at h

omit [DecidableEq Chan] in
theorem fresh_iff_heard (hs : s.sequence.toNat < broadcastLimit)
    (hstored : ∀ c, n.graph.stateOf s.id = some c → c.sequence.toNat < broadcastLimit) :
    Fresh n s ↔ heard n s.id < s.sequence.toNat + 1 := by
  cases hc : n.graph.stateOf s.id with
  | none =>
    have hfresh : Fresh n s := by
      intro c hc'
      rw [hc] at hc'
      cases hc'
    rw [heard_zero_iff.mpr hc]
    exact ⟨fun _ => Nat.succ_pos _, fun _ => hfresh⟩
  | some c =>
    have hnewer := newer_iff hs (hstored c hc)
    rw [heard_of_stored hc, Nat.add_lt_add_iff_right, ← hnewer]
    constructor
    · exact fun h => h c hc
    · intro h c' hc'
      rw [hc, Option.some.injEq] at hc'
      exact hc' ▸ h

omit [DecidableEq Chan] in
theorem heard_update (h : n'.graph.stateOf = Function.update n.graph.stateOf s.id (some s)) :
    heard n' s.id = s.sequence.toNat + 1 := by
  apply heard_of_stored
  rw [h, Function.update_self]

omit [DecidableEq Chan] in
theorem heard_update_of_ne (h : n'.graph.stateOf = Function.update n.graph.stateOf s.id (some s))
    (ha : a ≠ s.id) : heard n' a = heard n a := by
  apply heard_congr
  rw [h, Function.update_of_ne ha]

omit [DecidableEq Chan] in
theorem ready_of_prepared (h : Prepared K n) (hown : heard n (n.id K) ≤ broadcastLimit)
    (hsparse : Sparse n) : Ready K n := by
  refine ⟨h, ?_, hsparse⟩
  obtain ⟨c, hc, -, hnewer⟩ := h.older
  rw [heard_of_stored hc] at hown ⊢
  exact (newer_iff hsparse hown).mp hnewer

omit [DecidableEq Chan] in
theorem kept_id (h : Kept n n') : n'.id K = n.id K := congrArg K.publicKey h.ecdsaPair

theorem heard_announced {s₁ : State Id} {m₁ : Message Id} (h : Announces K s₁ m₁ n n') :
    heard n' (n.id K) = n.graph.mStateSequence.toNat + 1 := by
  rw [← h.id, heard_update h.stored, h.sequence]

omit [DecidableEq Chan] in
theorem heard_balks (h : Balks s n n') (hs : s.id ≠ n.id K) :
    heard n' (n.id K) = heard n (n.id K) := by
  rcases h.stored with hsame | hentered
  · exact heard_congr (congrFun hsame _)
  · exact heard_update_of_ne hentered hs.symm

theorem outcome_own (h : Outcome K n s m channel n') :
    heard n' (n.id K) = heard n (n.id K) ∨
      heard n' (n.id K) = n.graph.mStateSequence.toNat + 1 := by
  cases h with
  | dropped => exact Or.inl rfl
  | accepted hne hnews ha => exact Or.inl (heard_update_of_ne ha.stored hne.symm)
  | answered s₁ m₁ hne hzero ha₁ ha =>
    right
    rw [heard_update_of_ne ha.stored hne.symm, heard_announced ha₁]
  | refused hne hnews hb => exact Or.inl (heard_balks hb hne)

theorem outcome_kept (h : Outcome K n s m channel n') : Kept n n' := by
  cases h with
  | dropped => exact kept_refl n
  | accepted hne hnews ha => exact ha.kept
  | answered s₁ m₁ hne hzero ha₁ ha => exact kept_trans ha₁.kept ha.kept
  | refused hne hnews hb => exact hb.kept

theorem greeting_own (h : Greeting K n n') :
    heard n' (n.id K) = heard n (n.id K) ∨
      heard n' (n.id K) = n.graph.mStateSequence.toNat + 1 := by
  cases h with
  | silent hkept hout hstored => exact Or.inl (heard_congr (congrFun hstored _))
  | announced s₁ m₁ ha => exact Or.inr (heard_announced ha)

theorem greeting_kept (h : Greeting K n n') : Kept n n' := by
  cases h with
  | silent hkept hout hstored => exact hkept
  | announced s₁ m₁ ha => exact ha.kept

omit [DecidableEq Chan] in
theorem ready_after (h : Ready K n) (hkept : Kept n n') (hprepared : Prepared K n')
    (hown : heard n' (n.id K) = heard n (n.id K) ∨
      heard n' (n.id K) = n.graph.mStateSequence.toNat + 1) (hsparse : Sparse n') :
    Ready K n' := by
  refine ready_of_prepared hprepared ?_ hsparse
  have holder := h.older
  have hlimit : n.graph.mStateSequence.toNat < broadcastLimit := h.sparse
  rw [kept_id hkept]
  omega

omit [DecidableEq Chan] in
theorem counted_older (h : Ready K n)
    (hown : n'.graph.stateOf (n.id K) = n.graph.stateOf (n.id K))
    (hkept : surroundings n' =
      { surroundings n with mStateSequence := n.graph.mStateSequence + 1 })
    (hsparse : Sparse n') : LocalOlder K n' := by
  obtain ⟨c, hc, hkey, -⟩ := h.prepared.older
  have holder := h.older
  have hlimit : n.graph.mStateSequence.toNat < broadcastLimit := h.sparse
  simp only [surroundings, Surroundings.mk.injEq] at hkept
  obtain ⟨hpair, -, -, -, hecdh, -, hsequence, -⟩ := hkept
  have hid : n'.id K = n.id K := congrArg K.publicKey hpair
  have hnext : n'.graph.mStateSequence.toNat = n.graph.mStateSequence.toNat + 1 := by
    rw [hsequence, UInt32.toNat_add]
    unfold broadcastLimit at hlimit
    exact Nat.mod_eq_of_lt (by change n.graph.mStateSequence.toNat + 1 < 2 ^ 32; omega)
  rw [heard_of_stored hc] at holder
  refine ⟨c, by rw [hid, hown, hc], by rw [hkey, hecdh], ?_⟩
  rw [newer_iff hsparse (by omega)]
  omega

-- Numbers only grow.

omit [DecidableEq Chan] in
theorem learned_mono (h : n'.graph.stateOf = Function.update n.graph.stateOf s.id (some s))
    (hnews : heard n s.id < s.sequence.toNat + 1) (a : Id) : heard n a ≤ heard n' a := by
  by_cases ha : a = s.id
  · subst ha
    rw [heard_update h]
    exact hnews.le
  · rw [heard_update_of_ne h ha]

theorem announced_mono (h : Ready K n) (ha : Announces K s m n n') (a : Id) :
    heard n a ≤ heard n' a := by
  refine learned_mono ha.stored ?_ a
  rw [ha.id, ha.sequence]
  exact Nat.lt_succ_of_le h.older

theorem outcome_mono (h : Ready K n) (ho : Outcome K n s m channel n') (a : Id) :
    heard n a ≤ heard n' a := by
  cases ho with
  | dropped => exact Nat.le_refl _
  | accepted hne hnews ha => exact learned_mono ha.stored hnews a
  | answered s₁ m₁ hne hzero ha₁ ha =>
    refine (announced_mono h ha₁ a).trans (learned_mono ha.stored ?_ a)
    rw [heard_update_of_ne ha₁.stored (ha₁.id ▸ hne), hzero]
    exact Nat.succ_pos _
  | refused hne hnews hb =>
    rcases hb.stored with hsame | hentered
    · exact (heard_congr (congrFun hsame a)).ge
    · exact learned_mono hentered hnews a

theorem greeting_mono (h : Ready K n) (hg : Greeting K n n') (a : Id) :
    heard n a ≤ heard n' a := by
  cases hg with
  | silent hkept hout hstored => exact (heard_congr (congrFun hstored a)).ge
  | announced s₁ m₁ ha => exact announced_mono h ha a

end Numbers

omit [DecidableEq Chan] in
theorem kept_numbered {number : UInt32}
    (hkept : surroundings n' = { surroundings n with mStateSequence := number }) :
    Kept n n' := by
  simp only [surroundings, Surroundings.mk.injEq] at hkept
  obtain ⟨hpair, hwire, hchannels, hneighbors, hecdh, -, -, -, hsignaling, huser⟩ := hkept
  refine ⟨hpair, hecdh, hchannels, by rw [hwire], by rw [hsignaling], by rw [huser], ?_⟩
  intro b c hc
  rw [hneighbors] at hc
  exact Or.inl hc

section Laws
variable (hK : EcdsaLaws K) (hE : EcdhLaws K)
include hK hE

theorem onMessage_overfull (h : Ready K n) (hn : Typed n) (hm : Carries K pair s m)
    (hover : neighborLimit < n.routing.neighbors.card) (hid : s.id ≠ n.id K) (hfresh : Fresh n s)
    (hnews : heard n s.id < s.sequence.toNat + 1) :
    let n' := Node.onMessage K H n channel (frame K m)
    Outcome K n s m channel n' ∧ (Sparse n' → Prepared K n') := by
  intro n'
  by_cases hkey : KnownKey n s
  · obtain ⟨n₁, hinsert, hchange⟩ := insert_knownKey H h.prepared.rooted hfresh hkey
    have haccepts : Accepts K s m channel n { n₁ with
        wire := n₁.routing.broadcast K H.byteOrder n₁.wire m (some channel) } :=
      accepts_of_stored H hm.signed hchange.kept (congrArg View.states hchange.view_eq)
    have htyped := typed_kept hn haccepts.kept
    have hresult : n' = { n₁ with
        wire := n₁.routing.broadcast K H.byteOrder n₁.wire m (some channel) } :=
      onMessage_passed H hK hm hinsert ⟨htyped.signaling, htyped.user⟩
    have hown : n₁.graph.stateOf (n.id K) = n.graph.stateOf (n.id K) := by
      rw [← view_states, hchange.view_eq, accept_states, Function.update_of_ne hid.symm,
        view_states]
    have holder := localOlder_congr h.prepared.older hchange.kept hown
    rw [hresult]
    exact ⟨.accepted hid hnews haccepts,
      fun _ => prepared_congr ⟨hchange.rooted, holder⟩ rfl rfl⟩
  · obtain ⟨n₁, hrun, hrefused⟩ :=
      insert_overfull H hK hE h.prepared.rooted.linked hover hfresh hkey
    have hresult : n' = n₁ := onMessage_failed H hK hm hrun
    have hrooted := keeps_insert (withstands_rooted H) (s := s) trivial n h.prepared.rooted
    rw [hrun, final_error] at hrooted
    have hbalks : Balks s n n₁ :=
      ⟨kept_numbered hrefused.kept, congrArg (fun s => s.wire.outbox) hrefused.kept,
        hrefused.stored⟩
    rw [hresult]
    refine ⟨.refused hid hnews hbalks, fun hsparse => ⟨hrooted, ?_⟩⟩
    refine counted_older h ?_ hrefused.kept hsparse
    rcases hrefused.stored with hsame | hentered
    · rw [hsame]
    · rw [hentered, Function.update_of_ne hid.symm]

theorem onMessage_outcome (h : Ready K n) (hn : Typed n) (hm : Carries K pair s m)
    (hs : s.sequence.toNat < broadcastLimit)
    (hstored : ∀ c, n.graph.stateOf s.id = some c →
      c.sequence.toNat < broadcastLimit ∧ c.ecdhPublic = s.ecdhPublic)
    (hown : s.id = n.id K → s.sequence.toNat < heard n (n.id K)) :
    let n' := Node.onMessage K H n channel (frame K m)
    Outcome K n s m channel n' ∧ (Sparse n' → Ready K n') := by
  intro n'
  have hfresh := fresh_iff_heard hs fun c hc => (hstored c hc).1
  have hforeign : Fresh n s → s.id ≠ n.id K := by
    intro hf hid
    have hnews := hfresh.mp hf
    have hold := hown hid
    rw [hid] at hnews
    omega
  suffices hsuff : Outcome K n s m channel n' ∧ (Sparse n' → Prepared K n') by
    refine ⟨hsuff.1, fun hsparse => ?_⟩
    exact ready_after h (outcome_kept hsuff.1) (hsuff.2 hsparse) (outcome_own hsuff.1) hsparse
  rcases Nat.lt_or_ge neighborLimit n.routing.neighbors.card with hover | hb
  · by_cases hf : Fresh n s
    · exact onMessage_overfull H hK hE h hn hm hover (hforeign hf) hf (hfresh.mp hf)
    · have hresult : n' = n := onMessage_dropped H hK hm hn (insert_notFresh H hf)
      rw [hresult]
      exact ⟨.dropped, fun _ => h.prepared⟩
  · obtain ⟨hinformed, hprepared⟩ : Informed K n s m channel n' ∧ Prepared K n' :=
      onMessage_state H hK hE h.prepared hb hn hm fun hid hf => hforeign hf hid
    generalize n' = n' at hinformed hprepared ⊢
    refine ⟨?_, fun _ => hprepared⟩
    cases hinformed with
    | own _ => exact .dropped
    | stale _ => exact .dropped
    | accepted hne hf _ ha _ => exact .accepted hne (hfresh.mp hf) ha
    | answered s₁ m₁ hne hf hk ha₁ ha _ =>
      refine .answered s₁ m₁ hne (heard_zero_iff.mpr ?_) ha₁ ha
      -- a stored State would have the key
      cases hc : n.graph.stateOf s.id with
      | none => rfl
      | some c => exact absurd ⟨c, hc, (hstored c hc).2⟩ hk

theorem notifyNeighbor_overfull (h : Rooted K n)
    (hover : neighborLimit < n.routing.neighbors.card) :
    ∃ n', Rooted K n' ∧ n'.graph.stateOf = n.graph.stateOf ∧
      ((Graph.notifyNeighbor K H n = .ok () n' ∧ surroundings n' = surroundings n) ∨
        ∃ e, Graph.notifyNeighbor K H n = .error e n' ∧ surroundings n' =
          { surroundings n with mStateSequence := n.graph.mStateSequence + 1 }) := by
  obtain ⟨n₁, hrun₁, hchange⟩ := updateEdges_spec H h h.root n.routing.neighbors
  have hstates : n₁.graph.stateOf = n.graph.stateOf := by
    rw [← view_states, hchange.view_eq, connect_states, view_states]
  by_cases heq : n.graph.edgesOf (n.id K) = n.routing.neighbors
  · refine ⟨n₁, hchange.rooted, hstates, Or.inl ⟨?_, hchange.kept⟩⟩
    simp only [Graph.notifyNeighbor, get_bind_run]
    rw [bind_ok hrun₁]
    simp [heq]
  · have hover₁ : neighborLimit < n₁.routing.neighbors.card := by
      rw [neighbors_congr hchange.kept]
      exact hover
    refine ⟨{ n₁ with graph := { n₁.graph with mStateSequence := n₁.graph.mStateSequence + 1 } },
      rooted_congr hchange.rooted rfl rfl rfl fun _ => rfl, hstates,
      Or.inr ⟨.runtimeError "Message body is too long", ?_, ?_⟩⟩
    · simp only [Graph.notifyNeighbor, get_bind_run]
      rw [bind_ok hrun₁]
      simp only [heq, ne_eq, not_false_eq_true, decide_true, if_true, Graph.broadcastState]
      exact broadcastStateWith_overfull H hK hE _ hover₁
    · have hkept := hchange.kept
      simp only [surroundings, Surroundings.mk.injEq] at hkept ⊢
      obtain ⟨h₁, h₂, h₃, h₄, h₅, h₆, h₇, h₈, h₉, h₁₀⟩ := hkept
      simp only [h₁, h₂, h₃, h₄, h₅, h₆, h₇, h₈, h₉, h₁₀, and_self]

theorem greeting_overfull (h : Ready K n) (hn : Typed n) (hm : SignedBy K pair m)
    (htype : m.type = MessageType.Hello) (hto : m.destination = none)
    (hchannel : channel ∈ n.routing.mChannels) (hnew : K.publicKey pair ∉ n.routing.mNeighbors)
    (hover : neighborLimit <
      (keySet (emplace (K.publicKey pair) channel n.routing.mNeighbors)).card) :
    let n' := Node.onMessage K H n channel (frame K m)
    Greeting K n n' ∧ (Sparse n' → Prepared K n') := by
  intro n'
  have hsource : m.source ≠ none := by
    rw [hm.source]
    exact Option.some_ne_none _
  set n₀ : Node Id Pair Ecdh Chan := { n with routing := { n.routing with
    mNeighbors := emplace (K.publicKey pair) channel n.routing.mNeighbors } } with hn₀
  have hnotify : Graph.notifyMessage K H m (some channel) n = Graph.notifyNeighbor K H n₀ :=
    notifyMessage_greeting H hm htype hchannel hnew
  have h₀ : Ready K n₀ := ⟨prepared_congr h.prepared rfl rfl, h.older, h.sparse⟩
  have hbind : ∀ n₁ : Node Id Pair Ecdh Chan, Kept n₀ n₁ → Kept n n₁ := by
    intro n₁ hkept
    refine ⟨hkept.ecdsaPair, hkept.mEcdh, hkept.mChannels, hkept.isOpen, hkept.signaling,
      hkept.user, fun b c hc => ?_⟩
    rcases hkept.bound b c hc with hold | hregistered
    · exact emplaced_bound hchannel hold
    · exact Or.inr hregistered
  have hresult : n' = final (Node.notifyMessage K H m (some channel) n) :=
    onMessage_emit H hK hm (Or.inl hto) channel
  obtain ⟨n₁, hrooted, hstates, hrun⟩ :=
    notifyNeighbor_overfull H hK hE h₀.prepared.rooted hover
  rcases hrun with ⟨hrun, hkept⟩ | ⟨e, hrun, hkept⟩
  · have hnumbered : surroundings n₁ =
        { surroundings n₀ with mStateSequence := n₀.graph.mStateSequence } := hkept
    have hkept' : Kept n₀ n₁ := kept_numbered hnumbered
    have htyped : Typed n₁ := typed_kept hn (hbind n₁ hkept')
    rw [notifyMessage_skip H (hnotify.trans hrun) htyped hsource (Or.inl htype), final_ok]
      at hresult
    rw [hresult]
    refine ⟨.silent (hbind n₁ hkept') (congrArg (fun s => s.wire.outbox) hkept) hstates,
      fun _ => ⟨hrooted, ?_⟩⟩
    exact localOlder_congr h₀.prepared.older hkept (by rw [hstates])
  · rw [Node.notifyMessage, bind_error (hnotify.trans hrun), final_error] at hresult
    rw [hresult]
    refine ⟨.silent (hbind n₁ (kept_numbered hkept)) (congrArg (fun s => s.wire.outbox) hkept)
      hstates, fun hsparse => ⟨hrooted, ?_⟩⟩
    exact counted_older h₀ (by rw [hstates]) hkept hsparse

theorem onMessage_greeting (h : Ready K n) (hn : Typed n) (hm : SignedBy K pair m)
    (htype : m.type = MessageType.Hello) (hto : m.destination = none)
    (hchannel : channel ∈ n.routing.mChannels) :
    let n' := Node.onMessage K H n channel (frame K m)
    Greeting K n n' ∧ (Sparse n' → Ready K n') ∧
      (n'.routing.mNeighbors = n.routing.mNeighbors → n' = n) := by
  intro n'
  by_cases hknown : K.publicKey pair ∈ n.routing.mNeighbors
  · have hresult : n' = n := onMessage_known H hK hn hm htype hto hknown
    rw [hresult]
    exact ⟨.silent (kept_refl n) rfl rfl, fun _ => h, fun _ => rfl⟩
  have hneighbors : n'.routing.mNeighbors =
      emplace (K.publicKey pair) channel n.routing.mNeighbors := by
    have hcore := core_notifyMessage K H m (some channel) n
    rw [notifyMessage_greeting H hm htype hchannel hknown,
      ← onMessage_emit H hK hm (Or.inl hto) channel] at hcore
    have hlinks := links_notifyNeighbor (K := K) H { n with routing := { n.routing with
      mNeighbors := emplace (K.publicKey pair) channel n.routing.mNeighbors } } rfl
    exact (congrArg (fun c : Pair × Routing Id Chan × LegioNode.Graph Id Ecdh =>
      c.2.1.mNeighbors) hcore).trans (congrArg Prod.snd hlinks)
  suffices hsuff : Greeting K n n' ∧ (Sparse n' → Prepared K n') by
    refine ⟨hsuff.1, fun hsparse => ?_, fun hsame => ?_⟩
    · exact ready_after h (greeting_kept hsuff.1) (hsuff.2 hsparse) (greeting_own hsuff.1) hsparse
    · rw [hsame] at hneighbors
      rw [hneighbors, mem_emplace] at hknown
      exact absurd (Or.inl rfl) hknown
  rcases Nat.lt_or_ge neighborLimit n'.routing.neighbors.card with hover | hb
  · rw [Routing.neighbors, hneighbors] at hover
    exact greeting_overfull H hK hE h hn hm htype hto hchannel hknown hover
  · obtain ⟨hgreeted, hprepared⟩ :=
      onMessage_hello H hK hE h.prepared hn hm htype hto hchannel hb
    change Greeted K n (K.publicKey pair) channel n' at hgreeted
    change Prepared K n' at hprepared
    generalize n' = n' at hgreeted hprepared ⊢
    refine ⟨?_, fun _ => hprepared⟩
    cases hgreeted with
    | known _ => exact .silent (kept_refl n) rfl rfl
    | silent m' _ _ he => exact .silent he.kept he.outbox he.stored
    | announced s₁ m₁ _ ha => exact .announced s₁ m₁ ha

end Laws

end StateReceptions
