import Legio.QuiescentAgreement
import Legio.StateReceptions

set_option linter.style.header false

/-! States in a network of honest nodes with any numbers of neighbours: all that are stored or
in flight have been announced by the node they are about, which stores the newest one itself. -/
namespace FloodInvariants

open LegioBinary LegioCrypto LegioMessage LegioNode Containers
open ExceptionStates LinkStateStore GraphUpdates GraphRuns ChannelTopology NodeNetwork
open TransportSteps MessageRelay LinkStateSteps LinkStateNetwork LinkStateAgreement
open LinkStateRuns StateReceptions
open QuiescentAgreement (started_alone started_consistent)

variable {V Id Pair Ecdh Chan : Type} [DecidableEq V] [LinearOrder Id] [DecidableEq Chan]

def Authentic (id : V → Id) (key : V → Binary) (σ : Nodes V Id Pair Ecdh Chan) (s : State Id) :
    Prop :=
  ∃ v, s.id = id v ∧ s.ecdhPublic = key v ∧ s.sequence.toNat < heard (σ v) (id v)

inductive Honest (K : CryptoPP Id Pair Ecdh) (id : V → Id) (key : V → Binary)
    (σ : Nodes V Id Pair Ecdh Chan) : Binary → Prop where
  | hello {m pair} (signed : SignedBy K pair m) (type : m.type = MessageType.Hello)
      (destination : m.destination = none) : Honest K id key σ (frame K m)
  | state {m pair s} (carries : Carries K pair s m) (authentic : Authentic id key σ s) :
      Honest K id key σ (frame K m)
  | other {m pair} (signed : SignedBy K pair m) (hello : m.type ≠ MessageType.Hello)
      (state : m.type ≠ MessageType.State) : Honest K id key σ (frame K m)

structure Sound (K : CryptoPP Id Pair Ecdh) (net : Network V Id Chan) (id : V → Id)
    (key : V → Binary) (σ : Nodes V Id Pair Ecdh Chan) : Prop where
  consistent : Consistent K net id key σ
  numbered : ∀ v, heard (σ v) (id v) ≤ broadcastLimit
  stored : ∀ x a s, (σ x).graph.stateOf a = some s → s.id = a ∧ Authentic id key σ s
  honest : ∀ c, ∀ data ∈ inFlight net σ c, Honest K id key σ data

/-- What a message in flight does to the node `x` that it reaches. -/
inductive Arrival (K : CryptoPP Id Pair Ecdh) (id : V → Id) (key : V → Binary)
    (σ : Nodes V Id Pair Ecdh Chan) (x : V) (channel : Chan) :
    Binary → Node Id Pair Ecdh Chan → Prop where
  | ignored {data} : Arrival K id key σ x channel data (σ x)
  | relayed {m pair n'} (targets : Chan → Bool) : SignedBy K pair m →
      m.type ≠ MessageType.Hello → m.type ≠ MessageType.State → Emits K m targets (σ x) n' →
      Arrival K id key σ x channel (frame K m) n'
  | greeted {data n'} : Greeting K (σ x) n' →
      (n'.routing.mNeighbors = (σ x).routing.mNeighbors → n' = σ x) →
      Arrival K id key σ x channel data n'
  | informed {m pair s n'} : Carries K pair s m → Authentic id key σ s →
      Outcome K (σ x) s m channel n' → Arrival K id key σ x channel (frame K m) n'

section Steps
variable {K : CryptoPP Id Pair Ecdh} {net : Network V Id Chan} {id : V → Id} {key : V → Binary}
  {σ σ' : Nodes V Id Pair Ecdh Chan} {x : V} {n n' : Node Id Pair Ecdh Chan} {m : Message Id}
  {pair : Pair} {s : State Id} {c : Chan} {targets : Chan → Bool}

omit [DecidableEq V] [DecidableEq Chan] in
theorem authentic_mono (hle : ∀ v, heard (σ v) (id v) ≤ heard (σ' v) (id v))
    (h : Authentic id key σ s) : Authentic id key σ' s := by
  obtain ⟨v, hid, hkey, hsequence⟩ := h
  exact ⟨v, hid, hkey, hsequence.trans_le (hle v)⟩

omit [DecidableEq V] [DecidableEq Chan] in
theorem honest_mono (hle : ∀ v, heard (σ v) (id v) ≤ heard (σ' v) (id v)) {data : Binary}
    (h : Honest K id key σ data) : Honest K id key σ' data := by
  cases h with
  | hello signed type destination => exact .hello signed type destination
  | state carries authentic => exact .state carries (authentic_mono hle authentic)
  | other signed hello state => exact .other signed hello state

omit [DecidableEq Chan] in
theorem heard_mono (hle : heard (σ x) (id x) ≤ heard n' (id x)) (v : V) :
    heard (σ v) (id v) ≤ heard (Function.update σ x n' v) (id v) := by
  by_cases hv : v = x
  · subst hv
    rw [Function.update_self]
    exact hle
  · rw [Function.update_of_ne hv]

omit [DecidableEq Chan] in
theorem sound_update (h : Sound K net id key σ)
    (hconsistent : Consistent K net id key (Function.update σ x n'))
    (hle : heard (σ x) (id x) ≤ heard n' (id x)) (hlimit : heard n' (id x) ≤ broadcastLimit)
    (hstored : ∀ a s, n'.graph.stateOf a = some s → (σ x).graph.stateOf a = some s ∨
      (s.id = a ∧ Authentic id key (Function.update σ x n') s))
    (hsent : ∀ c data, data ∈ n'.wire.outbox c → data ∈ (σ x).wire.outbox c ∨
      Honest K id key (Function.update σ x n') data) :
    Sound K net id key (Function.update σ x n') := by
  have hmono := heard_mono (σ := σ) hle
  constructor
  · exact hconsistent
  · intro v
    by_cases hv : v = x
    · subst hv
      rw [Function.update_self]
      exact hlimit
    · rw [Function.update_of_ne hv]
      exact h.numbered v
  · intro y a t ht
    have hold : (σ y).graph.stateOf a = some t →
        t.id = a ∧ Authentic id key (Function.update σ x n') t := by
      intro ht
      obtain ⟨hid, hauthentic⟩ := h.stored y a t ht
      exact ⟨hid, authentic_mono hmono hauthentic⟩
    by_cases hy : y = x
    · subst hy
      rw [Function.update_self] at ht
      exact (hstored a t ht).elim hold fun hnew => hnew
    · rw [Function.update_of_ne hy] at ht
      exact hold ht
  · intro c data hdata
    rw [inFlight] at hdata
    have hold : data ∈ inFlight net σ c → Honest K id key (Function.update σ x n') data :=
      fun hdata => honest_mono hmono (h.honest c data hdata)
    by_cases hc : net.owner c = x
    · subst hc
      rw [Function.update_self] at hdata
      exact (hsent c data hdata).elim hold fun hnew => hnew
    · rw [Function.update_of_ne hc] at hdata
      exact hold hdata

omit [DecidableEq Chan] in
theorem sound_unlearned (h : Sound K net id key σ)
    (hconsistent : Consistent K net id key (Function.update σ x n'))
    (hstored : n'.graph.stateOf = (σ x).graph.stateOf)
    (hsent : ∀ c data, data ∈ n'.wire.outbox c → data ∈ (σ x).wire.outbox c ∨
      Honest K id key (Function.update σ x n') data) :
    Sound K net id key (Function.update σ x n') := by
  have hsame : heard n' (id x) = heard (σ x) (id x) := heard_congr (congrFun hstored _)
  refine sound_update h hconsistent hsame.ge (hsame ▸ h.numbered x) ?_ hsent
  intro a s hs
  rw [hstored] at hs
  exact Or.inl hs

omit [DecidableEq Chan] in
theorem sound_emits (h : Sound K net id key σ) (he : Emits K m targets (σ x) n')
    (hm : ∀ c, targets c = true → Honest K id key σ (frame K m)) :
    Sound K net id key (Function.update σ x n') := by
  refine sound_unlearned h (consistent_update h.consistent he.kept) he.stored ?_
  intro c data hdata
  rw [he.outbox] at hdata
  rcases mem_push.mp hdata with hold | ⟨htarget, rfl⟩
  · exact Or.inl hold
  · have hsame : heard n' (id x) = heard (σ x) (id x) := heard_congr (congrFun he.stored _)
    exact Or.inr (honest_mono (heard_mono hsame.ge) (hm c htarget))

theorem sound_announces (h : Sound K net id key σ) (hx : Ready K (σ x))
    (ha : Announces K s m (σ x) n') : Sound K net id key (Function.update σ x n') := by
  have hid : (σ x).id K = id x := h.consistent.identity x
  have hsid : s.id = id x := ha.id.trans hid
  have hown : heard n' (id x) = (σ x).graph.mStateSequence.toNat + 1 := by
    rw [← hid]
    exact heard_announced ha
  have holder : heard (σ x) (id x) ≤ (σ x).graph.mStateSequence.toNat := by
    rw [← hid]
    exact hx.older
  have hsparse : (σ x).graph.mStateSequence.toNat < broadcastLimit := hx.sparse
  have hauthentic : Authentic id key (Function.update σ x n') s := by
    refine ⟨x, hsid, ha.ecdhPublic.trans (h.consistent.ecdhKey x), ?_⟩
    rw [Function.update_self, hown, ha.sequence]
    exact Nat.lt_succ_self _
  refine sound_update h (consistent_update h.consistent ha.kept) (by omega) (by omega) ?_ ?_
  · intro a t ht
    rw [ha.stored] at ht
    rcases stored_of_update ht with hold | ⟨rfl, rfl⟩
    · exact Or.inl hold
    · exact Or.inr ⟨rfl, hauthentic⟩
  · intro c data hdata
    rw [ha.outbox] at hdata
    rcases mem_push.mp hdata with hold | ⟨_, rfl⟩
    · exact Or.inl hold
    · exact Or.inr (.state ha.carries hauthentic)

omit [DecidableEq Chan] in
theorem sound_learns (h : Sound K net id key σ) (hs : Authentic id key σ s)
    (hm : Carries K pair s m) (hne : s.id ≠ id x) (hkept : Kept (σ x) n')
    (hstored : n'.graph.stateOf = Function.update (σ x).graph.stateOf s.id (some s))
    (hsent : ∀ c data, data ∈ n'.wire.outbox c →
      data ∈ (σ x).wire.outbox c ∨ data = frame K m) :
    Sound K net id key (Function.update σ x n') := by
  have hsame : heard n' (id x) = heard (σ x) (id x) := heard_update_of_ne hstored hne.symm
  have hauthentic := authentic_mono (heard_mono (σ := σ) hsame.ge) hs
  refine sound_update h (consistent_update h.consistent hkept) hsame.ge
    (hsame ▸ h.numbered x) ?_ ?_
  · intro a t ht
    rw [hstored] at ht
    rcases stored_of_update ht with hold | ⟨rfl, rfl⟩
    · exact Or.inl hold
    · exact Or.inr ⟨rfl, hauthentic⟩
  · intro c data hdata
    rcases hsent c data hdata with hold | rfl
    · exact Or.inl hold
    · exact Or.inr (.state hm hauthentic)

theorem sound_accepts (h : Sound K net id key σ) (hs : Authentic id key σ s)
    (hm : Carries K pair s m) (hne : s.id ≠ id x) (ha : Accepts K s m c (σ x) n') :
    Sound K net id key (Function.update σ x n') := by
  refine sound_learns h hs hm hne ha.kept ha.stored fun c data hdata => ?_
  rw [ha.outbox] at hdata
  exact (mem_push.mp hdata).imp_right And.right

omit [DecidableEq Chan] in
theorem sound_balks (h : Sound K net id key σ) (hs : Authentic id key σ s)
    (hm : Carries K pair s m) (hne : s.id ≠ id x) (hb : Balks s (σ x) n') :
    Sound K net id key (Function.update σ x n') := by
  have hsent : ∀ c data, data ∈ n'.wire.outbox c → data ∈ (σ x).wire.outbox c := by
    intro c data hdata
    rw [hb.outbox] at hdata
    exact hdata
  rcases hb.stored with hsame | hentered
  · exact sound_unlearned h (consistent_update h.consistent hb.kept) hsame
      fun c data hdata => Or.inl (hsent c data hdata)
  · exact sound_learns h hs hm hne hb.kept hentered
      fun c data hdata => Or.inl (hsent c data hdata)

theorem sound_outcome (h : Sound K net id key σ) (hx : Ready K (σ x))
    (hs : Authentic id key σ s) (hm : Carries K pair s m)
    (ho : Outcome K (σ x) s m c n') : Sound K net id key (Function.update σ x n') := by
  have hid : (σ x).id K = id x := h.consistent.identity x
  cases ho with
  | dropped =>
    rw [Function.update_eq_self]
    exact h
  | accepted hne hnews ha => exact sound_accepts h hs hm (hid ▸ hne) ha
  | @answered n₁ _ s₁ m₁ hne hzero ha₁ ha =>
    have h₁ := sound_announces h hx ha₁
    have hself : Function.update σ x n₁ x = n₁ := Function.update_self ..
    have hle : heard (σ x) (id x) ≤ heard n₁ (id x) := by
      rw [← hid, heard_announced ha₁]
      exact hx.older.trans (Nat.le_succ _)
    have h' := sound_accepts h₁ (authentic_mono (heard_mono hle) hs) hm (hid ▸ hne)
      (hself.symm ▸ ha)
    rwa [Function.update_idem] at h'
  | refused hne hnews hb => exact sound_balks h hs hm (hid ▸ hne) hb

theorem sound_greeting (h : Sound K net id key σ) (hx : Ready K (σ x))
    (hg : Greeting K (σ x) n') : Sound K net id key (Function.update σ x n') := by
  cases hg with
  | silent hkept hout hstored =>
    refine sound_unlearned h (consistent_update h.consistent hkept) hstored fun c data hdata => ?_
    rw [hout] at hdata
    exact Or.inl hdata
  | announced s₁ m₁ ha => exact sound_announces h hx ha

omit [DecidableEq V] [DecidableEq Chan] in
theorem ready_congr (h : Ready K n) (hrooted : Rooted K n') (hpair : n'.ecdsaPair = n.ecdsaPair)
    (hecdh : n'.graph.mEcdh = n.graph.mEcdh) (hstored : n'.graph.stateOf = n.graph.stateOf)
    (hsequence : n'.graph.mStateSequence = n.graph.mStateSequence) : Ready K n' := by
  have hid : n'.id K = n.id K := congrArg K.publicKey hpair
  obtain ⟨c, hc, hkey, hnewer⟩ := h.prepared.older
  refine ⟨⟨hrooted, c, ?_, ?_, ?_⟩, ?_, ?_⟩
  · rw [hid, hstored, hc]
  · rw [hkey, hecdh]
  · rw [hsequence]
    exact hnewer
  · rw [hid, hsequence, heard_congr (congrFun hstored _)]
    exact h.older
  · rw [Sparse, hsequence]
    exact h.sparse

theorem sound_arrival (h : Sound K net id key σ) (hx : Ready K (σ x)) {data : Binary}
    (ha : Arrival K id key σ x c data n') : Sound K net id key (Function.update σ x n') := by
  cases ha with
  | ignored =>
    rw [Function.update_eq_self]
    exact h
  | relayed targets hsigned hhello hstate he =>
    exact sound_emits h he fun _ _ => .other hsigned hhello hstate
  | greeted hg _ => exact sound_greeting h hx hg
  | informed hm hs ho => exact sound_outcome h hx hs hm ho

omit [DecidableEq V] in
theorem arrive_arrival (hK : EcdsaLaws K) (hE : EcdhLaws K) (hid : Function.Injective id)
    (h : Sound K net id key σ) (hx : Ready K (σ x)) (H : Host Id) {data : Binary}
    (hdata : Honest K id key σ data) :
    let n' := arrive K H (σ x) c data
    Arrival K id key σ x c data n' ∧ (Sparse n' → Ready K n') := by
  intro n'
  by_cases hregistered : c ∈ (σ x).routing.mChannels
  swap
  · have hresult : n' = σ x := if_neg hregistered
    rw [hresult]
    exact ⟨.ignored, fun _ => hx⟩
  have hresult : n' = Node.onMessage K H (σ x) c data := if_pos hregistered
  have htyped := h.consistent.typed x
  rw [hresult]
  cases hdata with
  | hello signed type destination =>
    obtain ⟨hgreeting, hready, hsame⟩ :=
      onMessage_greeting H hK hE hx htyped signed type destination hregistered
    exact ⟨.greeted hgreeting hsame, hready⟩
  | other signed hello state =>
    obtain ⟨targets, hposts⟩ := posts_onMessage H hK signed hello state c (σ x)
    have hcore := hposts.core
    simp only [Node.core, Prod.mk.injEq] at hcore
    obtain ⟨hpair, -, hgraph⟩ := hcore
    refine ⟨.relayed targets signed hello state (emits_of_posts hposts), fun _ => ?_⟩
    refine ready_congr hx (prepared_congr hx.prepared hgraph hpair).rooted hpair ?_ ?_ ?_
    · rw [hgraph]
    · rw [hgraph]
    · rw [hgraph]
  | @state m pair s carries authentic =>
    obtain ⟨v, hsid, hskey, hsequence⟩ := authentic
    have hstored : ∀ t, (σ x).graph.stateOf s.id = some t →
        t.sequence.toNat < broadcastLimit ∧ t.ecdhPublic = s.ecdhPublic := by
      intro t ht
      obtain ⟨htid, w, hw, htkey, htsequence⟩ := h.stored x s.id t ht
      obtain rfl : v = w := hid (hsid.symm.trans (htid.symm.trans hw))
      exact ⟨htsequence.trans_le (h.numbered v), htkey.trans hskey.symm⟩
    have hown : s.id = (σ x).id K → s.sequence.toNat < heard (σ x) ((σ x).id K) := by
      intro hxid
      rw [h.consistent.identity] at hxid ⊢
      obtain rfl : v = x := hid (hsid.symm.trans hxid)
      exact hsequence
    obtain ⟨houtcome, hready⟩ := onMessage_outcome H hK hE hx htyped carries
      (hsequence.trans_le (h.numbered v)) hstored hown
    exact ⟨.informed carries ⟨v, hsid, hskey, hsequence⟩ houtcome, hready⟩

end Steps

def overtake {α : Type} (queue : List α) (position : ℕ) : List α :=
  queue[position]?.toList ++ queue.eraseIdx position

theorem overtake_perm {α : Type} (queue : List α) (position : ℕ) :
    (overtake queue position).Perm queue := by
  rcases Nat.lt_or_ge position queue.length with hlt | hge
  · rw [overtake, List.getElem?_eq_getElem hlt]
    exact List.getElem_cons_eraseIdx_perm hlt
  · rw [overtake, List.getElem?_eq_none hge, List.eraseIdx_of_length_le hge]
    exact List.Perm.refl _

def overtakeAt (net : Network V Id Chan) (σ : Nodes V Id Pair Ecdh Chan) (channel : Chan)
    (position : ℕ) : Nodes V Id Pair Ecdh Chan :=
  let n := σ (net.owner channel)
  Function.update σ (net.owner channel) { n with wire := { n.wire with
    outbox := Function.update n.wire.outbox channel
      (overtake (n.wire.outbox channel) position) } }

/-- The worlds that events lead to, with messages in flight that overtake each other. No node
runs out of numbers for its States. -/
inductive Reachable (K : CryptoPP Id Pair Ecdh) (net : Network V Id Chan) :
    World V Id Pair Ecdh Chan → Prop where
  | started {σ} : Started K net σ → Reachable K net (World.initial σ)
  | event {w} (ev : Event V Id Chan) : Reachable K net w →
      (∀ v, Sparse ((ev.apply K net w).nodes v)) → Reachable K net (ev.apply K net w)
  | reorder {w} (channel : Chan) (position : ℕ) : Reachable K net w →
      Reachable K net { w with nodes := overtakeAt net w.nodes channel position }

def Lasts (K : CryptoPP Id Pair Ecdh) (net : Network V Id Chan) :
    World V Id Pair Ecdh Chan → List (Event V Id Chan) → Prop
  | _, [] => True
  | w, ev :: events =>
    (∀ v, Sparse ((ev.apply K net w).nodes v)) ∧ Lasts K net (ev.apply K net w) events

instance decidableLasts [Fintype V] (K : CryptoPP Id Pair Ecdh) (net : Network V Id Chan) :
    (w : World V Id Pair Ecdh Chan) → (events : List (Event V Id Chan)) →
      Decidable (Lasts K net w events)
  | _, [] => .isTrue trivial
  | w, ev :: events =>
    have := decidableLasts K net (ev.apply K net w) events
    inferInstanceAs (Decidable (_ ∧ _))

theorem reachable_run {K : CryptoPP Id Pair Ecdh} {net : Network V Id Chan}
    (events : List (Event V Id Chan)) : ∀ w : World V Id Pair Ecdh Chan, Reachable K net w →
      Lasts K net w events → Reachable K net (run K net w events) := by
  induction events with
  | nil => exact fun _ h _ => h
  | cons ev events ih => exact fun w h hlasts => ih _ (.event ev h hlasts.1) hlasts.2

structure Steady (K : CryptoPP Id Pair Ecdh) (net : Network V Id Chan) (id : V → Id)
    (key : V → Binary) (σ : Nodes V Id Pair Ecdh Chan) : Prop where
  sound : Sound K net id key σ
  ready : ∀ v, Ready K (σ v)

section Events
variable {K : CryptoPP Id Pair Ecdh} {net : Network V Id Chan} {id : V → Id} {key : V → Binary}
  {σ : Nodes V Id Pair Ecdh Chan} {x : V} {n' : Node Id Pair Ecdh Chan} {c : Chan}

omit [DecidableEq Chan] in
theorem steady_update (h : Steady K net id key σ)
    (hsound : Sound K net id key (Function.update σ x n')) (hready : Ready K n') :
    Steady K net id key (Function.update σ x n') := by
  refine ⟨hsound, fun v => ?_⟩
  by_cases hv : v = x
  · subst hv
    rw [Function.update_self]
    exact hready
  · rw [Function.update_of_ne hv]
    exact h.ready v

omit [DecidableEq V] in
theorem mem_of_mem_requeued {outbox : Chan → List Binary} {queue : List Binary}
    (hsub : ∀ data ∈ queue, data ∈ outbox c) {c' : Chan} {data : Binary}
    (hdata : data ∈ Function.update outbox c queue c') : data ∈ outbox c' := by
  by_cases hc : c' = c
  · subst hc
    rw [Function.update_self] at hdata
    exact hsub data hdata
  · rw [Function.update_of_ne hc] at hdata
    exact hdata

theorem steady_requeue (h : Steady K net id key σ) {queue : List Binary}
    (hsub : ∀ data ∈ queue, data ∈ (σ x).wire.outbox c) :
    Steady K net id key (Function.update σ x { σ x with wire := { (σ x).wire with
      outbox := Function.update (σ x).wire.outbox c queue } }) := by
  have hkept : Kept (σ x) { σ x with wire := { (σ x).wire with
      outbox := Function.update (σ x).wire.outbox c queue } } :=
    ⟨rfl, rfl, rfl, rfl, rfl, rfl, fun _ _ hc => Or.inl hc⟩
  refine steady_update h ?_ ⟨prepared_congr (h.ready x).prepared rfl rfl, (h.ready x).older,
    (h.ready x).sparse⟩
  exact sound_unlearned h.sound (consistent_update h.sound.consistent hkept) rfl
    fun c data hdata => Or.inl (mem_of_mem_requeued hsub hdata)

theorem steady_pop (h : Steady K net id key σ) (c : Chan) :
    Steady K net id key (popAt net σ c) :=
  steady_requeue h fun _ hdata => List.mem_of_mem_tail hdata

theorem steady_overtake (h : Steady K net id key σ) (c : Chan) (position : ℕ) :
    Steady K net id key (overtakeAt net σ c position) :=
  steady_requeue h fun _ hdata => (overtake_perm _ _).mem_iff.mp hdata

omit [DecidableEq Chan] in
theorem steady_rewired (h : Steady K net id key σ) (hn : Rewired (σ x) n')
    (hchannels : ∀ c ∈ n'.routing.mChannels, net.owner c = x) :
    Steady K net id key (Function.update σ x n') := by
  have hprepared := prepared_congr (h.ready x).prepared hn.graph hn.ecdsaPair
  refine steady_update h ?_ (ready_congr (h.ready x) hprepared.rooted hn.ecdsaPair ?_ ?_ ?_)
  · refine sound_unlearned h.sound (consistent_rewired h.sound.consistent hn hchannels) ?_ ?_
    · rw [hn.graph]
    · intro c data hdata
      rw [hn.outbox] at hdata
      exact Or.inl hdata
  · rw [hn.graph]
  · rw [hn.graph]
  · rw [hn.graph]

omit [DecidableEq Chan] in
theorem steady_sends (h : Steady K net id key σ) {port : Port} (hn : Sends K port (σ x) n') :
    Steady K net id key (Function.update σ x n') := by
  obtain ⟨m, targets, hposts, hmade⟩ := hn
  have hcore := hposts.core
  simp only [Node.core, Prod.mk.injEq] at hcore
  obtain ⟨hpair, -, hgraph⟩ := hcore
  have hprepared := prepared_congr (h.ready x).prepared hgraph hpair
  refine steady_update h ?_ (ready_congr (h.ready x) hprepared.rooted hpair ?_ ?_ ?_)
  · refine sound_emits h.sound (emits_of_posts hposts) fun c hc => ?_
    obtain ⟨hhello, hstate⟩ := made_other (h.sound.consistent.typed x) (hmade c hc)
    exact .other (hmade c hc).signed hhello hstate
  · rw [hgraph]
  · rw [hgraph]
  · rw [hgraph]

section Laws
variable (hK : EcdsaLaws K) (hE : EcdhLaws K) (hid : Function.Injective id)
include hK hE hid

theorem steady_deliver (h : Steady K net id key σ) (c : Chan)
    (hsparse : ∀ v, Sparse (NodeNetwork.deliver K net σ c v)) :
    Steady K net id key (NodeNetwork.deliver K net σ c) := by
  unfold NodeNetwork.deliver at hsparse ⊢
  cases hhead : inFlight net σ c with
  | nil => exact h
  | cons data rest =>
    rw [hhead] at hsparse
    dsimp only at hsparse ⊢
    have hdata : Honest K id key σ data :=
      h.sound.honest c data (by rw [hhead]; exact List.mem_cons_self)
    obtain ⟨harrival, hready⟩ := arrive_arrival (c := net.peer c) hK hE hid h.sound
      (h.ready (net.remote c)) (net.host (net.remote c)) hdata
    refine steady_pop (steady_update h (sound_arrival h.sound (h.ready _) harrival) ?_) c
    apply hready
    have hremote := hsparse (net.remote c)
    rw [Sparse, read_popAt net _ c (fun n => n.graph.mStateSequence) fun _ => rfl,
      Function.update_self] at hremote
    exact hremote

theorem steady_event {w : World V Id Pair Ecdh Chan} (h : Steady K net id key w.nodes)
    (ev : Event V Id Chan) (hsparse : ∀ v, Sparse ((ev.apply K net w).nodes v)) :
    Steady K net id key (ev.apply K net w).nodes := by
  change Steady K net id key (ev.act K net w)
  cases ev with
  | connect c =>
    by_cases hopened : w.opened c = true
    · rw [Event.act, if_pos hopened]
      exact h
    · rw [Event.act, if_neg hopened]
      refine steady_rewired h ⟨rfl, rfl, rfl, rfl, rfl, fun _ _ hb => hb⟩ fun c' hc' => ?_
      rcases Finset.mem_insert.mp hc' with rfl | hold
      · rfl
      · exact h.sound.consistent.channels _ c' hold
  | disconnect c =>
    exact steady_rewired h ⟨rfl, rfl, rfl, rfl, rfl, fun _ _ hb => hb⟩
      fun c' hc' => h.sound.consistent.channels _ c' hc'
  | removeChannel c =>
    refine steady_rewired h ⟨rfl, rfl, rfl, rfl, rfl, fun _ _ hb => (lookup_eraseIf.mp hb).1⟩
      fun c' hc' => h.sound.consistent.channels _ c' (Finset.mem_of_mem_erase hc')
  | lose c =>
    rw [Event.act]
    split_ifs
    · exact h
    · exact steady_pop h c
  | update v =>
    obtain ⟨m, hsigned, htype, hto, hrun⟩ := update_spec (K := K) (net.host v) (w.nodes v)
    rw [Event.act, hrun]
    refine steady_update h ?_ (ready_congr (h.ready v) ?_ rfl rfl rfl rfl)
    · exact sound_emits h.sound (emits_greet (w.nodes v) m)
        fun _ _ => .hello hsigned htype hto
    · exact rooted_congr (h.ready v).prepared.rooted rfl rfl rfl fun _ => rfl
  | broadcast v port payload =>
    exact steady_sends h (broadcast_sends (net.host v) (w.nodes v) port payload)
  | send v port remoteId payload random =>
    exact steady_sends h (send_sends (net.host v) (h.sound.consistent.typed v) port remoteId
      payload random)
  | deliver c => exact steady_deliver hK hE hid h c hsparse

end Laws

omit [DecidableEq V] in
theorem steady_started (hK : EcdsaLaws K) (hE : EcdhLaws K) (h : Started K net σ) :
    Steady K net (fun v => (σ v).id K) (fun v => K.ecdhPublicKey (σ v).graph.mEcdh) σ := by
  have halone := fun v => started_alone hK hE (h.constructed v)
  have hown : ∀ v, heard (σ v) ((σ v).id K) = 1 := by
    intro v
    obtain ⟨s, hs⟩ := halone v
    rw [← hs.id, heard_update (n := { σ v with graph := emptyGraph s.id (σ v).graph.mEcdh })
      hs.stored, hs.sequence]
    rfl
  refine ⟨⟨started_consistent hK hE h, fun v => ?_, fun x a s hs => ?_, fun c data hdata => ?_⟩,
    fun v => ?_⟩
  · rw [hown, broadcastLimit]
    omega
  · obtain ⟨t, ht⟩ := halone x
    rw [ht.stored] at hs
    rcases stored_of_update hs with hnone | ⟨rfl, rfl⟩
    · cases hnone
    · refine ⟨rfl, x, ht.id, ht.ecdhPublic, ?_⟩
      rw [hown, ht.sequence]
      exact Nat.one_pos
  · rw [h.quiet c] at hdata
    cases hdata
  · obtain ⟨hinvariant, -⟩ :=
      LocalLinks.started_inStep (net.host v) hK hE (h.constructed v)
    obtain ⟨s, hs⟩ := halone v
    have hnext : (σ v).graph.mStateSequence = 1 := by
      rw [hinvariant.numbered.next, hs.announced]
      rfl
    refine ⟨prepared_of_invariant hinvariant, ?_, ?_⟩
    · rw [hown, hnext]
      exact Nat.le_refl _
    · rw [Sparse, hnext]
      decide

theorem steady_reachable (hK : EcdsaLaws K) (hE : EcdhLaws K) {w : World V Id Pair Ecdh Chan}
    (h : Reachable K net w) :
    ∃ id key, Function.Injective id ∧ Steady K net id key w.nodes := by
  induction h with
  | started hs => exact ⟨_, _, hs.identities, steady_started hK hE hs⟩
  | event ev _ hsparse ih =>
    obtain ⟨id, key, hid, hsteady⟩ := ih
    exact ⟨id, key, hid, steady_event hK hE hid hsteady ev hsparse⟩
  | reorder channel position _ ih =>
    obtain ⟨id, key, hid, hsteady⟩ := ih
    exact ⟨id, key, hid, steady_overtake hsteady channel position⟩

end Events

end FloodInvariants
