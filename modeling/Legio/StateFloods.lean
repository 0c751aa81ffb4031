import Legio.FloodInvariants
import Legio.FloodTermination

set_option linter.style.header false

/-! State floods die out. While no neighbours come or go, every State that a node transmits is
paid for: by the news it is to the node, or by the first State of another node. -/
namespace StateFloods

open LegioBinary LegioCrypto LegioMessage LegioNode Containers
open ExceptionStates LinkStateStore GraphUpdates GraphRuns ChannelTopology NodeNetwork
open TransportSteps MessageRelay LinkStateSteps LinkStateNetwork LinkStateAgreement
open LinkStateRuns StateReceptions FloodInvariants FloodTermination

variable {V Id Pair Ecdh Chan : Type} [DecidableEq V] [LinearOrder Id] [DecidableEq Chan]

/-- The far side of a channel receives the message at the given position of those in flight. -/
structure Reception (Chan : Type) where
  channel : Chan
  position : ℕ

section Runs
variable (K : CryptoPP Id Pair Ecdh) (net : Network V Id Chan)

def arrange (σ : Nodes V Id Pair Ecdh Chan) (r : Reception Chan) : Nodes V Id Pair Ecdh Chan :=
  overtakeAt net σ r.channel r.position

def handle (σ : Nodes V Id Pair Ecdh Chan) (r : Reception Chan) : Nodes V Id Pair Ecdh Chan :=
  let x := net.remote r.channel
  match inFlight net (arrange net σ r) r.channel with
  | [] => arrange net σ r
  | data :: _ => Function.update (arrange net σ r) x
      (arrive K (net.host x) (arrange net σ r x) (net.peer r.channel) data)

def receive (σ : Nodes V Id Pair Ecdh Chan) (r : Reception Chan) : Nodes V Id Pair Ecdh Chan :=
  NodeNetwork.deliver K net (arrange net σ r) r.channel

def isState (channel : Chan) (data : Binary) : Bool :=
  carriesType K (net.host (net.remote channel)).byteOrder MessageType.State data

/-- The State messages that a run of receptions puts on the channels of a set. -/
def transmissions (T : Finset Chan) :
    Nodes V Id Pair Ecdh Chan → List (Reception Chan) → ℕ
  | _, [] => 0
  | σ, r :: receptions =>
    transmitted T (isState K net) (inFlight net (arrange net σ r)) (inFlight net (handle K net σ r))
      + transmissions T (receive K net σ r) receptions

/-- No neighbours come or go along the run, and no node runs out of numbers. -/
def Static : Nodes V Id Pair Ecdh Chan → List (Reception Chan) → Prop
  | _, [] => True
  | σ, r :: receptions =>
    (∀ v, (receive K net σ r v).routing.mNeighbors = (σ v).routing.mNeighbors) ∧
      (∀ v, Sparse (receive K net σ r v)) ∧ Static (receive K net σ r) receptions

instance decidableStatic [Fintype V] : (σ : Nodes V Id Pair Ecdh Chan) →
    (receptions : List (Reception Chan)) → Decidable (Static K net σ receptions)
  | _, [] => .isTrue trivial
  | σ, r :: receptions =>
    have := decidableStatic (receive K net σ r) receptions
    -- the instance for equal maps is a rewrite, which does not evaluate
    have : Decidable (∀ v, (receive K net σ r v).routing.mNeighbors = (σ v).routing.mNeighbors) :=
      decidable_of_iff (∀ v, (receive K net σ r v).routing.mNeighbors.entries =
        (σ v).routing.mNeighbors.entries) (forall_congr' fun _ => AList.ext_iff.symm)
    inferInstanceAs (Decidable (_ ∧ _ ∧ _))

def Forwards (σ : Nodes V Id Pair Ecdh Chan) (r : Reception Chan) (data : Binary) : Prop :=
  (inFlight net (arrange net σ r) r.channel).head? = some data ∧
    isState K net r.channel data = true ∧
    ∃ c, data ∈ (inFlight net (handle K net σ r) c).drop
      (inFlight net (arrange net σ r) c).length

def EverForwards (x : V) (data : Binary) :
    Nodes V Id Pair Ecdh Chan → List (Reception Chan) → Prop
  | _, [] => False
  | σ, r :: receptions =>
    (net.remote r.channel = x ∧ Forwards K net σ r data) ∨
      EverForwards x data (receive K net σ r) receptions

def ForwardsOnce : Nodes V Id Pair Ecdh Chan → List (Reception Chan) → Prop
  | _, [] => True
  | σ, r :: receptions =>
    (∀ data, Forwards K net σ r data →
      ¬ EverForwards K net (net.remote r.channel) data (receive K net σ r) receptions) ∧
      ForwardsOnce (receive K net σ r) receptions

end Runs

section Bounds
variable (K : CryptoPP Id Pair Ecdh) (net : Network V Id Chan)

def ports (n : Node Id Pair Ecdh Chan) : Finset Chan :=
  n.routing.mChannels.filter fun c => n.wire.isOpen c = true

def degree (σ : Nodes V Id Pair Ecdh Chan) (v : V) : ℕ := (ports (σ v)).card

def statesInFlight (S : Finset Chan) (σ : Nodes V Id Pair Ecdh Chan) : ℕ :=
  ∑ c ∈ S, (inFlight net σ c).countP (isState K net c)

variable [Fintype V]

def unknownPairs (σ : Nodes V Id Pair Ecdh Chan) : Finset (V × V) :=
  Finset.univ.filter fun p => (σ p.1).graph.stateOf ((σ p.2).id K) = none

end Bounds

/-- The State that the message carries, by its node and its number counted from one. -/
def Versioned (K : CryptoPP Id Pair Ecdh) (id : V → Id) (data : Binary) (p : V × ℕ) : Prop :=
  ∃ m pair s, data = frame K m ∧ Carries K pair s m ∧ s.id = id p.1 ∧ p.2 = s.sequence.toNat + 1

def known (id : V → Id) (σ : Nodes V Id Pair Ecdh Chan) (x v : V) : ℕ := heard (σ x) (id v)

def Covers (K : CryptoPP Id Pair Ecdh) (net : Network V Id Chan) (id : V → Id)
    (σ : Nodes V Id Pair Ecdh Chan) (news : Finset (V × ℕ)) : Prop :=
  ∀ c, ∀ data ∈ inFlight net σ c, ∀ p, Versioned K id data p → p ∈ news

section Steps
variable {K : CryptoPP Id Pair Ecdh} {net : Network V Id Chan} {id : V → Id} {key : V → Binary}
  {σ : Nodes V Id Pair Ecdh Chan} {x : V} {n' n₁ : Node Id Pair Ecdh Chan} {m : Message Id}
  {pair : Pair} {s : State Id} {c : Chan} {T : Finset Chan} {news : Finset (V × ℕ)}

omit [DecidableEq V] [DecidableEq Chan] [LinearOrder Id] in
theorem frame_inj (hK : EcdsaLaws K) {m' : Message Id} {pair' : Pair} (hm : SignedBy K pair m)
    (hm' : SignedBy K pair' m') (h : frame K m = frame K m') : m = m' := by
  have hparse : Message.parse K .little (frame K m) = .ok m := parse_signed hK .little hm
  have hparse' : Message.parse K .little (frame K m') = .ok m' := parse_signed hK .little hm'
  rw [h, hparse'] at hparse
  exact (Except.ok.inj hparse).symm

omit [DecidableEq V] [DecidableEq Chan] in
theorem versioned_carries (hK : EcdsaLaws K) (hid : Function.Injective id)
    (hm : Carries K pair s m) {p : V × ℕ} (hp : Versioned K id (frame K m) p) {v : V}
    (hv : s.id = id v) : p = (v, s.sequence.toNat + 1) := by
  obtain ⟨m', pair', s', hframe, hm', hid', hnumber⟩ := hp
  obtain rfl := frame_inj hK hm.signed hm'.signed hframe
  have hstate := hm.state
  rw [hm'.state] at hstate
  obtain rfl := Except.ok.inj hstate
  exact Prod.ext (hid (hid'.symm.trans hv)) hnumber

omit [DecidableEq V] [DecidableEq Chan] in
theorem not_versioned (hK : EcdsaLaws K) (hm : SignedBy K pair m)
    (htype : m.type ≠ MessageType.State) (p : V × ℕ) : ¬ Versioned K id (frame K m) p := by
  rintro ⟨m', pair', s', hframe, hm', -, -⟩
  obtain rfl := frame_inj hK hm hm'.signed hframe
  exact htype hm'.type

omit [DecidableEq V] [DecidableEq Chan] in
theorem covers_push {targets : Chan → Bool} {data : Binary} {σ' : Nodes V Id Pair Ecdh Chan}
    {news' : Finset (V × ℕ)} (h : Covers K net id σ news) (hsub : news ⊆ news')
    (hout : inFlight net σ' = push (inFlight net σ) targets data)
    (hdata : ∀ p, Versioned K id data p → p ∈ news') : Covers K net id σ' news' := by
  intro c data' hmem p hp
  rw [hout] at hmem
  rcases mem_push.mp hmem with hold | ⟨_, rfl⟩
  · exact hsub (h c data' hold p hp)
  · exact hdata p hp

omit [DecidableEq V] [LinearOrder Id] in
theorem reached_ports {n : Node Id Pair Ecdh Chan} {from_ : Option Chan}
    (hc : reached n.routing n.wire from_ c = true) : c ∈ ports n := by
  obtain ⟨hregistered, -, hopen⟩ := of_decide_eq_true hc
  exact Finset.mem_filter.mpr ⟨hregistered, hopen⟩

omit [DecidableEq V] [DecidableEq Chan] in
theorem ports_kept {n : Node Id Pair Ecdh Chan} (h : Kept n n') : ports n' = ports n := by
  rw [ports, ports, h.mChannels, h.isOpen]

omit [DecidableEq Chan] in
theorem known_update (hle : ∀ v, heard (σ x) (id v) ≤ heard n' (id v)) (y v : V) :
    known id σ y v ≤ known id (Function.update σ x n') y v := by
  rw [known, known]
  by_cases hy : y = x
  · subst hy
    rw [Function.update_self]
    exact hle v
  · rw [Function.update_of_ne hy]

omit [DecidableEq V] in
theorem reached_owner (h : Consistent K net id key σ) {from_ : Option Chan} (c : Chan)
    (hc : reached (σ x).routing (σ x).wire from_ c = true) : net.owner c = x :=
  ((reached_iff h from_ c).mp hc).1.2

theorem inFlight_announces (h : Consistent K net id key σ) (ha : Announces K s m (σ x) n') :
    inFlight net (Function.update σ x n') =
      push (inFlight net σ) (reached (σ x).routing (σ x).wire none) (frame K m) :=
  funext (inFlight_update ha.outbox (reached_owner h))

theorem inFlight_accepts (h : Consistent K net id key σ) (ha : Accepts K s m c (σ x) n') :
    inFlight net (Function.update σ x n') =
      push (inFlight net σ) (reached (σ x).routing (σ x).wire (some c)) (frame K m) :=
  funext (inFlight_update ha.outbox (reached_owner h))

omit [LinearOrder Id] [DecidableEq Chan] in
theorem inFlight_kept (hout : n'.wire.outbox = (σ x).wire.outbox) :
    inFlight net (Function.update σ x n') = inFlight net σ := by
  funext c
  rw [inFlight, read_update (fun n => n.wire.outbox) hout]
  rfl

variable [Fintype V]

def Pays (K : CryptoPP Id Pair Ecdh) (net : Network V Id Chan) (id : V → Id) (T : Finset Chan)
    (degree : V → ℕ) (news : Finset (V × ℕ)) (σ σ' : Nodes V Id Pair Ecdh Chan) : Prop :=
  ∃ news', Covers K net id σ' news' ∧
    transmitted T (isState K net) (inFlight net σ) (inFlight net σ') +
      reserve degree (known id σ') news' ≤ reserve degree (known id σ) news

omit [DecidableEq V] [DecidableEq Chan] in
theorem pays_silent (hcov : Covers K net id σ news) {σ' : Nodes V Id Pair Ecdh Chan}
    (hout : inFlight net σ' = inFlight net σ) {degree : V → ℕ}
    (hle : ∀ y v, known id σ y v ≤ known id σ' y v) : Pays K net id T degree news σ σ' := by
  refine ⟨news, fun c data hdata => hcov c data (by rwa [hout] at hdata), ?_⟩
  rw [hout, transmitted_self, Nat.zero_add]
  exact reserve_mono _ hle

omit [DecidableEq V] [DecidableEq Chan] [Fintype V] in
theorem carried_covered (hK : EcdsaLaws K) (hid : Function.Injective id)
    (hm : Carries K pair s m) {v : V} (hv : s.id = id v)
    (hmem : (v, s.sequence.toNat + 1) ∈ news) (p : V × ℕ) (hp : Versioned K id (frame K m) p) :
    p ∈ news := by
  rw [versioned_carries hK hid hm hp hv]
  exact hmem

omit [Fintype V] in
theorem announces_cost (h : Consistent K net id key σ) (ha : Announces K s m (σ x) n') :
    transmitted T (isState K net) (inFlight net σ) (inFlight net (Function.update σ x n')) ≤
      degree σ x := by
  rw [inFlight_announces h ha]
  exact transmitted_push_le fun c hc => reached_ports hc

omit [Fintype V] in
theorem accepts_cost (h : Consistent K net id key σ) (ha : Accepts K s m c (σ x) n') :
    transmitted T (isState K net) (inFlight net σ) (inFlight net (Function.update σ x n')) ≤
      degree σ x := by
  rw [inFlight_accepts h ha]
  exact transmitted_push_le fun c hc => reached_ports hc

theorem answered_pays (hK : EcdsaLaws K) (hid : Function.Injective id)
    (h : Sound K net id key σ) (hx : Ready K (σ x)) (hcov : Covers K net id σ news)
    (hm : Carries K pair s m) {v : V} (hv : s.id = id v)
    (hmem : (v, s.sequence.toNat + 1) ∈ news) {n₁ : Node Id Pair Ecdh Chan} {s₁ : State Id}
    {m₁ : Message Id} (hne : s.id ≠ (σ x).id K) (hzero : heard (σ x) s.id = 0)
    (ha₁ : Announces K s₁ m₁ (σ x) n₁) (ha : Accepts K s m c n₁ n') :
    Pays K net id T (degree σ) news σ (Function.update σ x n') := by
  have hxid : (σ x).id K = id x := h.consistent.identity x
  set number := (σ x).graph.mStateSequence.toNat + 1 with hnumber
  set σ₁ := Function.update σ x n₁ with hσ₁
  have hself : σ₁ x = n₁ := Function.update_self ..
  have hsound₁ : Sound K net id key σ₁ := sound_announces h hx ha₁
  have hidem : Function.update σ₁ x n' = Function.update σ x n' := Function.update_idem ..
  have ha' : Accepts K s m c (σ₁ x) n' := hself.symm ▸ ha
  have hout₁ := inFlight_announces h.consistent ha₁
  have hout := inFlight_accepts hsound₁.consistent ha'
  have hcost₁ : transmitted T (isState K net) (inFlight net σ) (inFlight net σ₁) ≤ degree σ x :=
    announces_cost h.consistent ha₁
  have hcost₂ : transmitted T (isState K net) (inFlight net σ₁)
      (inFlight net (Function.update σ₁ x n')) ≤ degree σ₁ x :=
    accepts_cost hsound₁.consistent ha'
  have hdegree : degree σ₁ x = degree σ x := by
    rw [degree, degree, hself, ports_kept ha₁.kept]
  rw [hidem] at hout hcost₂
  have hle₁ : ∀ y w, known id σ y w ≤ known id σ₁ y w :=
    known_update fun w => announced_mono hx ha₁ (id w)
  have hzero₁ : known id σ₁ x v = 0 := by
    have hsid : s.id ≠ s₁.id := ha₁.id ▸ hne
    rw [known, hself, ← hv, heard_update_of_ne ha₁.stored hsid, hzero]
  have hnews₁ : heard n₁ s.id < s.sequence.toNat + 1 := by
    rw [known, hself, ← hv] at hzero₁
    rw [hzero₁]
    exact Nat.succ_pos _
  have hle₂ : ∀ y w, known id σ₁ y w ≤ known id (Function.update σ x n') y w := by
    rw [← hidem]
    exact known_update fun w => hself.symm ▸ learned_mono ha.stored hnews₁ (id w)
  have hown : number ≤ known id σ₁ x x := by
    rw [known, hself, ← hxid, heard_announced ha₁]
  have hfar : s.sequence.toNat + 1 ≤ known id (Function.update σ x n') x v := by
    rw [known, Function.update_self, ← hv, heard_update ha.stored]
  have hsub : news ⊆ insert (x, number) news := Finset.subset_insert _ _
  have hcov₁ : Covers K net id σ₁ (insert (x, number) news) := by
    refine covers_push hcov hsub hout₁ ?_
    refine carried_covered hK hid ha₁.carries (ha₁.id.trans hxid) ?_
    rw [ha₁.sequence]
    exact Finset.mem_insert_self _ _
  refine ⟨_, covers_push hcov₁ (Finset.Subset.refl _) hout
    (carried_covered hK hid hm hv (hsub hmem)), ?_⟩
  have hprefix₁ : ∀ c, inFlight net σ c <+: inFlight net σ₁ c :=
    fun c => hout₁ ▸ prefix_push _ c
  have hprefix₂ : ∀ c, inFlight net σ₁ c <+: inFlight net (Function.update σ x n') c :=
    fun c => hout ▸ prefix_push _ c
  have hsplit : transmitted T (isState K net) (inFlight net σ)
      (inFlight net (Function.update σ x n')) =
        transmitted T (isState K net) (inFlight net σ) (inFlight net σ₁) +
          transmitted T (isState K net) (inFlight net σ₁)
            (inFlight net (Function.update σ x n')) :=
    transmitted_trans hprefix₁ hprefix₂
  have hpaid₁ : degree σ x + reserve (degree σ) (known id σ₁) (insert (x, number) news) ≤
      reserve (degree σ) (known id σ) news + ∑ y, degree σ y :=
    reserve_announce (degree σ) hle₁ hown
  have hpaid₂ := reserve_first (degree σ) hle₂ (hsub hmem) hzero₁ (Nat.succ_pos _) hfar
  omega

theorem outcome_pays (hK : EcdsaLaws K) (hid : Function.Injective id)
    (h : Sound K net id key σ) (hx : Ready K (σ x)) (hcov : Covers K net id σ news)
    (hm : Carries K pair s m) {v : V} (hv : s.id = id v) (hmem : (v, s.sequence.toNat + 1) ∈ news)
    (ho : Outcome K (σ x) s m c n') :
    Pays K net id T (degree σ) news σ (Function.update σ x n') := by
  have hle : ∀ y v, known id σ y v ≤ known id (Function.update σ x n') y v :=
    known_update fun v => outcome_mono hx ho (id v)
  cases ho with
  | dropped =>
    rw [Function.update_eq_self]
    exact pays_silent hcov rfl fun _ _ => Nat.le_refl _
  | refused hne hnews hb => exact pays_silent hcov (inFlight_kept hb.outbox) hle
  | accepted hne hnews ha =>
    refine ⟨news, covers_push hcov (Finset.Subset.refl _) (inFlight_accepts h.consistent ha)
      (carried_covered hK hid hm hv hmem), ?_⟩
    have hcost : transmitted T (isState K net) (inFlight net σ)
        (inFlight net (Function.update σ x n')) ≤ degree σ x := accepts_cost h.consistent ha
    have hnear : known id σ x v < s.sequence.toNat + 1 := by
      rw [known, ← hv]
      exact hnews
    have hfar : s.sequence.toNat + 1 ≤ known id (Function.update σ x n') x v := by
      rw [known, Function.update_self, ← hv, heard_update ha.stored]
    have hpaid := reserve_accept (degree σ) hle hmem hnear hfar
    omega
  | answered s₁ m₁ hne hzero ha₁ ha =>
    exact answered_pays hK hid h hx hcov hm hv hmem hne hzero ha₁ ha

theorem arrival_pays (hK : EcdsaLaws K) (hid : Function.Injective id)
    (h : Sound K net id key σ) (hx : Ready K (σ x)) (hcov : Covers K net id σ news)
    {c' : Chan} {data : Binary} (hdata : data ∈ inFlight net σ c')
    (ha : Arrival K id key σ x c data n')
    (hstatic : n'.routing.mNeighbors = (σ x).routing.mNeighbors) :
    Pays K net id T (degree σ) news σ (Function.update σ x n') := by
  cases ha with
  | ignored =>
    rw [Function.update_eq_self]
    exact pays_silent hcov rfl fun _ _ => Nat.le_refl _
  | @relayed m pair _ targets hsigned hhello hstate he =>
    have howner : ∀ c, targets c = true → net.owner c = x :=
      fun c hc => usable_owner h.consistent (he.usable c hc)
    have hout : inFlight net (Function.update σ x n') = push (inFlight net σ) targets (frame K m) :=
      funext (inFlight_update he.outbox howner)
    refine ⟨news, covers_push hcov (Finset.Subset.refl _) hout fun p hp =>
      absurd hp (not_versioned hK hsigned hstate p), ?_⟩
    rw [hout, transmitted_push_other, Nat.zero_add]
    · exact reserve_mono _ (known_update fun v => (heard_congr (congrFun he.stored (id v))).ge)
    · intro c
      rw [isState, carriesType_signed hK _ hsigned, decide_eq_false hstate]
  | greeted hg hsame =>
    rw [hsame hstatic, Function.update_eq_self]
    exact pays_silent hcov rfl fun _ _ => Nat.le_refl _
  | @informed m pair s _ hm hs ho =>
    obtain ⟨v, hv, -, -⟩ := hs
    exact outcome_pays hK hid h hx hcov hm hv
      (hcov c' _ hdata _ ⟨m, pair, s, rfl, hm, hv, rfl⟩) ho

omit [Fintype V] [DecidableEq V] in
theorem arrival_mono (hx : Ready K (σ x)) {data : Binary} (ha : Arrival K id key σ x c data n')
    (a : Id) : heard (σ x) a ≤ heard n' a := by
  cases ha with
  | ignored => exact Nat.le_refl _
  | relayed targets hsigned hhello hstate he => exact (heard_congr (congrFun he.stored a)).ge
  | greeted hg _ => exact greeting_mono hx hg a
  | informed hm hs ho => exact outcome_mono hx ho a

omit [Fintype V] [DecidableEq V] in
theorem arrival_kept {data : Binary} (ha : Arrival K id key σ x c data n') : Kept (σ x) n' := by
  cases ha with
  | ignored => exact kept_refl _
  | relayed targets hsigned hhello hstate he => exact he.kept
  | greeted hg _ => exact greeting_kept hg
  | informed hm hs ho => exact outcome_kept ho

omit [Fintype V] in
theorem arrival_news (hK : EcdsaLaws K) {data : Binary} (ha : Arrival K id key σ x c data n')
    (hstatic : n'.routing.mNeighbors = (σ x).routing.mNeighbors) {c₁ c₂ : Chan}
    (hstate : isState K net c₁ data = true)
    (hput : data ∈ (inFlight net (Function.update σ x n') c₂).drop (inFlight net σ c₂).length) :
    ∃ p, Versioned K id data p ∧ heard (σ x) (id p.1) < p.2 ∧ p.2 ≤ heard n' (id p.1) := by
  have hnothing : ∀ {n₁ : Node Id Pair Ecdh Chan}, n₁.wire.outbox = (σ x).wire.outbox →
      data ∉ (inFlight net (Function.update σ x n₁) c₂).drop (inFlight net σ c₂).length := by
    intro n₁ hout
    rw [inFlight_kept hout, List.drop_length]
    exact List.not_mem_nil
  cases ha with
  | ignored => exact absurd hput (hnothing rfl)
  | relayed targets hsigned hhello htype he =>
    rw [isState, carriesType_signed hK _ hsigned, decide_eq_false htype] at hstate
    cases hstate
  | greeted hg hsame =>
    rw [hsame hstatic] at hput
    exact absurd hput (hnothing rfl)
  | @informed m pair s _ hm hs ho =>
    obtain ⟨v, hv, -, -⟩ := hs
    refine ⟨(v, s.sequence.toNat + 1), ⟨m, pair, s, rfl, hm, hv, rfl⟩, ?_⟩
    dsimp only
    rw [← hv]
    cases ho with
    | dropped => exact absurd hput (hnothing rfl)
    | accepted hne hnews ha => exact ⟨hnews, (heard_update ha.stored).ge⟩
    | answered s₁ m₁ hne hzero ha₁ ha =>
      exact ⟨hzero ▸ Nat.succ_pos _, (heard_update ha.stored).ge⟩
    | refused hne hnews hb => exact absurd hput (hnothing hb.outbox)

end Steps

section Runs
variable {K : CryptoPP Id Pair Ecdh} {net : Network V Id Chan} {id : V → Id} {key : V → Binary}
  {σ : Nodes V Id Pair Ecdh Chan} {r : Reception Chan} {news : Finset (V × ℕ)}

omit [LinearOrder Id] in
theorem read_arrange {α : Type} (f : Node Id Pair Ecdh Chan → α)
    (hf : ∀ (n : Node Id Pair Ecdh Chan) out,
      f { n with wire := { n.wire with outbox := out } } = f n)
    (v : V) : f (arrange net σ r v) = f (σ v) :=
  read_update f (hf _ _) v

theorem receive_cases (hK : EcdsaLaws K) (hE : EcdhLaws K) (hid : Function.Injective id)
    (h : Steady K net id key (arrange net σ r)) :
    (handle K net σ r = arrange net σ r ∧ receive K net σ r = arrange net σ r ∧
      inFlight net (arrange net σ r) r.channel = []) ∨
    ∃ data rest n', inFlight net (arrange net σ r) r.channel = data :: rest ∧
      handle K net σ r = Function.update (arrange net σ r) (net.remote r.channel) n' ∧
      receive K net σ r = popAt net (handle K net σ r) r.channel ∧
      Arrival K id key (arrange net σ r) (net.remote r.channel) (net.peer r.channel) data n' := by
  unfold handle receive NodeNetwork.deliver
  cases hhead : inFlight net (arrange net σ r) r.channel with
  | nil => exact Or.inl ⟨rfl, rfl, rfl⟩
  | cons data rest =>
    have hdata : Honest K id key (arrange net σ r) data :=
      h.sound.honest r.channel data (by rw [hhead]; exact List.mem_cons_self)
    exact Or.inr ⟨data, rest, _, rfl, rfl, rfl,
      (arrive_arrival hK hE hid h.sound (h.ready _) _ hdata).1⟩

theorem heard_receive (hK : EcdsaLaws K) (hE : EcdhLaws K) (hid : Function.Injective id)
    (h : Steady K net id key σ) (x : V) (a : Id) :
    heard (σ x) a ≤ heard (receive K net σ r x) a := by
  have harranged : heard (arrange net σ r x) a = heard (σ x) a :=
    read_arrange (fun n => heard n a) (fun _ _ => rfl) x
  have h' : Steady K net id key (arrange net σ r) := steady_overtake h r.channel r.position
  rcases receive_cases hK hE hid h' with ⟨-, hreceive, -⟩ |
    ⟨data, rest, n', -, hhandle, hreceive, harrival⟩
  · rw [hreceive, harranged]
  · rw [hreceive, read_popAt net _ r.channel (fun n => heard n a) fun _ => rfl, hhandle,
      ← harranged]
    by_cases hx : x = net.remote r.channel
    · subst hx
      rw [Function.update_self]
      exact arrival_mono (h'.ready _) harrival a
    · rw [Function.update_of_ne hx]

theorem degree_receive (hK : EcdsaLaws K) (hE : EcdhLaws K) (hid : Function.Injective id)
    (h : Steady K net id key σ) : degree (receive K net σ r) = degree σ := by
  funext v
  have harranged : ports (arrange net σ r v) = ports (σ v) :=
    read_arrange ports (fun _ _ => rfl) v
  have h' : Steady K net id key (arrange net σ r) := steady_overtake h r.channel r.position
  rw [degree, degree, ← harranged]
  rcases receive_cases hK hE hid h' with ⟨-, hreceive, -⟩ |
    ⟨data, rest, n', -, hhandle, hreceive, harrival⟩
  · rw [hreceive]
  · rw [hreceive, read_popAt net _ r.channel ports fun _ => rfl, hhandle,
      read_update ports (ports_kept (arrival_kept harrival))]

theorem static_arrival {n' : Node Id Pair Ecdh Chan}
    (hhandle : handle K net σ r = Function.update (arrange net σ r) (net.remote r.channel) n')
    (hreceive : receive K net σ r = popAt net (handle K net σ r) r.channel)
    (hstatic : ∀ v, (receive K net σ r v).routing.mNeighbors = (σ v).routing.mNeighbors) :
    n'.routing.mNeighbors =
      (arrange net σ r (net.remote r.channel)).routing.mNeighbors := by
  have hsame := hstatic (net.remote r.channel)
  rw [hreceive, read_popAt net _ r.channel (fun n => n.routing.mNeighbors) fun _ => rfl, hhandle,
    Function.update_self] at hsame
  rw [hsame]
  exact (read_arrange (fun n => n.routing.mNeighbors) (fun _ _ => rfl) _).symm

/-- Whoever forwards a State message did not have that State before, and has it afterwards. -/
theorem forwards_news (hK : EcdsaLaws K) (hE : EcdhLaws K) (hid : Function.Injective id)
    (h : Steady K net id key σ)
    (hstatic : ∀ v, (receive K net σ r v).routing.mNeighbors = (σ v).routing.mNeighbors)
    {data : Binary} (hforwards : Forwards K net σ r data) :
    ∃ p, Versioned K id data p ∧ heard (σ (net.remote r.channel)) (id p.1) < p.2 ∧
      p.2 ≤ heard (receive K net σ r (net.remote r.channel)) (id p.1) := by
  obtain ⟨hhead, hstate, c, hput⟩ := hforwards
  have h' : Steady K net id key (arrange net σ r) := steady_overtake h r.channel r.position
  rcases receive_cases hK hE hid h' with ⟨-, -, hnil⟩ |
    ⟨data', rest, n', hcons, hhandle, hreceive, harrival⟩
  · rw [hnil] at hhead
    cases hhead
  · rw [hcons, List.head?_cons, Option.some.injEq] at hhead
    subst hhead
    rw [hhandle] at hput
    obtain ⟨p, hp, hold, hnew⟩ :=
      arrival_news hK harrival (static_arrival hhandle hreceive hstatic) hstate hput
    refine ⟨p, hp, ?_, ?_⟩
    · have harranged : heard (arrange net σ r (net.remote r.channel)) (id p.1) =
          heard (σ (net.remote r.channel)) (id p.1) :=
        read_arrange (fun n => heard n (id p.1)) (fun _ _ => rfl) _
      exact harranged ▸ hold
    · rw [hreceive, read_popAt net _ r.channel (fun n => heard n (id p.1)) fun _ => rfl, hhandle,
        Function.update_self]
      exact hnew

theorem covers_requeue (h : Covers K net id σ news) {c : Chan} {queue : List Binary}
    (hsub : ∀ data ∈ queue, data ∈ (σ (net.owner c)).wire.outbox c) :
    Covers K net id (Function.update σ (net.owner c) { σ (net.owner c) with
      wire := { (σ (net.owner c)).wire with
        outbox := Function.update (σ (net.owner c)).wire.outbox c queue } }) news := by
  intro c' data hdata
  apply h c' data
  rw [inFlight] at hdata ⊢
  by_cases howner : net.owner c' = net.owner c
  · rw [howner, Function.update_self] at hdata
    rw [howner]
    exact mem_of_mem_requeued hsub hdata
  · rw [Function.update_of_ne howner] at hdata
    exact hdata

theorem receive_pays [Fintype V] (hK : EcdsaLaws K) (hE : EcdhLaws K)
    (hid : Function.Injective id) (h : Steady K net id key σ) (hcov : Covers K net id σ news)
    (hstatic : ∀ v, (receive K net σ r v).routing.mNeighbors = (σ v).routing.mNeighbors)
    (T : Finset Chan) :
    ∃ news', Covers K net id (receive K net σ r) news' ∧
      transmitted T (isState K net) (inFlight net (arrange net σ r))
          (inFlight net (handle K net σ r)) +
        reserve (degree σ) (known id (receive K net σ r)) news' ≤
      reserve (degree σ) (known id σ) news := by
  have hdegree : degree (arrange net σ r) = degree σ :=
    funext fun v => congrArg Finset.card (read_arrange ports (fun _ _ => rfl) v)
  have hknown : known id (arrange net σ r) = known id σ :=
    funext fun x => funext fun v => read_arrange (fun n => heard n (id v)) (fun _ _ => rfl) x
  have h' : Steady K net id key (arrange net σ r) := steady_overtake h r.channel r.position
  have hcov' : Covers K net id (arrange net σ r) news :=
    covers_requeue hcov fun _ hdata => (overtake_perm _ _).mem_iff.mp hdata
  rw [← hknown, ← hdegree]
  rcases receive_cases hK hE hid h' with ⟨hhandle, hreceive, -⟩ |
    ⟨data, rest, n', hcons, hhandle, hreceive, harrival⟩
  · rw [hhandle, hreceive]
    refine ⟨news, hcov', ?_⟩
    rw [transmitted_self, Nat.zero_add]
  · have hdata : data ∈ inFlight net (arrange net σ r) r.channel := by
      rw [hcons]
      exact List.mem_cons_self
    obtain ⟨news', hcov'', hpaid⟩ := arrival_pays (T := T) hK hid h'.sound (h'.ready _) hcov'
      hdata harrival (static_arrival hhandle hreceive hstatic)
    have hpopped : known id (receive K net σ r) = known id (handle K net σ r) := by
      rw [hreceive]
      exact funext fun x => funext fun v =>
        read_popAt net _ r.channel (fun n => heard n (id v)) (fun _ => rfl) x
    rw [hpopped, hhandle]
    refine ⟨news', ?_, hpaid⟩
    rw [hreceive, hhandle]
    exact covers_requeue hcov'' fun _ hdata => List.mem_of_mem_tail hdata

theorem transmissions_le [Fintype V] (hK : EcdsaLaws K) (hE : EcdhLaws K)
    (hid : Function.Injective id) (T : Finset Chan) (receptions : List (Reception Chan)) :
    ∀ (σ : Nodes V Id Pair Ecdh Chan) (news : Finset (V × ℕ)), Steady K net id key σ →
      Covers K net id σ news → Static K net σ receptions →
      transmissions K net T σ receptions ≤ reserve (degree σ) (known id σ) news := by
  induction receptions with
  | nil => exact fun _ _ _ _ _ => Nat.zero_le _
  | cons r receptions ih =>
    intro σ news h hcov hstatic
    obtain ⟨hneighbors, hsparse, hrest⟩ := hstatic
    obtain ⟨news', hcov', hpaid⟩ := receive_pays hK hE hid h hcov hneighbors T
    have h' : Steady K net id key (receive K net σ r) :=
      steady_deliver hK hE hid (steady_overtake h r.channel r.position) r.channel hsparse
    have hlater := ih (receive K net σ r) news' h' hcov' hrest
    rw [degree_receive hK hE hid h] at hlater
    rw [transmissions]
    omega

theorem never_forwards (hK : EcdsaLaws K) (hE : EcdhLaws K) (hid : Function.Injective id) {x : V}
    {data : Binary} {p : V × ℕ} (hp : Versioned K id data p) (receptions : List (Reception Chan)) :
    ∀ σ : Nodes V Id Pair Ecdh Chan, Steady K net id key σ → Static K net σ receptions →
      p.2 ≤ heard (σ x) (id p.1) → ¬ EverForwards K net x data σ receptions := by
  induction receptions with
  | nil => exact fun _ _ _ _ hever => hever
  | cons r receptions ih =>
    intro σ h hstatic hknown hever
    obtain ⟨hneighbors, hsparse, hrest⟩ := hstatic
    have h' : Steady K net id key (receive K net σ r) :=
      steady_deliver hK hE hid (steady_overtake h r.channel r.position) r.channel hsparse
    rcases hever with ⟨rfl, hforwards⟩ | hlater
    · obtain ⟨p', hp', hnews, -⟩ := forwards_news hK hE hid h hneighbors hforwards
      obtain ⟨m, pair, s, rfl, hm, hv, hnumber⟩ := hp
      have hsame : p' = p :=
        (versioned_carries hK hid hm hp' hv).trans (Prod.ext rfl hnumber.symm)
      rw [hsame] at hnews
      omega
    · exact ih _ h' hrest (hknown.trans (heard_receive hK hE hid h x _)) hlater

theorem forwards_once (hK : EcdsaLaws K) (hE : EcdhLaws K) (hid : Function.Injective id)
    (receptions : List (Reception Chan)) :
    ∀ σ : Nodes V Id Pair Ecdh Chan, Steady K net id key σ → Static K net σ receptions →
      ForwardsOnce K net σ receptions := by
  induction receptions with
  | nil => exact fun _ _ _ => trivial
  | cons r receptions ih =>
    intro σ h hstatic
    obtain ⟨hneighbors, hsparse, hrest⟩ := hstatic
    have h' : Steady K net id key (receive K net σ r) :=
      steady_deliver hK hE hid (steady_overtake h r.channel r.position) r.channel hsparse
    refine ⟨fun data hforwards => ?_, ih _ h' hrest⟩
    obtain ⟨p, hp, -, hnew⟩ := forwards_news hK hE hid h hneighbors hforwards
    exact never_forwards hK hE hid hp receptions _ h' hrest hnew

omit [DecidableEq Chan] in
theorem queue_versions (hK : EcdsaLaws K) (hid : Function.Injective id) (c : Chan)
    (queue : List Binary) :
    ∃ news : Finset (V × ℕ), (∀ data ∈ queue, ∀ p, Versioned K id data p → p ∈ news) ∧
      news.card ≤ queue.countP (isState K net c) := by
  induction queue with
  | nil => exact ⟨∅, fun data hdata => absurd hdata List.not_mem_nil, Nat.zero_le _⟩
  | cons data queue ih =>
    obtain ⟨news, hnews, hcard⟩ := ih
    by_cases hversion : ∃ p, Versioned K id data p
    · obtain ⟨p, hp⟩ := hversion
      obtain ⟨m, pair, s, rfl, hm, hv, hnumber⟩ := hp
      refine ⟨insert p news, fun data' hdata' p' hp' => ?_, ?_⟩
      · rcases List.mem_cons.mp hdata' with rfl | hold
        · rw [versioned_carries hK hid hm hp' hv, ← hnumber]
          exact Finset.mem_insert_self _ _
        · exact Finset.mem_insert_of_mem (hnews data' hold p' hp')
      · have hstate : isState K net c (frame K m) = true := by
          rw [isState, carriesType_signed hK _ hm.signed, decide_eq_true hm.type]
        rw [List.countP_cons_of_pos hstate]
        exact (Finset.card_insert_le _ _).trans (Nat.add_le_add_right hcard 1)
    · refine ⟨news, fun data' hdata' p hp => ?_, hcard.trans ?_⟩
      · rcases List.mem_cons.mp hdata' with rfl | hold
        · exact absurd ⟨p, hp⟩ hversion
        · exact hnews data' hold p hp
      · exact (List.sublist_cons_self data queue).countP_le

omit [DecidableEq Chan] in
theorem flight_versions (hK : EcdsaLaws K) (hid : Function.Injective id) {S : Finset Chan}
    (hS : ∀ c, inFlight net σ c ≠ [] → c ∈ S) :
    ∃ news, Covers K net id σ news ∧ news.card ≤ statesInFlight K net S σ := by
  have hqueues : ∀ c, ∃ news : Finset (V × ℕ),
      (∀ data ∈ inFlight net σ c, ∀ p, Versioned K id data p → p ∈ news) ∧
        news.card ≤ (inFlight net σ c).countP (isState K net c) :=
    fun c => queue_versions hK hid c _
  choose news hnews hcard using hqueues
  refine ⟨S.biUnion news, fun c data hdata p hp => ?_, ?_⟩
  · exact Finset.mem_biUnion.mpr
      ⟨c, hS c (List.ne_nil_of_mem hdata), hnews c data hdata p hp⟩
  · exact Finset.card_biUnion_le.trans (Finset.sum_le_sum fun c _ => hcard c)

omit [DecidableEq V] [DecidableEq Chan] in
theorem unknown_known [Fintype V] (h : Sound K net id key σ) :
    unknown (known id σ) = (unknownPairs K σ).card := by
  rw [unknown, unknownPairs]
  congr 1
  ext p
  rw [Finset.mem_filter, Finset.mem_filter, known, heard_zero_iff, h.consistent.identity]

/-- From every reachable state on, with messages in flight on finitely many channels only, the
receptions transmit at most one State on every open channel for every State in flight at first
and for every pair of a node and one whose State it does not store. -/
theorem state_floods_die_out [Fintype V] (hK : EcdsaLaws K) (hE : EcdhLaws K)
    {w : World V Id Pair Ecdh Chan} (h : Reachable K net w) {S : Finset Chan}
    (hS : ∀ c, inFlight net w.nodes c ≠ [] → c ∈ S) (receptions : List (Reception Chan))
    (hstatic : Static K net w.nodes receptions) :
    (∀ T, transmissions K net T w.nodes receptions ≤ (∑ v, degree w.nodes v) *
      (statesInFlight K net S w.nodes + (unknownPairs K w.nodes).card)) ∧
    ForwardsOnce K net w.nodes receptions := by
  obtain ⟨id, key, hid, hsteady⟩ := steady_reachable hK hE h
  obtain ⟨news, hcov, hcard⟩ := flight_versions hK hid hS
  refine ⟨fun T => ?_, forwards_once hK hE hid receptions w.nodes hsteady hstatic⟩
  calc transmissions K net T w.nodes receptions
      ≤ reserve (degree w.nodes) (known id w.nodes) news :=
        transmissions_le hK hE hid T receptions w.nodes news hsteady hcov hstatic
    _ ≤ (∑ v, degree w.nodes v) * (news.card + unknown (known id w.nodes)) := reserve_le _ _ _
    _ ≤ _ := by
        rw [unknown_known hsteady.sound]
        exact Nat.mul_le_mul_left _ (Nat.add_le_add_right hcard _)

end Runs

-- Two nodes have greeted each other, and both have announced that. One message overtakes
-- another on its way.
namespace Sample
open QuiescentAgreement.Sample (crypto line nodes meeting started_nodes)

def world : World (Fin 3) (Fin 4) (Fin 4) (Fin 4) (Fin 6) :=
  run crypto line (World.initial nodes) (meeting.take 6)

theorem reachable_world : Reachable crypto line world :=
  reachable_run _ _ (.started started_nodes) (by decide +kernel)

def receptions : List (Reception (Fin 6)) := [⟨1, 0⟩, ⟨0, 1⟩, ⟨0, 0⟩]

theorem static_receptions : Static crypto line world.nodes receptions := by decide +kernel

theorem state_floods_die_out_sample :
    (∀ T, transmissions crypto line T world.nodes receptions ≤ (∑ v, degree world.nodes v) *
      (statesInFlight crypto line Finset.univ world.nodes +
        (unknownPairs crypto world.nodes).card)) ∧
    ForwardsOnce crypto line world.nodes receptions :=
  state_floods_die_out (K := crypto) LegioCrypto.Sample.ecdsaLaws LegioCrypto.Sample.ecdhLaws
    reachable_world (fun c _ => Finset.mem_univ c) receptions static_receptions

/-- Both States in flight are passed on once. -/
example : transmissions crypto line Finset.univ world.nodes receptions = 2 := by decide +kernel

end Sample

end StateFloods
