import Legio.LinkStateNetwork

set_option linter.style.header false

/-! Agreement on States in networks whose channels open and close. The network runs the
flooding of versioned announcements: version `k` of a node is its announcement number `k`,
counted from one. -/
namespace LinkStateAgreement

open LegioBinary LegioCrypto LegioMessage LegioNode Containers RoutingTableSearch
open ExceptionStates LinkStateStore GraphUpdates GraphRuns LocalLinks ChannelTopology NodeNetwork
open TransportSteps MessageRelay LinkStateSteps LinkStateNetwork ReplayFilter
open VersionedFlooding (Joined Growing)

variable {V Id Pair Ecdh Chan : Type}

def version (log : List (State Id)) : ℕ → Option (State Id)
  | 0 => none
  | k + 1 => log[k]?

theorem version_append {log : List (State Id)} {k : ℕ} (hk : k ≤ log.length) (s : State Id) :
    version (log ++ [s]) k = version log k := by
  cases k with
  | zero => rfl
  | succ k => exact List.getElem?_append_left hk

variable [DecidableEq V] [LinearOrder Id] [DecidableEq Chan]

/-- A message in flight, with the version it carries if it is a State message. -/
inductive Carried (K : CryptoPP Id Pair Ecdh) (net : Network V Id Chan) (id : V → Id)
    (announced : V → List (State Id)) (c : Chan) : Message Id × Option (V × ℕ) → Prop where
  | hello {m pair} (signed : SignedBy K pair m) (author : K.publicKey pair = id (net.owner c))
      (type : m.type = MessageType.Hello) (destination : m.destination = none) :
      Carried K net id announced c (m, none)
  | state {m pair s v i} (carries : Carries K pair s m) (author : K.publicKey pair = id v)
      (number : (announced v)[i]? = some s) : Carried K net id announced c (m, some (v, i + 1))
  | other {m pair} (signed : SignedBy K pair m) (hello : m.type ≠ MessageType.Hello)
      (state : m.type ≠ MessageType.State) : Carried K net id announced c (m, none)

structure Consistent (K : CryptoPP Id Pair Ecdh) (net : Network V Id Chan) (id : V → Id)
    (key : V → Binary) (σ : Nodes V Id Pair Ecdh Chan) : Prop where
  identity : ∀ v, (σ v).id K = id v
  ecdhKey : ∀ v, K.ecdhPublicKey (σ v).graph.mEcdh = key v
  typed : ∀ v, Typed (σ v)
  channels : ∀ v, ∀ c ∈ (σ v).routing.mChannels, net.owner c = v
  leads : ∀ v a c, (σ v).routing.mNeighbors.lookup a = some c → net.owner c = v

structure Simulates (K : CryptoPP Id Pair Ecdh) (net : Network V Id Chan) (id : V → Id)
    (key : V → Binary) (σ : Nodes V Id Pair Ecdh Chan)
    (items : Chan → List (Message Id × Option (V × ℕ)))
    (a : VersionedFlooding.State V Chan) : Prop where
  consistent : Consistent K net id key σ
  history : ∀ v i s, (σ v).graph.announced[i]? = some s →
    s.id = id v ∧ s.sequence = UInt32.ofNat i ∧ s.ecdhPublic = key v
  outbox : ∀ c, inFlight net σ c = (items c).map fun p => frame K p.1
  carried : ∀ c, ∀ p ∈ items c, Carried K net id (fun v => (σ v).graph.announced) c p
  ver : ∀ v, a.ver v = (σ v).graph.announced.length
  known : ∀ x v, (σ x).graph.stateOf (id v) = version (σ v).graph.announced (a.known x v)
  queue : ∀ c, a.queue c = (items c).filterMap Prod.snd
  up : a.up = up net σ

section Steps
variable {K : CryptoPP Id Pair Ecdh} {net : Network V Id Chan} {id : V → Id} {key : V → Binary}
  {σ : Nodes V Id Pair Ecdh Chan} {items : Chan → List (Message Id × Option (V × ℕ))}
  {a : VersionedFlooding.State V Chan} {x v : V} {n' : Node Id Pair Ecdh Chan} {m : Message Id}
  {s : State Id} {c : Chan} {k : ℕ} {targets : Chan → Bool}

omit [DecidableEq Chan] in
theorem consistent_replace (h : Consistent K net id key σ)
    (hpair : n'.ecdsaPair = (σ x).ecdsaPair) (hecdh : n'.graph.mEcdh = (σ x).graph.mEcdh)
    (htyped : Typed n') (hchannels : ∀ c ∈ n'.routing.mChannels, net.owner c = x)
    (hleads : ∀ b c, n'.routing.mNeighbors.lookup b = some c → net.owner c = x) :
    Consistent K net id key (Function.update σ x n') := by
  constructor
  · intro v
    rw [read_update (fun n => n.id K) (congrArg K.publicKey hpair)]
    exact h.identity v
  · intro v
    rw [read_update (fun n => K.ecdhPublicKey n.graph.mEcdh) (congrArg K.ecdhPublicKey hecdh)]
    exact h.ecdhKey v
  · intro v
    by_cases hv : v = x
    · subst hv
      rw [Function.update_self]
      exact htyped
    · rw [Function.update_of_ne hv]
      exact h.typed v
  · intro v c hc
    by_cases hv : v = x
    · subst hv
      rw [Function.update_self] at hc
      exact hchannels c hc
    · rw [Function.update_of_ne hv] at hc
      exact h.channels v c hc
  · intro v b c hc
    by_cases hv : v = x
    · subst hv
      rw [Function.update_self] at hc
      exact hleads b c hc
    · rw [Function.update_of_ne hv] at hc
      exact h.leads v b c hc

omit [DecidableEq Chan] in
theorem consistent_update (h : Consistent K net id key σ) (hk : Kept (σ x) n') :
    Consistent K net id key (Function.update σ x n') := by
  refine consistent_replace h hk.ecdsaPair hk.mEcdh (typed_kept (h.typed x) hk) ?_ ?_
  · rw [hk.mChannels]
    exact h.channels x
  · intro b c hc
    rcases hk.bound b c hc with hold | hnew
    · exact h.leads x b c hold
    · exact h.channels x c hnew

omit [DecidableEq Chan] [LinearOrder Id] in
theorem inFlight_update {data : Binary}
    (hout : n'.wire.outbox = push (σ x).wire.outbox targets data)
    (howner : ∀ c, targets c = true → net.owner c = x) (c : Chan) :
    inFlight net (Function.update σ x n') c = push (inFlight net σ) targets data c := by
  by_cases hc : net.owner c = x
  · subst hc
    simp only [inFlight, Function.update_self, hout, push]
  · rw [push_of_not _ fun ht => hc (howner c ht), inFlight, Function.update_of_ne hc]
    rfl

omit [DecidableEq V] [DecidableEq Chan] in
theorem carried_mono {A B : V → List (State Id)} {p : Message Id × Option (V × ℕ)}
    (hAB : ∀ v (i : ℕ) s, (A v)[i]? = some s → (B v)[i]? = some s) (h : Carried K net id A c p) :
    Carried K net id B c p := by
  cases h with
  | hello signed author type destination => exact .hello signed author type destination
  | state carries author number => exact .state carries author (hAB _ _ _ number)
  | other signed hello state => exact .other signed hello state

omit [DecidableEq V] in
theorem reached_iff (h : Consistent K net id key σ) (from_ : Option Chan) (c : Chan) :
    reached (σ x).routing (σ x).wire from_ c = true ↔
      (up net σ c = true ∧ net.owner c = x) ∧ some c ≠ from_ := by
  rw [reached, decide_eq_true_eq, up, Bool.and_eq_true, decide_eq_true_eq]
  constructor
  · rintro ⟨hregistered, hfrom, hopen⟩
    obtain rfl := h.channels x c hregistered
    exact ⟨⟨⟨hregistered, hopen⟩, rfl⟩, hfrom⟩
  · rintro ⟨⟨⟨hregistered, hopen⟩, rfl⟩, hfrom⟩
    exact ⟨hregistered, hfrom, hopen⟩

omit [DecidableEq V] [DecidableEq Chan] in
theorem usable_owner (h : Consistent K net id key σ) (hc : Usable (σ x) c) :
    net.owner c = x := by
  rcases hc.2 with hregistered | ⟨b, hb⟩
  · exact h.channels x c hregistered
  · exact h.leads x b c hb

theorem emit_step (h : Simulates K net id key σ items a) (he : Emits K m targets (σ x) n')
    (hm : ∀ c, targets c = true → net.owner c = x →
      Carried K net id (fun v => (σ v).graph.announced) c (m, none)) :
    Simulates K net id key (Function.update σ x n') (push items targets (m, none)) a := by
  have hann : ∀ v, (Function.update σ x n' v).graph.announced = (σ v).graph.announced :=
    read_update (fun n => n.graph.announced) he.announced
  have howner : ∀ c, targets c = true → net.owner c = x :=
    fun c hc => usable_owner h.consistent (he.usable c hc)
  constructor
  · exact consistent_update h.consistent he.kept
  · intro v i s hs
    rw [hann] at hs
    exact h.history v i s hs
  · intro c
    rw [inFlight_update he.outbox howner, map_push, funext h.outbox]
  · intro c p hp
    rw [funext hann]
    rcases mem_push.mp hp with hold | ⟨htarget, rfl⟩
    · exact h.carried c p hold
    · exact hm c htarget (howner c htarget)
  · intro v
    rw [hann]
    exact h.ver v
  · intro y v
    rw [hann, read_update (fun n => n.graph.stateOf) he.stored]
    exact h.known y v
  · intro c
    rw [filterMap_push_none fun _ _ => rfl]
    exact h.queue c
  · rw [up_update he.kept.mChannels he.kept.isOpen]
    exact h.up

theorem announce_step (hid : Function.Injective id) (h : Simulates K net id key σ items a)
    (hinv : VersionedFlooding.Invariant net.toCabling a)
    (hnext : (σ x).graph.mStateSequence = UInt32.ofNat (σ x).graph.announced.length)
    (ha : Announces K s m (σ x) n') :
    Simulates K net id key (Function.update σ x n')
      (push items (reached (σ x).routing (σ x).wire none)
        (m, some (x, (σ x).graph.announced.length + 1)))
      (a.announce net.toCabling x) := by
  have hself : (Function.update σ x n' x).graph.announced = (σ x).graph.announced ++ [s] := by
    rw [Function.update_self]
    exact ha.announced
  have hother : ∀ v, v ≠ x →
      (Function.update σ x n' v).graph.announced = (σ v).graph.announced := by
    intro v hv
    rw [Function.update_of_ne hv]
  have hsid : s.id = id x := ha.id.trans (h.consistent.identity x)
  have hmono : ∀ v (i : ℕ) t, (σ v).graph.announced[i]? = some t →
      (Function.update σ x n' v).graph.announced[i]? = some t := by
    intro v i t ht
    by_cases hv : v = x
    · subst hv
      rw [hself]
      exact (List.getElem?_append_left (List.getElem?_eq_some_iff.mp ht).1).trans ht
    · rw [hother v hv]
      exact ht
  constructor
  · exact consistent_update h.consistent ha.kept
  · intro v i t ht
    by_cases hv : v = x
    · subst hv
      rw [hself] at ht
      rcases Nat.lt_or_ge i (σ v).graph.announced.length with hi | hi
      · rw [List.getElem?_append_left hi] at ht
        exact h.history v i t ht
      · rw [List.getElem?_append_right hi] at ht
        obtain ⟨hlast, heq⟩ := List.getElem?_eq_some_iff.mp ht
        rw [List.length_singleton] at hlast
        have hi' : i = (σ v).graph.announced.length := by omega
        rw [List.getElem_singleton] at heq
        subst heq
        refine ⟨hsid, ?_, ha.ecdhPublic.trans (h.consistent.ecdhKey v)⟩
        rw [ha.sequence, hnext, hi']
    · rw [hother v hv] at ht
      exact h.history v i t ht
  · intro c
    rw [inFlight_update ha.outbox fun c hc => ((reached_iff h.consistent none c).mp hc).1.2,
      map_push, funext h.outbox]
  · intro c p hp
    rcases mem_push.mp hp with hold | ⟨_, rfl⟩
    · exact carried_mono hmono (h.carried c p hold)
    · refine .state ha.carries (h.consistent.identity x) ?_
      rw [hself, List.getElem?_append_right (Nat.le_refl _), Nat.sub_self]
      rfl
  · intro v
    simp only [VersionedFlooding.State.announce]
    by_cases hv : v = x
    · subst hv
      rw [hself, Function.update_self, h.ver, List.length_append, List.length_singleton]
    · rw [hother v hv, Function.update_of_ne hv]
      exact h.ver v
  · intro y v
    by_cases hyv : y = x ∧ v = x
    · obtain ⟨rfl, rfl⟩ := hyv
      rw [VersionedFlooding.announce_known_self, hself, Function.update_self, ha.stored, hsid,
        Function.update_self, h.ver, version,
        List.getElem?_append_right (Nat.le_refl _), Nat.sub_self]
      rfl
    · have hbound : a.known y v ≤ (σ v).graph.announced.length :=
        h.ver v ▸ hinv.bound y v
      have hversion : version (Function.update σ x n' v).graph.announced (a.known y v) =
          version (σ v).graph.announced (a.known y v) := by
        by_cases hv : v = x
        · subst hv
          rw [hself, version_append hbound]
        · rw [hother v hv]
      rw [VersionedFlooding.announce_known_other hyv, hversion, ← h.known]
      by_cases hy : y = x
      · subst hy
        have hne : id v ≠ s.id := fun heq => hyv ⟨rfl, hid (heq.trans hsid)⟩
        rw [Function.update_self, ha.stored, Function.update_of_ne hne]
      · rw [Function.update_of_ne hy]
  · intro c
    rw [filterMap_push (f := Prod.snd) fun _ _ => rfl, funext fun c => (h.queue c).symm]
    simp only [VersionedFlooding.State.announce, push, h.up, h.ver,
      reached_iff h.consistent none c, ne_eq, reduceCtorEq, not_false_eq_true, and_true]
  · rw [up_update ha.kept.mChannels ha.kept.isOpen]
    exact h.up

theorem accept_step (hid : Function.Injective id) (h : Simulates K net id key σ items a)
    (hx : net.remote c = x) (hmem : (m, some (v, k + 1)) ∈ items c) (hs : s.id = id v)
    (hnumber : (σ v).graph.announced[k]? = some s)
    (ha : Accepts K s m (net.peer c) (σ x) n') :
    Simulates K net id key (Function.update σ x n')
      (push items (reached (σ x).routing (σ x).wire (some (net.peer c))) (m, some (v, k + 1)))
      (a.accept net.toCabling c v (k + 1)) := by
  have hann : ∀ v, (Function.update σ x n' v).graph.announced = (σ v).graph.announced :=
    read_update (fun n => n.graph.announced) ha.announced
  constructor
  · exact consistent_update h.consistent ha.kept
  · intro v i s hs
    rw [hann] at hs
    exact h.history v i s hs
  · intro c'
    rw [inFlight_update ha.outbox fun c' hc' => ((reached_iff h.consistent _ c').mp hc').1.2,
      map_push, funext h.outbox]
  · intro c' p hp
    rw [funext hann]
    rcases mem_push.mp hp with hold | ⟨_, rfl⟩
    · exact h.carried c' p hold
    · cases h.carried c _ hmem with
      | state carries author number => exact .state carries author number
  · intro w
    rw [hann]
    exact h.ver w
  · intro y w
    rw [hann]
    by_cases hyw : y = net.remote c ∧ w = v
    · obtain ⟨rfl, rfl⟩ := hyw
      subst hx
      rw [VersionedFlooding.accept_known_self, Function.update_self, ha.stored, hs,
        Function.update_self]
      exact hnumber.symm
    · rw [VersionedFlooding.accept_known_other hyw, ← h.known]
      by_cases hy : y = x
      · subst hy
        have hne : id w ≠ s.id := fun heq => hyw ⟨hx.symm, hid (heq.trans hs)⟩
        rw [Function.update_self, ha.stored, Function.update_of_ne hne]
      · rw [Function.update_of_ne hy]
  · intro c'
    rw [filterMap_push (f := Prod.snd) fun _ _ => rfl, funext fun c => (h.queue c).symm]
    simp only [VersionedFlooding.State.accept, push, h.up, hx,
      reached_iff h.consistent (some (net.peer c)) c', ne_eq, Option.some.injEq, and_assoc]
  · rw [up_update ha.kept.mChannels ha.kept.isOpen]
    exact h.up

def popped (a : VersionedFlooding.State V Chan) (c : Chan) :
    Option (V × ℕ) → VersionedFlooding.State V Chan
  | none => a
  | some _ => a.take c

theorem pop_step (h : Simulates K net id key σ items a) {p : Message Id × Option (V × ℕ)}
    {rest : List (Message Id × Option (V × ℕ))} (hhead : items c = p :: rest) :
    Simulates K net id key (popAt net σ c) (Function.update items c rest) (popped a c p.2) := by
  have hkept : Kept (σ (net.owner c)) { σ (net.owner c) with
      wire := (σ (net.owner c)).wire.pop c } :=
    ⟨rfl, rfl, rfl, rfl, rfl, rfl, fun _ _ hc => Or.inl hc⟩
  have hann : ∀ v, (popAt net σ c v).graph.announced = (σ v).graph.announced :=
    read_popAt net σ c (fun n => n.graph.announced) fun _ => rfl
  have hrest : ∀ c', ∀ p' ∈ Function.update items c rest c', p' ∈ items c' := by
    intro c' p' hp'
    by_cases hc : c' = c
    · subst hc
      rw [Function.update_self] at hp'
      rw [hhead]
      exact List.mem_cons_of_mem _ hp'
    · rw [Function.update_of_ne hc] at hp'
      exact hp'
  have hknown : (popped a c p.2).known = a.known := by
    cases p.2 <;> rfl
  have hver : (popped a c p.2).ver = a.ver := by
    cases p.2 <;> rfl
  have hup : (popped a c p.2).up = a.up := by
    cases p.2 <;> rfl
  constructor
  · exact consistent_update h.consistent hkept
  · intro v i s hs
    rw [hann] at hs
    exact h.history v i s hs
  · intro c'
    by_cases hc : c' = c
    · subst hc
      have hout := h.outbox c'
      rw [hhead] at hout
      rw [Function.update_self]
      simp only [inFlight, popAt, Function.update_self, Wire.pop] at hout ⊢
      rw [hout]
      rfl
    · rw [Function.update_of_ne hc, ← h.outbox]
      unfold inFlight popAt
      by_cases howner : net.owner c' = net.owner c
      · rw [howner, Function.update_self]
        exact Function.update_of_ne hc ..
      · rw [Function.update_of_ne howner]
  · intro c' p' hp'
    rw [funext hann]
    exact h.carried c' p' (hrest c' p' hp')
  · intro v
    rw [hann, hver]
    exact h.ver v
  · intro y v
    have hstored : (popAt net σ c y).graph.stateOf = (σ y).graph.stateOf :=
      read_popAt net σ c (fun n => n.graph.stateOf) (fun _ => rfl) y
    rw [hann, hknown, ← h.known]
    exact congrFun hstored (id v)
  · intro c'
    cases htag : p.2 with
    | none =>
      rw [popped, h.queue]
      by_cases hc : c' = c
      · subst hc
        rw [Function.update_self, hhead, List.filterMap_cons_none htag]
      · rw [Function.update_of_ne hc]
    | some q =>
      simp only [popped, VersionedFlooding.State.take]
      by_cases hc : c' = c
      · subst hc
        rw [Function.update_self, Function.update_self, h.queue, hhead,
          List.filterMap_cons_some htag, List.tail_cons]
      · rw [Function.update_of_ne hc, Function.update_of_ne hc]
        exact h.queue c'
  · rw [hup, up_popAt]
    exact h.up

section Versions
variable (h : Simulates K net id key σ items a)
  (hinv : VersionedFlooding.Invariant net.toCabling a)
  (hnumber : (σ v).graph.announced[k]? = some s)
include h hinv hnumber

omit hnumber [DecidableEq V] in
/-- The State stored as a version is one that its node has announced. -/
theorem stored_version {j : ℕ} (hj : a.known x v = j + 1) :
    ∃ t, (σ x).graph.stateOf (id v) = some t ∧ t.sequence = UInt32.ofNat j ∧
      t.ecdhPublic = key v ∧ j < (σ v).graph.announced.length := by
  have hbound := hinv.bound x v
  rw [hj, h.ver] at hbound
  have hget : (σ v).graph.announced[j]? = some (σ v).graph.announced[j] :=
    List.getElem?_eq_getElem hbound
  obtain ⟨_, hseq, hkey⟩ := h.history v j _ hget
  refine ⟨_, ?_, hseq, hkey, hbound⟩
  rw [h.known x v, hj, version, hget]

omit [DecidableEq V] in
theorem fresh_iff (hlimit : ∀ v, (σ v).graph.announced.length < broadcastLimit) :
    Fresh (σ x) s ↔ a.known x v < k + 1 := by
  obtain ⟨hsid, hseq, _⟩ := h.history v k s hnumber
  rw [Fresh, hsid]
  cases hj : a.known x v with
  | zero =>
    rw [h.known x v, hj]
    exact ⟨fun _ => Nat.succ_pos k, fun _ c hc => by cases hc⟩
  | succ j =>
    obtain ⟨t, hstored, hseq', _, hbound⟩ := stored_version h hinv hj
    have hk := (List.getElem?_eq_some_iff.mp hnumber).1
    have hv := hlimit v
    have hcompare := compareSequence_pos_iff (i := k) (j := j) (by omega) (by omega)
    rw [hstored]
    constructor
    · intro hfresh
      have hpos := hfresh _ rfl
      rw [hseq, hseq', hcompare] at hpos
      omega
    · intro hlt c hc
      rw [← Option.some.inj hc, hseq, hseq', hcompare]
      omega

omit [DecidableEq V] in
theorem knownKey_iff : KnownKey (σ x) s ↔ 0 < a.known x v := by
  obtain ⟨hsid, _, hkey⟩ := h.history v k s hnumber
  rw [KnownKey, hsid]
  cases hj : a.known x v with
  | zero => simp [h.known x v, hj, version]
  | succ j =>
    obtain ⟨t, hstored, _, hkey', _⟩ := stored_version h hinv hj
    exact ⟨fun _ => Nat.succ_pos j, fun _ => ⟨t, hstored, hkey'.trans hkey.symm⟩⟩

end Versions

/-- The node `x` has come to `n'`, and the flooding has followed. -/
structure Moves (K : CryptoPP Id Pair Ecdh) (net : Network V Id Chan) (id : V → Id)
    (key : V → Binary) (σ : Nodes V Id Pair Ecdh Chan)
    (items : Chan → List (Message Id × Option (V × ℕ))) (a : VersionedFlooding.State V Chan)
    (x : V) (n' : Node Id Pair Ecdh Chan)
    (items' : Chan → List (Message Id × Option (V × ℕ)))
    (a' : VersionedFlooding.State V Chan) : Prop where
  simulates : Simulates K net id key (Function.update σ x n') items' a'
  invariant : VersionedFlooding.Invariant net.toCabling a'
  kept : Kept (σ x) n'
  since : (n'.graph.announced = (σ x).graph.announced ∧ a'.since = a.since) ∨
    ∃ s, n'.graph.announced = (σ x).graph.announced ++ [s] ∧
      a'.since = Function.update a.since x (a.live net.toCabling)
  sender : ∀ c, items' c ≠ [] → items c ≠ [] ∨ Usable (σ x) c
  started : ∀ c, items c <+: items' c

theorem moves_refl (h : Simulates K net id key σ items a)
    (hinv : VersionedFlooding.Invariant net.toCabling a) :
    Moves K net id key σ items a x (σ x) items a where
  simulates := by
    rw [Function.update_eq_self]
    exact h
  invariant := hinv
  kept := kept_refl _
  since := Or.inl ⟨rfl, rfl⟩
  sender _ hc := Or.inl hc
  started _ := List.prefix_rfl

theorem moves_emit (h : Simulates K net id key σ items a)
    (hinv : VersionedFlooding.Invariant net.toCabling a) (he : Emits K m targets (σ x) n')
    (hm : ∀ c, targets c = true → net.owner c = x →
      Carried K net id (fun v => (σ v).graph.announced) c (m, none)) :
    Moves K net id key σ items a x n' (push items targets (m, none)) a := by
  constructor
  · exact emit_step h he hm
  · exact hinv
  · exact he.kept
  · exact Or.inl ⟨he.announced, rfl⟩
  · intro c hc
    rcases push_ne_nil hc with hold | htarget
    · exact Or.inl hold
    · exact Or.inr (he.usable c htarget)
  · exact fun c => prefix_push _ c

theorem moves_announce (hid : Function.Injective id) (h : Simulates K net id key σ items a)
    (hinv : VersionedFlooding.Invariant net.toCabling a) (hvalid : Invariant K (σ x))
    (ha : Announces K s m (σ x) n') :
    Moves K net id key σ items a x n'
      (push items (reached (σ x).routing (σ x).wire none)
        (m, some (x, (σ x).graph.announced.length + 1)))
      (a.announce net.toCabling x) := by
  constructor
  · exact announce_step hid h hinv hvalid.numbered.next ha
  · exact VersionedFlooding.announce_invariant hinv x
  · exact ha.kept
  · exact Or.inr ⟨s, ha.announced, rfl⟩
  · intro c hc
    rcases push_ne_nil hc with hold | hreached
    · exact Or.inl hold
    · exact Or.inr (reached_usable hreached)
  · exact fun c => prefix_push _ c

theorem moves_accept (hid : Function.Injective id) {n₁ : Node Id Pair Ecdh Chan}
    {items₁ : Chan → List (Message Id × Option (V × ℕ))} {a₁ : VersionedFlooding.State V Chan}
    (h : Moves K net id key σ items a (net.remote c) n₁ items₁ a₁)
    (hmem : (m, some (v, k + 1)) ∈ items₁ c) (hs : s.id = id v)
    (hnumber : (σ v).graph.announced[k]? = some s) (hnews : a₁.known (net.remote c) v < k + 1)
    (ha : Accepts K s m (net.peer c) n₁ n') :
    Moves K net id key σ items a (net.remote c) n'
      (push items₁ (reached n₁.routing n₁.wire (some (net.peer c))) (m, some (v, k + 1)))
      (a₁.accept net.toCabling c v (k + 1)) := by
  have hself : Function.update σ (net.remote c) n₁ (net.remote c) = n₁ := Function.update_self ..
  have hnumber₁ : (Function.update σ (net.remote c) n₁ v).graph.announced[k]? = some s := by
    by_cases hv : v = net.remote c
    · subst hv
      rw [hself]
      rcases h.since with ⟨hsame, _⟩ | ⟨t, hmore, _⟩
      · rw [hsame]
        exact hnumber
      · rw [hmore]
        exact (List.getElem?_append_left (List.getElem?_eq_some_iff.mp hnumber).1).trans hnumber
    · rw [Function.update_of_ne hv]
      exact hnumber
  have hmem' : (v, k + 1) ∈ a₁.queue c := by
    rw [h.simulates.queue]
    exact List.mem_filterMap.mpr ⟨_, hmem, rfl⟩
  have ha₁ : Accepts K s m (net.peer c)
      (Function.update σ (net.remote c) n₁ (net.remote c)) n' := by
    rw [hself]
    exact ha
  have hstep := accept_step hid h.simulates rfl hmem hs hnumber₁ ha₁
  rw [Function.update_idem, hself] at hstep
  constructor
  · exact hstep
  · exact VersionedFlooding.accept_invariant h.invariant hmem' hnews
  · exact kept_trans h.kept ha.kept
  · rw [ha.announced]
    exact h.since
  · intro c' hc'
    rcases push_ne_nil hc' with hold | hreached
    · exact h.sender c' hold
    · obtain ⟨hregistered, _, hopen⟩ := of_decide_eq_true hreached
      rw [h.kept.mChannels] at hregistered
      rw [h.kept.isOpen] at hopen
      exact Or.inr ⟨hopen, Or.inl hregistered⟩
  · exact fun c' => (h.started c').trans (prefix_push _ c')

/-- The far side of channel `c` has handled the message `p` at its head. -/
structure Received (K : CryptoPP Id Pair Ecdh) (net : Network V Id Chan) (id : V → Id)
    (key : V → Binary) (σ : Nodes V Id Pair Ecdh Chan)
    (items : Chan → List (Message Id × Option (V × ℕ))) (a : VersionedFlooding.State V Chan)
    (c : Chan) (p : Message Id × Option (V × ℕ)) (n' : Node Id Pair Ecdh Chan)
    (items' : Chan → List (Message Id × Option (V × ℕ)))
    (a' : VersionedFlooding.State V Chan) : Prop where
  moves : Moves K net id key σ items a (net.remote c) n' items' a'
  stale : ∀ q, p.2 = some q → q.2 ≤ a'.known (net.remote c) q.1
  growing : a.up (net.peer c) = true → Growing net.toCabling a → Growing net.toCabling a'
  links : n'.routing.mNeighbors = (σ (net.remote c)).routing.mNeighbors ∨
    (n'.routing.mNeighbors =
        emplace (id (net.owner c)) (net.peer c) (σ (net.remote c)).routing.mNeighbors ∧
      (InStep K (σ (net.remote c)) →
        n'.graph.announced ≠ (σ (net.remote c)).graph.announced))
  greeted : p.1.type = MessageType.Hello → id (net.owner c) ∈ n'.routing.mNeighbors

section Receptions
variable (hK : EcdsaLaws K) (hE : EcdhLaws K) (hid : Function.Injective id)
  (h : Simulates K net id key σ items a)
  (hinv : VersionedFlooding.Invariant net.toCabling a)
  (hvalid : Invariant K (σ (net.remote c))) (H : Host Id) {pair : Pair}

include hK h hinv in
theorem receive_other (hm : SignedBy K pair m)
    (hhello : m.type ≠ MessageType.Hello) (hstate : m.type ≠ MessageType.State) :
    ∃ items' a', Received K net id key σ items a c (m, none)
      (Node.onMessage K H (σ (net.remote c)) (net.peer c) (frame K m)) items' a' := by
  obtain ⟨targets, hposts⟩ :=
    posts_onMessage H hK hm hhello hstate (net.peer c) (σ (net.remote c))
  have hrouting := congrArg
    (fun c : Pair × Routing Id Chan × LegioNode.Graph Id Ecdh => c.2.1.mNeighbors) hposts.core
  refine ⟨push items targets (m, none), a, ?_, ?_, fun _ hg => hg, Or.inl hrouting,
    fun htype => absurd htype hhello⟩
  · exact moves_emit h hinv (emits_of_posts hposts) fun _ _ _ => .other hm hhello hstate
  · intro q hq
    cases hq

include hK hE hid h hinv hvalid in
theorem receive_hello (hm : SignedBy K pair m) (hauthor : K.publicKey pair = id (net.owner c))
    (htype : m.type = MessageType.Hello) (hto : m.destination = none)
    (hregistered : net.peer c ∈ (σ (net.remote c)).routing.mChannels)
    (hb : Bounded (Node.onMessage K H (σ (net.remote c)) (net.peer c) (frame K m))) :
    ∃ items' a', Received K net id key σ items a c (m, none)
      (Node.onMessage K H (σ (net.remote c)) (net.peer c) (frame K m)) items' a' := by
  obtain ⟨hgreeted, -⟩ := onMessage_hello H hK hE (prepared_of_invariant hvalid)
    (h.consistent.typed _) hm htype hto hregistered hb
  rw [hauthor] at hgreeted
  generalize Node.onMessage K H (σ (net.remote c)) (net.peer c) (frame K m) = n' at hgreeted ⊢
  have hemplaced : ∀ r : Routing Id Chan, r.mNeighbors =
      emplace (id (net.owner c)) (net.peer c) (σ (net.remote c)).routing.mNeighbors →
      id (net.owner c) ∈ r.mNeighbors := by
    intro r hr
    rw [hr, mem_emplace]
    exact Or.inl rfl
  have hnever : ∀ {b : VersionedFlooding.State V Chan} (q : V × ℕ),
      ((m, none) : Message Id × Option (V × ℕ)).2 = some q →
        q.2 ≤ b.known (net.remote c) q.1 := by
    intro b q hq
    cases hq
  cases hgreeted with
  | known hknown =>
    exact ⟨items, a, moves_refl h hinv, hnever, fun _ hg => hg, Or.inl rfl, fun _ => hknown⟩
  | silent m' hstep hneighbors he =>
    refine ⟨_, a, moves_emit h hinv he ?_, hnever, fun _ hg => hg,
      Or.inr ⟨hneighbors, fun hin => absurd hin hstep⟩, fun _ => hemplaced _ hneighbors⟩
    exact fun _ hc => absurd hc Bool.false_ne_true
  | announced s m' hneighbors ha =>
    refine ⟨_, _, moves_announce hid h hinv hvalid ha, hnever, ?_, Or.inr ⟨hneighbors, ?_⟩,
      fun _ => hemplaced _ hneighbors⟩
    · exact fun _ hg => VersionedFlooding.announce_growing hinv hg _
    · intro _ hsame
      rw [ha.announced] at hsame
      exact List.cons_ne_nil _ _ (List.append_right_eq_self.mp hsame)

include hK hE hid h hinv hvalid in
theorem receive_state (hlimit : ∀ v, (σ v).graph.announced.length < broadcastLimit)
    (hm : Carries K pair s m) (hnumber : (σ v).graph.announced[k]? = some s)
    (hmem : (m, some (v, k + 1)) ∈ items c) :
    ∃ items' a', Received K net id key σ items a c (m, some (v, k + 1))
      (Node.onMessage K H (σ (net.remote c)) (net.peer c) (frame K m)) items' a' := by
  obtain ⟨hsid, _, _⟩ := h.history v k s hnumber
  have hself : s.id = (σ (net.remote c)).id K → v = net.remote c := by
    intro heq
    rw [hsid, h.consistent.identity] at heq
    exact hid heq
  have hother : s.id ≠ (σ (net.remote c)).id K → v ≠ net.remote c := by
    rintro hne rfl
    exact hne (by rw [hsid, h.consistent.identity])
  have hown : s.id = (σ (net.remote c)).id K → ¬ Fresh (σ (net.remote c)) s := by
    intro heq hfresh
    obtain ⟨current, hcurrent, -⟩ := hvalid.current
    have hmem : s ∈ (σ (net.remote c)).graph.announced := by
      obtain rfl := hself heq
      exact List.mem_of_getElem? hnumber
    have hpos := hfresh current (by rw [heq]; exact hcurrent)
    have hstale := announced_stale hvalid (hlimit _) hmem hcurrent
    omega
  obtain ⟨hinformed, -⟩ : Informed K (σ (net.remote c)) s m (net.peer c)
      (Node.onMessage K H (σ (net.remote c)) (net.peer c) (frame K m)) ∧ _ :=
    onMessage_state H hK hE (prepared_of_invariant hvalid) hvalid.bounded (h.consistent.typed _)
      hm hown
  generalize Node.onMessage K H (σ (net.remote c)) (net.peer c) (frame K m) = n'
    at hinformed ⊢
  have htype : m.type = MessageType.Hello → id (net.owner c) ∈ n'.routing.mNeighbors := by
    intro hhello
    rw [hm.type] at hhello
    cases hhello
  have hfresh := fresh_iff (x := net.remote c) h hinv hnumber hlimit
  have hkey := knownKey_iff (x := net.remote c) h hinv hnumber
  have hqueued : (v, k + 1) ∈ a.queue c := by
    rw [h.queue]
    exact List.mem_filterMap.mpr ⟨_, hmem, rfl⟩
  have hlive : a.up (net.peer c) = true → Growing net.toCabling a →
      a.live net.toCabling c = true := by
    intro hpeer hg
    exact Bool.and_eq_true_iff.mpr ⟨hg.sender c (List.ne_nil_of_mem hqueued), hpeer⟩
  cases hinformed with
  | own heq =>
    refine ⟨items, a, moves_refl h hinv, ?_, fun _ hg => hg, Or.inl rfl, htype⟩
    intro q hq
    cases hq
    obtain rfl := hself heq
    rw [hinv.own, h.ver]
    exact (List.getElem?_eq_some_iff.mp hnumber).1
  | stale hstale =>
    refine ⟨items, a, moves_refl h hinv, ?_, fun _ hg => hg, Or.inl rfl, htype⟩
    intro q hq
    cases hq
    rw [hfresh] at hstale
    exact Nat.le_of_not_lt hstale
  | accepted hne hf hk ha hneighbors =>
    have hnews := hfresh.mp hf
    refine ⟨_, _, moves_accept hid (moves_refl h hinv) hmem hsid hnumber hnews ha, ?_, ?_,
      Or.inl hneighbors, htype⟩
    · intro q hq
      cases hq
      rw [VersionedFlooding.accept_known_self]
    · intro hpeer hg
      apply VersionedFlooding.accept_growing hinv hg hqueued hnews (hlive hpeer hg)
      intro hzero
      exact absurd (hkey.mp hk) (by omega)
  | answered s₁ m₁ hne hf hk ha₁ ha hneighbors =>
    -- the announcement first, then the version received
    have hmoves := moves_announce hid h hinv hvalid ha₁
    have hknown : (a.announce net.toCabling (net.remote c)).known (net.remote c) v =
        a.known (net.remote c) v :=
      VersionedFlooding.announce_known_other fun heq => hother hne heq.2
    have hnews : (a.announce net.toCabling (net.remote c)).known (net.remote c) v < k + 1 := by
      rw [hknown]
      exact hfresh.mp hf
    have hmem₁ := mem_push_of_mem (reached (σ (net.remote c)).routing (σ (net.remote c)).wire none)
      (m₁, some (net.remote c, (σ (net.remote c)).graph.announced.length + 1)) hmem
    refine ⟨_, _, moves_accept hid hmoves hmem₁ hsid hnumber hnews ha, ?_, ?_,
      Or.inl hneighbors, htype⟩
    · intro q hq
      cases hq
      rw [VersionedFlooding.accept_known_self]
    · intro hpeer hg
      have hqueued₁ : (v, k + 1) ∈ (a.announce net.toCabling (net.remote c)).queue c :=
        VersionedFlooding.mem_announce_queue.mpr (Or.inl hqueued)
      apply VersionedFlooding.accept_growing hmoves.invariant
        (VersionedFlooding.announce_growing hinv hg _) hqueued₁ hnews (hlive hpeer hg)
      intro _ c' hc'
      simp only [VersionedFlooding.State.announce, Function.update_self]
      exact hc'

include hK hE hid h hinv hvalid in
theorem receive (hlimit : ∀ v, (σ v).graph.announced.length < broadcastLimit)
    {p : Message Id × Option (V × ℕ)} (hp : p ∈ items c)
    (hregistered : net.peer c ∈ (σ (net.remote c)).routing.mChannels)
    (hb : Bounded (Node.onMessage K H (σ (net.remote c)) (net.peer c) (frame K p.1))) :
    ∃ items' a', Received K net id key σ items a c p
      (Node.onMessage K H (σ (net.remote c)) (net.peer c) (frame K p.1)) items' a' := by
  cases h.carried c p hp with
  | hello signed author type destination =>
    exact receive_hello hK hE hid h hinv hvalid H signed author type destination hregistered hb
  | state carries author number =>
    exact receive_state hK hE hid h hinv hvalid H hlimit carries number hp
  | other signed hello state => exact receive_other hK h hinv H signed hello state

end Receptions

end Steps

end LinkStateAgreement
