import Legio.ChannelTopology
import Mathlib.Data.List.Basic
import Mathlib.Logic.Function.Basic
import Mathlib.Logic.Relation

set_option linter.style.header false

/-! Flooding of versioned announcements while channels come and go. A node keeps the newest
version it has heard of every node and passes news on to its other channels. `since v` is the
set of channels that have been open from before the last announcement of `v` until now. -/
namespace VersionedFlooding

open ChannelTopology

variable {V Chan : Type}

/-- A side is `up` when its node sends on it and receives from it. Version 0 is none. -/
structure State (V Chan : Type) where
  ver : V → ℕ
  known : V → V → ℕ
  queue : Chan → List (V × ℕ)
  up : Chan → Bool
  since : V → Chan → Bool

def State.live (s : State V Chan) (N : Cabling V Chan) (c : Chan) : Bool :=
  s.up c && s.up (N.peer c)

section Operations
variable [DecidableEq V] [DecidableEq Chan]

def State.switch (s : State V Chan) (N : Cabling V Chan) (c : Chan) (on : Bool) :
    State V Chan :=
  { s with
    up := Function.update s.up c on
    since := fun v c' => s.since v c' &&
      (Function.update s.up c on c' && Function.update s.up c on (N.peer c')) }

def State.announce (s : State V Chan) (N : Cabling V Chan) (v : V) : State V Chan :=
  { s with
    ver := Function.update s.ver v (s.ver v + 1)
    known := Function.update s.known v (Function.update (s.known v) v (s.ver v + 1))
    queue := fun c =>
      if s.up c ∧ N.owner c = v then s.queue c ++ [(v, s.ver v + 1)] else s.queue c
    since := Function.update s.since v (s.live N) }

def State.accept (s : State V Chan) (N : Cabling V Chan) (c : Chan) (v : V) (k : ℕ) :
    State V Chan :=
  { s with
    known := Function.update s.known (N.remote c) (Function.update (s.known (N.remote c)) v k)
    queue := fun c' =>
      if s.up c' ∧ N.owner c' = N.remote c ∧ c' ≠ N.peer c then s.queue c' ++ [(v, k)]
      else s.queue c' }

def State.take (s : State V Chan) (c : Chan) : State V Chan :=
  { s with queue := Function.update s.queue c (s.queue c).tail }

end Operations

/-- An announcement that one side has, the other side has or is about to get, if the
channel was open when it was made. -/
structure Invariant (N : Cabling V Chan) (s : State V Chan) : Prop where
  own : ∀ v, s.known v v = s.ver v
  positive : ∀ v, 0 < s.ver v
  bound : ∀ x v, s.known x v ≤ s.ver v
  carried : ∀ c v k, (v, k) ∈ s.queue c → k ≤ s.known (N.owner c) v
  since_live : ∀ v c, s.since v c = true → s.live N c = true
  since_peer : ∀ v c, s.since v c = true → s.since v (N.peer c) = true
  passed : ∀ v c, s.since v c = true → s.known (N.owner c) v = s.ver v →
    s.known (N.remote c) v = s.ver v ∨ (v, s.ver v) ∈ s.queue c

def Link (N : Cabling V Chan) (S : Chan → Bool) (x y : V) : Prop :=
  ∃ c, S c = true ∧ N.owner c = x ∧ N.remote c = y

def Joined (N : Cabling V Chan) (S : Chan → Bool) : V → V → Prop :=
  Relation.ReflTransGen (Link N S)

/-- What holds in addition as long as no side goes down: the sets `since` grow with time,
and a node has only heard of nodes that were joined to it at its last announcement. -/
structure Growing (N : Cabling V Chan) (s : State V Chan) : Prop where
  chain : ∀ v w, (∀ c, s.since v c = true → s.since w c = true) ∨
    ∀ c, s.since w c = true → s.since v c = true
  heard : ∀ x v, 0 < s.known x v → Joined N (s.since x) x v
  sender : ∀ c, s.queue c ≠ [] → s.up c = true

section Preservation
variable [DecidableEq V] [DecidableEq Chan] {N : Cabling V Chan} {s : State V Chan}

omit [DecidableEq V] [DecidableEq Chan] in
theorem live_peer (c : Chan) : s.live N (N.peer c) = s.live N c := by
  rw [State.live, State.live, N.peer_peer, Bool.and_comm]

omit [DecidableEq V] [DecidableEq Chan] in
theorem up_of_live {c : Chan} (h : s.live N c = true) : s.up c = true :=
  (Bool.and_eq_true_iff.mp h).1

omit [DecidableEq V] [DecidableEq Chan] in
theorem joined_mono {S T : Chan → Bool} (h : ∀ c, S c = true → T c = true) {x y : V}
    (hj : Joined N S x y) : Joined N T x y := by
  refine Relation.ReflTransGen.mono ?_ x y hj
  rintro a b ⟨c, hc, howner, hremote⟩
  exact ⟨c, h c hc, howner, hremote⟩

omit [DecidableEq V] [DecidableEq Chan] in
theorem joined_symm {S : Chan → Bool} (h : ∀ c, S c = true → S (N.peer c) = true) {x y : V}
    (hj : Joined N S x y) : Joined N S y x := by
  induction hj with
  | refl => exact .refl
  | tail _ hlink ih =>
    obtain ⟨c, hc, howner, hremote⟩ := hlink
    exact .head ⟨N.peer c, h c hc, hremote, by rw [N.remote_peer, howner]⟩ ih

omit [DecidableEq V] in
theorem switch_invariant (h : Invariant N s) (c : Chan) (on : Bool) :
    Invariant N (s.switch N c on) := by
  have hsince : ∀ v c', (s.switch N c on).since v c' = true → s.since v c' = true :=
    fun v c' hc' => (Bool.and_eq_true_iff.mp hc').1
  constructor
  · exact h.own
  · exact h.positive
  · exact h.bound
  · exact h.carried
  · exact fun v c' hc' => (Bool.and_eq_true_iff.mp hc').2
  · intro v c' hc'
    obtain ⟨hold, hlive⟩ := Bool.and_eq_true_iff.mp hc'
    refine Bool.and_eq_true_iff.mpr ⟨h.since_peer v c' hold, ?_⟩
    rw [N.peer_peer, Bool.and_comm]
    exact hlive
  · exact fun v c' hc' => h.passed v c' (hsince v c' hc')

omit [DecidableEq V] in
theorem switch_on_up {c c' : Chan} (hc' : s.up c' = true) :
    (s.switch N c true).up c' = true := by
  by_cases heq : c' = c
  · subst heq
    exact Function.update_self ..
  · exact (Function.update_of_ne heq ..).trans hc'

omit [DecidableEq V] in
theorem switch_on_since (h : Invariant N s) (c : Chan) :
    (s.switch N c true).since = s.since := by
  funext v c'
  cases hc' : s.since v c' with
  | false => simp [State.switch, hc']
  | true =>
    obtain ⟨hhere, hthere⟩ := Bool.and_eq_true_iff.mp (h.since_live v c' hc')
    exact Bool.and_eq_true_iff.mpr
      ⟨hc', Bool.and_eq_true_iff.mpr
        ⟨switch_on_up (N := N) hhere, switch_on_up (N := N) hthere⟩⟩

omit [DecidableEq V] in
theorem switch_on_growing (h : Invariant N s) (hg : Growing N s) (c : Chan) :
    Growing N (s.switch N c true) := by
  have hsince := switch_on_since h c
  constructor
  · rw [hsince]
    exact hg.chain
  · rw [hsince]
    exact hg.heard
  · exact fun c' hc' => switch_on_up (hg.sender c' hc')

omit [DecidableEq Chan] in
theorem announce_known_self (v : V) : (s.announce N v).known v v = s.ver v + 1 := by
  simp only [State.announce, Function.update_self]

omit [DecidableEq Chan] in
theorem announce_known_other {x v w : V} (h : ¬ (x = w ∧ v = w)) :
    (s.announce N w).known x v = s.known x v := by
  unfold State.announce
  by_cases hx : x = w
  · subst hx
    have hv : v ≠ x := fun hv => h ⟨rfl, hv⟩
    simp only [Function.update_self, Function.update_of_ne hv]
  · simp only [Function.update_of_ne hx]

omit [DecidableEq Chan] in
theorem mem_announce_queue {v w : V} {k : ℕ} {c : Chan} :
    (v, k) ∈ (s.announce N w).queue c ↔ (v, k) ∈ s.queue c ∨
      (s.up c = true ∧ N.owner c = w) ∧ v = w ∧ k = s.ver w + 1 := by
  dsimp only [State.announce]
  by_cases hc : s.up c = true ∧ N.owner c = w
  · rw [if_pos hc, List.mem_append, List.mem_singleton, Prod.mk.injEq]
    simp only [hc, true_and, and_self]
  · rw [if_neg hc]
    simp only [hc, false_and, or_false]

omit [DecidableEq Chan] in
theorem announce_invariant (h : Invariant N s) (w : V) : Invariant N (s.announce N w) := by
  have hver : ∀ v, v ≠ w → (s.announce N w).ver v = s.ver v :=
    fun v hv => Function.update_of_ne hv ..
  have hver' : (s.announce N w).ver w = s.ver w + 1 := Function.update_self ..
  have hmono : ∀ x v, s.known x v ≤ (s.announce N w).known x v := by
    intro x v
    by_cases hxv : x = w ∧ v = w
    · obtain ⟨rfl, rfl⟩ := hxv
      rw [announce_known_self, h.own]
      exact Nat.le_succ _
    · rw [announce_known_other hxv]
  constructor
  · intro v
    by_cases hv : v = w
    · subst hv
      rw [announce_known_self, hver']
    · rw [announce_known_other (fun hx => hv hx.1), hver v hv]
      exact h.own v
  · intro v
    by_cases hv : v = w
    · subst hv
      rw [hver']
      exact Nat.succ_pos _
    · rw [hver v hv]
      exact h.positive v
  · intro x v
    by_cases hv : v = w
    · subst hv
      rw [hver']
      by_cases hx : x = v
      · subst hx
        rw [announce_known_self]
      · rw [announce_known_other (fun hxv => hx hxv.1)]
        exact (h.bound x v).trans (Nat.le_succ _)
    · rw [hver v hv, announce_known_other (fun hxv => hv hxv.2)]
      exact h.bound x v
  · intro c v k hmem
    rcases mem_announce_queue.mp hmem with hold | ⟨⟨_, howner⟩, rfl, rfl⟩
    · exact (h.carried c v k hold).trans (hmono _ _)
    · rw [howner, announce_known_self]
  · intro v c hc
    by_cases hv : v = w
    · subst hv
      simp only [State.announce, Function.update_self] at hc
      exact hc
    · exact h.since_live v c (by simpa only [State.announce, Function.update_of_ne hv] using hc)
  · intro v c hc
    by_cases hv : v = w
    · subst hv
      simp only [State.announce, Function.update_self] at hc ⊢
      rw [live_peer]
      exact hc
    · simp only [State.announce, Function.update_of_ne hv] at hc ⊢
      exact h.since_peer v c hc
  · intro v c hc hknown
    by_cases hv : v = w
    · subst hv
      rw [hver'] at hknown ⊢
      simp only [State.announce, Function.update_self] at hc
      -- the new version is known to its node only, which sends it on the channel
      have howner : N.owner c = v := by
        by_contra hne
        rw [announce_known_other (fun hx => hne hx.1)] at hknown
        have := h.bound (N.owner c) v
        omega
      exact Or.inr (mem_announce_queue.mpr (Or.inr ⟨⟨up_of_live hc, howner⟩, rfl, rfl⟩))
    · simp only [State.announce, Function.update_of_ne hv] at hc
      rw [hver v hv] at hknown ⊢
      rw [announce_known_other (fun hx => hv hx.2)] at hknown ⊢
      rcases h.passed v c hc hknown with hremote | hmem
      · exact Or.inl hremote
      · exact Or.inr (mem_announce_queue.mpr (Or.inl hmem))

omit [DecidableEq Chan] in
theorem announce_growing (h : Invariant N s) (hg : Growing N s) (w : V) :
    Growing N (s.announce N w) := by
  have hself : (s.announce N w).since w = s.live N := Function.update_self ..
  have hother : ∀ v, v ≠ w → (s.announce N w).since v = s.since v :=
    fun v hv => Function.update_of_ne hv ..
  constructor
  · intro v u
    by_cases hv : v = w
    · by_cases hu : u = w
      · subst hv hu
        exact Or.inl fun c hc => hc
      · rw [hv, hself, hother u hu]
        exact Or.inr (h.since_live u)
    · by_cases hu : u = w
      · rw [hu, hself, hother v hv]
        exact Or.inl (h.since_live v)
      · rw [hother v hv, hother u hu]
        exact hg.chain v u
  · intro x v hknown
    by_cases hxv : x = w ∧ v = w
    · obtain ⟨rfl, rfl⟩ := hxv
      exact .refl
    · rw [announce_known_other hxv] at hknown
      have hheard := hg.heard x v hknown
      by_cases hx : x = w
      · subst hx
        rw [hself]
        exact joined_mono (h.since_live x) hheard
      · rw [hother x hx]
        exact hheard
  · intro c hc
    by_contra hdown
    have hnot : ¬ (s.up c = true ∧ N.owner c = w) := fun hup => hdown hup.1
    simp only [State.announce, if_neg hnot] at hc
    exact hdown (hg.sender c hc)

theorem accept_known_self (c : Chan) (v : V) (k : ℕ) :
    (s.accept N c v k).known (N.remote c) v = k := by
  simp only [State.accept, Function.update_self]

theorem accept_known_other {c : Chan} {v w x : V} {k : ℕ} (h : ¬ (x = N.remote c ∧ w = v)) :
    (s.accept N c v k).known x w = s.known x w := by
  unfold State.accept
  by_cases hx : x = N.remote c
  · subst hx
    have hw : w ≠ v := fun hw => h ⟨rfl, hw⟩
    simp only [Function.update_self, Function.update_of_ne hw]
  · simp only [Function.update_of_ne hx]

theorem mem_accept_queue {c c' : Chan} {v w : V} {k j : ℕ} :
    (w, j) ∈ (s.accept N c v k).queue c' ↔ (w, j) ∈ s.queue c' ∨
      (s.up c' = true ∧ N.owner c' = N.remote c ∧ c' ≠ N.peer c) ∧ w = v ∧ j = k := by
  dsimp only [State.accept]
  by_cases hc : s.up c' = true ∧ N.owner c' = N.remote c ∧ c' ≠ N.peer c
  · rw [if_pos hc, List.mem_append, List.mem_singleton, Prod.mk.injEq]
    simp only [hc, true_and, and_self, ne_eq, not_false_eq_true]
  · rw [if_neg hc]
    simp only [hc, false_and, or_false]

theorem accept_invariant (h : Invariant N s) {c : Chan} {v : V} {k : ℕ}
    (hmem : (v, k) ∈ s.queue c) (hnews : s.known (N.remote c) v < k) :
    Invariant N (s.accept N c v k) := by
  have hk : k ≤ s.ver v := (h.carried c v k hmem).trans (h.bound _ v)
  have hmono : ∀ x w, s.known x w ≤ (s.accept N c v k).known x w := by
    intro x w
    by_cases hxw : x = N.remote c ∧ w = v
    · obtain ⟨rfl, rfl⟩ := hxw
      rw [accept_known_self]
      exact Nat.le_of_lt hnews
    · rw [accept_known_other hxw]
  -- nobody learns of its own announcements from others
  have hne : v ≠ N.remote c := by
    rintro rfl
    rw [h.own] at hnews
    omega
  constructor
  · intro w
    rw [accept_known_other (fun hw => hne (hw.2.symm.trans hw.1))]
    exact h.own w
  · exact h.positive
  · intro x w
    by_cases hxw : x = N.remote c ∧ w = v
    · obtain ⟨rfl, rfl⟩ := hxw
      rw [accept_known_self]
      exact hk
    · rw [accept_known_other hxw]
      exact h.bound x w
  · intro c' w j hj
    rcases mem_accept_queue.mp hj with hold | ⟨⟨_, howner, _⟩, rfl, rfl⟩
    · exact (h.carried c' w j hold).trans (hmono _ _)
    · rw [howner, accept_known_self]
  · exact h.since_live
  · exact h.since_peer
  · intro w c' hc' hknown
    have hold : s.known (N.owner c') w = s.ver w →
        (s.accept N c v k).known (N.remote c') w = s.ver w ∨
          (w, s.ver w) ∈ (s.accept N c v k).queue c' := by
      intro hknown
      rcases h.passed w c' hc' hknown with hremote | hqueue
      · left
        have hle := hmono (N.remote c') w
        by_cases hxw : N.remote c' = N.remote c ∧ w = v
        · obtain ⟨hx, rfl⟩ := hxw
          rw [hx] at hremote
          omega
        · rw [accept_known_other hxw, hremote]
      · exact Or.inr (mem_accept_queue.mpr (Or.inl hqueue))
    by_cases hxw : N.owner c' = N.remote c ∧ w = v
    · obtain ⟨howner, rfl⟩ := hxw
      rw [howner, accept_known_self] at hknown
      by_cases hback : c' = N.peer c
      · -- the side that the news came from has them
        left
        have hsender := h.carried c w k hmem
        have hbound := h.bound (N.owner c) w
        have hlatest : s.known (N.owner c) w = s.ver w := by
          change k = s.ver w at hknown
          omega
        rw [hback, N.remote_peer]
        by_cases hself : N.owner c = N.remote c
        · rw [hself, accept_known_self]
          exact hknown
        · rw [accept_known_other (fun hx => hself hx.1)]
          exact hlatest
      · right
        change k = s.ver w at hknown
        exact mem_accept_queue.mpr (Or.inr ⟨⟨up_of_live (h.since_live w c' hc'), howner, hback⟩,
          rfl, hknown.symm⟩)
    · rw [accept_known_other hxw] at hknown
      exact hold hknown

theorem accept_growing (h : Invariant N s) (hg : Growing N s) {c : Chan} {v : V} {k : ℕ}
    (hmem : (v, k) ∈ s.queue c) (hnews : s.known (N.remote c) v < k) (hlive : s.live N c = true)
    (hfirst : s.known (N.remote c) v = 0 →
      ∀ c', s.live N c' = true → s.since (N.remote c) c' = true) :
    Growing N (s.accept N c v k) := by
  constructor
  · exact hg.chain
  · intro x w hknown
    by_cases hxw : x = N.remote c ∧ w = v
    · obtain ⟨rfl, rfl⟩ := hxw
      by_cases hzero : s.known (N.remote c) w = 0
      · have hsender := h.carried c w k hmem
        have hjoined := hg.heard (N.owner c) w (by omega)
        have hall := hfirst hzero
        have hlink : Link N (s.since (N.remote c)) (N.remote c) (N.owner c) :=
          ⟨N.peer c, hall _ (by rw [live_peer]; exact hlive), rfl, N.remote_peer c⟩
        exact .head hlink
          (joined_mono (fun c' hc' => hall c' (h.since_live _ c' hc')) hjoined)
      · exact hg.heard (N.remote c) w (Nat.pos_of_ne_zero hzero)
    · rw [accept_known_other hxw] at hknown
      exact hg.heard x w hknown
  · intro c' hc'
    by_contra hdown
    have hnot : ¬ (s.up c' = true ∧ N.owner c' = N.remote c ∧ c' ≠ N.peer c) :=
      fun hup => hdown hup.1
    simp only [State.accept, if_neg hnot] at hc'
    exact hdown (hg.sender c' hc')

omit [DecidableEq V] in
theorem take_invariant (h : Invariant N s) {c : Chan} {v : V} {k : ℕ} {rest : List (V × ℕ)}
    (head : s.queue c = (v, k) :: rest)
    (stale : s.live N c = false ∨ k ≤ s.known (N.remote c) v) : Invariant N (s.take c) := by
  have hmem : ∀ c', ∀ p ∈ (s.take c).queue c', p ∈ s.queue c' := by
    intro c' p hp
    by_cases hc : c' = c
    · subst hc
      simp only [State.take, Function.update_self] at hp
      exact List.mem_of_mem_tail hp
    · simpa only [State.take, Function.update_of_ne hc] using hp
  constructor
  · exact h.own
  · exact h.positive
  · exact h.bound
  · exact fun c' w j hj => h.carried c' w j (hmem c' _ hj)
  · exact h.since_live
  · exact h.since_peer
  · intro w c' hc' hknown
    rcases h.passed w c' hc' hknown with hremote | hqueue
    · exact Or.inl hremote
    · by_cases hc : c' = c
      · subst hc
        rw [head] at hqueue
        rcases List.mem_cons.mp hqueue with heq | hrest
        · obtain ⟨rfl, rfl⟩ := Prod.mk.inj heq
          rcases stale with hdead | hle
          · rw [h.since_live w c' hc'] at hdead
            cases hdead
          · exact Or.inl (Nat.le_antisymm (h.bound _ w) hle)
        · right
          simp only [State.take, Function.update_self, head, List.tail_cons]
          exact hrest
      · right
        simpa only [State.take, Function.update_of_ne hc] using hqueue

omit [DecidableEq V] in
theorem take_growing (hg : Growing N s) (c : Chan) : Growing N (s.take c) := by
  refine ⟨hg.chain, hg.heard, fun c' hc' => hg.sender c' ?_⟩
  by_cases hc : c' = c
  · subst hc
    intro hnil
    simp only [State.take, Function.update_self, hnil, List.tail_nil] at hc'
    exact hc' rfl
  · simpa only [State.take, Function.update_of_ne hc] using hc'

end Preservation

section Agreement
variable {N : Cabling V Chan} {s : State V Chan}

/-- Along channels that were open at the last announcement and still are. -/
theorem agreement (h : Invariant N s) (hquiet : ∀ c, s.live N c = true → s.queue c = [])
    {u v : V} (hj : Joined N (s.since v) v u) : s.known u v = s.ver v := by
  induction hj with
  | refl => exact h.own v
  | tail _ hlink ih =>
    obtain ⟨c, hc, rfl, rfl⟩ := hlink
    rcases h.passed v c hc ih with hremote | hmem
    · exact hremote
    · rw [hquiet c (h.since_live v c hc)] at hmem
      cases hmem

/-- While channels only come, every path of open channels has been open long enough: the
nodes at its ends have announced themselves over each of its channels. -/
theorem joined_since (h : Invariant N s) (hg : Growing N s)
    (hquiet : ∀ c, s.live N c = true → s.queue c = [])
    (hgreet : ∀ c, s.live N c = true → ∃ c', s.since (N.owner c) c' = true ∧
      N.owner c' = N.owner c ∧ N.remote c' = N.remote c)
    {u v : V} (hj : Joined N (s.live N) v u) : Joined N (s.since v) v u := by
  induction hj with
  | refl => exact .refl
  | @tail x y _ hlink ih =>
    obtain ⟨c, hc, rfl, rfl⟩ := hlink
    obtain ⟨c₁, hsince₁, howner₁, hremote₁⟩ := hgreet c hc
    obtain ⟨c₂, hsince₂, howner₂, hremote₂⟩ := hgreet (N.peer c) (by rw [live_peer]; exact hc)
    rw [N.remote_peer] at hremote₂
    change N.owner c₂ = N.remote c at howner₂
    change s.since (N.remote c) c₂ = true at hsince₂
    rcases hg.chain (N.owner c) v with hsub | _
    · exact ih.tail ⟨c₁, hsub c₁ hsince₁, howner₁, hremote₁⟩
    · rcases hg.chain (N.remote c) v with hsub | hsub
      · exact ih.tail ⟨N.peer c₂, h.since_peer v c₂ (hsub c₂ hsince₂), hremote₂,
          by rw [N.remote_peer, howner₂]⟩
      · -- the far node announced itself later, and `v` has heard of it
        have hback : Joined N (s.since (N.remote c)) (N.owner c) v :=
          joined_symm (h.since_peer _) (joined_mono hsub ih)
        have hpath : Joined N (s.since (N.remote c)) (N.remote c) v :=
          .head ⟨c₂, hsince₂, howner₂, hremote₂⟩ hback
        have hknown := agreement h hquiet hpath
        exact hg.heard v (N.remote c) (hknown ▸ h.positive _)

end Agreement

end VersionedFlooding
