import Legio.ChannelTopology
import Mathlib.Data.List.ReduceOption
import Mathlib.Logic.Relation

set_option linter.style.header false

/-! Flooding of the numbered sends of one source over channels that keep their order. A
node accepts a packet above every number it has seen and passes broadcasts on to its other
channels; lower numbers are dropped unseen. Sends that are no broadcasts use up numbers. -/
namespace SequencedFlooding

open ChannelTopology

variable {V Chan M : Type}

/-- The content is absent in a packet that is not passed on. -/
structure Packet (M : Type) where
  index : ℕ
  content : Option M

/-- `seen` is one above the highest number a node has accepted. -/
structure State (V Chan M : Type) where
  log : List (Option M)
  queue : Chan → List (Packet M)
  seen : V → ℕ
  accepted : V → List M

def initial : State V Chan M := ⟨[], fun _ => [], fun _ => 0, fun _ => []⟩

def others [DecidableEq V] [DecidableEq Chan] (N : Cabling V Chan) (v : V) (from_ : Chan) :
    Chan → Bool :=
  fun c => decide (N.owner c = v ∧ c ≠ from_)

section Steps
variable [DecidableEq V] [DecidableEq Chan]

def State.send (s : State V Chan M) (content : Option M) (targets : Chan → Bool) : State V Chan M :=
  { s with
    log := s.log ++ [content]
    queue := push s.queue targets ⟨s.log.length, content⟩ }

def State.accept (s : State V Chan M) (N : Cabling V Chan) (c : Chan) (p : Packet M) :
    State V Chan M :=
  { s with
    queue := if p.content.isSome then push s.queue (others N (N.remote c) (N.peer c)) p
      else s.queue
    seen := Function.update s.seen (N.remote c) (p.index + 1)
    accepted := Function.update s.accepted (N.remote c)
      (s.accepted (N.remote c) ++ p.content.toList) }

def State.echo (s : State V Chan M) (targets : Chan → Bool) (p : Packet M) : State V Chan M :=
  { s with queue := push s.queue targets p }

def State.take (s : State V Chan M) (c : Chan) : State V Chan M :=
  { s with queue := Function.update s.queue c (s.queue c).tail }

/-- A packet is accepted in its place and taken once it is stale. What the source does
with packets of its own that come back is left open. -/
inductive Step (N : Cabling V Chan) (x : V) : State V Chan M → State V Chan M → Prop where
  | send (s content targets) (own : ∀ c, targets c = true → N.owner c = x)
      (all : content.isSome = true → ∀ c, N.owner c = x → targets c = true) :
      Step N x s (s.send content targets)
  | accept (s c p rest) (head : s.queue c = p :: rest) (hne : N.remote c ≠ x)
      (fresh : s.seen (N.remote c) ≤ p.index) : Step N x s (s.accept N c p)
  | echo (s c p targets) (mem : p ∈ s.queue c) (own : ∀ c, targets c = true → N.owner c = x) :
      Step N x s (s.echo targets p)
  | take (s c p rest) (head : s.queue c = p :: rest)
      (stale : N.remote c = x ∨ p.index < s.seen (N.remote c)) : Step N x s (s.take c)

inductive Reachable (N : Cabling V Chan) (x : V) : State V Chan M → Prop where
  | initial : Reachable N x initial
  | step {s s'} : Reachable N x s → Step N x s s' → Reachable N x s'

end Steps

def State.Flooded (s : State V Chan M) (i : ℕ) (m : M) : Prop := s.log[i]? = some (some m)

/-- Cover: a broadcast that a node has dealt with is dealt with by its neighbours or on
the way to them. Order: nothing overtakes a broadcast. -/
structure Invariant (N : Cabling V Chan) (x : V) (s : State V Chan M) : Prop where
  book : ∀ c, ∀ p ∈ s.queue c, s.log[p.index]? = some p.content
  held : ∀ c, ∀ p ∈ s.queue c, N.owner c ≠ x → p.index < s.seen (N.owner c)
  issued : ∀ v, v ≠ x → s.seen v ≤ s.log.length
  cover : ∀ c, N.remote c ≠ x → ∀ i m, s.Flooded i m →
    N.owner c = x ∨ i < s.seen (N.owner c) → i < s.seen (N.remote c) ∨ ⟨i, some m⟩ ∈ s.queue c
  order : ∀ c, N.remote c ≠ x → ∀ before p after, s.queue c = before ++ p :: after →
    ∀ i m, s.Flooded i m → i < p.index → i < s.seen (N.remote c) ∨ ⟨i, some m⟩ ∈ before
  prefix_accepted : ∀ v, v ≠ x → s.accepted v = (s.log.take (s.seen v)).reduceOption

theorem split_append_singleton {α : Type} {l before after : List α} {a b : α}
    (h : l ++ [a] = before ++ b :: after) :
    (∃ after', l = before ++ b :: after') ∨ (before = l ∧ b = a) := by
  rcases List.eq_nil_or_concat after with rfl | ⟨after', z, rfl⟩
  · obtain ⟨hl, ha⟩ := List.append_inj' h rfl
    exact Or.inr ⟨hl.symm, (List.singleton_inj.mp ha).symm⟩
  · left
    rw [List.concat_eq_append, ← List.cons_append, ← List.append_assoc] at h
    exact ⟨after', (List.append_inj' h rfl).1⟩

theorem split_push {queue : Chan → List (Packet M)} {targets : Chan → Bool} {p p' : Packet M}
    {c : Chan} {before after : List (Packet M)}
    (h : push queue targets p c = before ++ p' :: after) :
    (∃ after', queue c = before ++ p' :: after') ∨
      (targets c = true ∧ before = queue c ∧ p' = p) := by
  unfold push at h
  split_ifs at h with htargets
  · rcases split_append_singleton h with hold | ⟨hbefore, hp⟩
    · exact Or.inl hold
    · exact Or.inr ⟨htargets, hbefore, hp⟩
  · exact Or.inl ⟨after, h⟩

theorem reduceOption_take_gap {log : List (Option M)} {a b : ℕ} (hab : a ≤ b)
    (hgap : ∀ i m, log[i]? = some (some m) → i < b → i < a) :
    (log.take b).reduceOption = (log.take a).reduceOption := by
  induction b, hab using Nat.le_induction with
  | base => rfl
  | succ b hab ih =>
    have hgap' : ∀ i m, log[i]? = some (some m) → i < b → i < a :=
      fun i m hi hlt => hgap i m hi (by omega)
    rw [List.take_add_one, List.reduceOption_append, ih hgap']
    cases hb : log[b]? with
    | none => exact List.append_nil _
    | some content =>
      cases content with
      | none => exact List.append_nil _
      | some m =>
        have := hgap b m hb (by omega)
        omega

section Preservation
variable [DecidableEq V] [DecidableEq Chan] {N : Cabling V Chan} {x : V} {s s' : State V Chan M}

omit [DecidableEq V] [DecidableEq Chan] in
theorem initial_invariant : Invariant N x (initial : State V Chan M) := by
  constructor
  · intro c p hp
    cases hp
  · intro c p hp
    cases hp
  · intro v _
    exact Nat.le_refl 0
  · intro c _ i m hi
    cases hi
  · intro c _ before p after hq
    have hlength := congrArg List.length hq
    simp [initial] at hlength
  · intro v _
    rfl

omit [DecidableEq V] [DecidableEq Chan] in
theorem flooded_send {content : Option M} {targets : Chan → Bool} {i : ℕ} {m : M} :
    (s.send content targets).Flooded i m ↔
      s.Flooded i m ∨ i = s.log.length ∧ content = some m := by
  unfold State.Flooded State.send
  rcases Nat.lt_trichotomy i s.log.length with h | h | h
  · rw [List.getElem?_append_left h]
    simp [Nat.ne_of_lt h]
  · subst h
    simp
  · rw [List.getElem?_append_right (by omega), List.getElem?_eq_none (by simp; omega),
      List.getElem?_eq_none (by omega)]
    simp
    omega

omit [DecidableEq V] [DecidableEq Chan] in
theorem send_preserves (h : Invariant N x s) {content : Option M} {targets : Chan → Bool}
    (own : ∀ c, targets c = true → N.owner c = x)
    (all : content.isSome = true → ∀ c, N.owner c = x → targets c = true) :
    Invariant N x (s.send content targets) := by
  have hlog : ∀ i < s.log.length, (s.log ++ [content])[i]? = s.log[i]? :=
    fun i hi => List.getElem?_append_left hi
  have hbook : ∀ c, ∀ p ∈ s.queue c, p.index < s.log.length := fun c p hp =>
    (List.getElem?_eq_some_iff.mp (h.book c p hp)).1
  constructor
  · intro c p hp
    rcases mem_push.mp hp with hold | ⟨_, rfl⟩
    · change (s.log ++ [content])[p.index]? = _
      rw [hlog _ (hbook c p hold)]
      exact h.book c p hold
    · exact List.getElem?_concat_length
  · intro c p hp hne
    rcases mem_push.mp hp with hold | ⟨htargets, _⟩
    · exact h.held c p hold hne
    · exact absurd (own c htargets) hne
  · intro v hv
    have hle := h.issued v hv
    simp only [State.send, List.length_append]
    omega
  · intro c hc i m hi hdealt
    rcases flooded_send.mp hi with hold | ⟨rfl, rfl⟩
    · rcases h.cover c hc i m hold hdealt with hseen | hmem
      · exact Or.inl hseen
      · exact Or.inr (mem_push_of_mem _ _ hmem)
    · rcases hdealt with howner | hseen
      · exact Or.inr (mem_push.mpr (Or.inr ⟨all rfl c howner, rfl⟩))
      · -- no other node has seen a number that is only now given away
        by_cases howner : N.owner c = x
        · exact Or.inr (mem_push.mpr (Or.inr ⟨all rfl c howner, rfl⟩))
        · have hle := h.issued _ howner
          have hseen : s.log.length < s.seen (N.owner c) := hseen
          omega
  · intro c hc before p after hq i m hi hlt
    have hold : ∀ j, i < j → j ≤ s.log.length → s.Flooded i m := by
      intro j hj hle
      rcases flooded_send.mp hi with hold | ⟨heq, _⟩
      · exact hold
      · omega
    rcases split_push hq with ⟨after', hq'⟩ | ⟨htargets, rfl, rfl⟩
    · have hp : p ∈ s.queue c := by rw [hq']; simp
      exact h.order c hc before p after' hq' i m
        (hold _ hlt (Nat.le_of_lt (hbook c p hp))) hlt
    · exact h.cover c hc i m (hold _ hlt (Nat.le_refl _)) (Or.inl (own c htargets))
  · intro v hv
    have hle := h.issued v hv
    change s.accepted v = ((s.log ++ [content]).take (s.seen v)).reduceOption
    rw [List.take_append_of_le_length hle]
    exact h.prefix_accepted v hv

omit [DecidableEq V] [DecidableEq Chan] in
theorem echo_preserves (h : Invariant N x s) {c : Chan} {p : Packet M} {targets : Chan → Bool}
    (mem : p ∈ s.queue c) (own : ∀ c, targets c = true → N.owner c = x) :
    Invariant N x (s.echo targets p) := by
  constructor
  · intro c' p' hp
    rcases mem_push.mp hp with hold | ⟨_, rfl⟩
    · exact h.book c' p' hold
    · exact h.book c _ mem
  · intro c' p' hp hne
    rcases mem_push.mp hp with hold | ⟨htargets, _⟩
    · exact h.held c' p' hold hne
    · exact absurd (own c' htargets) hne
  · exact h.issued
  · intro c' hc i m hi hdealt
    rcases h.cover c' hc i m hi hdealt with hseen | hmem
    · exact Or.inl hseen
    · exact Or.inr (mem_push_of_mem _ _ hmem)
  · intro c' hc before p' after hq i m hi hlt
    rcases split_push hq with ⟨after', hq'⟩ | ⟨htargets, rfl, rfl⟩
    · exact h.order c' hc before p' after' hq' i m hi hlt
    · exact h.cover c' hc i m hi (Or.inl (own c' htargets))
  · exact h.prefix_accepted

omit [DecidableEq V] in
theorem take_preserves (h : Invariant N x s) {c : Chan} {p : Packet M} {rest : List (Packet M)}
    (head : s.queue c = p :: rest) (stale : N.remote c = x ∨ p.index < s.seen (N.remote c)) :
    Invariant N x (s.take c) := by
  have hself : (s.take c).queue c = rest := by
    simp only [State.take, Function.update_self, head, List.tail_cons]
  have hother : ∀ c', c' ≠ c → (s.take c).queue c' = s.queue c' :=
    fun c' hne => Function.update_of_ne hne ..
  have hmem : ∀ c', ∀ p' ∈ (s.take c).queue c', p' ∈ s.queue c' := by
    intro c' p' hp
    by_cases hc : c' = c
    · subst hc
      rw [hself] at hp
      rw [head]
      exact List.mem_cons_of_mem p hp
    · rwa [hother c' hc] at hp
  constructor
  · exact fun c' p' hp => h.book c' p' (hmem c' p' hp)
  · exact fun c' p' hp => h.held c' p' (hmem c' p' hp)
  · exact h.issued
  · intro c' hc' i m hi hdealt
    rcases h.cover c' hc' i m hi hdealt with hseen | hin
    · exact Or.inl hseen
    · by_cases hc : c' = c
      · subst hc
        rw [head] at hin
        rcases List.mem_cons.mp hin with rfl | hin
        · exact Or.inl (stale.resolve_left hc')
        · exact Or.inr (hself.symm ▸ hin)
      · exact Or.inr ((hother c' hc).symm ▸ hin)
  · intro c' hc' before p' after hq i m hi hlt
    by_cases hc : c' = c
    · subst hc
      have hq' : s.queue c' = (p :: before) ++ p' :: after := by
        rw [head, ← hself, hq]
        rfl
      rcases h.order c' hc' (p :: before) p' after hq' i m hi hlt with hseen | hin
      · exact Or.inl hseen
      · rcases List.mem_cons.mp hin with rfl | hin
        · exact Or.inl (stale.resolve_left hc')
        · exact Or.inr hin
    · rw [hother c' hc] at hq
      exact h.order c' hc' before p' after hq i m hi hlt
  · exact h.prefix_accepted

section Accepting
variable {c : Chan} {p : Packet M}

theorem accept_seen (s : State V Chan M) (c : Chan) (p : Packet M) :
    (s.accept N c p).seen (N.remote c) = p.index + 1 := by
  simp only [State.accept, Function.update_self]

theorem accept_seen_mono (fresh : s.seen (N.remote c) ≤ p.index) (v : V) :
    s.seen v ≤ (s.accept N c p).seen v := by
  by_cases hv : v = N.remote c
  · subst hv
    rw [accept_seen]
    omega
  · simp only [State.accept, Function.update_of_ne hv]
    exact Nat.le_refl _

theorem mem_accept {c' : Chan} {p' : Packet M} (hp' : p' ∈ (s.accept N c p).queue c') :
    p' ∈ s.queue c' ∨ N.owner c' = N.remote c ∧ p' = p := by
  unfold State.accept at hp'
  split_ifs at hp'
  · rcases mem_push.mp hp' with hold | ⟨hothers, hnew⟩
    · exact Or.inl hold
    · exact Or.inr ⟨(of_decide_eq_true hothers).1, hnew⟩
  · exact Or.inl hp'

theorem mem_accept_of_mem {c' : Chan} {p' : Packet M} (hp' : p' ∈ s.queue c') :
    p' ∈ (s.accept N c p).queue c' := by
  unfold State.accept
  split_ifs
  · exact mem_push_of_mem _ _ hp'
  · exact hp'

theorem split_accept {c' : Chan} {before after : List (Packet M)} {p' : Packet M}
    (hq : (s.accept N c p).queue c' = before ++ p' :: after) :
    (∃ after', s.queue c' = before ++ p' :: after') ∨
      (N.owner c' = N.remote c ∧ before = s.queue c' ∧ p' = p) := by
  unfold State.accept at hq
  split_ifs at hq
  · rcases split_push hq with hold | ⟨hothers, hbefore, hnew⟩
    · exact Or.inl hold
    · exact Or.inr ⟨(of_decide_eq_true hothers).1, hbefore, hnew⟩
  · exact Or.inl ⟨after, hq⟩

variable {rest : List (Packet M)} (h : Invariant N x s) (head : s.queue c = p :: rest)
  (hne : N.remote c ≠ x)
include h head hne

omit [DecidableEq V] [DecidableEq Chan] in
/-- The head of a queue does not jump over a broadcast. -/
theorem head_gap {i : ℕ} {m : M} (hi : s.Flooded i m) (hlt : i < p.index) :
    i < s.seen (N.remote c) := by
  rcases h.order c hne [] p rest head i m hi hlt with hseen | hin
  · exact hseen
  · cases hin

theorem accept_cover (fresh : s.seen (N.remote c) ≤ p.index) {c' : Chan}
    (hc' : N.remote c' ≠ x) {i : ℕ} {m : M} (hi : s.Flooded i m)
    (hdealt : N.owner c' = x ∨ i < (s.accept N c p).seen (N.owner c')) :
    i < (s.accept N c p).seen (N.remote c') ∨ ⟨i, some m⟩ ∈ (s.accept N c p).queue c' := by
  have hp : p ∈ s.queue c := by
    rw [head]
    exact List.mem_cons_self
  have hcover : N.owner c' = x ∨ i < s.seen (N.owner c') →
      i < (s.accept N c p).seen (N.remote c') ∨ ⟨i, some m⟩ ∈ (s.accept N c p).queue c' := by
    intro hdealt
    rcases h.cover c' hc' i m hi hdealt with hseen | hin
    · exact Or.inl (Nat.lt_of_lt_of_le hseen (accept_seen_mono fresh _))
    · exact Or.inr (mem_accept_of_mem hin)
  by_cases howner : N.owner c' = N.remote c
  · by_cases hlt : i < s.seen (N.remote c)
    · exact hcover (Or.inr (howner ▸ hlt))
    · -- the broadcast that is being accepted
      have heq : i = p.index := by
        rcases hdealt with hsource | hseen
        · exact absurd (howner.symm.trans hsource) hne
        · rw [howner, accept_seen] at hseen
          by_contra hneq
          exact hlt (head_gap h head hne hi (by omega))
      subst heq
      have hcontent : p.content = some m := by
        rw [State.Flooded, h.book c p hp] at hi
        exact Option.some.inj hi
      by_cases hback : c' = N.peer c
      · subst hback
        rw [Cabling.remote_peer] at hc' ⊢
        exact Or.inl (Nat.lt_of_lt_of_le (h.held c p hp hc') (accept_seen_mono fresh _))
      · right
        have hothers : others N (N.remote c) (N.peer c) c' = true :=
          decide_eq_true ⟨howner, hback⟩
        have hpacket : (⟨p.index, some m⟩ : Packet M) = p := by rw [← hcontent]
        simp only [State.accept, hcontent, Option.isSome_some, if_true]
        rw [hpacket]
        exact mem_push.mpr (Or.inr ⟨hothers, rfl⟩)
  · apply hcover
    rcases hdealt with hsource | hseen
    · exact Or.inl hsource
    · right
      simpa only [State.accept, Function.update_of_ne howner] using hseen

theorem accept_preserves (fresh : s.seen (N.remote c) ≤ p.index) :
    Invariant N x (s.accept N c p) := by
  have hp : p ∈ s.queue c := by
    rw [head]
    exact List.mem_cons_self
  have hbook := h.book c p hp
  constructor
  · intro c' p' hp'
    rcases mem_accept hp' with hold | ⟨_, rfl⟩
    · exact h.book c' p' hold
    · exact hbook
  · intro c' p' hp' howner
    rcases mem_accept hp' with hold | ⟨hremote, rfl⟩
    · exact Nat.lt_of_lt_of_le (h.held c' p' hold howner) (accept_seen_mono fresh _)
    · rw [hremote, accept_seen]
      exact Nat.lt_succ_self _
  · intro v hv
    by_cases hv' : v = N.remote c
    · rw [hv', accept_seen]
      exact (List.getElem?_eq_some_iff.mp hbook).1
    · simp only [State.accept, Function.update_of_ne hv']
      exact h.issued v hv
  · exact fun c' hc' i m hi hdealt => accept_cover h head hne fresh hc' hi hdealt
  · intro c' hc' before p' after hq i m hi hlt
    have hseen_or : i < s.seen (N.remote c') ∨ (⟨i, some m⟩ : Packet M) ∈ before := by
      rcases split_accept hq with ⟨after', hq'⟩ | ⟨howner, rfl, rfl⟩
      · exact h.order c' hc' before p' after' hq' i m hi hlt
      · exact h.cover c' hc' i m hi (Or.inr (howner ▸ head_gap h head hne hi hlt))
    rcases hseen_or with hseen | hin
    · exact Or.inl (Nat.lt_of_lt_of_le hseen (accept_seen_mono fresh _))
    · exact Or.inr hin
  · intro v hv
    by_cases hv' : v = N.remote c
    · subst hv'
      have htake : (s.log.take (p.index + 1)).reduceOption =
          (s.log.take (s.seen (N.remote c))).reduceOption ++ p.content.toList := by
        rw [List.take_add_one, hbook, List.reduceOption_append,
          reduceOption_take_gap fresh fun i m hi hlt => head_gap h head hne hi hlt]
        simp [List.reduceOption_singleton]
      simp only [State.accept, Function.update_self, h.prefix_accepted _ hv, htake]
    · simp only [State.accept, Function.update_of_ne hv']
      exact h.prefix_accepted v hv

end Accepting

theorem step_preserves (h : Invariant N x s) (hs : Step N x s s') : Invariant N x s' := by
  cases hs with
  | send content targets own all => exact send_preserves h own all
  | accept c p rest head hne fresh => exact accept_preserves h head hne fresh
  | echo c p targets mem own => exact echo_preserves h mem own
  | take c p rest head stale => exact take_preserves h head stale

theorem reachable_invariant (h : Reachable N x s) : Invariant N x s := by
  induction h with
  | initial => exact initial_invariant
  | step _ hs ih => exact step_preserves ih hs

end Preservation

variable {N : Cabling V Chan} {x : V} {s : State V Chan M}

theorem accepted_prefix (h : Invariant N x s) {v : V} (hv : v ≠ x) :
    s.accepted v <+: s.log.reduceOption := by
  rw [h.prefix_accepted v hv]
  refine ⟨(s.log.drop (s.seen v)).reduceOption, ?_⟩
  rw [← List.reduceOption_append, List.take_append_drop]

def Linked (N : Cabling V Chan) (u v : V) : Prop := ∃ c, N.owner c = u ∧ N.remote c = v

theorem seen_of_connected (h : Invariant N x s) (hquiet : ∀ c, s.queue c = []) {v : V}
    (hconnected : Relation.ReflTransGen (Linked N) x v) :
    v ≠ x → ∀ i m, s.Flooded i m → i < s.seen v := by
  induction hconnected with
  | refl => exact fun hv => absurd rfl hv
  | @tail u w _ hlink ih =>
    rintro hw i m hi
    obtain ⟨c, rfl, rfl⟩ := hlink
    have hdealt : N.owner c = x ∨ i < s.seen (N.owner c) := by
      by_cases hu : N.owner c = x
      · exact Or.inl hu
      · exact Or.inr (ih hu i m hi)
    rcases h.cover c hw i m hi hdealt with hseen | hin
    · exact hseen
    · rw [hquiet c] at hin
      cases hin

/-- With nothing in flight, everything has arrived wherever it can. -/
theorem accepted_all (h : Invariant N x s) (hquiet : ∀ c, s.queue c = []) {v : V} (hv : v ≠ x)
    (hconnected : Relation.ReflTransGen (Linked N) x v) :
    s.accepted v = s.log.reduceOption := by
  rw [h.prefix_accepted v hv,
    ← reduceOption_take_gap (h.issued v hv) fun i m hi _ =>
      seen_of_connected h hquiet hconnected hv i m hi,
    List.take_length]

end SequencedFlooding
